import Flo.Wire

/-!
# The messages of the flo wire protocol

`ProtocolMessage` and its payload records, after `flo-protocol/src/client.rs`. Parts of the
data model live outside that file. The event types (`ActorId`, `FloEventId`, `OwnedFloEvent`) and
timestamps come from the `event` module, which is not in the sources, and are modelled from the
spec's data model. Cluster members carry a `std::net::SocketAddr`. Timestamps and addresses enter
as classes: `EventTime` gives the two millisecond conversions the protocol calls, and
`SocketAddrText` gives the address's `Display` text and its `FromStr` parse, with the two facts of
the standard library the codec relies on.
-/

namespace Flo.Protocol

open Flo.Wire

/-- Modelled from the spec: the `event` module is missing from src/. A server's id, `ActorId`, is
a `u16`. -/
abbrev ActorId := UInt16

/-- Modelled from the spec: the `event` module is missing from src/. `FloEventId` is the actor
that issued an event and the counter it gave it; a counter of zero stands for "no event". -/
structure FloEventId where
  actor : ActorId
  eventCounter : UInt64
deriving DecidableEq, Repr

/-- Modelled from the spec: the `event::time` module is missing from src/. A timestamp is stored
as milliseconds since the Unix epoch, so one built from `n` milliseconds reads back as `n`. -/
class EventTime (T : Type) where
  fromMillisSinceEpoch : UInt64 → T
  millisSinceEpoch : T → UInt64
  millis_fromMillis : ∀ millis, millisSinceEpoch (fromMillisSinceEpoch millis) = millis

/-- `std::net::SocketAddr` through its text form: `toString` is its `Display` and `fromStr` its
`FromStr`. The standard library prints an address in a few dozen bytes, and prints a parsed
address as text that parses back to it. -/
class SocketAddrText (A : Type) where
  toString : A → RString
  fromStr : RString → Except Unit A
  toString_fits : ∀ addr, (toString addr).Fits
  fromStr_toString : ∀ {text addr}, fromStr text = .ok addr → fromStr (toString addr) = .ok addr

/-! The message tags, one byte at the front of every frame. -/

namespace Headers

def clientAuth : UInt8 := 1
def produceEvent : UInt8 := 2
def receiveEvent : UInt8 := 3
def updateMarker : UInt8 := 4
def startConsuming : UInt8 := 5
def awaitingEvents : UInt8 := 6
def peerAnnounce : UInt8 := 7
def peerUpdate : UInt8 := 8
def ackHeader : UInt8 := 9
def errorHeader : UInt8 := 10
def clusterState : UInt8 := 11
def setBatchSize : UInt8 := 12
def nextBatch : UInt8 := 13
def endOfBatch : UInt8 := 14
def stopConsuming : UInt8 := 15
def cursorCreated : UInt8 := 16

end Headers

def errorInvalidNamespace : UInt8 := 15
def errorInvalidConsumerState : UInt8 := 16
def errorInvalidVersionVector : UInt8 := 17
def errorStorageEngineIo : UInt8 := 18

/-- The kind of an error reply, serialized as one byte. -/
inductive ErrorKind where
  | invalidNamespaceGlob
  | invalidConsumerState
  | invalidVersionVector
  | storageEngineError
deriving DecidableEq, Repr

/-- `ErrorKind::from_u8`: the kind a byte names, or the byte itself when it names none. -/
def ErrorKind.fromU8 (byte : UInt8) : Except UInt8 ErrorKind :=
  if byte = errorInvalidNamespace then .ok .invalidNamespaceGlob
  else if byte = errorInvalidConsumerState then .ok .invalidConsumerState
  else if byte = errorInvalidVersionVector then .ok .invalidVersionVector
  else if byte = errorStorageEngineIo then .ok .storageEngineError
  else .error byte

/-- `ErrorKind::u8_value`. -/
def ErrorKind.u8Value : ErrorKind → UInt8
  | .invalidNamespaceGlob => errorInvalidNamespace
  | .invalidConsumerState => errorInvalidConsumerState
  | .invalidVersionVector => errorInvalidVersionVector
  | .storageEngineError => errorStorageEngineIo

@[simp] theorem ErrorKind.fromU8_u8Value (kind : ErrorKind) : fromU8 kind.u8Value = .ok kind := by
  cases kind <;> rfl

/-- The bytes `fromU8` accepts are exactly the four codes `15` to `18`. -/
theorem ErrorKind.fromU8_eq_ok {byte : UInt8} {kind : ErrorKind} :
    fromU8 byte = .ok kind ↔ kind.u8Value = byte := by
  refine ⟨fun h => ?_, fun h => h ▸ fromU8_u8Value kind⟩
  unfold fromU8 at h
  split_ifs at h <;> cases h <;> simp [u8Value, *]

/-- `ErrorMessage`: the reply to a request that failed. -/
structure ErrorMessage where
  opId : UInt32
  kind : ErrorKind
  description : RString
deriving DecidableEq

/-- A `Vec<u8>`: its bytes and the capacity reserved for it. -/
structure ByteVec where
  bytes : List UInt8
  capacity : Nat
  length_le : bytes.length ≤ capacity
deriving DecidableEq

/-- `Vec::with_capacity(n)`: no bytes yet, room for `n`. -/
def ByteVec.withCapacity (n : Nat) : ByteVec := ⟨[], n, Nat.zero_le n⟩

/-- `ProduceEvent`: a producer's new event. `data` is its payload; the header the server
decodes has no payload bytes yet, only room reserved for them. -/
structure ProduceEvent where
  opId : UInt32
  «namespace» : RString
  parentId : Option FloEventId
  data : ByteVec
deriving DecidableEq

/-- `EventAck`: the id the server assigned to a produced event. -/
structure EventAck where
  opId : UInt32
  eventId : FloEventId
deriving DecidableEq

/-- `ConsumerStart`: a request to read up to `maxEvents` events of a namespace glob. -/
structure ConsumerStart where
  opId : UInt32
  maxEvents : UInt64
  «namespace» : RString
deriving DecidableEq

/-- `ClusterMember`: one peer as the sender of a `ClusterState` sees it. -/
structure ClusterMember (A : Type) where
  addr : A
  actorId : ActorId
  connected : Bool
deriving DecidableEq

/-- `ClusterState`: one actor's view of the cluster. -/
structure ClusterState (A : Type) where
  actorId : ActorId
  actorPort : UInt16
  versionVector : List FloEventId
  otherMembers : List (ClusterMember A)
deriving DecidableEq

/-- `CursorInfo`: the reply to `StartConsuming`. -/
structure CursorInfo where
  opId : UInt32
  batchSize : UInt32
deriving DecidableEq

/-- Modelled from the spec: the `event` module is missing from src/. `OwnedFloEvent` is a
complete event, with the fields of the spec's common capability set. -/
structure OwnedFloEvent (T : Type) where
  id : FloEventId
  timestamp : T
  parentId : Option FloEventId
  «namespace» : RString
  data : List UInt8
deriving DecidableEq

/-- `RecvEvent`: an event owned by the message, or shared through an `Arc`. The shared handle is
modelled by the event it points to. -/
inductive RecvEvent (T : Type) where
  | owned (event : OwnedFloEvent T)
  | ref (event : OwnedFloEvent T)
deriving DecidableEq

/-- The event behind either representation; `into_owned` and every `FloEvent` accessor of
`RecvEvent` read through it. -/
def RecvEvent.intoOwned {T : Type} : RecvEvent T → OwnedFloEvent T
  | .owned event => event
  | .ref event => event

/-- Modelled from the spec: the `event` module is missing from src/. `data_len` is the payload
length as a `u32`. -/
def OwnedFloEvent.dataLen {T : Type} (event : OwnedFloEvent T) : UInt32 :=
  UInt32.ofNat event.data.length

/-- `ProtocolMessage`: every message that travels between clients and servers. -/
inductive ProtocolMessage (T A : Type) where
  | produceEvent (event : ProduceEvent)
  | receiveEvent (event : RecvEvent T)
  | ackEvent (ack : EventAck)
  | updateMarker (id : FloEventId)
  | startConsuming (start : ConsumerStart)
  | cursorCreated (info : CursorInfo)
  | stopConsuming
  | setBatchSize (batchSize : UInt32)
  | nextBatch
  | endOfBatch
  | awaitingEvents
  | peerAnnounce (state : ClusterState A)
  | peerUpdate (state : ClusterState A)
  | clientAuth («namespace» username password : RString)
  | error (message : ErrorMessage)
deriving DecidableEq

namespace ProtocolMessage

variable {T A : Type}

/-- `get_body`: the payload that follows the header of a `ProduceEvent` or `ReceiveEvent`. -/
def getBody : ProtocolMessage T A → Option (List UInt8)
  | .produceEvent produce => some produce.data.bytes
  | .receiveEvent event => some event.intoOwned.data
  | _ => none

/-- `get_op_id`: the operation id a message carries, or `0`. -/
def getOpId : ProtocolMessage T A → UInt32
  | .produceEvent produce => produce.opId
  | .startConsuming start => start.opId
  | .cursorCreated info => info.opId
  | .error err => err.opId
  | .ackEvent ack => ack.opId
  | _ => 0

end ProtocolMessage

/-! ## Concrete instances

Timestamps held as their milliseconds, and a single address, `0.0.0.0:0`: enough to run the
codec on concrete messages. -/

instance : EventTime UInt64 where
  fromMillisSinceEpoch millis := millis
  millisSinceEpoch millis := millis
  millis_fromMillis _ := rfl

/-- The text `0.0.0.0:0`. -/
def unspecifiedAddrText : RString := ⟨[48, 46, 48, 46, 48, 46, 48, 58, 48], by decide⟩

instance : SocketAddrText Unit where
  toString _ := unspecifiedAddrText
  fromStr text := if text = unspecifiedAddrText then .ok () else .error ()
  toString_fits _ := show unspecifiedAddrText.Fits by decide
  fromStr_toString _ := by simp

end Flo.Protocol
