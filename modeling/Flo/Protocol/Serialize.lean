import Flo.Protocol.Message

/-!
# The encoder

`ProtocolMessage::serialize` and its helpers, after `client.rs`. Every message is written through
a `Serializer`, whose module is not in the sources: its writes are modelled from the spec's frame
layout (big-endian numbers, strings as a `u16` length and the bytes). `serialize` is the byte
string written at the front of the caller's buffer; the Rust function returns its length.

The counts and lengths are written as the code writes them, by `as u16` and `as u32` casts, so a
list or payload too long for its field is written with its length wrapped (`Flo.Protocol.Codec`
shows where that leads). `serializeClusterState_eq` flattens the two loops of a cluster state into
the wire words they write.
-/

namespace Flo.Protocol

open Flo.Wire

/-- Modelled from the spec: the `serializer` module is missing from src/. A serializer writes at
the front of a buffer, which is assumed large enough (the Rust code panics on a short one), and is
modelled by the bytes it has written. -/
structure Serializer where
  written : List UInt8

namespace Serializer

/-- `Serializer::new(buf)`. -/
def new : Serializer := ⟨[]⟩

/-- `write_u8`. -/
def writeU8 (ser : Serializer) (v : UInt8) : Serializer := ⟨ser.written ++ [v]⟩

/-- `write_u16`: two big-endian bytes. -/
def writeU16 (ser : Serializer) (v : UInt16) : Serializer := ⟨ser.written ++ u16 v⟩

/-- `write_u32`: four big-endian bytes. -/
def writeU32 (ser : Serializer) (v : UInt32) : Serializer := ⟨ser.written ++ u32 v⟩

/-- `write_u64`: eight big-endian bytes. -/
def writeU64 (ser : Serializer) (v : UInt64) : Serializer := ⟨ser.written ++ u64 v⟩

/-- `write_string`: the byte length `as u16`, then the bytes. -/
def writeString (ser : Serializer) (s : RString) : Serializer :=
  ⟨(ser.writeU16 (UInt16.ofNat s.bytes.length)).written ++ s.bytes⟩

/-- `write_bool`: one byte, `1` or `0`. -/
def writeBool (ser : Serializer) (b : Bool) : Serializer := ser.writeU8 (if b then 1 else 0)

/-- `finish`: what was written. -/
def finish (ser : Serializer) : List UInt8 := ser.written

@[simp] theorem written_new : new.written = [] := rfl
@[simp] theorem written_writeU8 (ser : Serializer) (v : UInt8) :
    (ser.writeU8 v).written = ser.written ++ [v] := rfl
@[simp] theorem written_writeU16 (ser : Serializer) (v : UInt16) :
    (ser.writeU16 v).written = ser.written ++ u16 v := rfl
@[simp] theorem written_writeU32 (ser : Serializer) (v : UInt32) :
    (ser.writeU32 v).written = ser.written ++ u32 v := rfl
@[simp] theorem written_writeU64 (ser : Serializer) (v : UInt64) :
    (ser.writeU64 v).written = ser.written ++ u64 v := rfl
@[simp] theorem written_writeString (ser : Serializer) (s : RString) :
    (ser.writeString s).written = ser.written ++ str s := by
  simp [writeString, str]
@[simp] theorem written_writeBool (ser : Serializer) (b : Bool) :
    (ser.writeBool b).written = ser.written ++ [if b then 1 else 0] := rfl
@[simp] theorem finish_eq (ser : Serializer) : ser.finish = ser.written := rfl

end Serializer

variable {T A : Type} [EventTime T] [SocketAddrText A]

/-- The parent id on the wire: `(0, 0)` for none. -/
def parentWords (parentId : Option FloEventId) : UInt64 × UInt16 :=
  (parentId.map fun id => (id.eventCounter, id.actor)).getD (0, 0)

/-- `serialize_new_produce_header`: the header of a `ProduceEvent`; the payload is not written. -/
def serializeNewProduceHeader (header : ProduceEvent) : List UInt8 :=
  let (counter, actor) := parentWords header.parentId
  Serializer.new.writeU8 Headers.produceEvent
    |>.writeString header.namespace
    |>.writeU64 counter
    |>.writeU16 actor
    |>.writeU32 header.opId
    |>.writeU32 (UInt32.ofNat header.data.bytes.length)
    |>.finish

/-- `serialize_event_ack`. -/
def serializeEventAck (ack : EventAck) : List UInt8 :=
  Serializer.new.writeU8 Headers.ackHeader
    |>.writeU32 ack.opId
    |>.writeU64 ack.eventId.eventCounter
    |>.writeU16 ack.eventId.actor
    |>.finish

/-- `serialize_error_message`. -/
def serializeErrorMessage (err : ErrorMessage) : List UInt8 :=
  Serializer.new.writeU8 Headers.errorHeader
    |>.writeU32 err.opId
    |>.writeU8 err.kind.u8Value
    |>.writeString err.description
    |>.finish

/-- One version-vector entry: `(counter, actor)`. -/
def Serializer.writeEventId (ser : Serializer) (id : FloEventId) : Serializer :=
  ser.writeU64 id.eventCounter |>.writeU16 id.actor

/-- One member entry: the actor id, the address's text, and the connected flag. -/
def Serializer.writeMember (ser : Serializer) (member : ClusterMember A) : Serializer :=
  ser.writeU16 member.actorId
    |>.writeString (SocketAddrText.toString member.addr)
    |>.writeBool member.connected

/-- `serialize_cluster_state`: the header, the actor and its port, then the version vector and
the members, each preceded by its length `as u16`, written by the two `for` loops. -/
def serializeClusterState (header : UInt8) (state : ClusterState A) : List UInt8 :=
  let ser := Serializer.new.writeU8 header
    |>.writeU16 state.actorId
    |>.writeU16 state.actorPort
    |>.writeU16 (UInt16.ofNat state.versionVector.length)
  let ser := state.versionVector.foldl Serializer.writeEventId ser
  let ser := ser.writeU16 (UInt16.ofNat state.otherMembers.length)
  let ser := state.otherMembers.foldl Serializer.writeMember ser
  ser.finish

/-- `serialize_receive_event_header`: the header of a `ReceiveEvent`; the payload follows it. -/
def serializeReceiveEventHeader (event : RecvEvent T) : List UInt8 :=
  let e := event.intoOwned
  Serializer.new.writeU8 Headers.receiveEvent
    |>.writeU64 e.id.eventCounter
    |>.writeU16 e.id.actor
    |>.writeU64 ((e.parentId.map (·.eventCounter)).getD 0)
    |>.writeU16 ((e.parentId.map (·.actor)).getD 0)
    |>.writeU64 (EventTime.millisSinceEpoch e.timestamp)
    |>.writeString e.namespace
    |>.writeU32 e.dataLen
    |>.finish

/-- `ProtocolMessage::serialize`: the header bytes of a message. -/
def ProtocolMessage.serialize : ProtocolMessage T A → List UInt8
  | .receiveEvent event => serializeReceiveEventHeader event
  | .cursorCreated info =>
    Serializer.new.writeU8 Headers.cursorCreated |>.writeU32 info.opId |>.writeU32 info.batchSize
      |>.finish
  | .awaitingEvents => Serializer.new.writeU8 Headers.awaitingEvents |>.finish
  | .stopConsuming => Serializer.new.writeU8 Headers.stopConsuming |>.finish
  | .produceEvent header => serializeNewProduceHeader header
  | .startConsuming ⟨opId, maxEvents, ns⟩ =>
    Serializer.new.writeU8 Headers.startConsuming |>.writeU32 opId |>.writeString ns
      |>.writeU64 maxEvents |>.finish
  | .updateMarker id =>
    Serializer.new.writeU8 Headers.updateMarker |>.writeU64 id.eventCounter |>.writeU16 id.actor
      |>.finish
  | .clientAuth ns username password =>
    Serializer.new.writeU8 Headers.clientAuth |>.writeString ns |>.writeString username
      |>.writeString password |>.finish
  | .peerUpdate state => serializeClusterState Headers.peerUpdate state
  | .peerAnnounce state => serializeClusterState Headers.peerAnnounce state
  | .ackEvent ack => serializeEventAck ack
  | .error err => serializeErrorMessage err
  | .setBatchSize batchSize =>
    Serializer.new.writeU8 Headers.setBatchSize |>.writeU32 batchSize |>.finish
  | .nextBatch => [Headers.nextBatch]
  | .endOfBatch => [Headers.endOfBatch]

/-! ## The written bytes -/

theorem foldl_writeEventId (ser : Serializer) (ids : List FloEventId) :
    (ids.foldl Serializer.writeEventId ser).written =
      ser.written ++ ids.flatMap fun id => u64 id.eventCounter ++ u16 id.actor := by
  induction ids generalizing ser with
  | nil => simp
  | cons id ids ih => simp [ih, Serializer.writeEventId]

theorem foldl_writeMember (ser : Serializer) (members : List (ClusterMember A)) :
    (members.foldl Serializer.writeMember ser).written =
      ser.written ++ members.flatMap fun member =>
        u16 member.actorId ++ str (SocketAddrText.toString member.addr) ++
          [if member.connected then 1 else 0] := by
  induction members generalizing ser with
  | nil => simp
  | cons member members ih => simp [ih, Serializer.writeMember]

/-- The bytes of a cluster state: its words, then each list behind its wrapped length. -/
theorem serializeClusterState_eq (header : UInt8) (state : ClusterState A) :
    serializeClusterState header state =
      header :: u16 state.actorId ++ u16 state.actorPort ++
        u16 (UInt16.ofNat state.versionVector.length) ++
        state.versionVector.flatMap (fun id => u64 id.eventCounter ++ u16 id.actor) ++
        u16 (UInt16.ofNat state.otherMembers.length) ++
        state.otherMembers.flatMap fun member =>
          u16 member.actorId ++ str (SocketAddrText.toString member.addr) ++
            [if member.connected then 1 else 0] := by
  simp [serializeClusterState, foldl_writeMember, foldl_writeEventId]

end Flo.Protocol
