import Flo.Protocol.Serialize
import Flo.Protocol.Frame

/-!
# Encoder and decoder together

`ProtocolMessage.Encodable` is the set of messages the encoder writes without loss: strings and
lists short enough for their `u16` prefixes, payloads for their `u32` lengths, non-zero event ids
where the decoder requires them, timestamps on whole milliseconds, and member addresses that
print and parse back. For those, `frame_serialize` shows that `serialize` writes a frame of the
grammar, so `parseAny` reads the message back (`parseAny_serialize`), and two encodable messages
with one frame decode alike (`decoded_eq_of_frameBytes_eq`).

In the other direction, every message the decoder produces is encodable (`Frame.encodable`), so
decoding followed by encoding and decoding again is stable (`parseAny_reencode`), and the round
trip holds on exactly the encodable messages (`parseAny_frameBytes_iff`). Outside the
domain the encoder's `as u16` casts wrap: `parseAny_serialize_wrapped_version_vector` decodes the
frame of a 65536-entry version vector as a different message.
-/

namespace Flo.Protocol

open Flo.Wire Flo.Nom

variable {T A : Type} [EventTime T] [SocketAddrText A]

/-- A parent id the wire carries faithfully: none, or an id with a non-zero counter. -/
def ParentEncodable (parentId : Option FloEventId) : Prop :=
  ∀ id ∈ parentId, id.eventCounter ≠ 0

/-- A member whose address prints as text that parses back to it. -/
def ClusterMember.Reprintable (member : ClusterMember A) : Prop :=
  SocketAddrText.fromStr (SocketAddrText.toString member.addr) = .ok member.addr

/-- A cluster state whose lists fit their `u16` counts, whose version vector has non-zero
counters, and whose member addresses print and parse back. -/
structure ClusterState.Encodable (state : ClusterState A) : Prop where
  versionVector_fits : state.versionVector.length < 2 ^ 16
  versionVector_ne_zero : ∀ id ∈ state.versionVector, id.eventCounter ≠ 0
  members_fits : state.otherMembers.length < 2 ^ 16
  members_reprintable : ∀ member ∈ state.otherMembers, member.Reprintable

/-- An event the `ReceiveEvent` frame carries faithfully. -/
structure OwnedFloEvent.Encodable (event : OwnedFloEvent T) : Prop where
  id_ne_zero : event.id.eventCounter ≠ 0
  parent : ParentEncodable event.parentId
  whole_millis :
    EventTime.fromMillisSinceEpoch (EventTime.millisSinceEpoch event.timestamp) = event.timestamp
  namespace_fits : event.namespace.Fits
  data_fits : event.data.length < 2 ^ 32

/-- The domain of the round trip: the messages `serialize` writes without loss. -/
def ProtocolMessage.Encodable : ProtocolMessage T A → Prop
  | .produceEvent produce =>
    produce.namespace.Fits ∧ ParentEncodable produce.parentId ∧ produce.data.bytes.length < 2 ^ 32
  | .receiveEvent event => event.intoOwned.Encodable
  | .startConsuming start => start.namespace.Fits
  | .peerAnnounce state => state.Encodable
  | .peerUpdate state => state.Encodable
  | .clientAuth ns username password => ns.Fits ∧ username.Fits ∧ password.Fits
  | .error err => err.description.Fits
  | _ => True

/-- What the decoder gives back for a message: a `ProduceEvent` as its header, with room reserved
for the payload, and a `ReceiveEvent` as an owned event. -/
def ProtocolMessage.decoded : ProtocolMessage T A → ProtocolMessage T A
  | .produceEvent produce =>
    .produceEvent ⟨produce.opId, produce.namespace, produce.parentId,
      .withCapacity produce.data.bytes.length⟩
  | .receiveEvent event => .receiveEvent (.owned event.intoOwned)
  | m => m

/-- The frame the encoder writes for a message: its header, and for a `ReceiveEvent` the payload
that the decoder reads with it. -/
def ProtocolMessage.frameBytes : ProtocolMessage T A → List UInt8
  | .receiveEvent event => (ProtocolMessage.receiveEvent event : ProtocolMessage T A).serialize ++
      event.intoOwned.data
  | m => m.serialize

/-! ## Encoding writes frames -/

/-- A parent id written as `(counter, actor)`, zeros for none, reads back as itself. -/
theorem parent_of_words {parentId : Option FloEventId} (h : ParentEncodable parentId) :
    (if (parentWords parentId).1 > 0 then
      some ⟨(parentWords parentId).2, (parentWords parentId).1⟩ else none) = parentId := by
  cases parentId with
  | none => rfl
  | some id =>
      have hpos : 0 < id.eventCounter := (pos_iff_ne_zero_u64 _).mpr (h id rfl)
      simp [parentWords, hpos]

theorem parentWords_eq (parentId : Option FloEventId) :
    parentWords parentId =
      ((parentId.map (·.eventCounter)).getD 0, (parentId.map (·.actor)).getD 0) := by
  cases parentId <;> rfl

/-- A member entry as the encoder writes it. -/
def memberBytes (member : ClusterMember A) : List UInt8 :=
  u16 member.actorId ++ str (SocketAddrText.toString member.addr) ++
    [if member.connected then 1 else 0]

theorem memberFrame_memberBytes {member : ClusterMember A} (h : member.Reprintable) :
    MemberFrame (memberBytes member) member := by
  obtain ⟨addr, actorId, connected⟩ := member
  have hframe := MemberFrame.mk actorId (SocketAddrText.toString addr) addr
    (if connected then 1 else 0) (SocketAddrText.toString_fits _) h
  cases connected <;> exact hframe

theorem clusterStateFrame_serialize {state : ClusterState A} (h : state.Encodable) :
    ClusterStateFrame (serializeClusterState 0 state).tail state := by
  have hmembers : List.Forall₂ MemberFrame (state.otherMembers.map memberBytes)
      state.otherMembers := by
    rw [List.forall₂_map_left_iff, List.forall₂_same]
    exact fun member hm => memberFrame_memberBytes (h.members_reprintable member hm)
  have hframe := ClusterStateFrame.mk state.actorId state.actorPort state.versionVector _ _
    h.versionVector_fits h.versionVector_ne_zero h.members_fits hmembers
  simpa [serializeClusterState_eq, List.flatMap, memberBytes, eventIdBytes] using hframe

/-- The encoder writes a frame of the grammar for every encodable message, and the frame denotes
what the decoder gives back. -/
theorem frame_serialize {M : ProtocolMessage T A} (hM : M.Encodable) :
    Frame M.frameBytes M.decoded := by
  cases M with
  | produceEvent produce =>
      obtain ⟨hns, hparent, hdata⟩ := hM
      have hframe := Frame.produceEvent (T := T) (A := A) produce.namespace
        (parentWords produce.parentId).1 (parentWords produce.parentId).2 produce.opId
        (UInt32.ofNat produce.data.bytes.length) hns
      rw [parent_of_words hparent,
        show (UInt32.ofNat produce.data.bytes.length).toNat = produce.data.bytes.length from
          Nat.mod_eq_of_lt hdata] at hframe
      simpa [ProtocolMessage.frameBytes, ProtocolMessage.serialize, ProtocolMessage.decoded,
        serializeNewProduceHeader] using hframe
  | receiveEvent event =>
      obtain ⟨hid, hparent, hmillis, hns, hdata⟩ := hM
      have hframe := Frame.receiveEvent (T := T) (A := A) event.intoOwned.id
        (parentWords event.intoOwned.parentId).1 (parentWords event.intoOwned.parentId).2
        (EventTime.millisSinceEpoch event.intoOwned.timestamp) event.intoOwned.namespace
        event.intoOwned.data hid hns hdata
      rw [parent_of_words hparent, hmillis, parentWords_eq] at hframe
      simpa [ProtocolMessage.frameBytes, ProtocolMessage.serialize, ProtocolMessage.decoded,
        serializeReceiveEventHeader, OwnedFloEvent.dataLen, eventIdBytes] using hframe
  | ackEvent ack =>
      simpa [ProtocolMessage.frameBytes, ProtocolMessage.serialize, ProtocolMessage.decoded,
        serializeEventAck] using
        Frame.ackEvent (T := T) (A := A) ack.opId ack.eventId.eventCounter ack.eventId.actor
  | updateMarker id =>
      simpa [ProtocolMessage.frameBytes, ProtocolMessage.serialize, ProtocolMessage.decoded] using
        Frame.updateMarker (T := T) (A := A) id.eventCounter id.actor
  | startConsuming start =>
      simpa [ProtocolMessage.frameBytes, ProtocolMessage.serialize, ProtocolMessage.decoded] using
        Frame.startConsuming (T := T) (A := A) start.opId start.namespace start.maxEvents hM
  | cursorCreated info =>
      simpa [ProtocolMessage.frameBytes, ProtocolMessage.serialize, ProtocolMessage.decoded] using
        Frame.cursorCreated (T := T) (A := A) info.opId info.batchSize
  | stopConsuming => exact .stopConsuming
  | setBatchSize batchSize =>
      simpa [ProtocolMessage.frameBytes, ProtocolMessage.serialize, ProtocolMessage.decoded] using
        Frame.setBatchSize (T := T) (A := A) batchSize
  | nextBatch => exact .nextBatch
  | endOfBatch => exact .endOfBatch
  | awaitingEvents => exact .awaitingEvents
  | peerAnnounce state =>
      have hbody := clusterStateFrame_serialize hM
      simpa [ProtocolMessage.frameBytes, ProtocolMessage.serialize, ProtocolMessage.decoded,
        serializeClusterState_eq] using Frame.peerAnnounce _ _ hbody
  | peerUpdate state =>
      have hbody := clusterStateFrame_serialize hM
      simpa [ProtocolMessage.frameBytes, ProtocolMessage.serialize, ProtocolMessage.decoded,
        serializeClusterState_eq] using Frame.peerUpdate _ _ hbody
  | clientAuth ns username password =>
      obtain ⟨hns, husername, hpassword⟩ := hM
      simpa [ProtocolMessage.frameBytes, ProtocolMessage.serialize, ProtocolMessage.decoded] using
        Frame.clientAuth (T := T) (A := A) ns username password hns husername hpassword
  | error err =>
      simpa [ProtocolMessage.frameBytes, ProtocolMessage.serialize, ProtocolMessage.decoded,
        serializeErrorMessage] using
        Frame.error (T := T) (A := A) err.opId err.kind err.description hM

/-- Decoding the encoder's frame followed by any bytes gives back the message and the bytes. -/
theorem parseAny_frameBytes {M : ProtocolMessage T A} (hM : M.Encodable) (s : List UInt8) :
    parseAny (M.frameBytes ++ s) = .done s M.decoded :=
  parseAny_eq_done_iff.mpr ⟨_, frame_serialize hM, rfl⟩

/-- The round trip: `parse_any` reads `serialize(M)`, then the body, then any bytes, back as `M`;
a `ReceiveEvent` comes back owned, and a `ProduceEvent` as its header, its payload left unread. -/
theorem parseAny_serialize {M : ProtocolMessage T A} (hM : M.Encodable) (s : List UInt8) :
    parseAny (M.serialize ++ M.getBody.getD [] ++ s) =
      match M with
      | .produceEvent P => .done (P.data.bytes ++ s)
          (.produceEvent ⟨P.opId, P.namespace, P.parentId, .withCapacity P.data.bytes.length⟩)
      | .receiveEvent e => .done s (.receiveEvent (.owned e.intoOwned))
      | _ => .done s M := by
  have h := parseAny_frameBytes hM
  cases M with
  | produceEvent P =>
      rw [List.append_assoc]
      exact h _
  | receiveEvent e => exact h s
  | _ =>
      show parseAny (_ ++ [] ++ s) = _
      rw [List.append_nil]
      exact h s

/-- Encoding loses nothing the decoder keeps: two encodable messages with the same frame decode to
the same message. -/
theorem decoded_eq_of_frameBytes_eq {M M' : ProtocolMessage T A} (hM : M.Encodable)
    (hM' : M'.Encodable) (h : M.frameBytes = M'.frameBytes) : M.decoded = M'.decoded := by
  have hround := parseAny_frameBytes hM []
  rw [h, parseAny_frameBytes hM' [], IResult.done.injEq] at hround
  exact hround.2.symm

/-- A `ProduceEvent` with op id `9`, namespace `/a`, no parent and the one-byte payload `byte`. -/
def sampleProduce (byte : UInt8) : ProtocolMessage UInt64 Unit :=
  .produceEvent ⟨9, ⟨[47, 97], by decide⟩, none, ⟨[byte], 1, Nat.le_refl 1⟩⟩

theorem sampleProduce_encodable (byte : UInt8) : (sampleProduce byte).Encodable :=
  ⟨show 2 < 2 ^ 16 by decide, (fun _ h => nomatch h), show 1 < 2 ^ 32 by decide⟩

/-- Two `ProduceEvent`s that differ only in their payloads share a header. -/
theorem decoded_eq_of_frameBytes_eq_produce :
    (sampleProduce 1).Encodable ∧ (sampleProduce 2).Encodable ∧
      (sampleProduce 1).frameBytes = (sampleProduce 2).frameBytes ∧
      (sampleProduce 1).decoded = (sampleProduce 2).decoded :=
  have h : (sampleProduce 1).frameBytes = (sampleProduce 2).frameBytes := rfl
  ⟨sampleProduce_encodable 1, sampleProduce_encodable 2, h,
    decoded_eq_of_frameBytes_eq (sampleProduce_encodable 1) (sampleProduce_encodable 2) h⟩

/-- An event with id `(7, 1)`, no parent, namespace `/a` and a two-byte payload. -/
def sampleEvent : OwnedFloEvent UInt64 := ⟨⟨1, 7⟩, 1500, none, ⟨[47, 97], by decide⟩, [4, 2]⟩

theorem parseAny_serialize_receiveEvent_ref :
    (ProtocolMessage.receiveEvent (.ref sampleEvent) : ProtocolMessage UInt64 Unit).Encodable ∧
      parseAny (((.receiveEvent (.ref sampleEvent) : ProtocolMessage UInt64 Unit).serialize ++
          [4, 2] ++ [4, 3, 2, 1])) =
        (.done [4, 3, 2, 1] (.receiveEvent (.owned sampleEvent)) :
          IResult (ProtocolMessage _ Unit)) :=
  have hM : (ProtocolMessage.receiveEvent (.ref sampleEvent) :
      ProtocolMessage UInt64 Unit).Encodable :=
    ⟨by decide, (fun _ h => nomatch h), rfl, by decide, by decide⟩
  ⟨hM, parseAny_serialize hM [4, 3, 2, 1]⟩

/-! ## Decoded messages are encodable -/

theorem parentEncodable_of_words (counter : UInt64) (actor : UInt16) :
    ParentEncodable (if counter > 0 then some ⟨actor, counter⟩ else none) := by
  intro id hid
  split at hid
  · cases hid
    exact (pos_iff_ne_zero_u64 _).mp ‹_›
  · cases hid

theorem MemberFrame.reprintable {f : List UInt8} {member : ClusterMember A}
    (h : MemberFrame f member) : member.Reprintable := by
  cases h with
  | mk _ _ _ _ _ haddr => exact SocketAddrText.fromStr_toString haddr

theorem reprintable_of_forall₂ {fs : List (List UInt8)} {members : List (ClusterMember A)}
    (h : List.Forall₂ MemberFrame fs members) : ∀ member ∈ members, member.Reprintable := by
  induction h with
  | nil => simp
  | cons hhead _ ih => exact List.forall_mem_cons.mpr ⟨hhead.reprintable, ih⟩

theorem ClusterStateFrame.encodable {f : List UInt8} {state : ClusterState A}
    (h : ClusterStateFrame f state) : state.Encodable := by
  cases h with
  | mk _ _ _ _ _ hvv hne hmembers hfs => exact ⟨hvv, hne, hmembers, reprintable_of_forall₂ hfs⟩

/-- Whatever the decoder accepts lies in the domain of the round trip. -/
theorem Frame.encodable {f : List UInt8} {M : ProtocolMessage T A} (hf : Frame f M) :
    M.Encodable := by
  cases hf with
  | clientAuth _ _ _ hns husername hpassword => exact ⟨hns, husername, hpassword⟩
  | produceEvent _ counter actor _ _ hns =>
      exact ⟨hns, parentEncodable_of_words counter actor, by simp [ByteVec.withCapacity]⟩
  | receiveEvent _ counter actor millis _ _ hid hns hdata =>
      exact ⟨hid, parentEncodable_of_words counter actor,
        congrArg EventTime.fromMillisSinceEpoch (EventTime.millis_fromMillis millis), hns, hdata⟩
  | startConsuming _ _ _ hns => exact hns
  | peerAnnounce _ _ hbody => exact hbody.encodable
  | peerUpdate _ _ hbody => exact hbody.encodable
  | error _ _ _ hdescription => exact hdescription
  | _ => trivial

/-- Apart from `ProduceEvent` headers, the decoder's messages are their own decoded form. -/
theorem Frame.decoded_eq {f : List UInt8} {M : ProtocolMessage T A} (hf : Frame f M)
    (hM : ∀ P, M ≠ .produceEvent P) : M.decoded = M := by
  cases hf with
  | produceEvent _ _ _ _ _ _ => exact absurd rfl (hM _)
  | _ => rfl

theorem frameBytes_eq {M : ProtocolMessage T A} (hM : ∀ P, M ≠ .produceEvent P) :
    M.frameBytes = M.serialize ++ M.getBody.getD [] := by
  cases M with
  | produceEvent P => exact absurd rfl (hM P)
  | receiveEvent e => rfl
  | _ => exact (List.append_nil _).symm

/-- Re-encoding what the decoder produced: the message is encodable, and serializing it with its
body gives back the same message. -/
theorem parseAny_reencode {b r : List UInt8} {M : ProtocolMessage T A}
    (h : parseAny b = .done r M) (hM : ∀ P, M ≠ .produceEvent P) :
    M.Encodable ∧ ∀ s, parseAny (M.serialize ++ M.getBody.getD [] ++ s) = .done s M := by
  obtain ⟨f, hf, -⟩ := parseAny_eq_done_iff.mp h
  refine ⟨hf.encodable, fun s => ?_⟩
  have hround := parseAny_frameBytes hf.encodable s
  rwa [frameBytes_eq hM, hf.decoded_eq hM] at hround

/-- A message whose decoded form is the message of a frame is encodable: the decoded form keeps
every field the domain constrains, and a `ProduceEvent` header keeps its payload's length as the
room it reserves, which the frame reads as a `u32`. -/
theorem encodable_of_frame_decoded {f : List UInt8} {M : ProtocolMessage T A}
    (hf : Frame f M.decoded) : M.Encodable := by
  have henc := hf.encodable
  cases M with
  | produceEvent P =>
      refine ⟨henc.1, henc.2.1, ?_⟩
      generalize hm : (ProtocolMessage.produceEvent P : ProtocolMessage T A).decoded = m at hf
      cases hf with
      | produceEvent _ _ _ _ dataLen _ =>
          simp only [ProtocolMessage.decoded, ProtocolMessage.produceEvent.injEq,
            ProduceEvent.mk.injEq, ByteVec.withCapacity, ByteVec.mk.injEq] at hm
          rw [hm.2.2.2.2]
          exact dataLen.toNat_lt_size
      | _ => cases hm
  | _ => exact henc

/-- The round trip holds on exactly the encodable messages: the decoder reads the encoder's frame
of `M`, followed by any bytes, back as `M`'s decoded form if and only if `M` is encodable. Each
condition of the domain is needed: a string, list or payload too long for its length field, a
zero event id, a parent id with a zero counter, a timestamp off whole milliseconds, or an address
that does not parse back, breaks the round trip whatever bytes follow. -/
theorem parseAny_frameBytes_iff (M : ProtocolMessage T A) (s : List UInt8) :
    parseAny (M.frameBytes ++ s) = .done s M.decoded ↔ M.Encodable := by
  refine ⟨fun h => ?_, fun hM => parseAny_frameBytes hM s⟩
  obtain ⟨f, hf, -⟩ := parseAny_eq_done_iff.mp h
  exact encodable_of_frame_decoded hf

/-- A `PeerUpdate` whose one member has the connected byte `2`, which decodes as disconnected. -/
theorem parseAny_reencode_peerUpdate :
    let M : ProtocolMessage UInt64 Unit := .peerUpdate ⟨1, 2, [], [⟨(), 3, false⟩]⟩
    parseAny [8, 0, 1, 0, 2, 0, 0, 0, 1, 0, 3, 0, 9, 48, 46, 48, 46, 48, 46, 48, 58, 48, 2] =
        .done [] M ∧ (∀ P, M ≠ .produceEvent P) ∧
      M.Encodable ∧ ∀ s, parseAny (M.serialize ++ M.getBody.getD [] ++ s) = .done s M :=
  have h : parseAny [8, 0, 1, 0, 2, 0, 0, 0, 1, 0, 3, 0, 9, 48, 46, 48, 46, 48, 46, 48, 58, 48, 2] =
      .done [] (.peerUpdate ⟨1, 2, [], [⟨(), 3, false⟩]⟩ : ProtocolMessage UInt64 Unit) := by
    decide
  have hM : ∀ P, (.peerUpdate ⟨1, 2, [], [⟨(), 3, false⟩]⟩ : ProtocolMessage UInt64 Unit) ≠
      .produceEvent P := fun _ => nofun
  ⟨h, hM, parseAny_reencode h hM⟩

/-! ## Lengths past their fields -/

/-- A version vector with an entry, of counter `1`, for each of the 65536 actor ids: one more
entry than its `u16` count can say. -/
def fullVersionVector : List FloEventId :=
  (List.range 65536).map fun actor => ⟨UInt16.ofNat actor, 1⟩

theorem length_fullVersionVector : fullVersionVector.length = 65536 := by
  rw [fullVersionVector, List.length_map, List.length_range]

/-- The first entry is `(1, 0)`, whose first two bytes are zero. -/
theorem flatMap_fullVersionVector :
    fullVersionVector.flatMap eventIdBytes =
      u16 0 ++ (fullVersionVector.flatMap eventIdBytes).drop 2 := by
  obtain ⟨tail, htail⟩ : ∃ tail, fullVersionVector = ⟨0, 1⟩ :: tail :=
    ⟨_, by rw [fullVersionVector, List.range_succ_eq_map 65535, List.map_cons]; rfl⟩
  have hfirst : eventIdBytes ⟨0, 1⟩ = u16 0 ++ [0, 0, 0, 0, 0, 1, 0, 0] := by decide
  rw [htail, List.flatMap_cons, hfirst, List.append_assoc, List.drop_left' (length_u16 0)]

/-- The encoder writes the count of a 65536-entry version vector as `0`. The decoder then reads
no version vector, takes the first two bytes of the first entry as a member count of `0`, and
stops: it returns a `PeerAnnounce` of an empty cluster and leaves the rest of the vector, and the
true member count, unread in front of the bytes that follow. -/
theorem parseAny_serialize_wrapped_version_vector (s : List UInt8) :
    parseAny (T := T) (A := A)
        ((ProtocolMessage.peerAnnounce (T := T) (A := A) ⟨0, 0, fullVersionVector, []⟩).serialize ++
          s) =
      .done ((fullVersionVector.flatMap eventIdBytes).drop 2 ++ u16 0 ++ s)
        (.peerAnnounce ⟨0, 0, [], []⟩) := by
  have hframe : Frame (T := T) (A := A) (Headers.peerAnnounce :: u16 0 ++ u16 0 ++ u16 0 ++ u16 0)
      (.peerAnnounce ⟨0, 0, [], []⟩) :=
    .peerAnnounce _ _ (.mk 0 0 [] [] [] (Nat.two_pow_pos 16) (by simp) (Nat.two_pow_pos 16) .nil)
  refine parseAny_eq_done_iff.mpr ⟨_, hframe, ?_⟩
  have hcount : UInt16.ofNat fullVersionVector.length = 0 := by
    rw [length_fullVersionVector]
    rfl
  show serializeClusterState Headers.peerAnnounce _ ++ s = _
  rw [serializeClusterState_eq, hcount,
    show (fun id : FloEventId => u64 id.eventCounter ++ u16 id.actor) = eventIdBytes from rfl]
  conv_lhs => rw [flatMap_fullVersionVector]
  simp

end Flo.Protocol
