import Flo.Protocol.Dispatch

/-!
# The frame grammar

`Frame f m` is the wire layout of §4.A of the spec, written independently of the parsers: a tag
byte, then the message's fields as big-endian words, `u16`-length-prefixed UTF-8 strings, and
`u16`-counted lists, with the side conditions the decoder checks (non-zero event ids, known
error codes, parseable member addresses). `MemberFrame` and `ClusterStateFrame` describe the
body shared by `PeerAnnounce` and `PeerUpdate`.

The parsers are characterised field by field (`parseStr_eq_done`, `parseClusterState_eq_done`,
...), and `parseAny_eq_done_iff` puts them together with the tag dispatch of
`Flo.Protocol.Dispatch`: `parseAny` returns `Done(rest, m)` exactly on the inputs that are a
frame of `m` followed by `rest`. The frames are a prefix-free code (`frame_unique`), so a byte
string is a concatenation of frames in at most one way (`frames_flatten_unique`), and the two
framing errors the spec names, a zero event id and a string that is not UTF-8, make `parseAny`
fail whatever bytes follow.
-/

namespace Flo.Protocol

open Flo.Wire Flo.Nom

variable {T A : Type} [EventTime T] [SocketAddrText A]

/-- An event id on the wire: the counter, then the actor. -/
def eventIdBytes (id : FloEventId) : List UInt8 := u64 id.eventCounter ++ u16 id.actor

/-- A member entry of `cluster_state`: the actor id, an address string that parses as a socket
address, and a byte that means `connected` exactly when it is `1`. -/
inductive MemberFrame : List UInt8 → ClusterMember A → Prop
  | mk (actorId : UInt16) (text : RString) (addr : A) (byte : UInt8) :
      text.Fits → SocketAddrText.fromStr text = .ok addr →
      MemberFrame (u16 actorId ++ str text ++ [byte]) ⟨addr, actorId, byte == 1⟩

/-- The body of `PeerAnnounce` and `PeerUpdate`: actor id, port, a counted version vector of
non-zero ids, and a counted list of member entries. -/
inductive ClusterStateFrame : List UInt8 → ClusterState A → Prop
  | mk (actorId actorPort : UInt16) (versionVector : List FloEventId)
      (memberFrames : List (List UInt8)) (members : List (ClusterMember A)) :
      versionVector.length < 2 ^ 16 → (∀ id ∈ versionVector, id.eventCounter ≠ 0) →
      members.length < 2 ^ 16 → List.Forall₂ MemberFrame memberFrames members →
      ClusterStateFrame
        (u16 actorId ++ u16 actorPort ++ u16 (UInt16.ofNat versionVector.length) ++
          versionVector.flatMap eventIdBytes ++ u16 (UInt16.ofNat members.length) ++
          memberFrames.flatten)
        ⟨actorId, actorPort, versionVector, members⟩

/-! ## Fields -/

section Fields

variable {input rest : List UInt8}

/-- `parse_str` reads exactly the strings whose length fits their `u16` prefix. -/
theorem parseStr_eq_done {s : RString} :
    parseStr input = .done rest s ↔ s.Fits ∧ input = str s ++ rest := by
  simp only [parseStr, mapRes_eq_done, lengthData, bind_eq_done, beU16Len, map_eq_done,
    beU16_eq_done, take_eq_done]
  constructor
  · rintro ⟨bytes, ⟨mid, _, ⟨v, rfl, rfl⟩, hlen, rfl⟩, hs⟩
    obtain rfl := eq_of_fromUtf8_eq_ok hs
    have hv : v = UInt16.ofNat s.bytes.length := by rw [hlen, ofNat_toNat_u16]
    exact ⟨show s.bytes.length < 2 ^ 16 by rw [hlen]; exact v.toNat_lt_size, by simp [str, hv]⟩
  · rintro ⟨hfits, rfl⟩
    exact ⟨s.bytes, ⟨_, _, ⟨_, rfl, rfl⟩, (Nat.mod_eq_of_lt hfits).symm, by simp [str]⟩,
      fromUtf8_bytes s⟩

/-- `parse_event_id` reads any counter and actor; a zero counter is no id. -/
theorem parseEventId_eq_done {id : Option FloEventId} :
    parseEventId input = .done rest id ↔
      ∃ counter actor, input = u64 counter ++ u16 actor ++ rest ∧
        id = if counter > 0 then some ⟨actor, counter⟩ else none := by
  simp only [parseEventId, bind_eq_done, beU64_eq_done, beU16_eq_done, pure_apply,
    IResult.done.injEq]
  constructor
  · rintro ⟨_, counter, rfl, _, actor, rfl, rfl, rfl⟩
    exact ⟨counter, actor, by simp, rfl⟩
  · rintro ⟨counter, actor, rfl, rfl⟩
    exact ⟨_, counter, by simp, _, actor, rfl, rfl, rfl⟩

/-- `parse_non_zero_event_id` reads exactly the ids with a non-zero counter. -/
theorem parseNonZeroEventId_eq_done {id : FloEventId} :
    parseNonZeroEventId input = .done rest id ↔
      id.eventCounter ≠ 0 ∧ input = eventIdBytes id ++ rest := by
  simp only [parseNonZeroEventId, mapRes_eq_done, parseEventId_eq_done]
  constructor
  · rintro ⟨_, ⟨counter, actor, rfl, rfl⟩, h⟩
    by_cases hc : counter > 0
    · simp only [hc, if_true, requireEventId, Except.ok.injEq] at h
      subst h
      exact ⟨(pos_iff_ne_zero_u64 _).mp hc, by simp [eventIdBytes]⟩
    · simp [hc, requireEventId] at h
  · rintro ⟨hc, rfl⟩
    exact ⟨_, ⟨id.eventCounter, id.actor, by simp [eventIdBytes], rfl⟩,
      by simp [(pos_iff_ne_zero_u64 _).mpr hc, requireEventId]⟩

theorem toBool_singleton (b : UInt8) : toBool [b] = (b == 1) := by
  simp [toBool]

/-- `parse_cluster_member_status` reads exactly the member entries of the grammar. -/
theorem parseClusterMemberStatus_eq_done {member : ClusterMember A} :
    parseClusterMemberStatus input = .done rest member ↔
      ∃ f, MemberFrame f member ∧ input = f ++ rest := by
  simp only [parseClusterMemberStatus, bind_eq_done, beU16_eq_done, parseSocketAddr,
    parseStringSlice, mapRes_eq_done, parseStr_eq_done, map_eq_done, take_eq_done, pure_apply,
    IResult.done.injEq, toSocketAddr]
  constructor
  · rintro ⟨_, actorId, rfl, _, addr, ⟨text, ⟨hfits, rfl⟩, haddr⟩, _, _, ⟨bytes, ⟨hlen, rfl⟩, rfl⟩,
      rfl, rfl⟩
    obtain ⟨byte, rfl⟩ : ∃ byte, bytes = [byte] := List.length_eq_one.mp hlen
    refine ⟨u16 actorId ++ str text ++ [byte], ?_, by simp⟩
    rw [toBool_singleton]
    exact .mk actorId text addr byte hfits haddr
  · rintro ⟨_, ⟨actorId, text, addr, byte, hfits, haddr⟩, rfl⟩
    exact ⟨_, actorId, by simp, _, addr, ⟨text, ⟨hfits, rfl⟩, haddr⟩, _, _,
      ⟨[byte], ⟨rfl, rfl⟩, rfl⟩, rfl, by simp [toBool_singleton]⟩

/-- A list of frames, each the image of its value under `g` and each value satisfying `P`, is the
list of images of values that all satisfy `P`. -/
theorem forall₂_eq_map_iff {β : Type} {P : β → Prop} {g : β → List UInt8} :
    ∀ {fs : List (List UInt8)} {xs : List β},
      List.Forall₂ (fun f x => P x ∧ f = g x) fs xs ↔ (∀ x ∈ xs, P x) ∧ fs = xs.map g
  | [], [] => by simp
  | [], _ :: _ => by simp
  | _ :: _, [] => by simp
  | f :: fs, x :: xs => by
      rw [List.forall₂_cons, forall₂_eq_map_iff]
      simp only [List.mem_cons, forall_eq_or_imp, List.map_cons, List.cons.injEq]
      tauto

/-- A `u16` count read before `n` items: the count is `n`, which fits its field. -/
theorem u16_count_eq {v : UInt16} {n : Nat} (h : n = v.toNat) :
    n < 2 ^ 16 ∧ v = UInt16.ofNat n :=
  ⟨h ▸ v.toNat_lt_size, by rw [h, ofNat_toNat_u16]⟩

/-- `parse_cluster_state` reads exactly the cluster-state bodies of the grammar. -/
theorem parseClusterState_eq_done {state : ClusterState A} :
    parseClusterState input = .done rest state ↔
      ∃ f, ClusterStateFrame f state ∧ input = f ++ rest := by
  have hvv := count_eq_done (q := parseNonZeroEventId)
    (G := fun f id => id.eventCounter ≠ 0 ∧ f = eventIdBytes id)
    (fun input rest id => by
      rw [parseNonZeroEventId_eq_done]
      exact ⟨fun ⟨h, e⟩ => ⟨_, ⟨h, rfl⟩, e⟩, fun ⟨_, ⟨h, rfl⟩, e⟩ => ⟨h, e⟩⟩)
  have hmembers := count_eq_done (q := parseClusterMemberStatus) (G := MemberFrame (A := A))
    (fun input rest member => parseClusterMemberStatus_eq_done)
  simp only [parseClusterState, parseVersionVec, lengthCount, bind_eq_done, beU16_eq_done,
    beU16Len, map_eq_done, hvv, hmembers, forall₂_eq_map_iff, pure_apply, IResult.done.injEq]
  constructor
  · rintro ⟨_, actorId, rfl, _, actorPort, rfl, _, vv, ⟨_, _, ⟨vvLen, rfl, rfl⟩,
      _, ⟨hne, rfl⟩, hvvLen, rfl⟩, _, members, ⟨_, _, ⟨membersLen, rfl, rfl⟩, fs, hfs,
      hmLen, rfl⟩, rfl, rfl⟩
    obtain ⟨hvvFits, rfl⟩ := u16_count_eq hvvLen
    obtain ⟨hmFits, rfl⟩ := u16_count_eq hmLen
    exact ⟨_, .mk actorId actorPort vv fs members hvvFits hne hmFits hfs, by simp [List.flatMap]⟩
  · rintro ⟨_, ⟨actorId, actorPort, vv, fs, members, hvvFits, hne, hmFits, hfs⟩, rfl⟩
    simp only [List.flatMap, List.append_assoc]
    exact ⟨_, actorId, rfl, _, actorPort, rfl, _, vv,
      ⟨_, _, ⟨UInt16.ofNat vv.length, rfl, rfl⟩, _, ⟨hne, rfl⟩, (Nat.mod_eq_of_lt hvvFits).symm,
        rfl⟩, _, members,
      ⟨_, _, ⟨UInt16.ofNat members.length, rfl, rfl⟩, fs, hfs, (Nat.mod_eq_of_lt hmFits).symm,
        rfl⟩, rfl, rfl⟩

end Fields

/-- The frames of §4.A: a tag byte, then the fields of the message they denote. A parent id with
a zero counter denotes no parent, and a `ProduceEvent` frame is the header only, denoting an
event with room reserved for `dataLen` payload bytes. -/
inductive Frame : List UInt8 → ProtocolMessage T A → Prop
  | clientAuth (ns username password : RString) :
      ns.Fits → username.Fits → password.Fits →
      Frame (Headers.clientAuth :: str ns ++ str username ++ str password)
        (.clientAuth ns username password)
  | produceEvent (ns : RString) (parentCounter : UInt64) (parentActor : UInt16)
      (opId dataLen : UInt32) :
      ns.Fits →
      Frame (Headers.produceEvent :: str ns ++ u64 parentCounter ++ u16 parentActor ++ u32 opId ++
          u32 dataLen)
        (.produceEvent ⟨opId, ns,
          if parentCounter > 0 then some ⟨parentActor, parentCounter⟩ else none,
          .withCapacity dataLen.toNat⟩)
  | receiveEvent (id : FloEventId) (parentCounter : UInt64) (parentActor : UInt16)
      (millis : UInt64) (ns : RString) (data : List UInt8) :
      id.eventCounter ≠ 0 → ns.Fits → data.length < 2 ^ 32 →
      Frame (Headers.receiveEvent :: eventIdBytes id ++ u64 parentCounter ++ u16 parentActor ++
          u64 millis ++ str ns ++ u32 (UInt32.ofNat data.length) ++ data)
        (.receiveEvent (.owned ⟨id, EventTime.fromMillisSinceEpoch millis,
          if parentCounter > 0 then some ⟨parentActor, parentCounter⟩ else none, ns, data⟩))
  | updateMarker (counter : UInt64) (actor : UInt16) :
      Frame (Headers.updateMarker :: u64 counter ++ u16 actor) (.updateMarker ⟨actor, counter⟩)
  | startConsuming (opId : UInt32) (ns : RString) (maxEvents : UInt64) :
      ns.Fits →
      Frame (Headers.startConsuming :: u32 opId ++ str ns ++ u64 maxEvents)
        (.startConsuming ⟨opId, maxEvents, ns⟩)
  | awaitingEvents : Frame [Headers.awaitingEvents] .awaitingEvents
  | peerAnnounce (body : List UInt8) (state : ClusterState A) :
      ClusterStateFrame body state → Frame (Headers.peerAnnounce :: body) (.peerAnnounce state)
  | peerUpdate (body : List UInt8) (state : ClusterState A) :
      ClusterStateFrame body state → Frame (Headers.peerUpdate :: body) (.peerUpdate state)
  | ackEvent (opId : UInt32) (counter : UInt64) (actor : UInt16) :
      Frame (Headers.ackHeader :: u32 opId ++ u64 counter ++ u16 actor)
        (.ackEvent ⟨opId, ⟨actor, counter⟩⟩)
  | error (opId : UInt32) (kind : ErrorKind) (description : RString) :
      description.Fits →
      Frame (Headers.errorHeader :: u32 opId ++ [kind.u8Value] ++ str description)
        (.error ⟨opId, kind, description⟩)
  | setBatchSize (batchSize : UInt32) :
      Frame (Headers.setBatchSize :: u32 batchSize) (.setBatchSize batchSize)
  | nextBatch : Frame [Headers.nextBatch] .nextBatch
  | endOfBatch : Frame [Headers.endOfBatch] .endOfBatch
  | stopConsuming : Frame [Headers.stopConsuming] .stopConsuming
  | cursorCreated (opId batchSize : UInt32) :
      Frame (Headers.cursorCreated :: u32 opId ++ u32 batchSize) (.cursorCreated ⟨opId, batchSize⟩)

/-- Every frame starts with one of the fifteen tags `1` to `16` other than `11`. -/
theorem Frame.tag {f : List UInt8} {m : ProtocolMessage T A} (hf : Frame f m) :
    ∃ t body, f = t :: body ∧ 1 ≤ t.toNat ∧ t.toNat ≤ 16 ∧ t.toNat ≠ 11 := by
  cases hf <;> exact ⟨_, _, rfl, by decide, by decide, by decide⟩

/-! ## Messages

One lemma per message parser: it fails on every input that does not start with its tag, and
succeeds exactly on the frames that start with it. -/

section Messages

variable {input rest : List UInt8} {m : ProtocolMessage T A}

theorem parseEventAck_eq_done :
    parseEventAck input = .done rest m ↔
      ∃ f, Frame f m ∧ f.head? = some Headers.ackHeader ∧ input = f ++ rest := by
  simp only [parseEventAck, bind_eq_done, tag_eq_done, beU32_eq_done, beU64_eq_done,
    beU16_eq_done, pure_apply, IResult.done.injEq]
  constructor
  · rintro ⟨_, _, ⟨rfl, rfl⟩, _, opId, rfl, _, counter, rfl, _, actor, rfl, rfl, rfl⟩
    exact ⟨_, .ackEvent opId counter actor, rfl, by simp⟩
  · rintro ⟨f, hf, hhead, rfl⟩
    cases hf with
    | ackEvent opId counter actor =>
        simp only [List.cons_append, List.append_assoc]
        exact ⟨_, _, ⟨rfl, rfl⟩, _, _, rfl, _, _, rfl, _, _, rfl, rfl, rfl⟩
    | _ => cases hhead

theorem parseUpdateMarker_eq_done :
    parseUpdateMarker input = .done rest m ↔
      ∃ f, Frame f m ∧ f.head? = some Headers.updateMarker ∧ input = f ++ rest := by
  simp only [parseUpdateMarker, bind_eq_done, tag_eq_done, beU64_eq_done, beU16_eq_done,
    pure_apply, IResult.done.injEq]
  constructor
  · rintro ⟨_, _, ⟨rfl, rfl⟩, _, counter, rfl, _, actor, rfl, rfl, rfl⟩
    exact ⟨_, .updateMarker counter actor, rfl, by simp⟩
  · rintro ⟨f, hf, hhead, rfl⟩
    cases hf with
    | updateMarker counter actor =>
        simp only [List.cons_append, List.append_assoc]
        exact ⟨_, _, ⟨rfl, rfl⟩, _, _, rfl, _, _, rfl, rfl, rfl⟩
    | _ => cases hhead

theorem parseSetBatchSize_eq_done :
    parseSetBatchSize input = .done rest m ↔
      ∃ f, Frame f m ∧ f.head? = some Headers.setBatchSize ∧ input = f ++ rest := by
  simp only [parseSetBatchSize, bind_eq_done, tag_eq_done, beU32_eq_done, pure_apply,
    IResult.done.injEq]
  constructor
  · rintro ⟨_, _, ⟨rfl, rfl⟩, _, batchSize, rfl, rfl, rfl⟩
    exact ⟨_, .setBatchSize batchSize, rfl, by simp⟩
  · rintro ⟨f, hf, hhead, rfl⟩
    cases hf with
    | setBatchSize batchSize =>
        simp only [List.cons_append]
        exact ⟨_, _, ⟨rfl, rfl⟩, _, _, rfl, rfl, rfl⟩
    | _ => cases hhead

theorem parseCursorCreated_eq_done :
    parseCursorCreated input = .done rest m ↔
      ∃ f, Frame f m ∧ f.head? = some Headers.cursorCreated ∧ input = f ++ rest := by
  simp only [parseCursorCreated, bind_eq_done, tag_eq_done, beU32_eq_done, pure_apply,
    IResult.done.injEq]
  constructor
  · rintro ⟨_, _, ⟨rfl, rfl⟩, _, opId, rfl, _, batchSize, rfl, rfl, rfl⟩
    exact ⟨_, .cursorCreated opId batchSize, rfl, by simp⟩
  · rintro ⟨f, hf, hhead, rfl⟩
    cases hf with
    | cursorCreated opId batchSize =>
        simp only [List.cons_append, List.append_assoc]
        exact ⟨_, _, ⟨rfl, rfl⟩, _, _, rfl, _, _, rfl, rfl, rfl⟩
    | _ => cases hhead

theorem parseStartConsuming_eq_done :
    parseStartConsuming input = .done rest m ↔
      ∃ f, Frame f m ∧ f.head? = some Headers.startConsuming ∧ input = f ++ rest := by
  simp only [parseStartConsuming, bind_eq_done, tag_eq_done, beU32_eq_done, parseStr_eq_done,
    beU64_eq_done, pure_apply, IResult.done.injEq]
  constructor
  · rintro ⟨_, _, ⟨rfl, rfl⟩, _, opId, rfl, _, ns, ⟨hns, rfl⟩, _, maxEvents, rfl, rfl, rfl⟩
    exact ⟨_, .startConsuming opId ns maxEvents hns, rfl, by simp⟩
  · rintro ⟨f, hf, hhead, rfl⟩
    cases hf with
    | startConsuming opId ns maxEvents hns =>
        simp only [List.cons_append, List.append_assoc]
        exact ⟨_, _, ⟨rfl, rfl⟩, _, _, rfl, _, _, ⟨hns, rfl⟩, _, _, rfl, rfl, rfl⟩
    | _ => cases hhead

theorem parseAuth_eq_done :
    parseAuth input = .done rest m ↔
      ∃ f, Frame f m ∧ f.head? = some Headers.clientAuth ∧ input = f ++ rest := by
  simp only [parseAuth, bind_eq_done, tag_eq_done, parseStr_eq_done, pure_apply,
    IResult.done.injEq]
  constructor
  · rintro ⟨_, _, ⟨rfl, rfl⟩, _, ns, ⟨hns, rfl⟩, _, username, ⟨husername, rfl⟩, _, password,
      ⟨hpassword, rfl⟩, rfl, rfl⟩
    exact ⟨_, .clientAuth ns username password hns husername hpassword, rfl, by simp⟩
  · rintro ⟨f, hf, hhead, rfl⟩
    cases hf with
    | clientAuth ns username password hns husername hpassword =>
        simp only [List.cons_append, List.append_assoc]
        exact ⟨_, _, ⟨rfl, rfl⟩, _, _, ⟨hns, rfl⟩, _, _, ⟨husername, rfl⟩, _, _,
          ⟨hpassword, rfl⟩, rfl, rfl⟩
    | _ => cases hhead

theorem parseErrorMessage_eq_done :
    parseErrorMessage input = .done rest m ↔
      ∃ f, Frame f m ∧ f.head? = some Headers.errorHeader ∧ input = f ++ rest := by
  simp only [parseErrorMessage, bind_eq_done, tag_eq_done, beU32_eq_done, mapRes_eq_done,
    take_eq_done, parseStr_eq_done, pure_apply, IResult.done.injEq]
  constructor
  · rintro ⟨_, _, ⟨rfl, rfl⟩, _, opId, rfl, _, kind, ⟨bytes, ⟨hlen, rfl⟩, hkind⟩, _,
      description, ⟨hdescription, rfl⟩, rfl, rfl⟩
    obtain ⟨byte, rfl⟩ := List.length_eq_one.mp hlen
    obtain rfl := ErrorKind.fromU8_eq_ok.mp hkind
    exact ⟨_, .error opId kind description hdescription, rfl, by simp⟩
  · rintro ⟨f, hf, hhead, rfl⟩
    cases hf with
    | error opId kind description hdescription =>
        simp only [List.cons_append, List.append_assoc, List.singleton_append]
        exact ⟨_, _, ⟨rfl, rfl⟩, _, _, rfl, _, _, ⟨[kind.u8Value], ⟨rfl, rfl⟩, by simp⟩, _, _,
          ⟨hdescription, rfl⟩, rfl, rfl⟩
    | _ => cases hhead

theorem parseNewProducerEvent_eq_done :
    parseNewProducerEvent input = .done rest m ↔
      ∃ f, Frame f m ∧ f.head? = some Headers.produceEvent ∧ input = f ++ rest := by
  simp only [parseNewProducerEvent, bind_eq_done, tag_eq_done, parseStr_eq_done,
    parseEventId_eq_done, beU32_eq_done, pure_apply, IResult.done.injEq]
  constructor
  · rintro ⟨_, _, ⟨rfl, rfl⟩, _, ns, ⟨hns, rfl⟩, _, _, ⟨counter, actor, rfl, rfl⟩, _, opId, rfl,
      _, dataLen, rfl, rfl, rfl⟩
    exact ⟨_, .produceEvent ns counter actor opId dataLen hns, rfl, by simp⟩
  · rintro ⟨f, hf, hhead, rfl⟩
    cases hf with
    | produceEvent ns counter actor opId dataLen hns =>
        simp only [List.cons_append, List.append_assoc]
        exact ⟨_, _, ⟨rfl, rfl⟩, _, _, ⟨hns, rfl⟩, _, _, ⟨counter, actor, rfl, rfl⟩, _, _, rfl,
          _, _, rfl, rfl, rfl⟩
    | _ => cases hhead

/-- A `u32` length read before `n` bytes: the length is `n`, which fits its field. -/
theorem u32_length_eq {v : UInt32} {n : Nat} (h : n = v.toNat) :
    n < 2 ^ 32 ∧ v = UInt32.ofNat n :=
  ⟨h ▸ v.toNat_lt_size, UInt32.toNat.inj (by rw [h]; exact (Nat.mod_eq_of_lt v.toNat_lt_size).symm)⟩

theorem parseReceiveEventHeader_eq_done :
    parseReceiveEventHeader input = .done rest m ↔
      ∃ f, Frame f m ∧ f.head? = some Headers.receiveEvent ∧ input = f ++ rest := by
  simp only [parseReceiveEventHeader, bind_eq_done, tag_eq_done, parseNonZeroEventId_eq_done,
    parseEventId_eq_done, parseTimestamp, map_eq_done, beU64_eq_done, parseStr_eq_done,
    lengthData, beU32Len, beU32_eq_done, take_eq_done, pure_apply, IResult.done.injEq]
  constructor
  · rintro ⟨_, _, ⟨rfl, rfl⟩, _, id, ⟨hid, rfl⟩, _, _, ⟨counter, actor, rfl, rfl⟩, _, _,
      ⟨millis, rfl, rfl⟩, _, ns, ⟨hns, rfl⟩, _, data, ⟨_, _, ⟨dataLen, rfl, rfl⟩, hlen, rfl⟩,
      rfl, rfl⟩
    obtain ⟨hfits, rfl⟩ := u32_length_eq hlen
    exact ⟨_, .receiveEvent id counter actor millis ns data hid hns hfits, rfl, by simp⟩
  · rintro ⟨f, hf, hhead, rfl⟩
    cases hf with
    | receiveEvent id counter actor millis ns data hid hns hfits =>
        simp only [List.cons_append, List.append_assoc, eventIdBytes]
        exact ⟨_, _, ⟨rfl, rfl⟩, _, _, ⟨hid, rfl⟩, _, _, ⟨counter, actor, rfl, rfl⟩, _, _,
          ⟨millis, rfl, rfl⟩, _, _, ⟨hns, rfl⟩, _, _,
          ⟨_, _, ⟨UInt32.ofNat data.length, rfl, rfl⟩, (Nat.mod_eq_of_lt hfits).symm, rfl⟩,
          rfl, rfl⟩
    | _ => cases hhead

theorem parsePeerAnnounce_eq_done :
    parsePeerAnnounce input = .done rest m ↔
      ∃ f, Frame f m ∧ f.head? = some Headers.peerAnnounce ∧ input = f ++ rest := by
  simp only [parsePeerAnnounce, bind_eq_done, tag_eq_done, parseClusterState_eq_done, pure_apply,
    IResult.done.injEq]
  constructor
  · rintro ⟨_, _, ⟨rfl, rfl⟩, _, state, ⟨_, hbody, rfl⟩, rfl, rfl⟩
    exact ⟨_, .peerAnnounce _ state hbody, rfl, rfl⟩
  · rintro ⟨f, hf, hhead, rfl⟩
    cases hf with
    | peerAnnounce body state hbody => exact ⟨_, _, ⟨rfl, rfl⟩, _, _, ⟨body, hbody, rfl⟩, rfl, rfl⟩
    | _ => cases hhead

theorem parsePeerUpdate_eq_done :
    parsePeerUpdate input = .done rest m ↔
      ∃ f, Frame f m ∧ f.head? = some Headers.peerUpdate ∧ input = f ++ rest := by
  simp only [parsePeerUpdate, bind_eq_done, tag_eq_done, parseClusterState_eq_done, pure_apply,
    IResult.done.injEq]
  constructor
  · rintro ⟨_, _, ⟨rfl, rfl⟩, _, state, ⟨_, hbody, rfl⟩, rfl, rfl⟩
    exact ⟨_, .peerUpdate _ state hbody, rfl, rfl⟩
  · rintro ⟨f, hf, hhead, rfl⟩
    cases hf with
    | peerUpdate body state hbody => exact ⟨_, _, ⟨rfl, rfl⟩, _, _, ⟨body, hbody, rfl⟩, rfl, rfl⟩
    | _ => cases hhead

/-- The four messages without fields: a tag alone is the frame of its message. -/
theorem map_tag_eq_done {t : UInt8} {m' : ProtocolMessage T A} (hframe : Frame [t] m')
    (honly : ∀ f m, Frame f m → f.head? = some t → f = [t] ∧ m = m') :
    map (tag t) (fun _ => m') input = .done rest m ↔
      ∃ f, Frame f m ∧ f.head? = some t ∧ input = f ++ rest := by
  simp only [map_eq_done, tag_eq_done]
  constructor
  · rintro ⟨_, ⟨rfl, rfl⟩, rfl⟩
    exact ⟨[t], hframe, rfl, rfl⟩
  · rintro ⟨f, hf, hhead, rfl⟩
    obtain ⟨rfl, rfl⟩ := honly f m hf hhead
    exact ⟨_, ⟨rfl, rfl⟩, rfl⟩

/-- Each alternative of `parse_any` succeeds exactly on the frames that start with its tag. -/
theorem messageTable_eq_done :
    ∀ e ∈ (messageTable : List (UInt8 × Parser (ProtocolMessage T A))), ∀ input rest m,
      e.2 input = .done rest m ↔ ∃ f, Frame f m ∧ f.head? = some e.1 ∧ input = f ++ rest := by
  intro e he
  simp only [messageTable, List.mem_cons, List.mem_singleton, List.not_mem_nil,
    or_false] at he
  rcases he with rfl | rfl | rfl | rfl | rfl | rfl | rfl | rfl | rfl | rfl | rfl | rfl | rfl |
    rfl | rfl
  · exact fun _ _ _ => parseEventAck_eq_done
  · exact fun _ _ _ => parseReceiveEventHeader_eq_done
  · exact fun _ _ _ => parsePeerUpdate_eq_done
  · exact fun _ _ _ => parsePeerAnnounce_eq_done
  · exact fun _ _ _ => parseUpdateMarker_eq_done
  · exact fun _ _ _ => parseStartConsuming_eq_done
  · exact fun _ _ _ => parseAuth_eq_done
  · exact fun _ _ _ => parseErrorMessage_eq_done
  · exact fun _ _ _ => map_tag_eq_done .awaitingEvents
      fun _ _ hf hhead => by cases hf <;> cases hhead; exact ⟨rfl, rfl⟩
  · exact fun _ _ _ => parseNewProducerEvent_eq_done
  · exact fun _ _ _ => parseSetBatchSize_eq_done
  · exact fun _ _ _ => map_tag_eq_done .nextBatch
      fun _ _ hf hhead => by cases hf <;> cases hhead; exact ⟨rfl, rfl⟩
  · exact fun _ _ _ => map_tag_eq_done .endOfBatch
      fun _ _ hf hhead => by cases hf <;> cases hhead; exact ⟨rfl, rfl⟩
  · exact fun _ _ _ => map_tag_eq_done .stopConsuming
      fun _ _ hf hhead => by cases hf <;> cases hhead; exact ⟨rfl, rfl⟩
  · exact fun _ _ _ => parseCursorCreated_eq_done

/-- Every frame is accepted by some alternative of `parse_any`. -/
theorem exists_messageParser_of_frame {f : List UInt8} (hf : Frame f m) (rest : List UInt8) :
    ∃ P ∈ (messageParsers : List (Parser (ProtocolMessage T A))),
      P (f ++ rest) = .done rest m := by
  have hframe := hf
  cases hf
  · exact ⟨_, by simp [messageParsers], parseAuth_eq_done.mpr ⟨_, hframe, rfl, rfl⟩⟩
  · exact ⟨_, by simp [messageParsers], parseNewProducerEvent_eq_done.mpr ⟨_, hframe, rfl, rfl⟩⟩
  · exact ⟨_, by simp [messageParsers],
      parseReceiveEventHeader_eq_done.mpr ⟨_, hframe, rfl, rfl⟩⟩
  · exact ⟨_, by simp [messageParsers], parseUpdateMarker_eq_done.mpr ⟨_, hframe, rfl, rfl⟩⟩
  · exact ⟨_, by simp [messageParsers], parseStartConsuming_eq_done.mpr ⟨_, hframe, rfl, rfl⟩⟩
  · exact ⟨parseAwaitingEvents, by simp [messageParsers], by simp [parseAwaitingEvents, map]⟩
  · exact ⟨_, by simp [messageParsers], parsePeerAnnounce_eq_done.mpr ⟨_, hframe, rfl, rfl⟩⟩
  · exact ⟨_, by simp [messageParsers], parsePeerUpdate_eq_done.mpr ⟨_, hframe, rfl, rfl⟩⟩
  · exact ⟨_, by simp [messageParsers], parseEventAck_eq_done.mpr ⟨_, hframe, rfl, rfl⟩⟩
  · exact ⟨_, by simp [messageParsers], parseErrorMessage_eq_done.mpr ⟨_, hframe, rfl, rfl⟩⟩
  · exact ⟨_, by simp [messageParsers], parseSetBatchSize_eq_done.mpr ⟨_, hframe, rfl, rfl⟩⟩
  · exact ⟨parseNextBatch, by simp [messageParsers], by simp [parseNextBatch, map]⟩
  · exact ⟨parseEndOfBatch, by simp [messageParsers], by simp [parseEndOfBatch, map]⟩
  · exact ⟨parseStopConsuming, by simp [messageParsers], by simp [parseStopConsuming, map]⟩
  · exact ⟨_, by simp [messageParsers], parseCursorCreated_eq_done.mpr ⟨_, hframe, rfl, rfl⟩⟩

/-- The decoder accepts exactly the frames of the grammar: `parse_any` returns `Done(rest, m)`
exactly when its input is a frame of `m` followed by `rest`. -/
theorem parseAny_eq_done_iff {input rest : List UInt8} :
    parseAny input = .done rest m ↔ ∃ f, Frame f m ∧ input = f ++ rest := by
  have hentry : ∀ P ∈ (messageParsers : List (Parser (ProtocolMessage T A))),
      ∃ e ∈ (messageTable : List (UInt8 × Parser (ProtocolMessage T A))), e.2 = P :=
    fun _ hP => List.mem_map.mp hP
  constructor
  · intro h
    obtain ⟨P, hP, hdone⟩ := exists_mem_of_alt_eq_done h
    obtain ⟨e, he, rfl⟩ := hentry P hP
    obtain ⟨f, hf, -, rfl⟩ := (messageTable_eq_done e he _ _ _).mp hdone
    exact ⟨f, hf, rfl⟩
  · rintro ⟨f, hf, rfl⟩
    refine alt_eq_done_of (fun P hP => ?_) (exists_messageParser_of_frame hf rest)
    obtain ⟨e, he, rfl⟩ := hentry P hP
    obtain ⟨c, body, rfl, -⟩ := hf.tag
    by_cases hc : c = e.1
    · exact .inr ((messageTable_eq_done e he _ _ _).mpr ⟨_, hf, congrArg some hc, rfl⟩)
    · exact .inl ⟨_, messageTable_led e he c _ hc⟩

/-- `parse_any` accepts exactly the frames of the grammar, each led by one of the tags `1` to `16`
other than `11`: no input starting with `0`, `11` or a byte above `16` is accepted, and no string
field that is not UTF-8, since a frame's strings are Rust strings. -/
theorem parseAny_accepts_exactly_frames (input rest : List UInt8) (m : ProtocolMessage T A) :
    (parseAny input = .done rest m ↔ ∃ f, Frame f m ∧ input = f ++ rest) ∧
      (parseAny input = .done rest m →
        ∃ t body, input = t :: body ∧ 1 ≤ t.toNat ∧ t.toNat ≤ 16 ∧ t.toNat ≠ 11) := by
  refine ⟨parseAny_eq_done_iff, fun h => ?_⟩
  obtain ⟨f, hf, rfl⟩ := parseAny_eq_done_iff.mp h
  obtain ⟨t, body, rfl, ht⟩ := hf.tag
  exact ⟨t, body ++ rest, rfl, ht⟩

end Messages

/-! ## Framing errors

The two framing errors of §8: a zero event id where one is required, and a string field that is
not UTF-8. -/

/-- A string whose bytes are not UTF-8 fails `from_utf8`, so `parse_str` fails with `MapRes`. -/
theorem parseStr_eq_error_of_invalid {bytes : List UInt8} (hlen : bytes.length < 2 ^ 16)
    (hinvalid : utf8Valid bytes = false) (rest : List UInt8) :
    parseStr (u16 (UInt16.ofNat bytes.length) ++ bytes ++ rest) = .error .mapRes := by
  have hv : (UInt16.ofNat bytes.length).toNat = bytes.length := Nat.mod_eq_of_lt hlen
  have hdata : lengthData beU16Len (u16 (UInt16.ofNat bytes.length) ++ bytes ++ rest) =
      .done rest bytes := by
    rw [lengthData, beU16Len, List.append_assoc, bind_of_done (map_apply_done (beU16_u16 _ _)), hv,
      take_append_of_length rfl, after_done]
  exact mapRes_of_done_of_error hdata (show fromUtf8 bytes = .error () by simp [fromUtf8, hinvalid])

omit [EventTime T] [SocketAddrText A] in
theorem parseAuth_eq_error_of_invalid {bytes : List UInt8} (hlen : bytes.length < 2 ^ 16)
    (hinvalid : utf8Valid bytes = false) (rest : List UInt8) :
    parseAuth (T := T) (A := A)
      (Headers.clientAuth :: (u16 (UInt16.ofNat bytes.length) ++ bytes ++ rest)) =
        .error .mapRes := by
  simp only [parseAuth, bind_of_done (tag_cons_self _ _),
    bind_of_error (parseStr_eq_error_of_invalid hlen hinvalid rest), after_error]

/-- An id with a zero counter reads as no id, which `require_event_id` refuses. -/
theorem parseNonZeroEventId_zero (actor : UInt16) (rest : List UInt8) :
    parseNonZeroEventId (u64 0 ++ u16 actor ++ rest) = .error .mapRes := by
  have h : parseEventId (u64 0 ++ u16 actor ++ rest) = .done rest none :=
    parseEventId_eq_done.mpr ⟨0, actor, rfl, rfl⟩
  exact mapRes_of_done_of_error h rfl

omit [SocketAddrText A] in
theorem parseReceiveEventHeader_zero_id (actor : UInt16) (rest : List UInt8) :
    parseReceiveEventHeader (T := T) (A := A)
      (Headers.receiveEvent :: (u64 0 ++ u16 actor ++ rest)) = .error .mapRes := by
  simp only [parseReceiveEventHeader, bind_of_done (tag_cons_self _ _),
    bind_of_error (parseNonZeroEventId_zero actor rest), after_error]

/-- A `ReceiveEvent` whose id counter is zero is a framing error, whatever follows the id. -/
theorem parseAny_receiveEvent_zero_id (actor : UInt16) (rest : List UInt8) :
    parseAny (T := T) (A := A) (Headers.receiveEvent :: (u64 0 ++ u16 actor ++ rest)) =
      .error .alt := by
  have hlookup : (messageTable : List (UInt8 × Parser (ProtocolMessage T A))).lookup
      Headers.receiveEvent = some parseReceiveEventHeader := rfl
  rw [parseAny_cons, hlookup, Option.elim_some, parseReceiveEventHeader_zero_id]
  rfl

/-- A `ClientAuth` whose namespace is not UTF-8 is a framing error, whatever follows it. -/
theorem parseAny_clientAuth_invalid_namespace {bytes : List UInt8} (hlen : bytes.length < 2 ^ 16)
    (hinvalid : utf8Valid bytes = false) (rest : List UInt8) :
    parseAny (T := T) (A := A)
      (Headers.clientAuth :: (u16 (UInt16.ofNat bytes.length) ++ bytes ++ rest)) = .error .alt := by
  have hlookup : (messageTable : List (UInt8 × Parser (ProtocolMessage T A))).lookup
      Headers.clientAuth = some parseAuth := rfl
  rw [parseAny_cons, hlookup, Option.elim_some, parseAuth_eq_error_of_invalid hlen hinvalid rest]
  rfl

theorem parseAny_clientAuth_namespace_ff :
    [(255 : UInt8)].length < 2 ^ 16 ∧ utf8Valid [255] = false ∧
      parseAny (T := UInt64) (A := Unit)
        (Headers.clientAuth :: (u16 (UInt16.ofNat [(255 : UInt8)].length) ++ [255] ++ [])) =
          .error .alt :=
  have hlen : [(255 : UInt8)].length < 2 ^ 16 := by decide
  have hinvalid : utf8Valid [255] = false := by decide
  ⟨hlen, hinvalid, parseAny_clientAuth_invalid_namespace hlen hinvalid []⟩

/-- The frames are a prefix-free code: an input starts with at most one frame. -/
theorem frame_unique {f f' r r' : List UInt8} {m m' : ProtocolMessage T A} (hf : Frame f m)
    (hf' : Frame f' m') (h : f ++ r = f' ++ r') : f = f' ∧ m = m' := by
  have hdone : parseAny (f ++ r) = .done r m := parseAny_eq_done_iff.mpr ⟨f, hf, rfl⟩
  rw [h, parseAny_eq_done_iff.mpr ⟨f', hf', rfl⟩, IResult.done.injEq] at hdone
  obtain ⟨rfl, rfl⟩ := hdone
  exact ⟨List.append_cancel_right h, rfl⟩

/-- A byte string is a concatenation of frames in at most one way: two lists of frames with the
same concatenation are the same frames, of the same messages. A stream of whole frames therefore
has exactly one reading as messages, whatever the reader's cuts. -/
theorem frames_flatten_unique {fs gs : List (List UInt8)} {ms ns : List (ProtocolMessage T A)}
    (hf : List.Forall₂ Frame fs ms) (hg : List.Forall₂ Frame gs ns)
    (h : fs.flatten = gs.flatten) : fs = gs ∧ ms = ns := by
  induction hf generalizing gs ns with
  | nil =>
      cases hg with
      | nil => exact ⟨rfl, rfl⟩
      | cons hg _ =>
          obtain ⟨t, body, rfl, -⟩ := hg.tag
          cases h
  | cons hf _ ih =>
      cases hg with
      | nil =>
          obtain ⟨t, body, rfl, -⟩ := hf.tag
          cases h
      | cons hg hgs =>
          rw [List.flatten_cons, List.flatten_cons] at h
          obtain ⟨rfl, rfl⟩ := frame_unique hf hg h
          obtain ⟨rfl, rfl⟩ := ih hgs (List.append_cancel_left h)
          exact ⟨rfl, rfl⟩

/-- The frames of `CursorCreated(7, 100)`, `NextBatch` and `SetBatchSize(50)`, given once by the
grammar's fields and once as the bytes on the wire. -/
theorem frames_flatten_unique_batch :
    let ms : List (ProtocolMessage UInt64 Unit) := [.cursorCreated ⟨7, 100⟩, .nextBatch,
      .setBatchSize 50]
    let fs := [Headers.cursorCreated :: u32 7 ++ u32 100, [Headers.nextBatch],
      Headers.setBatchSize :: u32 50]
    let gs : List (List UInt8) := [[16, 0, 0, 0, 7, 0, 0, 0, 100], [13], [12, 0, 0, 0, 50]]
    List.Forall₂ Frame fs ms ∧ List.Forall₂ Frame gs ms ∧ fs.flatten = gs.flatten ∧
      (fs = gs ∧ ms = ms) :=
  have hf : List.Forall₂ (Frame (T := UInt64) (A := Unit))
      [Headers.cursorCreated :: u32 7 ++ u32 100, [Headers.nextBatch],
        Headers.setBatchSize :: u32 50]
      [.cursorCreated ⟨7, 100⟩, .nextBatch, .setBatchSize 50] :=
    .cons (.cursorCreated 7 100) (.cons .nextBatch (.cons (.setBatchSize 50) .nil))
  have hg : List.Forall₂ (Frame (T := UInt64) (A := Unit))
      [[16, 0, 0, 0, 7, 0, 0, 0, 100], [13], [12, 0, 0, 0, 50]]
      [.cursorCreated ⟨7, 100⟩, .nextBatch, .setBatchSize 50] := hf
  have h : [Headers.cursorCreated :: u32 7 ++ u32 100, [Headers.nextBatch],
      Headers.setBatchSize :: u32 50].flatten =
      ([[16, 0, 0, 0, 7, 0, 0, 0, 100], [13], [12, 0, 0, 0, 50]] : List (List UInt8)).flatten := by
    decide
  ⟨hf, hg, h, frames_flatten_unique hf hg h⟩

end Flo.Protocol
