import Flo.Protocol.Codec

/-!
# Decoding a frame as it arrives

A connection hands `parse_any` whatever part of the byte stream has arrived. The decoder obeys
the streaming laws (`streaming_parseAny`), so its verdict on a partial buffer is final: a `Done`
or an `Error` stays the same when more bytes arrive (`parseAny_verdict_stable`), and an
`Incomplete` names a size `k` past the buffer below which the verdict stays `Incomplete`
(`parseAny_incomplete_hint_sound`). Against the grammar of `Flo.Protocol.Frame`, every proper
prefix of a frame is `Incomplete`, with a hint that does not reach past the frame, and by
`frame_serialize` so is every proper prefix of what the encoder writes.
-/

namespace Flo.Protocol

open Flo.Nom

variable {T A : Type} [EventTime T] [SocketAddrText A]

/-- A `Done` consumed at least the tag byte. -/
theorem parseAny_done_consumes {input rest : List UInt8} {m : ProtocolMessage T A}
    (h : parseAny input = .done rest m) : ∃ used, used ≠ [] ∧ input = used ++ rest := by
  obtain ⟨f, hf, rfl⟩ := parseAny_eq_done_iff.mp h
  obtain ⟨t, body, rfl, -⟩ := hf.tag
  exact ⟨_, List.cons_ne_nil t body, rfl⟩

/-- A proper prefix of a frame is `Incomplete`, and its hint reaches past the prefix but not past
the frame: a `Done` or an `Error` on the prefix would stay on the whole frame, which is `Done`
with nothing left. -/
theorem parseAny_prefix_of_frame {f p q : List UInt8} {m : ProtocolMessage T A} (hf : Frame f m)
    (hsplit : f = p ++ q) (hq : q ≠ []) :
    ∃ k, parseAny (T := T) (A := A) p = .incomplete (.size k) ∧ p.length < k ∧
      k ≤ f.length := by
  have hdone : parseAny (p ++ q) = .done [] m :=
    parseAny_eq_done_iff.mpr ⟨f, hf, by rw [hsplit, List.append_nil]⟩
  cases hp : parseAny (T := T) (A := A) p with
  | done r m' =>
      have h := streaming_parseAny.done_append q hp
      rw [hdone, IResult.done.injEq] at h
      exact absurd (List.append_eq_nil.mp h.1.symm).2 hq
  | error kind =>
      have h := streaming_parseAny.error_append q hp
      rw [hdone] at h
      cases h
  | incomplete needed =>
      obtain ⟨k, rfl, hlt, hmore⟩ := streaming_parseAny.incomplete_size hp
      refine ⟨k, rfl, hlt, Nat.le_of_not_lt fun hk => ?_⟩
      have h := hmore q (by rwa [hsplit, List.length_append] at hk)
      rw [hdone] at h
      cases h

/-- A verdict on a partial buffer is final: a `Done` consumed part of the buffer and keeps its
message when bytes are appended, an `Error` stays an `Error`, and the proper prefixes of a frame
are exactly the buffers still `Incomplete`. -/
theorem parseAny_verdict_stable (b s : List UInt8) :
    (∀ r (m : ProtocolMessage T A), parseAny b = .done r m →
      (∃ used, used ≠ [] ∧ b = used ++ r) ∧ parseAny (b ++ s) = .done (r ++ s) m) ∧
    (∀ kind, parseAny (T := T) (A := A) b = .error kind →
      parseAny (T := T) (A := A) (b ++ s) = .error kind) ∧
    (∀ f p q (m : ProtocolMessage T A), Frame f m → f = p ++ q → q ≠ [] →
      ∃ k, parseAny (T := T) (A := A) p = .incomplete (.size k)) :=
  ⟨fun _ _ h => ⟨parseAny_done_consumes h, streaming_parseAny.done_append s h⟩,
    fun _ h => streaming_parseAny.error_append s h,
    fun _ _ _ _ hf hsplit hq =>
      let ⟨k, hk, _⟩ := parseAny_prefix_of_frame hf hsplit hq
      ⟨k, hk⟩⟩

/-- The `Incomplete` hint is a size `k` counted from the start of the buffer, past its end, and
every buffer shorter than `k` that extends it is still `Incomplete` with the same hint. For a
proper prefix of a frame, the hint does not reach past the frame. -/
theorem parseAny_incomplete_hint_sound :
    (∀ (b : List UInt8) needed, parseAny (T := T) (A := A) b = .incomplete needed →
      ∃ k, needed = .size k ∧ b.length < k ∧
        ∀ s : List UInt8, b.length + s.length < k →
          parseAny (T := T) (A := A) (b ++ s) = .incomplete (.size k)) ∧
    (∀ f p q (m : ProtocolMessage T A), Frame f m → f = p ++ q → q ≠ [] →
      ∃ k, parseAny (T := T) (A := A) p = .incomplete (.size k) ∧ p.length < k ∧
        k ≤ f.length) :=
  ⟨fun _ _ h => streaming_parseAny.incomplete_size h,
    fun _ _ _ _ hf hsplit hq => parseAny_prefix_of_frame hf hsplit hq⟩

/-- The 33-byte start of a `ReceiveEvent` whose namespace is 12133 bytes long asks for the 12164
bytes that reach the end of the namespace. -/
example : parseAny (T := UInt64) (A := Unit)
    [3, 0, 0, 0, 0, 0, 0, 1, 34, 0, 1, 0, 0, 0, 0, 0, 0, 0, 0, 0, 0, 0, 0, 1, 93, 77, 45, 214, 26,
      47, 101, 118, 101] = .incomplete (.size 12164) := by decide

/-- A reader that has part of what the encoder wrote for an encodable message gets `Incomplete`,
with a hint within the frame. -/
theorem parseAny_prefix_frameBytes {M : ProtocolMessage T A} (hM : M.Encodable)
    {p q : List UInt8} (hsplit : M.frameBytes = p ++ q) (hq : q ≠ []) :
    ∃ k, parseAny (T := T) (A := A) p = .incomplete (.size k) ∧ p.length < k ∧
      k ≤ M.frameBytes.length :=
  parseAny_prefix_of_frame (frame_serialize hM) hsplit hq

/-- The first 20 bytes of the frame of `sampleEvent`, cut inside its parent id. -/
theorem parseAny_prefix_frameBytes_sampleEvent :
    let M : ProtocolMessage UInt64 Unit := .receiveEvent (.owned sampleEvent)
    M.Encodable ∧ M.frameBytes = M.frameBytes.take 20 ++ M.frameBytes.drop 20 ∧
      M.frameBytes.drop 20 ≠ [] ∧
      ∃ k, parseAny (T := UInt64) (A := Unit) (M.frameBytes.take 20) = .incomplete (.size k) ∧
        (M.frameBytes.take 20).length < k ∧ k ≤ M.frameBytes.length :=
  have hM : (ProtocolMessage.receiveEvent (.owned sampleEvent) :
      ProtocolMessage UInt64 Unit).Encodable :=
    ⟨by decide, (fun _ h => nomatch h), rfl, by decide, by decide⟩
  have hq : (ProtocolMessage.receiveEvent (.owned sampleEvent) :
      ProtocolMessage UInt64 Unit).frameBytes.drop 20 ≠ [] := by decide
  ⟨hM, (List.take_append_drop 20 _).symm, hq,
    parseAny_prefix_frameBytes hM (List.take_append_drop 20 _).symm hq⟩

end Flo.Protocol
