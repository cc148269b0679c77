import Flo.Nom

/-!
# The streaming laws of nom parsers

A frame reader calls the decoder on whatever part of a frame has arrived. `Streaming p` is what
makes that safe: a `Done` or `Error` verdict on a slice stays the same when more bytes are
appended, a `Done` consumed a prefix of its input, and an `Incomplete` always carries a size
`k` beyond the slice such that every longer slice still shorter than `k` gets the same answer.

Every combinator of `Flo.Nom` keeps these laws (`Streaming.bind`, `Streaming.count`,
`Streaming.alt`, ...), so every parser of the protocol has them by construction.
-/

namespace Flo.Nom

variable {α β ε : Type}

/-- The streaming laws: verdicts are stable under appended bytes and `Incomplete` sizes are
sound lower bounds, counted from the start of the input. -/
structure Streaming (p : Parser α) : Prop where
  done_consumed : ∀ {input rest a}, p input = .done rest a → ∃ used, input = used ++ rest
  done_append : ∀ {input rest a} (more : List UInt8),
    p input = .done rest a → p (input ++ more) = .done (rest ++ more) a
  error_append : ∀ {input kind} (more : List UInt8),
    p input = .error kind → p (input ++ more) = .error kind
  incomplete_size : ∀ {input needed}, p input = .incomplete needed →
    ∃ k, needed = .size k ∧ input.length < k ∧
      ∀ more : List UInt8, input.length + more.length < k →
        p (input ++ more) = .incomplete (.size k)

theorem after_eq_incomplete {result : IResult α} {consumed : Nat} {needed : Needed} :
    result.after consumed = .incomplete needed ↔
      ∃ inner, result = .incomplete inner ∧ needed = inner.after consumed := by
  cases result <;> simp [IResult.after, eq_comm]

namespace Streaming

variable {p : Parser α} {f : α → Parser β}

theorem pure (a : α) : Streaming (pure a : Parser α) where
  done_consumed h := by cases h; exact ⟨[], rfl⟩
  done_append _ h := by cases h; rfl
  error_append _ h := by cases h
  incomplete_size h := by cases h

/-- Sequencing keeps the laws: the second parser's size, moved past what the first consumed, is
still a sound bound for the whole input. -/
theorem bind (hp : Streaming p) (hf : ∀ a, Streaming (f a)) : Streaming (p >>= f) where
  done_consumed h := by
    obtain ⟨mid, a, h₁, h₂⟩ := bind_eq_done.mp h
    obtain ⟨used₁, rfl⟩ := hp.done_consumed h₁
    obtain ⟨used₂, rfl⟩ := (hf a).done_consumed h₂
    exact ⟨used₁ ++ used₂, by simp⟩
  done_append more h := by
    obtain ⟨mid, a, h₁, h₂⟩ := bind_eq_done.mp h
    exact bind_eq_done.mpr ⟨_, _, hp.done_append more h₁, (hf a).done_append more h₂⟩
  error_append more h := by
    rw [bind_apply] at h
    split at h
    · next mid a h₁ =>
        rw [after_eq_error] at h
        rw [bind_of_done (hp.done_append more h₁), (hf a).error_append more h, after_error]
    · cases h
      exact bind_of_error (hp.error_append more ‹_›)
    · cases h
  incomplete_size h := by
    rw [bind_apply] at h
    split at h
    · next mid a h₁ =>
        obtain ⟨inner, h₂, rfl⟩ := after_eq_incomplete.mp h
        obtain ⟨k, rfl, hlt, hmore⟩ := (hf a).incomplete_size h₂
        obtain ⟨used, rfl⟩ := hp.done_consumed h₁
        refine ⟨used.length + k, by simp [Needed.after], by simp; omega, fun more hmore' => ?_⟩
        rw [bind_of_done (hp.done_append more h₁), List.append_assoc,
          hmore more (by simp at hmore'; omega)]
        simp [IResult.after, Needed.after]
    · cases h
    · next needed' h₁ =>
        cases h
        obtain ⟨k, rfl, hlt, hmore⟩ := hp.incomplete_size h₁
        exact ⟨k, rfl, hlt, fun more hm => bind_of_incomplete (hmore more hm)⟩

/-- `tag!` asks for its one byte on an empty slice and decides on the first byte otherwise. -/
theorem tag (t : UInt8) : Streaming (tag t) where
  done_consumed {input rest a} h := by
    cases input with
    | nil => cases h
    | cons b rest =>
        simp only [Nom.tag] at h
        split at h
        · cases h; exact ⟨[b], rfl⟩
        · cases h
  done_append {input rest a} more h := by
    cases input with
    | nil => cases h
    | cons b rest =>
        simp only [Nom.tag] at h ⊢
        split at h
        · cases h; simp [*]
        · cases h
  error_append {input kind} more h := by
    cases input with
    | nil => cases h
    | cons b rest => by_cases hb : b = t <;> simp_all [Nom.tag]
  incomplete_size {input needed} h := by
    cases input with
    | nil =>
        cases h
        exact ⟨1, rfl, by simp, fun more hm => by simp at hm; simp [hm, Nom.tag]⟩
    | cons b rest =>
        simp only [Nom.tag] at h
        split at h <;> cases h

/-- `take!` asks for exactly `n` bytes, and takes them from the front. -/
theorem take (n : Nat) : Streaming (take n) where
  done_consumed {input rest a} h := by
    simp only [Nom.take] at h
    split at h
    · cases h
    · cases h; exact ⟨_, (List.take_append_drop n input).symm⟩
  done_append {input rest a} more h := by
    simp only [Nom.take] at h ⊢
    split at h
    · cases h
    · next hn =>
        cases h
        rw [if_neg (by simp; omega), List.drop_append_of_le_length (by omega),
          List.take_append_of_le_length (by omega)]
  error_append {input kind} more h := by
    simp only [Nom.take] at h
    split at h <;> cases h
  incomplete_size {input needed} h := by
    simp only [Nom.take] at h
    split at h
    · next hn =>
        cases h
        exact ⟨n, rfl, hn, fun more hm => by simp [Nom.take, hm]⟩
    · cases h

theorem map (hp : Streaming p) (g : α → β) : Streaming (map p g) where
  done_consumed {input rest a} h := by
    simp only [Nom.map] at h
    split at h <;> cases h
    exact hp.done_consumed ‹_›
  done_append {input rest a} more h := by
    simp only [Nom.map] at h
    split at h <;> cases h
    simp [Nom.map, hp.done_append more ‹_›]
  error_append {input kind} more h := by
    simp only [Nom.map] at h
    split at h <;> cases h
    simp [Nom.map, hp.error_append more ‹_›]
  incomplete_size {input needed} h := by
    simp only [Nom.map] at h
    split at h <;> cases h
    obtain ⟨k, rfl, hlt, hmore⟩ := hp.incomplete_size ‹_›
    exact ⟨k, rfl, hlt, fun more hm => by simp [Nom.map, hmore more hm]⟩

/-- A conversion that fails is an error, which appended bytes do not change. -/
theorem mapRes (hp : Streaming p) (g : α → Except ε β) : Streaming (mapRes p g) where
  done_consumed {input rest a} h := by
    simp only [Nom.mapRes] at h
    split at h
    · split at h <;> cases h
      exact hp.done_consumed ‹_›
    · cases h
    · cases h
  done_append {input rest a} more h := by
    simp only [Nom.mapRes] at h
    split at h
    · next hd =>
        split at h <;> cases h
        simp [Nom.mapRes, hp.done_append more hd, *]
    · cases h
    · cases h
  error_append {input kind} more h := by
    simp only [Nom.mapRes] at h
    split at h
    · next hd =>
        split at h <;> cases h
        simp [Nom.mapRes, hp.done_append more hd, *]
    · cases h
      simp [Nom.mapRes, hp.error_append more ‹_›]
    · cases h
  incomplete_size {input needed} h := by
    simp only [Nom.mapRes] at h
    split at h
    · split at h <;> cases h
    · cases h
    · cases h
      obtain ⟨k, rfl, hlt, hmore⟩ := hp.incomplete_size ‹_›
      exact ⟨k, rfl, hlt, fun more hm => by simp [Nom.mapRes, hmore more hm]⟩

theorem withError (hp : Streaming p) (kind : ErrorKind) : Streaming (withError kind p) where
  done_consumed {input rest a} h := by
    simp only [Nom.withError] at h
    split at h
    · cases h
    · exact hp.done_consumed h
  done_append {input rest a} more h := by
    simp only [Nom.withError] at h
    split at h
    · cases h
    · simp [Nom.withError, hp.done_append more h]
  error_append {input kind} more h := by
    simp only [Nom.withError] at h
    split at h
    · cases h
      simp [Nom.withError, hp.error_append more ‹_›]
    · next hne => exact absurd h (by cases hr : p input <;> simp_all)
  incomplete_size {input needed} h := by
    simp only [Nom.withError] at h
    split at h
    · cases h
    · obtain ⟨k, rfl, hlt, hmore⟩ := hp.incomplete_size h
      exact ⟨k, rfl, hlt, fun more hm => by simp [Nom.withError, hmore more hm]⟩

theorem beU16 : Streaming beU16 := (take 2).map _
theorem beU32 : Streaming beU32 := (take 4).map _
theorem beU64 : Streaming beU64 := (take 8).map _

theorem lengthData {p : Parser Nat} (hp : Streaming p) : Streaming (lengthData p) :=
  hp.bind fun n => take n

/-- `count!`, by induction on the number of items. -/
theorem count {q : Parser β} (hq : Streaming q) : ∀ n, Streaming (count q n)
  | 0 => pure []
  | n + 1 => (hq.bind fun item => (count hq n).bind fun items => pure (item :: items)).withError _

theorem lengthCount {p : Parser Nat} {q : Parser β} (hp : Streaming p) (hq : Streaming q) :
    Streaming (lengthCount p q) :=
  hp.bind fun n => count hq n

/-- A choice keeps the laws when every alternative has them: the alternatives that failed on a
slice still fail on a longer one, so the same alternative decides. -/
theorem alt : ∀ {ps : List (Parser α)}, (∀ p ∈ ps, Streaming p) → Streaming (Nom.alt ps)
  | [], _ => {
      done_consumed := fun h => by cases h
      done_append := fun _ h => by cases h
      error_append := fun _ h => by cases h; rfl
      incomplete_size := fun h => by cases h }
  | p :: ps, hps => by
      have hp := hps p (List.mem_cons_self p ps)
      have ih := alt fun q hq => hps q (List.mem_cons_of_mem p hq)
      refine ⟨fun {input rest a} h => ?_, fun {input rest a} more h => ?_,
        fun {input kind} more h => ?_, fun {input needed} h => ?_⟩ <;>
        simp only [Nom.alt] at h ⊢ <;> split at h
      · exact ih.done_consumed h
      · exact hp.done_consumed h
      · next hpe => simp [hp.error_append more hpe, ih.done_append more h]
      · simp [hp.done_append more h]
      · next hpe => simp [hp.error_append more hpe, ih.error_append more h]
      · next hne => exact absurd h (by cases hr : p input <;> simp_all)
      · next hpe =>
          obtain ⟨k, rfl, hlt, hmore⟩ := ih.incomplete_size h
          exact ⟨k, rfl, hlt, fun more hm => by simp [hp.error_append more hpe, hmore more hm]⟩
      · obtain ⟨k, rfl, hlt, hmore⟩ := hp.incomplete_size h
        exact ⟨k, rfl, hlt, fun more hm => by simp [hmore more hm]⟩

end Streaming

end Flo.Nom
