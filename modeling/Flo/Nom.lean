import Flo.Wire

/-!
# nom's streaming byte parsers

The protocol decoder is written with the macros of nom 2 (`chain!`, `alt!`, `tag!`, `take!`,
`map!`, `map_res!`, `length_data!`, `length_count!`, `count!` and `be_u16` to `be_u64`). A nom
parser reads a byte slice and answers `Done(rest, value)`, `Error(kind)` or
`Incomplete(Needed::Size(k))`, where `k` counts bytes from the start of the parser's own input.

`chain!` is the monad's `bind`: a later parser's `Incomplete` size is moved past the bytes the
earlier ones consumed. `length_data!`, `length_count!` and `count!` are built from it, so they
offset their sizes the same way. This is the contract the frame reader relies on, and the one
the protocol test `this_works_how_i_think_it_does` observes (a size of 12164 for a 33-byte
`ReceiveEvent` prefix whose namespace length is 12133).
-/

namespace Flo.Nom

open Flo.Wire

/-- How many bytes a parser needs before it can decide, counted from the start of its input. -/
inductive Needed where
  | unknown
  | size (n : Nat)
deriving DecidableEq, Repr

/-- The nom error codes the protocol's parsers can raise. -/
inductive ErrorKind where
  | tag
  | mapRes
  | count
  | alt
deriving DecidableEq, Repr

/-- A parser's verdict: a value with the unread bytes, an error, or a request for more input. -/
inductive IResult (α : Type) where
  | done (rest : List UInt8) (output : α)
  | error (kind : ErrorKind)
  | incomplete (needed : Needed)
deriving DecidableEq, Repr

/-- A nom parser over a byte slice. -/
def Parser (α : Type) : Type := List UInt8 → IResult α

variable {α β ε : Type}

/-- A size counted from `consumed` bytes earlier in the input. -/
def Needed.after (consumed : Nat) : Needed → Needed
  | .unknown => .unknown
  | .size n => .size (consumed + n)

/-- A verdict of a parser that ran `consumed` bytes into its caller's input; only an
`Incomplete` size changes. -/
def IResult.after (consumed : Nat) : IResult α → IResult α
  | .incomplete needed => .incomplete (needed.after consumed)
  | result => result

/-- Sequencing, as one step of `chain!`: run `p`, then `f` on what `p` leaves. -/
def Parser.bind (p : Parser α) (f : α → Parser β) : Parser β := fun input =>
  match p input with
  | .done rest a => (f a rest).after (input.length - rest.length)
  | .error kind => .error kind
  | .incomplete needed => .incomplete needed

instance : Monad Parser where
  pure a := fun input => .done input a
  bind := Parser.bind

/-- `tag!(&[t])`: the one-byte slice `[t]`. On an empty slice nom asks for the tag's length. -/
def tag (t : UInt8) : Parser (List UInt8)
  | [] => .incomplete (.size 1)
  | b :: rest => if b = t then .done rest [b] else .error .tag

/-- `take!(n)`: the next `n` bytes. -/
def take (n : Nat) : Parser (List UInt8) := fun input =>
  if input.length < n then .incomplete (.size n) else .done (input.drop n) (input.take n)

/-- `map!(p, f)`. -/
def map (p : Parser α) (f : α → β) : Parser β := fun input =>
  match p input with
  | .done rest a => .done rest (f a)
  | .error kind => .error kind
  | .incomplete needed => .incomplete needed

/-- `map_res!(p, f)`: an `Err` of `f` is a `MapRes` error. -/
def mapRes (p : Parser α) (f : α → Except ε β) : Parser β := fun input =>
  match p input with
  | .done rest a =>
    match f a with
    | .ok b => .done rest b
    | .error _ => .error .mapRes
  | .error kind => .error kind
  | .incomplete needed => .incomplete needed

/-- Report every error of `p` as `kind`, as `count!` does when one of its items fails. -/
def withError (kind : ErrorKind) (p : Parser α) : Parser α := fun input =>
  match p input with
  | .error _ => .error kind
  | result => result

/-- `be_u16`: two bytes, big-endian. -/
def beU16 : Parser UInt16 := map (take 2) fun bytes => UInt16.ofNat (beValue bytes)

/-- `be_u32`: four bytes, big-endian. -/
def beU32 : Parser UInt32 := map (take 4) fun bytes => UInt32.ofNat (beValue bytes)

/-- `be_u64`: eight bytes, big-endian. -/
def beU64 : Parser UInt64 := map (take 8) fun bytes => UInt64.ofNat (beValue bytes)

/-- `length_data!(p)`: a length read by `p`, then that many bytes. -/
def lengthData (p : Parser Nat) : Parser (List UInt8) := do
  let n ← p
  take n

/-- Modelled from the spec: nom's `count!` is not in the sources. `q` applied `n` times in a row,
an item's failure reported as `Count`, and an item's `Incomplete` size moved past the items
before it, as §4.A's incremental "need N more bytes" contract asks of every combinator. -/
def count (q : Parser β) : Nat → Parser (List β)
  | 0 => pure []
  | n + 1 => withError .count do
    let item ← q
    let items ← count q n
    pure (item :: items)

/-- `length_count!(p, q)`: a count read by `p`, then that many items read by `q`. -/
def lengthCount (p : Parser Nat) (q : Parser β) : Parser (List β) := do
  let n ← p
  count q n

/-- `alt!`: the verdict of the first parser that does not fail; `Alt` when all fail. -/
def alt : List (Parser α) → Parser α
  | [] => fun _ => .error .alt
  | p :: ps => fun input =>
    match p input with
    | .error _ => alt ps input
    | result => result

/-- A verdict as `alt!` passes it on from the alternative that gave it, once every later
alternative fails: an error becomes `Alt`. -/
def IResult.orAlt : IResult α → IResult α
  | .error _ => .error .alt
  | result => result

/-! ## Evaluation -/

section Evaluation

variable {p : Parser α} {f : α → Parser β} {input rest : List UInt8} {a : α}

@[simp] theorem after_done (consumed : Nat) (rest : List UInt8) (a : α) :
    (IResult.done rest a).after consumed = .done rest a := rfl

@[simp] theorem after_error (consumed : Nat) (kind : ErrorKind) :
    (IResult.error kind : IResult α).after consumed = .error kind := rfl

@[simp] theorem after_eq_done {consumed : Nat} {result : IResult α} :
    result.after consumed = .done rest a ↔ result = .done rest a := by
  cases result with
  | incomplete needed => simp [IResult.after]
  | _ => simp [IResult.after]

@[simp] theorem after_eq_error {consumed : Nat} {result : IResult α} {kind : ErrorKind} :
    result.after consumed = .error kind ↔ result = .error kind := by
  cases result with
  | incomplete needed => simp [IResult.after]
  | _ => simp [IResult.after]

@[simp] theorem pure_apply (a : α) (input : List UInt8) :
    (pure a : Parser α) input = .done input a := rfl

theorem bind_apply (p : Parser α) (f : α → Parser β) (input : List UInt8) :
    (p >>= f) input = match p input with
      | .done rest a => (f a rest).after (input.length - rest.length)
      | .error kind => .error kind
      | .incomplete needed => .incomplete needed := rfl

theorem bind_of_done (h : p input = .done rest a) :
    (p >>= f) input = (f a rest).after (input.length - rest.length) := by
  rw [bind_apply, h]

theorem bind_of_error {kind : ErrorKind} (h : p input = .error kind) :
    (p >>= f) input = .error kind := by
  rw [bind_apply, h]

theorem bind_of_incomplete {needed : Needed} (h : p input = .incomplete needed) :
    (p >>= f) input = .incomplete needed := by
  rw [bind_apply, h]

/-- A sequence succeeds exactly when its first parser does and the rest succeeds on what the
first leaves. -/
theorem bind_eq_done {output : β} :
    (p >>= f) input = .done rest output ↔
      ∃ mid a, p input = .done mid a ∧ f a mid = .done rest output := by
  rw [bind_apply]
  cases p input with
  | done mid a =>
      simp only [after_eq_done, IResult.done.injEq]
      exact ⟨fun h => ⟨mid, a, ⟨rfl, rfl⟩, h⟩, fun ⟨_, _, ⟨hm, ha⟩, h⟩ => hm ▸ ha ▸ h⟩
  | error kind => simp
  | incomplete needed => simp

@[simp] theorem tag_cons_self (t : UInt8) (rest : List UInt8) :
    tag t (t :: rest) = .done rest [t] := by
  simp [tag]

theorem tag_cons_of_ne {t b : UInt8} (h : b ≠ t) (rest : List UInt8) :
    tag t (b :: rest) = .error .tag := by
  simp [tag, h]

/-- A `chain!` led by `tag!` fails on any other first byte. -/
theorem tag_bind_of_ne {t c : UInt8} {k : List UInt8 → Parser β} (h : c ≠ t)
    (rest : List UInt8) : (tag t >>= k) (c :: rest) = .error .tag :=
  bind_of_error (tag_cons_of_ne h rest)

/-- A `map!` of `tag!` fails on any other first byte. -/
theorem map_tag_of_ne {t c : UInt8} {g : List UInt8 → β} (h : c ≠ t)
    (rest : List UInt8) : map (tag t) g (c :: rest) = .error .tag := by
  simp [map, tag_cons_of_ne h rest]

theorem take_append_of_length {n : Nat} {bytes : List UInt8} (h : bytes.length = n)
    (rest : List UInt8) : take n (bytes ++ rest) = .done rest bytes := by
  subst h
  simp [take]

theorem mapRes_of_done_of_error {g : α → Except ε β} {e : ε} (h : p input = .done rest a)
    (hg : g a = .error e) : mapRes p g input = .error .mapRes := by
  simp [mapRes, h, hg]

@[simp] theorem map_apply_done {g : α → β} (h : p input = .done rest a) :
    map p g input = .done rest (g a) := by
  simp [map, h]

end Evaluation

/-! ## What each parser accepts

One lemma per combinator says exactly when it succeeds and what it returns; the protocol's
parsers are characterised by rewriting with them. -/

section Accepts

variable {p : Parser α} {input rest : List UInt8}

theorem tag_eq_done {t : UInt8} {x : List UInt8} :
    tag t input = .done rest x ↔ input = t :: rest ∧ x = [t] := by
  cases input with
  | nil => simp [tag]
  | cons b bs =>
      by_cases hb : b = t
      · subst hb; simp [tag, eq_comm]
      · simp [tag, hb]

theorem take_eq_done {n : Nat} {x : List UInt8} :
    take n input = .done rest x ↔ x.length = n ∧ input = x ++ rest := by
  constructor
  · intro h
    simp only [take] at h
    split at h
    · cases h
    · next hn =>
        cases h
        exact ⟨by simp; omega, (List.take_append_drop n input).symm⟩
  · rintro ⟨rfl, rfl⟩
    exact take_append_of_length rfl rest

theorem map_eq_done {g : α → β} {y : β} :
    map p g input = .done rest y ↔ ∃ x, p input = .done rest x ∧ y = g x := by
  simp only [map]
  cases p input with
  | done mid a =>
      simp only [IResult.done.injEq]
      constructor
      · rintro ⟨rfl, rfl⟩
        exact ⟨a, ⟨rfl, rfl⟩, rfl⟩
      · rintro ⟨_, ⟨rfl, rfl⟩, rfl⟩
        exact ⟨rfl, rfl⟩
  | error kind => simp
  | incomplete needed => simp

theorem mapRes_eq_done {g : α → Except ε β} {y : β} :
    mapRes p g input = .done rest y ↔ ∃ x, p input = .done rest x ∧ g x = .ok y := by
  simp only [mapRes]
  cases p input with
  | done mid a =>
      simp only
      split
      · next b hg =>
          simp only [IResult.done.injEq]
          constructor
          · rintro ⟨rfl, rfl⟩
            exact ⟨a, ⟨rfl, rfl⟩, hg⟩
          · rintro ⟨_, ⟨rfl, rfl⟩, hx⟩
            rw [hg] at hx
            cases hx
            exact ⟨rfl, rfl⟩
      · next e hg => simp [hg]
  | error kind => simp
  | incomplete needed => simp

theorem withError_eq_done {kind : ErrorKind} {x : α} :
    withError kind p input = .done rest x ↔ p input = .done rest x := by
  simp only [withError]
  split <;> simp_all

/-- `be_u16`, `be_u32` and `be_u64` at once: `n` bytes read big-endian into a word type whose
`toNat` is injective and below `256 ^ n`, with `ofNat` inverting it there. The reader succeeds
exactly on the `n` bytes that encode its word. -/
theorem map_take_beValue_eq_done {β : Type} {n : Nat} {ofNat : Nat → β} {toNat : β → Nat}
    (hlt : ∀ x, toNat x < 256 ^ n) (hinv : ∀ a, a < 256 ^ n → toNat (ofNat a) = a)
    (hinj : ∀ {x y}, toNat x = toNat y → x = y) {v : β} :
    map (take n) (fun bytes => ofNat (beValue bytes)) input = .done rest v ↔
      input = beBytes n (toNat v) ++ rest := by
  rw [map_eq_done]
  constructor
  · rintro ⟨bytes, hb, rfl⟩
    obtain ⟨hlen, rfl⟩ := take_eq_done.mp hb
    rw [hinv _ (hlen ▸ beValue_lt bytes), ← hlen, beBytes_beValue]
  · rintro rfl
    refine ⟨_, take_append_of_length (length_beBytes _ _) rest, hinj ?_⟩
    rw [beValue_beBytes, Nat.mod_eq_of_lt (hlt v), hinv _ (hlt v)]

theorem beU16_eq_done {v : UInt16} : beU16 input = .done rest v ↔ input = u16 v ++ rest :=
  map_take_beValue_eq_done UInt16.toNat_lt_size (fun _ h => Nat.mod_eq_of_lt h) UInt16.toNat.inj

theorem beU32_eq_done {v : UInt32} : beU32 input = .done rest v ↔ input = u32 v ++ rest :=
  map_take_beValue_eq_done UInt32.toNat_lt_size (fun _ h => Nat.mod_eq_of_lt h) UInt32.toNat.inj

theorem beU64_eq_done {v : UInt64} : beU64 input = .done rest v ↔ input = u64 v ++ rest :=
  map_take_beValue_eq_done UInt64.toNat_lt_size (fun _ h => Nat.mod_eq_of_lt h) UInt64.toNat.inj

@[simp] theorem beU16_u16 (v : UInt16) (rest : List UInt8) :
    beU16 (u16 v ++ rest) = .done rest v := beU16_eq_done.mpr rfl

@[simp] theorem beU32_u32 (v : UInt32) (rest : List UInt8) :
    beU32 (u32 v ++ rest) = .done rest v := beU32_eq_done.mpr rfl

@[simp] theorem beU64_u64 (v : UInt64) (rest : List UInt8) :
    beU64 (u64 v ++ rest) = .done rest v := beU64_eq_done.mpr rfl

/-- `count!` succeeds on `n` consecutive items: if `q` accepts exactly the frames related to its
values by `G`, then `count q n` accepts exactly `n` such frames in a row. -/
theorem count_eq_done {q : Parser β} {G : List UInt8 → β → Prop}
    (hq : ∀ input rest x, q input = .done rest x ↔ ∃ f, G f x ∧ input = f ++ rest) :
    ∀ (n : Nat) (input rest : List UInt8) (xs : List β),
      count q n input = .done rest xs ↔
        ∃ fs, List.Forall₂ G fs xs ∧ xs.length = n ∧ input = fs.flatten ++ rest
  | 0, input, rest, xs => by
      simp only [count, pure_apply, IResult.done.injEq]
      constructor
      · rintro ⟨rfl, rfl⟩
        exact ⟨[], .nil, rfl, rfl⟩
      · rintro ⟨fs, hfs, hlen, rfl⟩
        obtain rfl := List.length_eq_zero.mp hlen
        obtain rfl := List.forall₂_nil_right_iff.mp hfs
        exact ⟨rfl, rfl⟩
  | n + 1, input, rest, xs => by
      simp only [count, withError_eq_done, bind_eq_done, pure_apply, IResult.done.injEq,
        hq, count_eq_done hq n]
      constructor
      · rintro ⟨mid, x, ⟨f, hf, rfl⟩, mid', xs', ⟨fs, hfs, hlen, rfl⟩, rfl, rfl⟩
        exact ⟨f :: fs, .cons hf hfs, by simp [hlen], by simp⟩
      · rintro ⟨_ | ⟨f, fs⟩, hfs, hlen, rfl⟩
        · cases hfs
          simp at hlen
        · obtain ⟨x, xs', hf, hfs', rfl⟩ :
              ∃ x xs', G f x ∧ List.Forall₂ G fs xs' ∧ xs = x :: xs' := by
            cases hfs with
            | cons hf hfs' => exact ⟨_, _, hf, hfs', rfl⟩
          exact ⟨_, x, ⟨f, hf, by simp⟩, _, xs', ⟨fs, hfs', by simpa using hlen, rfl⟩, rfl, rfl⟩

/-- A choice succeeds only through one of its alternatives. -/
theorem exists_mem_of_alt_eq_done {x : α} :
    ∀ {ps : List (Parser α)}, alt ps input = .done rest x → ∃ p ∈ ps, p input = .done rest x
  | [], h => by cases h
  | p :: ps, h => by
      simp only [alt] at h
      split at h
      · obtain ⟨q, hq, hqx⟩ := exists_mem_of_alt_eq_done h
        exact ⟨q, List.mem_cons_of_mem p hq, hqx⟩
      · exact ⟨p, List.mem_cons_self p ps, h⟩

/-- A choice among alternatives that each fail or return `x` returns `x` once one of them
does. -/
theorem alt_eq_done_of {x : α} :
    ∀ {ps : List (Parser α)}, (∀ p ∈ ps, (∃ kind, p input = .error kind) ∨ p input = .done rest x) →
      (∃ p ∈ ps, p input = .done rest x) → alt ps input = .done rest x
  | [], _, ⟨_, hp, _⟩ => by cases hp
  | p :: ps, hall, hsome => by
      simp only [alt]
      rcases hall p (List.mem_cons_self p ps) with ⟨kind, hkind⟩ | hdone
      · rw [hkind]
        refine alt_eq_done_of (fun q hq => hall q (List.mem_cons_of_mem p hq)) ?_
        obtain ⟨q, hq, hqx⟩ := hsome
        rcases List.mem_cons.mp hq with rfl | hq
        · rw [hkind] at hqx
          cases hqx
        · exact ⟨q, hq, hqx⟩
      · rw [hdone]

/-- A choice whose alternatives all fail fails with `Alt`. -/
theorem alt_eq_error_of :
    ∀ {ps : List (Parser α)}, (∀ p ∈ ps, ∃ kind, p input = .error kind) → alt ps input = .error .alt
  | [], _ => rfl
  | p :: ps, hall => by
      obtain ⟨kind, hkind⟩ := hall p (List.mem_cons_self p ps)
      simp only [alt, hkind]
      exact alt_eq_error_of fun q hq => hall q (List.mem_cons_of_mem p hq)

/-- A choice among parsers led by pairwise distinct tags is decided by the first byte: the
alternative whose tag it is gives the verdict, an error of it reported as `Alt`, and a byte that
is no alternative's tag is an `Alt` error. -/
theorem alt_table {table : List (UInt8 × Parser α)}
    (hled : ∀ e ∈ table, ∀ c rest, c ≠ e.1 → e.2 (c :: rest) = .error .tag)
    (hnodup : (table.map Prod.fst).Nodup) (c : UInt8) (rest : List UInt8) :
    alt (table.map Prod.snd) (c :: rest) =
      (table.lookup c).elim (.error .alt) fun p => (p (c :: rest)).orAlt := by
  induction table with
  | nil => rfl
  | cons e table ih =>
      obtain ⟨t, p⟩ := e
      rw [List.map_cons, List.nodup_cons] at hnodup
      by_cases hc : c = t
      · subst hc
        have hlater : alt (table.map Prod.snd) (c :: rest) = .error .alt :=
          alt_eq_error_of fun q hq => by
            obtain ⟨e, he, rfl⟩ := List.mem_map.mp hq
            refine ⟨_, hled e (List.mem_cons_of_mem _ he) c rest fun h => hnodup.1 ?_⟩
            exact h ▸ List.mem_map.mpr ⟨e, he, rfl⟩
        rw [List.map_cons, List.lookup_cons_self]
        cases hp : p (c :: rest) <;> simp [alt, hp, hlater, IResult.orAlt]
      · have hp : p (c :: rest) = .error .tag := hled (t, p) (List.mem_cons_self _ _) c rest hc
        rw [List.map_cons, List.lookup_cons, beq_false_of_ne hc]
        simp only [alt, hp]
        exact ih (fun e he => hled e (List.mem_cons_of_mem _ he)) hnodup.2

end Accepts

end Flo.Nom
