import Mathlib.Data.Option.Defs
import Mathlib.Algebra.Group.Nat.Basic
import Mathlib.Data.List.Range
import Mathlib.Data.List.Nodup

/-!
# The single-writer atomic counter

`AtomicCounterWriter` wraps an `AtomicUsize` that it shares, through an `Arc`, with every
`AtomicCounterReader` it hands out. The counter is one memory location and every access to it is
atomic, so an execution is an interleaving of those accesses in the location's modification
order. A `State` is the location's value and where the writer is: between operations, or inside
`set_if_greater`, which loads the value and stores the new one in a second access. `step` is one
access, of the writer or of any reader, and `run` plays a list of them.

The writer is the only thread that stores, so inside `set_if_greater` the value is still the one
it loaded (`Inv`), and only reader loads run until the store (`run_pending`). With that, no
access makes the value smaller unless an addition overflows (`step_value_le`), and
`atomicCounter_run` collects what readers and writer observe over a whole run; a loaded value
stays a lower bound of the counter for the rest of the run (`loaded_le_later`).
`EngineRef::next_connection_id` runs the same pattern on the engine's connection counter, and
hands out the ids `1` to `n`, all distinct (`connectionIds_range_nodup`).

A `usize` is a `BitVec w`, `w` being the target's pointer width. Its additions wrap, as
`AtomicUsize::fetch_add` always does and as `old + amount` does in a release build; a debug build
panics in `increment_and_get_relaxed` instead, which the theorems here exclude by their
no-overflow hypotheses.
-/

namespace Flo.Server.AtomicCounter

/-- Where the writer thread is: between operations, or inside `set_if_greater(newValue)` after
it loaded `current`. -/
inductive WriterPc (w : Nat) where
  | idle
  | setIfGreaterLoaded (newValue current : BitVec w)
deriving DecidableEq

/-- The `AtomicUsize` behind the `Arc`, and the writer's position. -/
structure State (w : Nat) where
  value : BitVec w
  pc : WriterPc w
deriving DecidableEq

/-- The atomic accesses to the counter. The memory orderings are not modelled: on one location
every ordering sees the modification order. -/
inductive Action (w : Nat) where
  /-- `increment_and_get_relaxed(amount)`, one `fetch_add`. -/
  | incrementAndGetRelaxed (amount : BitVec w)
  /-- `fetch_add(amount, ordering)`. -/
  | fetchAdd (amount : BitVec w)
  /-- The load that starts `set_if_greater(newValue)`. -/
  | setIfGreater (newValue : BitVec w)
  /-- The comparison and store that finish `set_if_greater`. -/
  | setIfGreaterStore
  /-- A `load` through any reader. -/
  | load
deriving DecidableEq

variable {w : Nat}

/-- `AtomicCounterWriter::with_value`. -/
def withValue (value : BitVec w) : State w := ⟨value, .idle⟩

/-- `AtomicCounterWriter::zero`. -/
def zero : State w := withValue 0

/-- One access: the next state and what it returns to its thread. The writer holds `&mut self`,
so it starts an operation only between operations. `increment_and_get_relaxed` returns
`old + amount`, the old value being what its `fetch_add` returned. -/
def step (s : State w) : Action w → Option (State w × Option (BitVec w))
  | .incrementAndGetRelaxed amount => match s.pc with
    | .idle => some (⟨s.value + amount, .idle⟩, some (s.value + amount))
    | .setIfGreaterLoaded .. => none
  | .fetchAdd amount => match s.pc with
    | .idle => some (⟨s.value + amount, .idle⟩, some s.value)
    | .setIfGreaterLoaded .. => none
  | .setIfGreater newValue => match s.pc with
    | .idle => some (⟨s.value, .setIfGreaterLoaded newValue s.value⟩, none)
    | .setIfGreaterLoaded .. => none
  | .setIfGreaterStore => match s.pc with
    | .idle => none
    | .setIfGreaterLoaded newValue current =>
      some (⟨if newValue > current then newValue else s.value, .idle⟩, none)
  | .load => some (s, some s.value)

/-- One access of a run: the state it starts from, the access, what it returned, and the state
it leaves. -/
structure Transition (w : Nat) where
  before : State w
  action : Action w
  result : Option (BitVec w)
  after : State w
deriving DecidableEq

/-- The transitions of a list of accesses, or `none` when the writer starts an operation inside
another. -/
def run (s : State w) : List (Action w) → Option (List (Transition w))
  | [] => some []
  | a :: as => match step s a with
    | some (s', r) => (run s' as).map (⟨s, a, r, s'⟩ :: ·)
    | none => none

/-- The value a transition shows a reader: the result of a `load`. -/
def Transition.loaded (t : Transition w) : Option (BitVec w) :=
  match t.action with
  | .load => t.result
  | _ => none

/-- The amount an access adds. -/
def Action.amount? : Action w → Option (BitVec w)
  | .incrementAndGetRelaxed amount | .fetchAdd amount => some amount
  | _ => none

/-- The transition adds no amount that carries the value past `usize::MAX`. -/
def Transition.NoOverflow (t : Transition w) : Prop :=
  ∀ amount ∈ t.action.amount?, t.before.value.toNat + amount.toNat < 2 ^ w

instance (t : Transition w) : Decidable t.NoOverflow :=
  Option.decidableForallMem t.action.amount?

/-- While the writer is inside `set_if_greater`, the value is the one it loaded. -/
def Inv (s : State w) : Prop :=
  ∀ newValue current, s.pc = .setIfGreaterLoaded newValue current → s.value = current

theorem inv_withValue (value : BitVec w) : Inv (withValue value) := by
  intro _ _ h
  cases h

/-! ## One access -/

section Step

variable {s s' : State w} {a : Action w} {r : Option (BitVec w)}

/-- Everything an access can do. -/
theorem step_cases (h : step s a = some (s', r)) :
    (∃ amount, a = .incrementAndGetRelaxed amount ∧ s.pc = .idle ∧
        s' = ⟨s.value + amount, .idle⟩ ∧ r = some (s.value + amount)) ∨
    (∃ amount, a = .fetchAdd amount ∧ s.pc = .idle ∧
        s' = ⟨s.value + amount, .idle⟩ ∧ r = some s.value) ∨
    (∃ newValue, a = .setIfGreater newValue ∧ s.pc = .idle ∧
        s' = ⟨s.value, .setIfGreaterLoaded newValue s.value⟩ ∧ r = none) ∨
    (∃ newValue current, a = .setIfGreaterStore ∧ s.pc = .setIfGreaterLoaded newValue current ∧
        s' = ⟨if newValue > current then newValue else s.value, .idle⟩ ∧ r = none) ∨
    (a = .load ∧ s' = s ∧ r = some s.value) := by
  obtain ⟨value, pc⟩ := s
  cases a <;> cases pc <;> simp only [step, Option.some.injEq, Prod.mk.injEq] at h <;>
    obtain ⟨hs, hr⟩ := h
  · exact .inl ⟨_, rfl, rfl, hs.symm, hr.symm⟩
  · exact .inr (.inl ⟨_, rfl, rfl, hs.symm, hr.symm⟩)
  · exact .inr (.inr (.inl ⟨_, rfl, rfl, hs.symm, hr.symm⟩))
  · exact .inr (.inr (.inr (.inl ⟨_, _, rfl, rfl, hs.symm, hr.symm⟩)))
  · exact .inr (.inr (.inr (.inr ⟨rfl, hs.symm, hr.symm⟩)))
  · exact .inr (.inr (.inr (.inr ⟨rfl, hs.symm, hr.symm⟩)))

/-- Only the writer stores, so the invariant survives every access. -/
theorem step_inv (h : step s a = some (s', r)) (hinv : Inv s) : Inv s' := by
  rcases step_cases h with ⟨_, -, -, rfl, -⟩ | ⟨_, -, -, rfl, -⟩ | ⟨_, -, -, rfl, -⟩ |
    ⟨_, _, -, -, rfl, -⟩ | ⟨-, rfl, -⟩
  · exact fun _ _ h => nomatch h
  · exact fun _ _ h => nomatch h
  · intro _ _ h
    cases h
    rfl
  · exact fun _ _ h => nomatch h
  · exact hinv

/-- An addition that does not overflow does not decrease the value. -/
theorem le_add_of_no_overflow {value amount : BitVec w}
    (h : value.toNat + amount.toNat < 2 ^ w) : value ≤ value + amount := by
  show value.toNat ≤ (value + amount).toNat
  rw [BitVec.toNat_add, Nat.mod_eq_of_lt h]
  omega

/-- Keeping `newValue` when it is greater, as `set_if_greater` does, keeps the maximum. -/
theorem toNat_ite_gt (current newValue : BitVec w) :
    (if newValue > current then newValue else current).toNat =
      max current.toNat newValue.toNat := by
  split
  · next hgt => exact (Nat.max_eq_right (Nat.le_of_lt hgt)).symm
  · next hgt => exact (Nat.max_eq_left (Nat.le_of_not_lt hgt)).symm

/-- No access makes the value smaller, unless its addition overflows. -/
theorem step_value_le (h : step s a = some (s', r)) (hinv : Inv s)
    (hsafe : ∀ amount ∈ a.amount?, s.value.toNat + amount.toNat < 2 ^ w) : s.value ≤ s'.value := by
  rcases step_cases h with ⟨amount, rfl, -, rfl, -⟩ | ⟨amount, rfl, -, rfl, -⟩ |
    ⟨_, -, -, rfl, -⟩ | ⟨newValue, current, -, hpc, rfl, -⟩ | ⟨-, rfl, -⟩
  · exact le_add_of_no_overflow (hsafe amount rfl)
  · exact le_add_of_no_overflow (hsafe amount rfl)
  · exact Nat.le_refl _
  · rw [hinv _ _ hpc]
    split
    · exact Nat.le_of_lt ‹_›
    · exact Nat.le_refl _
  · exact Nat.le_refl _

/-- A transition that shows a reader `v` is a `load` of `v`, which changes nothing. -/
theorem loaded_eq {t : Transition w} {v : BitVec w}
    (hstep : step t.before t.action = some (t.after, t.result)) (h : t.loaded = some v) :
    v = t.before.value ∧ t.after = t.before := by
  obtain ⟨before, action, result, after⟩ := t
  cases action with
  | load =>
      simp only [step, Option.some.injEq, Prod.mk.injEq] at hstep
      obtain ⟨rfl, rfl⟩ := hstep
      exact ⟨(Option.some.inj h).symm, rfl⟩
  | _ => simp [Transition.loaded] at h

end Step

/-! ## Runs -/

section Run

variable {s : State w} {as : List (Action w)} {ts : List (Transition w)}

theorem run_cons_eq_some {a : Action w} :
    run s (a :: as) = some ts ↔
      ∃ s' r ts', step s a = some (s', r) ∧ run s' as = some ts' ∧ ts = ⟨s, a, r, s'⟩ :: ts' := by
  simp only [run]
  split
  · next s' r hstep =>
      simp only [Option.map_eq_some', hstep, Option.some.injEq, Prod.mk.injEq]
      constructor
      · rintro ⟨ts', hts', rfl⟩
        exact ⟨_, _, _, ⟨rfl, rfl⟩, hts', rfl⟩
      · rintro ⟨_, _, ts', ⟨rfl, rfl⟩, hts', rfl⟩
        exact ⟨ts', hts', rfl⟩
  · next hstep => simp [hstep]

/-- The first transition of a run is an access from the run's start, and the rest is a run from
the state it leaves. -/
theorem run_eq_cons {t : Transition w} (hrun : run s as = some (t :: ts)) :
    t.before = s ∧ step s t.action = some (t.after, t.result) ∧
      ∃ as', run t.after as' = some ts := by
  cases as with
  | nil => cases hrun
  | cons a as =>
      obtain ⟨s', r, ts', hstep, hts', heq⟩ := run_cons_eq_some.mp hrun
      cases heq
      exact ⟨rfl, hstep, as, hts'⟩

/-- What follows a prefix of a run is a run, from a state that keeps the invariant. -/
theorem run_suffix {pre rest : List (Transition w)} (hrun : run s as = some (pre ++ rest))
    (hinv : Inv s) : ∃ s' as', run s' as' = some rest ∧ Inv s' := by
  induction pre generalizing s as with
  | nil => exact ⟨s, as, hrun, hinv⟩
  | cons t pre ih =>
      obtain ⟨rfl, hstep, as', hts⟩ := run_eq_cons hrun
      exact ih hts (step_inv hstep hinv)

/-- While the writer is inside `set_if_greater`, the accesses before the next store are reader
loads, which change nothing: that store is taken from the state the run starts in. -/
theorem run_pending {newValue current : BitVec w} {mid post : List (Transition w)}
    {t' : Transition w} (hrun : run s as = some (mid ++ t' :: post))
    (hpc : s.pc = .setIfGreaterLoaded newValue current)
    (hmid : ∀ u ∈ mid, u.action ≠ .setIfGreaterStore) :
    t'.before = s ∧ step s t'.action = some (t'.after, t'.result) := by
  induction mid generalizing s as with
  | nil =>
      obtain ⟨hbefore, hstep, -⟩ := run_eq_cons hrun
      exact ⟨hbefore, hstep⟩
  | cons u mid ih =>
      obtain ⟨rfl, hstep, as', hts⟩ := run_eq_cons hrun
      have hload : u.after = u.before := by
        rcases step_cases hstep with ⟨_, -, hidle, -⟩ | ⟨_, -, hidle, -⟩ |
          ⟨_, -, hidle, -⟩ | ⟨_, _, hstore, -⟩ | ⟨-, hafter, -⟩
        iterate 3 simp [hpc] at hidle
        · exact absurd hstore (hmid u (List.mem_cons_self _ _))
        · exact hafter
      rw [← hload] at hpc ⊢
      exact ih hts hpc fun u' hu' => hmid u' (List.mem_cons_of_mem _ hu')

/-- Every transition of a run is an access taken from a state that keeps the invariant, at a
value no smaller than the run's start. -/
theorem run_mem (hrun : run s as = some ts) (hinv : Inv s) (hsafe : ∀ t ∈ ts, t.NoOverflow) :
    ∀ t ∈ ts, step t.before t.action = some (t.after, t.result) ∧ Inv t.before ∧
      s.value ≤ t.before.value := by
  induction as generalizing s ts with
  | nil =>
      cases hrun
      simp
  | cons a as ih =>
      obtain ⟨s', r, ts', hstep, hts', rfl⟩ := run_cons_eq_some.mp hrun
      have hle : s.value ≤ s'.value :=
        step_value_le hstep hinv (hsafe _ (List.mem_cons_self _ _))
      have hrest := ih hts' (step_inv hstep hinv) fun t ht => hsafe t (List.mem_cons_of_mem _ ht)
      rintro t (_ | ⟨_, ht⟩)
      · exact ⟨hstep, hinv, Nat.le_refl _⟩
      · obtain ⟨hstep', hinv', hle'⟩ := hrest t ht
        exact ⟨hstep', hinv', Nat.le_trans hle hle'⟩

/-- Along a run, each access leaves a value no larger than the one every later access starts
from. -/
theorem run_pairwise_le (hrun : run s as = some ts) (hinv : Inv s)
    (hsafe : ∀ t ∈ ts, t.NoOverflow) : ts.Pairwise fun t t' => t.after.value ≤ t'.before.value := by
  induction as generalizing s ts with
  | nil =>
      cases hrun
      exact .nil
  | cons a as ih =>
      obtain ⟨s', r, ts', hstep, hts', rfl⟩ := run_cons_eq_some.mp hrun
      have hsafe' : ∀ t ∈ ts', t.NoOverflow := fun t ht => hsafe t (List.mem_cons_of_mem _ ht)
      exact List.pairwise_cons.mpr
        ⟨fun t ht => (run_mem hts' (step_inv hstep hinv) hsafe' t ht).2.2,
          ih hts' (step_inv hstep hinv) hsafe'⟩

/-- The values the readers load, in the order of the run, never decrease. -/
theorem run_loaded_pairwise (hrun : run s as = some ts) (hinv : Inv s)
    (hsafe : ∀ t ∈ ts, t.NoOverflow) : (ts.filterMap Transition.loaded).Pairwise (· ≤ ·) := by
  have hmem := run_mem hrun hinv hsafe
  refine (List.Pairwise.and_mem.mp (run_pairwise_le hrun hinv hsafe)).filterMap _
    fun t t' ⟨ht, ht', hle⟩ v hv v' hv' => ?_
  obtain ⟨rfl, hafter⟩ := loaded_eq (hmem t ht).1 hv
  obtain ⟨rfl, -⟩ := loaded_eq (hmem t' ht').1 hv'
  rwa [hafter] at hle

end Run

/-- Over any run of one writer and its readers from `with_value` (or `zero`) in which no addition
overflows: the readers load a non-decreasing sequence of values; `set_if_greater(v)`, from its
opening load to the store that closes it, finds the value it loaded and leaves the larger of that
value and `v`; and `increment_and_get_relaxed` returns the value the counter holds afterwards. -/
theorem atomicCounter_run {value : BitVec w} {actions : List (Action w)} {ts : List (Transition w)}
    (hrun : run (withValue value) actions = some ts) (hsafe : ∀ t ∈ ts, t.NoOverflow) :
    (ts.filterMap Transition.loaded).Pairwise (· ≤ ·) ∧
      (∀ pre t mid t' post v, ts = pre ++ t :: (mid ++ t' :: post) →
        t.action = .setIfGreater v → t'.action = .setIfGreaterStore →
        (∀ u ∈ mid, u.action ≠ .setIfGreaterStore) →
        t'.before.value = t.before.value ∧
          t'.after.value.toNat = max t.before.value.toNat v.toNat) ∧
      (∀ t ∈ ts, ∀ amount, t.action = .incrementAndGetRelaxed amount →
        t.result = some t.after.value) := by
  refine ⟨run_loaded_pairwise hrun (inv_withValue value) hsafe,
    fun pre t mid t' post v hts hopen hclose hmid => ?_, fun t ht amount hinc => ?_⟩
  · -- the opening load records `v`; only loads run until the store, which finds it
    rw [hts] at hrun
    obtain ⟨s, as, hrest, -⟩ := run_suffix hrun (inv_withValue value)
    obtain ⟨rfl, hstep, as', hafter⟩ := run_eq_cons hrest
    rw [hopen] at hstep
    obtain ⟨_, ⟨⟩, -⟩ | ⟨_, ⟨⟩, -⟩ | ⟨_, ⟨⟩, -, hloaded, -⟩ | ⟨_, _, ⟨⟩, -⟩ |
      ⟨⟨⟩, -⟩ := step_cases hstep
    obtain ⟨hbefore, hstore⟩ := run_pending hafter (by rw [hloaded]) hmid
    rw [hloaded, hclose] at hstore
    simp only [step, Option.some.injEq, Prod.mk.injEq] at hstore
    rw [hbefore, hloaded, ← hstore.1]
    exact ⟨rfl, toNat_ite_gt _ _⟩
  · obtain ⟨hstep, -, -⟩ := run_mem hrun (inv_withValue value) hsafe t ht
    rw [hinc] at hstep
    obtain ⟨_, -, -, hafter, hresult⟩ | ⟨_, ⟨⟩, -⟩ | ⟨_, ⟨⟩, -⟩ | ⟨_, _, ⟨⟩, -⟩ |
      ⟨⟨⟩, -⟩ := step_cases hstep
    rw [hresult, hafter]

/-- A value a reader loads bounds the counter from below for the rest of the run: every later
access starts and ends at a value at least as large. -/
theorem loaded_le_later {value : BitVec w} {actions : List (Action w)} {ts : List (Transition w)}
    (hrun : run (withValue value) actions = some ts) (hsafe : ∀ t ∈ ts, t.NoOverflow) :
    ts.Pairwise fun t t' => ∀ v ∈ t.loaded, v ≤ t'.before.value ∧ v ≤ t'.after.value := by
  have hmem := run_mem hrun (inv_withValue value) hsafe
  refine (List.Pairwise.and_mem.mp (run_pairwise_le hrun (inv_withValue value) hsafe)).imp
    fun {t t'} ⟨ht, ht', hle⟩ v hv => ?_
  obtain ⟨rfl, hafter⟩ := loaded_eq (hmem t ht).1 hv
  obtain ⟨hstep', hinv', -⟩ := hmem t' ht'
  rw [hafter] at hle
  exact ⟨hle, Nat.le_trans hle (step_value_le hstep' hinv' (hsafe t' ht'))⟩

/-- A writer that adds `3`, raises the value to `5`, adds `1` and tries to lower it to `2`, with
reader loads between its accesses. -/
def sampleActions : List (Action 64) :=
  [.incrementAndGetRelaxed 3, .load, .setIfGreater 5, .load, .setIfGreaterStore, .load,
    .fetchAdd 1, .setIfGreater 2, .load, .setIfGreaterStore, .load]

/-- The transitions of `sampleActions` from `zero`. -/
def sampleRun : List (Transition 64) := (run zero sampleActions).getD []

theorem atomicCounter_run_sample :
    run zero sampleActions = some sampleRun ∧ (∀ t ∈ sampleRun, t.NoOverflow) ∧
      (sampleRun.filterMap Transition.loaded).Pairwise (· ≤ ·) ∧
      (∀ pre t mid t' post v, sampleRun = pre ++ t :: (mid ++ t' :: post) →
        t.action = .setIfGreater v → t'.action = .setIfGreaterStore →
        (∀ u ∈ mid, u.action ≠ .setIfGreaterStore) →
        t'.before.value = t.before.value ∧
          t'.after.value.toNat = max t.before.value.toNat v.toNat) ∧
      (∀ t ∈ sampleRun, ∀ amount, t.action = .incrementAndGetRelaxed amount →
        t.result = some t.after.value) :=
  have hrun : run zero sampleActions = some sampleRun := rfl
  have hsafe : ∀ t ∈ sampleRun, t.NoOverflow := by decide
  ⟨hrun, hsafe, atomicCounter_run hrun hsafe⟩

theorem loaded_le_later_sample :
    run zero sampleActions = some sampleRun ∧ (∀ t ∈ sampleRun, t.NoOverflow) ∧
      sampleRun.Pairwise fun t t' => ∀ v ∈ t.loaded, v ≤ t'.before.value ∧ v ≤ t'.after.value :=
  have hrun : run zero sampleActions = some sampleRun := rfl
  have hsafe : ∀ t ∈ sampleRun, t.NoOverflow := by decide
  ⟨hrun, hsafe, loaded_le_later hrun hsafe⟩

/-! ## Connection ids

`EngineRef::next_connection_id` uses the same pattern on the engine's connection counter, an
`AtomicUsize` created at `0` and shared by every clone of the engine: a `fetch_add(1)` that
returns `old + 1`. Each call is one atomic access, so the calls of all threads are a run of the
counter's `incrementAndGetRelaxed 1`. -/

/-- `EngineRef::next_connection_id`. -/
def nextConnectionId : Action w := .incrementAndGetRelaxed 1

/-- From a counter at `k`, `n` calls hand out `k + 1` to `k + n`, in the counter's order. -/
theorem run_nextConnectionId (k n : Nat) :
    (run (withValue (BitVec.ofNat w k)) (List.replicate n nextConnectionId)).map
        (List.filterMap Transition.result) =
      some ((List.range' (k + 1) n).map (BitVec.ofNat w)) := by
  induction n generalizing k with
  | zero => rfl
  | succ n ih =>
      have hnext : BitVec.ofNat w k + 1 = BitVec.ofNat w (k + 1) := (BitVec.ofNat_add k 1).symm
      simp only [List.replicate_succ, run, step, withValue, nextConnectionId, hnext] at ih ⊢
      specialize ih (k + 1)
      cases hr : run (⟨BitVec.ofNat w (k + 1), .idle⟩ : State w)
          (List.replicate n (.incrementAndGetRelaxed 1)) with
      | none =>
          rw [hr] at ih
          cases ih
      | some ts =>
          rw [hr, Option.map_some', Option.some.injEq] at ih
          rw [Option.map_some', Option.map_some', List.range'_succ, List.map_cons, ← ih]
          rfl

/-- `n` calls of `next_connection_id` on the engine's counter, created at `0`, return the ids `1`
to `n` in the counter's order, and while `n < 2 ^ w` no two of them are equal. -/
theorem connectionIds_range_nodup {n : Nat} {ts : List (Transition w)}
    (hrun : run (withValue 0) (List.replicate n nextConnectionId) = some ts) (hn : n < 2 ^ w) :
    ts.filterMap Transition.result = (List.range' 1 n).map (BitVec.ofNat w) ∧
      (ts.filterMap Transition.result).Nodup := by
  have hids := run_nextConnectionId (w := w) 0 n
  rw [show (BitVec.ofNat w 0) = 0 from rfl, hrun, Option.map_some', Option.some.injEq] at hids
  refine ⟨hids, hids ▸ (List.nodup_range' _ _).map_on fun x hx y hy hxy => ?_⟩
  rw [List.mem_range'_1] at hx hy
  have hval := congrArg BitVec.toNat hxy
  rwa [BitVec.toNat_ofNat, BitVec.toNat_ofNat, Nat.mod_eq_of_lt (by omega),
    Nat.mod_eq_of_lt (by omega)] at hval

theorem connectionIds_range_nodup_three :
    run (withValue 0) (List.replicate 3 (nextConnectionId (w := 64))) =
        some ((run (withValue 0) (List.replicate 3 nextConnectionId)).getD []) ∧ 3 < 2 ^ 64 ∧
      (((run (withValue 0) (List.replicate 3 (nextConnectionId (w := 64)))).getD []).filterMap
          Transition.result = (List.range' 1 3).map (BitVec.ofNat 64) ∧
        (((run (withValue 0) (List.replicate 3 (nextConnectionId (w := 64)))).getD []).filterMap
          Transition.result).Nodup) :=
  have hrun : run (withValue 0) (List.replicate 3 (nextConnectionId (w := 64))) =
      some ((run (withValue 0) (List.replicate 3 nextConnectionId)).getD []) := by decide
  ⟨hrun, by decide, connectionIds_range_nodup hrun (by decide)⟩

end Flo.Server.AtomicCounter
