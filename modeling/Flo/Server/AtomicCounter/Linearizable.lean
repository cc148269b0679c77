import Flo.Server.AtomicCounter

/-!
# `set_if_greater` behaves as one atomic step

`AtomicCounterWriter::set_if_greater` is a `load` followed by a `store`, not a compare-and-swap
loop: the module's doc says that limiting mutation to a single reference makes such operations
easier and faster. This module states what the single writer buys. `Op.apply` is the counter the
module describes, with every operation one atomic step on one value, and `replay` checks a
history of operations and their results against it.

The `history` of a run is read off its accesses and the results they returned, as the threads
see them: each operation with the arguments it was called with, placed at the access where it
takes effect. `set_if_greater(v)` is called by its opening load and takes effect at its store.
Every run of the writer and its readers is linearizable (`run_linearizable`): its history is one
the atomic counter accepts, and the atomic counter ends at the value the run ends at. No bound on
the additions is needed, since both levels wrap as a release build does; a debug build panics in
`increment_and_get_relaxed` when `old + amount` overflows, which the model does not represent.
-/

namespace Flo.Server.AtomicCounter

variable {w : Nat}

/-- An operation of the counter, as a thread calls it. -/
inductive Op (w : Nat) where
  | incrementAndGetRelaxed (amount : BitVec w)
  | fetchAdd (amount : BitVec w)
  | setIfGreater (newValue : BitVec w)
  | load
deriving DecidableEq

/-- The counter the module describes, every operation one atomic step on its value: the value
after the operation, and what the operation returns. `set_if_greater` keeps the larger value. -/
def Op.apply (value : BitVec w) : Op w → BitVec w × Option (BitVec w)
  | .incrementAndGetRelaxed amount => (value + amount, some (value + amount))
  | .fetchAdd amount => (value + amount, some value)
  | .setIfGreater newValue => (if value < newValue then newValue else value, none)
  | .load => (value, some value)

/-- Replays a history, operations with the results their threads saw, on the atomic counter from
`value`: the value it ends at, or `none` if a result is not the one the atomic counter returns. -/
def replay (value : BitVec w) : List (Op w × Option (BitVec w)) → Option (BitVec w)
  | [] => some value
  | (op, result) :: history =>
    if result = (op.apply value).2 then replay (op.apply value).1 history else none

/-- The history of a run, read off each access and the result it returned, and nothing of the
states: every operation with its arguments and result, at the access where it takes effect.
`pending` is the argument of a `set_if_greater` called by its opening load and not yet stored. -/
def history (pending : Option (BitVec w)) : List (Transition w) → List (Op w × Option (BitVec w))
  | [] => []
  | t :: ts =>
    match t.action with
    | .incrementAndGetRelaxed amount =>
      (.incrementAndGetRelaxed amount, t.result) :: history pending ts
    | .fetchAdd amount => (.fetchAdd amount, t.result) :: history pending ts
    | .setIfGreater newValue => history (some newValue) ts
    | .setIfGreaterStore =>
      (pending.map fun newValue => (.setIfGreater newValue, t.result)).toList ++ history none ts
    | .load => (.load, t.result) :: history pending ts

/-- The argument of the `set_if_greater` the writer is inside, if any. -/
def State.pending (s : State w) : Option (BitVec w) :=
  match s.pc with
  | .idle => none
  | .setIfGreaterLoaded newValue _ => some newValue

/-- The state a run ends in: the state after its last access. -/
def endState (s : State w) (ts : List (Transition w)) : State w :=
  ts.foldl (fun _ t => t.after) s

/-- One access, from a state that keeps the invariant, is one step of the atomic counter with the
same result, or no step at all for the load that opens `set_if_greater`. -/
theorem replay_step {s s' : State w} {a : Action w} {r : Option (BitVec w)}
    (h : step s a = some (s', r)) (hinv : Inv s) (ts : List (Transition w)) :
    replay s.value (history s.pending (⟨s, a, r, s'⟩ :: ts)) =
      replay s'.value (history s'.pending ts) := by
  rcases step_cases h with ⟨_, rfl, hidle, rfl, rfl⟩ | ⟨_, rfl, hidle, rfl, rfl⟩ |
    ⟨_, rfl, -, rfl, rfl⟩ | ⟨newValue, current, rfl, hpc, rfl, rfl⟩ | ⟨rfl, rfl, rfl⟩
  · simp [history, replay, Op.apply, State.pending, hidle]
  · simp [history, replay, Op.apply, State.pending, hidle]
  · rfl
  · -- the store: the value is still the one the writer loaded
    simp [history, replay, Op.apply, State.pending, hpc, hinv _ _ hpc]
  · simp [history, replay, Op.apply]

/-- From a state that keeps the invariant, the history of a run replays on the atomic counter to
the value the run ends at. -/
theorem replay_run {s : State w} {as : List (Action w)} {ts : List (Transition w)}
    (hrun : run s as = some ts) (hinv : Inv s) :
    replay s.value (history s.pending ts) = some (endState s ts).value := by
  induction as generalizing s ts with
  | nil =>
      cases hrun
      rfl
  | cons a as ih =>
      obtain ⟨s', r, ts', hstep, hts', rfl⟩ := run_cons_eq_some.mp hrun
      rw [replay_step hstep hinv, ih hts' (step_inv hstep hinv)]
      rfl

/-- Every run of the writer and its readers from `with_value` (or `zero`) is linearizable against
the atomic counter: the operations the threads called, with the results they saw, each at the
access where it takes effect, are a history of the atomic counter, which ends at the value the
run ends at. -/
theorem run_linearizable {value : BitVec w} {actions : List (Action w)}
    {ts : List (Transition w)} (hrun : run (withValue value) actions = some ts) :
    replay value (history none ts) = some (endState (withValue value) ts).value :=
  replay_run hrun (inv_withValue value)

theorem run_linearizable_sample :
    run zero sampleActions = some sampleRun ∧
      replay 0 (history none sampleRun) = some (endState zero sampleRun).value :=
  have hrun : run (withValue 0) sampleActions = some sampleRun := rfl
  ⟨hrun, run_linearizable hrun⟩

end Flo.Server.AtomicCounter
