import Kernal.Cfs

/-! The part of `sched.c` that decides which task runs. The scheduling classes other than the
fair one have nothing to run, so that the choice falls back on the idle task. -/
namespace Kernal.Cfs

def TASK_RUNNING : Nat := 0
def TASK_INTERRUPTIBLE : Nat := 1
def MAX_RT_PRIO : Nat := 100
def SCHED_NORMAL : Nat := 0

inductive SchedClass where
  | stop | deadline | rt | fair | idle
  deriving DecidableEq, Repr

section

variable (env : Platform) (h : Hierarchy)

/-- The fast path asks the fair class; when it has no task, the walk over the classes
asks it once more. `none` is the idle task. -/
def pickNextTask (s : Sched) (prev : Option Nat) (clock : Nat → U64) : Option Nat × Sched :=
  let fast := if s.nrRunning = (s.cfs root).hNrRunning then pickNextTaskFair env h s prev clock
    else (none, s)
  match fast with
  | (some p, s) => (some p, s)
  | (none, s) => pickNextTaskFair env h s prev fun i => clock (i + 3)

/-- A pick leaves it to `schedule` to record the answer. -/
theorem curr_pickNextTaskFair (s : Sched) (prev : Option Nat) (clock : Nat → U64) :
    (pickNextTaskFair env h s prev clock).2.curr = s.curr := by
  have charge (s : Sched) (now : U64) : (updateCurr env s root now).curr = s.curr := by
    unfold updateCurr
    split
    · rfl
    · dsimp only
      split <;> rfl
  have first (s : Sched) (now : U64) : (pickFirst env s now).2.curr = s.curr := by
    have same : (pickNextEntity env s root none).2.curr = s.curr := rfl
    unfold pickFirst
    generalize pickNextEntity env s root none = result at same
    obtain ⟨chosen,s'⟩ := result
    cases chosen with
    | none => exact same
    | some e =>
      refine Eq.trans ?_ same
      dsimp only [setNextEntity]
      split <;> rfl
  unfold pickNextTaskFair
  split
  · rfl
  · cases prev with
    | none => exact first s _
    | some p =>
      dsimp only
      split
      · exact charge s _
      · rw [first]
        unfold putPrevEntity
        dsimp only
        split
        · exact (charge _ _).trans (charge s _)
        · exact charge s _

theorem curr_pickNextTask (s : Sched) (prev : Option Nat) (clock : Nat → U64) :
    (pickNextTask env h s prev clock).2.curr = s.curr := by
  dsimp only [pickNextTask]
  split
  next fast =>
    split at fast
    · exact (congrArg (·.2.curr) fast).symm.trans (curr_pickNextTaskFair env h s prev clock)
    · cases fast
  next s' fast =>
    rw [curr_pickNextTaskFair]
    split at fast
    · exact (congrArg (·.2.curr) fast).symm.trans (curr_pickNextTaskFair env h s prev clock)
    · cases fast
      rfl

def schedule (s : Sched) (clock : Nat → U64) : Sched :=
  let (next, s) := pickNextTask env h s s.curr clock
  { s with curr := next }

end

end Kernal.Cfs
