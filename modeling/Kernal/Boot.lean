import Kernal.Task
import Mathlib.Data.List.Induction

/-! Starting the scheduler, after `kernel_init` and `kernel_main` of `main.c`. No code sets
the `sched_class` of a task, and `rq->curr` is first set by a `schedule` that has already
read it. -/
namespace Kernal.Task

open Cfs (Hierarchy U64 TASK_RUNNING SCHED_NORMAL)

/-- What `create_init_process` writes into a task between `alloc_task_struct` and
`sched_fork`. -/
def initProcess (p mm : Nat) (jiffies : U64) (t : TaskStruct) : TaskStruct :=
  { t with
    pid := 1
    tgid := 1
    ppid := 0
    pgrp := 1
    session := 1
    comm := "init"
    mm := some mm
    activeMm := some mm
    state := TASK_RUNNING
    prio := DEFAULT_PRIO
    staticPrio := DEFAULT_PRIO
    normalPrio := DEFAULT_PRIO
    policy := SCHED_NORMAL
    cpusAllowed := (1 <<< NR_CPUS) - 1
    nrCpusAllowed := NR_CPUS
    realParent := some p
    parent := some p
    groupLeader := some p
    startTime := jiffies
    realStartTime := jiffies }

/-- The calls, with the values that come from outside. `alloc` is a successful
`alloc_task_struct`. -/
inductive BootOp where
  | alloc (task stack : Nat)
  | fill (p mm : Nat) (jiffies : U64)
  | fork (p : Nat)
  | setCurrent (p : Nat)
  | wake (p : Nat) (clock : Nat → U64) (now : U64)
  | schedule (clock : Nat → U64)

/-- The task a call works on, where it has to be there already. -/
def BootOp.subject : BootOp → Option Nat
  | .fill p _ _ | .fork p | .setCurrent p | .wake p _ _ => some p
  | .alloc _ _ | .schedule _ => none

section

variable (env : Platform) (h : Hierarchy)

def bootStep (k : Kernel) : BootOp → Except NullDeref Kernel
  | .alloc task stack => .ok (allocTaskStruct env k (some task) (some stack)).2
  | .fill p mm jiffies => .ok (k.setTask p (initProcess p mm jiffies))
  | .fork p => schedFork env k p
  | .setCurrent p => .ok (setCurrent k (some p))
  | .wake p clock now => wakeUpNewTask env h k p clock now
  | .schedule clock => schedule env h k clock

def bootRun (k : Kernel) (ops : List BootOp) : Except NullDeref Kernel := ops.foldlM (bootStep env h) k

def createInitProcess (k : Kernel) (task stack mm : Nat) (jiffies : U64) : Except NullDeref Kernel :=
  let k := (allocTaskStruct env k (some task) (some stack)).2
  schedFork env (k.setTask task (initProcess task mm jiffies)) task

/-- The scheduler's part of `kernel_init`. -/
def kernelInit (task : Nat → TaskStruct) (mmCount : Nat → BitVec 32) (init stack mm : Nat)
    (jiffies : U64) (clock : Nat → U64) (now : U64) : Except NullDeref Kernel := do
  let k ← createInitProcess env (schedInit task mmCount) init stack mm jiffies
  wakeUpNewTask env h (setCurrent k (some init)) init clock now

def kernelMain (task : Nat → TaskStruct) (mmCount : Nat → BitVec 32) (init stack mm : Nat)
    (jiffies : U64) (clock : Nat → U64) (now : U64) (later : Nat → U64) : Except NullDeref Kernel := do
  let k ← kernelInit env h task mmCount init stack mm jiffies clock now
  schedule env h k later

def mainOrder (init stack mm : Nat) (jiffies : U64) (clock : Nat → U64) (now : U64)
    (later : Nat → U64) : List BootOp :=
  [.alloc init stack, .fill init mm jiffies, .fork init, .setCurrent init, .wake init clock now,
    .schedule later]

theorem kernelMain_eq (task : Nat → TaskStruct) (mmCount : Nat → BitVec 32) (init stack mm : Nat)
    (jiffies : U64) (clock : Nat → U64) (now : U64) (later : Nat → U64) :
    kernelMain env h task mmCount init stack mm jiffies clock now later =
    bootRun env h (schedInit task mmCount) (mainOrder init stack mm jiffies clock now later) := by
  simp only [kernelMain,kernelInit,createInitProcess,bootRun,mainOrder,List.foldlM_cons,List.foldlM_nil,bootStep]
  rw [bind_assoc]
  exact bind_congr fun k => bind_congr fun k => (bind_pure _).symm

/-- No scheduler call that needs a class or a running task, and `sched_fork` only after
`set_current`. -/
structure Harmless (ops : List BootOp) : Prop where
  noWake : ∀ p clock now, .wake p clock now ∉ ops
  noSchedule : ∀ clock, .schedule clock ∉ ops
  forkLater : ∀ before p after, ops = before ++ .fork p :: after → ∃ q, .setCurrent q ∈ before

def Allowed (ops : List BootOp) : BootOp → Prop
  | .fork _ => ∃ q, .setCurrent q ∈ ops
  | .wake _ _ _ | .schedule _ => False
  | _ => True

/-- Every task that is used was allocated before. -/
def Formed (ops : List BootOp) : Prop :=
  ∀ before op after, ops = before ++ op :: after → ∀ p, op.subject = some p →
    ∃ stack, .alloc p stack ∈ before

/-- What the calls so far leave: nothing runs, no task has a class, and there is a current
task if one was set. -/
structure Booting (ops : List BootOp) (k : Kernel) : Prop where
  curr : k.sched.curr = none
  unclassed : ∀ p stack, .alloc p stack ∈ ops → (k.task p).schedClass = none
  current : k.currentTask.isSome ↔ ∃ q, .setCurrent q ∈ ops

theorem booting_start (task : Nat → TaskStruct) (mmCount : Nat → BitVec 32) :
    Booting [] (schedInit task mmCount) := by
  constructor <;> simp [schedInit,Cfs.emptySched]

/-- A call that leaves the class of every allocated task unset keeps the invariant. -/
theorem Booting.keep (booting : Booting ops k) (curr : k'.sched.curr = k.sched.curr)
    (unclassed : ∀ p stack, .alloc p stack ∈ ops ++ [op] →
      (k'.task p).schedClass = none ∨ .alloc p stack ∈ ops ∧ (k'.task p).schedClass = (k.task p).schedClass)
    (current : k'.currentTask = k.currentTask) (same : ∀ q, op ≠ .setCurrent q) :
    Booting (ops ++ [op]) k' := by
  constructor
  case curr => exact curr.trans booting.curr
  case unclassed =>
    intro p stack made
    obtain none | ⟨old,kept⟩ := unclassed p stack made
    · exact none
    · exact kept.trans (booting.unclassed p stack old)
  case current =>
    rw [current,booting.current]
    simp [fun q => (same q).symm]

theorem Booting.step (booting : Booting ops k) (allowed : Allowed ops op)
    (done : bootStep env h k op = .ok k') : Booting (ops ++ [op]) k' := by
  cases op with
  | alloc task stack =>
    cases done
    refine booting.keep rfl (fun p b made => ?_) rfl (by simp)
    by_cases same : p = task
    · subst same
      exact .inl (by simp [allocTaskStruct,Kernel.setEntity,newTask])
    · refine .inr ⟨by simpa [same] using made,?_⟩
      simp [allocTaskStruct,Kernel.setEntity,Kernel.setTask,Kernel.kmalloc,allocPid,same]
  | fill p mm jiffies =>
    cases done
    refine booting.keep rfl (fun t b made => .inr ⟨by simpa using made,?_⟩) rfl (by simp)
    by_cases same : t = p <;> simp [Kernel.setTask,same,initProcess]
  | fork p =>
    have forked := schedFork_forked done
    refine booting.keep forked.curr (fun t b made => .inr ⟨by simpa using made,?_⟩) forked.currentTask (by simp)
    by_cases same : t = p
    · subst same
      exact forked.schedClass
    · rw [forked.others t same]
  | setCurrent p =>
    cases done
    exact ⟨booting.curr,fun t stack made => booting.unclassed t stack (by simpa using made),by simp [setCurrent]⟩
  | wake p clock now => exact allowed.elim
  | schedule clock => exact allowed.elim

/-- Which calls go through. -/
theorem Booting.ok_iff (booting : Booting ops k) (known : ∀ p, op.subject = some p → ∃ stack, .alloc p stack ∈ ops) :
    (∃ k', bootStep env h k op = .ok k') ↔ Allowed ops op := by
  cases op with
  | alloc task stack => exact iff_of_true ⟨_,rfl⟩ trivial
  | fill p mm jiffies => exact iff_of_true ⟨_,rfl⟩ trivial
  | setCurrent p => exact iff_of_true ⟨_,rfl⟩ trivial
  | fork p =>
    simp only [Allowed,← booting.current,bootStep]
    cases current : k.currentTask with
    | none => simp [schedFork,current]
    | some c => simp [schedFork,current]
  | wake p clock now =>
    obtain ⟨stack,made⟩ := known p rfl
    refine iff_of_false ?_ id
    rintro ⟨k',woken⟩
    have none : (k.task p).schedClass = none := booting.unclassed p stack made
    simp [bootStep,wakeUpNewTask,wakeUpNewTaskWith,activateTask,enqueueTask,none,bind,Except.bind] at woken
  | schedule clock =>
    refine iff_of_false ?_ id
    rintro ⟨k',scheduled⟩
    simp [bootStep,schedule,booting.curr] at scheduled

theorem Harmless.append : Harmless (ops ++ [op]) ↔ Harmless ops ∧ Allowed ops op := by
  constructor
  · intro harmless
    refine ⟨⟨fun p clock now inside => harmless.noWake p clock now (List.mem_append_left _ inside),
      fun clock inside => harmless.noSchedule clock (List.mem_append_left _ inside),?_⟩,?_⟩
    · intro before p after split
      exact harmless.forkLater before p (after ++ [op]) (by simp [split])
    · cases op with
      | fork p => exact harmless.forkLater ops p [] rfl
      | wake p clock now => exact harmless.noWake p clock now (by simp)
      | schedule clock => exact harmless.noSchedule clock (by simp)
      | _ => trivial
  · rintro ⟨harmless,allowed⟩
    constructor
    case noWake =>
      intro p clock now inside
      obtain old | rfl := List.mem_append.1 inside |>.imp_right List.mem_singleton.1
      · exact harmless.noWake p clock now old
      · exact allowed
    case noSchedule =>
      intro clock inside
      obtain old | rfl := List.mem_append.1 inside |>.imp_right List.mem_singleton.1
      · exact harmless.noSchedule clock old
      · exact allowed
    case forkLater =>
      intro before p after split
      cases after using List.reverseRecOn with
      | nil =>
        obtain ⟨rfl,last⟩ := List.append_inj' split rfl
        cases last
        exact allowed
      | append_singleton after last =>
        have aligned : ops ++ [op] = (before ++ .fork p :: after) ++ [last] := by simpa using split
        exact harmless.forkLater before p after (List.append_inj' aligned rfl).1

theorem Formed.append (formed : Formed (ops ++ [op])) :
    Formed ops ∧ ∀ p, op.subject = some p → ∃ stack, .alloc p stack ∈ ops := by
  constructor
  · intro before op' after split
    exact formed before op' (after ++ [op]) (by simp [split])
  · exact formed ops op [] rfl

theorem bootRun_append (k : Kernel) (ops : List BootOp) (op : BootOp) :
    bootRun env h k (ops ++ [op]) = bootRun env h k ops >>= fun k => bootStep env h k op := by
  simp [bootRun]

theorem boot_run (task : Nat → TaskStruct) (mmCount : Nat → BitVec 32) (ops : List BootOp)
    (formed : Formed ops) :
    ((∃ k, bootRun env h (schedInit task mmCount) ops = .ok k) ↔ Harmless ops) ∧
    ∀ k, bootRun env h (schedInit task mmCount) ops = .ok k → Booting ops k := by
  induction ops using List.reverseRecOn with
  | nil =>
    refine ⟨iff_of_true ⟨_,rfl⟩ ⟨by simp,by simp,by simp⟩,fun k done => ?_⟩
    cases done
    exact booting_start task mmCount
  | append_singleton ops op ih =>
    obtain ⟨formed,known⟩ := formed.append
    obtain ⟨ok,booting⟩ := ih formed
    rw [Harmless.append,← ok,bootRun_append]
    cases before : bootRun env h (schedInit task mmCount) ops with
    | error fault => simp [bind,Except.bind]
    | ok k =>
      have allowed := (booting k before).ok_iff env h known
      refine ⟨?_,fun k' done => ?_⟩
      · simpa [bind,Except.bind] using allowed
      · exact (booting k before).step env h (allowed.1 ⟨k',done⟩) done

/-- The calls go through without following a null pointer exactly when they are harmless. -/
theorem boot_safe_iff (env : Platform) (h : Hierarchy) (task : Nat → TaskStruct)
    (mmCount : Nat → BitVec 32) (ops : List BootOp) (formed : Formed ops) :
    (∃ k, bootRun env h (schedInit task mmCount) ops = .ok k) ↔ Harmless ops :=
  (boot_run env h task mmCount ops formed).1

end

theorem formed_alloc (same : ∀ op ∈ ops, ∀ q, op.subject = some q → q = p) :
    Formed (.alloc p stack :: ops) := by
  intro before op after split q subject
  cases before with
  | nil =>
    cases split
    cases subject
  | cons first rest =>
    obtain ⟨rfl,rfl⟩ := List.cons.inj split
    cases same op (by simp) q subject
    exact ⟨stack,by simp⟩

def currentFirst : List BootOp := [.alloc 1 2, .setCurrent 1, .fork 1]

theorem boot_safe_iff_current_first : Formed currentFirst ∧ Harmless currentFirst := by
  have formed : Formed currentFirst := formed_alloc (by simp [BootOp.subject])
  exact ⟨formed,(boot_safe_iff basePlatform Cfs.flat (fun _ => zeroTask) (fun _ => 0) _ formed).1 ⟨_,rfl⟩⟩

/-- `kernel_main` follows `current` before it is set. -/
theorem kernelMain_current_null :
    let order := mainOrder 1 2 0 0 (fun _ => 0) 0 fun _ => 0
    Formed order ∧
    kernelMain basePlatform Cfs.flat (fun _ => zeroTask) (fun _ => 0) 1 2 0 0 (fun _ => 0) 0
      (fun _ => 0) = .error .current ∧
    ¬∃ k, bootRun basePlatform Cfs.flat (schedInit (fun _ => zeroTask) fun _ => 0) order = .ok k := by
  intro order
  refine ⟨formed_alloc (by simp [BootOp.subject]),rfl,?_⟩
  rintro ⟨k,done⟩
  rw [← kernelMain_eq] at done
  cases done

end Kernal.Task
