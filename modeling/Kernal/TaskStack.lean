import Kernal.Runs
import Kernal.Task

/-! Who owns the stacks. `alloc_task_struct` gives every task a stack of its own and
`put_task_struct` takes it back with the last reference. `dup_task_struct` allocates one
too and then loses it: the copy points to the stack of the original. -/
namespace Kernal.Task

open Cfs (U64)
open Runs

/-- The block is allocated as a `task_struct`. -/
def Kernel.Live (k : Kernel) (t : Nat) : Prop := k.heap t = some .task

inductive LifeOp where
  | alloc (task stack : Option Nat)
  | dup (orig : Nat) (task stack : Option Nat) (jiffies : U64)
  | get (tsk : Nat)
  | put (tsk : Nat)
  deriving DecidableEq, Repr

/-- Each of the two calls of `kmalloc` returns null or a block that is not allocated. -/
structure Fresh (k : Kernel) (taskBlock stackBlock : Option Nat) : Prop where
  task : ∀ t, taskBlock = some t → k.heap t = none
  stack : ∀ b, stackBlock = some b → k.heap b = none ∧ taskBlock ≠ some b

section

variable (env : Platform)

inductive LifeStep : Kernel → LifeOp → Kernel → Prop where
  | alloc {k : Kernel} {task stack : Option Nat} : Fresh k task stack →
      LifeStep k (.alloc task stack) (allocTaskStruct env k task stack).2
  | dup {k : Kernel} (orig : Nat) {task stack : Option Nat} (jiffies : U64) : k.Live orig →
      Fresh k task stack →
      LifeStep k (.dup orig task stack jiffies) (dupTaskStruct env k orig task stack jiffies).2
  | get {k : Kernel} (tsk : Nat) : k.Live tsk → LifeStep k (.get tsk) (getTaskStruct k tsk)
  | put {k : Kernel} (tsk : Nat) : k.Live tsk → LifeStep k (.put tsk) (putTaskStruct k tsk)

structure NoTasks (k : Kernel) : Prop where
  heap : ∀ b, k.heap b = none
  badFree : k.badFree = false
  nextPid : k.nextPid = 1

abbrev LifeRun := Run NoTasks (LifeStep env)

/-- Every live task has one stack, every stack one live task, and every block that was
given back was allocated. -/
structure Owned (k : Kernel) : Prop where
  apart : ∀ t u b, k.Live t → k.Live u → (k.task t).stack = some b → (k.task u).stack = some b → t = u
  belongs : ∀ b, k.heap b = some .stack → ∃ t, k.Live t ∧ (k.task t).stack = some b
  held : ∀ t, k.Live t → ∃ b, (k.task t).stack = some b ∧ k.heap b = some .stack
  once : k.badFree = false

/-- Only the heap and the stacks of tasks matter. -/
theorem Owned.congr (owned : Owned k) (heap : k'.heap = k.heap) (bad : k'.badFree = k.badFree)
    (stack : ∀ t, (k'.task t).stack = (k.task t).stack) : Owned k' := by
  constructor
  case apart => simpa only [Kernel.Live,heap,stack] using owned.apart
  case belongs => simpa only [Kernel.Live,heap,stack] using owned.belongs
  case held => simpa only [Kernel.Live,heap,stack] using owned.held
  case once => exact bad.trans owned.once

structure Untouched (k k' : Kernel) : Prop where
  heap : k'.heap = k.heap
  badFree : k'.badFree = k.badFree
  task : k'.task = k.task
  nextPid : k'.nextPid = k.nextPid

/-- The block of the task goes back when there is none for its stack. -/
theorem alloc_failed (fresh : Fresh k task stack) (failed : task = none ∨ stack = none) :
    (allocTaskStruct env k task stack).1 = none ∧ Untouched k (allocTaskStruct env k task stack).2 := by
  cases task with
  | none => exact ⟨rfl,rfl,rfl,rfl,rfl⟩
  | some t =>
    obtain rfl : stack = none := failed.resolve_left (by simp)
    have free := fresh.task t rfl
    refine ⟨rfl,?_,?_,rfl,rfl⟩
    · simp only [allocTaskStruct,Kernel.kfree,Kernel.kmalloc,Function.update_idem]
      rw [← free,Function.update_eq_self]
    · simp [allocTaskStruct,Kernel.kfree,Kernel.kmalloc]

theorem dup_failed (fresh : Fresh k task stack) (failed : task = none ∨ stack = none) (orig : Nat)
    (jiffies : U64) : (dupTaskStruct env k orig task stack jiffies).1 = none ∧
      Untouched k (dupTaskStruct env k orig task stack jiffies).2 := by
  have failed := alloc_failed env fresh failed
  unfold dupTaskStruct
  split
  next k' allocated => rwa [allocated] at failed
  next tsk k' allocated =>
    rw [allocated] at failed
    exact absurd failed.1 (by simp)

theorem Fresh.not_live (fresh : Fresh k (some t) block) : ¬k.Live t := by
  simp [Kernel.Live,fresh.task t rfl]

def withBlocks (heap : Nat → Option Use) (t b : Nat) : Nat → Option Use :=
  Function.update (Function.update heap t (some .task)) b (some .stack)

/-- What `alloc_task_struct` and `dup_task_struct` have in common when they get their
blocks: a new task with one reference. -/
structure Made (k k' : Kernel) (t b : Nat) : Prop where
  heap : k'.heap = withBlocks k.heap t b
  badFree : k'.badFree = k.badFree
  others : ∀ u, u ≠ t → k'.task u = k.task u
  usage : (k'.task t).usage = 1
  frame : k'.frame = k.frame
  released : k'.released = Function.update (Function.update k.released t false) b false

theorem Fresh.live_iff {k k' : Kernel} (fresh : Fresh k (some t) (some b)) (made : Made k k' t b) (u : Nat) :
    k'.Live u ↔ u = t ∨ k.Live u := by
  obtain ⟨free,other⟩ := fresh.stack b rfl
  simp only [Kernel.Live,made.heap,withBlocks,Function.update_apply]
  grind

theorem alloc_made (k : Kernel) (t b : Nat) : Made k (allocTaskStruct env k (some t) (some b)).2 t b where
  heap := rfl
  badFree := rfl
  others u other := by simp [allocTaskStruct,Kernel.kmalloc,allocPid,Kernel.setTask,Kernel.setEntity,other]
  usage := by simp [allocTaskStruct,Kernel.setEntity,newTask]
  frame := rfl
  released := rfl

theorem dup_made (k : Kernel) (orig t b : Nat) (jiffies : U64) :
    Made k (dupTaskStruct env k orig (some t) (some b) jiffies).2 t b where
  heap := rfl
  badFree := rfl
  others u other := by
    simp [dupTaskStruct,allocTaskStruct,Kernel.kmalloc,allocPid,Kernel.setTask,Kernel.setEntity,other]
  usage := by simp [dupTaskStruct,allocTaskStruct,Kernel.setEntity]
  frame := rfl
  released := rfl

/-- A task and its stack, both from fresh blocks. -/
theorem Owned.alloc (owned : Owned k) (fresh : Fresh k (some t) (some b)) :
    Owned (allocTaskStruct env k (some t) (some b)).2 := by
  have freeTask : k.heap t = none := fresh.task t rfl
  obtain ⟨freeStack,other⟩ := fresh.stack b rfl
  have other : t ≠ b := fun same => other (congrArg some same)
  have made := alloc_made env k t b
  have own : ((allocTaskStruct env k (some t) (some b)).2.task t).stack = some b := by
    simp [allocTaskStruct,Kernel.setEntity,newTask]
  generalize (allocTaskStruct env k (some t) (some b)).2 = k' at made own ⊢
  have live := fresh.live_iff made
  have stack (u : Nat) : (k'.task u).stack = if u = t then some b else (k.task u).stack := by
    split
    next same => rw [same,own]
    next old => rw [made.others u old]
  constructor
  case apart =>
    intro u v c liveU liveV stackU stackV
    rw [live] at liveU liveV
    rw [stack] at stackU stackV
    have apart := owned.apart u v c
    have held := owned.held
    grind
  case belongs =>
    intro c allocated
    have belongs := owned.belongs c
    simp only [live,stack]
    simp only [made.heap,withBlocks,Function.update_apply] at allocated
    grind [Kernel.Live]
  case held =>
    intro u liveU
    have held := owned.held u
    simp only [live] at liveU
    simp only [made.heap,stack,withBlocks,Function.update_apply]
    grind
  case once => exact made.badFree.trans owned.once

/-- The last reference gives back the stack and the task. -/
theorem Owned.free (owned : Owned k) (live : k.Live t) : Owned (freeTaskStruct k (some t)) := by
  obtain ⟨b,stack,allocated⟩ := owned.held t live
  have other : t ≠ b := by
    rintro rfl
    rw [live] at allocated
    contradiction
  generalize result : freeTaskStruct k (some t) = k'
  have heap : k'.heap = Function.update (Function.update k.heap b none) t none := by
    rw [← result]
    simp only [freeTaskStruct,stack,Kernel.kfree]
  have tasks : k'.task = k.task := by
    rw [← result]
    simp only [freeTaskStruct,stack,Kernel.kfree]
  have bad : k'.badFree = false := by
    rw [← result]
    simp [freeTaskStruct,stack,Kernel.kfree,owned.once,allocated,other,show k.heap t = some .task from live]
  have live' (u : Nat) : k'.Live u ↔ u ≠ t ∧ k.Live u := by
    simp only [Kernel.Live,heap,Function.update_apply]
    grind
  constructor
  case apart =>
    intro u v c liveU liveV
    rw [tasks]
    exact owned.apart u v c ((live' u).mp liveU).2 ((live' v).mp liveV).2
  case belongs =>
    intro c allocated
    have belongs := owned.belongs c
    simp only [live',tasks]
    simp only [heap,Function.update_apply] at allocated
    grind
  case held =>
    intro u liveU
    have held := owned.held u
    have apart := owned.apart u t b
    simp only [live'] at liveU
    simp only [heap,tasks,Function.update_apply]
    grind [Kernel.Live]
  case once => exact bad

theorem Owned.setUsage (owned : Owned k) (t : Nat) (usage : TaskStruct → BitVec 32) :
    Owned (k.setTask t fun p => { p with usage := usage p }) := by
  exact owned.congr rfl rfl (k.setTask_field TaskStruct.stack rfl)

theorem Owned.put (owned : Owned k) (live : k.Live t) : Owned (putTaskStruct k t) := by
  have dropped := owned.setUsage t fun p => p.usage - 1
  dsimp only [putTaskStruct]
  split
  · exact dropped.free live
  · exact dropped

/-- Both tasks are live and point to the one stack. -/
theorem dup_shares (owned : Owned k) (live : k.Live orig) (fresh : Fresh k (some t) (some b))
    (jiffies : U64) : ¬Owned (dupTaskStruct env k orig (some t) (some b) jiffies).2 := by
  have notTask : orig ≠ t := by
    rintro rfl
    exact fresh.not_live live
  have made := dup_made env k orig t b jiffies
  have copied : ((dupTaskStruct env k orig (some t) (some b) jiffies).2.task t).stack = (k.task orig).stack := by
    simp [dupTaskStruct,allocTaskStruct,Kernel.kmalloc,allocPid,Kernel.setTask,Kernel.setEntity,notTask]
  generalize (dupTaskStruct env k orig (some t) (some b) jiffies).2 = k' at made copied ⊢
  have live' := fresh.live_iff made
  intro owned'
  obtain ⟨c,own,_⟩ := owned.held orig live
  have kept : (k'.task orig).stack = some c := by rw [made.others orig notTask,own]
  exact notTask (owned'.apart orig t c ((live' orig).mpr (.inr live)) ((live' t).mpr (.inl rfl)) kept
    (copied.trans own))

/-- The call is not a `dup_task_struct` that gets its two blocks. -/
def NoCopy (_ : Kernel) : LifeOp → Prop
  | .dup _ task stack _ => task = none ∨ stack = none
  | _ => True

variable {env}

theorem LifeStep.owned_iff (owned : Owned k) (step : LifeStep env k op k') :
    Owned k' ↔ NoCopy k op := by
  have untouched {k' : Kernel} (same : Untouched k k') : Owned k' :=
    owned.congr same.heap same.badFree fun t => by rw [same.task]
  cases step with
  | @alloc task stack fresh =>
    refine iff_of_true ?_ trivial
    cases task with
    | none => exact untouched (alloc_failed env fresh (.inl rfl)).2
    | some t =>
      cases stack with
      | none => exact untouched (alloc_failed env fresh (.inr rfl)).2
      | some b => exact owned.alloc env fresh
  | @dup orig task stack jiffies live fresh =>
    constructor
    · intro owned'
      cases task with
      | none => exact .inl rfl
      | some t =>
        cases stack with
        | none => exact .inr rfl
        | some b => exact absurd owned' (dup_shares env owned live fresh jiffies)
    · intro failed
      exact untouched (dup_failed env fresh failed orig jiffies).2
  | get tsk live => exact iff_of_true (owned.setUsage tsk fun p => p.usage + 1) trivial
  | put tsk live => exact iff_of_true (owned.put live) trivial

theorem NoTasks.owned (none : NoTasks k) : Owned k := by
  have dead (t : Nat) : ¬k.Live t := by simp [Kernel.Live,none.heap]
  exact ⟨fun t _ _ live => absurd live (dead t),fun b stack => by simp [none.heap] at stack,
    fun t live => absurd live (dead t),none.badFree⟩

/-- Stacks have one owner all along exactly the runs without a successful copy. A failed
allocation keeps no block. -/
theorem stacks_owned_iff (env : Platform) (past : List (Kernel × LifeOp)) (k : Kernel)
    (run : LifeRun env past k) :
    (Always Owned past k ↔ Throughout NoCopy past) ∧
    ∀ orig task stack jiffies, Fresh k task stack → task = none ∨ stack = none →
      (allocTaskStruct env k task stack).2.heap = k.heap ∧
      (dupTaskStruct env k orig task stack jiffies).2.heap = k.heap := by
  constructor
  · exact run.always_iff (I := fun _ => True) (fun k none => ⟨trivial,none.owned⟩)
      (fun _ _ _ _ _ => trivial) fun _ _ _ _ owned step => step.owned_iff owned
  · intro orig task stack jiffies fresh failed
    exact ⟨(alloc_failed env fresh failed).2.heap,(dup_failed env fresh failed orig jiffies).2.heap⟩

end

theorem bootKernel_noTasks : NoTasks bootKernel := ⟨fun _ => rfl,rfl,rfl⟩

def oneTask : Kernel := (allocTaskStruct basePlatform bootKernel (some 1) (some 2)).2

theorem oneTask_run : LifeRun basePlatform ([] ++ [(bootKernel, .alloc (some 1) (some 2))]) oneTask :=
  .next (.start bootKernel_noTasks) (.alloc ⟨fun _ _ => rfl,fun b same => ⟨rfl,by cases same; simp⟩⟩)

/-- Task 3 with the stack 4 beside it, and a copy that gets no stack. -/
def twoTasks : Kernel := (allocTaskStruct basePlatform oneTask (some 3) (some 4)).2

def copyFailed : Kernel := (dupTaskStruct basePlatform twoTasks 1 (some 5) none 0).2

theorem oneTask_fresh : Fresh oneTask (some 3) (some 4) :=
  ⟨fun t same => by cases same; rfl,fun b same => by cases same; exact ⟨rfl,by simp⟩⟩

theorem twoTasks_fresh : Fresh twoTasks (some 5) none :=
  ⟨fun t same => by cases same; rfl,fun b same => by cases same⟩

theorem stacks_owned_iff_two : copyFailed.Live 1 ∧ copyFailed.Live 3 ∧ Owned copyFailed ∧
    copyFailed.heap = twoTasks.heap := by
  have run := oneTask_run.next (.alloc oneTask_fresh)
  have owned := (stacks_owned_iff basePlatform _ _ (run.next (.dup 1 0 rfl twoTasks_fresh))).1.mpr
    (by simp [Throughout,NoCopy])
  have heap := (stacks_owned_iff basePlatform _ _ run).2 1 (some 5) none 0 twoTasks_fresh (.inr rfl)
  exact ⟨rfl,rfl,owned.2,heap.2⟩

/-- Task 3 is copied from task 1 into a block with the stack 4. -/
def copied : Kernel := (dupTaskStruct basePlatform oneTask 1 (some 3) (some 4) 0).2

def bothPut : Kernel := putTaskStruct (putTaskStruct copied 1) 3

theorem copy_freed_twice : (∃ past, LifeRun basePlatform past bothPut) ∧
    (copied.task 1).stack = (copied.task 3).stack ∧ bothPut.badFree = true ∧
    bothPut.heap 4 = some .stack ∧ ¬Owned bothPut := by
  have run := ((oneTask_run.next (.dup 1 0 rfl oneTask_fresh)).next (.put 1 rfl)).next (.put 3 rfl)
  refine ⟨⟨_,run⟩,rfl,rfl,rfl,fun owned => ?_⟩
  have once : bothPut.badFree = false := owned.once
  contradiction

end Kernal.Task
