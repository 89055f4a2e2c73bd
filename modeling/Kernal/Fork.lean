import Kernal.CfsMembership
import Kernal.Task

/-! Forking a task. The new task starts as a copy of its parent, the mark `on_rq`
included, and nothing clears that mark. The walk that would queue it stops at once:
the counters above the queue grow, the queue itself stays as it was. -/
namespace Kernal.Task

open Cfs (Sched Shape Buddies EnqueueFlags Hierarchy U64 TASK_RUNNING Member root flat)
open SearchTree

section Calls

variable {env : Platform}

/-- A check or a yield leaves the queue as it was but for the hints. -/
theorem Checked.shape {k k' : Kernel} (checked : Checked env flat k k') :
    ∃ buddies, k'.sched.shape = { k.sched.shape with buddies } := by
  induction checked with
  | refl => exact ⟨k.sched.shape.buddies,rfl⟩
  | mark _ _ ih => exact ih
  | @hint k' buddies _ ih =>
    obtain ⟨_,ih⟩ := ih
    exact ⟨buddies root,congrArg (fun m : Shape => { m with buddies := buddies root }) ih⟩
  | @charge k' se now _ ih =>
    obtain ⟨buddies,ih⟩ := ih
    exact ⟨buddies,(Cfs.shape_updateCurr env.cfs k'.sched now).trans ih⟩

theorem Checked.field {h : Hierarchy} {k k' : Kernel} (checked : Checked env h k k') (field : TaskStruct → α)
    (keeps : ∀ t needResched, field { t with needResched } = field t) (t : Nat) :
    field (k'.task t) = field (k.task t) := by
  induction checked with
  | refl => rfl
  | @mark k' _ _ ih => exact (k'.setTask_field field (keeps _ _) t).trans ih
  | hint _ _ ih => exact ih
  | charge _ _ _ ih => exact ih

variable (env) in
/-- With a task on the processor the check returns. -/
theorem checkPreemptWakeup_returns (h : Hierarchy) {k : Kernel} (running : k.sched.curr = some curr) (p : Nat)
    (fork : Bool) (now : U64) : ∃ k', checkPreemptWakeup env h k p fork now = .ok k' := by
  unfold checkPreemptWakeup
  simp only [running]
  repeat' split
  all_goals exact ⟨_,rfl⟩

/-- What `dup_task_struct` writes of tasks and of the queue. -/
structure Copied (k k' : Kernel) (orig child : Nat) : Prop where
  others : ∀ t, t ≠ child → k'.task t = k.task t
  entities : ∀ e, e ≠ child → k'.sched.entity e = k.sched.entity e
  sched : k'.sched = { k.sched with entity := k'.sched.entity }
  state : (k'.task child).state = TASK_RUNNING
  schedClass : (k'.task child).schedClass = if orig = child then none else (k.task orig).schedClass
  onRq : (k'.sched.entity child).onRq = if orig = child then false else (k.sched.entity orig).onRq
  currentTask : k'.currentTask = k.currentTask

variable (env) in
theorem dupTaskStruct_copied (k : Kernel) (orig child stack : Nat) (jiffies : U64) :
    Copied k (dupTaskStruct env k orig (some child) (some stack) jiffies).2 orig child where
  others _ other := (Function.update_of_ne other _ _).trans
    ((Function.update_of_ne other _ _).trans (Function.update_of_ne other _ _))
  entities _ other := (Function.update_of_ne other _ _).trans (Function.update_of_ne other _ _)
  sched := rfl
  state := by
    simp [dupTaskStruct,allocTaskStruct,Kernel.kmalloc,allocPid,Kernel.setTask,Kernel.setEntity]
  schedClass := by
    simp only [dupTaskStruct,allocTaskStruct,Kernel.kmalloc,allocPid,Kernel.setTask,Kernel.setEntity,
      Function.update_self,Function.update_apply]
    split <;> rfl
  onRq := by
    simp only [dupTaskStruct,allocTaskStruct,Kernel.kmalloc,allocPid,Kernel.setTask,Kernel.setEntity,
      Sched.setEntity,Function.update_self,Function.update_apply]
    split <;> rfl
  currentTask := rfl

theorem Copied.shape (copied : Copied k k' orig child) : k'.sched.shape =
    { k.sched.shape with
      onRq := Function.update k.sched.shape.onRq child (k'.sched.shape.onRq child) } := by
  have marks : k'.sched.shape.onRq =
      Function.update k.sched.shape.onRq child (k'.sched.shape.onRq child) := by
    funext e
    by_cases same : e = child
    · simp [same]
    · simpa [same,Sched.shape] using congrArg (·.onRq) (copied.entities e same)
  calc k'.sched.shape = { k.sched.shape with onRq := k'.sched.shape.onRq } := by
        rw [copied.sched]
        rfl
    _ = _ := by rw [← marks]

theorem Forked.shape (forked : Forked k k' p) : k'.sched.shape = k.sched.shape := by
  have marks : k'.sched.shape.onRq = k.sched.shape.onRq := by
    funext e
    by_cases same : e = p
    · subst same
      exact forked.onRq
    · exact congrArg (·.onRq) (forked.entities e same)
  calc k'.sched.shape = { k.sched.shape with onRq := k'.sched.shape.onRq } := by
        rw [forked.sched]
        rfl
    _ = k.sched.shape := by rw [marks]

end Calls

section Fork

/-- `check_preempt_curr` leaves the queue alone but for its hints. -/
def LeavesQueue (checkPreemptCurr : Kernel → Nat → Bool → Except NullDeref Kernel) : Prop :=
  ∀ (k : Kernel) p fork, k.sched.curr ≠ none → ∃ k' buddies, checkPreemptCurr k p fork = .ok k' ∧
    k'.sched.shape = { k.sched.shape with buddies }

variable (env : Platform) (checkPreemptCurr : Kernel → Nat → Bool → Except NullDeref Kernel)

/-- The fair class's check is one that does. -/
theorem checkPreemptWakeup_leavesQueue (now : U64) :
    LeavesQueue fun k p fork => checkPreemptWakeup env flat k p fork now := by
  intro k p fork busy
  obtain ⟨curr,running⟩ := Option.ne_none_iff_exists'.mp busy
  obtain ⟨k',done⟩ := checkPreemptWakeup_returns env flat running p fork now
  obtain ⟨buddies,shape⟩ := (checkPreemptWakeup_checked done).shape
  exact ⟨k',buddies,done,shape⟩

/-- `dup_task_struct`, `sched_fork` and `wake_up_new_task`, one after the other, with the two
blocks that `kmalloc` returns. -/
def forkChild (k : Kernel) (orig child stack : Nat) (jiffies : U64) (clock : Nat → U64) :
    Except NullDeref Kernel := do
  let k ← schedFork env (dupTaskStruct env k orig (some child) (some stack) jiffies).2 child
  wakeUpNewTaskWith env flat checkPreemptCurr k child clock

/-- For a task that is already marked only the second walk does something. -/
theorem shape_enqueueTaskFair_marked {s : Sched} (on : (s.entity p).onRq = true) (flags : EnqueueFlags)
    (clock : Nat → U64) : (Cfs.enqueueTaskFair env.cfs flat s p flags clock).shape =
      { s.shape with hNr := s.shape.hNr + 1, total := s.shape.total + 1 } := by
  have eq : Cfs.enqueueTaskFair env.cfs flat s p flags clock =
      let s' := s.addHNr (· + 1)
      { s' with nrRunning := s'.nrRunning + 1 } := by
    simp [Cfs.enqueueTaskFair,Cfs.enqueueLoop,Cfs.countLoop,flat,on,Sched.addHNr]
  rw [eq]
  exact Cfs.shape_counted s (· + 1) (· + 1)

variable {env checkPreemptCurr}

/-- A fork comes to its end, and these are all that it changes of the run queue of a queued
parent. -/
theorem fork_returns (leaves : LeavesQueue checkPreemptCurr) {k : Kernel} (here : k.currentTask = some orig)
    (running : k.sched.curr = some orig) (on : (k.sched.entity orig).onRq = true)
    (fair : (k.task orig).schedClass = some .fair) (other : orig ≠ child) (stack : Nat) (jiffies : U64)
    (clock : Nat → U64) :
    ∃ k' buddies, forkChild env checkPreemptCurr k orig child stack jiffies clock = .ok k' ∧
      k'.sched.shape = { k.sched.shape with
        onRq := Function.update k.sched.shape.onRq child true
        hNr := k.sched.shape.hNr + 1
        total := k.sched.shape.total + 1
        buddies } := by
  have copied := dupTaskStruct_copied env k orig child stack jiffies
  have copy := copied.shape
  unfold forkChild
  generalize (dupTaskStruct env k orig (some child) (some stack) jiffies).2 = k₁ at copied copy ⊢
  have current : k₁.currentTask = some orig := copied.currentTask.trans here
  obtain ⟨k₂,done⟩ : ∃ k₂, schedFork env k₁ child = .ok k₂ := by simp [schedFork,current]
  have forked := schedFork_forked done
  have marked : (k₂.sched.entity child).onRq = true := by
    rw [forked.onRq,copied.onRq,if_neg other]
    exact on
  have class' : (k₂.task child).schedClass = some .fair := by
    rw [forked.schedClass,copied.schedClass,if_neg other]
    exact fair
  -- The child is activated in a kernel where only its state was written again.
  have walked := shape_enqueueTaskFair_marked env marked ⟨false,false⟩ clock
  have runs : (Cfs.enqueueTaskFair env.cfs flat k₂.sched child ⟨false,false⟩ clock).curr = some orig := by
    refine (congrArg Shape.running walked).trans ?_
    rw [forked.shape,copy]
    exact running
  let k₃ : Kernel := { k₂.setTask child fun t => { t with state := TASK_RUNNING } with
    sched := Cfs.enqueueTaskFair env.cfs flat k₂.sched child ⟨false,false⟩ clock }
  have busy : k₃.sched.curr ≠ none := fun idle => by
    rw [runs] at idle
    contradiction
  obtain ⟨k',buddies,checks,queue⟩ := leaves k₃ child true busy
  refine ⟨k',buddies,?_,?_⟩
  · simp only [done,bind,Except.bind,wakeUpNewTaskWith,activateTask,enqueueTask,Kernel.setTask_same,class']
    exact checks
  · rw [queue,walked,forked.shape,copy]
    have mark : k₁.sched.shape.onRq child = true := by
      change (k₁.sched.entity child).onRq = true
      rw [copied.onRq,if_neg other]
      exact on
    rw [mark]

/-- What a fork from `k` to `k'` is for: the child waits in the tree and is counted. -/
structure ChildQueued (k k' : Kernel) (child : Nat) : Prop where
  listed : (inorder (k'.sched.cfs root).tasksTimeline).count child = 1
  marked : (k'.sched.entity child).onRq = true
  nr : (k'.sched.cfs root).nrRunning = (k.sched.cfs root).nrRunning + 1
  total : k'.sched.nrRunning = k.sched.nrRunning + 1
  member : Member k'.sched

/-- The running task `orig` forks a task that was not there before. -/
structure Forks (k : Kernel) (orig child : Nat) : Prop where
  here : k.currentTask = some orig
  running : k.sched.curr = some orig
  current : (k.sched.cfs root).curr = some orig
  queued : (k.sched.entity orig).onRq = true
  fair : (k.task orig).schedClass = some .fair
  member : Member k.sched
  fresh : (k.sched.entity child).onRq = false

/-- The child is in no tree, whatever the queue looked like. -/
theorem fork_child_not_queued (env : Platform) (leaves : LeavesQueue checkPreemptCurr) {k : Kernel}
    (forks : Forks k orig child) (stack : Nat) (jiffies : U64) (clock : Nat → U64) :
    ∃ k', forkChild env checkPreemptCurr k orig child stack jiffies clock = .ok k' ∧ ¬ChildQueued k k' child := by
  have other : orig ≠ child := by
    rintro rfl
    have on := forks.queued
    rw [forks.fresh] at on
    contradiction
  obtain ⟨k',buddies,done,shape⟩ := @fork_returns env checkPreemptCurr orig child leaves k forks.here forks.running
    forks.queued forks.fair other stack jiffies clock
  have absent : child ∉ inorder (k.sched.cfs root).tasksTimeline := by
    intro listed
    have on := (forks.member.queued child).mpr (.inl listed)
    rw [forks.fresh] at on
    contradiction
  refine ⟨k',done,fun queued => ?_⟩
  have same : inorder (k'.sched.cfs root).tasksTimeline =
      inorder (k.sched.cfs root).tasksTimeline := congrArg Shape.timeline shape
  have once := queued.listed
  rw [same,List.count_eq_zero_of_not_mem absent] at once
  contradiction

end Fork

def loneKernel : Kernel :=
  { bootKernel with
    sched := Cfs.oneRunning
    task := fun _ => { zeroTask with
      schedClass := some .fair, staticPrio := DEFAULT_PRIO, normalPrio := DEFAULT_PRIO }
    currentTask := some 0 }

theorem loneKernel_forks : Forks loneKernel 0 1 where
  here := rfl
  running := by decide
  current := by decide
  queued := by decide
  fair := rfl
  member := (Cfs.oneRunning_run.consistent Cfs.basePlatform).member
  fresh := by decide

/-- While a fair task runs `check_preempt_curr` is the fair class's. -/
def loneCheck (k : Kernel) (p : Nat) (fork : Bool) : Except NullDeref Kernel :=
  checkPreemptWakeup basePlatform flat k p fork 3

theorem fork_child_not_queued_alone : LeavesQueue loneCheck ∧ Forks loneKernel 0 1 ∧
    ∃ k', forkChild basePlatform loneCheck loneKernel 0 1 2 0 (fun _ => 3) = .ok k' ∧ ¬ChildQueued loneKernel k' 1 :=
  ⟨checkPreemptWakeup_leavesQueue basePlatform 3,loneKernel_forks,
    fork_child_not_queued basePlatform (checkPreemptWakeup_leavesQueue basePlatform 3) loneKernel_forks ..⟩

def loneForked : Kernel := (forkChild basePlatform loneCheck loneKernel 0 1 2 0 fun _ => 3).toOption.getD loneKernel

/-- Both counters of the whole run queue grow while the tree stays empty. -/
theorem alone_fork_fails :
    forkChild basePlatform loneCheck loneKernel 0 1 2 0 (fun _ => 3) = .ok loneForked ∧
    LeavesQueue loneCheck ∧ Forks loneKernel 0 1 ∧ loneForked.sched.nrRunning = 2 ∧
    (loneForked.sched.cfs root).nrRunning = 1 ∧
    inorder (loneForked.sched.cfs root).tasksTimeline = [] ∧ ¬ChildQueued loneKernel loneForked 1 := by
  refine ⟨rfl,checkPreemptWakeup_leavesQueue basePlatform 3,loneKernel_forks,by decide,by decide,by decide,?_⟩
  intro queued
  exact absurd queued.nr (by decide)

end Kernal.Task
