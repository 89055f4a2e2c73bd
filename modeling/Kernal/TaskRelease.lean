import Kernal.TaskStack

/-! When a task is released. `schedule` takes no dead task off its queue or off the task
list, and a task that is resumed finishes the switch for itself. So a dead task loses its
last reference while it is the running one. -/
namespace Kernal.Task

open Cfs (Hierarchy SchedClass U64)
open Runs

structure RefState where
  kernel : Kernel
  refs : Nat → Nat

/-- The calls. Setting the class, the state and the current task is done by code outside
the scheduler; a task sets its own state, while it runs. -/
inductive RefOp where
  | alloc (task stack : Option Nat)
  | dup (orig : Nat) (task stack : Option Nat) (jiffies : U64)
  | setClass (p : Nat) (schedClass : SchedClass)
  | setState (state : Nat)
  | setCurrent (p : Nat)
  | fork (p : Nat)
  | wake (p : Nat) (clock : Nat → U64) (now : U64)
  | get (tsk : Nat)
  | put (tsk : Nat)
  | schedule (clock : Nat → U64)

/-- Some structure of the scheduler leads to the task. -/
inductive Reachable (k : Kernel) (t : Nat) : Prop where
  | taskList : t ∈ k.taskList → Reachable k t
  | timeline (q : Nat) : t ∈ SearchTree.inorder (k.sched.cfs q).tasksTimeline → Reachable k t
  | rqCurr : k.sched.curr = some t → Reachable k t
  | cfsCurr (q : Nat) : (k.sched.cfs q).curr = some t → Reachable k t
  | nextBuddy (q : Nat) : (k.sched.buddies q).next = some t → Reachable k t
  | lastBuddy (q : Nat) : (k.sched.buddies q).last = some t → Reachable k t
  | skipBuddy (q : Nat) : (k.sched.buddies q).skip = some t → Reachable k t

def Unreachable (s : RefState) : Prop := ∀ t, s.kernel.released t = true → ¬Reachable s.kernel t

section

variable (env : Platform) (h : Hierarchy)

inductive RefStep : RefState → RefOp → RefState → Prop where
  | alloc {s : RefState} {task stack : Option Nat} : Fresh s.kernel task stack →
      RefStep s (.alloc task stack) { s with kernel := (allocTaskStruct env s.kernel task stack).2 }
  | dup {s : RefState} (orig : Nat) {task stack : Option Nat} (jiffies : U64) : s.kernel.Live orig →
      Fresh s.kernel task stack → RefStep s (.dup orig task stack jiffies)
        { s with kernel := (dupTaskStruct env s.kernel orig task stack jiffies).2 }
  | setClass {s : RefState} (p : Nat) (schedClass : SchedClass) :
      RefStep s (.setClass p schedClass)
        { s with kernel := s.kernel.setTask p fun t => { t with schedClass := some schedClass } }
  | setState {s : RefState} {r : Nat} (state : Nat) : s.kernel.sched.curr = some r →
      RefStep s (.setState state) { s with kernel := s.kernel.setTask r fun t => { t with state } }
  | setCurrent {s : RefState} (p : Nat) :
      RefStep s (.setCurrent p) { s with kernel := setCurrent s.kernel (some p) }
  | fork {s : RefState} {p : Nat} {k : Kernel} : s.kernel.Live p → schedFork env s.kernel p = .ok k →
      RefStep s (.fork p) { s with kernel := k }
  | wake {s : RefState} {p : Nat} {clock : Nat → U64} {now : U64} {k : Kernel} : s.kernel.Live p →
      wakeUpNewTask env h s.kernel p clock now = .ok k →
      RefStep s (.wake p clock now) { s with kernel := k }
  | get {s : RefState} (tsk : Nat) : s.kernel.Live tsk → RefStep s (.get tsk)
      { kernel := getTaskStruct s.kernel tsk, refs := Function.update s.refs tsk (s.refs tsk + 1) }
  | put {s : RefState} (tsk : Nat) : 0 < s.refs tsk → RefStep s (.put tsk)
      { kernel := putTaskStruct s.kernel tsk, refs := Function.update s.refs tsk (s.refs tsk - 1) }
  | schedule {s : RefState} {clock : Nat → U64} {k : Kernel} : schedule env h s.kernel clock = .ok k →
      RefStep s (.schedule clock) { s with kernel := k }

/-- Nothing has been released, every task has one reference beside those that were taken,
and a suspended task has itself in its variable `prev`. -/
structure Counted (s : RefState) : Prop where
  released : ∀ t, s.kernel.released t = false
  usage : ∀ t, s.kernel.Live t → (s.kernel.task t).usage = 1 + BitVec.ofNat 32 (s.refs t)
  held : ∀ t, 0 < s.refs t → s.kernel.Live t
  own : ∀ t p, s.kernel.frame t = some p → p = t

abbrev RefRun := Run Counted (RefStep env h)

def picked (k : Kernel) (clock : Nat → U64) : Option Nat :=
  match k.sched.curr with
  | none => none
  | some prev =>
    (Cfs.pickNextTask env.cfs h k.sched (if (k.task prev).schedClass = some .fair then some prev else none)
      clock).1

/-- A dead task that was switched away from before is switched to again. -/
structure DeadResumed (k : Kernel) (clock : Nat → U64) (next : Nat) : Prop where
  picked : picked env h k clock = some next
  other : k.sched.curr ≠ some next
  suspended : (k.frame next).isSome
  dead : (k.task next).state = env.taskDead

/-- No dead task is resumed, and no reference is given back when the count of those taken
has come round to zero. -/
def NoDeadResumed (s : RefState) : RefOp → Prop
  | .schedule clock => ∀ next, ¬DeadResumed env h s.kernel clock next
  | .put tsk => BitVec.ofNat 32 (s.refs tsk) ≠ 0
  | _ => True

structure SameRefs (k k' : Kernel) : Prop where
  heap : k'.heap = k.heap
  released : k'.released = k.released
  frame : k'.frame = k.frame
  usage : ∀ t, (k'.task t).usage = (k.task t).usage

variable {env h}

theorem SameRefs.rfl : SameRefs k k := ⟨Eq.refl _,Eq.refl _,Eq.refl _,fun _ => Eq.refl _⟩

theorem SameRefs.trans (first : SameRefs k k') (second : SameRefs k' k'') : SameRefs k k'' :=
  ⟨second.heap.trans first.heap,second.released.trans first.released,second.frame.trans first.frame,
    fun t => (second.usage t).trans (first.usage t)⟩

theorem SameRefs.sched (k : Kernel) (sched : Cfs.Sched) : SameRefs k { k with sched } :=
  ⟨Eq.refl _,Eq.refl _,Eq.refl _,fun _ => Eq.refl _⟩

theorem SameRefs.setTask (p : Nat) {edit : TaskStruct → TaskStruct}
    (keeps : (edit (k.task p)).usage = (k.task p).usage) : SameRefs k (k.setTask p edit) :=
  ⟨Eq.refl _,Eq.refl _,Eq.refl _,k.setTask_field TaskStruct.usage keeps⟩

theorem Counted.same (counted : Counted s) (same : SameRefs s.kernel k) : Counted { s with kernel := k } := by
  constructor
  case released => exact fun t => same.released ▸ counted.released t
  case usage =>
    intro t live
    rw [same.usage t]
    exact counted.usage t (by simpa [Kernel.Live,same.heap] using live)
  case held => exact fun t some => by simpa [Kernel.Live,same.heap] using counted.held t some
  case own => exact fun t p saved => counted.own t p (same.frame ▸ saved)

theorem Forked.sameRefs (forked : Forked k k' p) : SameRefs k k' := by
  refine ⟨forked.heap,forked.released,forked.frame,fun t => ?_⟩
  by_cases same : t = p
  · subst same
    exact forked.usage
  · rw [forked.others t same]

theorem Checked.sameRefs {k k' : Kernel} (checked : Checked env h k k') : SameRefs k k' := by
  induction checked with
  | refl => exact .rfl
  | mark curr _ ih => exact ih.trans (.setTask curr (Eq.refl _))
  | hint _ _ ih => exact ih.trans (.sched _ _)
  | charge _ _ _ ih => exact ih.trans (.sched _ _)

theorem wakeUpNewTask_same {k k' : Kernel} (done : wakeUpNewTask env h k p clock now = .ok k') :
    SameRefs k k' := by
  have running : SameRefs k (k.setTask p fun t => { t with state := Cfs.TASK_RUNNING }) :=
    .setTask p (Eq.refl _)
  simp only [wakeUpNewTask,wakeUpNewTaskWith,activateTask,enqueueTask,bind,Except.bind] at done
  split at done
  · cases done
  next enqueued =>
    split at enqueued <;> cases enqueued
    · exact running.trans ((SameRefs.sched _ _).trans (checkPreemptWakeup_checked done).sameRefs)
    · exact running.trans (checkPreemptWakeup_checked done).sameRefs

theorem Switched.sameRefs (switched : Switched k k' prev next) : SameRefs k k' :=
  ⟨switched.heap,switched.released,switched.frame,switched.usage⟩

theorem finishTaskSwitch_alive (alive : (k.task prev).state ≠ env.taskDead) :
    SameRefs k (finishTaskSwitch env k prev) := by
  simp only [finishTaskSwitch,alive,if_false]
  split <;> exact ⟨Eq.refl _,Eq.refl _,Eq.refl _,fun _ => Eq.refl _⟩

/-- `schedule` keeps the running task or switches, with the queues already changed. -/
theorem schedule_cases {k k' : Kernel} (done : schedule env h k clock = .ok k') :
    ∃ prev next, k.sched.curr = some prev ∧ picked env h k clock = some next ∧
    (next = prev ∧ SameRefs k k' ∨ next ≠ prev ∧ ∃ k₁, SameRefs k k₁ ∧
      (∀ t, (k₁.task t).state = (k.task t).state) ∧ k₁.sched.curr = some next ∧
      k' = switchTo env k₁ prev next) := by
  unfold schedule at done
  split at done
  · cases done
  next prev here =>
    simp only [picked,here]
    dsimp only at done
    generalize Cfs.pickNextTask env.cfs h k.sched
      (if (k.task prev).schedClass = some .fair then some prev else none) clock = choice at done ⊢
    obtain ⟨next,sched⟩ := choice
    have cleared : SameRefs k ({ k with sched }.setTask prev fun t => { t with needResched := false }) :=
      (SameRefs.sched k sched).trans (.setTask prev (Eq.refl _))
    have states (t : Nat) : (({ k with sched }.setTask prev fun t => { t with needResched := false }).task t).state =
        (k.task t).state := Kernel.setTask_field _ TaskStruct.state (Eq.refl _) t
    cases next with
    | none => cases done
    | some next =>
      refine ⟨prev,next,Eq.refl _,Eq.refl _,?_⟩
      simp only at done
      split at done
      next kept =>
        cases done
        exact .inl ⟨kept,cleared⟩
      next other =>
        refine .inr ⟨other,?_⟩
        simp only [bind,Except.bind] at done
        split at done
        · cases done
        next k₁ switched =>
          cases done
          have moved := contextSwitch_switched other switched
          refine ⟨k₁,cleared.trans moved.sameRefs,fun t => ?_,moved.curr,Eq.refl _⟩
          exact (moved.state t).trans (states t)

theorem Counted.setFrame (counted : Counted s) {frame : Nat → Option Nat}
    (own : ∀ t p, frame t = some p → p = t) : Counted { s with kernel := { s.kernel with frame } } :=
  ⟨counted.released,counted.usage,counted.held,own⟩

theorem Counted.schedule (counted : Counted s) (clean : ∀ next, ¬DeadResumed env h s.kernel clock next)
    (done : Task.schedule env h s.kernel clock = .ok k) : Counted { s with kernel := k } := by
  obtain ⟨prev,next,here,choice,⟨-,same⟩ | ⟨other,k₁,same,state,-,rfl⟩⟩ := schedule_cases done
  · exact counted.same same
  · have before : Counted { s with kernel := k₁ } := counted.same same
    have saved (t p : Nat) (inside : Function.update k₁.frame prev (some prev) t = some p) : p = t := by
      by_cases left : t = prev
      · simpa [left,eq_comm] using inside
      · exact before.own t p (by simpa [left] using inside)
    have away : Counted { s with kernel := { k₁ with frame := Function.update k₁.frame prev (some prev) } } :=
      before.setFrame saved
    simp only [switchTo]
    split
    next new => exact away
    next p old =>
      -- A resumed task finishes the switch for itself, and it is not dead.
      cases saved next p old
      have alive : (k₁.task next).state ≠ env.taskDead := by
        intro dead
        refine clean next ⟨choice,?_,?_,by rw [← state next,dead]⟩
        · rw [here]
          exact fun same => other (Option.some.inj same).symm
        · rw [← same.frame]
          simpa [Function.update_of_ne other] using congrArg Option.isSome old
      have resumed : Counted { s with kernel := { k₁ with
          frame := Function.update (Function.update k₁.frame prev (some prev)) next none } } := by
        refine away.setFrame fun t p inside => ?_
        by_cases back : t = next
        · simp [back] at inside
        · exact saved t p (by simpa [back] using inside)
      exact resumed.same (finishTaskSwitch_alive alive)

/-- A block that was not allocated becomes a task with one reference. -/
theorem Counted.made (counted : Counted s) (fresh : Fresh s.kernel (some t) (some b)) {k : Kernel}
    (made : Made s.kernel k t b) : Counted { s with kernel := k } := by
  have live := fresh.live_iff made
  constructor
  case released =>
    intro u
    simp [made.released,Function.update_apply,counted.released]
  case usage =>
    intro u alive
    by_cases same : u = t
    · subst same
      have unheld : s.refs u = 0 := Nat.eq_zero_of_not_pos fun some => fresh.not_live (counted.held u some)
      simp [made.usage,unheld]
    · rw [made.others u same]
      exact counted.usage u (((live u).1 alive).resolve_left same)
  case held => exact fun u some => (live u).2 (.inr (counted.held u some))
  case own => exact fun u p saved => counted.own u p (made.frame ▸ saved)

/-- A failed allocation. -/
theorem Counted.untouched (counted : Counted s) (same : Untouched s.kernel k)
    (released : ∀ u, k.released u = false) (frame : k.frame = s.kernel.frame) :
    Counted { s with kernel := k } := by
  have none : s.kernel.released = k.released := funext fun u => (counted.released u).trans (released u).symm
  exact counted.same ⟨same.heap,none.symm,frame,fun u => by rw [same.task]⟩

theorem Counted.alloc (counted : Counted s) (fresh : Fresh s.kernel task stack) :
    Counted { s with kernel := (allocTaskStruct env s.kernel task stack).2 } := by
  cases task with
  | none => exact counted
  | some t =>
    cases stack with
    | none =>
      -- The block of the task was taken and given back.
      refine counted.untouched (alloc_failed env fresh (.inr (Eq.refl _))).2 (fun u => ?_) (Eq.refl _)
      simp [allocTaskStruct,Kernel.kfree,Kernel.kmalloc,Function.update_apply,counted.released]
    | some b => exact counted.made fresh (alloc_made env s.kernel t b)

theorem Counted.dup (counted : Counted s) (fresh : Fresh s.kernel task stack) (orig : Nat) (jiffies : U64) :
    Counted { s with kernel := (dupTaskStruct env s.kernel orig task stack jiffies).2 } := by
  cases task with
  | none => exact counted
  | some t =>
    cases stack with
    | none =>
      have failed : Counted { s with kernel := (allocTaskStruct env s.kernel (some t) none).2 } :=
        counted.alloc fresh
      exact failed
    | some b => exact counted.made fresh (dup_made env s.kernel orig t b jiffies)

/-- The count of a task and the references taken change together. -/
theorem Counted.setUsage (counted : Counted s) (live : s.kernel.Live tsk) {usage : TaskStruct → BitVec 32}
    {refs : Nat} (count : usage (s.kernel.task tsk) = 1 + BitVec.ofNat 32 refs) :
    Counted ⟨s.kernel.setTask tsk fun t => { t with usage := usage t },Function.update s.refs tsk refs⟩ := by
  constructor
  case released => exact counted.released
  case own => exact counted.own
  case usage =>
    intro t alive
    by_cases same : t = tsk
    · subst same
      simpa using count
    · simp only [Kernel.setTask_other _ _ same,Function.update_of_ne same]
      exact counted.usage t alive
  case held =>
    intro t some
    by_cases same : t = tsk
    · exact same ▸ live
    · exact counted.held t (by simpa [same] using some)

theorem Counted.get (counted : Counted s) (live : s.kernel.Live tsk) :
    Counted ⟨getTaskStruct s.kernel tsk,Function.update s.refs tsk (s.refs tsk + 1)⟩ := by
  refine counted.setUsage live ?_
  rw [counted.usage tsk live,BitVec.ofNat_add]
  bv_omega

theorem Counted.put (counted : Counted s) (taken : 0 < s.refs tsk) (few : BitVec.ofNat 32 (s.refs tsk) ≠ 0) :
    Counted ⟨putTaskStruct s.kernel tsk,Function.update s.refs tsk (s.refs tsk - 1)⟩ := by
  have live := counted.held tsk taken
  have before := counted.usage tsk live
  have left : (s.kernel.task tsk).usage - 1 ≠ 0 := by
    rw [before]
    bv_omega
  have kept : putTaskStruct s.kernel tsk = s.kernel.setTask tsk fun t => { t with usage := t.usage - 1 } :=
    if_neg (by rw [Kernel.setTask_same]; exact left)
  rw [kept]
  refine counted.setUsage live ?_
  obtain ⟨n,more⟩ := Nat.exists_eq_succ_of_ne_zero taken.ne'
  rw [before,more,Nat.succ_sub_one,Nat.succ_eq_add_one,BitVec.ofNat_add]
  bv_omega

theorem RefStep.counted (counted : Counted s) (allowed : NoDeadResumed env h s op)
    (step : RefStep env h s op s') : Counted s' := by
  cases step with
  | alloc fresh => exact counted.alloc fresh
  | dup orig jiffies _ fresh => exact counted.dup fresh orig jiffies
  | setClass p _ => exact counted.same (.setTask p (Eq.refl _))
  | setState _ running => exact counted.same (.setTask _ (Eq.refl _))
  | setCurrent p => exact counted.same ⟨Eq.refl _,Eq.refl _,Eq.refl _,fun _ => Eq.refl _⟩
  | fork _ done => exact counted.same (schedFork_forked done).sameRefs
  | wake _ done => exact counted.same (wakeUpNewTask_same done)
  | get tsk live => exact counted.get live
  | put tsk taken => exact counted.put taken allowed
  | schedule done => exact counted.schedule allowed done

theorem Counted.unreachable (counted : Counted s) : Unreachable s := by
  intro t released
  simp [counted.released t] at released

theorem put_releases (last : (k.task tsk).usage = 1) :
    (putTaskStruct k tsk).released tsk = true ∧ (putTaskStruct k tsk).sched = k.sched := by
  refine ⟨?_,(putTaskStruct_dropped k tsk).sched⟩
  rw [putTaskStruct_last last]
  simp only [freeTaskStruct,Function.update_self]

theorem finishTaskSwitch_dead (dead : (k.task prev).state = env.taskDead) (last : (k.task prev).usage = 1) :
    (finishTaskSwitch env k prev).released prev = true ∧ (finishTaskSwitch env k prev).sched = k.sched := by
  simp only [finishTaskSwitch,dead,if_true]
  cases k.prevMm with
  | none => exact put_releases last
  | some mm => exact put_releases last

/-- A dead task that is resumed with no other reference is released and is `rq->curr`. -/
theorem dead_resumed_released (counted : Counted s) (resumed : DeadResumed env h s.kernel clock next)
    (live : s.kernel.Live next) (unheld : s.refs next = 0) (done : schedule env h s.kernel clock = .ok k) :
    k.released next = true ∧ k.sched.curr = some next := by
  obtain ⟨prev,chosen,here,choice,moved⟩ := schedule_cases done
  cases Option.some.inj (choice.symm.trans resumed.picked)
  obtain ⟨rfl,-⟩ | ⟨other,k₁,same,state,curr,rfl⟩ := moved
  · exact absurd here resumed.other
  · obtain ⟨p,saved⟩ := Option.isSome_iff_exists.1 resumed.suspended
    cases counted.own next p saved
    have frame : Function.update k₁.frame prev (some prev) next = some next := by
      rw [Function.update_of_ne other,same.frame,saved]
    have dead : (k₁.task next).state = env.taskDead := (state next).trans resumed.dead
    have last : (k₁.task next).usage = 1 := by
      rw [same.usage next,counted.usage next live,unheld]
      rfl
    simp only [switchTo,frame]
    obtain ⟨released,sched⟩ := finishTaskSwitch_dead (k := { k₁ with
      frame := Function.update (Function.update k₁.frame prev (some prev)) next none }) dead last
    exact ⟨released,(congrArg Cfs.Sched.curr sched).trans curr⟩

/-- While no dead task is resumed, no task that was released can be reached. The first
resumption of a dead task to which nobody else holds a reference releases the task that is
then running. -/
theorem released_unreachable (env : Platform) (h : Hierarchy) (run : RefRun env h past s)
    (kept : Throughout (NoDeadResumed env h) past) :
    Always Unreachable past s ∧
    ∀ clock next s', DeadResumed env h s.kernel clock next → s.kernel.Live next → s.refs next = 0 →
      RefStep env h s (.schedule clock) s' → ¬Unreachable s' := by
  have counted : Always Counted past s :=
    run.always_of (fun _ start => start) (fun _ _ _ counted allowed step => step.counted counted allowed) kept
  refine ⟨counted.mono fun _ => Counted.unreachable,?_⟩
  intro clock next s' resumed live unheld step unreachable
  cases step with
  | schedule done =>
    obtain ⟨released,curr⟩ := dead_resumed_released counted.2 resumed live unheld done
    exact unreachable next released (.rqCurr curr)

end

def aloneSched : Cfs.Sched :=
  let sched := Cfs.enqueueTaskFair Cfs.basePlatform Cfs.flat (Cfs.emptySched fun _ => 1024) 1 ⟨false, false⟩ fun _ => 0
  { Cfs.setNextEntity Cfs.basePlatform sched Cfs.root 1 0 with curr := some 1 }

/-- Task 1 is a fair task with the stack 10 and the address space 0. -/
def aloneKernel : Kernel :=
  { bootKernel with
    task := fun t => if t = 1 then
        { newTask basePlatform 1 10 1 with schedClass := some .fair, mm := some 0, activeMm := some 0 }
      else zeroTask
    heap := fun b => if b = 1 then some .task else if b = 10 then some .stack else none
    nextPid := 2
    currentTask := some 1
    taskList := [1]
    sched := aloneSched }

/-- Task 2 is made, forked and woken, and runs. -/
def secondMade : Kernel := (allocTaskStruct basePlatform aloneKernel (some 2) (some 3)).2
def secondFair : Kernel := secondMade.setTask 2 fun t => { t with schedClass := some .fair }
def secondForked : Kernel := (schedFork basePlatform secondFair 2).toOption.getD secondFair
def secondWoken : Kernel :=
  (wakeUpNewTask basePlatform Cfs.flat secondForked 2 (fun _ => 10) 10).toOption.getD secondForked
def secondRuns : Kernel := (schedule basePlatform Cfs.flat secondWoken fun _ => 20).toOption.getD secondWoken

/-- It dies, task 1 runs and then task 2 once more. -/
def secondDead : Kernel := secondRuns.setTask 2 fun t => { t with state := basePlatform.taskDead }
def firstBack : Kernel := (schedule basePlatform Cfs.flat secondDead fun _ => 400).toOption.getD secondDead
def secondBack : Kernel := (schedule basePlatform Cfs.flat firstBack fun _ => 8000).toOption.getD firstBack

def unheld (k : Kernel) : RefState := ⟨k, fun _ => 0⟩

theorem aloneKernel_counted : Counted (unheld aloneKernel) := by
  refine ⟨fun _ => rfl,fun t live => ?_,fun t some => absurd some (Nat.lt_irrefl 0),fun t p saved => ?_⟩
  · by_cases same : t = 1
    · subst same
      rfl
    · by_cases stack : t = 10 <;> simp [unheld,aloneKernel,Kernel.Live,same,stack] at live
  · cases saved

theorem secondRuns_run : RefRun basePlatform Cfs.flat
    ([] ++ [(unheld aloneKernel, .alloc (some 2) (some 3))] ++ [(unheld secondMade, .setClass 2 .fair)] ++
      [(unheld secondFair, .fork 2)] ++ [(unheld secondForked, .wake 2 (fun _ => 10) 10)] ++
      [(unheld secondWoken, .schedule fun _ => 20)])
    (unheld secondRuns) := by
  have fresh : Fresh aloneKernel (some 2) (some 3) :=
    ⟨fun t same => by cases same; rfl,fun b same => by cases same; exact ⟨rfl,by simp⟩⟩
  refine Run.next ?_ (.schedule (ok_getD _ rfl))
  refine Run.next ?_ (.wake rfl (ok_getD _ rfl))
  refine Run.next ?_ (.fork rfl (ok_getD _ rfl))
  exact ((Run.start aloneKernel_counted).next (.alloc fresh)).next (.setClass 2 .fair)

theorem firstBack_step : RefStep basePlatform Cfs.flat (unheld secondDead) (.schedule fun _ => 400)
    (unheld firstBack) := .schedule (ok_getD _ rfl)

theorem secondBack_step : RefStep basePlatform Cfs.flat (unheld firstBack) (.schedule fun _ => 8000)
    (unheld secondBack) := .schedule (ok_getD _ rfl)

/-- Nothing that was released is reached until task 2 runs once more. -/
theorem released_unreachable_second : Unreachable (unheld firstBack) ∧ ¬Unreachable (unheld secondBack) := by
  have new (next : Nat) : ¬DeadResumed basePlatform Cfs.flat secondWoken (fun _ => 20) next :=
    fun resumed => Bool.false_ne_true resumed.suspended
  have alive (next : Nat) : ¬DeadResumed basePlatform Cfs.flat secondDead (fun _ => 400) next := by
    intro resumed
    obtain rfl : 1 = next := Option.some.inj resumed.picked
    exact absurd resumed.dead (by decide)
  have dead : DeadResumed basePlatform Cfs.flat firstBack (fun _ => 8000) 2 := ⟨rfl,by decide,rfl,rfl⟩
  have kept := released_unreachable basePlatform Cfs.flat ((secondRuns_run.next (.setState 64 rfl)).next firstBack_step)
    (by simpa [Throughout,NoDeadResumed,unheld] using ⟨new,alive⟩)
  exact ⟨kept.1.2,kept.2 _ 2 _ dead rfl rfl secondBack_step⟩

theorem dead_task_released_running : (∃ past, RefRun basePlatform Cfs.flat past (unheld secondBack)) ∧
    secondBack.released 2 = true ∧ secondBack.sched.curr = some 2 ∧ 2 ∈ secondBack.taskList ∧
    ¬Unreachable (unheld secondBack) := by
  have run := ((secondRuns_run.next (.setState 64 rfl)).next firstBack_step).next secondBack_step
  refine ⟨⟨_,run⟩,rfl,rfl,by decide,fun unreachable => ?_⟩
  exact unreachable 2 rfl (.rqCurr rfl)

end Kernal.Task
