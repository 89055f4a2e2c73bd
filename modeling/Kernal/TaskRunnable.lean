import Kernal.Fork
import Kernal.TaskHints

/-! Which tasks `schedule` lets run. It never takes a task off the queue, so a task that
changes its state and calls `schedule` while it is still queued stays eligible. When every
caller has left the queue or is still runnable, and no hint names a task that was lost on its
way into the tree, only runnable tasks run. -/
namespace Kernal.Task

open Cfs (Sched Shape Hierarchy EnqueueFlags U64 TASK_RUNNING TASK_INTERRUPTIBLE root flat)
open SearchTree Runs

section Schedule

variable (env : Platform) (h : Hierarchy)

/-- The task `pick_next_task_fair` may put back. -/
def fairPrev (k : Kernel) : Option Nat :=
  k.sched.curr.filter fun p => decide ((k.task p).schedClass = some .fair)

/-- What `schedule` does to the queue, which is all that `context_switch` leaves alone. The
answer `none` is `rq->idle`. -/
structure Scheduled (k : Kernel) (clock : Nat → U64) (k' : Kernel) : Prop where
  sched : k'.sched =
    { (Cfs.pickNextTask env.cfs h k.sched (fairPrev k) clock).2 with
      curr := (Cfs.pickNextTask env.cfs h k.sched (fairPrev k) clock).1 }
  state : ∀ t, (k'.task t).state = (k.task t).state

variable {env h}

/-- With a fair task on the processor it is the `schedule` of the run queue alone. -/
theorem Scheduled.of_fair (scheduled : Scheduled env h k clock k')
    (fair : ∀ p, k.sched.curr = some p → (k.task p).schedClass = some .fair) :
    k'.sched = Cfs.schedule env.cfs h k.sched clock := by
  have same : fairPrev k = k.sched.curr := by
    unfold fairPrev
    cases running : k.sched.curr with
    | none => rfl
    | some p => simp [fair p running]
  rw [scheduled.sched,same]
  rfl

/-- Where `rq->idle` is null the whole `schedule` returns for an answer only, and does this. -/
theorem schedule_scheduled {k k' : Kernel} (done : schedule env h k clock = .ok k') :
    Scheduled env h k clock k' := by
  unfold schedule at done
  split at done
  · cases done
  next prev running =>
    have own : (if (k.task prev).schedClass = some .fair then some prev else none) = fairPrev k := by
      simp [fairPrev,running,Option.filter]
    have runs : (Cfs.pickNextTask env.cfs h k.sched (fairPrev k) clock).2.curr = some prev := by
      rw [Cfs.curr_pickNextTask]
      exact running
    dsimp only at done
    rw [own] at done
    generalize answer : Cfs.pickNextTask env.cfs h k.sched (fairPrev k) clock = result at done runs
    obtain ⟨choice,sched⟩ := result
    dsimp only at done runs
    cases choice with
    | none => cases done
    | some next =>
      dsimp only at done
      split at done
      next same =>
        cases done
        refine ⟨?_,Kernel.setTask_field _ TaskStruct.state rfl⟩
        rw [answer,same]
        dsimp only [Kernel.setTask]
        rw [← runs]
      next other =>
        simp only [bind,Except.bind] at done
        split at done
        · cases done
        next k₁ switches =>
          cases done
          have switched := contextSwitch_switched other switches
          have still := switchTo_still env k₁ prev next
          refine ⟨?_,fun t => (still.state t).trans ((switched.state t).trans ?_)⟩
          · rw [still.sched,switched.sched,answer]
            rfl
          · exact Kernel.setTask_field _ TaskStruct.state rfl t

end Schedule

section Run

/-- Functions that the repository uses and does not define, with what they are documented to
do. -/
structure WakeupCalls (env : Platform) where
  checkPreemptCurr : Kernel → Nat → Bool → U64 → Except NullDeref Kernel
  /-- It asks the fair class, or only marks a task that is to be rescheduled. -/
  checkPreemptCurr_cases : ∀ k p fork now k', checkPreemptCurr k p fork now = .ok k' →
    checkPreemptWakeup env flat k p fork now = .ok k' ∨ k' = k ∨
      ∃ c, k' = k.setTask c fun t => { t with needResched := true }
  ttwuRemote : Kernel → Nat → U64 → Except NullDeref (Bool × Kernel)
  /-- A task that is still queued only becomes runnable again. -/
  ttwuRemote_on : ∀ k p now, (k.sched.entity p).onRq = true → ttwuRemote k p now = do
    let k ← checkPreemptCurr k p false now
    .ok (true, k.setTask p fun t => { t with state := TASK_RUNNING })
  ttwuRemote_off : ∀ k p now, (k.sched.entity p).onRq = false → ttwuRemote k p now = .ok (false, k)
  ttwuQueue : Kernel → Nat → (Nat → U64) → U64 → Except NullDeref Kernel
  /-- Any other one is activated first. -/
  ttwuQueue_eq : ∀ k p clock now, ∃ flags, ttwuQueue k p clock now = do
    let k ← activateTask env flat k p flags clock
    let k ← checkPreemptCurr k p false now
    .ok (k.setTask p fun t => { t with state := TASK_RUNNING })

variable (env : Platform) (calls : WakeupCalls env)

inductive KernelCall where
  | setState (state : Nat)
  | dupTaskStruct (orig child stack : Nat) (jiffies : U64)
  | schedFork (p : Nat)
  | wakeUpNewTask (p : Nat) (clock : Nat → U64) (now : U64)
  | wakeUpProcess (p : Nat) (clock : Nat → U64) (now : U64)
  | deactivateTask (p : Nat) (sleep : Bool) (clock : Nat → U64)
  | yieldTaskFair (now : U64)
  | schedule (clock : Nat → U64)
  | elsewhere

/-- A task changes its state only while it runs. The block of a new task is none that the run
queue uses, and only a task that is queued is deactivated. -/
inductive KernelStep : Kernel → KernelCall → Kernel → Prop where
  | setState : k.sched.curr = some p →
      KernelStep k (.setState state) (k.setTask p fun t => { t with state })
  | dup : child ∉ inorder (k.sched.cfs root).tasksTimeline → k.sched.curr ≠ some child →
      KernelStep k (.dupTaskStruct orig child stack jiffies)
        (dupTaskStruct env k orig (some child) (some stack) jiffies).2
  | fork : schedFork env k p = .ok k' → KernelStep k (.schedFork p) k'
  | wakeNew : wakeUpNewTaskWith env flat (fun k p fork => calls.checkPreemptCurr k p fork now) k p clock = .ok k' →
      KernelStep k (.wakeUpNewTask p clock now) k'
  | wake : wakeUpProcess env (fun k p => calls.ttwuRemote k p now) (fun k p => calls.ttwuQueue k p clock now) k p
      = .ok k' → KernelStep k (.wakeUpProcess p clock now) k'
  | deactivate : (k.sched.entity p).onRq = true → deactivateTask env flat k p sleep clock = .ok k' →
      KernelStep k (.deactivateTask p sleep clock) k'
  | yield : yieldTaskFair env flat k now = .ok k' → KernelStep k (.yieldTaskFair now) k'
  | schedule : Scheduled env flat k clock k' → KernelStep k (.schedule clock) k'
  | elsewhere : Still k k' → KernelStep k .elsewhere k'

/-- Who calls `schedule` is runnable or has left the queue, and the hints that may be followed
name nodes of the tree or the task that is put back. -/
structure Settles (k : Kernel) : Prop where
  caller : ∀ p, k.sched.curr = some p → (k.sched.entity p).onRq = true → (k.task p).state = TASK_RUNNING
  hints : ∀ e, (k.sched.buddies root).Suggests e → e ∈ inorder (k.sched.cfs root).tasksTimeline ∨
    fairPrev k = some e ∧ (k.sched.entity e).onRq = true

/-- In addition, no lost task is deactivated. -/
def KernelCall.Settled (k : Kernel) : KernelCall → Prop
  | .deactivateTask p _ _ => k.sched.curr = some p ∨ p ∈ inorder (k.sched.cfs root).tasksTimeline
  | .schedule _ => Settles k
  | _ => True

def Runnable (k : Kernel) (p : Nat) : Prop := (k.task p).state = TASK_RUNNING

/-- What waits in the tree is queued and awake, and no null pointer was followed. -/
structure Calm (awake : Nat → Prop) (k : Kernel) : Prop where
  settled : k.sched.shape.Settled awake
  nullDeref : k.sched.nullDeref = false

variable {env} {k k' : Kernel} {awake awake' : Nat → Prop}

theorem Calm.still (calm : Calm awake k) {hNr total : Nat} {buddies : Cfs.Buddies}
    (shape : k'.sched.shape = { k.sched.shape with hNr, total, buddies })
    (kept : ∀ p ∈ k.sched.shape.timeline, awake p → awake' p) : Calm awake' k' := by
  refine ⟨?_,?_⟩
  · rw [shape]
    exact calm.settled.congr kept
  · exact (congrArg Shape.nullDeref shape).trans calm.nullDeref

theorem Calm.mono (calm : Calm awake k) (kept : ∀ p ∈ k.sched.shape.timeline, awake p → awake' p) :
    Calm awake' k :=
  calm.still rfl kept

theorem Calm.checked (calm : Calm awake k) (checked : Checked env flat k k') : Calm awake k' := by
  obtain ⟨buddies,shape⟩ := checked.shape
  exact calm.still shape fun _ _ up => up

theorem Checked.runnable (checked : Checked env flat k k') (p : Nat) : Runnable k' p ↔ Runnable k p := by
  unfold Runnable
  rw [checked.field TaskStruct.state fun _ _ => rfl]

theorem WakeupCalls.checked (calls : WakeupCalls env) (done : calls.checkPreemptCurr k p flag now = .ok k') :
    Checked env flat k k' := by
  rcases calls.checkPreemptCurr_cases k p flag now k' done with checks | rfl | ⟨c,rfl⟩
  · exact checkPreemptWakeup_checked checks
  · exact .refl
  · exact .mark c .refl

/-- A task that is awake may be activated, also one that is queued or marked as queued. -/
theorem Calm.activate (calm : Calm awake k) (up : awake p)
    (done : activateTask env flat k p flags clock = .ok k') : Calm awake k' ∧ k'.task = k.task := by
  unfold activateTask enqueueTask at done
  split at done
  · cases done
  · cases done
    refine ⟨?_,rfl⟩
    by_cases on : (k.sched.entity p).onRq = true
    · exact calm.still (shape_enqueueTaskFair_marked env on flags clock) fun _ _ up => up
    · have enqueued := Cfs.enqueued_enqueueTaskFair env.cfs k.sched (Bool.eq_false_iff.mpr on) flags clock
      exact ⟨calm.settled.enqueued (Bool.eq_false_iff.mpr on) up enqueued,enqueued.nullDeref.trans calm.nullDeref⟩
  · cases done
    exact ⟨calm,rfl⟩

/-- A task may set its state outside the tree, and anyone may be made runnable. -/
theorem Calm.setState (calm : Calm (Runnable k) k) (state : Nat)
    (may : p ∉ k.sched.shape.timeline ∨ state = TASK_RUNNING) :
    Calm (Runnable (k.setTask p fun t => { t with state })) (k.setTask p fun t => { t with state }) := by
  refine calm.still rfl fun e member up => ?_
  by_cases same : e = p
  · subst same
    simpa [Runnable] using may.resolve_left (not_not_intro member)
  · rwa [Runnable,k.setTask_other _ same]

theorem Calm.dup (calm : Calm (Runnable k) k) (fresh : child ∉ k.sched.shape.timeline)
    (copied : Copied k k' orig child) : Calm (Runnable k') k' := by
  have other {e : Nat} (member : e ∈ k.sched.shape.timeline) : e ≠ child := fun same => fresh (same ▸ member)
  refine ⟨⟨?_,?_⟩,?_⟩
  · have tree : Shape.SameTree k.sched.shape k'.sched.shape := by
      rw [copied.shape]
      exact ⟨rfl,rfl⟩
    refine (calm.settled.lists.mono fun e member found => ?_).same tree
    obtain ⟨⟨on,apart⟩,up⟩ := found
    rw [copied.shape]
    refine ⟨⟨?_,apart⟩,?_⟩
    · exact (Function.update_of_ne (other member) ..).trans on
    · rw [Runnable,copied.others e (other member)]
      exact up
  · rw [copied.shape]
    exact calm.settled.running
  · exact (congrArg Shape.nullDeref copied.shape).trans calm.nullDeref

theorem Calm.fork (calm : Calm (Runnable k) k) (forked : Forked k k' p) : Calm (Runnable k') k' := by
  refine calm.still (forked.shape) fun e _ up => ?_
  by_cases same : e = p
  · subst same
    exact forked.state
  · rwa [Runnable,forked.others e same]

/-- `wake_up_new_task` makes the task runnable first. -/
theorem Calm.wakeNew (calm : Calm (Runnable k) k) (calls : WakeupCalls env)
    (done : wakeUpNewTaskWith env flat (fun k p fork => calls.checkPreemptCurr k p fork now) k p clock = .ok k') :
    Calm (Runnable k') k' := by
  have up := calm.setState (p := p) TASK_RUNNING (.inr rfl)
  simp only [wakeUpNewTaskWith,bind,Except.bind] at done
  split at done
  · cases done
  next k₁ activated =>
    obtain ⟨active,task⟩ := up.activate (by simp [Runnable]) activated
    have checked := calls.checked done
    refine (active.checked checked).mono fun e _ up => ?_
    rw [checked.runnable,Runnable,task]
    exact up

/-- `ttwu_remote` and `ttwu_queue` make it runnable at their end. -/
theorem Calm.check_setState (calm : Calm (fun e => e = p ∨ Runnable k e) k) (checked : Checked env flat k k') :
    Calm (Runnable (k'.setTask p fun t => { t with state := TASK_RUNNING }))
      (k'.setTask p fun t => { t with state := TASK_RUNNING }) := by
  refine (calm.checked checked).still rfl fun e _ up => ?_
  by_cases same : e = p
  · subst same
    simp [Runnable]
  · rw [Runnable,k'.setTask_other _ same]
    exact (checked.runnable e).mpr (up.resolve_left same)

theorem Calm.wake (calm : Calm (Runnable k) k) (calls : WakeupCalls env)
    (done : wakeUpProcess env (fun k p => calls.ttwuRemote k p now) (fun k p => calls.ttwuQueue k p clock now) k p
      = .ok k') : Calm (Runnable k') k' := by
  have waking : Calm (fun e => e = p ∨ Runnable k e) k := calm.mono fun e _ up => .inr up
  unfold wakeUpProcess at done
  split at done
  · cases done
    exact calm
  dsimp only at done
  cases on : (k.sched.entity p).onRq with
  | true =>
    rw [calls.ttwuRemote_on k p now on] at done
    simp only [bind,Except.bind] at done
    cases checks : calls.checkPreemptCurr k p false now with
    | error => simp [checks] at done
    | ok k₁ =>
      simp only [checks,if_true,Except.ok.injEq] at done
      subst done
      exact waking.check_setState (calls.checked checks)
  | false =>
    rw [calls.ttwuRemote_off k p now on] at done
    obtain ⟨flags,queues⟩ := calls.ttwuQueue_eq k p clock now
    simp only [bind,Except.bind,queues,Bool.false_eq_true,if_false] at done
    cases activates : activateTask env flat k p flags clock with
    | error => simp [activates] at done
    | ok k₁ =>
      obtain ⟨active,task⟩ := waking.activate (.inl rfl) activates
      cases checks : calls.checkPreemptCurr k₁ p false now with
      | error => simp [activates,checks] at done
      | ok k₂ =>
        simp only [activates,checks,Except.ok.injEq] at done
        subst done
        refine (active.mono fun e _ up => ?_).check_setState (calls.checked checks)
        exact up.imp_right fun up => by rwa [Runnable,task]

theorem Calm.deactivate (clears : Cfs.Clears env.cfs) (calm : Calm (Runnable k) k)
    (place : k.sched.curr = some p ∨ p ∈ k.sched.shape.timeline)
    (done : deactivateTask env flat k p sleep clock = .ok k') : Calm (Runnable k') k' := by
  unfold deactivateTask dequeueTask at done
  split at done
  · cases done
  · cases done
    have dequeued := Cfs.dequeued_dequeueTaskFair env.cfs k.sched clears p sleep clock
    refine ⟨calm.settled.dequeued (fun apart => place.resolve_left fun runs => ?_) dequeued,
      dequeued.nullDeref.trans calm.nullDeref⟩
    exact apart (calm.settled.running p runs)
  · cases done
    exact calm

/-- What a settled caller of `schedule` gives way to, or goes on as, is runnable. -/
theorem Calm.schedule (clears : Cfs.Clears env.cfs) (calm : Calm (Runnable k) k) (settles : Settles k)
    (scheduled : Scheduled env flat k clock k') :
    Calm (Runnable k') k' ∧ ∀ p, k'.sched.curr = some p → Runnable k' p := by
  have runs {p : Nat} (prev : fairPrev k = some p) : k.sched.curr = some p := (Option.filter_eq_some_iff.mp prev).1
  have pickable : k.sched.shape.Pickable (Runnable k) (fairPrev k) :=
    { lists := calm.settled.lists
      own := fun p prev on => ⟨calm.settled.running p (runs prev),settles.caller p (runs prev) on⟩
      hinted := settles.hints }
  have answers := Cfs.pickNextTask_answers clears pickable flat clock
  have same (p : Nat) : Runnable k' p ↔ Runnable k p := by rw [Runnable,scheduled.state,Runnable]
  have shape : k'.sched.shape =
      { (Cfs.pickNextTask env.cfs flat k.sched (fairPrev k) clock).2.shape with
        running := (Cfs.pickNextTask env.cfs flat k.sched (fairPrev k) clock).1 } := by
    rw [scheduled.sched]
    rfl
  refine ⟨⟨?_,?_⟩,fun p chosen => ?_⟩
  · rw [shape]
    exact answers.settled.congr fun e _ up => (same e).mpr up
  · exact (congrArg Shape.nullDeref shape).trans (answers.nullDeref.trans calm.nullDeref)
  · exact (same p).mpr (answers.chosen p ((congrArg Shape.running shape).symm.trans chosen)).2

variable {calls : WakeupCalls env}

theorem KernelStep.calm (clears : Cfs.Clears env.cfs) (calm : Calm (Runnable k) k) (settled : call.Settled k)
    (step : KernelStep env calls k call k') : Calm (Runnable k') k' := by
  cases step with
  | setState runs =>
    refine calm.setState _ (.inl fun member => ?_)
    exact (calm.settled.lists.listed _ member).1.2 (calm.settled.running _ runs)
  | dup fresh _ => exact calm.dup fresh (dupTaskStruct_copied ..)
  | fork done => exact calm.fork (schedFork_forked done)
  | wakeNew done => exact calm.wakeNew calls done
  | wake done => exact calm.wake calls done
  | deactivate _ done => exact calm.deactivate clears settled done
  | yield done =>
    have checked := yieldTaskFair_checked done
    exact (calm.checked checked).mono fun e _ up => (checked.runnable e).mpr up
  | schedule scheduled => exact (calm.schedule clears settled scheduled).1
  | elsewhere still =>
    refine calm.still (congrArg Sched.shape still.sched) fun e _ up => ?_
    rwa [Runnable,still.state]

/-- When all callers of `schedule` are settled, no hint they leave names a lost task and none is
deactivated, the task it switches to or stays on is runnable. -/
theorem scheduled_task_runnable (clears : Cfs.Clears env.cfs)
    (run : Run NothingQueued (KernelStep env calls) past k) (settled : Throughout KernelCall.Settled past)
    (settles : Settles k) (scheduled : Scheduled env flat k clock k') :
    k'.sched.nullDeref = false ∧ ∀ p, k'.sched.curr = some p → (k'.task p).state = TASK_RUNNING := by
  have calm : Calm (Runnable k) k :=
    (run.always_of (P := fun k => Calm (Runnable k) k) (fun k start => ⟨start.settled _,start.nullDeref⟩)
      (fun _ _ _ calm settled step => step.calm clears calm settled) settled).2
  obtain ⟨next,chosen⟩ := calm.schedule clears settles scheduled
  exact ⟨next.nullDeref,chosen⟩

end Run

/-- The functions as they are documented; `ttwu_queue` activates with `ENQUEUE_WAKEUP` and
`ENQUEUE_WAKING`. -/
def wakeupCalls : WakeupCalls hintPlatform :=
  let check (k : Kernel) (p : Nat) (fork : Bool) (now : U64) : Except NullDeref Kernel :=
    if k.sched.curr = none then .ok k else checkPreemptWakeup hintPlatform flat k p fork now
  { checkPreemptCurr := check
    checkPreemptCurr_cases := fun k p fork now k' done => by
      by_cases idle : k.sched.curr = none
      · simp only [check,idle,if_true,Except.ok.injEq] at done
        exact .inr (.inl done.symm)
      · simp only [check,idle,if_false] at done
        exact .inl done
    ttwuRemote := fun k p now =>
      if (k.sched.entity p).onRq then do
        let k ← check k p false now
        .ok (true, k.setTask p fun t => { t with state := TASK_RUNNING })
      else .ok (false, k)
    ttwuRemote_on := fun k p now on => by simp only [on,if_true]
    ttwuRemote_off := fun k p now off => by simp only [off,Bool.false_eq_true,if_false]
    ttwuQueue := fun k p clock now => do
      let k ← activateTask hintPlatform flat k p ⟨true, true⟩ clock
      let k ← check k p false now
      .ok (k.setTask p fun t => { t with state := TASK_RUNNING })
    ttwuQueue_eq := fun k p clock now => ⟨⟨true, true⟩,rfl⟩ }

def fairKernel : Kernel := schedInit (fun _ => { zeroTask with schedClass := some .fair }) fun _ => 0

def wokenNew (k : Kernel) (p : Nat) : Kernel :=
  (wakeUpNewTaskWith hintPlatform flat (fun k p fork => wakeupCalls.checkPreemptCurr k p fork 0) k p
    fun _ => 0).toOption.getD k

def goesOn (k : Kernel) : Kernel :=
  let (next, s) := Cfs.pickNextTask hintPlatform.cfs flat k.sched (fairPrev k) fun _ => 0
  { k with sched := { s with curr := next } }

theorem goesOn_scheduled (k : Kernel) : Scheduled hintPlatform flat k (fun _ => 0) (goesOn k) := ⟨rfl,fun _ => rfl⟩

def twoNew : Kernel := wokenNew (wokenNew fairKernel 0) 1

/-- The first one runs and is about to sleep. -/
def sleepyKernel : Kernel := (goesOn twoNew).setTask 0 fun t => { t with state := TASK_INTERRUPTIBLE }

/-- It leaves the queue, and the second one runs. -/
def leftKernel : Kernel :=
  (deactivateTask hintPlatform flat sleepyKernel 0 true fun _ => 0).toOption.getD sleepyKernel

def asleepKernel : Kernel := goesOn leftKernel

/-- The first one is woken and named by a hint. -/
def wokenBack : Kernel :=
  (wakeUpProcess hintPlatform (fun k p => wakeupCalls.ttwuRemote k p 5)
    (fun k p => wakeupCalls.ttwuQueue k p (fun _ => 5) 5) asleepKernel 0).toOption.getD asleepKernel

theorem settles_of_no_hints {k : Kernel} (buddies : k.sched.buddies root = ⟨none,none,none⟩)
    (caller : ∀ p, k.sched.curr = some p → (k.sched.entity p).onRq = true → (k.task p).state = TASK_RUNNING) :
    Settles k := by
  refine ⟨caller,fun e suggested => ?_⟩
  rw [buddies] at suggested
  rcases suggested with next | last <;> contradiction

theorem sleepyKernel_run : ∃ past, Run NothingQueued (KernelStep hintPlatform wakeupCalls) past sleepyKernel ∧
    Throughout KernelCall.Settled past := by
  have first : KernelStep hintPlatform wakeupCalls fairKernel (.wakeUpNewTask 0 (fun _ => 0) 0)
      (wokenNew fairKernel 0) := .wakeNew rfl
  have second : KernelStep hintPlatform wakeupCalls (wokenNew fairKernel 0) (.wakeUpNewTask 1 (fun _ => 0) 0)
      twoNew := .wakeNew rfl
  have sleeps : KernelStep hintPlatform wakeupCalls (goesOn twoNew) (.setState TASK_INTERRUPTIBLE) sleepyKernel :=
    .setState (show (goesOn twoNew).sched.curr = some 0 from rfl)
  have start : NothingQueued fairKernel := ⟨fun _ => rfl,rfl,rfl,rfl,rfl,rfl,rfl,rfl⟩
  have run := (((Run.start start).next first).next second).next (.schedule (goesOn_scheduled twoNew))
  refine ⟨_,run.next sleeps,?_⟩
  simp only [Throughout.append]
  exact ⟨⟨⟨⟨by simp [Throughout],trivial⟩,trivial⟩,settles_of_no_hints rfl fun p runs => by contradiction⟩,trivial⟩

/-- The woken task runs next, and is runnable. -/
theorem scheduled_task_runnable_woken : wokenBack.sched.buddies root = ⟨some 0,none,none⟩ ∧
    (goesOn wokenBack).sched.curr = some 0 ∧ (goesOn wokenBack).sched.nullDeref = false ∧
    ∀ p, (goesOn wokenBack).sched.curr = some p → ((goesOn wokenBack).task p).state = TASK_RUNNING := by
  obtain ⟨past,run,settled⟩ := sleepyKernel_run
  have leaves : KernelStep hintPlatform wakeupCalls sleepyKernel (.deactivateTask 0 true fun _ => 0) leftKernel :=
    .deactivate rfl rfl
  have wakes : KernelStep hintPlatform wakeupCalls asleepKernel (.wakeUpProcess 0 (fun _ => 5) 5) wokenBack :=
    .wake rfl
  have gone : Settles leftKernel := settles_of_no_hints rfl fun p runs on => by
    obtain rfl : 0 = p := Option.some.inj runs
    exact absurd on (by decide)
  have hinted : Settles wokenBack := by
    refine ⟨fun p runs _ => ?_,fun e suggested => .inl ?_⟩
    · obtain rfl : 1 = p := Option.some.inj runs
      rfl
    · rcases suggested with next | last
      · obtain rfl : 0 = e := Option.some.inj next
        exact List.mem_singleton.mpr rfl
      · contradiction
  refine ⟨rfl,rfl,scheduled_task_runnable hintPlatform_helpers.clear
    (((run.next leaves).next (.schedule (goesOn_scheduled leftKernel))).next wakes) ?_ hinted
    (goesOn_scheduled wokenBack)⟩
  simp only [Throughout.append]
  exact ⟨⟨⟨settled,.inl rfl⟩,gone⟩,trivial⟩

/-- The task calls `schedule` while it is queued and runs on in its sleep. -/
theorem sleeping_task_runs_on :
    (∃ past, Run NothingQueued (KernelStep hintPlatform wakeupCalls) past sleepyKernel) ∧
    ¬∀ clock k', Scheduled hintPlatform flat sleepyKernel clock k' →
      ∀ p, k'.sched.curr = some p → (k'.task p).state = TASK_RUNNING := by
  obtain ⟨past,run,_⟩ := sleepyKernel_run
  refine ⟨⟨past,run⟩,fun runnable => ?_⟩
  have awake := runnable _ _ (goesOn_scheduled sleepyKernel) 0 rfl
  exact absurd awake (by decide)

end Kernal.Task
