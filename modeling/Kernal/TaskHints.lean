import Kernal.CfsPlaces
import Kernal.Runs
import Kernal.Task

/-! Who sets the hints of a queue. A wakeup and a yield set them to entities that are queued,
so a hint never outlives its entity's stay on the queue. -/
namespace Kernal.Task

open Cfs (Buddies Sched Shape Hierarchy EnqueueFlags U64 SCHED_NORMAL root flat)
open Runs

/-- What the helpers do on a flat queue: each of the setters stores the entity in its field,
`clear_buddies` nulls the fields that are the entity, and `find_matching_se` leaves two
entities of one queue as they are. -/
structure HintHelpers (env : Platform) : Prop where
  next : ∀ buddies e, env.cfs.setNextBuddy buddies e root = { buddies root with next := some e }
  last : ∀ buddies e, env.setLastBuddy buddies e root = { buddies root with last := some e }
  skip : ∀ buddies e, env.setSkipBuddy buddies e root = { buddies root with skip := some e }
  clear : Cfs.Clears env.cfs
  matching : ∀ se pse, env.findMatchingSe se pse = (se,pse)

/-- Nothing but the hints of the queue has changed, and those that did are `new`. -/
def Rehinted (new : Nat → Prop) (m m' : Shape) : Prop :=
  ∃ buddies, m' = { m with buddies } ∧ ∀ e, buddies.Names e → m.buddies.Names e ∨ new e

section Rehinted

variable {new : Nat → Prop} {m m' m'' : Shape}

theorem Rehinted.refl (new : Nat → Prop) (m : Shape) : Rehinted new m m := ⟨m.buddies,rfl,fun _ => .inl⟩

theorem Rehinted.trans (one : Rehinted new m m') (two : Rehinted new m' m'') : Rehinted new m m'' := by
  obtain ⟨b,rfl,named⟩ := one
  obtain ⟨b',rfl,named'⟩ := two
  exact ⟨b',rfl,fun e hint => (named' e hint).elim (named e) .inr⟩

theorem Rehinted.queued (hinted : Rehinted new m m') (queued : m.HintsQueued)
    (on : ∀ e, new e → m.onRq e = true) : m'.HintsQueued := by
  obtain ⟨b,rfl,named⟩ := hinted
  exact fun e hint => (named e hint).elim (queued e) (on e)

theorem Rehinted.located (hinted : Rehinted new m m') (located : m.Located) : m'.Located := by
  obtain ⟨b,rfl,_⟩ := hinted
  exact ⟨⟨located.lists.same ⟨rfl,rfl⟩,located.running⟩,located.placed,located.owner,located.count⟩

theorem Rehinted.nullDeref (hinted : Rehinted new m m') : m'.nullDeref = m.nullDeref := by
  obtain ⟨b,rfl,_⟩ := hinted
  rfl

end Rehinted

section Hint

variable {env : Platform} (helpers : HintHelpers env) {new : Nat → Prop}
include helpers

theorem rehinted_next (k : Kernel) (here : new e) :
    Rehinted new k.sched.shape (k.setBuddies (env.cfs.setNextBuddy k.sched.buddies e)).sched.shape := by
  refine ⟨{ k.sched.buddies root with next := some e },?_,?_⟩
  · simp only [Kernel.setBuddies,Sched.shape,helpers.next]
  · rintro x (next | last | skip)
    · exact .inr (Option.some.inj next ▸ here)
    · exact .inl (.inr (.inl last))
    · exact .inl (.inr (.inr skip))

theorem rehinted_preempt (k : Kernel) (curr : Nat) (here : new e) (scale : Bool) :
    Rehinted new k.sched.shape (preempt env flat k curr e scale).sched.shape := by
  unfold preempt
  dsimp only
  split
  · refine ⟨{ k.sched.buddies root with last := some e },?_,?_⟩
    · simp only [Kernel.setTask,Kernel.setBuddies,Sched.shape,helpers.last]
    · rintro x (next | last | skip)
      · exact .inl (.inl next)
      · exact .inr (Option.some.inj last ▸ here)
      · exact .inl (.inr (.inr skip))
  · exact Rehinted.refl new _

theorem rehinted_checkPreemptWakeup {k k' : Kernel} (running : k.sched.curr = some curr)
    (done : checkPreemptWakeup env flat k p fork now = .ok k') :
    Rehinted (fun e => e = p ∨ e = curr) k.sched.shape k'.sched.shape := by
  unfold checkPreemptWakeup at done
  simp only [running,helpers.matching] at done
  generalize decide (env.schedNrLatency ≤ (k.sched.cfs (flat.cfsRqOf curr)).nrRunning) = scale at done
  generalize (env.featNextBuddy && scale && !fork) = marked at done
  generalize marks : (if marked = true then k.setBuddies (env.cfs.setNextBuddy k.sched.buddies p) else k) = k₁
    at done
  have first : Rehinted (fun e => e = p ∨ e = curr) k.sched.shape k₁.sched.shape := by
    rw [← marks]
    split
    · exact rehinted_next helpers k (.inl rfl)
    · exact Rehinted.refl _ _
  split at done
  · cases done
    exact Rehinted.refl _ _
  split at done
  · cases done
    exact Rehinted.refl _ _
  split at done
  · cases done
    exact first
  split at done
  · cases done
    exact first.trans (rehinted_preempt helpers k₁ curr (.inr rfl) scale)
  split at done
  · cases done
    exact first
  have charged := Cfs.shape_updateCurr env.cfs k₁.sched now
  change (Cfs.updateCurr env.cfs k₁.sched (flat.cfsRqOf curr) now).shape = _ at charged
  generalize Cfs.updateCurr env.cfs k₁.sched (flat.cfsRqOf curr) now = s at done charged
  rw [← charged] at first
  split at done
  · cases done
    refine first.trans (Rehinted.trans ?_ (rehinted_preempt helpers _ curr (.inr rfl) scale))
    split
    · exact Rehinted.refl _ _
    · exact rehinted_next helpers { k₁ with sched := s } (.inl rfl)
  · cases done
    exact first

/-- A yield forgets the hints that name the task and asks to skip it. -/
theorem shape_yieldTaskFair {k k' : Kernel} (running : k.sched.curr = some curr)
    (busy : k.sched.nrRunning ≠ 1) (done : yieldTaskFair env flat k now = .ok k') :
    k'.sched.shape = { k.sched.shape with
      buddies := { k.sched.shape.buddies.clear (some curr) with skip := some curr } } := by
  unfold yieldTaskFair at done
  simp only [running,busy,if_false] at done
  have cleared : (Cfs.clearBuddies env.cfs k.sched (flat.cfsRqOf curr) (some curr)).shape =
      { k.sched.shape with buddies := k.sched.shape.buddies.clear (some curr) } :=
    Cfs.shape_clears helpers.clear _
  generalize Cfs.clearBuddies env.cfs k.sched (flat.cfsRqOf curr) (some curr) = s at done cleared
  generalize charges : (if (k.task curr).policy ≠ env.schedBatch then
    Cfs.updateCurr env.cfs s (flat.cfsRqOf curr) now else s) = s₁ at done
  have charged : s₁.shape = s.shape := by
    rw [← charges]
    exact Cfs.shape_ite _ (Cfs.shape_updateCurr env.cfs s now) rfl
  cases done
  have same := charged.trans cleared
  simp only [Sched.shape,Shape.mk.injEq] at same ⊢
  simp [same,helpers.skip]

theorem rehinted_yieldTaskFair {k k' : Kernel} (running : k.sched.curr = some curr)
    (done : yieldTaskFair env flat k now = .ok k') :
    Rehinted (fun e => e = curr) k.sched.shape k'.sched.shape := by
  by_cases alone : k.sched.nrRunning = 1
  · simp only [yieldTaskFair,running,alone,if_true] at done
    cases done
    exact Rehinted.refl _ _
  refine ⟨_,shape_yieldTaskFair helpers running alone done,?_⟩
  rintro x (next | last | skip)
  · exact .inl (Buddies.clear_names (.inl next)).1
  · exact .inl (Buddies.clear_names (.inr (.inl last))).1
  · exact .inr (Option.some.inj skip).symm

end Hint

inductive HintCall where
  | enqueueTaskFair (p : Nat) (flags : EnqueueFlags) (clock : Nat → U64)
  | dequeueTaskFair (p : Nat) (sleep : Bool) (clock : Nat → U64)
  | checkPreemptWakeup (p : Nat) (fork : Bool) (now : U64)
  | yieldTaskFair (now : U64)
  | pickNextTaskFair (prev : Option Nat) (clock : Nat → U64)
  | elsewhere

/-- `schedule` makes what `pick_next_task_fair` answers the running task; `prev` is the task
that ran, or none where that one is not of the fair class. Between the calls anything may
happen to the tasks as long as it leaves the queue alone. -/
inductive HintStep (env : Platform) : Kernel → HintCall → Kernel → Prop where
  | enqueue : (k.sched.entity p).onRq = false → HintStep env k (.enqueueTaskFair p flags clock)
      { k with sched := Cfs.enqueueTaskFair env.cfs flat k.sched p flags clock }
  | dequeue : (k.sched.entity p).onRq = true → HintStep env k (.dequeueTaskFair p sleep clock)
      { k with sched := Cfs.dequeueTaskFair env.cfs flat k.sched p sleep clock }
  | checkPreempt : k.sched.curr = some curr → (k.sched.entity curr).onRq = true →
      (k.sched.entity p).onRq = true → checkPreemptWakeup env flat k p fork now = .ok k' →
      HintStep env k (.checkPreemptWakeup p fork now) k'
  | yield : k.sched.curr = some curr → (k.sched.entity curr).onRq = true →
      yieldTaskFair env flat k now = .ok k' → HintStep env k (.yieldTaskFair now) k'
  | pick : prev = none ∨ prev = k.sched.curr → HintStep env k (.pickNextTaskFair prev clock)
      { k with sched :=
        { (Cfs.pickNextTaskFair env.cfs flat k.sched prev clock).2 with
          curr := (Cfs.pickNextTaskFair env.cfs flat k.sched prev clock).1 } }
  | elsewhere : k'.sched = k.sched → HintStep env k .elsewhere k'

/-- The task that ran is put back by the pick that follows, and a task that is queued while
`cfs_rq->curr` is still its entity is the one that runs. -/
def HintCall.Orderly (k : Kernel) : HintCall → Prop
  | .enqueueTaskFair p _ _ => (k.sched.cfs root).curr = some p → k.sched.curr = some p
  | .pickNextTaskFair prev _ => prev = k.sched.curr
  | _ => True

structure NothingQueued (k : Kernel) : Prop where
  onRq : ∀ e, (k.sched.entity e).onRq = false
  nrRunning : (k.sched.cfs root).nrRunning = 0
  tasksTimeline : (k.sched.cfs root).tasksTimeline = .nil
  rbLeftmost : (k.sched.cfs root).rbLeftmost = none
  cfsCurr : (k.sched.cfs root).curr = none
  buddies : k.sched.buddies root = ⟨none,none,none⟩
  curr : k.sched.curr = none
  nullDeref : k.sched.nullDeref = false

theorem NothingQueued.hints (start : NothingQueued k) : k.sched.shape.HintsQueued := by
  intro e named
  rw [show k.sched.shape.buddies = _ from start.buddies] at named
  simp [Buddies.Names] at named

theorem NothingQueued.settled (start : NothingQueued k) (awake : Nat → Prop) :
    k.sched.shape.Settled awake := by
  have empty : k.sched.shape.timeline = [] := by
    simp [Sched.shape,start.tasksTimeline,SearchTree.inorder]
  refine ⟨⟨by simp [empty],?_,fun e member => ?_⟩,fun e running => ?_⟩
  · rw [empty]
    exact start.rbLeftmost
  · simp [empty] at member
  · rw [show k.sched.shape.running = _ from start.curr] at running
    contradiction

theorem NothingQueued.located (start : NothingQueued k) : k.sched.shape.Located := by
  refine ⟨start.settled _,fun e on => ?_,fun e here => ?_,?_⟩
  · rw [show k.sched.shape.onRq e = _ from start.onRq e] at on
    contradiction
  · rw [show k.sched.shape.current = _ from start.cfsCurr] at here
    contradiction
  · simp [Sched.shape,Shape.currentCount,start.nrRunning,start.tasksTimeline,start.cfsCurr,SearchTree.inorder]

section Step

variable {env : Platform} (helpers : HintHelpers env)
include helpers

theorem HintStep.hints (queued : k.sched.shape.HintsQueued) (step : HintStep env k call k') :
    k'.sched.shape.HintsQueued := by
  cases step with
  | enqueue off => exact queued.enqueued (Cfs.enqueued_enqueueTaskFair env.cfs k.sched off _ _)
  | dequeue on => exact queued.dequeued (Cfs.dequeued_dequeueTaskFair env.cfs k.sched helpers.clear _ _ _)
  | checkPreempt running on onP done =>
    apply (rehinted_checkPreemptWakeup helpers running done).queued queued
    rintro e (rfl | rfl)
    · exact onP
    · exact on
  | yield running on done =>
    apply (rehinted_yieldTaskFair helpers running done).queued queued
    rintro e rfl
    exact on
  | pick own => exact queued.picks (Cfs.picks_pickNextTaskFair env.cfs k.sched helpers.clear flat _ _)
  | elsewhere same => rwa [same]

theorem HintStep.located (queued : k.sched.shape.HintsQueued) (located : k.sched.shape.Located)
    (orderly : call.Orderly k) (step : HintStep env k call k') : k'.sched.shape.Located := by
  cases step with
  | enqueue off => exact located.enqueued off orderly (Cfs.enqueued_enqueueTaskFair env.cfs k.sched off _ _)
  | dequeue on => exact located.dequeued on (Cfs.dequeued_dequeueTaskFair env.cfs k.sched helpers.clear _ _ _)
  | checkPreempt running on onP done => exact (rehinted_checkPreemptWakeup helpers running done).located located
  | yield running on done => exact (rehinted_yieldTaskFair helpers running done).located located
  | pick own =>
    cases orderly
    exact located.picks queued (Cfs.picks_pickNextTaskFair env.cfs k.sched helpers.clear flat _ _)
  | elsewhere same => rwa [same]

/-- An orderly call follows no null pointer. -/
theorem HintStep.nullDeref (queued : k.sched.shape.HintsQueued) (located : k.sched.shape.Located)
    (orderly : call.Orderly k) (step : HintStep env k call k') : k'.sched.nullDeref = k.sched.nullDeref := by
  cases step with
  | enqueue off => exact (Cfs.enqueued_enqueueTaskFair env.cfs k.sched off _ _).nullDeref
  | dequeue on => exact (Cfs.dequeued_dequeueTaskFair env.cfs k.sched helpers.clear _ _ _).nullDeref
  | checkPreempt running on onP done => exact (rehinted_checkPreemptWakeup helpers running done).nullDeref
  | yield running on done => exact (rehinted_yieldTaskFair helpers running done).nullDeref
  | pick own =>
    cases orderly
    have picks := Cfs.picks_pickNextTaskFair env.cfs k.sched helpers.clear flat k.sched.curr
    exact ((located.pickable queued).picks (picks _)).nullDeref
  | elsewhere same => rw [same]

structure InPlace (k : Kernel) : Prop where
  hints : k.sched.shape.HintsQueued
  located : k.sched.shape.Located
  nullDeref : k.sched.nullDeref = false

theorem inPlace_of_run (run : Run NothingQueued (HintStep env) past k)
    (orderly : Throughout HintCall.Orderly past) : InPlace k := by
  refine (run.always_of (P := InPlace) (fun _ start => ⟨start.hints,start.located,start.nullDeref⟩) ?_ orderly).2
  intro k call k' before allowed step
  exact ⟨HintStep.hints helpers before.hints step,HintStep.located helpers before.hints before.located allowed step,
    (HintStep.nullDeref helpers before.hints before.located allowed step).trans before.nullDeref⟩

end Step

/-- A pick with the task that runs as the previous one follows no null pointer and answers with
null or a queued entity. -/
def PicksQueued (env : Platform) (k : Kernel) : Prop :=
  ∀ clock, let result := Cfs.pickNextTaskFair env.cfs flat k.sched k.sched.curr clock
    result.2.nullDeref = false ∧ ∀ e, result.1 = some e → (k.sched.entity e).onRq = true

/-- In every state of a run each hint is null or queued. In the runs whose calls are all orderly
`pick_next_entity` answers with null or a queued entity, and so does `pick_next_task_fair`. -/
theorem hints_queued {env : Platform} (helpers : HintHelpers env)
    (run : Run NothingQueued (HintStep env) past k) :
    (∀ e, (k.sched.buddies root).Names e → (k.sched.entity e).onRq = true) ∧
    (Throughout HintCall.Orderly past →
      (∀ curr, (∀ c, curr = some c → (k.sched.entity c).onRq = true) →
        ∀ e, (Cfs.pickNextEntity env.cfs k.sched root curr).1 = some e → (k.sched.entity e).onRq = true) ∧
      PicksQueued env k) := by
  have hints : k.sched.shape.HintsQueued :=
    run.invariant (I := fun k => k.sched.shape.HintsQueued) (fun _ => NothingQueued.hints)
      fun _ _ _ => HintStep.hints helpers
  refine ⟨hints,fun orderly => ?_⟩
  obtain ⟨_,located,nullDeref⟩ := inPlace_of_run helpers run orderly
  refine ⟨fun curr on e chosen => ?_,fun clock => ?_⟩
  · rcases Cfs.pickNextEntity_choice env.cfs chosen with listed | current | suggested
    · exact (located.lists.listed e (located.lists.found listed)).1.1
    · exact on e current
    · exact hints e suggested.names
  · have answers := (located.pickable hints).picks
      (Cfs.picks_pickNextTaskFair env.cfs k.sched helpers.clear flat k.sched.curr clock)
    exact ⟨answers.nullDeref.trans nullDeref,fun e selected => (answers.chosen e selected).1⟩

/-- All features are on and the setters do what their names say. -/
def hintPlatform : Platform :=
  { basePlatform with
    cfs := { Cfs.basePlatform with
      setNextBuddy := fun buddies e => Function.update buddies root { buddies root with next := some e } }
    schedNrLatency := 2
    featNextBuddy := true
    featLastBuddy := true
    setLastBuddy := fun buddies e => Function.update buddies root { buddies root with last := some e }
    setSkipBuddy := fun buddies e => Function.update buddies root { buddies root with skip := some e } }

theorem hintPlatform_helpers : HintHelpers hintPlatform := by
  constructor
  case matching => exact fun _ _ => rfl
  all_goals
    intro buddies e
    simp [hintPlatform,Cfs.basePlatform,Buddies.clear]

def queued (k : Kernel) (p : Nat) : Kernel :=
  { k with sched := Cfs.enqueueTaskFair hintPlatform.cfs flat k.sched p ⟨false, false⟩ fun _ => 0 }

def dequeued (k : Kernel) (p : Nat) : Kernel :=
  { k with sched := Cfs.dequeueTaskFair hintPlatform.cfs flat k.sched p true fun _ => 0 }

def pickedNext (k : Kernel) : Kernel :=
  let (next, s) := Cfs.pickNextTaskFair hintPlatform.cfs flat k.sched k.sched.curr fun _ => 0
  { k with sched := { s with curr := next } }

def woken (k : Kernel) (p : Nat) (now : U64) : Kernel :=
  (checkPreemptWakeup hintPlatform flat k p false now).toOption.getD k

def firstRuns : Kernel := pickedNext (queued (queued bootKernel 1) 2)

def wokenAgain : Kernel := woken firstRuns 2 5

def firstYields : Kernel := (yieldTaskFair hintPlatform flat wokenAgain 7).toOption.getD wokenAgain

theorem bootKernel_nothingQueued : NothingQueued bootKernel := ⟨fun _ => rfl,rfl,rfl,rfl,rfl,rfl,rfl,rfl⟩

theorem firstYields_run :
    ∃ past, Run NothingQueued (HintStep hintPlatform) past firstYields ∧ Throughout HintCall.Orderly past := by
  have first : HintStep hintPlatform bootKernel (.enqueueTaskFair 1 ⟨false,false⟩ fun _ => 0)
      (queued bootKernel 1) := .enqueue rfl
  have second : HintStep hintPlatform (queued bootKernel 1) (.enqueueTaskFair 2 ⟨false,false⟩ fun _ => 0)
      (queued (queued bootKernel 1) 2) := .enqueue rfl
  have runs : HintStep hintPlatform (queued (queued bootKernel 1) 2) (.pickNextTaskFair none fun _ => 0)
      firstRuns := .pick (.inl rfl)
  have again : HintStep hintPlatform firstRuns (.checkPreemptWakeup 2 false 5) wokenAgain :=
    .checkPreempt (show firstRuns.sched.curr = some 1 from rfl) rfl rfl rfl
  have yielded : HintStep hintPlatform wokenAgain (.yieldTaskFair 7) firstYields :=
    .yield (show wokenAgain.sched.curr = some 1 from rfl) rfl rfl
  refine ⟨_,(((((Run.start bootKernel_nothingQueued).next first).next second).next runs).next again).next yielded,?_⟩
  simp only [Throughout.append]
  refine ⟨⟨⟨⟨⟨by simp [Throughout],?_⟩,?_⟩,rfl⟩,trivial⟩,trivial⟩
  · intro here
    contradiction
  · intro here
    contradiction

/-- Both tasks are named by hints, both are queued, and one of them runs next. -/
theorem hints_queued_yield : firstYields.sched.buddies root = ⟨some 2,none,some 1⟩ ∧
    (firstYields.sched.entity 1).onRq = true ∧ (firstYields.sched.entity 2).onRq = true ∧
    PicksQueued hintPlatform firstYields := by
  obtain ⟨past,run,orderly⟩ := firstYields_run
  obtain ⟨hints,picks⟩ := hints_queued hintPlatform_helpers run
  have named : firstYields.sched.buddies root = ⟨some 2,none,some 1⟩ := rfl
  refine ⟨named,?_,?_,(picks orderly).2⟩
  · exact hints 1 (by simp [named,Buddies.Names])
  · exact hints 2 (by simp [named,Buddies.Names])

/-- Task 1 runs alone, goes to sleep and is queued again while `cfs_rq->curr` is still its
entity. -/
def lostAgain : Kernel := queued (pickedNext (dequeued (pickedNext (queued bootKernel 1)) 1)) 1

/-- Task 2 runs when task 1 is woken, and goes to sleep. -/
def lostHinted : Kernel := dequeued (woken (pickedNext (queued lostAgain 2)) 1 5) 2

theorem lostHinted_run : ∃ past, Run NothingQueued (HintStep hintPlatform) past lostHinted := by
  have enqueues {k : Kernel} (p : Nat) (off : (k.sched.entity p).onRq = false) :
      HintStep hintPlatform k (.enqueueTaskFair p ⟨false,false⟩ fun _ => 0) (queued k p) := .enqueue off
  have dequeues {k : Kernel} (p : Nat) (on : (k.sched.entity p).onRq = true) :
      HintStep hintPlatform k (.dequeueTaskFair p true fun _ => 0) (dequeued k p) := .dequeue on
  have picks (k : Kernel) : HintStep hintPlatform k (.pickNextTaskFair k.sched.curr fun _ => 0) (pickedNext k) :=
    .pick (.inr rfl)
  have wakes : HintStep hintPlatform (pickedNext (queued lostAgain 2)) (.checkPreemptWakeup 1 false 5)
      (woken (pickedNext (queued lostAgain 2)) 1 5) :=
    .checkPreempt (show (pickedNext (queued lostAgain 2)).sched.curr = some 2 from rfl) rfl rfl rfl
  have alone := ((Run.start bootKernel_nothingQueued).next (enqueues 1 rfl)).next (picks _)
  have lost := ((alone.next (dequeues 1 rfl)).next (picks _)).next (enqueues 1 rfl)
  exact ⟨_,(((lost.next (enqueues 2 rfl)).next (picks _)).next wakes).next (dequeues 2 rfl)⟩

/-- The hint names a queued task that is in no tree. The pick that follows compares it with the
first entity of the empty tree. -/
theorem lost_task_hinted : (∃ past, Run NothingQueued (HintStep hintPlatform) past lostHinted) ∧
    lostHinted.sched.buddies root = ⟨some 1,none,none⟩ ∧ (lostHinted.sched.entity 1).onRq = true ∧
    (lostHinted.sched.cfs root).rbLeftmost = none ∧ lostHinted.sched.curr = some 2 ∧
    ¬PicksQueued hintPlatform lostHinted := by
  refine ⟨lostHinted_run,rfl,rfl,rfl,rfl,fun picks => ?_⟩
  have follows : (Cfs.pickNextTaskFair hintPlatform.cfs flat lostHinted.sched lostHinted.sched.curr
    fun _ => 0).2.nullDeref = true := rfl
  exact absurd (follows.symm.trans (picks _).1) (by decide)

end Kernal.Task
