import Kernal.CfsOrder

/-! Whether the entity that is furthest behind runs next, over whole runs: it does while
all keys are exact, and a task of low weight loses that within 33 milliseconds. -/
namespace Kernal.Cfs

open SearchTree Wraparound Runs

section Run

variable (env : Platform)

/-- What happens to the queue between two states. Only an entity that is in the tree or
current can be dequeued, and only the current one is put back. -/
inductive FairStep (s : Sched) : Sched → Prop where
  | enqueue (p : Nat) (flags : EnqueueFlags) (clock : Nat → U64) : (s.entity p).onRq = false →
      FairStep s (enqueueTaskFair env flat s p flags clock)
  | dequeue (p : Nat) (sleep : Bool) (clock : Nat → U64) : (s.entity p).onRq = true →
      p ∈ inorder (s.cfs root).tasksTimeline ∨ (s.cfs root).curr = some p →
      FairStep s (dequeueTaskFair env flat s p sleep clock)
  | put (p : Nat) (now : U64) : (s.cfs root).curr = some p → FairStep s (putPrevEntity env s root p now)
  | pick (prev : Option Nat) (clock : Nat → U64) : PrevCurrent s prev →
      FairStep s (pickNextTaskFair env flat s prev clock).2

/-- Runs from an empty queue through states that are all allowed. -/
def FairRun (allowed : Sched → Prop) (s : Sched) : Prop :=
  ∃ past, Run Sched.Empty (fun s (_ : Unit) s' => FairStep env s s' ∧ allowed s') past s

variable {env}

theorem FairStep.inOrder {s s' : Sched} (step : FairStep env s s') (order : InOrder s)
    (narrow : Narrow s') : InOrder s' := by
  cases step with
  | enqueue p flags clock off => exact order.enqueue env off flags clock narrow
  | dequeue p sleep clock _ place => exact order.dequeue env place.resolve_right sleep clock
  | put p now here => exact order.put env (order.steady.apart p here) now narrow
  | pick prev clock prevCurrent => exact (order.pick env prevCurrent clock narrow).1

theorem FairRun.start {allowed : Sched → Prop} {s : Sched} (empty : s.Empty) : FairRun env allowed s :=
  ⟨[],.start empty⟩

theorem FairRun.step {allowed : Sched → Prop} {s s' : Sched} (run : FairRun env allowed s)
    (step : FairStep env s s') (may : allowed s') : FairRun env allowed s' := by
  obtain ⟨past,run⟩ := run
  exact ⟨_,run.next (a := ()) ⟨step,may⟩⟩

theorem Sched.Empty.inOrder {s : Sched} (empty : s.Empty) : InOrder s := by
  refine ⟨empty.steady _,?_⟩
  rw [show s.shape = _ from empty]
  exact List.Pairwise.nil

theorem Sched.Empty.narrow {s : Sched} (empty : s.Empty) : Narrow s := by
  intro e on
  rw [show (s.entity e).onRq = false from congrFun (congrArg Shape.onRq empty) e] at on
  contradiction

theorem FairRun.inOrder {s : Sched} (run : FairRun env Narrow s) : InOrder s := by
  obtain ⟨past,run⟩ := run
  exact run.invariant (fun _ => Sched.Empty.inOrder) fun _ _ _ order taken => taken.1.inOrder order taken.2

theorem FairRun.narrow {s : Sched} (run : FairRun env Narrow s) : Narrow s := by
  obtain ⟨past,run⟩ := run
  exact run.invariant (fun _ => Sched.Empty.narrow) fun _ _ _ _ taken => taken.2

variable (env)

/-- Keys lose no bits when the current entity is charged, which a pick does at most
twice. -/
structure NarrowCharged (s : Sched) (clock : Nat → U64) : Prop where
  once : Narrow (updateCurr env s root (clock 0))
  twice : Narrow (updateCurr env (updateCurr env s root (clock 0)) root (clock 1))

theorem NarrowCharged.pick {s : Sched} (charged : NarrowCharged env s clock) (narrow : Narrow s)
    (prev : Option Nat) : Narrow (pickNextTaskFair env flat s prev clock).2 := by
  have first {t : Sched} (narrow : Narrow t) : Narrow (pickFirst env t (clock 2)).2 :=
    ((sameTimes_pickFirst ..).narrow_iff (onRq_pickFirst ..)).mpr narrow
  unfold pickNextTaskFair
  split
  · exact narrow
  · cases prev with
    | none => exact first narrow
    | some p =>
      have once := charged.once
      have twice := charged.twice
      dsimp only
      generalize updateCurr env s root (clock 0) = s₁ at once twice ⊢
      split
      · exact once
      · refine first ?_
        unfold putPrevEntity
        dsimp only
        refine ((sameTimes_setCurr ..).narrow_iff rfl).mpr ?_
        split
        · exact ((sameTimes_treeEnqueueEntity ..).narrow_iff rfl).mpr twice
        · exact once

/-- The entity that is furthest behind runs, as long as no key of a queued entity has
ever lost bits and `prev` is the task of the current entity. -/
theorem picks_furthest_behind {s : Sched} (run : FairRun env Narrow s) (member : Member s)
    (prev : Option Nat) (prevCurrent : PrevCurrent s prev) (currentPrev : CurrentPrev s prev)
    (clock : Nat → U64) (charged : NarrowCharged env s clock)
    (e : Nat) (chosen : (pickNextTaskFair env flat s prev clock).1 = some e) :
    let s' := (pickNextTaskFair env flat s prev clock).2
    ∀ f, (s'.entity f).onRq = true → 0 ≤ ((s'.entity f).vruntime - (s'.entity e).vruntime).toInt :=
  (run.inOrder.pick env prevCurrent clock (charged.pick env run.narrow prev)).2
    (member.collected currentPrev) e chosen

end Run

def TwoQueued (s : Sched) : Prop := ∀ e, (s.entity e).onRq = true ↔ e = 1 ∨ e = 2

theorem twoQueued_of_marks {s : Sched}
    (marks : s.shape.onRq = Function.update (Function.update (fun _ => false) 1 true) 2 true) :
    TwoQueued s := by
  intro e
  rw [show (s.entity e).onRq = _ from congrFun marks e]
  by_cases two : e = 2
  · simp [two]
  · by_cases one : e = 1 <;> simp [two,one]

theorem TwoQueued.narrow {s : Sched} (two : TwoQueued s) (one : Fits 31 (s.lag 1))
    (other : Fits 31 (s.lag 2)) : Narrow s := by
  intro e on
  rcases (two e).mp on with rfl | rfl
  · exact one
  · exact other

theorem TwoQueued.member {s : Sched} (two : TwoQueued s)
    (once : (inorder (s.cfs root).tasksTimeline).Nodup)
    (apart : ∀ e ∈ (s.cfs root).curr, e ∉ inorder (s.cfs root).tasksTimeline)
    (inside : ∀ e ∈ inorder (s.cfs root).tasksTimeline, e = 1 ∨ e = 2)
    (one : 1 ∈ inorder (s.cfs root).tasksTimeline ∨ (s.cfs root).curr = some 1)
    (other : 2 ∈ inorder (s.cfs root).tasksTimeline) : Member s where
  once := once
  apart := apart
  queued e := by
    constructor
    · intro on
      rcases (two e).mp on with rfl | rfl
      · exact one.imp_right fun here => ⟨here,on⟩
      · exact .inl other
    · rintro (member | ⟨_,on⟩)
      · exact (two e).mpr (inside e member)
      · exact on

/-- Two entities that were never queued, the second one further behind. -/
def laggard : Sched :=
  { emptySched fun _ => 1024 with
    entity := fun e => { newEntity 1024 with vruntime := if e = 1 then 700 else 5 } }

def laggardFirst : Sched := enqueueTaskFair basePlatform flat laggard 1 ⟨false,false⟩ fun _ => 0

def laggardBoth : Sched := enqueueTaskFair basePlatform flat laggardFirst 2 ⟨false,false⟩ fun _ => 0

theorem picks_furthest_behind_laggard :
    (pickNextTaskFair basePlatform flat laggardBoth none fun _ => 0).1 = some 2 ∧
    let s' := (pickNextTaskFair basePlatform flat laggardBoth none fun _ => 0).2
    ∀ f, (s'.entity f).onRq = true → 0 ≤ ((s'.entity f).vruntime - (s'.entity 2).vruntime).toInt := by
  have first : laggardFirst.shape.onRq = Function.update (fun _ => false) 1 true :=
    onRq_enqueueTaskFair _ (s := laggard) ⟨rfl,rfl⟩ rfl _ _
  have both : laggardBoth.shape.onRq = Function.update laggardFirst.shape.onRq 2 true :=
    onRq_enqueueTaskFair _ (s := laggardFirst) ⟨by decide,by decide⟩ (by decide) _ _
  have two : TwoQueued laggardBoth := twoQueued_of_marks (by rw [both,first])
  have narrow₁ : Narrow laggardFirst := by
    intro e on
    obtain rfl : e = 1 := by
      by_contra other
      rw [show (laggardFirst.entity e).onRq = _ from congrFun first e] at on
      simp [other] at on
    decide
  have narrow₂ : Narrow laggardBoth := two.narrow (by decide) (by decide)
  have run : FairRun basePlatform Narrow laggardBoth :=
    .step (.step (.start (s := laggard) rfl) (.enqueue 1 _ _ rfl) narrow₁) (.enqueue 2 _ _ (by decide)) narrow₂
  have idle (now : U64) : updateCurr basePlatform laggardBoth root now = laggardBoth := by
    have none : (laggardBoth.cfs root).curr = none := by decide
    simp [updateCurr,none]
  have chosen : (pickNextTaskFair basePlatform flat laggardBoth none fun _ => 0).1 = some 2 := by decide
  refine ⟨chosen,picks_furthest_behind basePlatform run ?_ none ?_ ?_ _ ⟨?_,?_⟩ 2 chosen⟩
  · exact two.member (by decide) (by decide) (by decide) (by decide) (by decide)
  · exact fun p none => by contradiction
  · intro p here
    rw [show (laggardBoth.cfs root).curr = none by decide] at here
    contradiction
  · rw [idle]; exact narrow₂
  · rw [idle,idle]; exact narrow₂

def lightQueued : Sched :=
  enqueueTaskFair basePlatform flat (emptySched fun e => if e = 1 then 15 else 1024) 1 ⟨false,false⟩ fun _ => 0

def lightRunning : Sched := (pickNextTaskFair basePlatform flat lightQueued none fun _ => 0).2

def lightPreempted : Sched :=
  enqueueTaskFair basePlatform flat lightRunning 2 ⟨false,false⟩ fun _ => 33554432

theorem lightPreempted_twoQueued : TwoQueued lightPreempted := by
  have first : lightQueued.shape.onRq = Function.update (fun _ => false) 1 true :=
    onRq_enqueueTaskFair _ (s := emptySched _) ⟨rfl,rfl⟩ rfl _ _
  have running : lightRunning.shape.onRq = lightQueued.shape.onRq := by
    have busy : (lightQueued.cfs root).nrRunning ≠ 0 := by decide
    simpa [lightRunning,pickNextTaskFair,busy] using onRq_pickFirst basePlatform lightQueued 0
  have both : lightPreempted.shape.onRq = Function.update lightRunning.shape.onRq 2 true :=
    onRq_enqueueTaskFair _ (s := lightRunning) ⟨by decide,by decide⟩ (by decide) _ _
  exact twoQueued_of_marks (by rw [both,running,first])

/-- The first task runs on although the second one is behind it by more than two
seconds of virtual time: the key of the second one, cut to 32 bits, is positive. -/
theorem light_task_overtakes :
    let s' := (pickNextTaskFair basePlatform flat lightPreempted (some 1) fun _ => 33554432).2
    FairRun basePlatform (fun _ => True) lightPreempted ∧ Member lightPreempted ∧
    lightPreempted.buddies root = ⟨none,none,none⟩ ∧
    PrevCurrent lightPreempted (some 1) ∧ CurrentPrev lightPreempted (some 1) ∧
    (∀ e f, (s'.entity e).onRq = true → (s'.entity f).onRq = true →
      ((s'.entity f).vruntime - (s'.entity e).vruntime).toInt ≤ 2^62) ∧
    (pickNextTaskFair basePlatform flat lightPreempted (some 1) fun _ => 33554432).1 = some 1 ∧
    ¬∀ f, (s'.entity f).onRq = true → 0 ≤ ((s'.entity f).vruntime - (s'.entity 1).vruntime).toInt := by
  have two := lightPreempted_twoQueued
  have here : (lightPreempted.cfs root).curr = some 1 := by decide
  have busy : (lightPreempted.cfs root).nrRunning ≠ 0 := by decide
  have charged : updateCurr basePlatform lightPreempted root 33554432 = lightPreempted := by
    have spent : toS64 (33554432 - (lightPreempted.entity 1).execStart) ≤ 0 := by decide
    unfold updateCurr
    rw [here]
    exact if_pos spent
  have keeps : keepsPrev flat lightPreempted 1 = true := by decide
  have pick : pickNextTaskFair basePlatform flat lightPreempted (some 1) (fun _ => 33554432) =
      (some 1,lightPreempted) := by
    unfold pickNextTaskFair
    rw [if_neg busy]
    dsimp only
    rw [charged,if_pos keeps]
  rw [pick]
  refine ⟨?_,?_,by decide,?_,?_,?_,rfl,fun behind => ?_⟩
  · exact .step (.step (.step (.start (s := emptySched _) rfl) (.enqueue 1 _ _ rfl) trivial)
      (.pick none _ fun p none => by contradiction) trivial) (.enqueue 2 _ _ (by decide)) trivial
  · exact two.member (by decide) (by decide) (by decide) (by decide) (by decide)
  · rintro _ ⟨⟩ _
    exact here
  · exact fun p now _ => here.symm.trans now
  · intro e f onE onF
    rcases (two e).mp onE with rfl | rfl <;> rcases (two f).mp onF with rfl | rfl <;> decide
  · exact absurd (behind 2 ((two 2).mpr (.inr rfl))) (by decide)

end Kernal.Cfs
