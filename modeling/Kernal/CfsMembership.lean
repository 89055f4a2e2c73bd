import Kernal.CfsSteady
import Kernal.Runs
import Kernal.Schedule

/-! Where queued entities are. While the entity recorded as `cfs_rq->curr` is queued
only when its task is running, every queued entity is in the tree or current and a
queued task is always found. A task that sleeps as the last one stays recorded; when
it is queued again from there it enters no tree. -/
namespace Kernal.Cfs

open SearchTree Runs

namespace Shape

def currentCount (m : Shape) : Nat :=
  match m.current with
  | none => 0
  | some e => if m.onRq e then 1 else 0

theorem currentCount_other {m : Shape} (other : m.current ≠ some p) (value : Bool) :
    currentCount { m with onRq := Function.update m.onRq p value } = m.currentCount := by
  unfold currentCount
  cases here : m.current with
  | none => rfl
  | some e =>
    have different : e ≠ p := fun same => other (same ▸ here)
    simp [Function.update_of_ne different]

structure Counted (m : Shape) : Prop extends Steady (fun _ => True) m where
  on_listed : ∀ e, m.onRq e = true → e ∈ m.timeline ∨ m.current = some e
  count : m.nr = m.timeline.length + m.currentCount
  hNr : m.hNr = m.nr
  total : m.total = m.nr

/-- In addition, `cfs_rq->curr` agrees with `rq->curr` as far as it is queued. -/
structure Consistent (m : Shape) : Prop extends Counted m where
  running : ∀ e, m.running = some e → m.current = some e
  owner : ∀ e, m.current = some e → m.onRq e = true → m.running = some e

theorem Counted.some_queued (c : Counted m) (on : m.onRq e = true) : m.nr ≠ 0 := by
  intro none
  have count := c.count
  rcases c.on_listed e on with member | here
  · have positive := List.length_pos_of_mem member
    omega
  · simp [currentCount,here,on,none] at count

/-- With nothing outside the tree the first entity becomes the running one. -/
theorem Counted.pickFirst (c : Counted m) (off : ∀ e, m.current = some e → m.onRq e = false)
    (busy : m.nr ≠ 0) : ∃ e m', m.pickFirst = (some e,m') ∧ Consistent { m' with running := some e } := by
  have inside (e : Nat) (on : m.onRq e = true) : e ∈ m.timeline := by
    refine (c.on_listed e on).resolve_right fun here => ?_
    rw [off e here] at on
    contradiction
  have count : m.nr = m.timeline.length := by
    have zero : m.currentCount = 0 := by
      unfold currentCount
      split
      · rfl
      next e here => rw [off e here]; rfl
    rw [c.count,zero,Nat.add_zero]
  rcases c.toSteady.pickFirst with ⟨_,empty⟩ | ⟨e,m',eq,_,steady,current⟩
  · rw [empty] at count
    exact absurd count busy
  refine ⟨e,m',eq,?_⟩
  unfold Shape.pickFirst at eq
  split at eq
  · cases eq
  next first rest sequence =>
    cases eq
    have on : m.onRq e = true := (c.listed e (by rw [sequence]; exact List.mem_cons_self)).1
    refine ⟨⟨⟨⟨steady.leftmost,steady.buddies⟩,steady.once,steady.apart,steady.listed⟩,?_,?_,c.hNr,c.total⟩,
      fun f eq => eq,fun f eq _ => eq⟩
    · intro f queued
      have member := inside f queued
      rw [sequence] at member
      rcases List.mem_cons.mp member with rfl | member
      · exact .inr rfl
      · exact .inl member
    · rw [sequence] at count
      simpa [setTimeline,currentCount,on] using count

/-- Putting the current entity back makes room for the next choice. -/
theorem Consistent.put (c : Consistent m) (here : m.current = some p)
    (moved : if m.onRq p = true then m.Inserted p m' else m' = m) :
    Counted { m' with current := none } ∧ m'.nr = m.nr := by
  have steady := c.toSteady.put (c.apart p here) (fun _ => trivial) moved
  have count := c.count
  split at moved
  next on =>
    have perm := moved.perm
    obtain ⟨front,back,_,rfl⟩ := moved
    refine ⟨⟨steady,fun e queued => .inl (perm.mem_iff.mpr ?_),?_,c.hNr,c.total⟩,rfl⟩
    · rcases c.on_listed e queued with member | current
      · exact List.mem_cons_of_mem _ member
      · rw [Option.some.inj (current.symm.trans here)]
        exact List.mem_cons_self
    · simp only [currentCount,here,on,if_true] at count
      exact count.trans perm.length_eq.symm
  next off =>
    subst moved
    have off : m'.onRq p = false := by simpa using off
    refine ⟨⟨steady,fun e queued => .inl ((c.on_listed e queued).resolve_right fun current => ?_),?_,
      c.hNr,c.total⟩,rfl⟩
    · rw [Option.some.inj (current.symm.trans here),off] at queued
      contradiction
    · simpa [currentCount,here,off] using count

/-- Whatever the fair class answers, recording it as the running task is right. -/
theorem Consistent.picked (c : Consistent m) (busy : m.nr ≠ 0)
    (picked : m.Picked m.running result) :
    ∃ e, result.1 = some e ∧ Consistent { result.2 with running := some e } := by
  generalize running : m.running = prev at picked
  cases picked with
  | nothing idle => exact absurd idle busy
  | first =>
    have off (e : Nat) (here : m.current = some e) : m.onRq e = false := by
      cases on : m.onRq e with
      | false => rfl
      | true =>
        have same := c.owner e here on
        rw [running] at same
        contradiction
    obtain ⟨e,m',eq,next⟩ := c.toCounted.pickFirst off busy
    rw [eq]
    exact ⟨e,rfl,next⟩
  | kept =>
    refine ⟨_,rfl,?_⟩
    rw [← running]
    exact c
  | put _ moved =>
    obtain ⟨counted,count⟩ := c.put (c.running _ running) moved
    obtain ⟨e,m',eq,next⟩ := counted.pickFirst (fun e none => by contradiction)
      (by rw [← count] at busy; exact busy)
    rw [eq]
    exact ⟨e,rfl,next⟩

/-- Going idle leaves the queue as it is, with a current entity that is not queued. -/
theorem Consistent.idle (c : Consistent m) (empty : m.nr = 0) : Consistent { m with running := none } where
  toSteady := ⟨⟨c.leftmost,c.buddies⟩,c.once,c.apart,c.listed⟩
  on_listed := c.on_listed
  count := c.count
  hNr := c.hNr
  total := c.total
  running _ none := by contradiction
  owner _ _ on := absurd empty (c.some_queued on)

theorem Consistent.enqueued (c : Consistent m) (off : m.onRq p = false) (queued : m.Queued p m')
    (fresh : m.current = some p → m.running = some p) :
    Consistent { m' with
      onRq := Function.update m'.onRq p true
      nr := m'.nr + 1
      hNr := m'.hNr + 1
      total := m'.total + 1 } := by
  have steady := c.toSteady.enqueued queued off trivial (m'.nr + 1) (m'.hNr + 1) (m'.total + 1)
  have hNr := c.hNr
  have total := c.total
  have count := c.count
  unfold Shape.Queued at queued
  split at queued
  next here =>
    subst queued
    simp only [currentCount,here,off,Bool.false_eq_true,if_false] at count
    refine ⟨⟨steady,?_,?_,congrArg (· + 1) hNr,congrArg (· + 1) total⟩,c.running,?_⟩
    · intro e on
      by_cases same : e = p
      · subst e; exact .inr here
      · exact c.on_listed e (by simpa [same] using on)
    · simp [currentCount,here,count]
    · intro e current _
      obtain rfl : e = p := Option.some.inj (current.symm.trans here)
      exact fresh here
  next elsewhere =>
    have perm := queued.perm
    obtain ⟨front,back,_,rfl⟩ := queued
    refine ⟨⟨steady,?_,?_,congrArg (· + 1) hNr,congrArg (· + 1) total⟩,c.running,?_⟩
    · intro e on
      by_cases same : e = p
      · exact .inl (perm.mem_iff.mpr (by simp [same]))
      · refine (c.on_listed e (by simpa [setTimeline,same] using on)).imp_left fun member => ?_
        exact perm.mem_iff.mpr (List.mem_cons_of_mem _ member)
    · have kept : currentCount { m with onRq := Function.update m.onRq p true } = m.currentCount :=
        currentCount_other elsewhere true
      have length : (front ++ p :: back).length = m.timeline.length + 1 := perm.length_eq
      calc m.nr + 1 = (front ++ p :: back).length + m.currentCount := by omega
        _ = _ := by rw [← kept]; rfl
    · intro e current on
      have different : e ≠ p := fun same => elsewhere (same ▸ current)
      exact c.owner e current (by simpa [setTimeline,different] using on)

theorem Consistent.dequeued (c : Consistent m) (on : m.onRq p = true) :
    let m' := if m.current = some p then m else m.erase p
    Consistent { m' with
      onRq := Function.update m'.onRq p false
      nr := m'.nr - 1
      hNr := m'.hNr - 1
      total := m'.total - 1 } := by
  have steady := c.toSteady.dequeued p
  have hNr := c.hNr
  have total := c.total
  have count := c.count
  dsimp only at steady ⊢
  split
  next here =>
    simp only [if_pos here] at steady
    simp only [currentCount,here,on,if_true] at count
    refine ⟨⟨steady ..,?_,?_,congrArg (· - 1) hNr,congrArg (· - 1) total⟩,c.running,?_⟩
    · intro e queued
      have different : e ≠ p := by rintro rfl; simp at queued
      exact c.on_listed e (by simpa [different] using queued)
    · simp only [currentCount,here,Function.update_self,Bool.false_eq_true,if_false]
      omega
    · intro e current queued
      obtain rfl : e = p := Option.some.inj (current.symm.trans here)
      simp at queued
  next elsewhere =>
    simp only [if_neg elsewhere] at steady
    have member := (c.on_listed p on).resolve_right elsewhere
    have positive := List.length_pos_of_mem member
    have shorter : (m.timeline.erase p).length = m.timeline.length - 1 :=
      List.length_erase_of_mem member
    have kept : currentCount { m with onRq := Function.update m.onRq p false } = m.currentCount :=
      currentCount_other elsewhere false
    refine ⟨⟨steady ..,?_,?_,congrArg (· - 1) hNr,congrArg (· - 1) total⟩,c.running,?_⟩
    · intro e queued
      have other : e ≠ p := by rintro rfl; simp at queued
      refine (c.on_listed e (by simpa [erase,setTimeline,other] using queued)).imp_left fun listed => ?_
      exact (List.mem_erase_of_ne other).mpr listed
    · calc m.nr - 1 = (m.timeline.erase p).length + m.currentCount := by omega
        _ = _ := by rw [← kept]; rfl
    · intro e current queued
      have different : e ≠ p := fun same => elsewhere (same ▸ current)
      exact c.owner e current (by simpa [erase,setTimeline,different] using queued)

end Shape

/-- The queued entities are the nodes of the tree and the current entity if it is
queued; each is in one place. -/
structure Member (s : Sched) : Prop where
  once : (inorder (s.cfs root).tasksTimeline).Nodup
  apart : ∀ e, (s.cfs root).curr = some e → e ∉ inorder (s.cfs root).tasksTimeline
  queued : ∀ e, (s.entity e).onRq = true ↔ e ∈ inorder (s.cfs root).tasksTimeline ∨
    ((s.cfs root).curr = some e ∧ (s.entity e).onRq = true)

theorem Shape.Consistent.member {s : Sched} (c : s.shape.Consistent) : Member s where
  once := c.once
  apart := c.apart
  queued e := by
    constructor
    · intro on
      exact (c.on_listed e on).imp_right fun here => ⟨here,on⟩
    · rintro (member | ⟨_,on⟩)
      · exact (c.listed e member).1
      · exact on

section Run

variable (env : Platform)

/-- With nothing to run both calls return at once; otherwise the counters agree and
the fast path decides. -/
theorem schedule_consistent {s : Sched} (c : s.shape.Consistent) (clock : Nat → U64) :
    (schedule env flat s clock).shape.Consistent ∧
    (s.shape.nr ≠ 0 → (schedule env flat s clock).curr ≠ none) := by
  have agree : s.nrRunning = (s.cfs root).hNrRunning := c.total.trans c.hNr.symm
  by_cases idle : s.shape.nr = 0
  · have nothing : (s.cfs root).nrRunning = 0 := idle
    have same : schedule env flat s clock = { s with curr := none } := by
      simp [schedule,pickNextTask,pickNextTaskFair,nothing]
    rw [same]
    exact ⟨c.idle idle,fun busy => absurd idle busy⟩
  · have picked := shape_pickNextTaskFair env c.toPlain
      (fun e member => (c.listed e member).1) flat s.curr clock
    obtain ⟨e,chosen,next⟩ := c.picked idle picked
    have eq : schedule env flat s clock =
        { (pickNextTaskFair env flat s s.curr clock).2 with curr := some e } := by
      dsimp only at chosen
      generalize answer : pickNextTaskFair env flat s s.curr clock = result at chosen
      obtain ⟨choice,s'⟩ := result
      dsimp only at chosen
      subst chosen
      simp [schedule,pickNextTask,agree,answer]
    rw [eq]
    exact ⟨next,fun _ => Option.some_ne_none e⟩

/-- The scheduler before anything was queued; times and weights are arbitrary. -/
def Sched.Empty (s : Sched) : Prop :=
  s.shape = ⟨fun _ => false,[],none,none,0,0,0,⟨none,none,none⟩,none,false⟩

theorem Sched.Empty.steady {s : Sched} (empty : s.Empty) (awake : Nat → Prop) : s.shape.Steady awake := by
  rw [show s.shape = _ from empty]
  exact ⟨⟨rfl,rfl⟩,List.nodup_nil,by simp,by simp⟩

inductive FlatCall where
  | enqueueTaskFair (p : Nat) (flags : EnqueueFlags) (clock : Nat → U64)
  | dequeueTaskFair (p : Nat) (sleep : Bool) (clock : Nat → U64)
  | schedule (clock : Nat → U64)

inductive FlatStep : Sched → FlatCall → Sched → Prop where
  | enqueue : (s.entity p).onRq = false →
      FlatStep s (.enqueueTaskFair p flags clock) (enqueueTaskFair env flat s p flags clock)
  | dequeue : (s.entity p).onRq = true →
      FlatStep s (.dequeueTaskFair p sleep clock) (dequeueTaskFair env flat s p sleep clock)
  | schedule : FlatStep s (.schedule clock) (Cfs.schedule env flat s clock)

def FlatCall.Allowed (allowed : Sched → Nat → Prop) (s : Sched) : FlatCall → Prop
  | .enqueueTaskFair p _ _ => allowed s p
  | _ => True

/-- Every run of queueing, dequeueing and `schedule` steps in which each task that is
queued was allowed to be. -/
def FlatRun (allowed : Sched → Nat → Prop) (s : Sched) : Prop :=
  ∃ past, Run Sched.Empty (FlatStep env) past s ∧ Throughout (FlatCall.Allowed allowed) past

section

variable {env} {allowed : Sched → Nat → Prop} {s s' : Sched}

theorem FlatRun.start (empty : s.Empty) : FlatRun env allowed s := ⟨[],.start empty,by simp [Throughout]⟩

theorem FlatRun.next (run : FlatRun env allowed s) (step : FlatStep env s call s')
    (may : call.Allowed allowed s) : FlatRun env allowed s' := by
  obtain ⟨past,run,kept⟩ := run
  exact ⟨_,run.next step,Throughout.append.2 ⟨kept,may⟩⟩

theorem FlatRun.enqueue (flags : EnqueueFlags) (clock : Nat → U64) (run : FlatRun env allowed s)
    (off : (s.entity p).onRq = false) (may : allowed s p) :
    FlatRun env allowed (enqueueTaskFair env flat s p flags clock) := run.next (.enqueue off) may

theorem FlatRun.dequeue (sleep : Bool) (clock : Nat → U64) (run : FlatRun env allowed s)
    (on : (s.entity p).onRq = true) : FlatRun env allowed (dequeueTaskFair env flat s p sleep clock) :=
  run.next (.dequeue on) trivial

theorem FlatRun.schedule (clock : Nat → U64) (run : FlatRun env allowed s) :
    FlatRun env allowed (Cfs.schedule env flat s clock) := run.next .schedule trivial

end

/-- No runnable task is lost: membership is right and a `schedule` that comes next
finds a fair task when there is one. -/
structure NoneLost (s : Sched) : Prop where
  member : Member s
  found : ∀ e, (s.entity e).onRq = true → ∀ clock, (Cfs.schedule env flat s clock).curr ≠ none

/-- The task is not recorded as current from an earlier time. -/
def NotStale (s : Sched) (p : Nat) : Prop := (s.cfs root).curr = some p → s.curr = some p

instance : Decidable (NotStale s p) := inferInstanceAs (Decidable (_ → _))

theorem Shape.Consistent.noneLost {s : Sched} (c : s.shape.Consistent) : NoneLost env s where
  member := c.member
  found _ on clock := (schedule_consistent env c clock).2 (c.some_queued on)

/-- A run with a restriction on what is queued is also a run without it. -/
theorem FlatRun.mono {allowed other : Sched → Nat → Prop} (weaker : ∀ s p, allowed s p → other s p)
    {s : Sched} (run : FlatRun env allowed s) : FlatRun env other s := by
  obtain ⟨past,run,kept⟩ := run
  refine ⟨past,run,fun e member => ?_⟩
  have may := kept e member
  cases call : e.2 with
  | enqueueTaskFair p flags clock =>
    rw [call] at may
    exact weaker _ _ may
  | dequeueTaskFair | schedule => trivial

theorem Sched.Empty.consistent {s : Sched} (empty : s.Empty) : s.shape.Consistent := by
  have steady := empty.steady fun _ => True
  rw [show s.shape = _ from empty] at steady ⊢
  exact ⟨⟨steady,by simp,rfl,rfl,rfl⟩,by simp,by simp⟩

theorem FlatStep.consistent {s s' : Sched} (c : s.shape.Consistent) (fresh : call.Allowed NotStale s)
    (step : FlatStep env s call s') : s'.shape.Consistent := by
  cases step with
  | @enqueue p flags clock off =>
    obtain ⟨m,queued,eq⟩ := shape_enqueueTaskFair env c.toPlain off flags clock
    rw [eq]
    exact c.enqueued off queued fresh
  | @dequeue p sleep clock on =>
    have member : s.shape.current ≠ some p → p ∈ s.shape.timeline :=
      (c.on_listed p on).resolve_right
    rw [shape_dequeueTaskFair env c.toPlain member sleep clock]
    exact c.dequeued on
  | @schedule clock => exact (schedule_consistent env c clock).1

theorem FlatRun.consistent {s : Sched} (run : FlatRun env NotStale s) : s.shape.Consistent := by
  obtain ⟨past,run,kept⟩ := run
  exact (run.always_of (P := fun s => s.shape.Consistent) (fun _ => Sched.Empty.consistent)
    (fun _ _ _ c fresh step => FlatStep.consistent env c fresh step) kept).2

/-- No task is lost in a run that queues no task while it is recorded as current
without running. -/
theorem none_lost_of_not_stale {s : Sched} (run : FlatRun env NotStale s) : NoneLost env s :=
  (run.consistent env).noneLost env

end Run

def oneRunning : Sched :=
  schedule basePlatform flat
    (enqueueTaskFair basePlatform flat (emptySched fun _ => 1024) 0 ⟨false,false⟩ fun _ => 0) fun _ => 0

theorem oneRunning_run : FlatRun basePlatform NotStale oneRunning :=
  .schedule _ (.enqueue _ _ (.start rfl) rfl (by decide))

def oneAsleep : Sched :=
  schedule basePlatform flat (dequeueTaskFair basePlatform flat oneRunning 0 true fun _ => 5) fun _ => 5

def oneWoken : Sched := enqueueTaskFair basePlatform flat oneAsleep 0 ⟨true,false⟩ fun _ => 9

theorem oneAsleep_run : FlatRun basePlatform NotStale oneAsleep :=
  .schedule _ (.dequeue true _ oneRunning_run (by decide))

/-- Another task may be queued, and a `schedule` finds it. -/
theorem none_lost_after_idle :
    let s := enqueueTaskFair basePlatform flat oneAsleep 1 ⟨true,false⟩ fun _ => 9
    FlatRun basePlatform NotStale s ∧ NoneLost basePlatform s := by
  have run := oneAsleep_run.enqueue (p := 1) ⟨true,false⟩ (fun _ => 9) (by decide) (by decide)
  exact ⟨run,none_lost_of_not_stale basePlatform run⟩

/-- Woken again, the task is queued but in no tree, and the processor stays idle. -/
theorem woken_task_lost :
    FlatRun basePlatform (fun _ _ => True) oneWoken ∧ (oneWoken.entity 0).onRq = true ∧
    (schedule basePlatform flat oneWoken fun _ => 9).curr = none ∧ ¬NoneLost basePlatform oneWoken := by
  have idle : (schedule basePlatform flat oneWoken fun _ => 9).curr = none := by decide
  have on : (oneWoken.entity 0).onRq = true := by decide
  refine ⟨?_,on,idle,fun lost => lost.found 0 on _ idle⟩
  have asleep : FlatRun basePlatform (fun _ _ => True) oneAsleep :=
    oneAsleep_run.mono basePlatform fun _ _ _ => trivial
  exact .enqueue _ _ asleep (by decide) trivial

end Kernal.Cfs
