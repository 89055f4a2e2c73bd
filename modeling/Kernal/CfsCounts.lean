import Kernal.CfsWalk

/-! Counts of a hierarchy of run queues over whole runs: every counter is the number of
entities or tasks it stands for. -/
namespace Kernal.Cfs

namespace Tally

variable (h : Hierarchy)

structure Counted (t : Tally) (queued : Finset Nat) : Prop extends Balanced h t queued where
  settled : Settled h t none
  hNr : ∀ q, t.hNr q = (queued.filter fun p => h.isTask p ∧ q ∈ h.reachedQueues p).card
  total : t.total = (queued.filter fun p => h.isTask p ∧ h.unthrottled p).card

variable {h} {queued queued' : Finset Nat}

theorem task_iff : h.isTask x = true ↔ h.myQ x = none := Option.isNone_iff_eq_none

/-- The number of queued tasks of some kind when one task more is queued. -/
theorem card_added (kind : Nat → Prop) [DecidablePred kind] (task : h.myQ p = none)
    (fresh : p ∉ queued) (tasks : ∀ x, h.myQ x = none → (x ∈ queued' ↔ x ∈ queued ∨ some p = some x)) :
    (queued'.filter fun x => h.isTask x ∧ kind x).card =
      (queued.filter fun x => h.isTask x ∧ kind x).card + if kind p then 1 else 0 := by
  have members : queued'.filter (fun x => h.isTask x ∧ kind x) =
      (insert p queued).filter fun x => h.isTask x ∧ kind x := by
    ext x
    simp only [Finset.mem_filter,Finset.mem_insert]
    constructor
    · rintro ⟨member,isTask,rest⟩
      rcases (tasks x (task_iff.mp isTask)).mp member with old | new
      · exact ⟨.inr old,isTask,rest⟩
      · exact ⟨.inl (Option.some.inj new).symm,isTask,rest⟩
    · rintro ⟨member,isTask,rest⟩
      refine ⟨(tasks x (task_iff.mp isTask)).mpr ?_,isTask,rest⟩
      rcases member with rfl | old
      · exact .inr rfl
      · exact .inl old
  rw [members,Finset.filter_insert]
  by_cases here : kind p
  · rw [if_pos ⟨task_iff.mpr task,here⟩,if_pos here]
    exact Finset.card_insert_of_notMem (by simp [fresh])
  · rw [if_neg (by simp [here]),if_neg here,Nat.add_zero]

theorem card_removed (kind : Nat → Prop) [DecidablePred kind] (task : h.myQ p = none)
    (present : p ∈ queued)
    (tasks : ∀ x, h.myQ x = none → (x ∈ queued' ↔ x ∈ queued ∧ some p ≠ some x)) :
    (queued'.filter fun x => h.isTask x ∧ kind x).card =
      (queued.filter fun x => h.isTask x ∧ kind x).card - if kind p then 1 else 0 := by
  have members : queued'.filter (fun x => h.isTask x ∧ kind x) =
      (queued.filter fun x => h.isTask x ∧ kind x).erase p := by
    ext x
    simp only [Finset.mem_filter,Finset.mem_erase]
    constructor
    · rintro ⟨member,isTask,rest⟩
      obtain ⟨old,different⟩ := (tasks x (task_iff.mp isTask)).mp member
      exact ⟨fun same => different (same ▸ rfl),old,isTask,rest⟩
    · rintro ⟨different,old,isTask,rest⟩
      exact ⟨(tasks x (task_iff.mp isTask)).mpr ⟨old,fun same => different (Option.some.inj same).symm⟩,
        isTask,rest⟩
  rw [members]
  by_cases here : kind p
  · rw [if_pos here,Finset.card_erase_of_mem (by simp [present,task_iff.mpr task,here])]
  · rw [if_neg here,Finset.erase_eq_of_notMem (by simp [here]),Nat.sub_zero]

/-- Both operations end alike, with the counting walk and the count of the root. -/
theorem finish_counted (f : Nat → Nat) (balanced : Balanced h t queued) (settled : Settled h t none)
    (walked : Walked h f (h.path p) before (countLoop h f rest t))
    (hNr : ∀ q, (if q ∈ h.reachedQueues p then f (before q) else before q) =
      (queued.filter fun p => h.isTask p ∧ q ∈ h.reachedQueues p).card)
    (total : (if h.unthrottled p = true then f t.total else t.total) =
      (queued.filter fun p => h.isTask p ∧ h.unthrottled p).card) :
    Counted h (if (countLoop h f rest t).1 = [] then
      { (countLoop h f rest t).2 with total := f (countLoop h f rest t).2.total }
      else (countLoop h f rest t).2) queued := by
  have same := countLoop_same (h := h) f rest t
  have passes : (countLoop h f rest t).1 = [] ↔ h.unthrottled p = true := by
    rw [walked.ends]
    simp [Hierarchy.unthrottled]
  have counts (q : Nat) := (walked.counts q).trans (hNr q)
  generalize (countLoop h f rest t) = result at same passes counts
  obtain ⟨left,t'⟩ := result
  dsimp only at same passes counts ⊢
  rw [same] at counts ⊢
  split
  next here =>
    rw [if_pos (passes.mp here)] at total
    exact ⟨⟨balanced.mem,balanced.nr,balanced.load⟩,settled,counts,total⟩
  next here =>
    rw [if_neg (fun open_ => here (passes.mpr open_))] at total
    exact ⟨⟨balanced.mem,balanced.nr,balanced.load⟩,settled,counts,total⟩

theorem Counted.enqueueTask (counted : Counted h t queued) (task : h.myQ p = none)
    (off : t.onRq p = false) : ∃ queued', Counted h (t.enqueueTask h p) queued' := by
  have fresh : p ∉ queued := by simp [counted.mem,off]
  have nodup := h.path_nodup _ (Nat.le_refl (h.path p).length)
  obtain ⟨queued',balanced,settled,tasks⟩ := enqueueLoop_settled (h.path p) (o := some p) rfl
    counted.toBalanced (fun g q owns _ => counted.settled g q owns (by simp)) (by
      rintro e q ⟨⟩ owns
      rw [task] at owns
      contradiction)
  refine ⟨queued',finish_counted (· + 1) balanced settled (enqueueLoop_walked (h.path p) nodup t)
    (fun q => ?_) ?_⟩
  · rw [card_added (fun p => q ∈ h.reachedQueues p) task fresh tasks,← counted.hNr]
    split <;> rfl
  · rw [card_added (fun p => h.unthrottled p = true) task fresh tasks,← counted.total,
      (enqueueLoop_same (h.path p) t).2]
    split <;> rfl

theorem Counted.dequeueTask (counted : Counted h t queued) (positive : ∀ e, 0 < t.weight e)
    (task : h.myQ p = none) (on : t.onRq p = true) :
    ∃ queued', Counted h (t.dequeueTask h p) queued' := by
  have present : p ∈ queued := (counted.mem p).mpr on
  have nodup := h.path_nodup _ (Nat.le_refl (h.path p).length)
  obtain ⟨queued',balanced,settled,tasks⟩ := dequeueLoop_settled (h.path p) (o := some p) rfl
    counted.toBalanced positive (fun g q owns _ => counted.settled g q owns (by simp)) (by
      rintro e ⟨⟩
      refine ⟨on,fun q owns => ?_⟩
      rw [task] at owns
      contradiction)
  refine ⟨queued',finish_counted (· - 1) balanced settled (dequeueLoop_walked (h.path p) nodup t)
    (fun q => ?_) ?_⟩
  · rw [card_removed (fun p => q ∈ h.reachedQueues p) task present tasks,← counted.hNr]
    split <;> rfl
  · rw [card_removed (fun p => h.unthrottled p = true) task present tasks,← counted.total,
      (dequeueLoop_same (h.path p) t).2]
    split <;> rfl

end Tally

structure Empty (s : Sched) : Prop where
  onRq : ∀ e, (s.entity e).onRq = false
  weight : ∀ e, 0 < (s.entity e).weight
  cfs : ∀ q, (s.cfs q).nrRunning = 0 ∧ (s.cfs q).loadWeight = 0 ∧ (s.cfs q).hNrRunning = 0
  nrRunning : s.nrRunning = 0

/-- The states reached by queueing and removing tasks, with any flags and clock. -/
inductive TaskRun (env : Platform) (h : Hierarchy) : Sched → Prop where
  | empty : Empty s → TaskRun env h s
  | enqueue (p : Nat) (flags : EnqueueFlags) (clock : Nat → U64) : TaskRun env h s →
      h.myQ p = none → (s.entity p).onRq = false → TaskRun env h (enqueueTaskFair env h s p flags clock)
  | dequeue (p : Nat) (sleep : Bool) (clock : Nat → U64) : TaskRun env h s →
      h.myQ p = none → (s.entity p).onRq = true → TaskRun env h (dequeueTaskFair env h s p sleep clock)

section Run

variable {env : Platform} {h : Hierarchy} {s : Sched}

theorem enqueueTask_weight (t : Tally) (p : Nat) : (t.enqueueTask h p).weight = t.weight := by
  have first := (Tally.enqueueLoop_same (h := h) (h.path p) t).1
  have second := Tally.countLoop_same (h := h) (· + 1) (t.enqueueLoop h (h.path p)).1
    (t.enqueueLoop h (h.path p)).2
  simp only [Tally.enqueueTask]
  split <;> rw [second] <;> exact first

theorem dequeueTask_weight (t : Tally) (p : Nat) : (t.dequeueTask h p).weight = t.weight := by
  have first := (Tally.dequeueLoop_same (h := h) (h.path p) t).1
  have second := Tally.countLoop_same (h := h) (· - 1) (t.dequeueLoop h (h.path p)).1
    (t.dequeueLoop h (h.path p)).2
  simp only [Tally.dequeueTask]
  split <;> rw [second] <;> exact first

theorem Empty.counted (empty : Empty s) : Tally.Counted h s.tally ∅ := by
  refine ⟨⟨?_,?_,?_⟩,?_,?_,?_⟩
  · intro e
    simp [Sched.tally,empty.onRq]
  · intro q
    simp [Sched.tally,empty.cfs]
  · intro q
    simp [Sched.tally,empty.cfs]
  · intro g q _ _
    simp [Sched.tally,empty.onRq,empty.cfs]
  · intro q
    simp [Sched.tally,empty.cfs]
  · simp [Sched.tally,empty.nrRunning]

theorem TaskRun.counted (run : TaskRun env h s) :
    (∀ e, 0 < s.tally.weight e) ∧ ∃ queued, Tally.Counted h s.tally queued := by
  induction run with
  | empty empty => exact ⟨empty.weight,∅,empty.counted⟩
  | enqueue p flags clock _ task off ih =>
    obtain ⟨positive,queued,counted⟩ := ih
    rw [tally_enqueueTaskFair,enqueueTask_weight]
    exact ⟨positive,counted.enqueueTask task off⟩
  | dequeue p sleep clock _ task on ih =>
    obtain ⟨positive,queued,counted⟩ := ih
    rw [tally_dequeueTaskFair,dequeueTask_weight]
    exact ⟨positive,counted.dequeueTask positive task on⟩

/-- In every run the counters of every queue are those of the entities and tasks
that are queued. -/
theorem task_run_counts (run : TaskRun env h s) : ∃ queued : Finset Nat,
    (∀ e, e ∈ queued ↔ (s.entity e).onRq = true) ∧
    (∀ q, (s.cfs q).nrRunning = (queued.filter (h.cfsRqOf · = q)).card) ∧
    (∀ q, (s.cfs q).loadWeight = ∑ e ∈ queued.filter (h.cfsRqOf · = q), (s.entity e).weight) ∧
    (∀ q, (s.cfs q).hNrRunning =
      (queued.filter fun p => h.isTask p ∧ q ∈ h.reachedQueues p).card) ∧
    (∀ g q, h.myQ g = some q →
      ((s.entity g).onRq = true ↔ h.throttled q = false ∧ 0 < (s.cfs q).nrRunning)) ∧
    s.nrRunning = (queued.filter fun p => h.isTask p ∧ h.unthrottled p).card := by
  obtain ⟨_,queued,counted⟩ := run.counted
  exact ⟨queued,counted.mem,counted.nr,counted.load,counted.hNr,
    fun g q owns => counted.settled g q owns (by simp),counted.total⟩

/-- Tasks 0 and 1 in the queue 1 of the group entity 10, everything else at the top. -/
def oneGroup : Hierarchy where
  parentEntity e := if e < 2 then some 10 else none
  cfsRqOf e := if e < 2 then 1 else root
  myQ e := if e = 10 then some 1 else none
  throttled _ := false
  path e := if e < 2 then [e,10] else [e]
  path_eq e := by split <;> simp
  parent_owns e g up := by
    split at up
    next inner => cases up; simp [inner]
    · contradiction
  top e up := by
    split at up
    · contradiction
    next outer => simp [outer]
  one_owner g g' q owns owns' := by
    split at owns <;> split at owns' <;> simp_all
  root_unowned g := by split <;> simp [root]
  root_unthrottled := rfl

def oneGroupRun : Sched :=
  enqueueTaskFair basePlatform oneGroup
    (enqueueTaskFair basePlatform oneGroup (emptySched fun _ => 1024) 0 ⟨false,false⟩ fun _ => 1)
    2 ⟨true,false⟩ fun _ => 2

theorem task_run_counts_one_group :
    (oneGroupRun.entity 10).onRq = true ∧ oneGroupRun.nrRunning = 2 ∧ ∃ queued : Finset Nat,
      (∀ e, e ∈ queued ↔ (oneGroupRun.entity e).onRq = true) ∧
      oneGroupRun.nrRunning =
        (queued.filter fun p => oneGroup.isTask p ∧ oneGroup.unthrottled p).card := by
  have start : Empty (emptySched fun _ => 1024) :=
    ⟨fun _ => rfl,fun _ => show 0 < 1024 by decide,fun _ => ⟨rfl,rfl,rfl⟩,rfl⟩
  have run : TaskRun basePlatform oneGroup oneGroupRun :=
    .enqueue 2 ⟨true,false⟩ _ (.enqueue 0 ⟨false,false⟩ _ (.empty start) rfl rfl) rfl rfl
  obtain ⟨queued,mem,_,_,_,_,total⟩ := task_run_counts run
  exact ⟨rfl,rfl,queued,mem,total⟩

end Run

end Kernal.Cfs
