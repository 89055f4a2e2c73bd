import Kernal.CfsPaths
import Kernal.CfsTally
import Mathlib.Algebra.BigOperators.Group.Finset.Basic
import Mathlib.Algebra.Order.BigOperators.Group.Finset
import Mathlib.Data.Finset.Card

/-! The walks of the two task operations. The walk that queues or removes entities stops
where a parent need not change, and the counting walk goes on from there to the first
throttled queue: together they pass the same levels in either operation. -/
namespace Kernal.Cfs

namespace Tally

variable (h : Hierarchy)

/-- Counters of the queues' own entities. -/
structure Balanced (t : Tally) (queued : Finset Nat) : Prop where
  mem : ∀ e, e ∈ queued ↔ t.onRq e = true
  nr : ∀ q, t.nr q = (queued.filter (h.cfsRqOf · = q)).card
  load : ∀ q, t.load q = ∑ e ∈ queued.filter (h.cfsRqOf · = q), t.weight e

/-- Group entities are queued as their queues require, but for `pending`. -/
def Settled (t : Tally) (pending : Option Nat) : Prop :=
  ∀ g q, h.myQ g = some q → pending ≠ some g →
    (t.onRq g = true ↔ h.throttled q = false ∧ 0 < t.nr q)

theorem Balanced.enqueueEntity (balanced : Balanced h t queued) (off : t.onRq e = false) :
    Balanced h (t.enqueueEntity (h.cfsRqOf e) e) (insert e queued) := by
  have fresh : e ∉ queued := by simp [balanced.mem,off]
  have split (q : Nat) : (insert e queued).filter (h.cfsRqOf · = q) =
      if h.cfsRqOf e = q then insert e (queued.filter (h.cfsRqOf · = q))
      else queued.filter (h.cfsRqOf · = q) := Finset.filter_insert ..
  refine ⟨?_,?_,?_⟩
  · intro f
    by_cases same : f = e
    · simp [Tally.enqueueEntity,same]
    · simp [Tally.enqueueEntity,same,balanced.mem]
  · intro q
    rw [split]
    split
    next here =>
      subst q
      rw [Finset.card_insert_of_notMem (by simp [fresh]),← balanced.nr]
      simp [Tally.enqueueEntity]
    next other =>
      rw [← balanced.nr]
      simp [Tally.enqueueEntity,Function.update_of_ne (Ne.symm other)]
  · intro q
    rw [split]
    split
    next here =>
      subst q
      rw [Finset.sum_insert (by simp [fresh])]
      change Function.update t.load _ _ _ = t.weight e + ∑ x ∈ _, t.weight x
      rw [Function.update_self,← balanced.load,Nat.add_comm]
    next other =>
      change Function.update t.load _ _ _ = ∑ x ∈ _, t.weight x
      rw [Function.update_of_ne (Ne.symm other),balanced.load]

theorem Balanced.dequeueEntity (balanced : Balanced h t queued) (on : t.onRq e = true) :
    Balanced h (t.dequeueEntity (h.cfsRqOf e) e) (queued.erase e) := by
  have present : e ∈ queued := (balanced.mem e).mpr on
  have split (q : Nat) : (queued.erase e).filter (h.cfsRqOf · = q) =
      (queued.filter (h.cfsRqOf · = q)).erase e := Finset.filter_erase ..
  refine ⟨?_,?_,?_⟩
  · intro f
    by_cases same : f = e
    · simp [Tally.dequeueEntity,same]
    · simp [Tally.dequeueEntity,same,balanced.mem]
  · intro q
    rw [split]
    by_cases here : h.cfsRqOf e = q
    · subst q
      rw [Finset.card_erase_of_mem (by simp [present]),← balanced.nr]
      simp [Tally.dequeueEntity]
    · rw [Finset.erase_eq_of_notMem (by simp [here]),← balanced.nr]
      simp [Tally.dequeueEntity,Function.update_of_ne (Ne.symm here)]
  · intro q
    rw [split]
    change Function.update t.load _ _ _ = ∑ x ∈ _, t.weight x
    by_cases here : h.cfsRqOf e = q
    · subst q
      have total := Finset.add_sum_erase (queued.filter (h.cfsRqOf · = h.cfsRqOf e)) t.weight
        (a := e) (by simp [present])
      rw [Function.update_self,balanced.load,← total]
      omega
    · rw [Finset.erase_eq_of_notMem (by simp [here]),Function.update_of_ne (Ne.symm here),balanced.load]

theorem Balanced.nr_pos (balanced : Balanced h t queued) (on : t.onRq e = true) :
    0 < t.nr (h.cfsRqOf e) := by
  rw [balanced.nr,Finset.card_pos]
  exact ⟨e,by simp [balanced.mem,on]⟩

/-- With positive weights an empty queue is one without load. -/
theorem Balanced.load_eq_zero (balanced : Balanced h t queued) (positive : ∀ e, 0 < t.weight e) :
    t.load q = 0 ↔ t.nr q = 0 := by
  rw [balanced.load,balanced.nr,Finset.card_eq_zero,Finset.sum_eq_zero_iff]
  constructor
  · intro zero
    apply Finset.eq_empty_of_forall_notMem
    intro e member
    have weight := positive e
    have none := zero e member
    omega
  · intro empty e member
    rw [empty] at member
    simp at member

section Walk

variable {h} {t : Tally} {queued : Finset Nat}

/-- Changing one queue unsettles at most its owner. -/
theorem Settled.step (settled : Settled h t (some e)) (own : ∀ q, h.myQ e = some q →
      (t'.onRq e = true ↔ h.throttled q = false ∧ 0 < t'.nr q))
    (onRq : ∀ g, g ≠ e → t'.onRq g = t.onRq g) (nr : ∀ q, q ≠ h.cfsRqOf e → t'.nr q = t.nr q) :
    Settled h t' (h.parentEntity e) := by
  intro g q owns free
  by_cases same : g = e
  · subst g; exact own q owns
  · have elsewhere : q ≠ h.cfsRqOf e := by
      rintro rfl
      cases up : h.parentEntity e with
      | none => exact h.root_unowned g (by rw [owns,h.top e up])
      | some g' => exact free (by rw [up,h.one_owner g g' _ owns (h.parent_owns e g' up)])
    rw [onRq g same,nr q elsewhere]
    exact settled g q owns (fun eq => same (Option.some.inj eq).symm)

/-- The pending owner turns out to be right as it is. -/
theorem Settled.close (settled : Settled h t (h.parentEntity e))
    (owner : ∀ g, h.parentEntity e = some g →
      (t.onRq g = true ↔ h.throttled (h.cfsRqOf e) = false ∧ 0 < t.nr (h.cfsRqOf e))) :
    Settled h t none := by
  intro g q owns _
  by_cases above : h.parentEntity e = some g
  · have same := (h.parent_owns e g above).symm.trans owns
    rw [← Option.some.inj same]
    exact owner g above
  · exact settled g q owns above

/-- How the parent of the pending entity stands before the step. -/
theorem Settled.parent (settled : Settled h t (some e)) (above : h.parentEntity e = some g) :
    t.onRq g = true ↔ h.throttled (h.cfsRqOf e) = false ∧ 0 < t.nr (h.cfsRqOf e) :=
  settled g _ (h.parent_owns e g above) fun eq => h.parent_ne above (Option.some.inj eq).symm

theorem Settled.enqueueEntity (settled : Settled h t (some e))
    (due : ∀ q, h.myQ e = some q → h.throttled q = false ∧ 0 < t.nr q) :
    Settled h (t.enqueueEntity (h.cfsRqOf e) e) (h.parentEntity e) := by
  refine settled.step ?_ ?_ ?_
  · intro q owns
    obtain ⟨clear,some⟩ := due q owns
    refine iff_of_true (by simp [Tally.enqueueEntity]) ⟨clear,?_⟩
    simp only [Tally.enqueueEntity,Function.update_apply]
    split <;> omega
  · intro g different
    simp [Tally.enqueueEntity,different]
  · intro q different
    simp [Tally.enqueueEntity,different]

theorem Settled.dequeueEntity (settled : Settled h t (some e))
    (emptied : ∀ q, h.myQ e = some q → t.nr q = 0) :
    Settled h (t.dequeueEntity (h.cfsRqOf e) e) (h.parentEntity e) := by
  refine settled.step ?_ ?_ ?_
  · intro q owns
    have none := emptied q owns
    refine iff_of_false (by simp [Tally.dequeueEntity]) ?_
    rintro ⟨_,some⟩
    simp only [Tally.dequeueEntity,Function.update_apply] at some
    split at some
    next here => subst q; omega
    · omega
  · intro g different
    simp [Tally.dequeueEntity,different]
  · intro q different
    simp [Tally.dequeueEntity,different]

theorem enqueueLoop_settled (l : List Nat) (walk : l = h.walk o) (balanced : Balanced h t queued)
    (settled : Settled h t o)
    (due : ∀ e q, o = some e → h.myQ e = some q → h.throttled q = false ∧ 0 < t.nr q) :
    ∃ queued', Balanced h (enqueueLoop h l t).2 queued' ∧ Settled h (enqueueLoop h l t).2 none ∧
      ∀ x, h.myQ x = none → (x ∈ queued' ↔ x ∈ queued ∨ o = some x) := by
  induction l generalizing o t queued with
  | nil =>
    obtain rfl := h.walk_nil walk
    exact ⟨queued,balanced,settled,by simp⟩
  | cons e up ih =>
    obtain ⟨rfl,rest⟩ := h.walk_cons walk
    simp only [enqueueLoop]
    cases on : t.onRq e with
    | true =>
      refine ⟨queued,balanced,?_,?_⟩
      · intro g q owns _
        by_cases same : g = e
        · subst g; exact iff_of_true on (due e q rfl owns)
        · exact settled g q owns (fun eq => same (Option.some.inj eq).symm)
      · intro x _
        simp only [Option.some.injEq,iff_self_or]
        rintro rfl
        exact (balanced.mem e).mpr on
    | false =>
      have added := balanced.enqueueEntity h on
      have step := settled.enqueueEntity fun q => due e q rfl
      have entered {x : Nat} : x ∈ insert e queued ↔ x ∈ queued ∨ some e = some x := by
        rw [Finset.mem_insert,Option.some.injEq,or_comm,eq_comm]
      rw [if_neg (by simp)]
      split
      next throttled =>
        refine ⟨insert e queued,added,step.close ?_,fun x _ => entered⟩
        intro g above
        have off : t.onRq g = false := by simpa [throttled] using settled.parent above
        simp [Tally.enqueueEntity,Function.update_of_ne (h.parent_ne above),off,throttled]
      next clear =>
        obtain ⟨queued',balanced',settled',tasks⟩ := ih rest
          (t := (t.enqueueEntity (h.cfsRqOf e) e).count (h.cfsRqOf e) (· + 1))
          ⟨added.mem,added.nr,added.load⟩ step (by
            intro g q above owns
            have same := (h.parent_owns e g above).symm.trans owns
            rw [← Option.some.inj same]
            exact ⟨by simpa using clear,by simp [Tally.count,Tally.enqueueEntity]⟩)
        refine ⟨queued',balanced',settled',?_⟩
        intro x task
        rw [tasks x task,entered,or_iff_left (h.task_not_parent task)]

theorem dequeueLoop_settled (l : List Nat) (walk : l = h.walk o) (balanced : Balanced h t queued)
    (positive : ∀ e, 0 < t.weight e) (settled : Settled h t o)
    (due : ∀ e, o = some e → t.onRq e = true ∧ ∀ q, h.myQ e = some q → t.nr q = 0) :
    ∃ queued', Balanced h (dequeueLoop h l t).2 queued' ∧ Settled h (dequeueLoop h l t).2 none ∧
      ∀ x, h.myQ x = none → (x ∈ queued' ↔ x ∈ queued ∧ o ≠ some x) := by
  induction l generalizing o t queued with
  | nil =>
    obtain rfl := h.walk_nil walk
    exact ⟨queued,balanced,settled,by simp⟩
  | cons e up ih =>
    obtain ⟨rfl,rest⟩ := h.walk_cons walk
    obtain ⟨on,emptied⟩ := due e rfl
    have removed := balanced.dequeueEntity h on
    have occupied := balanced.nr_pos h on
    have step := settled.dequeueEntity emptied
    have left {x : Nat} : x ∈ queued.erase e ↔ x ∈ queued ∧ some e ≠ some x := by
      rw [Finset.mem_erase,and_comm,ne_eq,ne_eq,Option.some.injEq,eq_comm]
    -- The parent was queued exactly when this queue was not throttled.
    have owner (g : Nat) (above : h.parentEntity e = some g) :
        (t.dequeueEntity (h.cfsRqOf e) e).onRq g = true ↔ h.throttled (h.cfsRqOf e) = false := by
      simpa [Tally.dequeueEntity,Function.update_of_ne (h.parent_ne above),occupied] using settled.parent above
    have kept (g : Nat) (above : h.parentEntity e = some g)
        (still : h.throttled (h.cfsRqOf e) = true ∨ 0 < (t.dequeueEntity (h.cfsRqOf e) e).nr (h.cfsRqOf e)) :
        (t.dequeueEntity (h.cfsRqOf e) e).onRq g = true ↔ h.throttled (h.cfsRqOf e) = false ∧
          0 < (t.dequeueEntity (h.cfsRqOf e) e).nr (h.cfsRqOf e) := by
      rw [owner g above]
      rcases still with throttled | stays
      · simp [throttled]
      · simp [stays]
    have load := removed.load_eq_zero h positive (q := h.cfsRqOf e)
    simp only [dequeueLoop]
    split
    next throttled =>
      exact ⟨queued.erase e,removed,step.close fun g above => kept g above (.inl throttled),
        fun x _ => left⟩
    next clear =>
      have counted : Balanced h ((t.dequeueEntity (h.cfsRqOf e) e).count (h.cfsRqOf e) (· - 1))
        (queued.erase e) := ⟨removed.mem,removed.nr,removed.load⟩
      split
      next others =>
        have stays : 0 < (t.dequeueEntity (h.cfsRqOf e) e).nr (h.cfsRqOf e) :=
          Nat.pos_of_ne_zero fun none => others (load.mpr none)
        have closed := step.close fun g above => kept g above (.inr stays)
        exact ⟨queued.erase e,counted,closed,fun x _ => left⟩
      next none =>
        have none := load.mp (not_not.mp none)
        obtain ⟨queued',balanced',settled',tasks⟩ := ih rest counted positive step (by
          intro g above
          refine ⟨(owner g above).mpr (by simpa using clear),?_⟩
          intro q owns
          have same := (h.parent_owns e g above).symm.trans owns
          rw [← Option.some.inj same]
          exact none)
        refine ⟨queued',balanced',settled',?_⟩
        intro x task
        rw [tasks x task,left,and_iff_left (h.task_not_parent task)]

theorem countLoop_same (f : Nat → Nat) (l : List Nat) (t : Tally) :
    (countLoop h f l t).2 = { t with hNr := (countLoop h f l t).2.hNr } := by
  induction l generalizing t with
  | nil => rfl
  | cons e up ih =>
    simp only [countLoop]
    split
    · rfl
    · rw [ih]
      rfl

/-- A walk has counted in the queues it reaches, and has passed the root exactly when
none of its queues is throttled. -/
structure Walked (h : Hierarchy) (f : Nat → Nat) (l : List Nat) (before : Nat → Nat)
    (result : List Nat × Tally) : Prop where
  ends : result.1 = [] ↔ ∀ e ∈ l, h.throttled (h.cfsRqOf e) = false
  counts : ∀ q, result.2.hNr q =
    if q ∈ (h.reach l).map h.cfsRqOf then f (before q) else before q

theorem Walked.cons {before : Nat → Nat}
    (walked : Walked h f up (Function.update before (h.cfsRqOf e) (f (before (h.cfsRqOf e)))) r)
    (clear : ¬h.throttled (h.cfsRqOf e) = true) (fresh : h.cfsRqOf e ∉ up.map h.cfsRqOf) :
    Walked h f (e :: up) before r where
  ends := by simp [walked.ends,clear]
  counts q := by
    have absent : h.cfsRqOf e ∉ (h.reach up).map h.cfsRqOf := fun member =>
      fresh (List.map_subset _ (h.reach_subset up) member)
    simp only [walked.counts,Hierarchy.reach,if_neg clear,List.map_cons,List.mem_cons]
    by_cases here : q = h.cfsRqOf e
    · subst q; simp [absent]
    · simp [here]

theorem countLoop_walked (f : Nat → Nat) (l : List Nat) (nodup : (l.map h.cfsRqOf).Nodup) (t : Tally) :
    Walked h f l t.hNr (countLoop h f l t) := by
  induction l generalizing t with
  | nil => exact ⟨by simp [countLoop],by simp [countLoop,Hierarchy.reach]⟩
  | cons e up ih =>
    obtain ⟨fresh,nodup⟩ := List.nodup_cons.mp nodup
    simp only [countLoop]
    split
    next throttled =>
      refine ⟨by simp [throttled],fun q => ?_⟩
      by_cases here : q = h.cfsRqOf e
      · subst q; simp [Hierarchy.reach,throttled,count]
      · simp [Hierarchy.reach,throttled,count,here]
    next clear => exact (ih nodup (t.count (h.cfsRqOf e) f)).cons clear fresh

/-- The counting of the first loop and of the second add up to one walk. -/
theorem enqueueLoop_walked (l : List Nat) (nodup : (l.map h.cfsRqOf).Nodup) (t : Tally) :
    Walked h (· + 1) l t.hNr (countLoop h (· + 1) (enqueueLoop h l t).1 (enqueueLoop h l t).2) := by
  induction l generalizing t with
  | nil => exact countLoop_walked (· + 1) [] nodup t
  | cons e up ih =>
    simp only [enqueueLoop]
    split
    · exact countLoop_walked (· + 1) (e :: up) nodup t
    · split
      · exact countLoop_walked (· + 1) (e :: up) nodup (t.enqueueEntity (h.cfsRqOf e) e)
      next clear =>
        obtain ⟨fresh,nodup⟩ := List.nodup_cons.mp nodup
        exact (ih nodup ((t.enqueueEntity (h.cfsRqOf e) e).count (h.cfsRqOf e) (· + 1))).cons clear fresh

theorem dequeueLoop_walked (l : List Nat) (nodup : (l.map h.cfsRqOf).Nodup) (t : Tally) :
    Walked h (· - 1) l t.hNr (countLoop h (· - 1) (dequeueLoop h l t).1 (dequeueLoop h l t).2) := by
  induction l generalizing t with
  | nil => exact countLoop_walked (· - 1) [] nodup t
  | cons e up ih =>
    simp only [dequeueLoop]
    split
    · exact countLoop_walked (· - 1) (e :: up) nodup (t.dequeueEntity (h.cfsRqOf e) e)
    next clear =>
      obtain ⟨fresh,nodup⟩ := List.nodup_cons.mp nodup
      split
      · exact (countLoop_walked (· - 1) up nodup
          ((t.dequeueEntity (h.cfsRqOf e) e).count (h.cfsRqOf e) (· - 1))).cons clear fresh
      · exact (ih nodup ((t.dequeueEntity (h.cfsRqOf e) e).count (h.cfsRqOf e) (· - 1))).cons clear fresh

theorem enqueueLoop_same (l : List Nat) (t : Tally) :
    (enqueueLoop h l t).2.weight = t.weight ∧ (enqueueLoop h l t).2.total = t.total := by
  induction l generalizing t with
  | nil => exact ⟨rfl,rfl⟩
  | cons e up ih =>
    simp only [enqueueLoop]
    split
    · exact ⟨rfl,rfl⟩
    · split
      · exact ⟨rfl,rfl⟩
      · exact ih _

theorem dequeueLoop_same (l : List Nat) (t : Tally) :
    (dequeueLoop h l t).2.weight = t.weight ∧ (dequeueLoop h l t).2.total = t.total := by
  induction l generalizing t with
  | nil => exact ⟨rfl,rfl⟩
  | cons e up ih =>
    simp only [dequeueLoop]
    split
    · exact ⟨rfl,rfl⟩
    · split
      · exact ⟨rfl,rfl⟩
      · exact ih _

end Walk

end Tally

end Kernal.Cfs
