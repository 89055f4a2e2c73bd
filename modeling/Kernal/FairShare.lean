import Mathlib.Algebra.Order.BigOperators.Group.Finset

/-! Sharing one server fairly. Every agent has a time it has used; the one furthest behind is
served and charged, and then whoever is furthest behind is next. Times count from a base that
follows the least of them. -/
namespace Kernal.FairShare

variable {α : Type} [DecidableEq α] {agents : Finset α} {t t' t'' : α → Int} {p p' f : α} {c c' : Int} {d : Nat}

/-- `p` is charged `c`, and the base follows unless nothing happens. -/
structure Advance (agents : Finset α) (p : α) (t : α → Int) (c : Int) (t' : α → Int) : Prop where
  times : ∃ base, 0 ≤ base ∧ (∀ e ∈ agents, t' e + base = if e = p then t e + c else t e) ∧
    (c = 0 ∧ base = 0 ∨ ∃ e ∈ agents, t' e = 0)
  nonneg : ∀ e ∈ agents, 0 ≤ t' e

/-- `p` is furthest behind, the others are at most `d` ahead of it, and so is `p` of the base. -/
structure Together (agents : Finset α) (d : Nat) (t : α → Int) (p : α) : Prop where
  member : p ∈ agents
  least : ∀ e ∈ agents, t p ≤ t e
  spread : ∀ e ∈ agents, t e ≤ t p + d
  based : 0 ≤ t p ∧ t p ≤ d

theorem Advance.trans (first : Advance agents p t c t') (second : Advance agents p t' c' t'') :
    Advance agents p t (c + c') t'' := by
  obtain ⟨base,forward,times,moved⟩ := first.times
  obtain ⟨base',forward',times',moved'⟩ := second.times
  refine ⟨⟨base + base',by omega,fun e member => ?_,?_⟩,second.nonneg⟩
  · have early := times e member
    have late := times' e member
    by_cases here : e = p
    · rw [if_pos here] at early late ⊢
      omega
    · rw [if_neg here] at early late ⊢
      omega
  · rcases moved' with ⟨uncharged,still⟩ | follows
    · rcases moved with ⟨free,fixed⟩ | ⟨e,member,zero⟩
      · exact .inl ⟨by omega,by omega⟩
      · right
        refine ⟨e,member,?_⟩
        have late := times' e member
        rw [uncharged,still,Int.add_zero,Int.add_zero,ite_self] at late
        rw [late,zero]
    · exact .inr follows

/-- While one is charged nobody's time grows past twice the bound. -/
theorem Together.bounded (level : Together agents d t p) (advance : Advance agents p t c t') (most : c ≤ d) :
    ∀ e ∈ agents, t' e ≤ 2 * d := by
  obtain ⟨base,forward,times,_⟩ := advance.times
  obtain ⟨_,low⟩ := level.based
  intro e member
  have time := times e member
  by_cases here : e = p
  · subst here
    rw [if_pos rfl] at time
    omega
  · have spread := level.spread e member
    rw [if_neg here] at time
    omega

/-- A turn: whoever is furthest behind is charged, and whoever is then furthest behind is next. -/
theorem Together.next (level : Together agents d t p) (advance : Advance agents p t c t') (charged : 0 ≤ c)
    (most : c ≤ d) (member : p' ∈ agents) (least : ∀ e ∈ agents, t' p' ≤ t' e) : Together agents d t' p' := by
  obtain ⟨base,_,times,moved⟩ := advance.times
  have chosen := times p' member
  have before := level.least p' member
  refine ⟨member,least,fun e inside => ?_,advance.nonneg p' member,?_⟩
  · -- Nobody is ahead of the old bound, and the least time has not gone back.
    have time := times e inside
    have floor : t p ≤ t' p' + base := by
      split at chosen <;> omega
    by_cases here : e = p
    · subst here
      rw [if_pos rfl] at time
      omega
    · have spread := level.spread e inside
      rw [if_neg here] at time
      omega
  · rcases moved with ⟨free,fixed⟩ | ⟨e,inside,zero⟩
    · have own := times p level.member
      have behind := least p level.member
      have low := level.based.2
      rw [if_pos rfl] at own
      omega
    · have behind := least e inside
      omega

section Waiting

variable (least : Nat)

/-- How often an agent that is `x` behind may be served before it is ahead, where each time
costs `least` or more. -/
def turnsBefore (x : Int) : Nat := if x < 0 then 0 else x.toNat / least + 1

/-- How often the others may be served before `f` is. -/
def waits (agents : Finset α) (t : α → Int) (f : α) : Nat :=
  ∑ e ∈ agents.erase f, turnsBefore least (t f - t e)

variable {least}

theorem turnsBefore_falls (positive : 0 < least) {x : Int} (behind : 0 ≤ x) (charged : least ≤ c) :
    turnsBefore least (x - c) < turnsBefore least x := by
  unfold turnsBefore
  rw [if_neg (Int.not_lt.mpr behind)]
  split
  · exact Nat.succ_pos _
  next still =>
    apply Nat.succ_lt_succ
    have fewer : (x - c).toNat + least ≤ x.toNat := by omega
    calc (x - c).toNat / least < (x - c).toNat / least + 1 := Nat.lt_succ_self _
      _ = ((x - c).toNat + least) / least := (Nat.add_div_right _ positive).symm
      _ ≤ x.toNat / least := Nat.div_le_div_right fewer

theorem waits_pos (level : Together agents d t p) (other : p ≠ f) (member : f ∈ agents) :
    0 < waits least agents t f := by
  have behind := level.least f member
  apply Finset.sum_pos'
  · exact fun e _ => Nat.zero_le _
  · refine ⟨p,Finset.mem_erase.mpr ⟨other,level.member⟩,?_⟩
    rw [turnsBefore,if_neg (by omega)]
    exact Nat.succ_pos _

/-- Each turn of another agent brings the turn of `f` nearer. -/
theorem waits_falls (positive : 0 < least) (level : Together agents d t p) (advance : Advance agents p t c t')
    (charged : least ≤ c) (other : p ≠ f) (member : f ∈ agents) :
    waits least agents t' f < waits least agents t f := by
  obtain ⟨base,_,times,_⟩ := advance.times
  have own := times f member
  rw [if_neg (Ne.symm other)] at own
  apply Finset.sum_lt_sum
  · intro e inside
    have time := times e (Finset.mem_of_mem_erase inside)
    by_cases here : e = p
    · subst here
      rw [if_pos rfl] at time
      have falls := turnsBefore_falls positive (Int.sub_nonneg_of_le (level.least f member)) charged
      rw [show t' f - t' e = t f - t e - c by omega]
      exact Nat.le_of_lt falls
    · rw [if_neg here] at time
      rw [show t' f - t' e = t f - t e by omega]
  · have time := times p level.member
    rw [if_pos rfl] at time
    refine ⟨p,Finset.mem_erase.mpr ⟨other,level.member⟩,?_⟩
    rw [show t' f - t' p = t f - t p - c by omega]
    exact turnsBefore_falls positive (Int.sub_nonneg_of_le (level.least f member)) charged

theorem waits_le (level : Together agents d t p) (member : f ∈ agents) :
    waits least agents t f ≤ (agents.card - 1) * (d / least + 1) := by
  rw [← Finset.card_erase_of_mem member]
  apply Finset.sum_le_card_nsmul
  intro e inside
  have behind := level.least e (Finset.mem_of_mem_erase inside)
  have spread := level.spread f member
  unfold turnsBefore
  split
  · exact Nat.zero_le _
  · apply Nat.succ_le_succ
    apply Nat.div_le_div_right
    omega

end Waiting

end Kernal.FairShare
