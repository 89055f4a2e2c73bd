import Kernal.Cfs
import Mathlib.Data.List.Nodup

/-! Paths through a hierarchy of run queues: which queues of a task's path a counting
walk reaches, and that no path meets a queue twice. -/
namespace Kernal.Cfs

namespace Hierarchy

variable (h : Hierarchy)

def isTask (e : Nat) : Bool := (h.myQ e).isNone

/-- A walk up to and including the first entity in a throttled queue. -/
def reach : List Nat → List Nat
  | [] => []
  | e :: up => if h.throttled (h.cfsRqOf e) then [e] else e :: reach up

/-- The queues on a task's path that have no throttled queue strictly below them. -/
def reachedQueues (p : Nat) : List Nat := (h.reach (h.path p)).map h.cfsRqOf

def unthrottled (p : Nat) : Bool := (h.path p).all fun e => !h.throttled (h.cfsRqOf e)

theorem mem_reach_iff : e ∈ h.reach l ↔ ∃ below above, l = below ++ e :: above ∧
    ∀ b ∈ below, h.throttled (h.cfsRqOf b) = false := by
  induction l with
  | nil => simp [reach]
  | cons f up ih =>
    simp only [reach]
    constructor
    · intro member
      split at member
      · rw [List.mem_singleton.mp member]
        exact ⟨[],up,rfl,by simp⟩
      next passes =>
        rcases List.mem_cons.mp member with rfl | member
        · exact ⟨[],up,rfl,by simp⟩
        · obtain ⟨below,above,rfl,clear⟩ := ih.mp member
          refine ⟨f :: below,above,rfl,?_⟩
          intro b hb
          rcases List.mem_cons.mp hb with rfl | hb
          · simpa using passes
          · exact clear b hb
    · rintro ⟨below,above,eq,clear⟩
      cases below with
      | nil =>
        obtain ⟨rfl,rfl⟩ := List.cons.inj eq
        split <;> simp
      | cons b below =>
        obtain ⟨rfl,rfl⟩ := List.cons.inj eq
        have first := clear f List.mem_cons_self
        rw [if_neg (by simp [first])]
        exact List.mem_cons_of_mem _ (ih.mpr ⟨below,above,rfl,fun b hb =>
          clear b (List.mem_cons_of_mem _ hb)⟩)

theorem reach_subset (l : List Nat) : h.reach l ⊆ l := by
  intro e member
  obtain ⟨below,above,rfl,_⟩ := h.mem_reach_iff.mp member
  simp

theorem path_suffix (n : Nat) (bound : (h.path g).length ≤ n) (member : e ∈ h.path g) :
    h.path e <:+ h.path g := by
  induction n generalizing g with
  | zero => rw [h.path_eq] at bound; simp at bound
  | succ n ih =>
    rw [h.path_eq g] at bound member ⊢
    rcases List.mem_cons.mp member with rfl | member
    · exact ⟨[],h.path_eq e⟩
    · cases up : h.parentEntity g with
      | none => simp [up] at member
      | some f =>
        rw [up] at member bound
        simp only [Option.elim_some,List.length_cons] at member bound
        exact (ih (by omega) member).trans (List.suffix_cons g _)

/-- A queue occurs once on a path: its owner would stand above itself otherwise. -/
theorem queue_fresh (up : h.parentEntity e = some g) (member : f ∈ h.path g) :
    h.cfsRqOf f ≠ h.cfsRqOf e := by
  intro same
  have owned := h.parent_owns e g up
  cases above : h.parentEntity f with
  | none =>
    rw [← same,h.top f above] at owned
    exact h.root_unowned g owned
  | some g' =>
    have owned' := h.parent_owns f g' above
    rw [same] at owned'
    have eq := h.one_owner g g' _ owned owned'
    subst g'
    have shorter := (h.path_suffix _ (Nat.le_refl _) member).length_le
    rw [h.path_eq f,above] at shorter
    simp only [Option.elim_some,List.length_cons] at shorter
    omega

theorem task_not_parent (task : h.myQ g = none) : h.parentEntity e ≠ some g := by
  intro up
  rw [h.parent_owns e g up] at task
  contradiction

theorem parent_ne (up : h.parentEntity e = some g) : g ≠ e := by
  rintro rfl
  have longer := congrArg List.length (h.path_eq g)
  rw [up] at longer
  simp at longer

/-- What is left of a walk at an entity, or after its end. -/
def walk (o : Option Nat) : List Nat := o.elim [] h.path

theorem walk_nil (eq : [] = h.walk o) : o = none := by
  cases o with
  | none => rfl
  | some e =>
    rw [walk,Option.elim_some,h.path_eq] at eq
    contradiction

theorem walk_cons (eq : e :: up = h.walk o) : o = some e ∧ up = h.walk (h.parentEntity e) := by
  cases o with
  | none => simp [walk] at eq
  | some f =>
    rw [walk,Option.elim_some,h.path_eq] at eq
    obtain ⟨rfl,rfl⟩ := List.cons.inj eq
    exact ⟨rfl,rfl⟩

theorem path_nodup (n : Nat) (bound : (h.path e).length ≤ n) :
    ((h.path e).map h.cfsRqOf).Nodup := by
  induction n generalizing e with
  | zero => rw [h.path_eq] at bound; simp at bound
  | succ n ih =>
    rw [h.path_eq] at bound ⊢
    cases up : h.parentEntity e with
    | none => simp
    | some g =>
      rw [up] at bound
      simp only [Option.elim_some,List.length_cons,List.map_cons,List.nodup_cons] at bound ⊢
      refine ⟨?_,ih (by omega)⟩
      intro member
      obtain ⟨f,hf,same⟩ := List.mem_map.mp member
      exact h.queue_fresh up hf same

end Hierarchy

end Kernal.Cfs
