import Mathlib.Data.List.Lex
import Mathlib.Order.Lattice

/-! Sequences that end with a mark which stands nowhere else in them. Two of them are equal or
part at a place that both have, so that the first difference decides every lexicographic order. -/
namespace Kernal.Terminated

variable {α κ : Type*} {t x y : α} {a b common xs ys : List α}

/-- What two sequences hold at the first place where they differ. -/
def firstDifference [DecidableEq α] : List α → List α → Option (α × α)
  | x :: xs, y :: ys => if x = y then firstDifference xs ys else some (x, y)
  | _, _ => none

section Difference

variable [DecidableEq α]

theorem firstDifference_append (common xs ys : List α) :
    firstDifference (common ++ xs) (common ++ ys) = firstDifference xs ys := by
  induction common with
  | nil => rfl
  | cons x common ih =>
    rw [List.cons_append,List.cons_append,firstDifference,if_pos rfl]
    exact ih

theorem firstDifference_self (xs : List α) : firstDifference xs xs = none := by
  have split := firstDifference_append xs [] []
  rwa [List.append_nil] at split

theorem firstDifference_parts (other : x ≠ y) :
    firstDifference (common ++ x :: xs) (common ++ y :: ys) = some (x, y) := by
  rw [firstDifference_append,firstDifference,if_neg other]

end Difference

structure Parts (t : α) (a b common : List α) (x y : α) (xs ys : List α) : Prop where
  unmarked : t ∉ common
  other : x ≠ y
  left : a ++ [t] = common ++ x :: xs
  right : b ++ [t] = common ++ y :: ys

theorem Parts.swap (parts : Parts t a b common x y xs ys) : Parts t b a common y x ys xs :=
  ⟨parts.unmarked,parts.other.symm,parts.right,parts.left⟩

theorem Parts.ne (parts : Parts t a b common x y xs ys) : a ≠ b := by
  rintro rfl
  have same := List.append_cancel_left (parts.left.symm.trans parts.right)
  exact parts.other (List.cons.inj same).1

theorem Parts.cons (first : z ≠ t) (parts : Parts t a b common x y xs ys) :
    Parts t (z :: a) (z :: b) (z :: common) x y xs ys := by
  refine ⟨?_,parts.other,congrArg (z :: ·) parts.left,congrArg (z :: ·) parts.right⟩
  exact List.not_mem_cons_of_ne_of_not_mem first.symm parts.unmarked

theorem eq_or_parts (left : t ∉ a) (right : t ∉ b) :
    a = b ∨ ∃ common x y xs ys, Parts t a b common x y xs ys := by
  induction a generalizing b with
  | nil =>
    cases b with
    | nil => exact .inl rfl
    | cons y b => exact .inr ⟨[],t,y,[],b ++ [t],by simp,List.ne_of_not_mem_cons right,rfl,rfl⟩
  | cons x a ih =>
    have first : x ≠ t := (List.ne_of_not_mem_cons left).symm
    cases b with
    | nil => exact .inr ⟨[],x,t,a ++ [t],[],by simp,first,rfl,rfl⟩
    | cons y b =>
      by_cases same : x = y
      · subst same
        rcases ih (List.not_mem_of_not_mem_cons left) (List.not_mem_of_not_mem_cons right) with equal | parts
        · exact .inl (congrArg (x :: ·) equal)
        · obtain ⟨_,_,_,_,_,parts⟩ := parts
          exact .inr ⟨_,_,_,_,_,parts.cons first⟩
      · exact .inr ⟨[],x,y,a ++ [t],b ++ [t],by simp,same,rfl,rfl⟩

section Order

variable [LinearOrder κ] {f : α → κ}

theorem append_lt_append (front us vs : List κ) : front ++ us < front ++ vs ↔ us < vs := by
  induction front with
  | nil => rfl
  | cons u front ih => simpa [List.cons_lt_cons_iff] using ih

/-- The keys of the first difference decide. -/
theorem Parts.lt_iff (parts : Parts t a b common x y xs ys) (keys : f x ≠ f y) :
    (a ++ [t]).map f < (b ++ [t]).map f ↔ f x < f y := by
  rw [parts.left,parts.right,List.map_append,List.map_append,append_lt_append,List.map_cons,List.map_cons,
    List.cons_lt_cons_iff]
  exact ⟨fun less => less.resolve_right fun same => keys same.1,.inl⟩

/-- A mark below all entries takes the place of the end. -/
theorem lt_iff_marked {u : κ} {us vs : List κ} (left : ∀ v ∈ us, u < v) (right : ∀ v ∈ vs, u < v) :
    us < vs ↔ us ++ [u] < vs ++ [u] := by
  induction us generalizing vs with
  | nil =>
    cases vs with
    | nil => simp
    | cons v vs => simp [List.cons_lt_cons_iff,right v List.mem_cons_self]
  | cons v us ih =>
    obtain ⟨first,rest⟩ := List.forall_mem_cons.mp left
    cases vs with
    | nil => simp [List.cons_lt_cons_iff,first.not_gt,first.ne']
    | cons w vs =>
      have later := ih rest (List.forall_mem_cons.mp right).2
      simp only [List.cons_append,List.cons_lt_cons_iff,later]

end Order

end Kernal.Terminated
