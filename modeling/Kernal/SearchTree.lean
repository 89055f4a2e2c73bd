import Mathlib.Data.List.Pairwise
import Mathlib.Data.Tree.Basic
import Mathlib.Order.Lattice

/-! Binary search trees whose nodes are linked below a leaf found by comparison and
then rebalanced by a library that keeps the in-order sequence. The comparison is an
arbitrary test: a sequence stays sorted only while the test agrees with its keys. -/
namespace Kernal.SearchTree

variable {α : Type*} {x y : α} {t : BinaryTree α}

def inorder : BinaryTree α → List α
  | .nil => []
  | .node v l r => inorder l ++ v :: inorder r

/-- Goes left of the nodes that pass the test and right of the others. -/
def link (x : α) (before : α → Bool) : BinaryTree α → BinaryTree α
  | .nil => .node x .nil .nil
  | .node v l r =>
    if before v then .node v (link x before l) r else .node v l (link x before r)

def leftmost (before : α → Bool) : BinaryTree α → Bool
  | .nil => true
  | .node v l _ => before v && leftmost before l

def following [DecidableEq α] (x : α) : List α → Option α
  | [] => none
  | y :: rest => if y = x then rest.head? else following x rest

/-- Rebalancing after an insertion, and removal, as far as the sequence goes. -/
structure Balancer (α : Type*) [DecidableEq α] where
  insertColor : α → BinaryTree α → BinaryTree α
  erase : α → BinaryTree α → BinaryTree α
  inorder_insertColor : ∀ x t, inorder (insertColor x t) = inorder t
  inorder_erase : ∀ x t, x ∈ inorder t → inorder (erase x t) = (inorder t).erase x

def chain : List α → BinaryTree α
  | [] => .nil
  | x :: rest => .node x .nil (chain rest)

theorem inorder_chain (l : List α) : inorder (chain l) = l := by
  induction l with
  | nil => rfl
  | cons x rest ih => simp [chain,inorder,ih]

theorem inorder_eq_nil : inorder t = [] ↔ t = .nil := by
  cases t <;> simp [inorder]

/-- A library that never rebalances. -/
def plainBalancer [DecidableEq α] : Balancer α where
  insertColor _ t := t
  erase x t := chain ((inorder t).erase x)
  inorder_insertColor _ _ := rfl
  inorder_erase _ _ _ := inorder_chain _

/-- The new entry stands between a front and a back of the old sequence. -/
theorem link_split (x : α) (before : α → Bool) (t : BinaryTree α) :
    ∃ front back, inorder t = front ++ back ∧ inorder (link x before t) = front ++ x :: back ∧
      (leftmost before t = true ↔ front = []) := by
  induction t with
  | nil => exact ⟨[],[],rfl,rfl,by simp [leftmost]⟩
  | node v l r ihl ihr =>
    cases turn : before v with
    | true =>
      obtain ⟨front,back,old,new,first⟩ := ihl
      refine ⟨front,back ++ v :: inorder r,?_,?_,?_⟩
      · simp [inorder,old]
      · simp [link,turn,inorder,new]
      · simpa [leftmost,turn] using first
    | false =>
      obtain ⟨front,back,old,new,_⟩ := ihr
      refine ⟨inorder l ++ v :: front,back,?_,?_,?_⟩
      · simp [inorder,old]
      · simp [link,turn,inorder,new]
      · simp [leftmost,turn]

theorem link_perm (x : α) (before : α → Bool) (t : BinaryTree α) :
    (inorder (link x before t)).Perm (x :: inorder t) := by
  obtain ⟨front,back,old,new,_⟩ := link_split x before t
  rw [old,new]
  exact List.perm_middle

/-- The cached first entry after an insertion. -/
theorem link_head (x : α) (before : α → Bool) (t : BinaryTree α) :
    (inorder (link x before t)).head? =
      if leftmost before t = true then some x else (inorder t).head? := by
  obtain ⟨front,back,old,new,first⟩ := link_split x before t
  rw [old,new]
  cases front with
  | nil => simp [first.mpr rfl]
  | cons y front =>
    have turned : ¬leftmost before t = true := fun h => List.cons_ne_nil _ _ (first.mp h)
    simp [turned]

/-- A descent that never goes right passes the first entry. -/
theorem leftmost_head (turned : leftmost before t = true) (front : (inorder t).head? = some y) :
    before y = true := by
  induction t with
  | nil => contradiction
  | node v l r ihl _ =>
    simp only [leftmost,Bool.and_eq_true] at turned
    simp only [inorder,List.head?_append,List.head?_cons] at front
    cases first : (inorder l).head? with
    | none =>
      rw [first] at front
      exact Option.some.inj front ▸ turned.1
    | some z =>
      rw [first] at front
      exact ihl turned.2 (first.trans front)

/-- The sequence stays sorted by keys that the test agrees with. -/
theorem link_sorted [LinearOrder κ] (key : α → κ) (before : α → Bool)
    (sorted : (inorder t).Pairwise fun a b => key a ≤ key b)
    (agrees : ∀ y ∈ inorder t, before y = true ↔ key x < key y) :
    (inorder (link x before t)).Pairwise fun a b => key a ≤ key b := by
  induction t with
  | nil => simp [link,inorder]
  | node v l r ihl ihr =>
    simp only [inorder,List.pairwise_append,List.pairwise_cons,List.mem_cons] at sorted
    obtain ⟨left,⟨above,right⟩,below⟩ := sorted
    have turn := agrees v (by simp [inorder])
    have members (t : BinaryTree α) {y : α} (h : y ∈ inorder (link x before t)) :
        y = x ∨ y ∈ inorder t := by
      simpa using (link_perm x before t).mem_iff.mp h
    simp only [link]
    split
    next goes =>
      have less := turn.mp goes
      simp only [inorder,List.pairwise_append,List.pairwise_cons,List.mem_cons]
      refine ⟨ihl left fun y h => agrees y (by simp [inorder,h]),⟨above,right⟩,?_⟩
      intro a ha b hb
      rcases members l ha with rfl | ha
      · rcases hb with rfl | hb
        · exact le_of_lt less
        · exact le_trans (le_of_lt less) (above b hb)
      · exact below a ha b hb
    next goes =>
      have least : key v ≤ key x := not_lt.mp fun less => goes (turn.mpr less)
      simp only [inorder,List.pairwise_append,List.pairwise_cons,List.mem_cons]
      refine ⟨left,⟨?_,ihr right fun y h => agrees y (by simp [inorder,h])⟩,?_⟩
      · intro b hb
        rcases members r hb with rfl | hb
        · exact least
        · exact above b hb
      · intro a ha b hb
        rcases hb with rfl | hb
        · exact below a ha b (.inl rfl)
        · rcases members r hb with rfl | hb
          · exact le_trans (below a ha v (.inl rfl)) least
          · exact below a ha b (.inr hb)

/-- Where the test holds from some entry on, the new entry stands right before that one. -/
theorem link_split_at (x : α) (before : α → Bool)
    (upward : (inorder t).Pairwise fun a b => before a = true → before b = true) :
    ∃ front back, inorder t = front ++ back ∧ inorder (link x before t) = front ++ x :: back ∧
      (∀ y ∈ front, before y = false) ∧ ∀ y ∈ back, before y = true := by
  induction t with
  | nil => exact ⟨[],[],rfl,rfl,by simp,by simp⟩
  | node v l r ihl ihr =>
    simp only [inorder,List.pairwise_append,List.pairwise_cons,List.mem_cons] at upward
    obtain ⟨left,⟨above,right⟩,below⟩ := upward
    cases turn : before v with
    | true =>
      obtain ⟨front,back,old,new,low,high⟩ := ihl left
      refine ⟨front,back ++ v :: inorder r,by simp [inorder,old],by simp [link,turn,inorder,new],low,?_⟩
      intro y member
      rcases List.mem_append.mp member with near | far
      · exact high y near
      · rcases List.mem_cons.mp far with rfl | far
        · exact turn
        · exact above y far turn
    | false =>
      obtain ⟨front,back,old,new,low,high⟩ := ihr right
      refine ⟨inorder l ++ v :: front,back,by simp [inorder,old],by simp [link,turn,inorder,new],?_,high⟩
      intro y member
      rcases List.mem_append.mp member with far | near
      · refine Bool.eq_false_iff.mpr fun holds => ?_
        have here := below y far v (.inl rfl) holds
        rw [turn] at here
        contradiction
      · rcases List.mem_cons.mp near with rfl | near
        · exact turn
        · exact low y near

/-- The cached first entry after a removal. -/
theorem erase_head [DecidableEq α] (x : α) (l : List α) :
    (l.erase x).head? = if l.head? = some x then following x l else l.head? := by
  cases l with
  | nil => simp
  | cons y rest =>
    by_cases same : y = x
    · subst y; simp [following]
    · simp [same,List.erase_cons_tail]

theorem following_mem [DecidableEq α] {l : List α} (next : following x l = some y) : y ∈ l := by
  induction l with
  | nil => contradiction
  | cons z rest ih =>
    simp only [following] at next
    split at next
    · exact List.mem_cons_of_mem _ (List.mem_of_head? next)
    · exact List.mem_cons_of_mem _ (ih next)

end Kernal.SearchTree
