import Kernal.ListHead

/-! Cutting a list in two. `list_is_singular` is read as returning its condition. The guard for
a list of one node compares `entry` with `head->prev` and not with `head`, so that a cut at the
head of such a list returns before it has initialised the list it is to fill. -/
namespace Kernal.ListHead

open Rings

section Operations

variable (m : Memory)

def listIsSingular (head : Ptr) : Bool := m.next head != head && m.next (m.next head) == head

/-- `__list_cut_position`. -/
def listCutBehind (list head entry : Ptr) : Memory :=
  let newFirst := m.next entry
  let m := m.setNext list (m.next head)
  let m := m.setPrev (m.next list) list
  let m := m.setPrev list entry
  let m := m.setNext entry list
  let m := m.setNext head newFirst
  m.setPrev newFirst head

def listCutPosition (list head entry : Ptr) : Memory :=
  if listEmpty m head then m
  else if listIsSingular m head && (m.next head != entry && m.prev head != entry) then m
  else if entry = head then initListHead m list
  else listCutBehind m list head entry

end Operations

theorem listCutBehind_eq (m : Memory) (list head entry : Ptr) :
    listCutBehind m list head entry =
      ((m.join list (m.next head)).join entry list).join head (m.next entry) := by
  simp [listCutBehind,Links.join,Links.setNext,Links.setPrev]

def pair (head : Ptr) (xs : List Ptr) (list : Ptr) (ys : List Ptr) : Lists :=
  Function.update (only head xs) list (some ys)

/-- The cut list holds the nodes up to `entry` and the head the rest, until splicing puts them
together again. -/
def CutExact (m : Memory) (list head entry : Ptr) (xs : List Ptr) : Prop :=
  let n := (head :: xs).idxOf entry
  let cut := listCutPosition m list head entry
  Family cut (pair head (xs.drop n) list (xs.take n)) ∧ Family (listSpliceInit cut list head) (pair head xs list [])

section Pairs

variable {m : Memory} {head list : Ptr} {xs ys : List Ptr}

theorem pair_head (other : list ≠ head) : pair head xs list ys head = some xs := by
  rw [pair,Function.update_of_ne other.symm,only_self]

theorem pair_list : pair head xs list ys list = some ys := Function.update_self ..

theorem pair_cases (here : pair head xs list ys h = some zs) : (h = list ∧ zs = ys) ∨ (h = head ∧ zs = xs) := by
  by_cases same : h = list
  · subst same
    exact .inl ⟨rfl,Option.some.inj (here.symm.trans pair_list)⟩
  · rw [pair,Function.update_of_ne same] at here
    exact .inr (only_cases here)

theorem family_pair (left : Circle m (head :: xs)) (right : Circle m (list :: ys))
    (once : (list :: ys ++ head :: xs).Nodup) : Family m (pair head xs list ys) := by
  obtain ⟨onceRight,onceLeft,apart⟩ := List.nodup_append.mp once
  constructor
  · intro h zs here
    rcases pair_cases here with ⟨rfl,rfl⟩ | ⟨rfl,rfl⟩
    · exact right
    · exact left
  · intro h zs here
    rcases pair_cases here with ⟨rfl,rfl⟩ | ⟨rfl,rfl⟩
    · exact onceRight
    · exact onceLeft
  · intro h h' zs zs' x here there member member'
    rcases pair_cases here with ⟨rfl,rfl⟩ | ⟨rfl,rfl⟩ <;> rcases pair_cases there with ⟨rfl,rfl⟩ | ⟨rfl,rfl⟩
    · rfl
    · exact absurd rfl (apart x member x member')
    · exact absurd rfl (apart x member' x member)
    · rfl

/-- Splicing puts the two parts together. -/
theorem pair_listSpliceInit (family : Family m (pair head ys list xs)) (other : list ≠ head) :
    Family (listSpliceInit m list head) (pair head (xs ++ ys) list []) := by
  have spliced := family_listSpliceInit family pair_list (pair_head other) other
  rwa [pair,Function.update_idem,Function.update_comm other,only_set] at spliced

end Pairs

section Cut

variable {m : Memory} {list head entry : Ptr} {xs : List Ptr}

theorem listIsSingular_iff (family : Family m (only head xs)) :
    listIsSingular m head = true ↔ xs.length = 1 := by
  have circle := family.circle (only_self head xs)
  have once := family.once (only_self head xs)
  have next := circle.next
  match xs with
  | [] =>
    have own : head = m.next head := Option.some.inj next
    simp [listIsSingular,← own]
  | [x] =>
    have first : x = m.next head := Option.some.inj next
    have back : m.next x = head := (circle.closed x rfl head rfl).1
    have other : x ≠ head := by simpa [eq_comm] using once
    simp [listIsSingular,← first,back,other]
  | x :: y :: ys =>
    have first : x = m.next head := Option.some.inj next
    have second : m.next x = y := (List.isChain_cons_cons.mp (List.isChain_cons_cons.mp circle.chain).2).1.1
    have other : y ≠ head := by
      rintro rfl
      simp at once
    simp [listIsSingular,← first,second,other]

/-- The cut itself, at a node of the list. -/
theorem listCutBehind_family {init back : List Ptr} (family : Family m (only head (init ++ entry :: back)))
    (fresh : list ∉ head :: (init ++ entry :: back)) :
    Family (listCutBehind m list head entry) (pair head back list (init ++ [entry])) := by
  have here := only_self head (init ++ entry :: back)
  obtain ⟨_,next⟩ := family.cursor here
  have split : init ++ entry :: back = (init ++ [entry]) ++ back := by simp
  rw [split] at family fresh here
  have first : (init ++ [entry]).head? = some (m.next head) := by
    have first := (family.circle here).next
    rwa [List.append_assoc,List.head?_append_of_ne_nil _ (by simp)] at first
  have once := family.once here
  obtain ⟨right,left⟩ := circles_cut (family.circle here) once fresh first List.getLast?_concat next
  rw [listCutBehind_eq]
  refine family_pair left right ?_
  have perm : (list :: (init ++ [entry]) ++ head :: back).Perm (list :: head :: (init ++ [entry] ++ back)) :=
    .cons list List.perm_middle
  exact perm.nodup_iff.mpr (List.nodup_cons.mpr ⟨fresh,once⟩)

variable (family : Family m (only head xs)) (filled : xs ≠ []) (fresh : list ∉ head :: xs)
include family filled

theorem listEmpty_filled : listEmpty m head = false :=
  Bool.eq_false_iff.mpr fun empty => filled ((listEmpty_iff family (only_self head xs)).mp empty)

/-- Which way a cut at the head goes. -/
theorem listCutPosition_head :
    listCutPosition m list head head = if xs.length = 1 then m else initListHead m list := by
  have circle := family.circle (only_self head xs)
  have once := family.once (only_self head xs)
  obtain ⟨first,last⟩ := circle.neighbours filled
  have fresh := (List.nodup_cons.mp once).1
  have next : m.next head ≠ head := fun same => fresh (same ▸ List.mem_of_head? first)
  have prev : m.prev head ≠ head := fun same => fresh (same ▸ List.mem_of_getLast? last)
  have single := listIsSingular_iff family
  rw [listCutPosition,listEmpty_filled family filled]
  by_cases one : xs.length = 1 <;> simp [one,single,next,prev]

theorem listCutPosition_node (member : entry ∈ xs) :
    listCutPosition m list head entry = listCutBehind m list head entry := by
  have fresh := (List.nodup_cons.mp (family.once (only_self head xs))).1
  have other : entry ≠ head := fun same => fresh (same ▸ member)
  have passed : ¬(listIsSingular m head = true ∧ m.next head ≠ entry ∧ m.prev head ≠ entry) := by
    rintro ⟨single,next,_⟩
    obtain ⟨x,rfl⟩ := List.length_eq_one_iff.mp ((listIsSingular_iff family).mp single)
    obtain rfl : entry = x := List.mem_singleton.mp member
    exact next (Option.some.inj (family.circle (only_self head [entry])).next).symm
  have guard : (listIsSingular m head && (m.next head != entry && m.prev head != entry)) = false := by
    simpa using passed
  rw [listCutPosition,listEmpty_filled family filled,guard]
  simp [other]

include fresh

/-- A cut is exact unless it is made at the head of a list of one node: there the list to fill
is left as it was, and the cut is exact only where that was an empty list. -/
theorem cut_exact_iff (member : entry ∈ head :: xs) :
    CutExact m list head entry xs ↔
      ¬(xs.length = 1 ∧ entry = head) ∨ (m.next list = list ∧ m.prev list = list) := by
  have other : list ≠ head := fun same => fresh (same ▸ List.mem_cons_self)
  have here := only_self head xs
  rcases List.mem_cons.mp member with rfl | node
  · rw [CutExact,listCutPosition_head family filled,List.idxOf_cons_self,List.drop_zero,List.take_zero]
    by_cases one : xs.length = 1
    · simp only [one,if_true,and_self,not_true,false_or]
      refine ⟨fun exact => (exact.1.circle pair_list).closed list rfl list rfl,fun linked => ?_⟩
      have circle : Circle m [list] := ⟨.singleton list,by rintro _ ⟨⟩ _ ⟨⟩; exact linked⟩
      have kept := family_pair (family.circle here) circle (List.nodup_cons.mpr ⟨fresh,family.once here⟩)
      exact ⟨kept,pair_listSpliceInit kept other⟩
    · simp only [one,if_false,false_and,not_false_eq_true,true_or,iff_true]
      have absent : Absent (only entry xs) list := only_absent fresh
      have emptied : Family (initListHead m list) (pair entry xs list []) := family.init absent.free
      exact ⟨emptied,pair_listSpliceInit emptied other⟩
  · obtain ⟨init,back,rfl,first⟩ := List.eq_append_cons_of_mem node
    have away : entry ≠ head := (family.cursor here).1
    have place : (head :: (init ++ entry :: back)).idxOf entry = init.length + 1 := by
      rw [List.idxOf_cons_ne _ away.symm,List.idxOf_append_of_notMem first,List.idxOf_cons_self]
    have split : init ++ entry :: back = (init ++ [entry]) ++ back := by simp
    have length : (init ++ [entry]).length = init.length + 1 := by simp
    have cut := listCutBehind_family family fresh
    simp only [CutExact,listCutPosition_node family filled node,place,away,and_false,not_false_eq_true,true_or,
      iff_true]
    rw [split,← length,List.take_left,List.drop_left]
    exact ⟨cut,pair_listSpliceInit cut other⟩

end Cut

/-- A list of one node, cut at its head into a list head that holds zeros. -/
theorem cut_at_head_not_exact :
    let m := listAddTail (initListHead ⟨fun _ => 0, fun _ => 0⟩ 0x1000) 0x10 0x1000
    Family m (only 0x1000 [0x10]) ∧ (0x2000 : Ptr) ∉ [0x1000, 0x10] ∧
      ¬CutExact m 0x2000 0x1000 0x1000 [0x10] := by
  intro m
  have fresh : (0x10 : Ptr) ∉ [0x1000] := by decide
  have one : Family m (only 0x1000 [0x10]) :=
    only_listAddTail (initListHead_family ⟨fun _ => 0, fun _ => 0⟩ 0x1000) fresh
  refine ⟨one,by decide,fun exact => ?_⟩
  have linked : m.next 0x2000 = 0x2000 := ((exact.1.circle pair_list).closed 0x2000 rfl 0x2000 rfl).1
  exact absurd linked (by decide)

/-- The same list cut at its node. -/
theorem cut_exact_node :
    let m := listAddTail (initListHead ⟨fun _ => 0, fun _ => 0⟩ 0x1000) 0x10 0x1000
    CutExact m 0x2000 0x1000 0x10 [0x10] := by
  intro m
  have fresh : (0x10 : Ptr) ∉ [0x1000] := by decide
  have one : Family m (only 0x1000 [0x10]) :=
    only_listAddTail (initListHead_family ⟨fun _ => 0, fun _ => 0⟩ 0x1000) fresh
  exact (cut_exact_iff one (by simp) (by decide) (by decide)).mpr (.inl (by decide))

end Kernal.ListHead
