import Kernal.Rings
import Mathlib.Data.List.Rotate

/-! The doubly linked lists of `list.h`. A `list_head` is named by its address, and nodes at
different addresses do not overlap. The structure's two fields are read as the `next` and
`prev` that the functions use, and the second parameter of `__list_splice` as the `prev` of
its body. Each function makes its writes in the order of the source. -/
namespace Kernal.ListHead

open Rings

abbrev Ptr := BitVec 64
abbrev Memory := Links Ptr

section Operations

variable (m : Memory)

def initListHead (list : Ptr) : Memory := (m.setNext list list).setPrev list list

def listEmpty (head : Ptr) : Bool := m.next head == head

/-- `__list_add`. -/
def listAddBetween (new prev next : Ptr) : Memory :=
  (((m.setPrev next new).setNext new next).setPrev new prev).setNext prev new

def listAdd (new head : Ptr) : Memory := listAddBetween m new head (m.next head)

def listAddTail (new head : Ptr) : Memory := listAddBetween m new (m.prev head) head

/-- `__list_del`. -/
def listDelBetween (prev next : Ptr) : Memory := (m.setPrev next prev).setNext prev next

def listDel (entry : Ptr) : Memory :=
  ((listDelBetween m (m.prev entry) (m.next entry)).setNext entry 0x100).setPrev entry 0x200

def listDelInit (entry : Ptr) : Memory :=
  initListHead (listDelBetween m (m.prev entry) (m.next entry)) entry

def listReplace (old new : Ptr) : Memory :=
  let m := m.setNext new (m.next old)
  let m := m.setPrev (m.next new) new
  let m := m.setPrev new (m.prev old)
  m.setNext (m.prev new) new

def listReplaceInit (old new : Ptr) : Memory := initListHead (listReplace m old new) old

def listMove (list head : Ptr) : Memory := listAdd (listDelBetween m (m.prev list) (m.next list)) list head

def listMoveTail (list head : Ptr) : Memory :=
  listAddTail (listDelBetween m (m.prev list) (m.next list)) list head

def listRotateLeft (head : Ptr) : Memory :=
  if !listEmpty m head then listMoveTail m (m.next head) head else m

/-- `__list_splice`. -/
def listSpliceBetween (list prev next : Ptr) : Memory :=
  let first := m.next list
  let last := m.prev list
  (((m.setPrev first prev).setNext prev first).setNext last next).setPrev next last

def listSplice (list head : Ptr) : Memory :=
  if !listEmpty m list then listSpliceBetween m list head (m.next head) else m

def listSpliceTail (list head : Ptr) : Memory :=
  if !listEmpty m list then listSpliceBetween m list (m.prev head) head else m

def listSpliceInit (list head : Ptr) : Memory :=
  if !listEmpty m list then initListHead (listSpliceBetween m list head (m.next head)) list else m

def listSpliceTailInit (list head : Ptr) : Memory :=
  if !listEmpty m list then initListHead (listSpliceBetween m list (m.prev head) head) list else m

end Operations

theorem listReplace_eq (m : Memory) (old new : Ptr) :
    listReplace m old new =
      (m.join new (m.next old)).join ((m.join new (m.next old)).prev old) new := by
  simp [listReplace,Links.join,Links.setNext,Links.setPrev]

/-- The sequence behind each list head. -/
abbrev Lists := Ptr → Option (List Ptr)

section Specifications

variable {m : Memory} {lists : Lists} (family : Family m lists)
include family

theorem listEmpty_iff (here : lists head = some xs) : listEmpty m head = true ↔ xs = [] := by
  have next := (family.circle here).next
  have fresh := (List.nodup_cons.mp (family.once here)).1
  rw [listEmpty,beq_iff_eq]
  cases xs with
  | nil => exact ⟨fun _ => rfl,fun _ => (Option.some.inj next).symm⟩
  | cons x xs =>
    have first : x = m.next head := Option.some.inj next
    refine ⟨fun empty => absurd ?_ fresh,fun none => by contradiction⟩
    rw [← empty,← first]
    exact List.mem_cons_self

theorem family_listAdd (here : lists head = some xs) (free : Free lists new) (other : new ≠ head) :
    Family (listAdd m new head)
      (Function.update (Function.update lists new none) head (some (new :: xs))) := by
  have split : lists head = some ([] ++ xs) := here
  exact family.insert split free other rfl (family.circle here).next

theorem family_listAddTail (here : lists head = some xs) (free : Free lists new) (other : new ≠ head) :
    Family (listAddTail m new head)
      (Function.update (Function.update lists new none) head (some (xs ++ [new]))) := by
  have split : lists head = some (xs ++ []) := by rw [List.append_nil,here]
  exact family.insert split free other (family.circle here).prev rfl

theorem family_listDelBetween (here : lists h = some (xs ++ entry :: ys)) :
    Family (listDelBetween m (m.prev entry) (m.next entry)) (Function.update lists h (some (xs ++ ys))) ∧
    Absent (Function.update lists h (some (xs ++ ys))) entry :=
  family.remove here

theorem family_listDel (here : lists h = some (xs ++ entry :: ys)) :
    Family (listDel m entry) (Function.update lists h (some (xs ++ ys))) := by
  obtain ⟨removed,absent⟩ := family_listDelBetween family here
  have poisoned (b : Memory) : Outside b (b.setNext entry 0x100) (· = entry) := .setNext b (by rfl) _
  exact removed.outside ((poisoned _).trans (.setPrev _ (by rfl) _)) absent

theorem family_listDelInit (here : lists h = some (xs ++ entry :: ys)) :
    Family (listDelInit m entry)
      (Function.update (Function.update lists h (some (xs ++ ys))) entry (some [])) := by
  obtain ⟨removed,absent⟩ := family_listDelBetween family here
  exact removed.init absent.free

theorem family_listMove (here : lists h = some (xs ++ list :: ys))
    (there : Function.update lists h (some (xs ++ ys)) head = some zs) :
    Family (listMove m list head)
      (Function.update (Function.update lists h (some (xs ++ ys))) head (some (list :: zs))) := by
  obtain ⟨removed,absent⟩ := family_listDelBetween family here
  have other : list ≠ head := fun same => absent there (same ▸ List.mem_cons_self)
  have added := family_listAdd removed there absent.free other
  rwa [absent.update_none] at added

theorem family_listMoveTail (here : lists h = some (xs ++ list :: ys))
    (there : Function.update lists h (some (xs ++ ys)) head = some zs) :
    Family (listMoveTail m list head)
      (Function.update (Function.update lists h (some (xs ++ ys))) head (some (zs ++ [list]))) := by
  obtain ⟨removed,absent⟩ := family_listDelBetween family here
  have other : list ≠ head := fun same => absent there (same ▸ List.mem_cons_self)
  have added := family_listAddTail removed there absent.free other
  rwa [absent.update_none] at added

theorem family_listRotateLeft (here : lists head = some xs) :
    Family (listRotateLeft m head) (Function.update lists head (some (xs.rotate 1))) := by
  have empty := listEmpty_iff family here
  unfold listRotateLeft
  cases xs with
  | nil =>
    rw [empty.mpr rfl,List.rotate_nil,← here,Function.update_eq_self]
    exact family
  | cons x xs =>
    have first : x = m.next head := Option.some.inj (family.circle here).next
    have filled : listEmpty m head = false := Bool.eq_false_iff.mpr fun none => by simpa using empty.mp none
    rw [filled,← first,List.rotate_cons_succ,List.rotate_zero]
    have split : lists head = some ([] ++ x :: xs) := here
    have moved := family_listMoveTail family split (Function.update_self ..)
    rwa [Function.update_idem] at moved

/-- A splice at either end of a list. The source is no list any more: its head still points at
its nodes. -/
theorem family_splice (source : lists list = some xs) (here : lists head = some (front ++ back))
    (other : list ≠ head) (last : (head :: front).getLast? = some prev)
    (first : (back ++ [head]).head? = some next) :
    Family (if !listEmpty m list then listSpliceBetween m list prev next else m)
      (Function.update (Function.update lists list none) head (some (front ++ xs ++ back))) := by
  have empty := listEmpty_iff family source
  by_cases filled : xs = []
  · subst filled
    have kept : Function.update lists list none head = lists head := Function.update_of_ne other.symm _ _
    rw [empty.mpr rfl,List.append_nil,← here,← kept,Function.update_eq_self]
    exact family.forget list
  · have busy : listEmpty m list = false := Bool.eq_false_iff.mpr fun none => filled (empty.mp none)
    rw [busy]
    exact (family.splice source filled here other last first).1

theorem family_listSplice (source : lists list = some xs) (here : lists head = some ys)
    (other : list ≠ head) : Family (listSplice m list head)
      (Function.update (Function.update lists list none) head (some (xs ++ ys))) := by
  have split : lists head = some ([] ++ ys) := here
  exact family_splice family source split other rfl (family.circle here).next

theorem family_listSpliceTail (source : lists list = some xs) (here : lists head = some ys)
    (other : list ≠ head) : Family (listSpliceTail m list head)
      (Function.update (Function.update lists list none) head (some (ys ++ xs))) := by
  have split : lists head = some (ys ++ []) := by rw [List.append_nil,here]
  have spliced := family_splice family source split other (family.circle here).prev rfl
  rwa [List.append_nil] at spliced

/-- The same with the source left empty. -/
theorem family_spliceInit (source : lists list = some xs) (here : lists head = some (front ++ back))
    (other : list ≠ head) (last : (head :: front).getLast? = some prev)
    (first : (back ++ [head]).head? = some next) :
    Family (if !listEmpty m list then initListHead (listSpliceBetween m list prev next) list else m)
      (Function.update (Function.update lists list (some [])) head (some (front ++ xs ++ back))) := by
  have empty := listEmpty_iff family source
  by_cases filled : xs = []
  · subst filled
    rw [empty.mpr rfl,← source,Function.update_eq_self,List.append_nil,← here,Function.update_eq_self]
    exact family
  · have busy : listEmpty m list = false := Bool.eq_false_iff.mpr fun none => filled (empty.mp none)
    obtain ⟨spliced,absent⟩ := family.splice source filled here other last first
    have emptied := spliced.init absent.free
    rw [busy]
    rwa [Function.update_comm other.symm,Function.update_idem] at emptied

theorem family_listSpliceInit (source : lists list = some xs) (here : lists head = some ys)
    (other : list ≠ head) : Family (listSpliceInit m list head)
      (Function.update (Function.update lists list (some [])) head (some (xs ++ ys))) := by
  have split : lists head = some ([] ++ ys) := here
  exact family_spliceInit family source split other rfl (family.circle here).next

theorem family_listSpliceTailInit (source : lists list = some xs) (here : lists head = some ys)
    (other : list ≠ head) : Family (listSpliceTailInit m list head)
      (Function.update (Function.update lists list (some [])) head (some (ys ++ xs))) := by
  have split : lists head = some (ys ++ []) := by rw [List.append_nil,here]
  have spliced := family_spliceInit family source split other (family.circle here).prev rfl
  rwa [List.append_nil] at spliced

theorem family_listReplace (here : lists h = some (xs ++ old :: ys)) (free : Free lists new)
    (other : new ≠ h) :
    Family (listReplace m old new)
      (Function.update (Function.update lists new none) h (some (xs ++ new :: ys))) ∧
    Absent (Function.update (Function.update lists new none) h (some (xs ++ new :: ys))) old := by
  have fresh : new ≠ old := fun same => other (free.loose here (by simp [same])).symm
  rw [listReplace_eq]
  exact family.replace here free other fresh

theorem family_listReplace_head (here : lists old = some xs) (free : Free lists new) (other : new ≠ old) :
    Family (listReplace m old new) (Function.update (Function.update lists old none) new (some xs)) ∧
    Absent (Function.update (Function.update lists old none) new (some xs)) old := by
  rw [listReplace_eq]
  exact family.rehead here free other

end Specifications

inductive Op where
  | add (new head : Ptr)
  | addTail (new head : Ptr)
  | del (entry : Ptr)
  | delInit (entry : Ptr)
  | move (list head : Ptr)
  | moveTail (list head : Ptr)
  | replace (old new : Ptr)
  | replaceInit (old new : Ptr)
  | rotateLeft (head : Ptr)
  | spliceInit (list head : Ptr)
  | spliceTailInit (list head : Ptr)
  deriving DecidableEq, Repr

def Op.exec (m : Memory) : Op → Memory
  | add new head => listAdd m new head
  | addTail new head => listAddTail m new head
  | del entry => listDel m entry
  | delInit entry => listDelInit m entry
  | move list head => listMove m list head
  | moveTail list head => listMoveTail m list head
  | replace old new => listReplace m old new
  | replaceInit old new => listReplaceInit m old new
  | rotateLeft head => listRotateLeft m head
  | spliceInit list head => listSpliceInit m list head
  | spliceTailInit list head => listSpliceTailInit m list head

/-- What a call means for the sequences. A new node is in no list but an empty one of its own;
a replaced node may be one behind a head or a head itself. -/
inductive Effect (lists : Lists) : Op → Lists → Prop where
  | add : lists head = some xs → Free lists new → new ≠ head →
      Effect lists (.add new head) (Function.update (Function.update lists new none) head (some (new :: xs)))
  | addTail : lists head = some xs → Free lists new → new ≠ head →
      Effect lists (.addTail new head)
        (Function.update (Function.update lists new none) head (some (xs ++ [new])))
  | del : lists h = some (xs ++ entry :: ys) →
      Effect lists (.del entry) (Function.update lists h (some (xs ++ ys)))
  | delInit : lists h = some (xs ++ entry :: ys) →
      Effect lists (.delInit entry)
        (Function.update (Function.update lists h (some (xs ++ ys))) entry (some []))
  | move : lists h = some (xs ++ list :: ys) → Function.update lists h (some (xs ++ ys)) head = some zs →
      Effect lists (.move list head)
        (Function.update (Function.update lists h (some (xs ++ ys))) head (some (list :: zs)))
  | moveTail : lists h = some (xs ++ list :: ys) →
      Function.update lists h (some (xs ++ ys)) head = some zs →
      Effect lists (.moveTail list head)
        (Function.update (Function.update lists h (some (xs ++ ys))) head (some (zs ++ [list])))
  | replace : lists h = some (xs ++ old :: ys) → Free lists new → new ≠ h →
      Effect lists (.replace old new)
        (Function.update (Function.update lists new none) h (some (xs ++ new :: ys)))
  | replaceHead : lists old = some xs → Free lists new → new ≠ old →
      Effect lists (.replace old new) (Function.update (Function.update lists old none) new (some xs))
  | replaceInit : lists h = some (xs ++ old :: ys) → Free lists new → new ≠ h →
      Effect lists (.replaceInit old new)
        (Function.update (Function.update (Function.update lists new none) h (some (xs ++ new :: ys)))
          old (some []))
  | replaceInitHead : lists old = some xs → Free lists new → new ≠ old →
      Effect lists (.replaceInit old new)
        (Function.update (Function.update (Function.update lists old none) new (some xs)) old (some []))
  | rotateLeft : lists head = some xs →
      Effect lists (.rotateLeft head) (Function.update lists head (some (xs.rotate 1)))
  | spliceInit : lists list = some xs → lists head = some ys → list ≠ head →
      Effect lists (.spliceInit list head)
        (Function.update (Function.update lists list (some [])) head (some (xs ++ ys)))
  | spliceTailInit : lists list = some xs → lists head = some ys → list ≠ head →
      Effect lists (.spliceTailInit list head)
        (Function.update (Function.update lists list (some [])) head (some (ys ++ xs)))

inductive Effects : Lists → List Op → Lists → Prop where
  | nil : Effects lists [] lists
  | cons : Effect lists op between → Effects between ops after → Effects lists (op :: ops) after

theorem Effect.family {m : Memory} (effect : Effect lists op after) (family : Family m lists) :
    Family (op.exec m) after := by
  cases effect with
  | add here free other => exact family_listAdd family here free other
  | addTail here free other => exact family_listAddTail family here free other
  | del here => exact family_listDel family here
  | delInit here => exact family_listDelInit family here
  | move here there => exact family_listMove family here there
  | moveTail here there => exact family_listMoveTail family here there
  | replace here free other => exact (family_listReplace family here free other).1
  | replaceHead here free other => exact (family_listReplace_head family here free other).1
  | replaceInit here free other =>
    obtain ⟨replaced,absent⟩ := family_listReplace family here free other
    exact replaced.init absent.free
  | replaceInitHead here free other =>
    obtain ⟨replaced,absent⟩ := family_listReplace_head family here free other
    exact replaced.init absent.free
  | rotateLeft here => exact family_listRotateLeft family here
  | spliceInit source here other => exact family_listSpliceInit family source here other
  | spliceTailInit source here other => exact family_listSpliceTailInit family source here other

/-- The lists of `list.h` are sequences: from any memory that holds a family of circular lists,
any row of calls leads to one that holds the expected family, in which only the lists that the
calls name have changed. -/
theorem lists_are_sequences {m : Memory} {lists after : Lists} {ops : List Op} (family : Family m lists)
    (effects : Effects lists ops after) : Family (ops.foldl Op.exec m) after := by
  induction effects generalizing m with
  | nil => exact family
  | cons effect _ ih => exact ih (effect.family family)

def only (head : Ptr) (xs : List Ptr) : Lists := Function.update (fun _ => none) head (some xs)

theorem only_self (head : Ptr) (xs : List Ptr) : only head xs head = some xs := Function.update_self ..

theorem only_set (head : Ptr) (xs ys : List Ptr) :
    Function.update (only head xs) head (some ys) = only head ys := Function.update_idem ..

theorem only_cases (here : only head xs h = some ys) : h = head ∧ ys = xs := by
  by_cases same : h = head
  · subst same
    exact ⟨rfl,Option.some.inj (here.symm.trans (only_self h xs))⟩
  · simp [only,same] at here

theorem only_absent (fresh : x ∉ head :: xs) : Absent (only head xs) x := by
  intro h ys here
  obtain ⟨rfl,rfl⟩ := only_cases here
  exact fresh

theorem initListHead_family (m : Memory) (head : Ptr) : Family (initListHead m head) (only head []) := by
  have nothing : Family m (fun _ => none) := ⟨by simp,by simp,by simp⟩
  exact nothing.init ⟨by simp [Loose],by simp⟩

theorem only_listAddTail {m : Memory} (family : Family m (only head xs)) (fresh : new ∉ head :: xs) :
    Family (listAddTail m new head) (only head (xs ++ [new])) := by
  have absent : Absent (only head xs) new := only_absent fresh
  have other : new ≠ head := fun same => fresh (same ▸ List.mem_cons_self)
  have added := family_listAddTail family (only_self head xs) absent.free other
  rwa [absent.update_none,only_set] at added

/-- A list gets two nodes, is rotated and loses the first one. -/
theorem lists_are_sequences_single :
    let start := initListHead ⟨fun _ => 0, fun _ => 0⟩ 0x1000
    let after := [Op.add 0x10 0x1000, .addTail 0x20 0x1000, .rotateLeft 0x1000, .del 0x20].foldl Op.exec start
    Family after (only 0x1000 [0x10]) ∧ after.next 0x1000 = 0x10 ∧ after.prev 0x1000 = 0x10 := by
  intro start after
  have added : Effect (only 0x1000 []) (.add 0x10 0x1000) (only 0x1000 [0x10]) := by
    have absent : Absent (only 0x1000 []) 0x10 := only_absent (by decide)
    have effect := Effect.add (only_self 0x1000 []) absent.free (by decide)
    rwa [absent.update_none,only_set] at effect
  have second : Effect (only 0x1000 [0x10]) (.addTail 0x20 0x1000) (only 0x1000 [0x10, 0x20]) := by
    have absent : Absent (only 0x1000 [0x10]) 0x20 := only_absent (by decide)
    have effect := Effect.addTail (only_self 0x1000 [0x10]) absent.free (by decide)
    rwa [absent.update_none,only_set] at effect
  have rotated : Effect (only 0x1000 [0x10, 0x20]) (.rotateLeft 0x1000) (only 0x1000 [0x20, 0x10]) := by
    have effect := Effect.rotateLeft (only_self 0x1000 [0x10, 0x20])
    rwa [only_set] at effect
  have removed : Effect (only 0x1000 [0x20, 0x10]) (.del 0x20) (only 0x1000 [0x10]) := by
    have split : only 0x1000 [0x20, 0x10] 0x1000 = some ([] ++ 0x20 :: [0x10]) := only_self ..
    have effect := Effect.del split
    rwa [only_set] at effect
  refine ⟨?_,rfl,rfl⟩
  exact lists_are_sequences (initListHead_family _ _)
    (.cons added (.cons second (.cons rotated (.cons removed .nil))))

end Kernal.ListHead
