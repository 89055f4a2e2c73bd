import Kernal.ListHead
import Kernal.Loops
import Mathlib.Algebra.Group.Nat.Defs

/-! The loops of `list.h` over entries, which lie `offset` bytes in front of their nodes, and the
loop backward over nodes. A loop that goes on from an entry may be given a null pointer, which
`list_prepare_entry` replaces by the entry computed from the head. -/
namespace Kernal.ListHead

open Rings Loops

/-- `list_entry`, that is, `container_of`. -/
def listEntry (ptr offset : Ptr) : Ptr := ptr - offset

def listMember (pos offset : Ptr) : Ptr := pos + offset

def listPrepareEntry (pos head offset : Ptr) : Ptr := if pos = 0 then listEntry head offset else pos

section Operations

variable (m : Memory)

def listNextEntry (pos offset : Ptr) : Ptr := listEntry (m.next (listMember pos offset)) offset
def listPrevEntry (pos offset : Ptr) : Ptr := listEntry (m.prev (listMember pos offset)) offset

def listForEachPrev (head : Ptr) (fuel : Nat) : Walk Ptr :=
  forLoop (fun pos => pos != head) m.prev fuel (m.prev head)

def listForEachEntryContinue (pos head offset : Ptr) (fuel : Nat) : Walk Ptr :=
  forLoop (fun pos => listMember pos offset != head) (listNextEntry m · offset) fuel (listNextEntry m pos offset)

def listForEachEntryContinueReverse (pos head offset : Ptr) (fuel : Nat) : Walk Ptr :=
  forLoop (fun pos => listMember pos offset != head) (listPrevEntry m · offset) fuel (listPrevEntry m pos offset)

def listForEachEntryFrom (pos head offset : Ptr) (fuel : Nat) : Walk Ptr :=
  forLoop (fun pos => listMember pos offset != head) (listNextEntry m · offset) fuel pos

end Operations

/-- From a place in a list one loop visits the entries behind it and the other those before it,
the nearest first. -/
structure GoesOn (m : Memory) (pos head offset : Ptr) (front back : List Ptr) : Prop where
  onward : Visits (listForEachEntryContinue m (listPrepareEntry pos head offset) head offset)
    (back.map (listEntry · offset))
  backward : Visits (listForEachEntryContinueReverse m (listPrepareEntry pos head offset) head offset)
    (front.reverse.map (listEntry · offset))

section Walks

variable {m : Memory} {lists : Lists} {head pos x : Ptr} {front back xs : List Ptr} (offset : Ptr)

theorem listMember_listEntry (ptr : Ptr) : listMember (listEntry ptr offset) offset = ptr :=
  BitVec.sub_add_cancel ..

theorem listNextEntry_listEntry (ptr : Ptr) :
    listNextEntry m (listEntry ptr offset) offset = listEntry (m.next ptr) offset := by
  rw [listNextEntry,listMember_listEntry]

theorem listPrevEntry_listEntry (ptr : Ptr) :
    listPrevEntry m (listEntry ptr offset) offset = listEntry (m.prev ptr) offset := by
  rw [listPrevEntry,listMember_listEntry]

theorem listPrepareEntry_null : listPrepareEntry 0 head offset = listEntry head offset := if_pos rfl

theorem listPrepareEntry_listEntry (object : x ≠ offset) :
    listPrepareEntry (listEntry x offset) head offset = listEntry x offset := by
  have filled : listEntry x offset ≠ 0 := by
    rw [listEntry]
    bv_omega
  exact if_neg filled

/-- The pointers that lead from a node of a circle to the first one. -/
theorem circle_path (front : List Ptr) (circle : Circle m (front ++ x :: back))
    (first : (front ++ x :: back).head? = some head) : Path m.next (m.next x) back head := by
  have opened : ((front ++ x :: back) ++ [head]).IsChain (Linked m) := by
    refine List.isChain_append.mpr ⟨circle.chain,.singleton _,fun l last f top => ?_⟩
    obtain rfl : head = f := Option.some.inj top
    exact circle.closed l last head first
  rw [List.append_assoc] at opened
  exact chain_path (opened.right_of_append.imp fun _ _ linked => linked.1)

/-- The loop over the entries follows the loop over the nodes. -/
theorem entries_visited (path : Path m.next pos xs head) (away : head ∉ xs) :
    Visits (listForEachEntryFrom m (listEntry pos offset) head offset) (xs.map (listEntry · offset)) := by
  have entries : Path (listNextEntry m · offset) (listEntry pos offset) (xs.map (listEntry · offset))
      (listEntry head offset) := path.map (f := (listEntry · offset)) (listNextEntry_listEntry offset)
  refine (visits_iff entries).mpr ⟨?_,?_⟩
  · intro entry member
    obtain ⟨y,inside,rfl⟩ := List.mem_map.mp member
    rw [listMember_listEntry]
    exact bne_iff_ne.mpr fun same => away (same ▸ inside)
  · rw [listMember_listEntry]
    exact bne_self_eq_false head

/-- On the mirrored memory the loop onward is the loop backward. -/
theorem goesOn_of_paths (place : listPrepareEntry pos head offset = listEntry x offset)
    (onward : Path m.next (m.next x) back head) (backward : Path m.prev (m.prev x) front.reverse head)
    (before : head ∉ front) (behind : head ∉ back) : GoesOn m pos head offset front back := by
  have next := entries_visited offset onward behind
  have prev := entries_visited (m := m.mirror) offset backward (by rwa [List.mem_reverse])
  rw [← listNextEntry_listEntry,← place] at next
  rw [← listPrevEntry_listEntry,← place] at prev
  exact ⟨next,prev⟩

/-- The loops backward over nodes and on from a null pointer visit all there is, and end. So do those
on from an entry with what is before and behind it, unless its address is null. After a null pointer
`list_for_each_entry_from` visits nothing. -/
theorem loops_go_on (family : Family m lists) (here : lists head = some xs) :
    Visits (listForEachPrev m head) xs.reverse ∧ GoesOn m 0 head offset xs xs ∧
    Visits (listForEachEntryFrom m (listPrepareEntry 0 head offset) head offset) [] ∧
    ∀ front x back, xs = front ++ x :: back →
      (GoesOn m (listEntry x offset) head offset front back ∧
        Visits (listForEachEntryFrom m (listPrepareEntry (listEntry x offset) head offset) head offset)
          ((x :: back).map (listEntry · offset)) ↔ x ≠ offset) := by
  have circle := family.circle here
  have fresh := (List.nodup_cons.mp (family.once here)).1
  have onward : Path m.next (m.next head) xs head := circle_path [] circle rfl
  have backward : Path m.prev (m.prev head) xs.reverse head := circle_path [] circle.mirror rfl
  have nothing : Visits (listForEachEntryFrom m (listPrepareEntry 0 head offset) head offset) [] := by
    have ended : Path m.next head [] head := rfl
    rw [listPrepareEntry_null]
    exact entries_visited offset ended List.not_mem_nil
  refine ⟨?_,goesOn_of_paths offset (listPrepareEntry_null offset) onward backward fresh fresh,nothing,?_⟩
  · refine (visits_iff backward).mpr ⟨fun y member => ?_,bne_self_eq_false head⟩
    exact bne_iff_ne.mpr fun same => fresh (same ▸ List.mem_reverse.mp member)
  rintro front x back rfl
  constructor
  · rintro ⟨_,visits⟩ null
    rw [null,listEntry,BitVec.sub_self] at visits
    exact List.cons_ne_nil _ _ (visits.unique nothing)
  · intro object
    have place : listPrepareEntry (listEntry x offset) head offset = listEntry x offset :=
      listPrepareEntry_listEntry offset object
    have behind : Path m.next (m.next x) back head := circle_path (head :: front) circle rfl
    have turned := circle.mirror
    rw [List.reverse_append,List.reverse_cons,List.append_assoc] at turned
    have before : Path m.prev (m.prev x) front.reverse head := circle_path (head :: back.reverse) turned rfl
    obtain ⟨notBefore,notHere⟩ := not_or.mp (mt List.mem_append.mpr fresh)
    obtain ⟨_,notBehind⟩ := not_or.mp (mt List.mem_cons.mpr notHere)
    refine ⟨goesOn_of_paths offset place behind before notBefore notBehind,?_⟩
    rw [place]
    exact entries_visited offset ⟨rfl,behind⟩ notHere

end Walks

/-- Three nodes with their members eight bytes into the structure; the loops go on from the second. -/
theorem loops_go_on_three :
    let m := [0x10, 0x20, 0x30].foldl (fun m new => listAddTail m new 0x1000)
      (initListHead ⟨fun _ => 0, fun _ => 0⟩ 0x1000)
    listForEachPrev m 0x1000 9 = ⟨[0x30, 0x20, 0x10], true⟩ ∧
    GoesOn m 0x18 0x1000 8 [0x10] [0x30] ∧
    Visits (listForEachEntryFrom m (listPrepareEntry 0x18 0x1000 8) 0x1000 8) [0x18, 0x28] := by
  intro m
  have one := only_listAddTail (initListHead_family ⟨fun _ => 0, fun _ => 0⟩ 0x1000)
    (show (0x10 : Ptr) ∉ [0x1000] by decide)
  have two := only_listAddTail one (show (0x20 : Ptr) ∉ [0x1000, 0x10] by decide)
  have three : Family m (only 0x1000 [0x10, 0x20, 0x30]) := only_listAddTail two (by decide)
  obtain ⟨prev,_,_,within⟩ := loops_go_on 8 three (only_self ..)
  obtain ⟨goesOn,visits⟩ := (within [0x10] 0x20 [0x30] rfl).mpr (by decide)
  exact ⟨prev 9,goesOn,visits⟩

end Kernal.ListHead
