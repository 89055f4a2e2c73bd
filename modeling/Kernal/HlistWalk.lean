import Kernal.Hlist
import Kernal.Loops
import Mathlib.Algebra.Group.Nat.Defs

/-! Loops over hash lists. Pointers are addresses here, null is address zero, and an entry lies
`offset` bytes in front of its node. `hlist_for_each_entry` ends at the address of the head, which
is where a circular list would end: a hash list ends in a null pointer, and its loop goes on to
the entry computed from that. -/
namespace Kernal.Hlist

open Backlinks Loops

def address (p : Option Ptr) : Ptr := p.getD 0

/-- `hlist_entry`, that is, `container_of`. -/
def hlistEntry (ptr offset : Ptr) : Ptr := ptr - offset

def memberAddress (pos offset : Ptr) : Ptr := pos + offset

section Operations

variable (m : Memory)

def first (head : Ptr) : Ptr := address (m.content (.first head))
def next (pos : Ptr) : Ptr := address (m.content (.next pos))

/-- `hlist_entry(pos->member.next, typeof(*pos), member)`. -/
def nextEntry (offset pos : Ptr) : Ptr := hlistEntry (next m (memberAddress pos offset)) offset

def hlistForEach (head : Ptr) (fuel : Nat) : Walk Ptr :=
  forLoop (fun pos => pos != 0) (next m) fuel (first m head)

def hlistForEachEntry (head offset : Ptr) (fuel : Nat) : Walk Ptr :=
  forLoop (fun pos => memberAddress pos offset != head) (nextEntry m offset) fuel
    (hlistEntry (first m head) offset)

def hlistForEachEntryFrom (offset pos : Ptr) (fuel : Nat) : Walk Ptr :=
  forLoop (fun pos => pos != 0) (nextEntry m offset) fuel pos

end Operations

/-- A list of nodes that are objects, as its head is: none has the null address. -/
structure WellFormed (m : Memory) (head : Ptr) (xs : List Ptr) : Prop where
  holds : Holds m (.first head) xs
  nodes : 0 ∉ xs
  head : head ≠ 0

/-- Both loops visit the nodes of the list, or their entries, and end. A round of the entry loop
ends with a read of the member of its entry, which is never the one computed from null. -/
structure EntriesAgree (m : Memory) (head offset : Ptr) (xs : List Ptr) : Prop where
  nodes : Visits (hlistForEach m head) xs
  entries : Visits (hlistForEachEntry m head offset) (xs.map (hlistEntry · offset))
  null : ∀ fuel, hlistEntry 0 offset ∉ (hlistForEachEntry m head offset fuel).rounds

section Walks

variable {m : Memory} {head : Ptr} {xs : List Ptr} (offset : Ptr)

theorem memberAddress_hlistEntry (ptr : Ptr) : memberAddress (hlistEntry ptr offset) offset = ptr :=
  BitVec.sub_add_cancel ..

theorem nextEntry_hlistEntry (ptr : Ptr) :
    nextEntry m offset (hlistEntry ptr offset) = hlistEntry (next m ptr) offset := by
  rw [nextEntry,memberAddress_hlistEntry]

/-- The pointers that lead from a cell through the nodes of a list to null. -/
theorem holds_path (holds : Holds m c xs) : Path (next m) (address (m.content c)) xs 0 := by
  induction xs generalizing c with
  | nil =>
    rw [holds_nil.mp holds]
    rfl
  | cons x xs ih =>
    obtain ⟨⟨points,_⟩,rest⟩ := holds_cons.mp holds
    refine ⟨?_,ih rest⟩
    rw [points]
    rfl

theorem entries_path (holds : Holds m c xs) : Path (nextEntry m offset)
    (hlistEntry (address (m.content c)) offset) (xs.map (hlistEntry · offset)) (hlistEntry 0 offset) :=
  (holds_path holds).map (nextEntry_hlistEntry offset)

/-- The entry loop goes through all entries if the head is none of their nodes. -/
theorem entries_pass_iff : (∀ pos ∈ xs.map (hlistEntry · offset), (memberAddress pos offset != head) = true) ↔
    head ∉ xs := by
  simp only [List.mem_map,forall_exists_index,and_imp,forall_apply_eq_imp_iff₂,memberAddress_hlistEntry,
    bne_iff_ne]
  exact ⟨fun passes member => passes head member rfl,fun away x member same => away (same ▸ member)⟩

theorem hlistForEach_visits (holds : Holds m (.first head) xs) (nodes : 0 ∉ xs) :
    Visits (hlistForEach m head) xs := by
  refine (visits_iff (holds_path holds)).mpr ⟨fun x member => ?_,by simp⟩
  have filled : x ≠ 0 := fun null => nodes (null ▸ member)
  simpa using filled

/-- The entry loop ends where a pointer is that to the head. -/
theorem hlistForEachEntry_visits_iff (holds : Holds m (.first head) xs) :
    Visits (hlistForEachEntry m head offset) (xs.map (hlistEntry · offset)) ↔ head ∉ xs ∧ head = 0 := by
  refine (visits_iff (entries_path offset holds)).trans (and_congr (entries_pass_iff offset) ?_)
  rw [memberAddress_hlistEntry,bne_eq_false_iff_eq,eq_comm]

/-- Behind the last node comes the entry computed from null, and its member is read. -/
theorem hlistForEachEntry_null (list : WellFormed m head xs) (away : head ∉ xs) (fuel : Nat) :
    hlistEntry 0 offset ∈ (hlistForEachEntry m head offset (xs.length + (fuel + 1))).rounds := by
  have passes := (entries_pass_iff offset).mpr away
  have goesOn : (memberAddress (hlistEntry 0 offset) offset != head) = true := by
    simpa [memberAddress_hlistEntry] using list.head.symm
  have walk := forLoop_path (entries_path offset list.holds) passes (fuel + 1)
  rw [List.length_map] at walk
  rw [hlistForEachEntry,first,walk,forLoop,if_pos goesOn]
  exact List.mem_append_right _ List.mem_cons_self

/-- The end test of `hlist_for_each_entry_from` finds the converted null pointer only where the
member comes first in its structure. -/
theorem hlistForEachEntryFrom_visits_iff (holds : Holds m (.next x) xs) (entries : offset ∉ x :: xs) :
    Visits (hlistForEachEntryFrom m offset (hlistEntry x offset)) ((x :: xs).map (hlistEntry · offset)) ↔
      offset = 0 := by
  have null (ptr : Ptr) : hlistEntry ptr offset = 0 ↔ ptr = offset := by
    rw [hlistEntry]
    bv_omega
  have path : Path (next m) x (x :: xs) 0 := ⟨rfl,holds_path holds⟩
  have passes : ∀ pos ∈ (x :: xs).map (hlistEntry · offset), (pos != 0) = true := by
    intro pos member
    obtain ⟨y,inside,rfl⟩ := List.mem_map.mp member
    exact bne_iff_ne.mpr fun zero => entries ((null y).mp zero ▸ inside)
  refine (visits_iff (path.map (nextEntry_hlistEntry offset))).trans ?_
  rw [bne_eq_false_iff_eq,null,eq_comm (a := (0 : Ptr))]
  exact ⟨And.right,fun zero => ⟨passes,zero⟩⟩

/-- `hlist_for_each_entry` never agrees with `hlist_for_each`. -/
theorem entries_never_agree (list : WellFormed m head xs) : ¬EntriesAgree m head offset xs := fun agree =>
  list.head ((hlistForEachEntry_visits_iff offset list.holds).mp agree.entries).2

end Walks

/-- One node, with its member eight bytes into the structure: the second round of the entry loop
is at the address eight bytes below null. -/
theorem entries_not_agree :
    let m := hlistAddHead blank 0x10 0x1000
    WellFormed m 0x1000 [0x10] ∧ hlistForEach m 0x1000 1 = ⟨[0x10], true⟩ ∧
      (hlistForEachEntry m 0x1000 8 2).rounds = [0x8, -8] ∧ ¬EntriesAgree m 0x1000 8 [0x10] := by
  intro m
  have family : Family m (alone 0x1000 [0x10]) := alone_addHead (blank_family 0x1000) (by simp)
  have rounds : (hlistForEachEntry m 0x1000 8 2).rounds = [0x8, -8] := by decide
  refine ⟨⟨family.holds (alone_self ..),by decide,by decide⟩,by decide,rounds,fun agree => ?_⟩
  have null : hlistEntry 0 8 ∈ (hlistForEachEntry m 0x1000 8 2).rounds := by
    rw [rounds]
    decide
  exact agree.null 2 null

/-- Two nodes, with the member first in the structure. -/
theorem entries_never_agree_two : ¬EntriesAgree twoNodes 0x1000 0 [0x10, 0x20] :=
  entries_never_agree 0 ⟨twoNodes_family.holds (alone_self ..),by decide,by decide⟩

end Kernal.Hlist
