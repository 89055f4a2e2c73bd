import Kernal.X86

/-! The walk of the x86-64 four-level page tables. A level takes nine bits of the address for
the index into a table of 512 entries. Bits that the processor checks to be zero are not looked
at. -/
namespace Kernal.Paging

open X86

/-- Where an address leads, and whether all entries on the way allow writes. -/
structure Page where
  phys : Word
  writable : Bool
  deriving DecidableEq, Repr

/-- The index that the nine bits from `shift` on make. -/
def index (v : Word) (shift : Nat) : Nat := v.toNat / 2^shift % 512

/-- The bits of an entry from `n` to 51, the address of a table or of a page. -/
def field (e : Word) (n : Nat) : Word := (e.extractLsb' n (52 - n)).setWidth 64 <<< n

def offset (v : Word) (n : Nat) : Word := (v.setWidth n).setWidth 64

def entry (mem : Mem) (table : Word) (i : Nat) : Word := load mem (table + BitVec.ofNat 64 (8 * i))

def present (e : Word) : Bool := e.getLsbD 0
def writable (e : Word) : Bool := e.getLsbD 1
def large (e : Word) : Bool := e.getLsbD 7

section Walk

variable (mem : Mem) (table v : Word) (w : Bool)

def walkPt : Option Page :=
  let e := entry mem table (index v 12)
  if present e then some ⟨field e 12 ||| offset v 12, w && writable e⟩ else none

def walkPd : Option Page :=
  let e := entry mem table (index v 21)
  if !present e then none
  else if large e then some ⟨field e 21 ||| offset v 21, w && writable e⟩
  else walkPt mem (field e 12) v (w && writable e)

def walkPdpt : Option Page :=
  let e := entry mem table (index v 30)
  if !present e then none
  else if large e then some ⟨field e 30 ||| offset v 30, w && writable e⟩
  else walkPd mem (field e 12) v (w && writable e)

end Walk

def walk (mem : Mem) (cr3 v : Word) : Option Page :=
  let e := entry mem (field cr3 12) (index v 39)
  if present e then walkPdpt mem (field e 12) v (writable e) else none

/-- The upper 17 bits of the address are equal. -/
def Canonical (v : Word) : Prop := v.toNat < 2^47 ∨ 2^64 - 2^47 ≤ v.toNat

theorem field_toNat (e : Word) (small : n ≤ 52) : (field e n).toNat = e.toNat % 2^52 / 2^n * 2^n := by
  have width : 2^52 = 2^n * 2^(52 - n) := by rw [← Nat.pow_add,Nat.add_sub_cancel' small]
  have bits : e.toNat % 2^52 / 2^n = e.toNat / 2^n % 2^(52 - n) := by rw [width,Nat.mod_mul_right_div_self]
  have bound : e.toNat / 2^n % 2^(52 - n) * 2^n < 2^52 := by
    rw [width,Nat.mul_comm]
    exact Nat.mul_lt_mul_of_pos_left (Nat.mod_lt _ (Nat.two_pow_pos _)) (Nat.two_pow_pos n)
  have inner : e.toNat / 2^n % 2^(52 - n) < 2^64 :=
    Nat.lt_of_le_of_lt (Nat.le_mul_of_pos_right _ (Nat.two_pow_pos n)) (Nat.lt_trans bound (by decide))
  rw [bits,field,BitVec.toNat_shiftLeft,BitVec.toNat_setWidth,BitVec.extractLsb'_toNat,Nat.shiftLeft_eq,
    Nat.shiftRight_eq_div_pow,Nat.mod_eq_of_lt inner]
  exact Nat.mod_eq_of_lt (Nat.lt_trans bound (by decide))

theorem offset_toNat (v : Word) (small : n ≤ 64) : (offset v n).toNat = v.toNat % 2^n := by
  have bound : v.toNat % 2^n < 2^64 :=
    Nat.lt_of_lt_of_le (Nat.mod_lt _ (Nat.two_pow_pos n)) (Nat.pow_le_pow_right (by decide) small)
  rw [offset,BitVec.toNat_setWidth,BitVec.toNat_setWidth,Nat.mod_eq_of_lt bound]

structure Aligned (q : Word) : Prop where
  low : q.toNat % 2^12 = 0
  high : q.toNat < 2^52

theorem aligned_field (e : Word) : Aligned (field e 12) := by
  have bits := field_toNat e (n := 12) (by decide)
  exact ⟨by omega,by omega⟩

section Pointers

variable {q : Word} (aligned : Aligned q)
include aligned

theorem field_aligned : field q 12 = q := by
  have low := aligned.low
  have high := aligned.high
  refine BitVec.eq_of_toNat_eq ?_
  rw [field_toNat q (by decide),Nat.mod_eq_of_lt high]
  omega

/-- The address of a table with the bits of an entry that is present and writable. -/
theorem pointer_toNat : (q ||| 3).toNat = q.toNat + 3 := by
  have low := aligned.low
  have split : q.toNat = 2^12 * (q.toNat / 2^12) := by omega
  rw [BitVec.toNat_or,split]
  exact (Nat.two_pow_add_eq_or_of_lt (by decide) _).symm

theorem field_pointer : field (q ||| 3) 12 = q := by
  have low := aligned.low
  have high := aligned.high
  refine BitVec.eq_of_toNat_eq ?_
  rw [field_toNat _ (by decide),pointer_toNat aligned]
  omega

theorem large_pointer : large (q ||| 3) = false := by
  have low := aligned.low
  rw [large,BitVec.getLsbD,pointer_toNat aligned,Nat.testBit_eq_decide_div_mod_eq,decide_eq_false_iff_not]
  omega

end Pointers

theorem present_pointer (q : Word) : present (q ||| 3) = true := by simp [present]

theorem writable_pointer (q : Word) : writable (q ||| 3) = true := by simp [writable]

end Kernal.Paging
