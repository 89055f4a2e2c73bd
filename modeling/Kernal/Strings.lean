import Kernal.Terminated
import Mathlib.Algebra.Group.Nat.Defs
import Mathlib.Algebra.Order.Ring.Int

/-! `strcmp` of `main.c`. A plain `char` is signed, and `*s1 - *s2` is a difference of signed
characters: bytes from 128 on count as negative, less than all others and than the terminator. -/
namespace Kernal.Strings

open Terminated

abbrev Byte := BitVec 8

/-- A pointer is what it points at, up to the end of the array. `none` is a read behind that end:
each round, or the return behind the loop, reads both characters. -/
def strcmp : List Byte → List Byte → Option (BitVec 32)
  | c1 :: s1, c2 :: s2 =>
    if c1 ≠ 0 ∧ c2 ≠ 0 ∧ c1 = c2 then strcmp s1 s2
    else some (c1.signExtend 32 - c2.signExtend 32)
  | _, _ => none

@[ext] structure CString where
  bytes : List Byte
  nonzero : 0 ∉ bytes
  deriving DecidableEq, Repr

namespace CString

def array (s : CString) : List Byte := s.bytes ++ [0]

def unsigned (s : CString) : List Nat := s.bytes.map BitVec.toNat

/-- The characters as the code sees them, with the terminator. -/
def signed (s : CString) : List Int := s.array.map BitVec.toInt

end CString

/-- What is expected of `strcmp`, whatever stands behind the two terminators. -/
def Conforms (a b : CString) : Prop :=
  ∃ v : BitVec 32, (∀ rest rest', strcmp (a.array ++ rest) (b.array ++ rest') = some v) ∧
    (v = 0 ↔ a = b) ∧ (v.toInt < 0 ↔ a.unsigned < b.unsigned) ∧ (0 < v.toInt ↔ b.unsigned < a.unsigned)

/-- Where the strings differ first, terminators included, both bytes are below 128 or both are not. -/
def SameHalf (a b : CString) : Prop := ∀ p ∈ firstDifference a.array b.array, p.1.msb = p.2.msb

/-- The order in which `strcmp` puts strings. -/
def Le (a b : CString) : Prop := ∃ v, strcmp a.array b.array = some v ∧ v.toInt ≤ 0

section Loop

variable {x y : Byte} {common xs ys : List Byte}

/-- The rounds of the loop. -/
theorem strcmp_append (nonzero : 0 ∉ common) (xs ys : List Byte) :
    strcmp (common ++ xs) (common ++ ys) = strcmp xs ys := by
  induction common with
  | nil => rfl
  | cons c common ih =>
    have goesOn : c ≠ 0 ∧ c ≠ 0 ∧ c = c := by
      have first := (List.ne_of_not_mem_cons nonzero).symm
      exact ⟨first,first,rfl⟩
    rw [List.cons_append,List.cons_append,strcmp,if_pos goesOn]
    exact ih (List.not_mem_of_not_mem_cons nonzero)

theorem strcmp_equal (nonzero : 0 ∉ common) (xs ys : List Byte) :
    strcmp (common ++ 0 :: xs) (common ++ 0 :: ys) = some 0 := by
  rw [strcmp_append nonzero]
  rfl

theorem strcmp_parts (nonzero : 0 ∉ common) (other : x ≠ y) :
    strcmp (common ++ x :: xs) (common ++ y :: ys) = some (x.signExtend 32 - y.signExtend 32) := by
  have stops : ¬(x ≠ 0 ∧ y ≠ 0 ∧ x = y) := fun goesOn => other goesOn.2.2
  rw [strcmp_append nonzero,strcmp,if_neg stops]

/-- The difference of two characters is an `int`. -/
theorem difference_toInt (x y : Byte) : (x.signExtend 32 - y.signExtend 32).toInt = x.toInt - y.toInt := by
  have lowX := BitVec.le_toInt x
  have highX := BitVec.toInt_lt (x := x)
  have lowY := BitVec.le_toInt y
  have highY := BitVec.toInt_lt (x := y)
  rw [BitVec.toInt_sub,BitVec.toInt_signExtend_of_le (by decide),BitVec.toInt_signExtend_of_le (by decide)]
  apply Int.bmod_eq_of_le_mul_two <;> omega

/-- Signed and unsigned characters are ordered alike on either half. -/
theorem same_order_iff (other : x ≠ y) :
    ((x.toInt < y.toInt ↔ x.toNat < y.toNat) ∧ (y.toInt < x.toInt ↔ y.toNat < x.toNat)) ↔ x.msb = y.msb := by
  have different : x.toNat ≠ y.toNat := fun same => other (BitVec.eq_of_toNat_eq same)
  have boundX := x.isLt
  have boundY := y.isLt
  rw [BitVec.toInt_eq_toNat_cond,BitVec.toInt_eq_toNat_cond,BitVec.msb_eq_decide,BitVec.msb_eq_decide,
    decide_eq_decide]
  split <;> split <;> omega

end Loop

section Strings

variable {a b : CString} {common xs ys : List Byte} {x y : Byte}

/-- The strings part at the bytes `x` and `y`. -/
abbrev CString.Part (a b : CString) (common : List Byte) (x y : Byte) (xs ys : List Byte) : Prop :=
  Parts 0 a.bytes b.bytes common x y xs ys

theorem equal_or_part (a b : CString) : a = b ∨ ∃ common x y xs ys, a.Part b common x y xs ys :=
  (eq_or_parts a.nonzero b.nonzero).imp_left CString.ext

theorem strcmp_differ (part : a.Part b common x y xs ys) (rest rest' : List Byte) :
    strcmp (a.array ++ rest) (b.array ++ rest') = some (x.signExtend 32 - y.signExtend 32) := by
  rw [CString.array,CString.array,part.left,part.right,List.append_assoc,List.append_assoc]
  exact strcmp_parts part.unmarked part.other

theorem strcmp_self (a : CString) (rest rest' : List Byte) : strcmp (a.array ++ rest) (a.array ++ rest') = some 0 := by
  rw [CString.array,List.append_assoc,List.append_assoc]
  exact strcmp_equal a.nonzero rest rest'

theorem unsigned_lt_iff (part : a.Part b common x y xs ys) : a.unsigned < b.unsigned ↔ x.toNat < y.toNat := by
  have positive (s : CString) : ∀ n ∈ s.unsigned, 0 < n := by
    intro n member
    obtain ⟨c,inside,rfl⟩ := List.mem_map.mp member
    have other : c ≠ 0 := fun zero => s.nonzero (zero ▸ inside)
    exact Nat.pos_of_ne_zero fun zero => other (BitVec.eq_of_toNat_eq zero)
  have marked (s : CString) : s.unsigned ++ [0] = s.array.map BitVec.toNat := by
    rw [CString.array,List.map_append]
    rfl
  have keys : x.toNat ≠ y.toNat := fun same => part.other (BitVec.eq_of_toNat_eq same)
  rw [lt_iff_marked (positive a) (positive b),marked,marked]
  exact part.lt_iff keys

theorem signed_lt_iff (part : a.Part b common x y xs ys) : a.signed < b.signed ↔ x.toInt < y.toInt :=
  part.lt_iff fun same => part.other (BitVec.eq_of_toInt_eq same)

theorem signed_injective (same : a.signed = b.signed) : a = b := by
  have arrays : a.array = b.array := List.map_injective_iff.mpr (fun _ _ => BitVec.eq_of_toInt_eq) same
  exact CString.ext (List.append_cancel_right arrays)

theorem sameHalf_iff (part : a.Part b common x y xs ys) : SameHalf a b ↔ x.msb = y.msb := by
  rw [SameHalf,CString.array,CString.array,part.left,part.right,firstDifference_parts part.other]
  simp only [Option.mem_def,Option.some.injEq,forall_eq']

/-- The result conforms exactly if signed and unsigned characters have the order of the first
difference. -/
theorem conforms_iff_order (part : a.Part b common x y xs ys) :
    Conforms a b ↔ ((x.toInt < y.toInt ↔ x.toNat < y.toNat) ∧ (y.toInt < x.toInt ↔ y.toNat < x.toNat)) := by
  have result := strcmp_differ part
  have less := unsigned_lt_iff part
  have greater := unsigned_lt_iff part.swap
  have value := difference_toInt x y
  generalize x.signExtend 32 - y.signExtend 32 = d at result value
  have negative : d.toInt < 0 ↔ x.toInt < y.toInt := by omega
  have positive : 0 < d.toInt ↔ y.toInt < x.toInt := by omega
  constructor
  · rintro ⟨v,returns,_,below,above⟩
    obtain rfl : d = v := Option.some.inj ((result [] []).symm.trans (returns [] []))
    rw [negative,less] at below
    rw [positive,greater] at above
    exact ⟨below,above⟩
  · rintro ⟨below,above⟩
    refine ⟨d,result,?_,negative.trans (below.trans less.symm),positive.trans (above.trans greater.symm)⟩
    have nonzero : d ≠ 0 := by
      rintro rfl
      have same : x.toInt = y.toInt := Int.sub_eq_zero.mp (value.symm.trans rfl)
      exact part.other (BitVec.eq_of_toInt_eq same)
    exact ⟨fun zero => absurd zero nonzero,fun same => absurd (congrArg CString.bytes same) part.ne⟩

theorem conforms_self (a : CString) : Conforms a a :=
  ⟨0,strcmp_self a,by simp,by simp,by simp⟩

theorem conforms_iff (a b : CString) : Conforms a b ↔ SameHalf a b := by
  rcases equal_or_part a b with rfl | ⟨common,x,y,xs,ys,part⟩
  · have none : SameHalf a a := by simp [SameHalf,firstDifference_self]
    exact ⟨fun _ => none,fun _ => conforms_self a⟩
  · rw [conforms_iff_order part,sameHalf_iff part]
    exact same_order_iff part.other

/-- `strcmp` orders strings by their signed characters, terminators included. -/
theorem le_iff (a b : CString) : Le a b ↔ a.signed ≤ b.signed := by
  rcases equal_or_part a b with rfl | ⟨common,x,y,xs,ys,part⟩
  · have result := strcmp_self a [] []
    rw [List.append_nil] at result
    exact ⟨fun _ => le_rfl,fun _ => ⟨0,result,le_rfl⟩⟩
  · have result := strcmp_differ part [] []
    have value := difference_toInt x y
    have greater := signed_lt_iff part.swap
    rw [List.append_nil,List.append_nil] at result
    rw [Le,result,← not_lt,greater]
    simp only [Option.some.injEq,exists_eq_left',value]
    omega

theorem le_linearOrder : IsLinearOrder CString Le where
  refl a := (le_iff a a).mpr le_rfl
  trans a b c first second := (le_iff a c).mpr (((le_iff a b).mp first).trans ((le_iff b c).mp second))
  antisymm a b first second := signed_injective (le_antisymm ((le_iff a b).mp first) ((le_iff b a).mp second))
  total a b := (le_total a.signed b.signed).imp (le_iff a b).mpr (le_iff b a).mpr

/-- `strcmp` returns within both strings, and zero for equal ones alone. Its sign is that of the
comparison of unsigned bytes exactly if the first difference is not one across 128. In any case
it is a total order. -/
theorem strcmp_conforms_iff (a b : CString) : (Conforms a b ↔ SameHalf a b) ∧ IsLinearOrder CString Le :=
  ⟨conforms_iff a b,le_linearOrder⟩

end Strings

/-- A character from 128 on counts as less than a letter, and a string as less than one that it
starts with. -/
theorem strcmp_not_conforms :
    let accented : CString := ⟨[0xE9], by decide⟩
    let plain : CString := ⟨[0x65], by decide⟩
    let empty : CString := ⟨[], by decide⟩
    strcmp accented.array plain.array = some (-124) ∧ strcmp accented.array empty.array = some (-23) ∧
      ¬Conforms accented plain ∧ ¬Conforms accented empty := by
  intro accented plain empty
  refine ⟨by decide,by decide,fun conforms => ?_,fun conforms => ?_⟩
  · have same := (conforms_iff accented plain).mp conforms (0xE9, 0x65) rfl
    exact absurd same (by decide)
  · have same := (conforms_iff accented empty).mp conforms (0xE9, 0) rfl
    exact absurd same (by decide)

end Kernal.Strings
