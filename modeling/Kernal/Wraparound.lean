import Mathlib.Data.BitVec

/-! Fixed-width counters that wrap around. Two values are compared by the sign of their
difference, which is their real order while both stay near a common base. -/
namespace Kernal.Wraparound

variable {w n : Nat} {x y base : BitVec w}

/-- As a signed number, `x` needs no more than `n + 1` bits. -/
def Fits (n : Nat) (x : BitVec w) : Prop := -2 ^ n ≤ x.toInt ∧ x.toInt < 2 ^ n

instance : Decidable (Fits n x) := inferInstanceAs (Decidable (_ ∧ _))

/-- Cutting off upper bits does no harm to a value that fits. -/
theorem Fits.toInt_setWidth (fits : Fits n x) (narrower : n < w) :
    (x.setWidth (n + 1)).toInt = x.toInt := by
  obtain ⟨low,high⟩ := fits
  have divides : 2 ^ (n + 1) ∣ 2 ^ w := Nat.pow_dvd_pow 2 narrower
  calc (x.setWidth (n + 1)).toInt = (x.toNat : Int).bmod (2 ^ (n + 1)) := BitVec.toInt_setWidth x
    _ = x.toInt.bmod (2 ^ (n + 1)) := by
      rw [BitVec.toInt_eq_toNat_bmod,Int.bmod_bmod_of_dvd divides]
    _ = x.toInt := by
      apply Int.bmod_eq_of_le_mul_two <;> (push_cast [pow_succ]; omega)

/-- Sums and differences that need few bits are those of the numbers. -/
theorem toInt_add_of_small (narrow : n < w) (low : -2 ^ n ≤ x.toInt + y.toInt) (high : x.toInt + y.toInt < 2 ^ n) :
    (x + y).toInt = x.toInt + y.toInt := by
  have room : (2 : Int) ^ (n + 1) ≤ 2 ^ w := by
    exact_mod_cast Nat.pow_le_pow_right (by decide) narrow
  rw [pow_succ] at room
  rw [BitVec.toInt_add]
  apply Int.bmod_eq_of_le_mul_two <;> (push_cast; omega)

theorem toInt_sub_of_small (narrow : n < w) (low : -2 ^ n ≤ x.toInt - y.toInt) (high : x.toInt - y.toInt < 2 ^ n) :
    (x - y).toInt = x.toInt - y.toInt := by
  have room : (2 : Int) ^ (n + 1) ≤ 2 ^ w := by
    exact_mod_cast Nat.pow_le_pow_right (by decide) narrow
  rw [pow_succ] at room
  rw [BitVec.toInt_sub]
  apply Int.bmod_eq_of_le_mul_two <;> (push_cast; omega)

/-- Near a common base the sign of the difference tells which value is larger. -/
theorem Fits.sub_nonneg_iff (hx : Fits n (x - base)) (hy : Fits n (y - base)) (narrow : n + 1 < w) :
    0 ≤ (y - x).toInt ↔ (x - base).toInt ≤ (y - base).toInt := by
  obtain ⟨lowX,highX⟩ := hx
  obtain ⟨lowY,highY⟩ := hy
  have room : (2 : Int) ^ (n + 2) ≤ 2 ^ w := by
    exact_mod_cast Nat.pow_le_pow_right (by decide) narrow
  have difference : (y - x).toInt = (y - base).toInt - (x - base).toInt := by
    rw [← sub_sub_sub_cancel_right y x base,BitVec.toInt_sub]
    rw [pow_succ,pow_succ] at room
    apply Int.bmod_eq_of_le_mul_two <;> (push_cast; omega)
  rw [difference]
  omega

end Kernal.Wraparound
