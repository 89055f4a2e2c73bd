import Kernal.Cfs
import Mathlib.Algebra.Order.Field.Basic
import Mathlib.Algebra.Order.Field.Rat
import Mathlib.Tactic.FieldSimp
import Mathlib.Tactic.Linarith
import Mathlib.Tactic.Ring

/-! `calc_delta_fair`: the time an entity is charged, weighed by the inverse of its weight.
The inverse is cut off to 32 bits, the factor is shifted down until it fits them, and the
product is cut off again. Only the first and the last of these lose anything. -/
namespace Kernal.Cfs

/-- The constants and helpers of the weighing, as every configuration has them. -/
structure Weighing (env : Platform) : Prop where
  const : env.wmultConst = 2^32 - 1
  shift : env.wmultShift = 32
  scale : ∀ w, env.scaleLoadDown w = w
  mul : ∀ a m (s : Nat), env.mulU64U32Shr a m s = BitVec.ofNat 64 (a.toNat * m.toNat / 2^s)

/-- The entity has weight `w`, and its inverse weight is not known yet or is the one that
`__update_inv_weight` computes. -/
structure Weighs (env : Platform) (w : Nat) (se : SchedEntity) : Prop where
  weight : se.weight = w
  inverse : se.invWeight = 0 ∨ se.invWeight = (updateInvWeight env { se with invWeight := 0 }).invWeight

/-- The factor and the shift that `__calc_delta` passes to `mul_u64_u32_shr`. -/
def multiplier (env : Platform) (weight : Nat) (se : SchedEntity) : Ulong × Int :=
  let fact := BitVec.ofNat 64 (env.scaleLoadDown (weight % 2^32))
  let (fact, shift) := shrinkFact 32 fact env.wmultShift
  let (fact, shift) := shrinkFact 32
    ((fact.setWidth 32).setWidth 64 * (updateInvWeight env se).invWeight) shift
  (fact.setWidth 32, shift)

theorem calcDelta_fst (env : Platform) (delta : U64) (weight : Nat) (se : SchedEntity) :
    (calcDelta env delta weight se).1 =
      env.mulU64U32Shr delta (multiplier env weight se).1 (multiplier env weight se).2 := rfl

def maxWeight : Nat := 88761

def inverse (w : Nat) : Nat := (2^32 - 1) / w

def charge (w delta : Nat) : Nat := if w = NICE_0_LOAD then delta else delta * inverse w / 2^22

/-- The loop stops as soon as the factor fits 32 bits. -/
theorem shrinkFact_eq (n : Nat) : (rounds : Nat) → (fact : U64) → (shift : Int) → n ≤ rounds →
    fact.toNat < 2^(32 + n) → ∃ k ≤ n, shrinkFact rounds fact shift = (fact >>> k, shift - k) ∧
      (fact >>> k).toNat < 2^32 := by
  induction n with
  | zero =>
    intro rounds fact shift _ small
    have fits : fact >>> 32 = 0 := by
      apply BitVec.eq_of_toNat_eq
      simp only [BitVec.toNat_ushiftRight,Nat.shiftRight_eq_div_pow]
      exact Nat.div_eq_of_lt small
    refine ⟨0,Nat.le_refl 0,?_,by simpa using small⟩
    cases rounds <;> simp [shrinkFact,fits]
  | succ n ih =>
    intro rounds fact shift enough small
    obtain ⟨rounds,rfl⟩ := Nat.exists_eq_succ_of_ne_zero (Nat.ne_zero_of_lt enough)
    by_cases fits : fact >>> 32 = 0
    · refine ⟨0,Nat.zero_le _,by simp [shrinkFact,fits],?_⟩
      have zero := congrArg BitVec.toNat fits
      simp only [BitVec.toNat_ushiftRight,Nat.shiftRight_eq_div_pow] at zero
      have less : fact.toNat < 2^32 := (Nat.div_eq_zero_iff_lt (by decide)).mp zero
      simpa using less
    · have half : (fact >>> 1).toNat < 2^(32 + n) := by
        simp only [BitVec.toNat_ushiftRight,Nat.shiftRight_eq_div_pow]
        rw [← Nat.add_assoc,pow_succ] at small
        omega
      obtain ⟨k,le,same,less⟩ := ih rounds _ (shift - 1) (Nat.le_of_succ_le_succ enough) half
      have shifted : fact >>> 1 >>> k = fact >>> (k + 1) := by
        rw [← BitVec.shiftRight_add,Nat.add_comm]
      refine ⟨k + 1,Nat.succ_le_succ le,?_,shifted ▸ less⟩
      rw [shrinkFact,if_pos fits,same,shifted]
      congr 1
      push_cast
      omega

section Multiplier

variable {env : Platform} (helpers : Weighing env) {se : SchedEntity} {w : Nat}
include helpers

theorem updateInvWeight_inverse (weighs : Weighs env w se) (positive : 1 ≤ w) (bound : w ≤ maxWeight) :
    (updateInvWeight env se).invWeight = BitVec.ofNat 64 (inverse w) := by
  have fresh (se : SchedEntity) (weight : se.weight = w) (unknown : se.invWeight = 0) :
      (updateInvWeight env se).invWeight = BitVec.ofNat 64 (inverse w) := by
    have small : w % 2^32 = w := Nat.mod_eq_of_lt (by unfold maxWeight at bound; omega)
    have below : ¬2^32 - 1 ≤ w := by unfold maxWeight at bound; omega
    have nonzero : w ≠ 0 := by omega
    simp only [updateInvWeight,unknown,helpers.scale,helpers.const,weight,small,below,nonzero,ne_eq,
      not_true_eq_false,if_false,inverse]
  rcases weighs.inverse with unknown | known
  · exact fresh se weighs.weight unknown
  · have computed := fresh { se with invWeight := 0 } weighs.weight rfl
    rw [← known] at computed
    by_cases unknown : se.invWeight = 0
    · exact fresh se weighs.weight unknown
    · simp only [updateInvWeight,unknown,ne_eq,not_false_eq_true,if_true]
      exact computed

/-- The factor is `1024` inverse weights, shifted down by at most ten places. -/
theorem multiplier_eq (weighs : Weighs env w se) (positive : 1 ≤ w) (bound : w ≤ maxWeight) :
    ∃ k ≤ 10, (multiplier env NICE_0_LOAD se).2 = ((32 - k : Nat) : Int) ∧
      (multiplier env NICE_0_LOAD se).1.toNat * 2^k = 1024 * inverse w := by
  have inv := updateInvWeight_inverse helpers weighs positive bound
  have least : inverse w ≤ 2^32 - 1 := Nat.div_le_self _ _
  have word : (BitVec.ofNat 64 (inverse w)).toNat = inverse w := by
    rw [BitVec.toNat_ofNat]
    exact Nat.mod_eq_of_lt (by omega)
  obtain ⟨k₀,none,first,_⟩ := shrinkFact_eq 0 32 (BitVec.ofNat 64 1024) 32 (by omega) (by decide)
  obtain rfl : k₀ = 0 := by omega
  have product : ((BitVec.ofNat 64 1024 >>> 0).setWidth 32).setWidth 64 * BitVec.ofNat 64 (inverse w) =
      BitVec.ofNat 64 (1024 * inverse w) := by
    rw [show ((BitVec.ofNat 64 1024 >>> 0).setWidth 32).setWidth 64 = BitVec.ofNat 64 1024 from rfl]
    exact (BitVec.ofNat_mul ..).symm
  have size : (BitVec.ofNat 64 (1024 * inverse w)).toNat = 1024 * inverse w := by
    rw [BitVec.toNat_ofNat]
    exact Nat.mod_eq_of_lt (by omega)
  obtain ⟨k,le,second,fits⟩ := shrinkFact_eq 10 32 (BitVec.ofNat 64 (1024 * inverse w)) 32 (by omega)
    (by rw [size]; omega)
  have result : multiplier env NICE_0_LOAD se =
      ((BitVec.ofNat 64 (1024 * inverse w) >>> k).setWidth 32,32 - (k : Int)) := by
    have scaled : env.scaleLoadDown (NICE_0_LOAD % 2^32) = 1024 := helpers.scale 1024
    simp only [multiplier,scaled,helpers.shift,inv]
    rw [show ((32 : Nat) : Int) = 32 from rfl,first]
    simp only [product]
    rw [show (32 : Int) - ((0 : Nat) : Int) = 32 from rfl,second]
  refine ⟨k,le,?_,?_⟩
  · rw [result]
    dsimp only
    omega
  · -- The ten low bits that may go are zero.
    rw [result,BitVec.toNat_setWidth,Nat.mod_eq_of_lt fits,BitVec.toNat_ushiftRight,size,
      Nat.shiftRight_eq_div_pow]
    apply Nat.div_mul_cancel
    exact Nat.dvd_trans (Nat.pow_dvd_pow 2 le) (Nat.dvd_mul_right 1024 _)

/-- The machine computes `charge`. -/
theorem calcDeltaFair_charge (weighs : Weighs env w se) (positive : 1 ≤ w) (bound : w ≤ maxWeight)
    {delta : U64} (small : delta.toNat < 2^53) :
    (calcDeltaFair env delta se).1.toNat = charge w delta.toNat := by
  unfold calcDeltaFair charge
  rw [weighs.weight]
  by_cases unscaled : w = NICE_0_LOAD
  · simp [unscaled]
  · simp only [unscaled,ne_eq,not_false_eq_true,if_true,if_false]
    obtain ⟨k,le,shift,factor⟩ := multiplier_eq helpers weighs positive bound
    have least : inverse w ≤ 2^32 - 1 := Nat.div_le_self _ _
    have split : 2^(32 - k) * 2^k = 2^32 := by
      rw [← pow_add,Nat.sub_add_cancel (by omega)]
    have scaled : delta.toNat * (multiplier env NICE_0_LOAD se).1.toNat / 2^(32 - k) =
        delta.toNat * inverse w / 2^22 := by
      calc delta.toNat * (multiplier env NICE_0_LOAD se).1.toNat / 2^(32 - k)
          = delta.toNat * (multiplier env NICE_0_LOAD se).1.toNat * 2^k / (2^(32 - k) * 2^k) :=
            (Nat.mul_div_mul_right _ _ (by positivity)).symm
        _ = 1024 * (delta.toNat * inverse w) / (1024 * 2^22) := by
            rw [split,Nat.mul_assoc,factor,Nat.mul_left_comm]
            rfl
        _ = delta.toNat * inverse w / 2^22 := Nat.mul_div_mul_left _ _ (by decide)
    have room : delta.toNat * inverse w / 2^22 < 2^64 := by
      have : delta.toNat * inverse w ≤ 2^53 * 2^32 := Nat.mul_le_mul (by omega) (by omega)
      omega
    rw [calcDelta_fst,shift,helpers.mul,BitVec.toNat_ofNat,scaled]
    exact Nat.mod_eq_of_lt room

end Multiplier

section Charge

variable {w w₁ w₂ delta : Nat}

theorem inverse_mul_lt (w : Nat) : w * inverse w < 2^32 := by
  have := Nat.mul_div_le (2^32 - 1) w
  unfold inverse
  omega

theorem lt_inverse_mul (positive : 1 ≤ w) : 2^32 ≤ w * inverse w + w := by
  have := Nat.lt_mul_div_succ (2^32 - 1) positive
  rw [Nat.mul_succ] at this
  unfold inverse
  omega

theorem inverse_anti (positive : 1 ≤ w₁) (le : w₁ ≤ w₂) : inverse w₂ ≤ inverse w₁ :=
  Nat.div_le_div_left le positive

theorem charge_le (w delta : Nat) : charge w delta * w ≤ delta * 1024 := by
  unfold charge
  split
  next same => rw [same]; rfl
  next =>
    have quotient := Nat.div_mul_le_self (delta * inverse w) (2^22)
    have inverted : delta * (w * inverse w) ≤ delta * 2^32 :=
      Nat.mul_le_mul_left delta (inverse_mul_lt w).le
    have scaled : delta * inverse w / 2^22 * w * 2^22 ≤ delta * 1024 * 2^22 := by
      calc delta * inverse w / 2^22 * w * 2^22 = delta * inverse w / 2^22 * 2^22 * w := by
            rw [Nat.mul_right_comm]
        _ ≤ delta * inverse w * w := Nat.mul_le_mul_right w quotient
        _ = delta * (w * inverse w) := by rw [Nat.mul_assoc,Nat.mul_comm w]
        _ ≤ delta * 2^32 := inverted
        _ = delta * 1024 * 2^22 := by ring
    exact Nat.le_of_mul_le_mul_right scaled (by positivity)

/-- At most one part in `2^15` and one unit are lost. -/
theorem le_charge (positive : 1 ≤ w) (bound : w ≤ maxWeight) (delta : Nat) :
    delta * 1024 * (2^15 - 1) ≤ (charge w delta + 1) * w * 2^15 := by
  unfold charge
  split
  next same =>
    subst same
    unfold NICE_0_LOAD
    omega
  next =>
    have quotient : delta * inverse w < delta * inverse w / 2^22 * 2^22 + 2^22 :=
      Nat.lt_div_mul_add (Nat.two_pow_pos 22)
    have inverted : 2^17 * (2^15 - 1) ≤ inverse w * w := by
      have := lt_inverse_mul positive
      rw [Nat.mul_comm w] at this
      unfold maxWeight at bound
      omega
    generalize delta * inverse w / 2^22 = q at quotient ⊢
    have scaled : delta * 1024 * (2^15 - 1) * 2^7 ≤ (q + 1) * w * 2^15 * 2^7 := by
      calc delta * 1024 * (2^15 - 1) * 2^7 = delta * (2^17 * (2^15 - 1)) := by omega
        _ ≤ delta * (inverse w * w) := Nat.mul_le_mul_left delta inverted
        _ = delta * inverse w * w := (Nat.mul_assoc ..).symm
        _ ≤ (q + 1) * 2^22 * w := Nat.mul_le_mul_right w (by omega)
        _ = (q + 1) * w * 2^15 * 2^7 := by
            rw [Nat.mul_right_comm (q + 1) (2^22) w,Nat.mul_assoc _ (2^15) (2^7)]
            rfl
    exact Nat.le_of_mul_le_mul_right scaled (by positivity)

theorem charge_add (w d₁ d₂ : Nat) : charge w (d₁ + d₂) = charge w d₁ + charge w d₂ ∨
    charge w (d₁ + d₂) = charge w d₁ + charge w d₂ + 1 := by
  unfold charge
  split
  · exact .inl rfl
  · rw [Nat.add_mul]
    omega

theorem charge_mono (w : Nat) {d₁ d₂ : Nat} (le : d₁ ≤ d₂) : charge w d₁ ≤ charge w d₂ := by
  unfold charge
  split
  · exact le
  · exact Nat.div_le_div_right (Nat.mul_le_mul_right _ le)

/-- The weight whose time is not scaled has its place in the order too. -/
theorem charge_anti (positive : 1 ≤ w₁) (le : w₁ ≤ w₂) (delta : Nat) : charge w₂ delta ≤ charge w₁ delta := by
  have scaled {i j : Nat} (le : i ≤ j) : delta * i / 2^22 ≤ delta * j / 2^22 :=
    Nat.div_le_div_right (Nat.mul_le_mul_left delta le)
  have unit : delta * 2^22 / 2^22 = delta := Nat.mul_div_cancel delta (Nat.two_pow_pos 22)
  unfold charge
  split <;> split
  · exact Nat.le_refl delta
  next second first =>
    have heavy : 2^22 ≤ inverse w₁ := by
      have := inverse_anti positive (show w₁ ≤ 1023 by unfold NICE_0_LOAD at *; omega)
      unfold inverse at this ⊢
      omega
    have more := scaled heavy
    rwa [unit] at more
  next second first =>
    have light : inverse w₂ ≤ 2^22 := by
      have := inverse_anti (show 1 ≤ 1025 by decide) (show 1025 ≤ w₂ by unfold NICE_0_LOAD at *; omega)
      unfold inverse at this ⊢
      omega
    have less := scaled light
    rwa [unit] at less
  · exact scaled (inverse_anti positive le)

/-- The charged time lies below the exact one, and not far. -/
theorem charge_near (positive : 1 ≤ w) (bound : w ≤ maxWeight) (delta : Nat) :
    (charge w delta : ℚ) ≤ delta * 1024 / w ∧ (delta * 1024 / w : ℚ) * (1 - 1 / 2^15) - 1 ≤ charge w delta := by
  have weight : (0 : ℚ) < w := by exact_mod_cast positive
  constructor
  · apply (le_div_iff₀ weight).mpr
    exact_mod_cast charge_le w delta
  · have below : (delta * 1024 : ℚ) * 32767 ≤ (charge w delta + 1) * w * 32768 := by
      exact_mod_cast le_charge positive bound delta
    rw [sub_le_iff_le_add]
    calc (delta * 1024 / w : ℚ) * (1 - 1 / 2^15) = delta * 1024 * 32767 / (w * 32768) := by
          field_simp
          ring
      _ ≤ charge w delta + 1 := by
          apply (div_le_iff₀ (by positivity)).mpr
          linarith

end Charge

/-- The charged time is exact up to the loss of two roundings, and it keeps the order of
both times and weights. -/
theorem weighted_time {env : Platform} (helpers : Weighing env) :
    (∀ w se (delta : U64), 1 ≤ w → w ≤ maxWeight → Weighs env w se → delta.toNat < 2^53 →
      let f := (calcDeltaFair env delta se).1.toNat
      let fair : ℚ := delta.toNat * 1024 / w
      f ≤ fair ∧ fair * (1 - 1 / 2^15) - 1 ≤ f ∧
      (calcDelta env delta NICE_0_LOAD se).1 = env.mulU64U32Shr delta
        (multiplier env NICE_0_LOAD se).1 (multiplier env NICE_0_LOAD se).2 ∧
      0 ≤ (multiplier env NICE_0_LOAD se).2) ∧
    (∀ w se (d₁ d₂ : U64), 1 ≤ w → w ≤ maxWeight → Weighs env w se → d₁.toNat + d₂.toNat < 2^53 →
      let f delta := (calcDeltaFair env delta se).1.toNat
      f (d₁ + d₂) = f d₁ + f d₂ ∨ f (d₁ + d₂) = f d₁ + f d₂ + 1) ∧
    (∀ w se (d₁ d₂ : U64), 1 ≤ w → w ≤ maxWeight → Weighs env w se → d₁ ≤ d₂ → d₂.toNat < 2^53 →
      (calcDeltaFair env d₁ se).1 ≤ (calcDeltaFair env d₂ se).1) ∧
    ∀ w₁ w₂ se₁ se₂ (delta : U64), 1 ≤ w₁ → w₁ ≤ w₂ → w₂ ≤ maxWeight → Weighs env w₁ se₁ →
      Weighs env w₂ se₂ → delta.toNat < 2^53 →
      (calcDeltaFair env delta se₂).1 ≤ (calcDeltaFair env delta se₁).1 := by
  refine ⟨?_,?_,?_,?_⟩
  · intro w se delta positive bound weighs small
    dsimp only
    rw [calcDeltaFair_charge helpers weighs positive bound small]
    obtain ⟨above,below⟩ := charge_near positive bound delta.toNat
    refine ⟨above,below,calcDelta_fst env delta _ se,?_⟩
    obtain ⟨k,_,shift,_⟩ := multiplier_eq helpers weighs positive bound
    rw [shift]
    exact Int.natCast_nonneg _
  · intro w se d₁ d₂ positive bound weighs small
    have sum : (d₁ + d₂).toNat = d₁.toNat + d₂.toNat := by
      rw [BitVec.toNat_add]
      exact Nat.mod_eq_of_lt (by omega)
    dsimp only
    have charged (delta : U64) (small : delta.toNat < 2^53) :=
      calcDeltaFair_charge helpers weighs positive bound small
    rw [charged (d₁ + d₂) (by omega),charged d₁ (by omega),charged d₂ (by omega),sum]
    exact charge_add w _ _
  · intro w se d₁ d₂ positive bound weighs le small
    have le' : d₁.toNat ≤ d₂.toNat := le
    rw [BitVec.le_def,calcDeltaFair_charge helpers weighs positive bound (by omega),
      calcDeltaFair_charge helpers weighs positive bound small]
    exact charge_mono w le
  · intro w₁ w₂ se₁ se₂ delta positive le bound first second small
    rw [BitVec.le_def,calcDeltaFair_charge helpers first positive (le.trans bound) small,
      calcDeltaFair_charge helpers second (positive.trans le) bound small]
    exact charge_anti positive le _

theorem basePlatform_weighing : Weighing basePlatform := by
  refine ⟨rfl,rfl,fun _ => rfl,fun a m s => ?_⟩
  change BitVec.ofNat 64 ((a.toNat * m.toNat) >>> s) = _
  rw [Nat.shiftRight_eq_div_pow]

/-- Tasks of nice level 5, 0 and -20 that each ran for 6 ms. -/
theorem weighted_time_nice :
    (calcDeltaFair basePlatform 6000000 (newEntity 335)).1 = 18340297 ∧
    (18340297 : ℚ) ≤ 6000000 * 1024 / 335 ∧ (6000000 * 1024 / 335 : ℚ) * (1 - 1 / 2^15) - 1 ≤ 18340297 ∧
    (calcDeltaFair basePlatform 6000000 (newEntity 1024)).1 ≤ (calcDeltaFair basePlatform 6000000 (newEntity 335)).1 ∧
    (calcDeltaFair basePlatform 6000000 (newEntity 88761)).1 ≤ (calcDeltaFair basePlatform 6000000 (newEntity 1024)).1 := by
  obtain ⟨near,_,_,order⟩ := weighted_time basePlatform_weighing
  have weighs (w : Nat) : Weighs basePlatform w (newEntity w) := ⟨rfl,.inl rfl⟩
  have value : (calcDeltaFair basePlatform 6000000 (newEntity 335)).1 = 18340297 := by decide
  obtain ⟨above,below,_⟩ := near 335 (newEntity 335) 6000000 (by decide) (by decide) (weighs 335) (by decide)
  rw [value] at above below
  refine ⟨value,above,below,?_,?_⟩
  · exact order 335 1024 _ _ 6000000 (by decide) (by decide) (by decide) (weighs 335) (weighs 1024) (by decide)
  · exact order 1024 88761 _ _ 6000000 (by decide) (by decide) (by decide) (weighs 1024) (weighs 88761)
      (by decide)

end Kernal.Cfs
