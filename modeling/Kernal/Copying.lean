import Mathlib.Algebra.Group.Nat.Defs
import Mathlib.Logic.Function.Basic

/-! Copying upwards in a memory with addresses of `w` bits, one cell at a time. Where the copy
lies above the original it reads what it has written itself, and repeats the cells in between. -/
namespace Kernal.Copying

variable {α : Type} {w : Nat}

abbrev Memory (α : Type) (w : Nat) := BitVec w → α

def offset (p : BitVec w) (i : Nat) : BitVec w := p + BitVec.ofNat w i

theorem offset_zero (p : BitVec w) : offset p 0 = p := BitVec.add_zero p

theorem offset_offset (p : BitVec w) (i j : Nat) : offset (offset p i) j = offset p (i + j) := by
  rw [offset,offset,offset,BitVec.ofNat_add,BitVec.add_assoc]

theorem offset_turn (p : BitVec w) : offset p (2^w) = p := by
  have zero : BitVec.ofNat w (2^w) = 0#w := by
    apply BitVec.eq_of_toNat_eq
    rw [BitVec.toNat_ofNat,Nat.mod_self,BitVec.toNat_ofNat,Nat.zero_mod]
  rw [offset,zero,BitVec.add_zero]

theorem offset_sub_toNat (p : BitVec w) {i : Nat} (fits : i < 2^w) : (offset p i - p).toNat = i := by
  rw [offset,BitVec.add_comm,BitVec.add_sub_cancel,BitVec.toNat_ofNat,Nat.mod_eq_of_lt fits]

/-- Every address lies at its distance. -/
theorem offset_distance (p a : BitVec w) : offset p (a - p).toNat = a := by
  rw [offset,BitVec.ofNat_toNat,BitVec.setWidth_eq,BitVec.add_comm,BitVec.sub_add_cancel]

theorem offset_inj (p : BitVec w) {i j : Nat} (hi : i < 2^w) (hj : j < 2^w) : offset p i = offset p j ↔ i = j := by
  constructor
  · intro same
    rw [← offset_sub_toNat p hi,same,offset_sub_toNat p hj]
  · exact congrArg _

def copyLoop : Nat → BitVec w → BitVec w → Memory α w → Memory α w
  | 0, _, _, m => m
  | n + 1, d, s, m => copyLoop n (offset d 1) (offset s 1) (Function.update m d (m s))

/-- The last round of the loop. -/
theorem copyLoop_succ (n : Nat) : (d s : BitVec w) → (m : Memory α w) → copyLoop (n + 1) d s m =
    Function.update (copyLoop n d s m) (offset d n) (copyLoop n d s m (offset s n)) := by
  induction n with
  | zero =>
    intro d s m
    simp only [copyLoop,offset_zero]
  | succ n ih =>
    intro d s m
    rw [copyLoop,ih,copyLoop,offset_offset,offset_offset,Nat.add_comm 1 n]

/-- How far the next original lies above the copy. -/
theorem distance_next (d s : BitVec w) {n : Nat} (fits : n < 2^w) : (offset s n - d).toNat =
    if (d - s).toNat ≤ n then n - (d - s).toNat else 2^w - ((d - s).toNat - n) := by
  have below := (d - s).isLt
  have place := offset_distance s d
  generalize (d - s).toNat = k at below place
  subst place
  by_cases behind : k ≤ n
  · have from_copy : offset s n = offset (offset s k) (n - k) := by
      rw [offset_offset,Nat.add_sub_cancel' behind]
    rw [if_pos behind,from_copy]
    exact offset_sub_toNat _ (Nat.lt_of_le_of_lt (Nat.sub_le n k) fits)
  · have ahead := Nat.lt_of_not_le behind
    have around : offset s n = offset (offset s k) (2^w - (k - n)) := by
      have turn : k + (2^w - (k - n)) = n + 2^w := by omega
      rw [offset_offset,turn,← offset_offset,offset_turn]
    rw [if_neg behind,around]
    exact offset_sub_toNat _ (by omega)

/-- What the loop of `n` rounds does. Each cell gets the one that lies as far above the original,
modulo the distance. -/
def Repeats (n : Nat) (d s : BitVec w) (m : Memory α w) : Prop :=
  ∀ a, copyLoop n d s m a = if (a - d).toNat < n then m (offset s ((a - d).toNat % (d - s).toNat)) else m a

theorem Repeats.read {n : Nat} {d s : BitVec w} {m : Memory α w} (repeats : Repeats n d s m) (fits : n < 2^w) :
    copyLoop n d s m (offset s n) = m (offset s (n % (d - s).toNat)) := by
  have below := (d - s).isLt
  rw [repeats,distance_next d s fits]
  by_cases behind : (d - s).toNat ≤ n
  · rw [if_pos behind]
    by_cases here : (d - s).toNat = 0
    · rw [here,Nat.sub_zero,if_neg (Nat.lt_irrefl n),Nat.mod_zero]
    · rw [if_pos (by omega),Nat.mod_eq_sub_mod behind]
  · rw [if_neg behind,if_neg (by omega),Nat.mod_eq_of_lt (Nat.lt_of_not_le behind)]

theorem copyLoop_get (d s : BitVec w) (m : Memory α w) (n : Nat) (fits : n ≤ 2^w) : Repeats n d s m := by
  induction n with
  | zero =>
    intro a
    rw [if_neg (Nat.not_lt_zero _),copyLoop]
  | succ n ih =>
    have ih := ih (Nat.le_of_succ_le fits)
    intro a
    rw [copyLoop_succ,ih.read fits]
    by_cases last : a = offset d n
    · subst last
      rw [Function.update_self,offset_sub_toNat d fits,if_pos (Nat.lt_succ_self n)]
    · have other : (a - d).toNat ≠ n := by
        rintro rfl
        exact last (offset_distance d a).symm
      rw [Function.update_of_ne last,ih]
      by_cases inside : (a - d).toNat < n
      · rw [if_pos inside,if_pos (by omega)]
      · rw [if_neg inside,if_neg (by omega)]

/-- The `n` cells at `d` are not written before the one `n` cells above `s` is read. -/
def Apart (d s : BitVec w) (n : Nat) : Prop := d = s ∨ n ≤ (d - s).toNat

theorem Apart.mod {d s : BitVec w} {i : Nat} (apart : Apart d s (i + 1)) (m : Memory α w) :
    m (offset s (i % (d - s).toNat)) = m (offset s i) := by
  rcases apart with rfl | apart
  · rw [BitVec.sub_self]
    exact congrArg (fun j => m (offset d j)) (Nat.mod_zero i)
  · rw [Nat.mod_eq_of_lt apart]

theorem Apart.mono {d s : BitVec w} {i n : Nat} (apart : Apart d s n) (le : i ≤ n) : Apart d s i :=
  apart.imp_right (Nat.le_trans le)

/-- The copy is that of the original as it was exactly if it does not start inside the part of
the original that is still to be read. -/
theorem copyLoop_faithful_iff {x y : α} (different : x ≠ y) (d s : BitVec w) (n : Nat) (fits : n ≤ 2^w) :
    (∀ (m : Memory α w), ∀ i < n, copyLoop n d s m (offset d i) = m (offset s i)) ↔ Apart d s n := by
  have below := (d - s).isLt
  constructor
  · intro faithful
    by_contra within
    rw [Apart,not_or,Nat.not_le] at within
    obtain ⟨other,short⟩ := within
    have apart : (d - s).toNat ≠ 0 := by
      intro zero
      have place := offset_distance s d
      rw [zero,offset_zero] at place
      exact other place.symm
    -- The cell where the copy starts gets the first one, and is the next to be copied.
    have copied := faithful (Function.update (fun _ => x) s y) (d - s).toNat short
    rw [copyLoop_get _ _ _ _ fits,offset_sub_toNat d below,if_pos short,Nat.mod_self,offset_zero,
      offset_distance,Function.update_self,Function.update_of_ne other] at copied
    exact different copied.symm
  · intro apart m i inside
    rw [copyLoop_get _ _ _ _ fits,offset_sub_toNat d (Nat.lt_of_lt_of_le inside fits),if_pos inside,
      (apart.mono inside).mod m]

section Until

variable (stop : α → Bool)

/-- The loop that ends with the first cell it has copied that stops it; it gets a number of
rounds that it may take. -/
def copyUntil : Nat → BitVec w → BitVec w → Memory α w → Option (Memory α w)
  | 0, _, _, _ => none
  | fuel + 1, d, s, m =>
    let m' := Function.update m d (m s)
    if stop (m s) then some m' else copyUntil fuel (offset d 1) (offset s 1) m'

variable {stop}

/-- While nothing stops it, the loop copies on. -/
theorem copyUntil_add (n fuel : Nat) : (d s : BitVec w) → (m : Memory α w) →
    (∀ i < n, stop (copyLoop i d s m (offset s i)) = false) →
    copyUntil stop (n + fuel) d s m = copyUntil stop fuel (offset d n) (offset s n) (copyLoop n d s m) := by
  induction n with
  | zero =>
    intro d s m _
    rw [Nat.zero_add,offset_zero,offset_zero]
    rfl
  | succ n ih =>
    intro d s m going
    have first := going 0 (Nat.succ_pos n)
    rw [offset_zero] at first
    have goesOn : stop (m s) = false := first
    rw [Nat.succ_add,copyUntil,goesOn,if_neg Bool.false_ne_true,ih,offset_offset,offset_offset,copyLoop,
      Nat.add_comm 1 n]
    intro i below
    have next := going (i + 1) (Nat.succ_lt_succ below)
    rw [copyLoop,Nat.add_comm i 1,← offset_offset] at next
    exact next

theorem copyUntil_more {fuel : Nat} (k : Nat) {m' : Memory α w} : {d s : BitVec w} → {m : Memory α w} →
    copyUntil stop fuel d s m = some m' → copyUntil stop (fuel + k) d s m = some m' := by
  induction fuel with
  | zero => exact fun stopped => nomatch stopped
  | succ fuel ih =>
    intro d s m stopped
    rw [Nat.succ_add]
    rw [copyUntil] at stopped ⊢
    by_cases last : stop (m s) = true
    · rw [if_pos last] at stopped ⊢
      exact stopped
    · rw [if_neg last] at stopped ⊢
      exact ih stopped

/-- The first cell that stops the loop is the last it copies, where the copy does not start
before it. -/
theorem copyUntil_stops {n : Nat} {d s : BitVec w} {m : Memory α w} (fits : n < 2^w) (apart : Apart d s (n + 1))
    (going : ∀ i < n, stop (m (offset s i)) = false) (stops : stop (m (offset s n)) = true) (fuel : Nat) :
    copyUntil stop (n + 1 + fuel) d s m = some (copyLoop (n + 1) d s m) := by
  have read {i : Nat} (le : i ≤ n) : copyLoop i d s m (offset s i) = m (offset s i) := by
    have early : i < 2^w := Nat.lt_of_le_of_lt le fits
    rw [(copyLoop_get d s m i (Nat.le_of_lt early)).read early,(apart.mono (Nat.succ_le_succ le)).mod m]
  have on : ∀ i < n, stop (copyLoop i d s m (offset s i)) = false := by
    intro i below
    rw [read (Nat.le_of_lt below)]
    exact going i below
  rw [Nat.add_assoc,copyUntil_add n (1 + fuel) d s m on,Nat.add_comm 1 fuel,copyUntil,copyLoop_succ,
    read (Nat.le_refl n),stops,if_pos rfl]

/-- Between the original and a copy above it nothing stops the loop, and then nothing ever does. -/
theorem copyUntil_never (k fuel : Nat) (positive : 0 < k) : (s : BitVec w) → (m : Memory α w) →
    (∀ j < k, stop (m (offset s j)) = false) → copyUntil stop fuel (offset s k) s m = none := by
  induction fuel with
  | zero => exact fun _ _ _ => rfl
  | succ fuel ih =>
    intro s m between
    have first := between 0 positive
    rw [offset_zero] at first
    rw [copyUntil,first,if_neg Bool.false_ne_true,offset_offset,Nat.add_comm k 1,← offset_offset]
    refine ih _ _ fun j below => ?_
    by_cases here : offset (offset s 1) j = offset s k
    · rw [here,Function.update_self]
      exact first
    · rw [Function.update_of_ne here,offset_offset]
      refine between (1 + j) (Nat.lt_of_le_of_ne (by omega) fun last => here ?_)
      rw [offset_offset,last]

end Until

end Kernal.Copying
