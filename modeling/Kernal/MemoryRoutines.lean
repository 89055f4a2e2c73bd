import Kernal.Copying

/-! `memcpy`, `memset`, `strcpy` and `strlen` of `main.c`, on flat memory with pointers of 64
bits. None of them knows how long the memory is that it is given, and both copies go upwards
whatever the pointers are. -/
namespace Kernal.MemoryRoutines

open Copying

abbrev Byte := BitVec 8
abbrev Pointer := BitVec 64
abbrev Mem := Memory Byte 64

def memcpy (m : Mem) (dest src : Pointer) (n : BitVec 64) : Mem := copyLoop n.toNat dest src m

/-- `none` where the rounds do not suffice. -/
def strcpy (fuel : Nat) (m : Mem) (dest src : Pointer) : Option Mem := copyUntil (· == 0) fuel dest src m

def memsetLoop (c : Byte) : Nat → Pointer → Mem → Mem
  | 0, _, m => m
  | n + 1, p, m => memsetLoop c n (offset p 1) (Function.update m p c)

def memset (m : Mem) (s : Pointer) (c : BitVec 32) (n : BitVec 64) : Mem := memsetLoop (c.setWidth 8) n.toNat s m

def strlenLoop (m : Mem) : Nat → Pointer → BitVec 64 → Option (BitVec 64)
  | 0, _, _ => none
  | fuel + 1, s, len => if m s == 0 then some len else strlenLoop m fuel (offset s 1) (offset len 1)

def strlen (fuel : Nat) (m : Mem) (s : Pointer) : Option (BitVec 64) := strlenLoop m fuel s 0#64

structure StringAt (m : Mem) (s : Pointer) (length : Nat) : Prop where
  nonzero : ∀ i < length, (m (offset s i) == 0) = false
  ends : (m (offset s length) == 0) = true
  fits : length < 2^64

/-- `memcpy` writes `n` bytes from `dest` on and no others. Where `dest` lies inside the source
they repeat the bytes in between, and this is the only case in which they differ from those
that stood at `src`. -/
theorem memcpy_copies_iff (dest src : Pointer) (n : BitVec 64) :
    (∀ (m : Mem) a, memcpy m dest src n a =
      if (a - dest).toNat < n.toNat then m (offset src ((a - dest).toNat % (dest - src).toNat)) else m a) ∧
    ((∀ (m : Mem), ∀ i < n.toNat, memcpy m dest src n (offset dest i) = m (offset src i)) ↔
      dest = src ∨ n.toNat ≤ (dest - src).toNat) := by
  have fits : n.toNat ≤ 2^64 := Nat.le_of_lt n.isLt
  have different : (0 : Byte) ≠ 1 := by decide
  exact ⟨fun m => copyLoop_get dest src m n.toNat fits,copyLoop_faithful_iff different dest src n.toNat fits⟩

theorem memsetLoop_get (c : Byte) (n : Nat) (fits : n ≤ 2^64) (p : Pointer) (m : Mem) (a : Pointer) :
    memsetLoop c n p m a = if (a - p).toNat < n then c else m a := by
  induction n generalizing p m with
  | zero => rw [if_neg (Nat.not_lt_zero _),memsetLoop]
  | succ n ih =>
    have below := (a - p).isLt
    have place := offset_distance p a
    generalize (a - p).toNat = k at below place
    subst place
    rw [memsetLoop,ih (Nat.le_of_succ_le fits)]
    cases k with
    | zero =>
      -- The first byte is the last one of all memory as seen from the second.
      have around : offset p 0 = offset (offset p 1) (2^64 - 1) := by
        rw [offset_offset,offset_zero,Nat.add_sub_cancel' (by decide),offset_turn]
      rw [around,offset_sub_toNat _ (by decide),if_neg (by omega),← around,offset_zero,Function.update_self,
        if_pos (Nat.succ_pos n)]
    | succ k =>
      have next : offset p (k + 1) = offset (offset p 1) k := by
        rw [offset_offset,Nat.add_comm]
      have other : offset p (k + 1) ≠ p := by
        intro same
        rw [← offset_zero p,offset_offset,offset_inj p (by omega) (by decide)] at same
        omega
      rw [Function.update_of_ne other,next,offset_sub_toNat _ (Nat.lt_of_succ_lt below)]
      by_cases inside : k < n
      · rw [if_pos inside,if_pos (Nat.succ_lt_succ inside)]
      · rw [if_neg inside,if_neg fun less => inside (Nat.lt_of_succ_lt_succ less)]

/-- `memset` stores the low byte of `c` in the `n` bytes from `s` on. -/
theorem memset_get (m : Mem) (s : Pointer) (c : BitVec 32) (n : BitVec 64) (a : Pointer) :
    memset m s c n a = if (a - s).toNat < n.toNat then c.setWidth 8 else m a :=
  memsetLoop_get _ _ (Nat.le_of_lt n.isLt) _ _ _

section Strings

variable {m m' : Mem} {dest src s : Pointer} {length fuel : Nat}

theorem strlenLoop_counts (nonzero : ∀ i < length, (m (offset s i) == 0) = false)
    (ends : (m (offset s length) == 0) = true) (len : BitVec 64) :
    strlenLoop m (length + 1 + fuel) s len = some (offset len length) := by
  induction length generalizing s len with
  | zero =>
    rw [offset_zero] at ends
    rw [Nat.zero_add,Nat.add_comm,strlenLoop,if_pos ends,offset_zero]
  | succ length ih =>
    have first := nonzero 0 (Nat.succ_pos length)
    rw [offset_zero] at first
    rw [Nat.succ_add,strlenLoop,first,if_neg Bool.false_ne_true,ih,offset_offset,Nat.add_comm 1 length]
    · intro i below
      rw [offset_offset,Nat.add_comm]
      exact nonzero (i + 1) (Nat.succ_lt_succ below)
    · rw [offset_offset,Nat.add_comm]
      exact ends

theorem strlen_counts (string : StringAt m s length) (fuel : Nat) :
    strlen (length + 1 + fuel) m s = some (BitVec.ofNat 64 length) := by
  rw [strlen,strlenLoop_counts string.nonzero string.ends,offset,BitVec.zero_add]

structure Copied (m : Mem) (dest src : Pointer) (length : Nat) (m' : Mem) : Prop where
  string : StringAt m' dest length
  same : ∀ i ≤ length, m' (offset dest i) = m (offset src i)
  frame : ∀ a, (∀ i ≤ length, a ≠ offset dest i) → m' a = m a

theorem copied (string : StringAt m src length) (apart : Apart dest src (length + 1)) :
    Copied m dest src length (copyLoop (length + 1) dest src m) := by
  have different : (0 : Byte) ≠ 1 := by decide
  have faithful := (copyLoop_faithful_iff different dest src (length + 1) string.fits).mpr apart m
  have same (i : Nat) (le : i ≤ length) := faithful i (Nat.lt_succ_of_le le)
  refine ⟨⟨?_,?_,string.fits⟩,same,?_⟩
  · intro i below
    rw [same i (Nat.le_of_lt below)]
    exact string.nonzero i below
  · rw [same length (Nat.le_refl _)]
    exact string.ends
  · intro a beyond
    rw [copyLoop_get dest src m (length + 1) string.fits,if_neg]
    intro inside
    exact beyond _ (Nat.le_of_lt_succ inside) (offset_distance dest a).symm

/-- `strcpy` returns exactly if `dest` does not lie inside the string or on its terminator, and
then it has copied it. Otherwise it overwrites the terminator before it gets there, and goes on
through all memory. -/
theorem strcpy_returns_iff (string : StringAt m src length) :
    ((∃ fuel m', strcpy fuel m dest src = some m') ↔ dest = src ∨ length < (dest - src).toNat) ∧
    ∀ fuel m', strcpy fuel m dest src = some m' → Copied m dest src length m' ∧
      ∀ spare, strlen (length + 1 + spare) m' dest = some (BitVec.ofNat 64 length) := by
  have returns (apart : Apart dest src (length + 1)) (spare : Nat) :
      strcpy (length + 1 + spare) m dest src = some (copyLoop (length + 1) dest src m) :=
    copyUntil_stops string.fits apart string.nonzero string.ends spare
  have apart {fuel : Nat} {m' : Mem} (returned : strcpy fuel m dest src = some m') : Apart dest src (length + 1) := by
    by_contra within
    rw [Apart,not_or,Nat.not_le] at within
    obtain ⟨other,short⟩ := within
    have place := offset_distance src dest
    generalize (dest - src).toNat = k at place short
    subst place
    have positive : 0 < k := Nat.pos_of_ne_zero fun zero => other (by rw [zero,offset_zero])
    have endless : strcpy fuel m (offset src k) src = none :=
      copyUntil_never k fuel positive src m fun j below => string.nonzero j (by omega)
    rw [endless] at returned
    contradiction
  refine ⟨⟨?_,fun apart => ⟨_,_,returns apart 0⟩⟩,?_⟩
  · rintro ⟨fuel,m',returned⟩
    exact apart returned
  intro fuel m' returned
  have final : strcpy (fuel + (length + 1)) m dest src = some m' := copyUntil_more (length + 1) returned
  rw [Nat.add_comm,returns (apart returned) fuel] at final
  obtain rfl := Option.some.inj final
  have copy := copied string (apart returned)
  exact ⟨copy,strlen_counts copy.string⟩

def twoLetters : Mem := Function.update (Function.update (fun _ => 0) 4096 65) 4097 66

theorem twoLetters_string : StringAt twoLetters 4096 2 := by
  refine ⟨?_,by decide,by decide⟩
  intro i below
  match i,below with
  | 0,_ => decide
  | 1,_ => decide

/-- Two characters cannot be moved up by one place. -/
theorem strcpy_returns_iff_up : ¬∃ fuel m', strcpy fuel twoLetters 4097 4096 = some m' := by
  rw [(strcpy_returns_iff twoLetters_string).1]
  decide

end Strings

end Kernal.MemoryRoutines
