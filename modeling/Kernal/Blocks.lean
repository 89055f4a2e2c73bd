import Mathlib.Data.Nat.Bitwise
import Mathlib.Order.Interval.Set.Basic
import Mathlib.Order.SetNotation

/-! Aligned power-of-two blocks of natural numbers. Two aligned blocks are nested
or disjoint, and a set of frames has at most one decomposition into blocks of
bounded order in which no two buddies are left unjoined: its maximal blocks. -/
namespace Kernal.Blocks

structure Block where
  base : Nat
  order : Nat
  deriving DecidableEq, Repr

namespace Block

def size (b : Block) : Nat := 2^b.order

def frames (b : Block) : Set Nat := Set.Ico b.base (b.base + 2^b.order)

def Aligned (b : Block) : Prop := 2^b.order ∣ b.base

def buddy (b : Block) : Block := ⟨b.base ^^^ 2^b.order, b.order⟩

theorem mem_frames {b : Block} : f ∈ b.frames ↔ b.base ≤ f ∧ f < b.base + 2^b.order := Iff.rfl

@[simp] theorem base_mem (b : Block) : b.base ∈ b.frames :=
  ⟨Nat.le_refl _, Nat.lt_add_of_pos_right (Nat.two_pow_pos _)⟩

/-- Frames of an aligned block are those with its quotient. -/
theorem Aligned.mem_iff {b : Block} (aligned : b.Aligned) :
    f ∈ b.frames ↔ f / 2^b.order = b.base / 2^b.order := by
  obtain ⟨q,hq⟩ := aligned
  have positive := Nat.two_pow_pos b.order
  rw [mem_frames,hq,Nat.mul_div_cancel_left q positive]
  constructor
  · rintro ⟨low,high⟩
    exact Nat.div_eq_of_lt_le (by rwa [Nat.mul_comm]) (by rw [Nat.add_mul,Nat.one_mul,Nat.mul_comm]; exact high)
  · rintro rfl
    have rest := Nat.div_add_mod f (2^b.order)
    have small := Nat.mod_lt f positive
    omega

theorem Aligned.base_eq {b : Block} (aligned : b.Aligned) (member : f ∈ b.frames) :
    b.base = f / 2^b.order * 2^b.order := by
  rw [aligned.mem_iff.mp member]
  exact (Nat.div_mul_cancel aligned).symm

/-- One shared frame decides: the smaller block lies inside the larger one. -/
theorem nested {a b : Block} (ha : a.Aligned) (hb : b.Aligned) (le : a.order ≤ b.order)
    (fa : f ∈ a.frames) (fb : f ∈ b.frames) : a.frames ⊆ b.frames := by
  obtain ⟨d,hd⟩ := Nat.exists_eq_add_of_le le
  have coarse (g : Nat) : g / 2^b.order = g / 2^a.order / 2^d := by
    rw [hd,Nat.pow_add,Nat.div_div_eq_div_mul]
  intro g ga
  rw [hb.mem_iff] at fb ⊢
  rw [← fb,coarse,coarse f,ha.mem_iff.mp ga,ha.mem_iff.mp fa]

theorem eq_of_order_eq {a b : Block} (ha : a.Aligned) (hb : b.Aligned) (same : a.order = b.order)
    (fa : f ∈ a.frames) (fb : f ∈ b.frames) : a = b := by
  obtain ⟨base,order⟩ := a
  obtain ⟨base',order'⟩ := b
  dsimp only at same
  subst same
  have eq := (ha.base_eq fa).trans (hb.base_eq fb).symm
  simp_all

theorem order_le_of_subset {a b : Block} (inside : a.frames ⊆ b.frames) : a.order ≤ b.order := by
  have positive := Nat.two_pow_pos a.order
  have low := inside (base_mem a)
  have high := inside (show a.base + (2^a.order - 1) ∈ a.frames from ⟨by omega,by omega⟩)
  rw [mem_frames] at low high
  apply (Nat.pow_le_pow_iff_right (by decide : 1 < 2)).mp
  omega

/-- Splitting: the lower and the upper half of a block. -/
theorem frames_succ (base order : Nat) :
    (⟨base,order+1⟩ : Block).frames =
      (⟨base,order⟩ : Block).frames ∪ (⟨base + 2^order,order⟩ : Block).frames := by
  ext f
  simp only [Set.mem_union,mem_frames,Nat.pow_succ]
  omega

end Block

theorem testBit_mul (q k : Nat) : (2^k * q).testBit k = decide (q % 2 = 1) := by
  simp [Nat.testBit_two_pow_mul,Nat.testBit_zero]

theorem xor_mul (q k : Nat) : (2^k * q) ^^^ 2^k = 2^k * (q ^^^ 1) := by
  have distrib := Nat.shiftLeft_xor_distrib (a := q) (b := 1) (i := k)
  simp only [Nat.shiftLeft_eq,Nat.one_mul] at distrib
  rw [Nat.mul_comm,← distrib,Nat.mul_comm]

/-- The buddy of an aligned block lies above it exactly when its order's bit is clear. -/
theorem xor_of_clear (aligned : 2^k ∣ p) (clear : p.testBit k = false) : p ^^^ 2^k = p + 2^k := by
  obtain ⟨q,rfl⟩ := aligned
  have even : q % 2 = 0 := by simpa [testBit_mul] using clear
  rw [xor_mul,Nat.xor_one_of_even (Nat.even_iff.mpr even),Nat.mul_add,Nat.mul_one]

theorem xor_of_set (aligned : 2^k ∣ p) (set : p.testBit k = true) : (p ^^^ 2^k) + 2^k = p := by
  obtain ⟨q,rfl⟩ := aligned
  have odd : q % 2 = 1 := by simpa [testBit_mul] using set
  obtain ⟨r,rfl⟩ : ∃ r, q = r + 1 := ⟨q - 1,by omega⟩
  rw [xor_mul,Nat.xor_one_of_odd (Nat.odd_iff.mpr odd),Nat.add_sub_cancel,Nat.mul_add,Nat.mul_one]

theorem xor_and_of_clear (clear : p.testBit k = false) : (p ^^^ 2^k) &&& p = p := by
  apply Nat.eq_of_testBit_eq
  intro i
  by_cases same : k = i
  · subst i; simp [clear]
  · simp [Nat.testBit_two_pow_of_ne same]

theorem dvd_succ_iff (aligned : 2^k ∣ p) : 2^(k+1) ∣ p ↔ p.testBit k = false := by
  obtain ⟨q,rfl⟩ := aligned
  rw [testBit_mul,Nat.pow_succ,Nat.mul_dvd_mul_iff_left (Nat.two_pow_pos k)]
  simp [Nat.dvd_iff_mod_eq_zero]

theorem dvd_xor (aligned : 2^k ∣ p) : 2^k ∣ p ^^^ 2^k := by
  obtain ⟨q,rfl⟩ := aligned
  rw [xor_mul]
  exact Nat.dvd_mul_right _ _

def cover (family : Set Block) : Set Nat := ⋃ b ∈ family, b.frames

theorem mem_cover {family : Set Block} : f ∈ cover family ↔ ∃ b ∈ family, f ∈ b.frames := by
  simp [cover]

theorem frames_subset_cover {family : Set Block} (member : b ∈ family) :
    b.frames ⊆ cover family :=
  fun _ h => mem_cover.mpr ⟨b,member,h⟩

def Admissible (top : Nat) (b : Block) : Prop := b.Aligned ∧ b.order ≤ top

structure Maximal (top : Nat) (frames : Set Nat) (b : Block) : Prop where
  admissible : Admissible top b
  inside : b.frames ⊆ frames
  largest : ∀ c, Admissible top c → c.frames ⊆ frames → b.frames ⊆ c.frames → c = b

theorem Block.eq_of_frames_subset {a b : Block} (ha : a.Aligned) (hb : b.Aligned)
    (inside : a.frames ⊆ b.frames) (le : b.order ≤ a.order) : a = b :=
  Block.eq_of_order_eq ha hb (Nat.le_antisymm (Block.order_le_of_subset inside) le)
    (Block.base_mem a) (inside (Block.base_mem a))

/-- Every admissible block inside `frames` lies in a maximal one. -/
theorem exists_maximal {frames : Set Nat} {b : Block} (admissible : Admissible top b)
    (inside : b.frames ⊆ frames) : ∃ c, Maximal top frames c ∧ b.frames ⊆ c.frames := by
  obtain ⟨room,counted⟩ : ∃ room, top - b.order = room := ⟨_,rfl⟩
  -- Each block that is not maximal sits in one of larger order, and orders are bounded.
  induction room using Nat.strong_induction_on generalizing b with
  | _ room ih =>
    by_cases largest : ∀ c, Admissible top c → c.frames ⊆ frames → b.frames ⊆ c.frames → c = b
    · exact ⟨b,⟨admissible,inside,largest⟩,subset_rfl⟩
    · push Not at largest
      obtain ⟨c,larger,within,contains,different⟩ := largest
      have grows : b.order < c.order := by
        by_contra le
        exact different (Block.eq_of_frames_subset admissible.1 larger.1 contains (by omega)).symm
      have bounded := larger.2
      obtain ⟨d,maximal,outer⟩ := ih (top - c.order) (by omega) larger within rfl
      exact ⟨d,maximal,contains.trans outer⟩

structure Coalesced (top : Nat) (family : Set Block) : Prop where
  admissible : ∀ b ∈ family, Admissible top b
  disjoint : ∀ a ∈ family, ∀ b ∈ family, ∀ f, f ∈ a.frames → f ∈ b.frames → a = b
  joined : ∀ b ∈ family, b.order < top → b.buddy ∉ family

/-- In a coalesced family every admissible block of covered frames lies in one
member: two members that are its halves would be buddies left unjoined. -/
theorem Coalesced.contains (coalesced : Coalesced top family) (c : Block)
    (admissible : Admissible top c) (covered : c.frames ⊆ cover family) :
    ∃ b ∈ family, c.frames ⊆ b.frames := by
  obtain ⟨base,order⟩ := c
  induction order generalizing base with
  | zero =>
    obtain ⟨b,member,inside⟩ := mem_cover.mp (covered (Block.base_mem _))
    exact ⟨b,member,Block.nested admissible.1 (coalesced.admissible b member).1 (Nat.zero_le _)
      (Block.base_mem _) inside⟩
  | succ order ih =>
    obtain ⟨aligned,bounded⟩ := admissible
    have half : 2^order ∣ base := Nat.dvd_trans (Nat.pow_dvd_pow 2 (Nat.le_succ order)) aligned
    have clear : base.testBit order = false := (dvd_succ_iff half).mp aligned
    have upper : base ^^^ 2^order = base + 2^order := xor_of_clear half clear
    rw [Block.frames_succ] at covered
    obtain ⟨low,lowMember,lowInside⟩ := ih base ⟨half,Nat.le_of_succ_le bounded⟩
      (Set.subset_union_left.trans covered)
    obtain ⟨high,highMember,highInside⟩ := ih (base + 2^order)
      ⟨upper ▸ dvd_xor half,Nat.le_of_succ_le bounded⟩ (Set.subset_union_right.trans covered)
    by_cases larger : order < low.order
    · refine ⟨low,lowMember,?_⟩
      exact Block.nested aligned (coalesced.admissible low lowMember).1 larger
        (Block.base_mem _) (lowInside (Block.base_mem ⟨base,order⟩))
    by_cases larger' : order < high.order
    · refine ⟨high,highMember,?_⟩
      have shared : base + 2^order ∈ (⟨base,order+1⟩ : Block).frames := by
        rw [Block.frames_succ]
        exact .inr (Block.base_mem ⟨base + 2^order,order⟩)
      exact Block.nested aligned (coalesced.admissible high highMember).1 larger'
        shared (highInside (Block.base_mem ⟨base + 2^order,order⟩))
    -- Both members are the halves themselves.
    have lowEq : (⟨base,order⟩ : Block) = low :=
      Block.eq_of_frames_subset half (coalesced.admissible low lowMember).1 lowInside
        (Nat.le_of_not_lt larger)
    have highEq : (⟨base + 2^order,order⟩ : Block) = high :=
      Block.eq_of_frames_subset (upper ▸ dvd_xor half) (coalesced.admissible high highMember).1
        highInside (Nat.le_of_not_lt larger')
    have apart := coalesced.joined low lowMember (by rw [← lowEq]; exact bounded)
    rw [← lowEq,Block.buddy,upper,highEq] at apart
    exact absurd highMember apart

/-- A coalesced family consists of the maximal blocks of the frames it covers. -/
theorem Coalesced.mem_iff_maximal (coalesced : Coalesced top family) :
    b ∈ family ↔ Maximal top (cover family) b := by
  constructor
  · intro member
    refine ⟨coalesced.admissible b member,frames_subset_cover member,?_⟩
    intro c admissible inside contains
    obtain ⟨d,dMember,dInside⟩ := coalesced.contains c admissible inside
    have same := coalesced.disjoint b member d dMember _ (Block.base_mem b)
      (dInside (contains (Block.base_mem b)))
    subst d
    exact Block.eq_of_frames_subset admissible.1 (coalesced.admissible b member).1 dInside
      (Block.order_le_of_subset contains)
  · intro maximal
    obtain ⟨d,member,inside⟩ := coalesced.contains b maximal.admissible maximal.inside
    have same := maximal.largest d (coalesced.admissible d member) (frames_subset_cover member) inside
    exact same ▸ member

/-- Covering the same frames determines a coalesced family. -/
theorem Coalesced.unique (left : Coalesced top a) (right : Coalesced top b)
    (same : cover a = cover b) : a = b := by
  ext c
  rw [left.mem_iff_maximal,right.mem_iff_maximal,same]

end Kernal.Blocks
