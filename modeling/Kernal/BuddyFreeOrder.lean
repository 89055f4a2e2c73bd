import Kernal.BuddyOperations
import Mathlib.Data.Finset.Card
import Mathlib.Algebra.Order.BigOperators.Group.Finset

/-! Freeing several blocks one after another. Were every free to restore the
invariant, the result would be the one coalesced decomposition of the free frames,
whatever the order. It is so exactly when each block starts the maximal block it
becomes part of; any other block, freed last, stays apart from what lies below it. -/
namespace Kernal.Buddy

open Blocks

/-- Blocks with the list types they are freed to, first one first. -/
def freeAll (z : Zone) (requests : List (Block × Nat)) : Zone :=
  requests.foldl (fun z r => freeOnePage z r.1.base r.1.base r.1.order r.2) z

def Apart (a b : Block) : Prop := ∀ f ∈ a.frames, f ∉ b.frames

theorem Apart.symm (apart : Apart a b) : Apart b a := fun f hb ha => apart f ha hb

/-- A finite set of pairwise disjoint blocks each of which may be freed. -/
structure Freeable (z : Zone) (blocks : List Block) : Prop where
  holes : ∀ b ∈ blocks, Hole z b
  disjoint : blocks.Pairwise Apart

structure Ordering (blocks : List Block) (requests : List (Block × Nat)) : Prop where
  perm : (requests.map Prod.fst).Perm blocks
  types : ∀ r ∈ requests, r.2 < MIGRATE_TYPES

def freedFrames (z : Zone) (blocks : List Block) : Set Nat :=
  cover z.freeBlocks ∪ cover {b | b ∈ blocks}

structure OrderIrrelevant (z : Zone) (blocks : List Block) : Prop where
  free : ∀ first second, Ordering blocks first → Ordering blocks second →
    (freeAll z first).freeBlocks = (freeAll z second).freeBlocks
  nrFree : ∀ first second, Ordering blocks first → Ordering blocks second →
    ∀ o < MAX_ORDER, (freeAll z first).nrFree o = (freeAll z second).nrFree o
  freePages : ∀ first second, Ordering blocks first → Ordering blocks second →
    (freeAll z first).freePages = (freeAll z second).freePages
  maximal : ∀ requests, Ordering blocks requests →
    cover (freeAll z requests).freeBlocks = freedFrames z blocks ∧
    ∀ b, (freeAll z requests).Free b ↔ Maximal (MAX_ORDER - 1) (freedFrames z blocks) b

/-- Each block lies at the start of the maximal block of free frames around it. -/
def StartsMaximal (z : Zone) (blocks : List Block) : Prop :=
  ∀ b ∈ blocks, ∀ c, Maximal (MAX_ORDER - 1) (freedFrames z blocks) c → b.base ∈ c.frames →
    c.base = b.base

theorem Ordering.freeable (ordering : Ordering blocks requests) (freeable : Freeable z blocks) :
    Freeable z (requests.map Prod.fst) where
  holes b member := freeable.holes b (ordering.perm.mem_iff.mp member)
  disjoint := ordering.perm.symm.pairwise freeable.disjoint Apart.symm

theorem Ordering.freedFrames_eq (ordering : Ordering blocks requests) :
    freedFrames z (requests.map Prod.fst) = freedFrames z blocks := by
  simp only [freedFrames,ordering.perm.mem_iff]

/-- After the first block is freed the others still may be. -/
theorem Freeable.step (freeable : Freeable z (b :: blocks)) (sound : Sound z)
    (valid : migratetype < MIGRATE_TYPES) :
    Freeable (freeOnePage z b.base b.base b.order migratetype) blocks := by
  have hole := freeable.holes b List.mem_cons_self
  obtain ⟨apart,disjoint⟩ := List.pairwise_cons.mp freeable.disjoint
  refine ⟨?_,disjoint⟩
  intro a member
  have other := freeable.holes a (List.mem_cons_of_mem b member)
  refine ⟨other.aligned,other.bound,?_,?_⟩
  · rw [freeOnePage_span _ sound hole]; exact other.inside
  · intro c free f inside inside'
    have covered : f ∈ cover (freeOnePage z b.base b.base b.order migratetype).freeBlocks :=
      mem_cover.mpr ⟨c,free,inside'⟩
    rw [freeOnePage_cover sound hole valid] at covered
    rcases covered with old | fresh
    · obtain ⟨d,listed,within⟩ := mem_cover.mp old
      exact other.apart d listed f inside within
    · exact apart a member f fresh inside

theorem freedFrames_step (freeable : Freeable z (b :: blocks)) (sound : Sound z)
    (valid : migratetype < MIGRATE_TYPES) :
    freedFrames (freeOnePage z b.base b.base b.order migratetype) blocks =
      freedFrames z (b :: blocks) := by
  ext f
  simp only [freedFrames,freeOnePage_cover sound (freeable.holes b List.mem_cons_self) valid,
    Set.mem_union,mem_cover,Set.mem_ofPred_eq,List.mem_cons,exists_eq_or_imp]
  exact or_assoc

/-- Frees in any order keep the lists sound and account for exactly the frames asked
for; the blocks that are to follow may still be freed. -/
theorem freeAll_sound (requests : List (Block × Nat)) (rest : List Block) (sound : Sound z)
    (freeable : Freeable z (requests.map Prod.fst ++ rest))
    (types : ∀ r ∈ requests, r.2 < MIGRATE_TYPES) :
    Sound (freeAll z requests) ∧ Freeable (freeAll z requests) rest ∧
    freedFrames (freeAll z requests) rest = freedFrames z (requests.map Prod.fst ++ rest) := by
  induction requests generalizing z with
  | nil => exact ⟨sound,freeable,rfl⟩
  | cons r requests ih =>
    have valid := types r List.mem_cons_self
    have hole := freeable.holes r.1 List.mem_cons_self
    obtain ⟨sound',freeable',frames⟩ := ih (freeOnePage_sound sound hole valid)
      (freeable.step sound valid) (fun r member => types r (List.mem_cons_of_mem _ member))
    exact ⟨sound',freeable',frames.trans (freedFrames_step freeable sound valid)⟩

theorem Ordering.sound (ordering : Ordering blocks requests) (freeable : Freeable z blocks)
    (sound : Sound z) : Sound (freeAll z requests) ∧
      cover (freeAll z requests).freeBlocks = freedFrames z blocks := by
  have parts := ordering.freeable freeable
  rw [← List.append_nil (requests.map Prod.fst)] at parts
  obtain ⟨sound',_,frames⟩ := freeAll_sound requests [] sound parts ordering.types
  refine ⟨sound',?_⟩
  rw [List.append_nil,ordering.freedFrames_eq] at frames
  simpa [freedFrames,cover] using frames

/-- A stranded pair would be a free block that the freed block does not start. -/
theorem StartsMaximal.lone (starts : StartsMaximal z (b :: blocks)) (sound : Sound z) :
    ¬StrandsLower z b.base b.order := by
  rintro ⟨k,from_order,low,below,waiting,chain⟩
  rw [findBuddyPfn_eq] at below waiting
  generalize lower : b.base ^^^ 2^k = base at below waiting
  have aligned : 2^k ∣ base := (sound.head _ waiting).1
  have back : base ^^^ 2^k = b.base := by simp [← lower]
  have clear : base.testBit k = false := by
    cases bit : base.testBit k with
    | false => rfl
    | true =>
      have eq := xor_of_set aligned bit
      omega
  have upper : b.base = base + 2^k := back ▸ xor_of_clear aligned clear
  have grown : ∀ j, b.order ≤ j → j ≤ k →
      (⟨b.base,j⟩ : Block).frames ⊆ freedFrames z (b :: blocks) := by
    intro j from_j
    induction j, from_j using Nat.le_induction with
    | base => exact fun _ => (frames_subset_cover (by simp)).trans Set.subset_union_right
    | succ j from_j ih =>
      intro within
      rw [Block.frames_succ]
      refine Set.union_subset (ih (Nat.le_of_succ_le within)) ?_
      exact (frames_subset_cover (chain j from_j within)).trans Set.subset_union_left
  have pair : (⟨base,k + 1⟩ : Block).frames ⊆ freedFrames z (b :: blocks) := by
    rw [Block.frames_succ,← upper]
    exact Set.union_subset ((frames_subset_cover waiting).trans Set.subset_union_left)
      (grown k from_order (Nat.le_refl k))
  have admissible : Admissible (MAX_ORDER - 1) ⟨base,k + 1⟩ := ⟨(dvd_succ_iff aligned).mpr clear,low⟩
  obtain ⟨c,maximal,contains⟩ := exists_maximal admissible pair
  have first := contains (Block.base_mem _)
  have here : b.base ∈ c.frames := by
    apply contains
    rw [Block.frames_succ,← upper]
    exact .inr (Block.base_mem ⟨b.base,k⟩)
  have same := starts b List.mem_cons_self c maximal here
  rw [Block.mem_frames] at first
  dsimp only at first
  omega

theorem freeAll_inv (requests : List (Block × Nat)) (inv : Inv z)
    (freeable : Freeable z (requests.map Prod.fst)) (types : ∀ r ∈ requests, r.2 < MIGRATE_TYPES)
    (starts : StartsMaximal z (requests.map Prod.fst)) : Inv (freeAll z requests) := by
  induction requests generalizing z with
  | nil => exact inv
  | cons r rest ih =>
    have valid := types r List.mem_cons_self
    have hole := freeable.holes r.1 List.mem_cons_self
    have next := (freeOnePage_inv_iff inv hole valid).mpr (starts.lone inv.toSound)
    refine ih next (freeable.step inv.toSound valid)
      (fun r member => types r (List.mem_cons_of_mem _ member)) ?_
    intro b member c maximal
    rw [freedFrames_step freeable inv.toSound valid] at maximal
    exact starts b (List.mem_cons_of_mem _ member) c maximal

/-- The number of blocks of an order is determined by which blocks are free. -/
theorem Sound.nrFree_eq_card (sound : Sound z) (bound : o < MAX_ORDER) :
    z.nrFree o =
      ((Finset.range MIGRATE_TYPES).biUnion fun m => (z.freeList o m).toFinset).card := by
  rw [sound.nrFree o bound,Finset.card_biUnion]
  · apply Finset.sum_congr rfl
    intro m member
    exact (List.toFinset_card_of_nodup (sound.once o bound m (Finset.mem_range.mp member))).symm
  · intro m hm m' hm' different
    apply Finset.disjoint_left.mpr
    intro p member member'
    rw [List.mem_toFinset] at member member'
    exact different (sound.single o bound m (Finset.mem_range.mp hm) o bound m'
      (Finset.mem_range.mp hm') p member member').2

theorem nrFree_of_free (sound : Sound z) (sound' : Sound z') (same : ∀ b, z.Free b ↔ z'.Free b)
    (bound : o < MAX_ORDER) : z.nrFree o = z'.nrFree o := by
  rw [sound.nrFree_eq_card bound,sound'.nrFree_eq_card bound]
  congr 1
  ext p
  have iff := same ⟨p,o⟩
  simpa [Zone.Free,bound] using iff

theorem freePages_of_free (sound : Sound z) (sound' : Sound z')
    (same : ∀ b, z.Free b ↔ z'.Free b) : z.freePages = z'.freePages := by
  rw [sound.freePages,sound'.freePages]
  congr 1
  apply Finset.sum_congr rfl
  intro o member
  rw [nrFree_of_free sound sound' same (Finset.mem_range.mp member)]

theorem StartsMaximal.orderIrrelevant (starts : StartsMaximal z blocks) (inv : Inv z)
    (freeable : Freeable z blocks) : OrderIrrelevant z blocks := by
  have result (requests : List (Block × Nat)) (ordering : Ordering blocks requests) :
      Inv (freeAll z requests) ∧ cover (freeAll z requests).freeBlocks = freedFrames z blocks := by
    refine ⟨freeAll_inv requests inv (ordering.freeable freeable) ordering.types ?_,
      (ordering.sound freeable inv.toSound).2⟩
    intro b member c
    rw [ordering.freedFrames_eq]
    exact starts b (ordering.perm.mem_iff.mp member) c
  have same (first second) (ha : Ordering blocks first) (hb : Ordering blocks second) :
      (freeAll z first).freeBlocks = (freeAll z second).freeBlocks :=
    (result first ha).1.coalesced.unique (result second hb).1.coalesced
      ((result first ha).2.trans (result second hb).2.symm)
  refine ⟨same,?_,?_,?_⟩
  · intro first second ha hb o bound
    exact nrFree_of_free (result first ha).1.toSound (result second hb).1.toSound
      (fun b => Set.ext_iff.mp (same first second ha hb) b) bound
  · intro first second ha hb
    exact freePages_of_free (result first ha).1.toSound (result second hb).1.toSound
      (fun b => Set.ext_iff.mp (same first second ha hb) b)
  · intro requests ordering
    obtain ⟨after,covered⟩ := result requests ordering
    refine ⟨covered,fun b => ?_⟩
    rw [← covered]
    exact after.coalesced.mem_iff_maximal

/-- Freed last, a block starts a free block, so it must start the maximal one. -/
theorem OrderIrrelevant.startsMaximal (irrelevant : OrderIrrelevant z blocks) (inv : Inv z)
    (freeable : Freeable z blocks) : StartsMaximal z blocks := by
  intro b member c maximal inside
  let before := (blocks.erase b).map fun d => (d,MIGRATE_MOVABLE)
  let requests := before ++ [(b,MIGRATE_MOVABLE)]
  have names : requests.map Prod.fst = blocks.erase b ++ [b] := by
    simp [requests,before,Function.comp_def]
  have ordering : Ordering blocks requests := by
    refine ⟨?_,?_⟩
    · rw [names]
      exact (List.perm_append_singleton b _).trans (List.perm_cons_erase member).symm
    · intro r hr
      have type : r.2 = MIGRATE_MOVABLE := by
        simp only [requests,before,List.mem_append,List.mem_map,List.mem_singleton] at hr
        rcases hr with ⟨_,_,rfl⟩ | rfl <;> rfl
      rw [type]; decide
  have sound := (ordering.sound freeable inv.toSound).1
  obtain ⟨final,listed⟩ : ∃ final, (freeAll z requests).Free ⟨b.base,final⟩ := by
    have parts := ordering.freeable freeable
    rw [names] at parts
    obtain ⟨sound',rest,_⟩ := freeAll_sound before [b] inv.toSound (by simpa [before,Function.comp_def] using parts)
      (fun r member => ordering.types r (List.mem_append_left _ member))
    rw [show freeAll z requests = _ from List.foldl_append ..]
    exact freeOnePage_starts sound' (rest.holes b List.mem_cons_self)
      (show MIGRATE_MOVABLE < MIGRATE_TYPES by decide)
  have free := ((irrelevant.maximal requests ordering).2 c).mpr maximal
  have same := sound.disjoint c free ⟨b.base,final⟩ listed b.base inside (Block.base_mem _)
  rw [same]

/-- The order of the frees is irrelevant exactly when every block starts the maximal
block of free frames it ends up in. -/
theorem orderIrrelevant_iff (inv : Inv z) (freeable : Freeable z blocks) :
    OrderIrrelevant z blocks ↔ StartsMaximal z blocks :=
  ⟨fun irrelevant => irrelevant.startsMaximal inv freeable,
    fun starts => starts.orderIrrelevant inv freeable⟩

theorem newZone_freedFrames (blocks : List Block) :
    freedFrames newZone blocks = cover {b | b ∈ blocks} := by
  have empty : newZone.freeBlocks = ∅ := Set.eq_empty_iff_forall_notMem.mpr newZone_unlisted
  simp [freedFrames,empty,cover]

theorem newZone_freeable (hp : p < 1024) (hq : q < 1024) (different : p ≠ q) :
    Freeable newZone [⟨p,0⟩,⟨q,0⟩] where
  holes b member := by
    have single {f : Nat} (bound : f < 1024) : Hole newZone ⟨f,0⟩ :=
      newZone_hole (by simp) (by decide) bound
    simp only [List.mem_cons,List.not_mem_nil,or_false] at member
    rcases member with rfl | rfl
    · exact single hp
    · exact single hq
  disjoint := by
    simp only [List.pairwise_pair,Apart,Block.mem_frames]
    omega

/-- Frames 0 and 2 have no free frame between them to form a pair with. -/
theorem orderIrrelevant_iff_frames_zero_two : OrderIrrelevant newZone [⟨0,0⟩,⟨2,0⟩] := by
  have freeable := newZone_freeable (p := 0) (q := 2) (by decide) (by decide) (by decide)
  refine (orderIrrelevant_iff newZone_inv freeable).mpr ?_
  intro b member c maximal inside
  have within {f : Nat} (h : f ∈ c.frames) : f = 0 ∨ f = 2 := by
    have covered := maximal.inside h
    rw [newZone_freedFrames] at covered
    simp [mem_cover,Block.mem_frames] at covered
    omega
  rw [Block.mem_frames] at inside
  have first := within (Block.base_mem c)
  have start : b.base = 0 ∨ b.base = 2 := within inside
  by_contra different
  have middle : 1 ∈ c.frames := ⟨by omega,by omega⟩
  have := within middle
  omega

/-- Frame 0 and then frame 1 end as two blocks, in the other order as one. -/
theorem free_order_matters :
    ¬∀ (z : Zone) (blocks : List Block), Inv z → Freeable z blocks → OrderIrrelevant z blocks := by
  intro irrelevant
  have freeable := newZone_freeable (p := 0) (q := 1) (by decide) (by decide) (by decide)
  have starts := (irrelevant newZone _ newZone_inv freeable).startsMaximal newZone_inv freeable
  have pair : (⟨0,1⟩ : Block).frames ⊆ freedFrames newZone [⟨0,0⟩,⟨1,0⟩] := by
    intro f inside
    rw [newZone_freedFrames]
    simp [mem_cover,Block.mem_frames] at inside ⊢
    omega
  have admissible : Admissible (MAX_ORDER - 1) ⟨0,1⟩ := ⟨Nat.dvd_zero _,by decide⟩
  obtain ⟨c,maximal,contains⟩ := exists_maximal admissible pair
  have low := contains (Block.base_mem ⟨0,1⟩)
  have high : 1 ∈ c.frames := contains ⟨by decide,by decide⟩
  have base := starts ⟨1,0⟩ (by simp) c maximal high
  rw [Block.mem_frames] at low
  dsimp only at low base
  omega

end Kernal.Buddy
