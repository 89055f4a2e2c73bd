import Kernal.BuddyOwners

/-! Moving the free blocks of a range to the lists of another type. The scan goes page by page
until it finds the head of a free block and skips the block from there on. -/
namespace Kernal.Buddy

open Blocks

section Move

variable {z : Zone} {page order migratetype : Nat}

/-- Taking a block off its list and putting it on another one moves its head and no other. -/
theorem relist_mem (sound : Sound z) (bound : o < MAX_ORDER)
    (valid : m < MIGRATE_TYPES) (p : Nat) :
    p ∈ (addPageToFreeList (delPageFromFreeList z page order) page order migratetype).freeList o m ↔
      if p = page then o = order ∧ m = migratetype else p ∈ z.freeList o m := by
  rw [add_mem_freeList,del_freeList,(sound.once o bound m valid).mem_erase_iff]
  by_cases here : p = page
  · simp [here]
  · simp [here]

def InRange (env : Platform) (first last : Nat) (b : Block) : Prop :=
  first ≤ b.base ∧ b.base ≤ last ∧ env.pfnValidWithin b.base = true

instance (env : Platform) (first last : Nat) (b : Block) : Decidable (InRange env first last b) :=
  inferInstanceAs (Decidable (_ ∧ _))

def foundFrames (env : Platform) (z : Zone) (first last : Nat) : Set Nat :=
  cover {b | z.Free b ∧ InRange env first last b}

/-- A page that is no valid head is passed by. -/
theorem InRange.succ_iff (env : Platform) (last : Nat) {b : Block}
    (skipped : b.base = page → env.pfnValidWithin page = false) :
    InRange env (page + 1) last b ↔ InRange env page last b := by
  refine ⟨fun ⟨low,rest⟩ => ⟨Nat.le_of_succ_le low,rest⟩,fun ⟨low,rest⟩ => ⟨?_,rest⟩⟩
  refine Nat.lt_of_le_of_ne low fun same => ?_
  have invalid := skipped same.symm
  rw [same,rest.2] at invalid
  contradiction

/-- No other free block has its head inside a free block. -/
theorem InRange.skip_iff (env : Platform) (sound : Sound z) (listed : z.Free ⟨page,order⟩) (last : Nat) {b : Block}
    (free : z.Free b) : InRange env (page + 2^order) last b ↔ InRange env page last b ∧ b ≠ ⟨page,order⟩ := by
  constructor
  · rintro ⟨low,rest⟩
    refine ⟨⟨Nat.le_of_add_right_le low,rest⟩,?_⟩
    rintro rfl
    have positive := Nat.two_pow_pos order
    dsimp only at low
    omega
  · rintro ⟨⟨low,rest⟩,different⟩
    refine ⟨?_,rest⟩
    by_contra inside
    exact different (sound.disjoint b free _ listed b.base (Block.base_mem b)
      (Block.mem_frames.mpr ⟨low,Nat.lt_of_not_le inside⟩))

theorem foundFrames_subset (env : Platform) (z : Zone) (first last : Nat) :
    foundFrames env z first last ⊆ cover z.freeBlocks := by
  intro f found
  obtain ⟨b,⟨free,_⟩,inside⟩ := mem_cover.mp found
  exact mem_cover.mpr ⟨b,free,inside⟩

theorem foundFrames_finite (env : Platform) (sound : Sound z) (first last : Nat) :
    (foundFrames env z first last).Finite :=
  (Set.finite_Ico z.zoneStartPfn z.zoneEndPfn).subset ((foundFrames_subset env z first last).trans sound.cover_inside)

/-- The scan from `page` on: the heads it finds go to the lists of the type, all else stays
where it is, and it counts the frames behind these heads. -/
structure Scanned (env : Platform) (z : Zone) (first last migratetype : Nat) (moved : BitVec 32) (z' : Zone) : Prop where
  sound : Sound z'
  same : SameFree z z'
  lists : ∀ o < MAX_ORDER, ∀ m < MIGRATE_TYPES, ∀ p, p ∈ z'.freeList o m ↔
    if InRange env first last ⟨p, o⟩ then m = migratetype ∧ z.Free ⟨p, o⟩ else p ∈ z.freeList o m
  moved : moved = BitVec.ofNat 32 (foundFrames env z first last).ncard

theorem Scanned.skip (env : Platform) {last : Nat} {moved : BitVec 32} {z' : Zone}
    (skipped : ∀ o, z.Free ⟨page,o⟩ → env.pfnValidWithin page = false)
    (scanned : Scanned env z (page + 1) last migratetype moved z') : Scanned env z page last migratetype moved z' := by
  have same (b : Block) (free : z.Free b) : InRange env (page + 1) last b ↔ InRange env page last b :=
    InRange.succ_iff env last fun here => skipped b.order (here ▸ free)
  refine ⟨scanned.sound,scanned.same,fun o bound m valid p => ?_,?_⟩
  · rw [scanned.lists o bound m valid]
    by_cases free : z.Free ⟨p,o⟩
    · simp only [same _ free]
    · have unlisted : p ∉ z.freeList o m := fun member => free ⟨bound,m,valid,member⟩
      simp [free,unlisted]
  · rw [scanned.moved]
    refine congrArg (fun blocks => BitVec.ofNat 32 (cover blocks).ncard) (Set.ext fun b => ?_)
    exact and_congr_right fun free => same b free

theorem Scanned.take (env : Platform) (sound : Sound z) (listed : z.Free ⟨page,order⟩) {last : Nat}
    {moved : BitVec 32} {z' : Zone} (valid : migratetype < MIGRATE_TYPES) (found : InRange env page last ⟨page,order⟩)
    (scanned : Scanned env (addPageToFreeList (delPageFromFreeList z page order) page order migratetype)
      (page + 2^order) last migratetype moved z') :
    Scanned env z page last migratetype (BitVec.ofNat 32 (2^order) + moved) z' := by
  obtain ⟨sound',relisted⟩ := relist_same sound listed valid
  have past {b : Block} (free : z.Free b) : InRange env (page + 2^order) last b ↔
      InRange env page last b ∧ b ≠ ⟨page,order⟩ := InRange.skip_iff env sound listed last free
  refine ⟨scanned.sound,relisted.trans scanned.same,fun o bound m type p => ?_,?_⟩
  · rw [scanned.lists o bound m type,relist_mem sound bound type,relisted.free]
    by_cases free : z.Free ⟨p,o⟩
    · by_cases here : p = page
      · subst here
        obtain rfl := sound.order_unique free listed
        simp [past free,found,listed]
      · have different : (⟨p,o⟩ : Block) ≠ ⟨page,order⟩ := fun same => here (Block.mk.inj same).1
        simp [past free,different,here]
    · have unlisted : p ∉ z.freeList o m := fun member => free ⟨bound,m,type,member⟩
      have elsewhere : ¬(p = page ∧ o = order) := fun ⟨here,same⟩ => free (here ▸ same ▸ listed)
      by_cases here : p = page
      · subst here
        have different : o ≠ order := fun same => elsewhere ⟨rfl,same⟩
        simp [free,unlisted,different]
      · simp [free,unlisted,here]
  · have split : foundFrames env z page last = (⟨page,order⟩ : Block).frames ∪
        foundFrames env (addPageToFreeList (delPageFromFreeList z page order) page order migratetype)
          (page + 2^order) last := by
      ext f
      simp only [foundFrames,mem_cover,Set.mem_union,Set.mem_ofPred_eq,relisted.free]
      constructor
      · rintro ⟨b,⟨free,inRange⟩,inside⟩
        by_cases here : b = ⟨page,order⟩
        · exact .inl (here ▸ inside)
        · exact .inr ⟨b,⟨free,(past free).mpr ⟨inRange,here⟩⟩,inside⟩
      · rintro (inside | ⟨b,⟨free,inRange⟩,inside⟩)
        · exact ⟨_,⟨listed,found⟩,inside⟩
        · exact ⟨b,⟨free,((past free).mp inRange).1⟩,inside⟩
    have apart : Disjoint (⟨page,order⟩ : Block).frames
        (foundFrames env (addPageToFreeList (delPageFromFreeList z page order) page order migratetype)
          (page + 2^order) last) := by
      refine Set.disjoint_left.mpr fun f inside found => ?_
      obtain ⟨b,⟨free,inRange⟩,member⟩ := mem_cover.mp found
      have free := (relisted.free b).mp free
      exact ((past free).mp inRange).2 (sound.disjoint b free _ listed f member inside)
    have own : (⟨page,order⟩ : Block).frames.ncard = 2^order := by
      rw [Block.frames,← Finset.coe_Ico,Set.ncard_coe_finset,Nat.card_Ico]
      exact Nat.add_sub_cancel_left _ _
    rw [split,Set.ncard_union_eq apart (Set.finite_Ico _ _) (foundFrames_finite env sound' _ _),own,
      scanned.moved,BitVec.ofNat_add]

theorem moveFreepagesLoop_scanned (env : Platform) (endPage : Nat) (valid : migratetype < MIGRATE_TYPES)
    (page : Nat) (pagesMoved : BitVec 32) (sound : Sound z) :
    ∃ moved z', moveFreepagesLoop env endPage migratetype z page pagesMoved = (pagesMoved + moved,z') ∧
      Scanned env z page endPage migratetype moved z' := by
  induction z, page, pagesMoved using moveFreepagesLoop.induct env endPage migratetype with
  | case1 z page moved more invalid ih =>
    obtain ⟨more',z',loop,scanned⟩ := ih sound
    rw [moveFreepagesLoop,if_pos more,if_pos invalid]
    exact ⟨more',z',loop,scanned.skip env fun _ _ => invalid⟩
  | case2 z page moved more valid' unset ih =>
    obtain ⟨more',z',loop,scanned⟩ := ih sound
    rw [moveFreepagesLoop,if_pos more,if_neg valid',if_pos unset]
    refine ⟨more',z',loop,scanned.skip env fun o free => ?_⟩
    have marked := (sound.head _ free).2.1
    rw [unset] at marked
    contradiction
  | case3 z page moved more valid' set order ih =>
    obtain ⟨o,free⟩ := sound.flagged page (by simpa using set)
    have listed : z.Free ⟨page,order⟩ := by
      rw [show order = o from (sound.head _ free).2.2]; exact free
    obtain ⟨more',z',loop,scanned⟩ := ih (relist_same sound listed valid).1
    rw [moveFreepagesLoop,if_pos more,if_neg valid',if_neg set]
    have found : InRange env page endPage ⟨page,order⟩ := ⟨Nat.le_refl _,more,by simpa using valid'⟩
    refine ⟨BitVec.ofNat 32 (2^order) + more',z',?_,scanned.take env sound listed valid found⟩
    rw [← BitVec.add_assoc]
    exact loop
  | case4 z page moved done =>
    rw [moveFreepagesLoop,if_neg done]
    have none (b : Block) : ¬InRange env page endPage b := fun inRange => done (Nat.le_trans inRange.1 inRange.2.1)
    refine ⟨0,z,congrArg (·,z) (BitVec.add_zero moved).symm,sound,SameFree.refl z,fun o _ m _ p => ?_,?_⟩
    · rw [if_neg (none _)]
    · simp [foundFrames,none,cover]

/-- `move_freepages` moves exactly the free blocks with a valid head in the range, whole and
wherever they were listed, leaves all other lists and the set of free blocks as they are, and
returns the number of pages it has moved modulo 2^32. -/
theorem moveFreepages_exact (env : Platform) (sound : Sound z) (valid : migratetype < MIGRATE_TYPES)
    (startPage endPage : Nat) :
    let result := moveFreepages env z startPage endPage migratetype
    Scanned env z startPage endPage migratetype result.1 result.2 := by
  obtain ⟨moved,z',loop,scanned⟩ := moveFreepagesLoop_scanned env endPage valid startPage 0 sound
  have start : 0 + moved = moved := BitVec.zero_add moved
  rw [start] at loop
  simp only [moveFreepages,loop]
  exact scanned

theorem moveFreepages_exact_first :
    let result := moveFreepages bootPlatform oneFreed 0 5 MIGRATE_UNMOVABLE
    Scanned bootPlatform oneFreed 0 5 MIGRATE_UNMOVABLE result.1 result.2 :=
  moveFreepages_exact bootPlatform oneFreed_inv.toSound (by decide) 0 5

end Move

end Kernal.Buddy
