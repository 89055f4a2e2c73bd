import Kernal.BuddyCounters
import Kernal.BuddySplit

/-! Freeing a block. The frame number of a buddy is exact, but the pointer to it is
`page + (buddy_pfn - pfn)` with a 32-bit difference: for a buddy below the page it
lands 2^32 pages too high, where no page is marked. Merging therefore only ever
grows a block upwards, and a free lower buddy is left unjoined. -/
namespace Kernal.Buddy

open Blocks

theorem ulongSub_self (a : Nat) : ulongSub a a = 0 := by
  simp [ulongSub]

theorem ulongSub_above (bound : d < 2^32) : ulongSub (a + d) a = d := by
  rw [ulongSub,show a + d + 2^32 - a = d + 2^32 by omega,Nat.add_mod_right]
  exact Nat.mod_eq_of_lt bound

/-- The borrow of a downward difference is not taken back by the pointer addition. -/
theorem ulongSub_below (positive : 0 < d) (bound : d ≤ 2^32) : ulongSub a (a + d) = 2^32 - d := by
  rw [ulongSub,show a + 2^32 - (a + d) = 2^32 - d by omega]
  exact Nat.mod_eq_of_lt (by omega)

theorem findBuddyPfn_eq (pfn order : Nat) : findBuddyPfn pfn order = pfn ^^^ 2^order := by
  rw [findBuddyPfn,Nat.one_shiftLeft]

theorem two_pow_order_lt (bound : order < MAX_ORDER) : 2^order < 2^32 :=
  Nat.pow_lt_pow_right (by decide) (Nat.lt_trans bound (by decide))

section

variable {z : Zone} {pfn order migratetype : Nat}

theorem Sound.frame_lt (sound : Sound z) (inside : f ∈ z.span) : f < 2^32 :=
  Nat.lt_of_lt_of_le inside.2 sound.extent

theorem pageIsBuddy_iff (sound : Sound z) (hp : page ∈ z.span) (hb : buddy ∈ z.span) :
    pageIsBuddy z page buddy order = true ↔ z.Free ⟨buddy,order⟩ := by
  simp only [pageIsBuddy,Bool.and_eq_true,beq_iff_eq]
  constructor
  · rintro ⟨⟨flagged,recorded⟩,_⟩
    obtain ⟨o,free⟩ := sound.flagged buddy flagged
    rw [← recorded,(sound.head _ free).2.2]
    exact free
  · intro free
    have head := sound.head _ free
    exact ⟨⟨head.2.1,head.2.2⟩,sound.zoneId page hp buddy hb⟩

theorem pageIsBuddy_outside (sound : Sound z) (outside : buddy ∉ z.span) :
    pageIsBuddy z page buddy order = false := by
  have unset : (z.page buddy).pageBuddy = false := by
    apply Bool.eq_false_iff.mpr
    intro flagged
    obtain ⟨o,free⟩ := sound.flagged buddy flagged
    exact outside (sound.inside _ free (Block.base_mem ⟨buddy,o⟩))
  simp [pageIsBuddy,unset]

theorem ulongSub_upper (hole : Hole z ⟨pfn,order⟩) (clear : pfn.testBit order = false) :
    ulongSub (findBuddyPfn pfn order) pfn = 2^order := by
  have aligned : 2^order ∣ pfn := hole.aligned
  rw [findBuddyPfn_eq,xor_of_clear aligned clear,ulongSub_above (two_pow_order_lt hole.bound)]

theorem ulongSub_lower (hole : Hole z ⟨pfn,order⟩) (set : pfn.testBit order = true) :
    ulongSub (findBuddyPfn pfn order) pfn = 2^32 - 2^order := by
  have aligned : 2^order ∣ pfn := hole.aligned
  have below := xor_of_set aligned set
  rw [findBuddyPfn_eq]
  generalize pfn ^^^ 2^order = low at below ⊢
  have far := ulongSub_below (a := low) (Nat.two_pow_pos order) (Nat.le_of_lt (two_pow_order_lt hole.bound))
  rwa [below] at far

/-- Joined to its upper buddy a block keeps its page. -/
theorem combined_upper (clear : pfn.testBit order = false) : findBuddyPfn pfn order &&& pfn = pfn := by
  rw [findBuddyPfn_eq,xor_and_of_clear clear]

/-- What the check of one merging round really asks. -/
theorem merge_check (sound : Sound z) (hole : Hole z ⟨pfn,order⟩) :
    pageIsBuddy z pfn (pfn + ulongSub (findBuddyPfn pfn order) pfn) order = true ↔
      pfn.testBit order = false ∧ z.Free ⟨pfn + 2^order,order⟩ := by
  have small : 2^order < 2^32 := two_pow_order_lt hole.bound
  have here : pfn ∈ z.span := hole.inside (Block.base_mem ⟨pfn,order⟩)
  cases bit : pfn.testBit order with
  | false =>
    rw [ulongSub_upper hole bit]
    by_cases inside : pfn + 2^order ∈ z.span
    · simp [pageIsBuddy_iff sound here inside]
    · rw [pageIsBuddy_outside sound inside]
      simp only [Bool.false_eq_true,true_and,false_iff]
      exact fun free => inside (sound.inside _ free (Block.base_mem ⟨pfn + 2^order,order⟩))
  | true =>
    have aligned : 2^order ∣ pfn := hole.aligned
    have below := xor_of_set aligned bit
    rw [ulongSub_lower hole bit,pageIsBuddy_outside sound]
    · simp
    · intro inside
      have bound := sound.frame_lt inside
      omega

/-- The outcome of the merging loop: the block has swallowed the free blocks that
continue it upwards, one per order, and stopped at order `final`. -/
structure Merged (z : Zone) (pfn order : Nat) (z' : Zone) (final : Nat) : Prop where
  sound : Sound z'
  hole : Hole z' ⟨pfn,final⟩
  span : z'.span = z.span
  grown : order ≤ final
  free : ∀ b, z'.Free b ↔ z.Free b ∧ ∀ i, order ≤ i → i < final → b ≠ ⟨pfn + 2^i,i⟩
  swallowed : ∀ i, order ≤ i → i < final → pfn.testBit i = false ∧ z.Free ⟨pfn + 2^i,i⟩
  stopped : final < MAX_ORDER - 1 → pfn.testBit final = true ∨ ¬z'.Free ⟨pfn + 2^final,final⟩
  frames : cover z'.freeBlocks ∪ (⟨pfn,final⟩ : Block).frames =
    cover z.freeBlocks ∪ (⟨pfn,order⟩ : Block).frames
  freePages : z'.freePages + pageCount final = z.freePages + pageCount order

theorem del_cover (sound : Sound z) (listed : z.Free ⟨page,order⟩) :
    cover (delPageFromFreeList z page order).freeBlocks ∪ (⟨page,order⟩ : Block).frames =
      cover z.freeBlocks := by
  ext f
  simp only [Set.mem_union,mem_cover,Zone.freeBlocks,Set.mem_ofPred_eq,del_free sound listed]
  constructor
  · rintro (⟨b,⟨free,_⟩,inside⟩ | inside)
    · exact ⟨b,free,inside⟩
    · exact ⟨_,listed,inside⟩
  · rintro ⟨b,free,inside⟩
    by_cases same : b = ⟨page,order⟩
    · exact .inr (same ▸ inside)
    · exact .inl ⟨b,⟨free,same⟩,inside⟩

/-- Blocks of other orders stay as they were. -/
theorem del_free_other (sound : Sound z) (listed : z.Free ⟨page,order⟩) (other : o ≠ order) :
    (delPageFromFreeList z page order).Free ⟨p,o⟩ ↔ z.Free ⟨p,o⟩ := by
  rw [del_free sound listed]
  refine and_iff_left_of_imp fun _ same => ?_
  exact other (congrArg Block.order same)

/-- Swallowing the upper buddy leaves the doubled block as the hole. -/
theorem Hole.join (hole : Hole z ⟨pfn,order⟩) (sound : Sound z) (low : order < MAX_ORDER - 1)
    (clear : pfn.testBit order = false) (listed : z.Free ⟨pfn + 2^order,order⟩) :
    Hole (delPageFromFreeList z (pfn + 2^order) order) ⟨pfn,order + 1⟩ := by
  have upper := del_hole sound listed
  have split := Block.frames_succ pfn order
  refine ⟨(dvd_succ_iff hole.aligned).mpr clear,Nat.add_lt_of_lt_sub low,?_,?_⟩
  · rw [split]
    exact Set.union_subset hole.inside upper.inside
  · intro c free f inside
    rw [split] at inside
    rcases inside with inside | inside
    · exact hole.apart c ((del_free sound listed).mp free).1 f inside
    · exact upper.apart c free f inside

/-- One round of the merging loop that finds the upper buddy free. -/
theorem mergeLoop_join (rest : Nat) (sound : Sound z) (hole : Hole z ⟨pfn,order⟩)
    (clear : pfn.testBit order = false) (listed : z.Free ⟨pfn + 2^order,order⟩) :
    mergeLoop (rest + 1) z pfn pfn order =
      mergeLoop rest (delPageFromFreeList z (pfn + 2^order) order) pfn pfn (order + 1) := by
  rw [mergeLoop,if_pos ((merge_check sound hole).mpr ⟨clear,listed⟩)]
  simp only [combined_upper clear,ulongSub_upper hole clear,ulongSub_self,Nat.add_zero]

theorem mergeLoop_merged (rest : Nat) (sound : Sound z) (hole : Hole z ⟨pfn,order⟩)
    (counted : order + rest = MAX_ORDER - 1) :
    ∃ z' final, mergeLoop rest z pfn pfn order = (z',pfn,final) ∧ Merged z pfn order z' final := by
  induction rest generalizing z order with
  | zero =>
    refine ⟨z,order,rfl,sound,hole,rfl,Nat.le_refl _,?_,?_,?_,rfl,rfl⟩
    · intro b
      refine ⟨fun free => ⟨free,fun i hl hh => ?_⟩,And.left⟩
      omega
    · intro i hl hh
      omega
    · intro low
      omega
  | succ rest ih =>
    have check := merge_check sound hole
    by_cases merges : pfn.testBit order = false ∧ z.Free ⟨pfn + 2^order,order⟩
    · obtain ⟨clear,listed⟩ := merges
      have joined := hole.join sound (by omega) clear listed
      obtain ⟨z',final,loop,merged⟩ := ih (del_sound sound listed) joined (by omega)
      refine ⟨z',final,?_,merged.sound,merged.hole,merged.span,Nat.le_of_succ_le merged.grown,
        ?_,?_,merged.stopped,?_,?_⟩
      · rw [mergeLoop_join rest sound hole clear listed]
        exact loop
      · intro b
        rw [merged.free,del_free sound listed]
        constructor
        · rintro ⟨⟨free,different⟩,others⟩
          refine ⟨free,fun i hl hh => ?_⟩
          by_cases first : i = order
          · subst i; exact different
          · exact others i (by omega) hh
        · rintro ⟨free,others⟩
          exact ⟨⟨free,others order (Nat.le_refl _) merged.grown⟩,fun i hl => others i (by omega)⟩
      · intro i hl hh
        by_cases first : i = order
        · subst i; exact ⟨clear,listed⟩
        · obtain ⟨bit,free⟩ := merged.swallowed i (by omega) hh
          exact ⟨bit,((del_free sound listed).mp free).1⟩
      · rw [merged.frames,Block.frames_succ,← del_cover sound listed]
        ext f
        simp only [Set.mem_union]
        tauto
      · rw [merged.freePages,pageCount_succ,← BitVec.add_assoc]
        exact congrArg (· + pageCount order) (BitVec.sub_add_cancel z.freePages (pageCount order))
    · refine ⟨z,order,?_,sound,hole,rfl,Nat.le_refl _,?_,?_,?_,rfl,rfl⟩
      · rw [mergeLoop,if_neg (by rw [check]; exact merges)]
      · intro b
        refine ⟨fun free => ⟨free,fun i hl hh => ?_⟩,And.left⟩
        omega
      · intro i hl hh
        omega
      · intro _
        cases bit : pfn.testBit order with
        | true => exact .inl rfl
        | false => exact .inr fun free => merges ⟨bit,free⟩

/-- `__add_page_to_free_list` repeats what `set_page_order` has just written. -/
theorem add_setPageOrder (z : Zone) (page order migratetype : Nat) :
    addPageToFreeList (setPageOrder z page order) page order migratetype =
      addPageToFreeList z page order migratetype := by
  simp [addPageToFreeList,setPageOrder,Zone.setFreeList,Zone.setPage]

/-- Freeing a block lists the block it has grown to in the zone the merge leaves. -/
theorem freeOnePage_merged (migratetype : Nat) (sound : Sound z) (hole : Hole z ⟨pfn,order⟩) :
    ∃ z' final, Merged z pfn order z' final ∧
      freeOnePage z pfn pfn order migratetype = addPageToFreeList z' pfn final migratetype := by
  have bound : order < MAX_ORDER := hole.bound
  obtain ⟨z',final,loop,merged⟩ := mergeLoop_merged (MAX_ORDER - 1 - order) sound hole
    (by unfold MAX_ORDER at *; omega)
  refine ⟨z',final,merged,?_⟩
  simp only [freeOnePage,loop,add_setPageOrder]

theorem freeOnePage_sound (sound : Sound z) (hole : Hole z ⟨pfn,order⟩)
    (valid : migratetype < MIGRATE_TYPES) : Sound (freeOnePage z pfn pfn order migratetype) := by
  obtain ⟨z',final,merged,eq⟩ := freeOnePage_merged migratetype sound hole
  rw [eq]
  exact merged.hole.add_sound merged.sound valid

theorem freeOnePage_span (migratetype : Nat) (sound : Sound z) (hole : Hole z ⟨pfn,order⟩) :
    (freeOnePage z pfn pfn order migratetype).span = z.span := by
  obtain ⟨z',final,merged,eq⟩ := freeOnePage_merged migratetype sound hole
  rw [eq]
  exact merged.span

/-- Exactly the frames of the block become free. -/
theorem freeOnePage_cover (sound : Sound z) (hole : Hole z ⟨pfn,order⟩)
    (valid : migratetype < MIGRATE_TYPES) :
    cover (freeOnePage z pfn pfn order migratetype).freeBlocks =
      cover z.freeBlocks ∪ (⟨pfn,order⟩ : Block).frames := by
  obtain ⟨z',final,merged,eq⟩ := freeOnePage_merged migratetype sound hole
  rw [eq,← merged.frames]
  ext f
  simp only [Set.mem_union,mem_cover,Zone.freeBlocks,Set.mem_ofPred_eq,add_free merged.hole.bound valid]
  constructor
  · rintro ⟨b,rfl | free,inside⟩
    · exact .inr inside
    · exact .inl ⟨b,free,inside⟩
  · rintro (⟨b,free,inside⟩ | inside)
    · exact ⟨b,.inr free,inside⟩
    · exact ⟨_,.inl rfl,inside⟩

/-- The block freed last starts a free block, whatever it has merged with. -/
theorem freeOnePage_starts (sound : Sound z) (hole : Hole z ⟨pfn,order⟩)
    (valid : migratetype < MIGRATE_TYPES) :
    ∃ final, (freeOnePage z pfn pfn order migratetype).Free ⟨pfn,final⟩ := by
  obtain ⟨z',final,merged,eq⟩ := freeOnePage_merged migratetype sound hole
  rw [eq]
  exact ⟨final,(add_free merged.hole.bound valid).mpr (.inl rfl)⟩

/-- Without a free block that continues it, the block is listed as it is. -/
theorem freeOnePage_alone (migratetype : Nat) (sound : Sound z) (hole : Hole z ⟨pfn,order⟩)
    (valid : migratetype < MIGRATE_TYPES) (alone : ¬z.Free ⟨pfn + 2^order,order⟩) :
    (freeOnePage z pfn pfn order migratetype).Free b ↔ b = ⟨pfn,order⟩ ∨ z.Free b := by
  obtain ⟨z',final,merged,eq⟩ := freeOnePage_merged migratetype sound hole
  have same : final = order := by
    by_contra different
    have grown := merged.grown
    exact alone (merged.swallowed order (Nat.le_refl _) (by omega)).2
  subst final
  rw [eq,add_free hole.bound valid,merged.free]
  refine or_congr_right (and_iff_left_of_imp fun _ i hl hh => ?_)
  omega

/-- The block, grown over the free blocks that continue it upwards, becomes the
upper half of a pair whose lower half is free already. -/
def StrandsLower (z : Zone) (pfn order : Nat) : Prop :=
  ∃ k, order ≤ k ∧ k < MAX_ORDER - 1 ∧ findBuddyPfn pfn k < pfn ∧ z.Free ⟨findBuddyPfn pfn k,k⟩ ∧
    ∀ i, order ≤ i → i < k → z.Free ⟨pfn + 2^i,i⟩

/-- The lower half of such a pair shows where the merging loop stops. -/
theorem Merged.final_eq (merged : Merged z pfn order z' final) (sound : Sound z)
    (from_order : order ≤ k) (low : k < MAX_ORDER - 1) (below : pfn ^^^ 2^k < pfn)
    (waiting : z.Free ⟨pfn ^^^ 2^k,k⟩) (chain : ∀ i, order ≤ i → i < k → z.Free ⟨pfn + 2^i,i⟩) :
    final = k := by
  have aligned : 2^k ∣ pfn := by
    have twice := dvd_xor (sound.head _ waiting).1
    simpa using twice
  have bit : pfn.testBit k = true := by
    cases bit : pfn.testBit k with
    | true => rfl
    | false =>
      have above := xor_of_clear aligned bit
      omega
  rcases Nat.lt_trichotomy final k with less | same | more
  · -- Below `k` all bits are clear, so only a missing block can have stopped it.
    have clear : pfn.testBit final = false :=
      (dvd_succ_iff (Nat.dvd_trans (Nat.pow_dvd_pow 2 (Nat.le_of_lt less)) aligned)).mp
        (Nat.dvd_trans (Nat.pow_dvd_pow 2 less) aligned)
    have missing := (merged.stopped (by omega)).resolve_left (by simp [clear])
    refine absurd ((merged.free _).mpr ⟨chain final merged.grown less,?_⟩) missing
    intro i _ hh same
    have orders := congrArg Block.order same
    dsimp only at orders
    omega
  · exact same
  · have clear := (merged.swallowed k from_order more).1
    rw [bit] at clear
    contradiction

/-- Merging restores the invariant unless a free lower buddy is stranded. -/
theorem freeOnePage_inv_iff (inv : Inv z) (hole : Hole z ⟨pfn,order⟩)
    (valid : migratetype < MIGRATE_TYPES) :
    Inv (freeOnePage z pfn pfn order migratetype) ↔ ¬StrandsLower z pfn order := by
  obtain ⟨z',final,merged,eq⟩ := freeOnePage_merged migratetype inv.toSound hole
  rw [eq]
  constructor
  · rintro after ⟨k,from_order,low,below,waiting,chain⟩
    rw [findBuddyPfn_eq] at below waiting
    have same := merged.final_eq inv.toSound from_order low below waiting chain
    subst final
    refine after.joined ⟨pfn,k⟩ ((add_free merged.hole.bound valid).mpr (.inl rfl)) low ?_
    refine (add_free merged.hole.bound valid).mpr (.inr ((merged.free _).mpr ⟨waiting,?_⟩))
    intro i _ _ same
    have bases := congrArg Block.base same
    dsimp only [Block.buddy] at bases
    have positive := Nat.two_pow_pos i
    omega
  · intro free_of_stranded
    have before : Inv z' := {
      toSound := merged.sound
      joined := fun b free low buddy =>
        inv.joined b ((merged.free b).mp free).1 low ((merged.free _).mp buddy).1 }
    refine merged.hole.add_inv before valid ?_
    intro low buddy
    rcases bit : pfn.testBit final with _ | _
    · have upper := xor_of_clear merged.hole.aligned bit
      have missing := (merged.stopped low).resolve_left (by simp [bit])
      dsimp only [Block.buddy] at buddy upper
      rw [upper] at buddy
      exact missing buddy
    · have lower := xor_of_set merged.hole.aligned bit
      dsimp only at lower
      have positive := Nat.two_pow_pos final
      apply free_of_stranded
      refine ⟨final,merged.grown,low,?_,?_,fun i hl hh => (merged.swallowed i hl hh).2⟩
      · rw [findBuddyPfn_eq]; omega
      · rw [findBuddyPfn_eq]; exact ((merged.free _).mp buddy).1

end

end Kernal.Buddy
