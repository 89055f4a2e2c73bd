import Kernal.BuddyReturn

/-! Freeing a block right after it was allocated. The merging loop meets the pieces of the
split from the smallest to the largest, each on top of its list, and stops where the block
was found because no two buddies were free there. -/
namespace Kernal.Buddy

open Blocks

/-- The zones have the same lists, counters and marks, and the same order at the head of
every free block. -/
structure Alike (z z' : Zone) : Prop where
  freeList : ∀ o < MAX_ORDER, ∀ m < MIGRATE_TYPES, z'.freeList o m = z.freeList o m
  nrFree : ∀ o, z'.nrFree o = z.nrFree o
  freePages : z'.freePages = z.freePages
  pageBuddy : ∀ p, (z'.page p).pageBuddy = (z.page p).pageBuddy
  pagePrivate : ∀ p, (z.page p).pageBuddy = true → (z'.page p).pagePrivate = (z.page p).pagePrivate
  zoneId : ∀ p, (z'.page p).zoneId = (z.page p).zoneId

theorem Alike.refl (z : Zone) : Alike z z :=
  ⟨fun _ _ _ _ => rfl,fun _ => rfl,rfl,fun _ => rfl,fun _ _ => rfl,fun _ => rfl⟩

theorem Alike.trans (first : Alike z z') (second : Alike z' z'') : Alike z z'' where
  freeList o ho m hm := (second.freeList o ho m hm).trans (first.freeList o ho m hm)
  nrFree o := (second.nrFree o).trans (first.nrFree o)
  freePages := second.freePages.trans first.freePages
  pageBuddy p := (second.pageBuddy p).trans (first.pageBuddy p)
  pagePrivate p marked :=
    (second.pagePrivate p ((first.pageBuddy p).trans marked)).trans (first.pagePrivate p marked)
  zoneId p := (second.zoneId p).trans (first.zoneId p)

theorem Agree.alike (agree : Agree z z') : Alike z z' where
  freeList o _ m _ := by rw [agree.freeList]
  nrFree o := by rw [agree.nrFree]
  freePages := agree.freePages
  pageBuddy p := (agree.page p).1
  pagePrivate p := (agree.page p).2.2
  zoneId p := (agree.page p).2.1

section Congruence

variable {z z' : Zone}

theorem Alike.del (alike : Alike z z') (page order : Nat) :
    Alike (delPageFromFreeList z page order) (delPageFromFreeList z' page order) where
  freeList o ho m hm := by simp only [del_freeList,alike.freeList o ho m hm]
  nrFree o := by
    by_cases same : o = order <;> simp [delPageFromFreeList,Zone.setPage,same,alike.nrFree]
  freePages := congrArg (· - pageCount order) alike.freePages
  pageBuddy p := by
    by_cases same : p = page <;> simp [delPageFromFreeList,Zone.setPage,same,alike.pageBuddy]
  pagePrivate p := by
    by_cases same : p = page
    · simp [delPageFromFreeList,Zone.setPage,same]
    · rw [del_page_other same,del_page_other same]
      exact alike.pagePrivate p
  zoneId p := by rw [del_page_zoneId,del_page_zoneId,alike.zoneId]

theorem Alike.add (alike : Alike z z') (page order migratetype : Nat) :
    Alike (addPageToFreeList z page order migratetype) (addPageToFreeList z' page order migratetype) where
  freeList o ho m hm := by
    by_cases same : o = order ∧ m = migratetype
    · obtain ⟨rfl,rfl⟩ := same
      rw [add_freeList_same,add_freeList_same,alike.freeList o ho m hm]
    · rw [add_freeList_other (by tauto),add_freeList_other (by tauto),alike.freeList o ho m hm]
  nrFree o := by
    by_cases same : o = order <;> simp [add_nrFree,same,alike.nrFree]
  freePages := by rw [add_freePages,add_freePages,alike.freePages]
  pageBuddy p := by
    by_cases same : p = page
    · rw [same,add_page_same,add_page_same]
    · rw [add_page_other same,add_page_other same,alike.pageBuddy]
  pagePrivate p := by
    by_cases same : p = page
    · rw [same,add_page_same,add_page_same]
      exact fun _ => rfl
    · rw [add_page_other same,add_page_other same]
      exact alike.pagePrivate p
  zoneId p := by rw [add_page_zoneId,add_page_zoneId,alike.zoneId]

theorem Alike.pageIsBuddy (alike : Alike z z') (page buddy order : Nat) :
    pageIsBuddy z' page buddy order = pageIsBuddy z page buddy order := by
  unfold Buddy.pageIsBuddy
  rw [alike.pageBuddy,alike.zoneId,alike.zoneId]
  cases marked : (z.page buddy).pageBuddy with
  | false => rfl
  | true => rw [alike.pagePrivate buddy marked]

/-- Merging takes the same way through zones that are alike. -/
theorem Alike.mergeLoop (alike : Alike z z') (rest page pfn order : Nat) :
    (mergeLoop rest z' page pfn order).2 = (mergeLoop rest z page pfn order).2 ∧
    Alike (mergeLoop rest z page pfn order).1 (mergeLoop rest z' page pfn order).1 := by
  induction rest generalizing z z' page pfn order with
  | zero => exact ⟨rfl,alike⟩
  | succ rest ih =>
    simp only [Buddy.mergeLoop,alike.pageIsBuddy]
    split
    · exact ih (alike.del _ order) _ _ _
    · exact ⟨rfl,alike⟩

theorem Alike.freeOnePage (alike : Alike z z') (page pfn order migratetype : Nat) :
    Alike (freeOnePage z page pfn order migratetype) (freeOnePage z' page pfn order migratetype) := by
  obtain ⟨way,after⟩ := alike.mergeLoop (MAX_ORDER - 1 - order) page pfn order
  simp only [Buddy.freeOnePage,add_setPageOrder]
  generalize Buddy.mergeLoop (MAX_ORDER - 1 - order) z page pfn order = merged at way after ⊢
  generalize Buddy.mergeLoop (MAX_ORDER - 1 - order) z' page pfn order = merged' at way after ⊢
  obtain ⟨y,base,final⟩ := merged
  obtain ⟨y',base',final'⟩ := merged'
  cases way
  exact after.add base final migratetype

end Congruence

section RoundTrip

variable {z : Zone} {page order migratetype : Nat}

/-- Listing a block and taking it off again. -/
theorem Hole.del_add_alike (hole : Hole z ⟨page,order⟩) (unmarked : (z.page page).pageBuddy = false) :
    Alike z (delPageFromFreeList (addPageToFreeList z page order migratetype) page order) where
  freeList o ho m hm := by
    have absent : page ∉ z.freeList o m := fun member =>
      hole.base_not_free (Block.base_mem ⟨page,order⟩) ⟨ho,m,hm,member⟩
    rw [del_freeList]
    by_cases same : o = order ∧ m = migratetype
    · obtain ⟨rfl,rfl⟩ := same
      rw [add_freeList_same,List.erase_cons_head]
    · rw [add_freeList_other (by tauto),List.erase_of_not_mem absent]
  nrFree o := by
    by_cases same : o = order <;>
      simp [delPageFromFreeList,addPageToFreeList,Zone.setFreeList,Zone.setPage,same]
  freePages := BitVec.add_sub_cancel z.freePages (pageCount order)
  pageBuddy p := by
    by_cases same : p = page
    · simp [delPageFromFreeList,Zone.setPage,same,unmarked]
    · rw [del_page_other same,add_page_other same]
  pagePrivate p marked := by
    have same : p ≠ page := by
      rintro rfl
      simp [unmarked] at marked
    rw [del_page_other same,add_page_other same]
  zoneId p := by rw [del_page_zoneId,add_page_zoneId]

/-- Taking the first block off its list and putting it back. -/
theorem add_del_alike (sound : Sound z) (bound : order < MAX_ORDER) (valid : migratetype < MIGRATE_TYPES)
    (sequence : z.freeList order migratetype = page :: tail) :
    Alike z (addPageToFreeList (delPageFromFreeList z page order) page order migratetype) := by
  have here : page ∈ z.freeList order migratetype := by simp [sequence]
  have listed : z.Free ⟨page,order⟩ := ⟨bound,migratetype,valid,here⟩
  have head := sound.head _ listed
  have counted : 1 ≤ z.nrFree order := by
    rw [sound.nrFree order bound]
    have lengths := del_lengths sound listed
    omega
  constructor
  case freeList =>
    intro o ho m hm
    by_cases same : o = order ∧ m = migratetype
    · obtain ⟨rfl,rfl⟩ := same
      rw [add_freeList_same,del_freeList,sequence,List.erase_cons_head]
    · have absent : page ∉ z.freeList o m := fun member =>
        same (sound.single o ho m hm order bound migratetype valid page member here)
      rw [add_freeList_other (by tauto),del_freeList,List.erase_of_not_mem absent]
  case nrFree =>
    intro o
    by_cases same : o = order
    · subst o
      simp [add_nrFree,delPageFromFreeList,Zone.setPage]
      omega
    · simp [add_nrFree,delPageFromFreeList,Zone.setPage,same]
  case freePages => exact BitVec.sub_add_cancel z.freePages (pageCount order)
  case pageBuddy =>
    intro p
    by_cases same : p = page
    · rw [same,add_page_same]
      exact head.2.1.symm
    · rw [add_page_other same,del_page_other same]
  case pagePrivate =>
    intro p _
    by_cases same : p = page
    · rw [same,add_page_same]
      exact head.2.2.symm
    · rw [add_page_other same,del_page_other same]
  case zoneId =>
    intro p
    rw [add_page_zoneId,del_page_zoneId]

/-- One round of the merging loop. -/
theorem freeOnePage_join (migratetype : Nat) (sound : Sound z) (hole : Hole z ⟨page,order⟩)
    (low : order < MAX_ORDER - 1) (clear : page.testBit order = false) (listed : z.Free ⟨page + 2^order,order⟩) :
    freeOnePage z page page order migratetype =
      freeOnePage (delPageFromFreeList z (page + 2^order) order) page page (order + 1) migratetype := by
  have rest : MAX_ORDER - 1 - order = (MAX_ORDER - 1 - (order + 1)) + 1 := by omega
  simp only [freeOnePage,rest,mergeLoop_join _ sound hole clear listed]

/-- Without a free block above it the block is listed as it is. -/
theorem freeOnePage_lone (migratetype : Nat) (sound : Sound z) (hole : Hole z ⟨page,order⟩)
    (lone : order < MAX_ORDER - 1 → page.testBit order = false → ¬z.Free ⟨page + 2^order,order⟩) :
    freeOnePage z page page order migratetype = addPageToFreeList z page order migratetype := by
  have stays : mergeLoop (MAX_ORDER - 1 - order) z page page order = (z,page,order) := by
    cases rounds : MAX_ORDER - 1 - order with
    | zero => rfl
    | succ rest =>
      rw [mergeLoop,if_neg]
      rw [merge_check sound hole]
      rintro ⟨clear,free⟩
      exact lone (by omega) clear free
  simp only [freeOnePage,stays,add_setPageOrder]

theorem Hole.unmarked (hole : Hole z ⟨page,order⟩) (sound : Sound z) : (z.page page).pageBuddy = false := by
  apply Bool.eq_false_iff.mpr
  intro marked
  obtain ⟨o,free⟩ := sound.flagged page marked
  exact hole.base_not_free (Block.base_mem ⟨page,order⟩) free

/-- Freeing the low end of a block that was split frees the block. -/
theorem freeOnePage_expandLoop (env : Platform) (sound : Sound z) (hole : Hole z ⟨page,high⟩)
    (le : low ≤ high) (valid : migratetype < MIGRATE_TYPES) :
    Alike (freeOnePage z page page high migratetype)
      (freeOnePage (expandLoop env page low migratetype high (2^high) z) page page low migratetype) := by
  induction high generalizing z with
  | zero =>
    rw [Nat.le_zero.1 le]
    exact Alike.refl _
  | succ high ih =>
    by_cases more : low < high + 1
    · obtain ⟨clear,lower,piece⟩ := hole.halves
      have bound : high + 1 < MAX_ORDER := hole.bound
      have listed := listPiece_agree env z page high migratetype
      have rest := hole.listPiece env valid
      have sound' := listed.sound (piece.add_sound sound valid)
      have free : (listPiece env z page high migratetype).Free ⟨page + 2^high,high⟩ :=
        listed.free.2 ((add_free piece.bound valid).2 (.inl rfl))
      have undone : Alike z (delPageFromFreeList (listPiece env z page high migratetype) (page + 2^high) high) :=
        (piece.del_add_alike (piece.unmarked sound)).trans (listed.alike.del (page + 2^high) high)
      have larger := freeOnePage_join migratetype sound' rest (by omega) clear free
      rw [expandLoop_succ env z page migratetype more]
      apply (undone.freeOnePage page page (high + 1) migratetype).trans
      rw [← larger]
      exact ih sound' rest (by omega)
    · rw [show low = high + 1 by omega]
      simp only [expandLoop,Nat.lt_irrefl,if_false]
      exact Alike.refl _

/-- In a zone without free buddies the block is listed again under its old order. -/
theorem freeOnePage_del (inv : Inv z) (bound : order < MAX_ORDER) (valid : migratetype < MIGRATE_TYPES)
    (sequence : z.freeList order migratetype = page :: tail) :
    Alike z (freeOnePage (delPageFromFreeList z page order) page page order migratetype) := by
  have sound := inv.toSound
  have listed : z.Free ⟨page,order⟩ := ⟨bound,migratetype,valid,by simp [sequence]⟩
  have alike := add_del_alike sound bound valid sequence
  rwa [freeOnePage_lone migratetype (del_sound sound listed) (del_hole sound listed)]
  intro low clear free
  have upper : Block.buddy ⟨page,order⟩ = ⟨page + 2^order,order⟩ := by
    rw [Block.buddy,xor_of_clear (sound.head _ listed).1 clear]
  exact inv.joined _ listed low (upper ▸ ((del_free sound listed).1 free).1)

/-- Allocating a block and freeing it at once restores the zone. -/
theorem rmqueueSmallest_freeOnePage (env : Platform) (inv : Inv z) (valid : migratetype < MIGRATE_TYPES)
    (returns : rmqueueSmallest env z order migratetype = (some page,z')) :
    Alike z (freeOnePage z' page page order migratetype) := by
  rcases rmqueueSmallest_spec env z order migratetype with
    ⟨-,nothing⟩ | ⟨c,first,tail,⟨le,bound,-⟩,-,sequence,found⟩
  · rw [nothing] at returns
    cases returns
  · rw [found] at returns
    cases returns
    have sound := inv.toSound
    have listed : z.Free ⟨page,c⟩ := ⟨bound,migratetype,valid,by simp [sequence]⟩
    have whole := freeOnePage_del inv bound valid sequence
    have split := freeOnePage_expandLoop env (del_sound sound listed) (del_hole sound listed) le valid
    rw [← Nat.one_shiftLeft c] at split
    have marked := (setFreepageMigratetype_agree
      (expand env (delPageFromFreeList z page c) page order c migratetype) page migratetype).alike
    exact (whole.trans split).trans (marked.freeOnePage page page order migratetype)

end RoundTrip

/-- Frame 0 comes back from a free block of two frames, and both are one block again. -/
theorem rmqueueSmallest_freeOnePage_pair : ∃ z',
    rmqueueSmallest bootPlatform (freedAtZero 1) 0 MIGRATE_MOVABLE = (some 0,z') ∧
    Alike (freedAtZero 1) (freeOnePage z' 0 0 0 MIGRATE_MOVABLE) := by
  obtain ⟨z',returns⟩ : ∃ z', rmqueueSmallest bootPlatform (freedAtZero 1) 0 MIGRATE_MOVABLE = (some 0,z') :=
    ⟨_,rfl⟩
  exact ⟨z',returns,rmqueueSmallest_freeOnePage bootPlatform (freedAtZero_inv 1 (by decide)) (by decide) returns⟩

end Kernal.Buddy
