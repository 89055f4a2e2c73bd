import Kernal.Buddy

/-! What each function of `buddy.c` does to the two counters of a zone, `free_pages` and the
statistic `NR_FREE_PAGES`, in the wrapping arithmetic of `ulong`. No state of the lists or
of the page flags is assumed. -/
namespace Kernal.Buddy

theorem pageCount_succ (order : Nat) : pageCount (order + 1) = pageCount order + pageCount order := by
  rw [pageCount,Nat.pow_succ,Nat.mul_two,BitVec.ofNat_add,pageCount]

structure Moved (z z' : Zone) (free : Ulong) (nr : Int) : Prop where
  freePages : z'.freePages = z.freePages + free
  nrFreePages : z'.nrFreePages = z.nrFreePages + nr

namespace Moved

theorem refl (z : Zone) : Moved z z 0 0 := ⟨(BitVec.add_zero _).symm,(Int.add_zero _).symm⟩

theorem trans (first : Moved z z' a m) (second : Moved z' z'' b n) : Moved z z'' (a + b) (m + n) := by
  refine ⟨?_,?_⟩
  · rw [second.freePages,first.freePages,BitVec.add_assoc]
  · rw [second.nrFreePages,first.nrFreePages,Int.add_assoc]

/-- The amounts written another way. -/
theorem cast (moved : Moved z z' a m) (free : a = b) (nr : m = n) : Moved z z' b n := by
  subst free nr
  exact moved

/-- Two moves of which the second leaves both counters. -/
theorem still (first : Moved z z' a m) (second : Moved z' z'' 0 0) : Moved z z'' a m :=
  (first.trans second).cast (BitVec.add_zero a) (Int.add_zero m)

/-- Two moves of which the first leaves both counters. -/
theorem from_still (first : Moved z z' 0 0) (second : Moved z' z'' a m) : Moved z z'' a m :=
  (first.trans second).cast (BitVec.zero_add a) (Int.zero_add m)

theorem kept (moved : Moved z z' 0 n) : z'.freePages = z.freePages :=
  moved.freePages.trans (BitVec.add_zero _)

end Moved

theorem setPage_moved (z : Zone) (page : Nat) (edit : Page → Page) : Moved z (z.setPage page edit) 0 0 :=
  ⟨(BitVec.add_zero _).symm,(Int.add_zero _).symm⟩

theorem setPcp_moved (z : Zone) (cpu : Nat) (edit : PerCpuPages → PerCpuPages) :
    Moved z (z.setPcp cpu edit) 0 0 :=
  ⟨(BitVec.add_zero _).symm,(Int.add_zero _).symm⟩

theorem del_moved (z : Zone) (page order : Nat) :
    Moved z (delPageFromFreeList z page order) (-pageCount order) 0 :=
  ⟨BitVec.sub_eq_add_neg _ _,(Int.add_zero _).symm⟩

theorem add_moved (z : Zone) (page order migratetype : Nat) :
    Moved z (addPageToFreeList z page order migratetype) (pageCount order) 0 :=
  ⟨rfl,(Int.add_zero _).symm⟩

theorem setPageGuard_moved (env : Platform) (z : Zone) (page order : Nat) :
    Moved z (setPageGuard env z page order) 0 0 := by
  unfold setPageGuard
  split
  · exact setPage_moved z page _
  · exact .refl z

/-- The upper halves `expand` lists make up all of the block but its low end. -/
theorem expandLoop_moved (env : Platform) (page migratetype : Nat) (z : Zone) (le : low ≤ high) (size : Nat) :
    Moved z (expandLoop env page low migratetype high size z) (pageCount high - pageCount low) 0 := by
  induction high generalizing size z with
  | zero =>
    rw [Nat.le_zero.mp le,BitVec.sub_self]
    exact .refl z
  | succ high ih =>
    by_cases more : low < high + 1
    · simp only [expandLoop,if_pos more]
      have listed := (add_moved z (page + size >>> 1) high migratetype).still
        (setPageGuard_moved env _ (page + size >>> 1) high)
      refine (listed.trans (ih _ (by omega) (size >>> 1))).cast ?_ (Int.add_zero 0)
      rw [pageCount_succ,BitVec.sub_eq_add_neg,BitVec.sub_eq_add_neg,BitVec.add_assoc]
    · rw [show low = high + 1 by omega,BitVec.sub_self]
      simp only [expandLoop,Nat.lt_irrefl,if_false]
      exact .refl z

/-- Taking a block off its list and listing all but its low end again. -/
theorem split_moved (env : Platform) (page migratetype : Nat) (le : order ≤ high)
    (between : Moved (delPageFromFreeList z page high) z' 0 0) :
    Moved z (setFreepageMigratetype (expand env z' page order high migratetype) page migratetype)
      (-pageCount order) 0 := by
  have expanded := expandLoop_moved env page migratetype z' le (1 <<< high)
  refine ((((del_moved z page high).still between).trans expanded).still (setPage_moved _ page _)).cast ?_
    (Int.add_zero 0)
  bv_omega

theorem moveFreepagesLoop_moved (env : Platform) (endPage migratetype : Nat) (z : Zone)
    (page : Nat) (pagesMoved : BitVec 32) :
    Moved z (moveFreepagesLoop env endPage migratetype z page pagesMoved).2 0 0 := by
  induction z, page, pagesMoved using moveFreepagesLoop.induct env endPage migratetype with
  | case1 z page moved more invalid ih =>
    rw [moveFreepagesLoop,if_pos more,if_pos invalid]
    exact ih
  | case2 z page moved more valid unset ih =>
    rw [moveFreepagesLoop,if_pos more,if_neg valid,if_pos unset]
    exact ih
  | case3 z page moved more valid set order ih =>
    rw [moveFreepagesLoop,if_pos more,if_neg valid,if_neg set]
    have relisted := (del_moved z page order).trans (add_moved _ page order migratetype)
    exact (relisted.cast (BitVec.add_left_neg _) (Int.add_zero 0)).still ih
  | case4 z page moved done =>
    rw [moveFreepagesLoop,if_neg done]
    exact .refl z

theorem stealSuitableFallback_moved (env : Platform) (z : Zone) (page startType : Nat) :
    Moved z (stealSuitableFallback env z page startType) 0 0 := by
  unfold stealSuitableFallback
  split
  · exact .refl z
  · simp only [moveFreepagesBlock]
    split
    · exact .refl z
    · exact moveFreepagesLoop_moved env _ _ z _ 0

/-- What a search leaves: nothing was found, or a block of the order is out of the counter. -/
def Searched (z : Zone) (order : Nat) : Option Nat × Zone → Prop
  | (none, z') => z' = z
  | (some _, z') => order < MAX_ORDER ∧ Moved z z' (-pageCount order) 0

theorem rmqueueSmallestLoop_searched (env : Platform) (z : Zone) (migratetype rest currentOrder : Nat)
    (counted : currentOrder + rest = MAX_ORDER ∨ rest = 0) (from_order : order ≤ currentOrder) :
    Searched z order (rmqueueSmallestLoop env z order migratetype rest currentOrder) := by
  induction rest generalizing currentOrder with
  | zero => rfl
  | succ rest ih =>
    simp only [rmqueueSmallestLoop]
    split
    · exact ih (currentOrder + 1) (.inl (by omega)) (by omega)
    · exact ⟨by omega,split_moved env _ migratetype from_order (.refl _)⟩

theorem fallbackAt_searched (env : Platform) (z : Zone) (bound : currentOrder < MAX_ORDER)
    (below : ∀ result, further = some result → Searched z order result)
    (returns : fallbackAt env z order migratetype currentOrder further = some result) :
    Searched z order result := by
  unfold fallbackAt at returns
  split at returns
  · cases returns; rfl
  next enough =>
    split at returns
    · cases returns
    · exact below result returns
    next fallbackMt canSteal found =>
      split at returns
      · cases returns
      next page tail sequence =>
        cases returns
        refine ⟨by omega,split_moved env page migratetype (by omega) ?_⟩
        cases canSteal
        · exact .refl _
        · exact stealSuitableFallback_moved env _ page migratetype

theorem rmqueueFallback_searched (env : Platform) (z : Zone)
    (returns : rmqueueFallback env z order migratetype = some result) : Searched z order result := by
  have search (currentOrder : Nat) (bound : currentOrder < MAX_ORDER) : ∀ result,
      rmqueueFallbackLoop env z order migratetype currentOrder = some result → Searched z order result := by
    induction currentOrder with
    | zero =>
      intro result returns
      exact fallbackAt_searched env z bound (by simp) returns
    | succ next ih =>
      intro result returns
      exact fallbackAt_searched env z bound (ih (by omega)) returns
  exact search (MAX_ORDER - 1) (by decide) result returns

theorem prepLoop_moved (z : Zone) (page n : Nat) : Moved z (prepLoop z page n) 0 0 := by
  induction n with
  | zero => exact .refl z
  | succ n ih => exact ih.still (setPage_moved _ _ _)

/-- A page that `rmqueue` returns is out of both counters. -/
theorem rmqueue_moved (env : Platform) (z : Zone) (order migratetype : Nat)
    (returns : rmqueue env z order migratetype = some result) :
    (result.1 = none → result.2 = z) ∧
    (result.1 ≠ none → order < MAX_ORDER ∧ Moved z result.2 (-pageCount order) (-2^order)) := by
  have prepared {page : Nat} {z' : Zone} (found : Searched z order (some page, z')) :
      order < MAX_ORDER ∧ Moved z { prepNewPage z' page order with
        nrFreePages := (prepNewPage z' page order).nrFreePages - 2^order } (-pageCount order) (-2^order) := by
    obtain ⟨bound,moved⟩ := found
    have still := moved.still (prepLoop_moved z' page (1 <<< order))
    refine ⟨bound,still.freePages,?_⟩
    have nr := still.nrFreePages
    simp only [prepNewPage,nr]
    omega
  have smallest : Searched z order (rmqueueSmallest env z order migratetype) :=
    rmqueueSmallestLoop_searched env z migratetype _ _ (by omega) (Nat.le_refl order)
  have searched : ∀ found, (match rmqueueSmallest env z order migratetype with
      | (none, z) => rmqueueFallback env z order migratetype
      | (some page, z) => some (some page, z)) = some found → Searched z order found := by
    intro found here
    generalize rmqueueSmallest env z order migratetype = first at smallest here
    obtain ⟨_ | page,z₁⟩ := first
    · cases smallest
      exact rmqueueFallback_searched env z here
    · cases here
      exact smallest
  obtain ⟨⟨page,z₁⟩,here,rfl⟩ := Option.map_eq_some_iff.mp returns
  have found := searched _ here
  cases page with
  | none => exact ⟨fun _ => found,fun some => absurd rfl some⟩
  | some page => exact ⟨(nomatch ·),fun _ => prepared found⟩

theorem ofInt_neg_two_pow (order : Nat) : BitVec.ofInt 32 (-2^order) = -pageCount order := by
  rw [BitVec.ofInt_neg]
  congr 1

/-- `alloc_pages` moves its own counter and both of the zone alike. -/
theorem allocPages_moved {env : Platform} {mm mm' : Memory}
    (returns : allocPages env mm gfpMask order = some (page, mm')) :
    ∃ a n, Moved mm.zone mm'.zone a n ∧ mm'.freePages = mm.freePages + a ∧ BitVec.ofInt 32 n = a := by
  unfold allocPages at returns
  split at returns
  · cases returns
    exact ⟨0,0,.refl _,(BitVec.add_zero _).symm,rfl⟩
  · obtain ⟨⟨found,z⟩,here,eq⟩ := Option.map_eq_some_iff.mp returns
    obtain ⟨none,some⟩ := rmqueue_moved env mm.zone order _ here
    cases found with
    | none =>
      cases eq
      have moved : Moved mm.zone z 0 0 := (none rfl : z = mm.zone) ▸ .refl _
      exact ⟨0,0,moved,(BitVec.add_zero _).symm,rfl⟩
    | some page =>
      cases eq
      obtain ⟨-,moved⟩ := some (by simp)
      refine ⟨_,_,moved,?_,ofInt_neg_two_pow order⟩
      dsimp only
      rw [Nat.one_shiftLeft]
      exact BitVec.sub_eq_add_neg _ _

/-- Merging takes one block of each order off its list and doubles the block freed. -/
theorem mergeLoop_moved (rest : Nat) (z : Zone) (page pfn order : Nat) :
    let (z', _, final) := mergeLoop rest z page pfn order
    Moved z z' (pageCount order - pageCount final) 0 := by
  induction rest generalizing z page pfn order with
  | zero =>
    simp only [mergeLoop,BitVec.sub_self]
    exact .refl z
  | succ rest ih =>
    simp only [mergeLoop]
    split
    · refine ((del_moved z _ order).trans (ih _ _ _ _)).cast ?_ (Int.add_zero 0)
      rw [pageCount_succ]
      bv_omega
    · rw [BitVec.sub_self]
      exact .refl z

/-- Whatever it merges with, a block that is freed adds its own pages to `free_pages`. -/
theorem freeOnePage_moved (z : Zone) (page pfn order migratetype : Nat) :
    Moved z (freeOnePage z page pfn order migratetype) (pageCount order) 0 := by
  have merged := mergeLoop_moved (MAX_ORDER - 1 - order) z page pfn order
  simp only [freeOnePage]
  generalize mergeLoop (MAX_ORDER - 1 - order) z page pfn order = outcome at merged
  obtain ⟨z',page',final⟩ := outcome
  refine ((merged.still (setPage_moved z' page' _)).trans (add_moved _ page' final migratetype)).cast ?_
    (Int.add_zero 0)
  bv_omega

theorem freePageCheck_moved (env : Platform) (z : Zone) (page : Nat) :
    Moved z (freePageCheck env z page).2 0 0 := by
  unfold freePageCheck
  split
  · exact .refl z
  · split
    · dsimp only
      exact setPage_moved z page _
    · exact .refl z

theorem prepareLoop_moved (env : Platform) (z : Zone) (page n : Nat) :
    Moved z (prepareLoop env z page n).2 0 0 := by
  induction n with
  | zero => exact .refl z
  | succ n ih =>
    simp only [prepareLoop]
    split
    · exact (ih.still (setPage_moved _ _ _)).still (freePageCheck_moved env _ _)
    · exact ih.still (freePageCheck_moved env _ _)

theorem freePagePrepare_moved (env : Platform) (z : Zone) (page order : Nat) :
    Moved z (freePagePrepare env z page order).2 0 0 := by
  have checked := prepareLoop_moved env z page (1 <<< order)
  simp only [freePagePrepare]
  split
  · exact checked
  · dsimp only
    exact checked.still (setPage_moved _ _ _)

end Kernal.Buddy
