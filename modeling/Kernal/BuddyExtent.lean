import Kernal.BuddyOperations

/-! Which page descriptors `__free_one_page` looks at. A buddy is read before anything is
known about it, and neither end of the zone is checked on the way. -/
namespace Kernal.Buddy

open Blocks

/-- The pages the merging loop reads or writes besides the one it starts with: each buddy
it examines and each combined page. -/
def mergeTouched : Nat → Zone → (page pfn order : Nat) → List Nat
  | 0, _, _, _, _ => []
  | rest + 1, z, page, pfn, order =>
    let buddyPfn := findBuddyPfn pfn order
    let buddy := page + ulongSub buddyPfn pfn
    if pageIsBuddy z page buddy order then
      let z := delPageFromFreeList z buddy order
      let combinedPfn := buddyPfn &&& pfn
      let combinedPage := page + ulongSub combinedPfn pfn
      buddy :: combinedPage :: mergeTouched rest z combinedPage combinedPfn (order + 1)
    else [buddy]

def freeOnePageTouched (z : Zone) (page pfn order : Nat) : List Nat :=
  page :: mergeTouched (MAX_ORDER - 1 - order) z page pfn order

section Touched

structure SamePages (d : Set Nat) (z z' : Zone) : Prop where
  rest : z' = { z with page := z'.page }
  page : ∀ p ∈ d, z'.page p = z.page p

variable {d : Set Nat} {z z' : Zone} {page pfn order : Nat}

theorem SamePages.pageIsBuddy (same : SamePages d z z') (here : page ∈ d) (there : buddy ∈ d) (order : Nat) :
    pageIsBuddy z' page buddy order = pageIsBuddy z page buddy order := by
  unfold Buddy.pageIsBuddy
  rw [same.page page here,same.page buddy there]

theorem SamePages.del (same : SamePages d z z') (page order : Nat) :
    SamePages d (delPageFromFreeList z page order) (delPageFromFreeList z' page order) := by
  obtain ⟨rest,pages⟩ := same
  generalize z'.page = f at rest pages
  subst rest
  refine ⟨rfl,fun p inside => ?_⟩
  by_cases here : p = page
  · subst here
    simp [delPageFromFreeList,Zone.setPage,pages p inside]
  · simp [delPageFromFreeList,Zone.setPage,here,pages p inside]

theorem SamePages.add (same : SamePages d z z') (page order migratetype : Nat) :
    SamePages d (addPageToFreeList z page order migratetype) (addPageToFreeList z' page order migratetype) := by
  obtain ⟨rest,pages⟩ := same
  generalize z'.page = f at rest pages
  subst rest
  refine ⟨rfl,fun p inside => ?_⟩
  by_cases here : p = page
  · subst here
    simp [addPageToFreeList,Zone.setFreeList,Zone.setPage,pages p inside]
  · simp [addPageToFreeList,Zone.setFreeList,Zone.setPage,here,pages p inside]

/-- The loop takes the same way through both, and stays inside `d`. -/
theorem SamePages.mergeLoop (same : SamePages d z z') (rest : Nat) (here : page ∈ d)
    (inside : ∀ p ∈ mergeTouched rest z page pfn order, p ∈ d) :
    let (y, base, final) := mergeLoop rest z page pfn order
    let (y', way) := mergeLoop rest z' page pfn order
    way = (base, final) ∧ base ∈ d ∧ SamePages d y y' ∧ ∀ p, p ∉ d → y.page p = z.page p := by
  induction rest generalizing z z' page pfn order with
  | zero => exact ⟨rfl,here,same,fun _ _ => rfl⟩
  | succ rest ih =>
    simp only [mergeTouched] at inside
    simp only [Buddy.mergeLoop]
    have buddyIn : page + ulongSub (findBuddyPfn pfn order) pfn ∈ d := by
      split at inside
      all_goals exact inside _ List.mem_cons_self
    rw [same.pageIsBuddy here buddyIn]
    split
    next merges =>
      rw [if_pos merges,List.forall_mem_cons,List.forall_mem_cons] at inside
      have later := ih (same.del _ order) inside.2.1 inside.2.2
      refine ⟨later.1,later.2.1,later.2.2.1,fun p outside => (later.2.2.2 p outside).trans ?_⟩
      exact del_page_other fun there => outside (there ▸ buddyIn)
    next => exact ⟨rfl,here,same,fun _ _ => rfl⟩

/-- What `__free_one_page` does depends on these descriptors only, and it writes no others. -/
theorem freeOnePage_touched (same : SamePages d z z')
    (inside : ∀ p ∈ freeOnePageTouched z page pfn order, p ∈ d) (migratetype : Nat) :
    SamePages d (freeOnePage z page pfn order migratetype) (freeOnePage z' page pfn order migratetype) ∧
      ∀ p, p ∉ d → (freeOnePage z page pfn order migratetype).page p = z.page p := by
  rw [freeOnePageTouched,List.forall_mem_cons] at inside
  have loop := same.mergeLoop (MAX_ORDER - 1 - order) inside.1 inside.2
  simp only [freeOnePage,add_setPageOrder]
  generalize Buddy.mergeLoop (MAX_ORDER - 1 - order) z page pfn order = merged at loop ⊢
  generalize Buddy.mergeLoop (MAX_ORDER - 1 - order) z' page pfn order = merged' at loop ⊢
  obtain ⟨y,base,final⟩ := merged
  obtain ⟨y',way⟩ := merged'
  obtain ⟨rfl,here,after,kept⟩ := loop
  refine ⟨after.add base final migratetype,fun p outside => (add_page_other ?_).trans (kept p outside)⟩
  exact fun there => outside (there ▸ here)

end Touched

def BuddyInside (z : Zone) (pfn k : Nat) : Prop := pfn.testBit k = false ∧ pfn + 2^k < z.zoneEndPfn

/-- At every order the merge gets to, the buddy is a page of the zone. -/
def MergesInside (z : Zone) (pfn order : Nat) : Prop :=
  ∀ k, order ≤ k → k < MAX_ORDER - 1 → (∀ i, order ≤ i → i < k → z.Free ⟨pfn + 2^i,i⟩) →
    BuddyInside z pfn k

section

variable {z : Zone} {pfn order : Nat}

/-- The page taken for a buddy below the block lies past every zone. -/
theorem buddy_mem_span (sound : Sound z) (hole : Hole z ⟨pfn,order⟩) :
    pfn + ulongSub (findBuddyPfn pfn order) pfn ∈ z.span ↔ BuddyInside z pfn order := by
  have positive := Nat.two_pow_pos order
  have small : 2^order < 2^32 := two_pow_order_lt hole.bound
  have low := (hole.inside (Block.base_mem ⟨pfn,order⟩)).1
  have extent := sound.extent
  dsimp only at low
  rw [BuddyInside]
  cases bit : pfn.testBit order with
  | false =>
    rw [ulongSub_upper hole bit]
    simp only [Zone.span,Set.mem_Ico,true_and]
    omega
  | true =>
    have aligned : 2^order ∣ pfn := hole.aligned
    have below := xor_of_set aligned bit
    rw [ulongSub_lower hole bit]
    simp only [Zone.span,Set.mem_Ico,Bool.true_eq_false,false_and,iff_false]
    omega

/-- Merging the buddy away leaves the condition of the higher orders. -/
theorem mergesInside_join (sound : Sound z) (here : BuddyInside z pfn order)
    (listed : z.Free ⟨pfn + 2^order,order⟩) :
    MergesInside z pfn order ↔
      MergesInside (delPageFromFreeList z (pfn + 2^order) order) pfn (order + 1) := by
  constructor
  · intro inside k le lt free
    apply inside k (by omega) lt
    intro i low high
    by_cases first : i = order
    · subst i
      exact listed
    · exact (del_free_other sound listed (by omega)).1 (free i (by omega) high)
  · intro inside k le lt free
    by_cases first : k = order
    · subst k
      exact here
    · exact inside k (by omega) lt fun i low high =>
        (del_free_other sound listed (by omega)).2 (free i (by omega) high)

/-- Where the merge stops at once, only the first buddy counts. -/
theorem mergesInside_stop (low : order < MAX_ORDER - 1)
    (stops : ¬(pfn.testBit order = false ∧ z.Free ⟨pfn + 2^order,order⟩)) :
    MergesInside z pfn order ↔ BuddyInside z pfn order := by
  constructor
  · intro inside
    exact inside order (Nat.le_refl _) low fun i from_order below => by omega
  · intro here k le _ free
    by_cases first : k = order
    · subst k
      exact here
    · exact absurd ⟨here.1,free order (Nat.le_refl _) (by omega)⟩ stops

theorem mergeTouched_inside (rest : Nat) (sound : Sound z) (hole : Hole z ⟨pfn,order⟩)
    (counted : order + rest = MAX_ORDER - 1) :
    (∀ p ∈ mergeTouched rest z pfn pfn order, p ∈ z.span) ↔ MergesInside z pfn order := by
  induction rest generalizing z order with
  | zero =>
    refine iff_of_true (by simp [mergeTouched]) fun k le lt => ?_
    omega
  | succ rest ih =>
    have check := merge_check sound hole
    have first := buddy_mem_span sound hole
    by_cases merges : pfn.testBit order = false ∧ z.Free ⟨pfn + 2^order,order⟩
    · obtain ⟨clear,listed⟩ := merges
      have here : BuddyInside z pfn order := by
        refine ⟨clear,?_⟩
        exact (sound.inside _ listed (Block.base_mem _)).2
      have start := hole.inside (Block.base_mem ⟨pfn,order⟩)
      have later := ih (del_sound sound listed) (hole.join sound (by omega) clear listed) (by omega)
      rw [mergesInside_join sound here listed,← later,mergeTouched,if_pos (check.2 ⟨clear,listed⟩)]
      simp only [List.forall_mem_cons,first,here,true_and,del_span]
      simp only [combined_upper clear,ulongSub_upper hole clear,ulongSub_self,Nat.add_zero]
      exact and_iff_right start
    · rw [mergesInside_stop (by omega) merges,← first,mergeTouched,if_neg (by rw [check]; exact merges)]
      simp

/-- Freeing a block stays inside the zone exactly when, at every order its merge gets to,
the buddy is the upper one and begins before the end of the zone. -/
theorem freeOnePage_inside_iff (inv : Inv z) (hole : Hole z ⟨pfn,order⟩) :
    (∀ p ∈ freeOnePageTouched z pfn pfn order, p ∈ z.span) ↔ MergesInside z pfn order := by
  have bound : order < MAX_ORDER := hole.bound
  have start := hole.inside (Block.base_mem ⟨pfn,order⟩)
  rw [freeOnePageTouched,List.forall_mem_cons,and_iff_right start]
  exact mergeTouched_inside _ inv.toSound hole (by unfold MAX_ORDER at *; omega)

end

/-- Freeing the first frame of the new zone looks at its upper buddy and stops. -/
theorem freeOnePage_inside_iff_first : MergesInside newZone 0 0 ∧
    ∀ p ∈ freeOnePageTouched newZone 0 0 0, p ∈ newZone.span := by
  have inside : MergesInside newZone 0 0 := by
    intro k _ _ free
    by_cases first : k = 0
    · subst k
      exact ⟨by decide,by decide⟩
    · exact absurd (free 0 (Nat.le_refl _) (by omega)) (newZone_unlisted _)
  exact ⟨inside,(freeOnePage_inside_iff newZone_inv (newZone_hole (by decide) (by decide) (by decide))).2 inside⟩

/-- Freeing frame 1 of the new zone reads the page of frame `2^32`. -/
theorem lower_buddy_outside :
    ¬∀ (z : Zone) (pfn order : Nat), Inv z → Hole z ⟨pfn,order⟩ →
      ∀ p ∈ freeOnePageTouched z pfn pfn order, p ∈ z.span := by
  intro all
  have inside := all newZone 1 0 newZone_inv (newZone_hole (by decide) (by decide) (by decide))
    (2^32) (by decide)
  exact absurd inside.2 (by decide)

end Kernal.Buddy
