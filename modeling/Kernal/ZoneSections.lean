import Kernal.BuddyOwners
import Kernal.Critical

/-! The two sections under `zone->lock`: the search of `rmqueue` and the merging of `free_one_page`.
A step is one round of a loop, or the code between two loops; it counts no moved pages, which nobody reads. -/
namespace Kernal.Buddy

/-- The code from `spin_lock_irqsave` to `spin_unlock_irqrestore` in `rmqueue`, and from `spin_lock` to
`spin_unlock` in `free_one_page`. -/
inductive Section where
  | rmqueue (order migratetype : Nat)
  | freeOnePage (page order migratetype : Nat)
  deriving DecidableEq, Repr

/-- Where a section is, with the variables that are still read there. -/
inductive Work where
  /-- The loop of `__rmqueue_smallest`. -/
  | smallest (order migratetype currentOrder : Nat)
  /-- The loop of `__rmqueue_fallback`. -/
  | fallback (order startMigratetype currentOrder : Nat)
  /-- The call of `steal_suitable_fallback` for the page that was found. -/
  | steal (page order startMigratetype currentOrder : Nat)
  /-- The loop of `move_freepages`, at page `scan`. -/
  | move (scan endPage page order startMigratetype currentOrder : Nat)
  /-- The loop of `expand`. -/
  | expand (page low high size migratetype : Nat)
  /-- `set_freepage_migratetype`, and the page is returned. -/
  | label (page migratetype : Nat)
  /-- The loop of `__free_one_page`. -/
  | merge (page pfn order migratetype : Nat)
  /-- `done_merging`. -/
  | link (page order migratetype : Nat)
  | finished (page : Option Nat)
  /-- The search has run off the tables and does not come back. -/
  | lost
  deriving DecidableEq, Repr

namespace Work

variable (env : Platform)

def enter : Section → Work
  | .rmqueue order migratetype => .smallest order migratetype order
  | .freeOnePage page order migratetype => .merge page page order migratetype

def step (z : Zone) : Work → Zone × Work
  | .smallest order migratetype currentOrder =>
    if currentOrder < MAX_ORDER then
      match z.freeList currentOrder migratetype with
      | [] => (z, .smallest order migratetype (currentOrder + 1))
      | page :: _ =>
        (delPageFromFreeList z page currentOrder, .expand page order currentOrder (1 <<< currentOrder) migratetype)
    else (z, .fallback order migratetype (MAX_ORDER - 1))
  | .fallback order startMigratetype currentOrder =>
    if currentOrder < order then (z, .finished none)
    else match findSuitableFallback env z currentOrder startMigratetype with
      | none => (z, .lost)
      | some none =>
        (z, if currentOrder = 0 then .lost else .fallback order startMigratetype (currentOrder - 1))
      | some (some (fallbackMt, canSteal)) =>
        match z.freeList currentOrder fallbackMt with
        | [] => (z, .lost)
        | page :: _ => (delPageFromFreeList z page currentOrder,
            if canSteal then .steal page order startMigratetype currentOrder
            else .expand page order currentOrder (1 <<< currentOrder) startMigratetype)
  | .steal page order startMigratetype currentOrder =>
    let further : Work := .expand page order currentOrder (1 <<< currentOrder) startMigratetype
    if (z.page page).pagePrivate < env.pageblockOrder then (z, further)
    else
      let startPfn := (BitVec.ofNat 32 page &&& ~~~(BitVec.ofNat 32 (pageblockNrPages env) - 1)).toNat
      let endPage := startPfn + pageblockNrPages env - 1
      let startPage := if startPfn < z.zoneStartPfn then z.zoneStartPfn else startPfn
      (z, if env.zoneEndPfn z ≤ endPage then further
        else .move startPage endPage page order startMigratetype currentOrder)
  | .move scan endPage page order startMigratetype currentOrder =>
    if scan ≤ endPage then
      if env.pfnValidWithin scan = false then
        (z, .move (scan + 1) endPage page order startMigratetype currentOrder)
      else if (z.page scan).pageBuddy = false then
        (z, .move (scan + 1) endPage page order startMigratetype currentOrder)
      else
        let blockOrder := (z.page scan).pagePrivate
        (addPageToFreeList (delPageFromFreeList z scan blockOrder) scan blockOrder startMigratetype,
          .move (scan + 2^blockOrder) endPage page order startMigratetype currentOrder)
    else (z, .expand page order currentOrder (1 <<< currentOrder) startMigratetype)
  | .expand page low high size migratetype =>
    if low < high then
      let size := size >>> 1
      let z := addPageToFreeList z (page + size) (high - 1) migratetype
      (setPageGuard env z (page + size) (high - 1), .expand page low (high - 1) size migratetype)
    else (z, .label page migratetype)
  | .label page migratetype => (setFreepageMigratetype z page migratetype, .finished (some page))
  | .merge page pfn order migratetype =>
    if order < MAX_ORDER - 1 then
      let buddyPfn := findBuddyPfn pfn order
      let buddy := page + ulongSub buddyPfn pfn
      if pageIsBuddy z page buddy order then
        let combinedPfn := buddyPfn &&& pfn
        let combinedPage := page + ulongSub combinedPfn pfn
        (delPageFromFreeList z buddy order, .merge combinedPage combinedPfn (order + 1) migratetype)
      else (z, .link page order migratetype)
    else (z, .link page order migratetype)
  | .link page order migratetype =>
    (addPageToFreeList (setPageOrder z page order) page order migratetype, .finished none)
  | .finished page => (z, .finished page)
  | .lost => (z, .lost)

def result : Work → Option (Option Nat)
  | .finished page => some page
  | _ => none

/-- What the section makes of the zone from here on. -/
def rest (z : Zone) : Work → Option (Option Nat × Zone)
  | .smallest order migratetype currentOrder =>
    match rmqueueSmallestLoop env z order migratetype (MAX_ORDER - currentOrder) currentOrder with
    | (none, z) => rmqueueFallback env z order migratetype
    | (some page, z) => some (some page, z)
  | .fallback order startMigratetype currentOrder => rmqueueFallbackLoop env z order startMigratetype currentOrder
  | .steal page order startMigratetype currentOrder => some (some page,
      setFreepageMigratetype (Buddy.expand env (stealSuitableFallback env z page startMigratetype) page order currentOrder
        startMigratetype) page startMigratetype)
  | .move scan endPage page order startMigratetype currentOrder => some (some page,
      setFreepageMigratetype (Buddy.expand env (moveFreepagesLoop env endPage startMigratetype z scan 0).2 page order
        currentOrder startMigratetype) page startMigratetype)
  | .expand page low high size migratetype =>
    some (some page, setFreepageMigratetype (expandLoop env page low migratetype high size z) page migratetype)
  | .label page migratetype => some (some page, setFreepageMigratetype z page migratetype)
  | .merge page pfn order migratetype =>
    let (z, page, order) := mergeLoop (MAX_ORDER - 1 - order) z page pfn order
    some (none, addPageToFreeList (setPageOrder z page order) page order migratetype)
  | .link page order migratetype => some (none, addPageToFreeList (setPageOrder z page order) page order migratetype)
  | .finished page => some (page, z)
  | .lost => none

end Work

def Section.whole (env : Platform) (z : Zone) : Section → Option (Option Nat × Zone)
  | .rmqueue order migratetype => rmqueueSearch env z order migratetype
  | .freeOnePage page order migratetype => some (none, Buddy.freeOnePage z page page order migratetype)

namespace Work

theorem rest_enter (env : Platform) (z : Zone) (op : Section) : rest env z (enter op) = op.whole env z := by
  cases op with
  | rmqueue order migratetype => rfl
  | freeOnePage page order migratetype => rfl

/-- The count of moved pages is read by nobody. -/
theorem moveFreepagesLoop_zone (env : Platform) (endPage migratetype : Nat) (z : Zone) (page : Nat)
    (moved moved' : BitVec 32) :
    (moveFreepagesLoop env endPage migratetype z page moved).2 =
      (moveFreepagesLoop env endPage migratetype z page moved').2 := by
  induction z, page, moved using moveFreepagesLoop.induct env endPage migratetype generalizing moved' with
  | case1 z page moved le invalid ih =>
    unfold moveFreepagesLoop
    simp only [if_pos le,if_pos invalid]
    exact ih moved'
  | case2 z page moved le valid unlisted ih =>
    unfold moveFreepagesLoop
    simp only [if_pos le,if_neg valid,if_pos unlisted]
    exact ih moved'
  | case3 z page moved le valid listed order ih =>
    unfold moveFreepagesLoop
    simp only [if_pos le,if_neg valid,if_neg listed]
    exact ih _
  | case4 z page moved above =>
    unfold moveFreepagesLoop
    simp only [if_neg above]

/-- No step changes what the section comes to. -/
theorem rest_step (env : Platform) (z : Zone) (w : Work) :
    rest env (step env z w).1 (step env z w).2 = rest env z w := by
  cases w with
  | smallest order migratetype currentOrder =>
    by_cases more : currentOrder < MAX_ORDER
    · obtain ⟨n,count⟩ : ∃ n, MAX_ORDER - currentOrder = n + 1 := ⟨MAX_ORDER - currentOrder - 1,by omega⟩
      have next : MAX_ORDER - (currentOrder + 1) = n := by omega
      cases listed : z.freeList currentOrder migratetype with
      | nil => simp only [step,if_pos more,listed,rest,count,next,rmqueueSmallestLoop]
      | cons page tail => simp only [step,if_pos more,listed,rest,count,rmqueueSmallestLoop,Buddy.expand]
    · have count : MAX_ORDER - currentOrder = 0 := by omega
      simp only [step,if_neg more,rest,count,rmqueueSmallestLoop,rmqueueFallback]
  | fallback order startMigratetype currentOrder =>
    have unrolled : rest env z (.fallback order startMigratetype currentOrder) =
        fallbackAt env z order startMigratetype currentOrder
          (if currentOrder = 0 then none else rmqueueFallbackLoop env z order startMigratetype (currentOrder - 1)) := by
      cases currentOrder <;> rfl
    rw [unrolled]
    unfold fallbackAt
    by_cases below : currentOrder < order
    · simp only [step,if_pos below,rest]
    · simp only [step,if_neg below]
      cases findSuitableFallback env z currentOrder startMigratetype with
      | none => rfl
      | some found =>
        rcases found with _ | ⟨fallbackMt,canSteal⟩
        · dsimp only
          split <;> rfl
        · dsimp only
          cases z.freeList currentOrder fallbackMt with
          | nil => rfl
          | cons page tail => cases canSteal <;> rfl
  | steal page order startMigratetype currentOrder =>
    by_cases small : (z.page page).pagePrivate < env.pageblockOrder
    · simp only [step,if_pos small,rest,stealSuitableFallback,Buddy.expand]
    · simp only [step,if_neg small,rest,stealSuitableFallback,moveFreepagesBlock]
      by_cases outside : env.zoneEndPfn z ≤
          (BitVec.ofNat 32 page &&& ~~~(BitVec.ofNat 32 (pageblockNrPages env) - 1)).toNat + pageblockNrPages env - 1
      · simp only [if_pos outside,Buddy.expand]
      · simp only [if_neg outside,moveFreepages]
  | move scan endPage page order startMigratetype currentOrder =>
    simp only [rest]
    rw [moveFreepagesLoop]
    by_cases inside : scan ≤ endPage
    · by_cases invalid : env.pfnValidWithin scan = false
      · simp only [step,if_pos inside,if_pos invalid]
      · by_cases unlisted : (z.page scan).pageBuddy = false
        · simp only [step,if_pos inside,if_neg invalid,if_pos unlisted]
        · simp only [step,if_pos inside,if_neg invalid,if_neg unlisted]
          rw [moveFreepagesLoop_zone env endPage startMigratetype _ _ 0]
    · simp only [step,if_neg inside,Buddy.expand]
  | expand page low high size migratetype =>
    cases high with
    | zero => simp only [step,Nat.not_lt_zero,if_false,rest,expandLoop]
    | succ high =>
      by_cases more : low < high + 1
      · simp only [step,if_pos more,rest,expandLoop,Nat.add_sub_cancel]
      · simp only [step,if_neg more,rest,expandLoop]
  | merge page pfn order migratetype =>
    by_cases more : order < MAX_ORDER - 1
    · obtain ⟨n,count⟩ : ∃ n, MAX_ORDER - 1 - order = n + 1 := ⟨MAX_ORDER - 1 - order - 1,by omega⟩
      have next : MAX_ORDER - 1 - (order + 1) = n := by omega
      by_cases free : pageIsBuddy z page (page + ulongSub (findBuddyPfn pfn order) pfn) order = true
      · simp only [step,if_pos more,if_pos free,rest,count,next,mergeLoop]
      · simp only [step,if_pos more,if_neg free,rest,count,mergeLoop]
    · have count : MAX_ORDER - 1 - order = 0 := by omega
      simp only [step,if_neg more,rest,count,mergeLoop]
  | label | link | finished | lost => rfl

/-- An upper bound on the steps that are left. -/
def rank (env : Platform) : Work → Nat
  | .smallest _ _ currentOrder => (MAX_ORDER - currentOrder) + pageblockNrPages env + 2 * MAX_ORDER + 6
  | .fallback _ _ currentOrder => pageblockNrPages env + 2 * currentOrder + 6
  | .steal _ _ _ currentOrder => pageblockNrPages env + currentOrder + 5
  | .move scan endPage _ _ _ currentOrder => (endPage + 1 - scan) + currentOrder + 4
  | .expand _ _ high _ _ => high + 2
  | .label _ _ => 1
  | .merge _ _ order _ => (MAX_ORDER - order) + 2
  | .link _ _ _ => 1
  | .finished _ => 0
  | .lost => 0

theorem rank_step (env : Platform) (z : Zone) (w : Work) (unfinished : result w = none) (found : w ≠ .lost) :
    rank env (step env z w).2 < rank env w := by
  have top : MAX_ORDER = 11 := rfl
  have positive : 0 < pageblockNrPages env := by
    rw [pageblockNrPages,Nat.one_shiftLeft]
    exact Nat.two_pow_pos _
  cases w with
  | smallest order migratetype currentOrder =>
    by_cases more : currentOrder < MAX_ORDER
    · cases listed : z.freeList currentOrder migratetype <;>
        simp only [step,if_pos more,listed,rank] <;> omega
    · simp only [step,if_neg more,rank]
      omega
  | fallback order startMigratetype currentOrder =>
    by_cases below : currentOrder < order
    · simp only [step,if_pos below,rank]
      omega
    · simp only [step,if_neg below]
      cases findSuitableFallback env z currentOrder startMigratetype with
      | none => simp only [rank]; omega
      | some found =>
        rcases found with _ | ⟨fallbackMt,canSteal⟩
        · dsimp only
          split <;> simp only [rank] <;> omega
        · dsimp only
          cases z.freeList currentOrder fallbackMt with
          | nil => simp only [rank]; omega
          | cons page tail => cases canSteal <;> simp only [if_true,Bool.false_eq_true,if_false,rank] <;> omega
  | steal page order startMigratetype currentOrder =>
    by_cases small : (z.page page).pagePrivate < env.pageblockOrder
    · simp only [step,if_pos small,rank]
      omega
    · simp only [step,if_neg small]
      split
      · simp only [rank]
        omega
      · split <;> simp only [rank] <;> omega
  | move scan endPage page order startMigratetype currentOrder =>
    by_cases inside : scan ≤ endPage
    · by_cases invalid : env.pfnValidWithin scan = false
      · simp only [step,if_pos inside,if_pos invalid,rank]
        omega
      · by_cases unlisted : (z.page scan).pageBuddy = false
        · simp only [step,if_pos inside,if_neg invalid,if_pos unlisted,rank]
          omega
        · have further := Nat.two_pow_pos (z.page scan).pagePrivate
          simp only [step,if_pos inside,if_neg invalid,if_neg unlisted,rank]
          omega
    · simp only [step,if_neg inside,rank]
      omega
  | expand page low high size migratetype =>
    by_cases more : low < high
    · simp only [step,if_pos more,rank]
      omega
    · simp only [step,if_neg more,rank]
      omega
  | merge page pfn order migratetype =>
    by_cases more : order < MAX_ORDER - 1
    · simp only [step,if_pos more]
      split <;> simp only [rank] <;> omega
    · simp only [step,if_neg more,rank]
      omega
  | label | link => exact Nat.one_pos
  | finished => cases unfinished
  | lost => exact absurd rfl found

end Work

end Kernal.Buddy
