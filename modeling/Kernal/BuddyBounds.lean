import Kernal.BuddySearch

/-! `rmqueue` with every array index checked. Orders are the 32-bit `unsigned int` of the
source, loops take a number of rounds they may use up, and an index outside
`zone->free_area` or outside a row of `fallbacks` ends the run in a fault. -/
namespace Kernal.Buddy

open Blocks

abbrev Uint := BitVec 32

inductive Fault where
  /-- An index into `zone->free_area`. -/
  | area (index : Nat)
  /-- An index into a row of `fallbacks`. -/
  | row (index : Nat)
  /-- The first entry of an empty list. -/
  | noEntry
  /-- The rounds are used up and the loop still runs. -/
  | running
  deriving DecidableEq, Repr

def areaIndex (index : Nat) : Except Fault Unit :=
  if index < MAX_ORDER then .ok () else .error (.area index)

section Checked

variable (env : Platform)

def expandLoopChecked (page low migratetype : Nat) : Nat → Nat → Zone → Except Fault Zone
  | 0, _, z => .ok z
  | high + 1, size, z =>
    if low < high + 1 then do
      areaIndex high
      let size := size >>> 1
      let z := addPageToFreeList z (page + size) high migratetype
      expandLoopChecked page low migratetype high size (setPageGuard env z (page + size) high)
    else .ok z

def moveFreepagesLoopChecked (endPage migratetype : Nat) (z : Zone) (page : Nat) (pagesMoved : BitVec 32) :
    Except Fault (BitVec 32 × Zone) :=
  if page ≤ endPage then
    if env.pfnValidWithin page = false then
      moveFreepagesLoopChecked endPage migratetype z (page + 1) pagesMoved
    else if (z.page page).pageBuddy = false then
      moveFreepagesLoopChecked endPage migratetype z (page + 1) pagesMoved
    else do
      let order := (z.page page).pagePrivate
      areaIndex order
      moveFreepagesLoopChecked endPage migratetype
        (addPageToFreeList (delPageFromFreeList z page order) page order migratetype)
        (page + 2^order) (pagesMoved + BitVec.ofNat 32 (2^order))
  else .ok (pagesMoved, z)
termination_by endPage + 1 - page
decreasing_by
  · omega
  · omega
  · have positive := Nat.two_pow_pos (z.page page).pagePrivate
    omega

def moveFreepagesBlockChecked (z : Zone) (page migratetype : Nat) : Except Fault (BitVec 32 × Zone) :=
  let startPfn := (BitVec.ofNat 32 page &&& ~~~(BitVec.ofNat 32 (pageblockNrPages env) - 1)).toNat
  let endPage := startPfn + pageblockNrPages env - 1
  let startPage := if startPfn < z.zoneStartPfn then z.zoneStartPfn else startPfn
  if env.zoneEndPfn z ≤ endPage then .ok (0, z)
  else moveFreepagesLoopChecked env endPage migratetype z startPage 0

def stealSuitableFallbackChecked (z : Zone) (page startType : Nat) : Except Fault Zone :=
  if (z.page page).pagePrivate < env.pageblockOrder then .ok z
  else do
    areaIndex (z.page page).pagePrivate
    let (_, z) ← moveFreepagesBlockChecked env z page startType
    return z

/-- Both searches end with this once they have found a block. -/
def takeChecked (z : Zone) (page order currentOrder migratetype : Nat) (canSteal : Bool) :
    Except Fault (Option Nat × Zone) := do
  areaIndex currentOrder
  let z := delPageFromFreeList z page currentOrder
  let z ← if canSteal then stealSuitableFallbackChecked env z page migratetype else .ok z
  let z ← expandLoopChecked env page order migratetype currentOrder (1 <<< currentOrder) z
  return (some page, setFreepageMigratetype z page migratetype)

/-- `for (current_order = order; current_order < MAX_ORDER; current_order++)`. -/
def rmqueueSmallestChecked (z : Zone) (order : Uint) (migratetype : Nat) :
    Nat → Uint → Except Fault (Option Nat × Zone)
  | 0, _ => .error .running
  | rounds + 1, currentOrder =>
    if currentOrder.toNat < MAX_ORDER then do
      areaIndex currentOrder.toNat
      match z.freeList currentOrder.toNat migratetype with
      | [] => rmqueueSmallestChecked z order migratetype rounds (currentOrder + 1)
      | page :: _ => takeChecked env z page order.toNat currentOrder.toNat migratetype false
    else .ok (none, z)

/-- `fallbacks[migratetype][i]` from the index on that `row` starts with. -/
def fallbackRowChecked (z : Zone) (order migratetype : Nat) :
    List Nat → Nat → Except Fault (Option (Nat × Bool))
  | [], index => .error (.row index)
  | fallbackMt :: row, index =>
    if fallbackMt = MIGRATE_TYPES then .ok none
    else if (z.freeList order fallbackMt).isEmpty then
      fallbackRowChecked z order migratetype row (index + 1)
    else .ok (some (fallbackMt, canStealFallback env order migratetype))

def findSuitableFallbackChecked (z : Zone) (order migratetype : Nat) :
    Except Fault (Option (Nat × Bool)) :=
  if z.nrFree order = 0 then .ok none
  else fallbackRowChecked env z order migratetype (fallbacks.getD migratetype []) 0

/-- `for (current_order = MAX_ORDER - 1; current_order >= order; current_order--)`. -/
def rmqueueFallbackChecked (z : Zone) (order : Uint) (startMigratetype : Nat) :
    Nat → Uint → Except Fault (Option Nat × Zone)
  | 0, _ => .error .running
  | rounds + 1, currentOrder =>
    if order ≤ currentOrder then do
      areaIndex currentOrder.toNat
      match ← findSuitableFallbackChecked env z currentOrder.toNat startMigratetype with
      | none => rmqueueFallbackChecked z order startMigratetype rounds (currentOrder - 1)
      | some (fallbackMt, canSteal) =>
        match z.freeList currentOrder.toNat fallbackMt with
        | [] => .error .noEntry
        | page :: _ => takeChecked env z page order.toNat currentOrder.toNat startMigratetype canSteal
    else .ok (none, z)

/-- `rmqueue` with at most `rounds` rounds in each search. -/
def rmqueueChecked (z : Zone) (order : Uint) (migratetype rounds : Nat) :
    Except Fault (Option Nat × Zone) := do
  let (first, z) ← rmqueueSmallestChecked env z order migratetype rounds order
  let (page, z) ← match first with
    | none => rmqueueFallbackChecked env z order migratetype rounds (BitVec.ofNat 32 (MAX_ORDER - 1))
    | some page => .ok (some page, z)
  match page with
  | none => return (none, z)
  | some page =>
    let z := prepNewPage z page order.toNat
    return (some page, { z with nrFreePages := z.nrFreePages - 2^order.toNat })

def Finishes (z : Zone) (order : Uint) (migratetype : Nat) : Prop :=
  ∃ rounds result, rmqueueChecked env z order migratetype rounds = .ok result

end Checked

theorem areaIndex_ok (bound : index < MAX_ORDER) : areaIndex index = .ok () := if_pos bound

section Agreement

variable {env : Platform} {z : Zone} {page migratetype : Nat}

theorem expandLoopChecked_ok (low : Nat) {high : Nat} (bound : high ≤ MAX_ORDER) (size : Nat) (z : Zone) :
    expandLoopChecked env page low migratetype high size z =
      .ok (expandLoop env page low migratetype high size z) := by
  induction high generalizing size z with
  | zero => rfl
  | succ high ih =>
    unfold expandLoopChecked expandLoop
    split
    · rw [areaIndex_ok (by omega)]
      exact ih (by omega) _ _
    · rfl

theorem moveFreepagesLoopChecked_single (migratetype : Nat) (moved : BitVec 32)
    (unlisted : (z.page page).pageBuddy = false) :
    moveFreepagesLoopChecked env page migratetype z page moved = .ok (moved,z) := by
  have done : moveFreepagesLoopChecked env page migratetype z (page + 1) moved = .ok (moved,z) := by
    rw [moveFreepagesLoopChecked,if_neg (by omega)]
  rw [moveFreepagesLoopChecked,if_pos (Nat.le_refl page),if_pos unlisted,done,ite_self]

theorem stealSuitableFallbackChecked_unlisted (migratetype : Nat) (inside : page ∈ z.span)
    (extent : z.zoneEndPfn ≤ 2^32) (unlisted : (z.page page).pageBuddy = false)
    (cleared : (z.page page).pagePrivate = 0) :
    stealSuitableFallbackChecked env z page migratetype = .ok z := by
  unfold stealSuitableFallbackChecked
  split
  · rfl
  next whole =>
    obtain ⟨low,high⟩ := inside
    have single : env.pageblockOrder = 0 := by omega
    have start := pageblock_start single (Nat.lt_of_lt_of_le high extent)
    have block : moveFreepagesBlockChecked env z page migratetype = .ok (0,z) := by
      simp only [moveFreepagesBlockChecked,start]
      simp only [pageblockNrPages,single,Nat.shiftLeft_zero,Nat.add_sub_cancel,env.zoneEndPfn_eq]
      rw [if_neg (by omega),if_neg (by omega)]
      exact moveFreepagesLoopChecked_single migratetype 0 unlisted
    rw [cleared,areaIndex_ok (by decide),block]
    rfl

/-- Taking a listed block uses no index out of bounds and splits it. -/
theorem takeChecked_ok (sound : Sound z) (listed : z.Free ⟨page,c⟩) (order : Nat) (canSteal : Bool) :
    takeChecked env z page order c migratetype canSteal =
      .ok (some page,splitBlock env z page order c migratetype) := by
  have bound : c < MAX_ORDER := listed.1
  have stolen : stealSuitableFallbackChecked env (delPageFromFreeList z page c) page migratetype =
      .ok (delPageFromFreeList z page c) := by
    apply stealSuitableFallbackChecked_unlisted
    · exact sound.inside _ listed (Block.base_mem _)
    · exact sound.extent
    · simp [delPageFromFreeList,Zone.setPage]
    · simp [delPageFromFreeList,Zone.setPage]
  unfold takeChecked
  cases canSteal <;>
    simp only [bind,Except.bind,areaIndex_ok bound,stolen,expandLoopChecked_ok order (Nat.le_of_lt bound)] <;> rfl

theorem rmqueueSmallestChecked_ok (sound : Sound z) (valid : migratetype < MIGRATE_TYPES) (order : Uint)
    (rounds : Nat) (currentOrder : Uint) (enough : MAX_ORDER - currentOrder.toNat < rounds) :
    rmqueueSmallestChecked env z order migratetype rounds currentOrder =
      .ok (rmqueueSmallestLoop env z order.toNat migratetype (MAX_ORDER - currentOrder.toNat)
        currentOrder.toNat) := by
  induction rounds generalizing currentOrder with
  | zero => omega
  | succ rounds ih =>
    unfold rmqueueSmallestChecked
    split
    next bound =>
      have small : currentOrder.toNat < 11 := bound
      have next : (currentOrder + 1).toNat = currentOrder.toNat + 1 := by bv_omega
      rw [areaIndex_ok bound,show MAX_ORDER - currentOrder.toNat =
        MAX_ORDER - (currentOrder + 1).toNat + 1 by omega,rmqueueSmallestLoop]
      cases sequence : z.freeList currentOrder.toNat migratetype with
      | nil =>
        rw [← next]
        exact ih (currentOrder + 1) (by omega)
      | cons page tail =>
        exact takeChecked_ok sound ⟨bound,migratetype,valid,by simp [sequence]⟩ order.toNat false
    next past =>
      rw [show MAX_ORDER - currentOrder.toNat = 0 by omega]
      rfl

theorem fallbackRowChecked_toOption (order : Nat) (row : List Nat) (index : Nat) :
    (fallbackRowChecked env z order migratetype row index).toOption =
      fallbackRow env z order migratetype row := by
  induction row generalizing index with
  | nil => rfl
  | cons head row ih =>
    unfold fallbackRowChecked fallbackRow
    split
    · rfl
    · split
      · exact ih (index + 1)
      · rfl

theorem findSuitableFallbackChecked_toOption (env : Platform) (z : Zone) (migratetype order : Nat) :
    (findSuitableFallbackChecked env z order migratetype).toOption =
      findSuitableFallback env z order migratetype := by
  unfold findSuitableFallbackChecked findSuitableFallback
  split
  · rfl
  · exact fallbackRowChecked_toOption order _ 0

/-- One round of the fallback search is one order of it. -/
theorem rmqueueFallbackChecked_succ (sound : Sound z) (order : Uint) (rounds : Nat) (currentOrder : Uint)
    (bound : currentOrder.toNat < MAX_ORDER) :
    (rmqueueFallbackChecked env z order migratetype (rounds + 1) currentOrder).toOption =
      fallbackAt env z order.toNat migratetype currentOrder.toNat
        (rmqueueFallbackChecked env z order migratetype rounds (currentOrder - 1)).toOption := by
  have searched := findSuitableFallbackChecked_toOption env z migratetype currentOrder.toNat
  rw [rmqueueFallbackChecked,fallbackAt]
  by_cases low : currentOrder.toNat < order.toNat
  · rw [if_neg (by rw [BitVec.le_def]; omega),if_pos low]
    rfl
  · rw [if_pos (by rw [BitVec.le_def]; omega),if_neg low,areaIndex_ok bound,← searched]
    cases found : findSuitableFallbackChecked env z currentOrder.toNat migratetype with
    | error fault => rfl
    | ok result =>
      cases result with
      | none => rfl
      | some choice =>
        obtain ⟨t,canSteal⟩ := choice
        have type : t < MIGRATE_TYPES := by
          rw [found] at searched
          exact findSuitableFallback_valid env searched.symm
        cases sequence : z.freeList currentOrder.toNat t with
        | nil => simp [bind,Except.bind,Except.toOption,sequence]
        | cons page tail =>
          have listed : z.Free ⟨page,currentOrder.toNat⟩ := ⟨bound,t,type,by simp [sequence]⟩
          have stolen := stealSuitableFallback_taken env sound listed migratetype
          simp only [bind,Except.bind,sequence,takeChecked_ok sound listed order.toNat canSteal,
            Except.toOption,stolen,ite_self]
          rfl

/-- Enough rounds give the result of the search, or a fault where it has none. -/
theorem rmqueueFallbackChecked_toOption (env : Platform) (sound : Sound z) (order : Uint) (migratetype k rounds : Nat)
    (currentOrder : Uint) (here : currentOrder.toNat = k) (bound : k < MAX_ORDER) (enough : k + 1 < rounds) :
    (rmqueueFallbackChecked env z order migratetype rounds currentOrder).toOption =
      rmqueueFallbackLoop env z order.toNat migratetype k := by
  obtain ⟨rounds,rfl⟩ : ∃ n, rounds = n + 1 := ⟨rounds - 1,by omega⟩
  induction k generalizing rounds currentOrder with
  | zero =>
    rw [rmqueueFallbackChecked_succ sound order rounds currentOrder (by omega),here,rmqueueFallbackLoop]
    -- The order below zero is `2^32 - 1`, and its index is out of bounds.
    obtain ⟨rounds,rfl⟩ : ∃ n, rounds = n + 1 := ⟨rounds - 1,by omega⟩
    have wraps : (currentOrder - 1).toNat = 2^32 - 1 := by bv_omega
    have far : areaIndex (currentOrder - 1).toNat = .error (.area (2^32 - 1)) := by
      rw [wraps]
      rfl
    by_cases low : 0 < order.toNat
    · rw [fallbackAt,fallbackAt,if_pos low,if_pos low]
    · rw [rmqueueFallbackChecked,if_pos (by rw [BitVec.le_def]; omega),far]
      rfl
  | succ k ih =>
    have next : (currentOrder - 1).toNat = k := by bv_omega
    obtain ⟨rounds,rfl⟩ : ∃ n, rounds = n + 1 := ⟨rounds - 1,by omega⟩
    rw [rmqueueFallbackChecked_succ sound order _ currentOrder (by omega),here,rmqueueFallbackLoop,
      ih (currentOrder - 1) next (by omega) rounds (by omega)]

/-- More rounds do not change a result. -/
theorem rmqueueSmallestChecked_mono (order : Uint) (rounds : Nat) (currentOrder : Uint)
    (returns : rmqueueSmallestChecked env z order migratetype rounds currentOrder = .ok result) :
    rmqueueSmallestChecked env z order migratetype (rounds + 1) currentOrder = .ok result := by
  induction rounds generalizing currentOrder with
  | zero => cases returns
  | succ rounds ih =>
    rw [rmqueueSmallestChecked] at returns ⊢
    split at returns
    next bound =>
      rw [if_pos bound]
      rw [areaIndex_ok bound] at returns ⊢
      cases sequence : z.freeList currentOrder.toNat migratetype with
      | nil =>
        rw [sequence] at returns
        exact ih (currentOrder + 1) returns
      | cons page tail =>
        rw [sequence] at returns
        exact returns
    next past =>
      rw [if_neg past]
      exact returns

theorem rmqueueFallbackChecked_mono (order : Uint) (rounds : Nat) (currentOrder : Uint)
    (returns : rmqueueFallbackChecked env z order migratetype rounds currentOrder = .ok result) :
    rmqueueFallbackChecked env z order migratetype (rounds + 1) currentOrder = .ok result := by
  induction rounds generalizing currentOrder with
  | zero => cases returns
  | succ rounds ih =>
    rw [rmqueueFallbackChecked] at returns ⊢
    split at returns
    next more =>
      rw [if_pos more]
      cases index : areaIndex currentOrder.toNat with
      | error fault =>
        rw [index] at returns
        cases returns
      | ok _ =>
        rw [index] at returns
        cases found : findSuitableFallbackChecked env z currentOrder.toNat migratetype with
        | error fault =>
          rw [found] at returns
          cases returns
        | ok choice =>
          rw [found] at returns
          cases choice with
          | none => exact ih (currentOrder - 1) returns
          | some choice => exact returns
    next below =>
      rw [if_neg below]
      exact returns

theorem rmqueueChecked_mono (order : Uint) (rounds : Nat)
    (returns : rmqueueChecked env z order migratetype rounds = .ok result) :
    rmqueueChecked env z order migratetype (rounds + 1) = .ok result := by
  unfold rmqueueChecked at returns ⊢
  cases smallest : rmqueueSmallestChecked env z order migratetype rounds order with
  | error fault =>
    rw [smallest] at returns
    cases returns
  | ok first =>
    rw [smallest] at returns
    rw [rmqueueSmallestChecked_mono order rounds order smallest]
    obtain ⟨page,z₁⟩ := first
    cases page with
    | some page => exact returns
    | none =>
      cases fallback : rmqueueFallbackChecked env z₁ order migratetype rounds (BitVec.ofNat 32 (MAX_ORDER - 1)) with
      | error fault =>
        simp only [bind,Except.bind,fallback] at returns
        cases returns
      | ok second =>
        simp only [bind,Except.bind,fallback] at returns ⊢
        rw [rmqueueFallbackChecked_mono order rounds _ fallback]
        exact returns

/-- With enough rounds the checked call returns what `rmqueue` does. -/
theorem rmqueueChecked_toOption (env : Platform) (sound : Sound z) (valid : migratetype < MIGRATE_TYPES) (order : Uint)
    (rounds : Nat) (enough : MAX_ORDER < rounds) :
    (rmqueueChecked env z order migratetype rounds).toOption = rmqueue env z order.toNat migratetype := by
  unfold rmqueueChecked rmqueue
  rw [rmqueueSmallestChecked_ok sound valid order rounds order (by omega),rmqueueSmallest]
  rcases rmqueueSmallest_spec env z order.toNat migratetype with
    ⟨-,first⟩ | ⟨c,page,tail,-,-,-,first⟩
  · rw [rmqueueSmallest] at first
    rw [first]
    have second := rmqueueFallbackChecked_toOption env sound order migratetype (MAX_ORDER - 1) rounds
      (BitVec.ofNat 32 (MAX_ORDER - 1)) rfl (by decide) (by unfold MAX_ORDER at *; omega)
    simp only [bind,Except.bind,rmqueueFallback]
    rw [← second]
    cases rmqueueFallbackChecked env z order migratetype rounds (BitVec.ofNat 32 (MAX_ORDER - 1)) with
    | error fault => rfl
    | ok result =>
      obtain ⟨page,z'⟩ := result
      cases page <;> rfl
  · rw [rmqueueSmallest] at first
    rw [first]
    rfl

theorem finishes_iff_returns (sound : Sound z) (valid : migratetype < MIGRATE_TYPES) (order : Uint) :
    Finishes env z order migratetype ↔ ∃ result, rmqueue env z order.toNat migratetype = some result := by
  constructor
  · rintro ⟨rounds,result,returns⟩
    have more (n : Nat) : rmqueueChecked env z order migratetype (rounds + n) = .ok result := by
      induction n with
      | zero => exact returns
      | succ n ih => exact rmqueueChecked_mono order _ ih
    have agree := rmqueueChecked_toOption env sound valid order (rounds + (MAX_ORDER + 1)) (by omega)
    rw [more] at agree
    exact ⟨result,agree.symm⟩
  · rintro ⟨result,returns⟩
    have agree := rmqueueChecked_toOption env sound valid order (MAX_ORDER + 1) (by omega)
    rw [returns] at agree
    cases checked : rmqueueChecked env z order migratetype (MAX_ORDER + 1) with
    | error fault =>
      rw [checked] at agree
      cases agree
    | ok result => exact ⟨_,_,checked⟩

end Agreement

/-- The type has a block itself; or going down from the top, all orders are passed by until
one of its fallback types has a block; or all orders are passed by and the search may stop
below `order`. -/
def SearchEnds (z : Zone) (order migratetype : Nat) : Prop :=
  (∃ o, HasBlock z order migratetype o) ∨
  (∃ c, order ≤ c ∧ c < MAX_ORDER ∧ firstFallback z migratetype c ≠ none ∧
    ∀ o, c < o → o < MAX_ORDER → Passes z migratetype o) ∨
  (0 < order ∧ ∀ o, order ≤ o → o < MAX_ORDER → Passes z migratetype o)

theorem rmqueueSearch_ends_iff (env : Platform) (sound : Sound z) (order migratetype : Nat) :
    (∃ result, rmqueueSearch env z order migratetype = some result) ↔ SearchEnds z order migratetype := by
  rcases rmqueueSearch_spec env sound order migratetype with
    ⟨c,page,tail,has,-,-,result⟩ | ⟨lacking,ends⟩
  · exact iff_of_true ⟨_,result⟩ (.inl ⟨c,has⟩)
  · generalize rmqueueSearch env z order migratetype = result at ends
    cases ends with
    | exhausted passes same =>
      subst same
      by_cases zero : order = 0
      · rw [if_pos zero]
        apply iff_of_false (by simp)
        rintro (⟨o,has⟩ | ⟨c,enough,bound,listed,-⟩ | ⟨positive,-⟩)
        · exact lacking o has
        · exact listed (passes c enough (by omega)).1
        · omega
      · rw [if_neg zero]
        refine iff_of_true ⟨_,rfl⟩ (.inr (.inr ⟨by omega,fun o enough bound => ?_⟩))
        exact passes o enough (by omega)
    | @overrun c enough le empty stuck above =>
      have bound : c < MAX_ORDER := Nat.lt_of_le_of_lt le (by decide)
      apply iff_of_false (by simp)
      rintro (⟨o,has⟩ | ⟨c',enough',bound',listed,above'⟩ | ⟨-,passes⟩)
      · exact lacking o has
      · rcases Nat.lt_trichotomy c' c with less | same | more
        · exact stuck (above' c less bound)
        · exact listed (same ▸ empty)
        · exact listed (above c' more (by omega)).1
      · exact stuck (passes c enough bound)
    | @found c t page tail enough le found above sequence =>
      refine iff_of_true ⟨_,rfl⟩ (.inr (.inl ⟨c,enough,Nat.lt_of_le_of_lt le (by decide),?_,?_⟩))
      · simp [found]
      · exact fun o above_c bound => above o above_c (by omega)

/-- `rmqueue` finishes with all indices in bounds exactly when one of its searches ends. -/
theorem rmqueue_finishes_iff (env : Platform) (inv : Inv z) (order : Uint)
    (valid : migratetype < MIGRATE_TYPES) :
    Finishes env z order migratetype ↔ SearchEnds z order.toNat migratetype := by
  rw [finishes_iff_returns inv.toSound valid,← rmqueueSearch_ends_iff env inv.toSound]
  change (∃ result, (rmqueueSearch env z order.toNat migratetype).map _ = some result) ↔ _
  simp only [Option.map_eq_some_iff]
  constructor
  · rintro ⟨_,result,returns,-⟩
    exact ⟨result,returns⟩
  · rintro ⟨result,returns⟩
    exact ⟨_,result,returns,rfl⟩

theorem rmqueue_finishes_iff_one : Finishes bootPlatform oneFreed 0 MIGRATE_MOVABLE := by
  apply (rmqueue_finishes_iff bootPlatform oneFreed_inv 0 (by decide)).2
  exact .inl ⟨0,Nat.le_refl 0,by decide,List.cons_ne_nil _ _⟩

/-- In an empty zone a request for one page counts past order zero. -/
theorem empty_zone_overruns :
    ¬∀ (env : Platform) (z : Zone) (order : Uint) (migratetype : Nat), Inv z →
      migratetype < MIGRATE_TYPES → Finishes env z order migratetype := by
  intro all
  have finishes := all bootPlatform newZone 0 MIGRATE_UNMOVABLE newZone_inv (by decide)
  obtain ⟨result,returns⟩ := (finishes_iff_returns newZone_inv.toSound (by decide) 0).1 finishes
  have none : rmqueue bootPlatform newZone (0 : Uint).toNat MIGRATE_UNMOVABLE = none := rfl
  rw [none] at returns
  cases returns

end Kernal.Buddy
