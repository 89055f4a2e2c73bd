import Kernal.BuddyTake

/-! Which block an allocation splits. `__rmqueue_smallest` goes up the orders and stops at
the first list of the type that holds a block; `__rmqueue_fallback` comes down from the
top and stops at the first order where one of the fallback types does. Both then take the
first block of the list and put all but its low end on the lists of the type asked for. -/
namespace Kernal.Buddy

open Blocks

/-- `__rmqueue_smallest`, and `__rmqueue_fallback` where that finds nothing. -/
def rmqueueSearch (env : Platform) (z : Zone) (order migratetype : Nat) : Option (Option Nat × Zone) :=
  match rmqueueSmallest env z order migratetype with
  | (none, z) => rmqueueFallback env z order migratetype
  | (some page, z) => some (some page, z)

/-- The types a row of `fallbacks` lists before its end mark. -/
def fallbackTypes (migratetype : Nat) : List Nat :=
  (fallbacks.getD migratetype []).takeWhile (· ≠ MIGRATE_TYPES)

def firstFallback (z : Zone) (migratetype order : Nat) : Option Nat :=
  (fallbackTypes migratetype).find? fun t => !(z.freeList order t).isEmpty

/-- The zone once the block at `page` is taken off its list and split down to `order`. -/
def splitBlock (env : Platform) (z : Zone) (page order high migratetype : Nat) : Zone :=
  setFreepageMigratetype (expand env (delPageFromFreeList z page high) page order high migratetype)
    page migratetype

section Split

variable {z : Zone} {page order high migratetype : Nat}

/-- Splitting puts one piece on the list of each order it passes. -/
theorem expandLoop_freeList (env : Platform) (page low migratetype high : Nat) (z : Zone) (o m : Nat) :
    (expandLoop env page low migratetype high (2^high) z).freeList o m =
      if m = migratetype ∧ low ≤ o ∧ o < high then (page + 2^o) :: z.freeList o m
      else z.freeList o m := by
  induction high generalizing z with
  | zero => simp [expandLoop]
  | succ high ih =>
    by_cases more : low < high + 1
    · rw [expandLoop_succ env z page migratetype more,ih,(listPiece_agree env z page high migratetype).freeList]
      by_cases here : o = high ∧ m = migratetype
      · obtain ⟨rfl,rfl⟩ := here
        rw [add_freeList_same,if_neg (by omega),if_pos (by omega)]
      · rw [add_freeList_other (by tauto)]
        by_cases piece : m = migratetype ∧ low ≤ o ∧ o < high
        · rw [if_pos piece,if_pos (by omega)]
        · rw [if_neg piece,if_neg (by omega)]
    · rw [if_neg (by omega)]
      simp only [expandLoop,if_neg more]

theorem splitBlock_freeList (env : Platform) (z : Zone) (page order high migratetype o m : Nat) :
    (splitBlock env z page order high migratetype).freeList o m =
      if m = migratetype ∧ order ≤ o ∧ o < high then (page + 2^o) :: (z.freeList o m).erase page
      else (z.freeList o m).erase page := by
  change (expandLoop env page order migratetype high (1 <<< high) _).freeList o m = _
  rw [Nat.one_shiftLeft,expandLoop_freeList,del_freeList]

/-- Its upper halves take the place of the block. -/
theorem splitBlock_free (env : Platform) (order : Nat) (inv : Inv z) (listed : z.Free ⟨page,high⟩)
    (valid : migratetype < MIGRATE_TYPES) :
    (splitBlock env z page order high migratetype).Free b ↔
      z.Free b ∧ b ≠ ⟨page,high⟩ ∨ ∃ i, order ≤ i ∧ i < high ∧ b = ⟨page + 2^i,i⟩ := by
  have marked := setFreepageMigratetype_agree
    (expand env (delPageFromFreeList z page high) page order high migratetype) page migratetype
  have pieces := (expandLoop_inv env order high (del_inv inv listed) (del_hole inv.toSound listed) valid).2.2 b
  rw [← Nat.one_shiftLeft high,del_free inv.toSound listed] at pieces
  exact marked.free.trans pieces

/-- Beyond its low end a block is made up of the upper halves it is split into. -/
theorem frames_pieces (inside : f ∈ (⟨page,high⟩ : Block).frames)
    (beyond : f ∉ (⟨page,order⟩ : Block).frames) :
    ∃ i, order ≤ i ∧ i < high ∧ f ∈ (⟨page + 2^i,i⟩ : Block).frames := by
  rw [Block.mem_frames] at inside beyond
  have far : 2^order ≤ f - page := by dsimp only at inside beyond; omega
  have positive : f - page ≠ 0 := by have := Nat.two_pow_pos order; omega
  have low := Nat.log2_self_le positive
  have high' : f - page < 2^((f - page).log2 + 1) := Nat.lt_log2_self
  refine ⟨(f - page).log2,(Nat.le_log2 positive).2 far,?_,?_⟩
  · apply (Nat.log2_lt positive).2
    dsimp only at inside
    omega
  · rw [Block.mem_frames]
    rw [Nat.pow_succ] at high'
    dsimp only at inside ⊢
    omega

end Split

section Steal

variable {z : Zone} {page : Nat}

/-- A page without `PageBuddy` is all there is to move. -/
theorem moveFreepagesLoop_single (env : Platform) (migratetype : Nat) (moved : BitVec 32)
    (unlisted : (z.page page).pageBuddy = false) :
    (moveFreepagesLoop env page migratetype z page moved).2 = z := by
  have done : moveFreepagesLoop env page migratetype z (page + 1) moved = (moved,z) := by
    rw [moveFreepagesLoop,if_neg (by omega)]
  rw [moveFreepagesLoop,if_pos (Nat.le_refl page)]
  rw [if_pos unlisted,done,ite_self]

/-- With pageblocks of one page the block starts at the page. -/
theorem pageblock_start {env : Platform} (single : env.pageblockOrder = 0) (bound : page < 2^32) :
    (BitVec.ofNat 32 page &&& ~~~(BitVec.ofNat 32 (pageblockNrPages env) - 1)).toNat = page := by
  have mask : ~~~(BitVec.ofNat 32 (pageblockNrPages env) - 1) = BitVec.allOnes 32 := by
    rw [pageblockNrPages,single]
    rfl
  rw [mask,BitVec.and_allOnes,BitVec.toNat_ofNat]
  exact Nat.mod_eq_of_lt bound

/-- The order of the page was cleared when it was taken off its list, so stealing moves
nothing. -/
theorem stealSuitableFallback_unlisted (env : Platform) (migratetype : Nat) (inside : page ∈ z.span)
    (extent : z.zoneEndPfn ≤ 2^32) (unlisted : (z.page page).pageBuddy = false)
    (cleared : (z.page page).pagePrivate = 0) : stealSuitableFallback env z page migratetype = z := by
  unfold stealSuitableFallback
  split
  · rfl
  next whole =>
    obtain ⟨low,high⟩ := inside
    have single : env.pageblockOrder = 0 := by omega
    have start := pageblock_start single (Nat.lt_of_lt_of_le high extent)
    simp only [moveFreepagesBlock,start]
    simp only [pageblockNrPages,single,Nat.shiftLeft_zero,Nat.add_sub_cancel,env.zoneEndPfn_eq]
    rw [if_neg (by omega),if_neg (by omega)]
    exact moveFreepagesLoop_single env migratetype 0 unlisted

theorem stealSuitableFallback_taken (env : Platform) (sound : Sound z) (listed : z.Free ⟨page,c⟩)
    (migratetype : Nat) : stealSuitableFallback env (delPageFromFreeList z page c) page migratetype =
      delPageFromFreeList z page c := by
  apply stealSuitableFallback_unlisted
  · exact sound.inside _ listed (Block.base_mem _)
  · exact sound.extent
  · simp [delPageFromFreeList,Zone.setPage]
  · simp [delPageFromFreeList,Zone.setPage]

end Steal

section Search

variable {z : Zone} {order migratetype : Nat}

def HasBlock (z : Zone) (order migratetype o : Nat) : Prop :=
  order ≤ o ∧ o < MAX_ORDER ∧ z.freeList o migratetype ≠ []

/-- The block of order `c` on a list of type `t` is the one to split: the smallest of the
type itself, else the largest of the first fallback type that has one. -/
def Source (z : Zone) (order migratetype c t : Nat) : Prop :=
  (t = migratetype ∧ HasBlock z order migratetype c ∧ ∀ o < c, ¬HasBlock z order migratetype o) ∨
  ((∀ o, ¬HasBlock z order migratetype o) ∧ order ≤ c ∧ c < MAX_ORDER ∧
    firstFallback z migratetype c = some t ∧
    ∀ o, c < o → o < MAX_ORDER → ∀ f ∈ fallbackTypes migratetype, z.freeList o f = [])

theorem rmqueueSmallestLoop_spec (env : Platform) (rest currentOrder : Nat)
    (counted : currentOrder + rest = MAX_ORDER ∨ rest = 0 ∧ MAX_ORDER ≤ currentOrder)
    (from_order : order ≤ currentOrder) (below : ∀ o < currentOrder, ¬HasBlock z order migratetype o) :
    ((∀ o, ¬HasBlock z order migratetype o) ∧
      rmqueueSmallestLoop env z order migratetype rest currentOrder = (none,z)) ∨
    ∃ c page tail, HasBlock z order migratetype c ∧ (∀ o < c, ¬HasBlock z order migratetype o) ∧
      z.freeList c migratetype = page :: tail ∧
      rmqueueSmallestLoop env z order migratetype rest currentOrder =
        (some page,splitBlock env z page order c migratetype) := by
  induction rest generalizing currentOrder with
  | zero =>
    refine .inl ⟨fun o has => ?_,rfl⟩
    have bound := has.2.1
    exact below o (by omega) has
  | succ rest ih =>
    simp only [rmqueueSmallestLoop]
    split
    next empty =>
      refine ih (currentOrder + 1) (by omega) (by omega) fun o lt has => ?_
      by_cases last : o = currentOrder
      · subst last
        exact has.2.2 empty
      · exact below o (by omega) has
    next page tail sequence =>
      exact .inr ⟨currentOrder,page,tail,⟨from_order,by omega,by simp [sequence]⟩,below,sequence,rfl⟩

theorem rmqueueSmallest_spec (env : Platform) (z : Zone) (order migratetype : Nat) :
    ((∀ o, ¬HasBlock z order migratetype o) ∧ rmqueueSmallest env z order migratetype = (none,z)) ∨
    ∃ c page tail, HasBlock z order migratetype c ∧ (∀ o < c, ¬HasBlock z order migratetype o) ∧
      z.freeList c migratetype = page :: tail ∧
      rmqueueSmallest env z order migratetype = (some page,splitBlock env z page order c migratetype) := by
  apply rmqueueSmallestLoop_spec env
  · omega
  · exact Nat.le_refl order
  · intro o lt has
    exact Nat.not_le_of_lt lt has.1

/-- The walk along a row stops at the first type with a block; without one it needs the end
mark. -/
theorem fallbackRow_eq (env : Platform) (z : Zone) (order migratetype : Nat) (row : List Nat) :
    fallbackRow env z order migratetype row =
      match (row.takeWhile (· ≠ MIGRATE_TYPES)).find? fun t => !(z.freeList order t).isEmpty with
      | some t => some (some (t, canStealFallback env order migratetype))
      | none => if MIGRATE_TYPES ∈ row then some none else none := by
  induction row with
  | nil => rfl
  | cons head row ih =>
    unfold fallbackRow
    by_cases last : head = MIGRATE_TYPES
    · simp [last]
    · rw [if_neg last,ih]
      have later : MIGRATE_TYPES ∈ head :: row ↔ MIGRATE_TYPES ∈ row := by
        simp [Ne.symm last]
      by_cases empty : (z.freeList order head).isEmpty = true
      · simp [last,empty,later]
      · simp [last,empty]

theorem fallbackTypes_valid (member : t ∈ fallbackTypes migratetype) : t < MIGRATE_TYPES := by
  have table : ∀ row ∈ fallbacks, ∀ t ∈ row.takeWhile (· ≠ MIGRATE_TYPES), t < MIGRATE_TYPES := by decide
  unfold fallbackTypes at member
  cases here : fallbacks[migratetype]? with
  | none => simp [List.getD,here] at member
  | some row =>
    rw [List.getD,here] at member
    exact table row (List.mem_of_getElem? here) t member

theorem firstFallback_none :
    firstFallback z migratetype o = none ↔ ∀ t ∈ fallbackTypes migratetype, z.freeList o t = [] := by
  simp [firstFallback]

theorem firstFallback_some (found : firstFallback z migratetype o = some t) :
    t ∈ fallbackTypes migratetype ∧ z.freeList o t ≠ [] := by
  have held := List.find?_some found
  exact ⟨List.mem_of_find?_eq_some found,by simpa using held⟩

/-- With no block of the order there is none of any type. -/
theorem Sound.nrFree_zero (sound : Sound z) (bound : o < MAX_ORDER) (none : z.nrFree o = 0)
    (valid : t < MIGRATE_TYPES) : z.freeList o t = [] := by
  have total := sound.nrFree o bound
  rw [none] at total
  have zero := Finset.sum_eq_zero_iff.1 total.symm t (Finset.mem_range.2 valid)
  exact List.length_eq_zero_iff.1 zero

/-- No fallback type has a block of the order, and `find_suitable_fallback` says so. -/
def Passes (z : Zone) (migratetype o : Nat) : Prop :=
  firstFallback z migratetype o = none ∧
    (z.nrFree o = 0 ∨ MIGRATE_TYPES ∈ fallbacks.getD migratetype [])

theorem findSuitableFallback_found (env : Platform) (sound : Sound z) (bound : o < MAX_ORDER)
    (found : firstFallback z migratetype o = some t) :
    findSuitableFallback env z o migratetype = some (some (t,canStealFallback env o migratetype)) := by
  unfold findSuitableFallback
  rw [if_neg,fallbackRow_eq,← fallbackTypes,← firstFallback,found]
  intro none
  obtain ⟨member,held⟩ := firstFallback_some found
  exact held (sound.nrFree_zero bound none (fallbackTypes_valid member))

theorem findSuitableFallback_none (env : Platform) (empty : firstFallback z migratetype o = none) :
    findSuitableFallback env z o migratetype =
      if z.nrFree o = 0 ∨ MIGRATE_TYPES ∈ fallbacks.getD migratetype [] then some none else none := by
  unfold findSuitableFallback
  by_cases none : z.nrFree o = 0
  · simp [none]
  · rw [if_neg none,fallbackRow_eq,← fallbackTypes,← firstFallback,empty]
    simp [none]

/-- One order of the search of `__rmqueue_fallback`: it is below `order`, or no fallback
type has a block and the search goes on or runs off the row, or a block is split. -/
theorem fallbackAt_spec (env : Platform) (sound : Sound z) (bound : c < MAX_ORDER)
    (order migratetype : Nat) (further : Option (Option Nat × Zone)) :
    (c < order ∧ fallbackAt env z order migratetype c further = some (none,z)) ∨
    (order ≤ c ∧ Passes z migratetype c ∧ fallbackAt env z order migratetype c further = further) ∨
    (order ≤ c ∧ firstFallback z migratetype c = none ∧ ¬Passes z migratetype c ∧
      fallbackAt env z order migratetype c further = none) ∨
    ∃ t page tail, order ≤ c ∧ firstFallback z migratetype c = some t ∧ z.freeList c t = page :: tail ∧
      fallbackAt env z order migratetype c further =
        some (some page,splitBlock env z page order c migratetype) := by
  unfold fallbackAt
  split
  next low => exact .inl ⟨low,rfl⟩
  next enough =>
    refine .inr ?_
    cases found : firstFallback z migratetype c with
    | none =>
      rw [findSuitableFallback_none env found]
      by_cases passes : z.nrFree c = 0 ∨ MIGRATE_TYPES ∈ fallbacks.getD migratetype []
      · rw [if_pos passes]
        exact .inl ⟨by omega,⟨found,passes⟩,rfl⟩
      · rw [if_neg passes]
        exact .inr (.inl ⟨by omega,rfl,fun pass => passes pass.2,rfl⟩)
    | some t =>
      obtain ⟨member,held⟩ := firstFallback_some found
      obtain ⟨page,tail,sequence⟩ := List.exists_cons_of_ne_nil held
      have listed : z.Free ⟨page,c⟩ := ⟨bound,t,fallbackTypes_valid member,by simp [sequence]⟩
      have stolen := stealSuitableFallback_taken env sound listed migratetype
      refine .inr (.inr ⟨t,page,tail,by omega,rfl,sequence,?_⟩)
      rw [findSuitableFallback_found env sound bound found]
      simp only [sequence,stolen,ite_self]
      rfl

/-- How the search from order `k` down ends: below `order`, off a row, or with a block. -/
inductive FallbackEnds (env : Platform) (z : Zone) (order migratetype k : Nat) :
    Option (Option Nat × Zone) → Prop where
  | exhausted {result : Option (Option Nat × Zone)} : (∀ o, order ≤ o → o ≤ k → Passes z migratetype o) →
      result = (if order = 0 then none else some (none, z)) → FallbackEnds env z order migratetype k result
  | overrun {c : Nat} : order ≤ c → c ≤ k → firstFallback z migratetype c = none →
      ¬Passes z migratetype c → (∀ o, c < o → o ≤ k → Passes z migratetype o) →
      FallbackEnds env z order migratetype k none
  | found {c t page : Nat} {tail : List Nat} : order ≤ c → c ≤ k →
      firstFallback z migratetype c = some t → (∀ o, c < o → o ≤ k → Passes z migratetype o) →
      z.freeList c t = page :: tail →
      FallbackEnds env z order migratetype k (some (some page, splitBlock env z page order c migratetype))

/-- One order more that is passed by does not change the end. -/
theorem FallbackEnds.succ {result : Option (Option Nat × Zone)}
    (ends : FallbackEnds env z order migratetype k result) (passes : Passes z migratetype (k + 1)) :
    FallbackEnds env z order migratetype (k + 1) result := by
  have all {low : Nat} (below : ∀ o, low ≤ o → o ≤ k → Passes z migratetype o) (o : Nat)
      (from_low : low ≤ o) (le : o ≤ k + 1) : Passes z migratetype o := by
    by_cases last : o = k + 1
    · exact last ▸ passes
    · exact below o from_low (by omega)
  cases ends with
  | exhausted below ends => exact .exhausted (all below) ends
  | overrun enough le empty stuck above =>
    exact .overrun enough (by omega) empty stuck (all above)
  | found enough le found above sequence =>
    exact .found enough (by omega) found (all above) sequence

theorem rmqueueFallbackLoop_spec (env : Platform) (sound : Sound z) (order migratetype k : Nat)
    (bound : k < MAX_ORDER) :
    FallbackEnds env z order migratetype k (rmqueueFallbackLoop env z order migratetype k) := by
  have below (k : Nat) (low : k < order) : FallbackEnds env z order migratetype k (some (none,z)) :=
    .exhausted (by omega) (if_neg (by omega)).symm
  induction k with
  | zero =>
    rcases fallbackAt_spec env sound bound order migratetype none with
      ⟨low,at_⟩ | ⟨enough,passes,at_⟩ | ⟨enough,empty,stuck,at_⟩ | ⟨t,page,tail,enough,found,sequence,at_⟩
    all_goals rw [rmqueueFallbackLoop,at_]
    · exact below 0 low
    · refine .exhausted (fun o _ le => ?_) (if_pos (by omega)).symm
      exact Nat.le_zero.1 le ▸ passes
    · exact .overrun enough (Nat.le_refl 0) empty stuck (by omega)
    · exact .found enough (Nat.le_refl 0) found (by omega) sequence
  | succ k ih =>
    rcases fallbackAt_spec env sound bound order migratetype (rmqueueFallbackLoop env z order migratetype k) with
      ⟨low,at_⟩ | ⟨enough,passes,at_⟩ | ⟨enough,empty,stuck,at_⟩ | ⟨t,page,tail,enough,found,sequence,at_⟩
    all_goals rw [rmqueueFallbackLoop,at_]
    · exact below (k + 1) low
    · exact (ih (by omega)).succ passes
    · exact .overrun enough (Nat.le_refl _) empty stuck (by omega)
    · exact .found enough (Nat.le_refl _) found (by omega) sequence

/-- Either the type has a block itself, and the smallest is split, or the fallback search
decides. -/
theorem rmqueueSearch_spec (env : Platform) (sound : Sound z) (order migratetype : Nat) :
    (∃ c page tail, HasBlock z order migratetype c ∧ (∀ o < c, ¬HasBlock z order migratetype o) ∧
      z.freeList c migratetype = page :: tail ∧
      rmqueueSearch env z order migratetype = some (some page,splitBlock env z page order c migratetype)) ∨
    (∀ o, ¬HasBlock z order migratetype o) ∧
      FallbackEnds env z order migratetype (MAX_ORDER - 1) (rmqueueSearch env z order migratetype) := by
  rcases rmqueueSmallest_spec env z order migratetype with
    ⟨lacking,first⟩ | ⟨c,page,tail,has,least,sequence,first⟩
  · right
    rw [rmqueueSearch,first]
    exact ⟨lacking,rmqueueFallbackLoop_spec env sound order migratetype (MAX_ORDER - 1) (by decide)⟩
  · left
    rw [rmqueueSearch,first]
    exact ⟨c,page,tail,has,least,sequence,rfl⟩

/-- A page that is returned heads the block to split. -/
theorem rmqueueSearch_page (env : Platform) (sound : Sound z)
    (returns : rmqueueSearch env z order migratetype = some (some page,z')) :
    ∃ c t tail, Source z order migratetype c t ∧ z.freeList c t = page :: tail ∧
      z' = splitBlock env z page order c migratetype := by
  rcases rmqueueSearch_spec env sound order migratetype with
    ⟨c,head,tail,has,least,sequence,result⟩ | ⟨lacking,ends⟩
  · rw [result] at returns
    cases returns
    exact ⟨c,migratetype,tail,.inl ⟨rfl,has,least⟩,sequence,rfl⟩
  · rw [returns] at ends
    cases ends with
    | exhausted _ same => split at same <;> cases same
    | @found c t _ tail enough le found above sequence =>
      refine ⟨c,t,tail,.inr ⟨lacking,enough,Nat.lt_of_le_of_lt le (by decide),found,?_⟩,sequence,rfl⟩
      intro o above_c bound
      exact firstFallback_none.1 (above o above_c (by omega)).1

/-- Where `NULL` is returned there was no block to split. -/
theorem rmqueueSearch_null (env : Platform) (sound : Sound z)
    (returns : rmqueueSearch env z order migratetype = some (none,z')) :
    z' = z ∧ ∀ c t, ¬Source z order migratetype c t := by
  rcases rmqueueSearch_spec env sound order migratetype with
    ⟨c,head,tail,has,least,sequence,result⟩ | ⟨lacking,ends⟩
  · rw [result] at returns
    cases returns
  · rw [returns] at ends
    cases ends with
    | exhausted passes same =>
      split at same <;> cases same
      refine ⟨rfl,?_⟩
      rintro c t (⟨-,has,-⟩ | ⟨-,enough,bound,found,-⟩)
      · exact lacking c has
      · rw [(passes c enough (by omega)).1] at found
        cases found

/-- Only one block is the one to split. -/
theorem Source.unique (source : Source z order migratetype c t) (other : Source z order migratetype c' t') :
    c' = c ∧ t' = t := by
  rcases source with ⟨rfl,has,least⟩ | ⟨lacking,enough,bound,found,above⟩ <;>
    rcases other with ⟨rfl,has',least'⟩ | ⟨lacking',enough',bound',found',above'⟩
  · refine ⟨Nat.le_antisymm ?_ ?_,rfl⟩
    · exact Nat.le_of_not_lt fun lt => least' c lt has
    · exact Nat.le_of_not_lt fun lt => least c' lt has'
  · exact absurd has (lacking' c)
  · exact absurd has' (lacking c')
  · have same : c' = c := by
      obtain ⟨member,held⟩ := firstFallback_some found
      obtain ⟨member',held'⟩ := firstFallback_some found'
      apply Nat.le_antisymm
      · exact Nat.le_of_not_lt fun lt => held' (above c' lt bound' t' member')
      · exact Nat.le_of_not_lt fun lt => held (above' c lt bound t member)
    subst same
    rw [found] at found'
    exact ⟨rfl,(Option.some.inj found').symm⟩

/-- `rmqueue` prepares and counts the block that the search has found. -/
theorem rmqueue_page (returns : rmqueue env z order migratetype = some (some page,z')) :
    ∃ taken, rmqueueSearch env z order migratetype = some (some page,taken) ∧
      z' = { prepNewPage taken page order with
        nrFreePages := (prepNewPage taken page order).nrFreePages - 2^order } := by
  obtain ⟨⟨result,taken⟩,found,eq⟩ := Option.map_eq_some_iff.1
    (show (rmqueueSearch env z order migratetype).map _ = _ from returns)
  cases result with
  | none => simp at eq
  | some first =>
    simp only [Prod.mk.injEq,Option.some.injEq] at eq
    obtain ⟨rfl,rfl⟩ := eq
    exact ⟨taken,found,rfl⟩

theorem rmqueue_null (returns : rmqueue env z order migratetype = some (none,z')) :
    rmqueueSearch env z order migratetype = some (none,z') := by
  obtain ⟨⟨result,taken⟩,found,eq⟩ := Option.map_eq_some_iff.1
    (show (rmqueueSearch env z order migratetype).map _ = _ from returns)
  cases result with
  | none =>
    simp only [Prod.mk.injEq,true_and] at eq
    exact eq ▸ found
  | some first => simp at eq

/-- A list of the type or of one of its fallback types holds a block of enough pages. -/
def Available (z : Zone) (order migratetype : Nat) : Prop :=
  ∃ o, order ≤ o ∧ o < MAX_ORDER ∧ ∃ t ∈ migratetype :: fallbackTypes migratetype, z.freeList o t ≠ []

theorem Source.listed (source : Source z order migratetype c t) :
    order ≤ c ∧ c < MAX_ORDER ∧ t ∈ migratetype :: fallbackTypes migratetype ∧ z.freeList c t ≠ [] := by
  rcases source with ⟨rfl,⟨enough,bound,held⟩,-⟩ | ⟨-,enough,bound,found,-⟩
  · exact ⟨enough,bound,List.mem_cons_self,held⟩
  · obtain ⟨member,held⟩ := firstFallback_some found
    exact ⟨enough,bound,List.mem_cons_of_mem _ member,held⟩

theorem Source.type (source : Source z order migratetype c t) (valid : migratetype < MIGRATE_TYPES) :
    t < MIGRATE_TYPES := by
  rcases List.mem_cons.1 source.listed.2.2.1 with rfl | fallback
  · exact valid
  · exact fallbackTypes_valid fallback

theorem Source.free (source : Source z order migratetype c t) (valid : migratetype < MIGRATE_TYPES)
    (sequence : z.freeList c t = page :: tail) : z.Free ⟨page,c⟩ :=
  ⟨source.listed.2.1,t,source.type valid,by simp [sequence]⟩

/-- A page that `rmqueue` returns was taken, prepared and counted. -/
theorem rmqueue_taken (env : Platform) (inv : Inv z) (valid : migratetype < MIGRATE_TYPES)
    (returns : rmqueue env z order migratetype = some (some page,z')) :
    ∃ taken, Taken z page order migratetype taken ∧
      z' = { prepNewPage taken page order with
        nrFreePages := (prepNewPage taken page order).nrFreePages - 2^order } := by
  obtain ⟨taken,found,rfl⟩ := rmqueue_page returns
  obtain ⟨c,t,tail,source,sequence,rfl⟩ := rmqueueSearch_page env inv.toSound found
  exact ⟨_,split_taken env inv (source.free valid sequence) source.listed.1 valid,rfl⟩

/-- Where blocks are available, one of them is the one to split. -/
theorem Available.source (available : Available z order migratetype) :
    ∃ c t, Source z order migratetype c t := by
  classical
  by_cases own : ∃ o, HasBlock z order migratetype o
  · exact ⟨Nat.find own,migratetype,.inl ⟨rfl,Nat.find_spec own,fun o lt => Nat.find_min own lt⟩⟩
  · have lacking := not_exists.1 own
    obtain ⟨o,enough,bound,t,member,held⟩ := available
    -- The largest such order is the least distance from the top.
    have some_order : ∃ d, ∃ o, o + d = MAX_ORDER - 1 ∧ order ≤ o ∧ firstFallback z migratetype o ≠ none := by
      refine ⟨MAX_ORDER - 1 - o,o,by omega,enough,fun empty => ?_⟩
      rcases List.mem_cons.1 member with rfl | fallback
      · exact lacking o ⟨enough,bound,held⟩
      · exact held (firstFallback_none.1 empty t fallback)
    obtain ⟨c,top,enough',found⟩ := Nat.find_spec some_order
    obtain ⟨t,found⟩ := Option.ne_none_iff_exists'.1 found
    refine ⟨c,t,.inr ⟨lacking,enough',?_,found,?_⟩⟩
    · have : 0 < MAX_ORDER := by decide
      omega
    · intro o above bound'
      apply firstFallback_none.1
      by_contra listed
      exact Nat.find_min some_order (m := MAX_ORDER - 1 - o) (by omega) ⟨o,by omega,by omega,listed⟩

structure TakesBlock (z : Zone) (order migratetype page : Nat) (z' : Zone) : Prop where
  aligned : 2^order ∣ page
  cover : cover z'.freeBlocks = cover z.freeBlocks \ (⟨page,order⟩ : Block).frames
  split : ∃ c t tail, Source z order migratetype c t ∧ z.freeList c t = page :: tail ∧
    ∀ o < MAX_ORDER, ∀ m < MIGRATE_TYPES, z'.freeList o m =
      if o = c ∧ m = t then tail
      else if m = migratetype ∧ order ≤ o ∧ o < c then (page + 2^o) :: z.freeList o m
      else z.freeList o m

theorem splitBlock_takes (env : Platform) (inv : Inv z) (valid : migratetype < MIGRATE_TYPES)
    (source : Source z order migratetype c t) (sequence : z.freeList c t = page :: tail) :
    TakesBlock z order migratetype page (splitBlock env z page order c migratetype) := by
  obtain ⟨enough,bound,-,-⟩ := source.listed
  have type := source.type valid
  have here : page ∈ z.freeList c t := by simp [sequence]
  have listed := source.free valid sequence
  have taken : Taken z page order migratetype (splitBlock env z page order c migratetype) :=
    split_taken env inv listed enough valid
  have splits (b : Block) := splitBlock_free env order inv listed valid (b := b)
  refine ⟨taken.hole.aligned,?_,c,t,tail,source,sequence,?_⟩
  · apply Set.Subset.antisymm
    · intro f inside
      refine ⟨taken.rest inside,fun within => ?_⟩
      obtain ⟨b,free,member⟩ := mem_cover.1 inside
      exact taken.hole.apart b free f within member
    · rintro f ⟨inside,beyond⟩
      obtain ⟨b,free,member⟩ := mem_cover.1 inside
      by_cases same : b = ⟨page,c⟩
      · subst same
        obtain ⟨i,low,high,within⟩ := frames_pieces member beyond
        exact mem_cover.2 ⟨_,(splits _).2 (.inr ⟨i,low,high,rfl⟩),within⟩
      · exact mem_cover.2 ⟨b,(splits b).2 (.inl ⟨free,same⟩),member⟩
  · intro o ho m hm
    rw [splitBlock_freeList]
    by_cases same : o = c ∧ m = t
    · obtain ⟨rfl,rfl⟩ := same
      rw [if_neg (by omega)]
      simp [sequence]
    · have absent : page ∉ z.freeList o m := by
        intro other
        exact same (inv.single o ho m hm c bound t type page other here)
      rw [List.erase_of_not_mem absent,if_neg same]

/-- What an allocation of one of the three ordinary types takes, what it leaves alone, and
when it succeeds. -/
theorem rmqueueSearch_takes (env : Platform) (inv : Inv z) (ordinary : migratetype < MIGRATE_PCPTYPES) :
    (∀ page z', rmqueueSearch env z order migratetype = some (some page,z') →
      TakesBlock z order migratetype page z') ∧
    (∀ z', rmqueueSearch env z order migratetype = some (none,z') → z' = z) ∧
    ((∃ page z', rmqueueSearch env z order migratetype = some (some page,z')) ↔
      Available z order migratetype) := by
  have table : ∀ m < MIGRATE_PCPTYPES, MIGRATE_TYPES ∈ fallbacks.getD m [] := by decide
  have valid : migratetype < MIGRATE_TYPES := Nat.lt_trans ordinary (by decide)
  have sound := inv.toSound
  refine ⟨?_,fun z' returns => (rmqueueSearch_null env sound returns).1,?_,?_⟩
  · intro page z' returns
    obtain ⟨c,t,tail,source,sequence,rfl⟩ := rmqueueSearch_page env sound returns
    exact splitBlock_takes env inv valid source sequence
  · rintro ⟨page,z',returns⟩
    obtain ⟨c,t,tail,source,-,-⟩ := rmqueueSearch_page env sound returns
    obtain ⟨enough,bound,member,held⟩ := source.listed
    exact ⟨c,enough,bound,t,member,held⟩
  · intro available
    obtain ⟨c,t,source⟩ := available.source
    rcases rmqueueSearch_spec env sound order migratetype with
      ⟨c,page,tail,has,least,sequence,result⟩ | ⟨lacking,ends⟩
    · exact ⟨page,_,result⟩
    · generalize rmqueueSearch env z order migratetype = result at ends
      cases ends with
      | exhausted passes _ =>
        rcases source with ⟨-,has,-⟩ | ⟨-,enough,bound,found,-⟩
        · exact absurd has (lacking c)
        · rw [(passes c enough (by omega)).1] at found
          cases found
      | overrun _ _ empty stuck _ => exact absurd ⟨empty,.inr (table migratetype ordinary)⟩ stuck
      | found _ _ _ _ _ => exact ⟨_,_,rfl⟩

example : (List.range MIGRATE_PCPTYPES).map fallbackTypes =
    [[MIGRATE_RECLAIMABLE, MIGRATE_MOVABLE], [MIGRATE_RECLAIMABLE, MIGRATE_UNMOVABLE],
      [MIGRATE_UNMOVABLE, MIGRATE_MOVABLE]] := by decide

/-- The only free frame is movable, and an unmovable request gets it. -/
theorem rmqueueSearch_takes_fallback : ∃ z',
    rmqueueSearch bootPlatform oneFreed 0 MIGRATE_UNMOVABLE = some (some 0,z') ∧
    TakesBlock oneFreed 0 MIGRATE_UNMOVABLE 0 z' := by
  obtain ⟨z',returns⟩ : ∃ z', rmqueueSearch bootPlatform oneFreed 0 MIGRATE_UNMOVABLE = some (some 0,z') :=
    ⟨_,rfl⟩
  exact ⟨z',returns,(rmqueueSearch_takes bootPlatform oneFreed_inv (by decide)).1 0 z' returns⟩

end Search

end Kernal.Buddy
