import Kernal.BuddyInvariant

/-! Allocation keeps the invariant: what `__rmqueue_smallest` and `__rmqueue_fallback`
take off a list is split only into upper halves, whose buddies stay inside the part
that is not listed again. Moving blocks between lists changes no block at all. -/
namespace Kernal.Buddy

open Blocks

/-- An aligned block of the zone that no free block overlaps: what may be freed, and
what is left behind when a block is taken off its list. -/
structure Hole (z : Zone) (b : Block) : Prop where
  aligned : b.Aligned
  bound : b.order < MAX_ORDER
  inside : b.frames ⊆ z.span
  apart : z.Allocated b

theorem Hole.base_not_free {z : Zone} (hole : Hole z b) (inside : p ∈ b.frames) : ¬z.Free ⟨p,o⟩ :=
  fun free => hole.apart _ free p inside (Block.base_mem ⟨p,o⟩)

/-- Aligned blocks inside a hole are holes. -/
theorem Hole.sub {z : Zone} (hole : Hole z b) (aligned : c.Aligned) (subset : c.frames ⊆ b.frames) :
    Hole z c where
  aligned := aligned
  bound := Nat.lt_of_le_of_lt (Block.order_le_of_subset subset) hole.bound
  inside := subset.trans hole.inside
  apart d free f fc := hole.apart d free f (subset fc)

structure SameFree (z z' : Zone) : Prop where
  free : ∀ b, z'.Free b ↔ z.Free b
  span : z'.span = z.span

theorem SameFree.refl (z : Zone) : SameFree z z := ⟨fun _ => Iff.rfl,rfl⟩

theorem SameFree.trans (first : SameFree z z') (second : SameFree z' z'') : SameFree z z'' :=
  ⟨fun b => (second.free b).trans (first.free b),second.span.trans first.span⟩

theorem SameFree.inv (same : SameFree z z') (sound : Sound z') (inv : Inv z) : Inv z' where
  toSound := sound
  joined b free low buddy :=
    inv.joined b ((same.free b).mp free) low ((same.free b.buddy).mp buddy)

theorem SameFree.hole (same : SameFree z z') (hole : Hole z b) : Hole z' b where
  aligned := hole.aligned
  bound := hole.bound
  inside := same.span ▸ hole.inside
  apart c free := hole.apart c ((same.free c).mp free)

theorem Agree.sameFree (agree : Agree z z') : SameFree z z' where
  free _ := agree.free
  span := by simp only [Zone.span,Zone.zoneEndPfn,agree.span]

theorem Agree.inv (agree : Agree z z') (inv : Inv z) : Inv z' :=
  agree.sameFree.inv (agree.sound inv.toSound) inv

theorem setFreepageMigratetype_agree (z : Zone) (page migratetype : Nat) :
    Agree z (setFreepageMigratetype z page migratetype) := by
  refine ⟨rfl,rfl,rfl,⟨rfl,rfl⟩,?_⟩
  intro p
  by_cases same : p = page <;> simp [setFreepageMigratetype,Zone.setPage,same]

/-- The guard mark repeats the order that the listing has just recorded. -/
theorem setPageGuard_agree (env : Platform) (z : Zone) (page order : Nat)
    (recorded : (z.page page).pagePrivate = order) : Agree z (setPageGuard env z page order) := by
  unfold setPageGuard
  split
  · refine ⟨rfl,rfl,rfl,⟨rfl,rfl⟩,?_⟩
    intro p
    by_cases same : p = page <;> simp [Zone.setPage,same,recorded]
  · exact ⟨rfl,rfl,rfl,⟨rfl,rfl⟩,fun _ => ⟨rfl,rfl,fun _ => rfl⟩⟩

section

variable {z : Zone} {page order migratetype : Nat}

theorem del_inv (inv : Inv z) (listed : z.Free ⟨page,order⟩) :
    Inv (delPageFromFreeList z page order) where
  toSound := del_sound inv.toSound listed
  joined b free low buddy :=
    inv.joined b ((del_free inv.toSound listed).mp free).1 low
      ((del_free inv.toSound listed).mp buddy).1

theorem del_hole (sound : Sound z) (listed : z.Free ⟨page,order⟩) :
    Hole (delPageFromFreeList z page order) ⟨page,order⟩ where
  aligned := (sound.head _ listed).1
  bound := listed.1
  inside := sound.inside _ listed
  apart c free f inside inside' := by
    obtain ⟨old,different⟩ := (del_free sound listed).mp free
    exact different (sound.disjoint c old _ listed f inside' inside)

theorem Hole.add_sound (hole : Hole z ⟨page,order⟩) (sound : Sound z)
    (valid : migratetype < MIGRATE_TYPES) : Sound (addPageToFreeList z page order migratetype) :=
  Buddy.add_sound sound hole.bound valid hole.aligned hole.inside hole.apart

theorem Hole.add_inv (hole : Hole z ⟨page,order⟩) (inv : Inv z)
    (valid : migratetype < MIGRATE_TYPES)
    (lone : order < MAX_ORDER - 1 → ¬z.Free (Block.buddy ⟨page,order⟩)) :
    Inv (addPageToFreeList z page order migratetype) where
  toSound := hole.add_sound inv.toSound valid
  joined b free low buddy := by
    rw [add_free hole.bound valid] at free buddy
    have involution (c : Block) : c.buddy.buddy = c := by simp [Block.buddy]
    rcases free with rfl | free <;> rcases buddy with same | buddy
    · have eq : page ^^^ 2^order = page := congrArg Block.base same
      have zero : 2^order = 0 := by
        rw [← Nat.zero_xor (2^order),← Nat.xor_self page,Nat.xor_assoc,eq,Nat.xor_self]
      exact absurd zero (Nat.two_pow_pos order).ne'
    · exact lone low buddy
    · have mirrored : b = Block.buddy ⟨page,order⟩ := by rw [← same,involution]
      exact lone (by rw [mirrored] at low; exact low) (mirrored ▸ free)
    · exact inv.joined b free low buddy

/-- Either half of a hole is a hole. -/
theorem Hole.halves (hole : Hole z ⟨page,high+1⟩) :
    page.testBit high = false ∧ Hole z ⟨page,high⟩ ∧ Hole z ⟨page + 2^high,high⟩ := by
  have fits : 2^high ∣ page := Nat.dvd_trans (Nat.pow_dvd_pow 2 (Nat.le_succ high)) hole.aligned
  have clear : page.testBit high = false := (dvd_succ_iff fits).mp hole.aligned
  have upper : page ^^^ 2^high = page + 2^high := xor_of_clear fits clear
  have split := Block.frames_succ page high
  exact ⟨clear,hole.sub fits (split ▸ Set.subset_union_left),
    hole.sub (upper ▸ dvd_xor fits) (split ▸ Set.subset_union_right)⟩

/-- One round of `expand`: the upper half of the block is listed and marked. -/
def listPiece (env : Platform) (z : Zone) (page high migratetype : Nat) : Zone :=
  setPageGuard env (addPageToFreeList z (page + 2^high) high migratetype) (page + 2^high) high

theorem expandLoop_succ (env : Platform) (z : Zone) (page migratetype : Nat) {low high : Nat}
    (more : low < high + 1) :
    expandLoop env page low migratetype (high + 1) (2^(high + 1)) z =
      expandLoop env page low migratetype high (2^high) (listPiece env z page high migratetype) := by
  have half : 2^(high+1) >>> 1 = 2^high := by
    rw [Nat.shiftRight_eq_div_pow,Nat.pow_succ]; simp
  simp only [expandLoop,if_pos more,half]
  rfl

theorem listPiece_agree (env : Platform) (z : Zone) (page high migratetype : Nat) :
    Agree (addPageToFreeList z (page + 2^high) high migratetype) (listPiece env z page high migratetype) :=
  setPageGuard_agree env _ (page + 2^high) high (by simp [add_page_same])

/-- The lower half stays a hole when the upper one is listed. -/
theorem Hole.listPiece (env : Platform) (hole : Hole z ⟨page,high+1⟩) (valid : migratetype < MIGRATE_TYPES) :
    Hole (listPiece env z page high migratetype) ⟨page,high⟩ := by
  obtain ⟨_,lower,piece⟩ := hole.halves
  apply (listPiece_agree env z page high migratetype).sameFree.hole
  refine ⟨lower.aligned,lower.bound,lower.inside,?_⟩
  intro c free f inside inside'
  rcases (add_free piece.bound valid).mp free with rfl | free
  · rw [Block.mem_frames] at inside inside'
    dsimp only at inside inside'
    omega
  · exact lower.apart c free f inside inside'

/-- The pieces `expand` lists are the upper halves of the block it splits. -/
theorem expandLoop_inv (env : Platform) (low high : Nat) (inv : Inv z)
    (hole : Hole z ⟨page,high⟩) (valid : migratetype < MIGRATE_TYPES) :
    Inv (expandLoop env page low migratetype high (2^high) z) ∧
    (expandLoop env page low migratetype high (2^high) z).span = z.span ∧
    ∀ b, (expandLoop env page low migratetype high (2^high) z).Free b ↔
      z.Free b ∨ ∃ i, low ≤ i ∧ i < high ∧ b = ⟨page + 2^i,i⟩ := by
  induction high generalizing z with
  | zero => simp [expandLoop,inv]
  | succ high ih =>
    by_cases more : low < high + 1
    · obtain ⟨clear,lower,piece⟩ := hole.halves
      have back : Block.buddy ⟨page + 2^high,high⟩ = ⟨page,high⟩ := by
        simp [Block.buddy,← xor_of_clear lower.aligned clear]
      have added := piece.add_inv inv valid (fun _ => by
        rw [back]; exact lower.base_not_free (Block.base_mem ⟨page,high⟩))
      have guarded := listPiece_agree env z page high migratetype
      obtain ⟨inv',span',free'⟩ := ih (guarded.inv added) (hole.listPiece env valid)
      rw [expandLoop_succ env z page migratetype more]
      refine ⟨inv',span'.trans guarded.sameFree.span,?_⟩
      intro b
      rw [free',guarded.free,add_free piece.bound valid]
      constructor
      · rintro ((rfl | free) | ⟨i,hl,hh,rfl⟩)
        · exact .inr ⟨high,by omega,by omega,rfl⟩
        · exact .inl free
        · exact .inr ⟨i,hl,by omega,rfl⟩
      · rintro (free | ⟨i,hl,hh,rfl⟩)
        · exact .inl (.inr free)
        · by_cases last : i = high
          · subst i; exact .inl (.inl rfl)
          · exact .inr ⟨i,hl,by omega,rfl⟩
    · simp only [expandLoop,if_neg more]
      refine ⟨inv,trivial,fun b => ?_⟩
      constructor
      · exact .inl
      · rintro (free | ⟨i,hl,hh,_⟩)
        · exact free
        · omega

theorem expand_inv (env : Platform) (low high : Nat) (inv : Inv z)
    (hole : Hole z ⟨page,high⟩) (valid : migratetype < MIGRATE_TYPES) :
    Inv (expand env z page low high migratetype) := by
  rw [expand,Nat.one_shiftLeft]
  exact (expandLoop_inv env low high inv hole valid).1

theorem rmqueueSmallestLoop_inv (env : Platform) (inv : Inv z) (valid : migratetype < MIGRATE_TYPES)
    (rest currentOrder : Nat) (counted : currentOrder + rest = MAX_ORDER ∨ rest = 0) :
    Inv (rmqueueSmallestLoop env z order migratetype rest currentOrder).2 := by
  induction rest generalizing currentOrder with
  | zero => exact inv
  | succ rest ih =>
    simp only [rmqueueSmallestLoop]
    split
    · exact ih (currentOrder + 1) (.inl (by omega))
    next page tail sequence =>
      have listed : z.Free ⟨page,currentOrder⟩ :=
        ⟨by dsimp only; omega,migratetype,valid,by simp [sequence]⟩
      have taken := del_inv inv listed
      have hole := del_hole inv.toSound listed
      exact (setFreepageMigratetype_agree _ page migratetype).inv
        (expand_inv env order currentOrder taken hole valid)

theorem rmqueueSmallest_inv (env : Platform) (inv : Inv z) (valid : migratetype < MIGRATE_TYPES) :
    Inv (rmqueueSmallest env z order migratetype).2 :=
  rmqueueSmallestLoop_inv env inv valid _ _ (by omega)

/-- Taking a block off one list and putting it on another of the same order. -/
theorem relist_same (sound : Sound z) (listed : z.Free ⟨page,order⟩)
    (valid : migratetype < MIGRATE_TYPES) :
    Sound (addPageToFreeList (delPageFromFreeList z page order) page order migratetype) ∧
    SameFree z (addPageToFreeList (delPageFromFreeList z page order) page order migratetype) := by
  refine ⟨(del_hole sound listed).add_sound (del_sound sound listed) valid,?_,rfl⟩
  intro b
  rw [add_free listed.1 valid,del_free sound listed]
  constructor
  · rintro (rfl | ⟨free,_⟩)
    · exact listed
    · exact free
  · intro free
    by_cases same : b = ⟨page,order⟩
    · exact .inl same
    · exact .inr ⟨free,same⟩

theorem moveFreepagesLoop_same (env : Platform) (endPage : Nat) (valid : migratetype < MIGRATE_TYPES)
    (page : Nat) (pagesMoved : BitVec 32) (inv : Inv z) :
    Inv (moveFreepagesLoop env endPage migratetype z page pagesMoved).2 ∧
    SameFree z (moveFreepagesLoop env endPage migratetype z page pagesMoved).2 := by
  induction z, page, pagesMoved using moveFreepagesLoop.induct env endPage migratetype with
  | case1 z page moved more invalid ih =>
    rw [moveFreepagesLoop,if_pos more,if_pos invalid]
    exact ih inv
  | case2 z page moved more valid' unset ih =>
    rw [moveFreepagesLoop,if_pos more,if_neg valid',if_pos unset]
    exact ih inv
  | case3 z page moved more valid' set order ih =>
    rw [moveFreepagesLoop,if_pos more,if_neg valid',if_neg set]
    obtain ⟨o,free⟩ := inv.flagged page (by simpa using set)
    have listed : z.Free ⟨page,order⟩ := by
      rw [show order = o from (inv.head _ free).2.2]; exact free
    obtain ⟨sound',same⟩ := relist_same inv.toSound listed valid
    obtain ⟨inv',same'⟩ := ih (same.inv sound' inv)
    exact ⟨inv',same.trans same'⟩
  | case4 z page moved done =>
    rw [moveFreepagesLoop,if_neg done]
    exact ⟨inv,SameFree.refl z⟩

theorem stealSuitableFallback_same (env : Platform) (page : Nat) (inv : Inv z) (valid : migratetype < MIGRATE_TYPES) :
    Inv (stealSuitableFallback env z page migratetype) ∧
    SameFree z (stealSuitableFallback env z page migratetype) := by
  unfold stealSuitableFallback
  split
  · exact ⟨inv,SameFree.refl z⟩
  · simp only [moveFreepagesBlock]
    split
    · exact ⟨inv,SameFree.refl z⟩
    · exact moveFreepagesLoop_same env _ valid _ 0 inv

/-- The row walk only returns a list type of the table. -/
theorem fallbackRow_valid (env : Platform) (row : List Nat) (entries : ∀ m ∈ row, m ≤ MIGRATE_TYPES)
    (found : fallbackRow env z order migratetype row = some (some (m,canSteal))) :
    m < MIGRATE_TYPES := by
  induction row with
  | nil => simp [fallbackRow] at found
  | cons head row ih =>
    have bound := entries head List.mem_cons_self
    simp only [fallbackRow] at found
    split at found
    · simp at found
    next ordinary =>
      split at found
      · exact ih (fun m member => entries m (List.mem_cons_of_mem head member)) found
      · simp only [Option.some.injEq,Prod.mk.injEq] at found
        omega

theorem findSuitableFallback_valid (env : Platform)
    (found : findSuitableFallback env z order migratetype = some (some (m,canSteal))) :
    m < MIGRATE_TYPES := by
  unfold findSuitableFallback at found
  split at found
  · simp at found
  · refine fallbackRow_valid env _ ?_ found
    have table : ∀ row ∈ fallbacks, ∀ m ∈ row, m ≤ MIGRATE_TYPES := by decide
    cases here : fallbacks[migratetype]? with
    | none => simp [List.getD,here]
    | some row =>
      simpa [List.getD,here] using table row (List.mem_of_getElem? here)

theorem fallbackAt_inv (env : Platform) (inv : Inv z) (valid : migratetype < MIGRATE_TYPES)
    (bound : currentOrder < MAX_ORDER)
    (below : ∀ result, further = some result → Inv result.2)
    (returns : fallbackAt env z order migratetype currentOrder further = some result) :
    Inv result.2 := by
  unfold fallbackAt at returns
  split at returns
  · cases returns; exact inv
  · split at returns
    · cases returns
    · exact below result returns
    next fallbackMt canSteal found =>
      split at returns
      · cases returns
      next page tail sequence =>
        cases returns
        have type := findSuitableFallback_valid env found
        have listed : z.Free ⟨page,currentOrder⟩ := ⟨bound,fallbackMt,type,by simp [sequence]⟩
        have taken := del_inv inv listed
        have hole := del_hole inv.toSound listed
        apply (setFreepageMigratetype_agree _ page migratetype).inv
        cases canSteal
        · exact expand_inv env order currentOrder taken hole valid
        · obtain ⟨inv',same⟩ := stealSuitableFallback_same env page taken valid
          exact expand_inv env order currentOrder inv' (same.hole hole) valid

theorem rmqueueFallback_inv (env : Platform) (inv : Inv z) (valid : migratetype < MIGRATE_TYPES)
    (returns : rmqueueFallback env z order migratetype = some result) : Inv result.2 := by
  have search (currentOrder : Nat) (bound : currentOrder < MAX_ORDER) :
      ∀ result, rmqueueFallbackLoop env z order migratetype currentOrder = some result →
        Inv result.2 := by
    induction currentOrder with
    | zero =>
      intro result returns
      exact fallbackAt_inv env inv valid bound (by simp) returns
    | succ next ih =>
      intro result returns
      exact fallbackAt_inv env inv valid bound (ih (by omega)) returns
  exact search (MAX_ORDER - 1) (by decide) result returns

end

end Kernal.Buddy
