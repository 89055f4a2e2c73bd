import Kernal.BuddyFreeOrder

/-! What a successful allocation takes. The block handed out is the low end of a free
block; its pages leave no free block behind them, and nothing of a page descriptor
changes but the marks and the recorded order. -/
namespace Kernal.Buddy

open Blocks

structure Keeps (z z' : Zone) : Prop where
  pcp : z'.perCpuPageset = z.perCpuPageset
  flags : ∀ p, (z'.page p).flags = (z.page p).flags
  mapcount : ∀ p, (z'.page p).mapcount = (z.page p).mapcount
  mapping : ∀ p, (z'.page p).mapping = (z.page p).mapping

theorem Keeps.refl (z : Zone) : Keeps z z := ⟨rfl,fun _ => rfl,fun _ => rfl,fun _ => rfl⟩

theorem Keeps.trans (first : Keeps z z') (second : Keeps z' z'') : Keeps z z'' where
  pcp := second.pcp.trans first.pcp
  flags p := (second.flags p).trans (first.flags p)
  mapcount p := (second.mapcount p).trans (first.mapcount p)
  mapping p := (second.mapping p).trans (first.mapping p)

/-- Writing fields other than these of one page. -/
theorem keeps_setPage (z : Zone) (page : Nat) (edit : Page → Page)
    (flags : ∀ p, (edit p).flags = p.flags) (mapcount : ∀ p, (edit p).mapcount = p.mapcount)
    (mapping : ∀ p, (edit p).mapping = p.mapping) : Keeps z (z.setPage page edit) := by
  refine ⟨rfl,?_,?_,?_⟩ <;> intro p <;> by_cases same : p = page
  all_goals simp [Zone.setPage,same,flags,mapcount,mapping]

theorem del_keeps (z : Zone) (page order : Nat) : Keeps z (delPageFromFreeList z page order) :=
  (keeps_setPage z page (fun p => { p with pageBuddy := false, pagePrivate := 0 })
    (fun _ => rfl) (fun _ => rfl) (fun _ => rfl)).trans ⟨rfl,fun _ => rfl,fun _ => rfl,fun _ => rfl⟩

theorem add_keeps (z : Zone) (page order migratetype : Nat) :
    Keeps z (addPageToFreeList z page order migratetype) :=
  (keeps_setPage z page (fun p => { p with pageBuddy := true, pagePrivate := order })
    (fun _ => rfl) (fun _ => rfl) (fun _ => rfl)).trans ⟨rfl,fun _ => rfl,fun _ => rfl,fun _ => rfl⟩

theorem setFreepageMigratetype_keeps (z : Zone) (page migratetype : Nat) :
    Keeps z (setFreepageMigratetype z page migratetype) :=
  keeps_setPage z page _ (fun _ => rfl) (fun _ => rfl) (fun _ => rfl)

theorem setPageGuard_keeps (env : Platform) (z : Zone) (page order : Nat) :
    Keeps z (setPageGuard env z page order) := by
  unfold setPageGuard
  split
  · exact keeps_setPage z page _ (fun _ => rfl) (fun _ => rfl) (fun _ => rfl)
  · exact Keeps.refl z

theorem expandLoop_keeps (env : Platform) (page low migratetype high size : Nat) (z : Zone) :
    Keeps z (expandLoop env page low migratetype high size z) := by
  induction high generalizing size z with
  | zero => exact Keeps.refl z
  | succ high ih =>
    unfold expandLoop
    split
    · exact ((add_keeps z _ _ _).trans (setPageGuard_keeps env _ _ _)).trans (ih _ _)
    · exact Keeps.refl z

theorem mergeLoop_keeps (rest : Nat) (z : Zone) (page pfn order : Nat) :
    Keeps z (mergeLoop rest z page pfn order).1 := by
  induction rest generalizing z page pfn order with
  | zero => exact Keeps.refl z
  | succ rest ih =>
    simp only [mergeLoop]
    split
    · exact (del_keeps z _ order).trans (ih _ _ _ _)
    · exact Keeps.refl z

theorem freeOnePage_keeps (z : Zone) (page pfn order migratetype : Nat) :
    Keeps z (freeOnePage z page pfn order migratetype) := by
  simp only [freeOnePage,add_setPageOrder]
  exact (mergeLoop_keeps _ z page pfn order).trans (add_keeps _ _ _ _)

structure Taken (z : Zone) (page order migratetype : Nat) (z' : Zone) : Prop where
  inv : Inv z'
  keeps : Keeps z z'
  span : z'.span = z.span
  hole : Hole z' ⟨page,order⟩
  source : (⟨page,order⟩ : Block).frames ⊆ cover z.freeBlocks
  rest : cover z'.freeBlocks ⊆ cover z.freeBlocks
  freePages : z'.freePages + pageCount order = z.freePages
  type : (z'.page page).freepageMigratetype = migratetype

section

variable {z : Zone} {page order migratetype : Nat}

/-- Both searches end alike: a listed block is taken off and all but its low end is listed
again. -/
theorem split_taken (env : Platform) (inv : Inv z) (listed : z.Free ⟨page,high⟩) (le : order ≤ high)
    (valid : migratetype < MIGRATE_TYPES) :
    Taken z page order migratetype (setFreepageMigratetype
      (expand env (delPageFromFreeList z page high) page order high migratetype) page migratetype) := by
  have sound := inv.toSound
  have hole := del_hole sound listed
  have fits : 2^order ∣ 2^high := Nat.pow_dvd_pow 2 le
  have small : 2^order ≤ 2^high := Nat.pow_le_pow_right (by decide) le
  have marked := setFreepageMigratetype_agree
    (expand env (delPageFromFreeList z page high) page order high migratetype) page migratetype
  have pages := (del_moved z page high).freePages
  obtain ⟨invE,spanE,freeE⟩ := expandLoop_inv env order high (del_inv inv listed) hole valid
  have total := (expandLoop_moved env page migratetype (delPageFromFreeList z page high) le (2^high)).freePages
  rw [← Nat.one_shiftLeft high] at invE spanE freeE total
  have free (b : Block) : (setFreepageMigratetype
      (expand env (delPageFromFreeList z page high) page order high migratetype) page migratetype).Free b ↔
      (delPageFromFreeList z page high).Free b ∨ ∃ i, order ≤ i ∧ i < high ∧ b = ⟨page + 2^i,i⟩ :=
    marked.free.trans (freeE b)
  have low : (⟨page,order⟩ : Block).frames ⊆ (⟨page,high⟩ : Block).frames := by
    intro f
    simp only [Block.mem_frames]
    omega
  constructor
  case inv => exact marked.inv invE
  case keeps =>
    exact (del_keeps z page high).trans ((expandLoop_keeps env _ _ _ _ _ _).trans
      (setFreepageMigratetype_keeps _ _ _))
  case span =>
    exact (marked.sameFree.span.trans spanE).trans del_span
  case hole =>
    refine ⟨Nat.dvd_trans fits hole.aligned,Nat.lt_of_le_of_lt le listed.1,?_,?_⟩
    · rw [marked.sameFree.span.trans spanE]
      exact low.trans hole.inside
    · intro c listed' f inside inside'
      rcases (free c).mp listed' with old | ⟨i,from_order,_,rfl⟩
      · exact hole.apart c old f (low inside) inside'
      · have grows : 2^order ≤ 2^i := Nat.pow_le_pow_right (by decide) from_order
        rw [Block.mem_frames] at inside inside'
        dsimp only at inside inside'
        omega
  case source =>
    exact low.trans (frames_subset_cover listed)
  case rest =>
    intro f inside
    obtain ⟨c,listed',within⟩ := mem_cover.mp inside
    rcases (free c).mp listed' with old | ⟨i,_,below,rfl⟩
    · exact mem_cover.mpr ⟨c,((del_free sound listed).mp old).1,within⟩
    · refine mem_cover.mpr ⟨_,listed,?_⟩
      have twice : 2^(i+1) ≤ 2^high := Nat.pow_le_pow_right (by decide) below
      rw [Nat.pow_succ] at twice
      rw [Block.mem_frames] at within ⊢
      dsimp only at within ⊢
      omega
  case freePages =>
    change (expand env (delPageFromFreeList z page high) page order high migratetype).freePages +
      pageCount order = z.freePages
    rw [expand,total,pages]
    bv_omega
  case type =>
    simp [setFreepageMigratetype,Zone.setPage]

end

end Kernal.Buddy
