import Kernal.BuddyReturn
import Kernal.Runs

/-! The per-cpu lists of a new zone. `init_zone` sets up every list of the zone but these,
so in zeroed memory their heads stay null pointers, and the first page that gets past
`free_page_prepare` is linked to one. -/
namespace Kernal.Buddy

open Blocks Runs

/-- A zone structure in zeroed memory: no list head has been initialised. -/
def clearedZone (page : Nat → Page) : Zone :=
  { zeroZone with perCpuPageset := fun _ => ⟨0, 0, 0, fun _ => none⟩, page }

/-- The zone set up by `init_zone`, with `high` and `batch` filled in for every processor. -/
def setUpZone (page : Nat → Page) (startPfn size : Nat) (high batch : Int) : Zone :=
  let z := initZone (clearedZone page) startPfn size
  { z with perCpuPageset := fun cpu => { z.perCpuPageset cpu with high, batch } }

/-- The zone, or `none` once a page was linked to a list head that is no list, with the
pages handed to `__free_pages` and those of them that were not refused. -/
structure FreeRun where
  zone : Option Zone
  called : List Nat
  freed : List Nat

def FreeRun.Start (s : FreeRun) : Prop :=
  ∃ page startPfn size high batch, 0 ≤ batch ∧ batch ≤ high ∧
    s = ⟨some (setUpZone page startPfn size high batch), [], []⟩

/-- What `free_page_prepare` makes of a descriptor before it checks it, once
`put_page_testzero` has dropped the reference. -/
def checkedPage (env : Platform) (p : Page) : Page :=
  let p := { p with refcount := p.refcount - 1 }
  if env.pageAnon p then { p with mapping := 0 } else p

def Refused (env : Platform) (z : Zone) (page : Nat) : Prop :=
  badReason env (checkedPage env (z.page page)) ≠ none

instance (env : Platform) (z : Zone) (page : Nat) : Decidable (Refused env z page) :=
  inferInstanceAs (Decidable (_ ≠ none))

/-- One call of `__free_pages(page, 0)`, each time with another page. -/
inductive FreeRun.Step (env : Platform) (s : FreeRun) (page : Nat) : FreeRun → Prop where
  | call {z : Zone} : s.zone = some z → page ∉ s.called → (z.page page).refcount = 1 →
      (z.page page).freepageMigratetype < MIGRATE_PCPTYPES →
      FreeRun.Step env s page ⟨freePages env z page 0, page :: s.called,
        if Refused env z page then s.freed else page :: s.freed⟩

/-- All list heads were lists, every freed page is in one place, and `pcp->count` is the
number of pages on the per-cpu lists. -/
def FreeRun.WellFormed (s : FreeRun) : Prop :=
  ∃ z, s.zone = some z ∧ (∀ p ∈ s.freed, z.places p = 1) ∧
    ∀ cpu, 0 ≤ (z.perCpuPageset cpu).count ∧
      (z.perCpuPageset cpu).count =
        ∑ m ∈ Finset.range MIGRATE_PCPTYPES, (((z.perCpuPageset cpu).list m).card : Int)

/-- As long as the zone is there its per-cpu lists are still null and nothing was freed. -/
def FreeRun.Untouched (s : FreeRun) : Prop :=
  ∀ z, s.zone = some z → s.freed = [] ∧
    ∀ cpu, (z.perCpuPageset cpu).count = 0 ∧ ∀ m, (z.perCpuPageset cpu).lists m = none

theorem FreeRun.Untouched.wellFormed {s : FreeRun} (untouched : s.Untouched) (here : s.zone = some z) :
    s.WellFormed := by
  obtain ⟨freed,lists⟩ := untouched z here
  refine ⟨z,here,by simp [freed],fun cpu => ?_⟩
  obtain ⟨count,null⟩ := lists cpu
  simp [count,PerCpuPages.list,null]

section Call

variable {env : Platform} {z : Zone} {page : Nat}

/-- A page with one reference is put and handed to `free_hot_cold_page`. -/
def putPage (z : Zone) (page : Nat) : Zone := (putPageTestzero z page).2

theorem freePages_single (single : (z.page page).refcount = 1) :
    freePages env z page 0 = freeHotColdPage env (putPage z page) page false := by
  simp [freePages,putPageTestzero,putPage,Zone.setPage,single]

theorem refused_iff (env : Platform) (z : Zone) (page : Nat) :
    Refused env z page ↔ (freePagePrepare env (putPage z page) page 0).1 = false := by
  have put : (putPage z page).page page = { z.page page with refcount := (z.page page).refcount - 1 } := by
    simp [putPage,putPageTestzero,Zone.setPage]
  rw [← Bool.not_eq_true,freePagePrepare_accepts,put]
  rfl

theorem freePages_refused (single : (z.page page).refcount = 1) (refused : Refused env z page) :
    ∃ z', freePages env z page 0 = some z' ∧ z'.perCpuPageset = z.perCpuPageset := by
  have pcp := (freePagePrepare_marked env (putPage z page) page 0).pcp
  rw [refused_iff] at refused
  rw [freePages_single single,freeHotColdPage]
  generalize freePagePrepare env (putPage z page) page 0 = checked at refused pcp
  obtain ⟨ok,z'⟩ := checked
  cases refused
  exact ⟨z',rfl,pcp⟩

/-- A page that is not refused is linked to a list head that is no list. -/
theorem freePages_accepted (single : (z.page page).refcount = 1) (accepted : ¬Refused env z page)
    (null : ∀ cpu m, (z.perCpuPageset cpu).lists m = none) : freePages env z page 0 = none := by
  have pcp := (freePagePrepare_marked env (putPage z page) page 0).pcp
  rw [refused_iff,Bool.not_eq_false] at accepted
  rw [freePages_single single,freeHotColdPage_accepted (Prod.ext accepted rfl)]
  rw [pcp,show (putPage z page).perCpuPageset = z.perCpuPageset from rfl,null,Option.map_none,ite_self]

end Call

section Run

variable {env : Platform} {s s' : FreeRun} {page : Nat}

theorem FreeRun.Untouched.step (untouched : s.Untouched) (step : FreeRun.Step env s page s') :
    s'.Untouched := by
  cases step with
  | @call z here _ single _ =>
    obtain ⟨freed,lists⟩ := untouched z here
    intro z' after
    dsimp only at after ⊢
    by_cases refused : Refused env z page
    · obtain ⟨z₁,returns,pcp⟩ := freePages_refused single refused
      rw [returns] at after
      cases after
      rw [if_pos refused,pcp]
      exact ⟨freed,lists⟩
    · rw [freePages_accepted single refused fun cpu => (lists cpu).2] at after
      cases after

/-- A call keeps the lists well formed exactly when it frees nothing. -/
theorem FreeRun.Step.wellFormed_iff (step : FreeRun.Step env s page s') (untouched : s.Untouched) :
    s'.WellFormed ↔ ∀ z, s.zone = some z → Refused env z page := by
  have after := untouched.step step
  cases step with
  | @call z here _ single _ =>
    obtain ⟨freed,lists⟩ := untouched z here
    constructor
    · rintro ⟨z',zone',-⟩ y same
      rw [here] at same
      cases same
      by_contra accepted
      dsimp only at zone'
      rw [freePages_accepted single accepted fun cpu => (lists cpu).2] at zone'
      cases zone'
    · intro refused
      obtain ⟨z₁,returns,-⟩ := freePages_refused single (refused z here)
      exact after.wellFormed returns

theorem FreeRun.Start.untouched (start : s.Start) : s.Untouched := by
  obtain ⟨page,startPfn,size,high,batch,-,-,rfl⟩ := start
  intro z here
  cases here
  exact ⟨rfl,fun cpu => ⟨rfl,fun m => rfl⟩⟩

/-- The per-cpu lists of a new zone stay well formed exactly while no page is freed. -/
theorem pcp_wellFormed_iff {past : List (FreeRun × Nat)} (run : Run FreeRun.Start (FreeRun.Step env) past s) :
    Always FreeRun.WellFormed past s ↔
      Throughout (fun before page => ∀ z, before.zone = some z → Refused env z page) past := by
  apply run.always_iff (I := FreeRun.Untouched)
  · intro s start
    have untouched := start.untouched
    obtain ⟨page,startPfn,size,high,batch,-,-,rfl⟩ := start
    exact ⟨untouched,untouched.wellFormed rfl⟩
  · intro s page s' untouched step
    exact untouched.step step
  · intro s page s' untouched _ step
    exact step.wellFormed_iff untouched

end Run

def heldPage (mapcount : Int) : Page := { zeroPage with refcount := 1, mapcount }

def heldRun (mapcount : Int) : FreeRun := ⟨some (setUpZone (fun _ => heldPage mapcount) 0 1024 0 0), [], []⟩

theorem firstFree_run (mapcount : Int) : ∃ s,
    Run FreeRun.Start (FreeRun.Step bootPlatform) [(heldRun mapcount, 0)] s ∧
      s.zone = freePages bootPlatform (setUpZone (fun _ => heldPage mapcount) 0 1024 0 0) 0 0 := by
  have first : Run FreeRun.Start (FreeRun.Step bootPlatform) [] (heldRun mapcount) :=
    .start ⟨_,_,_,_,_,Int.le_refl 0,Int.le_refl 0,rfl⟩
  exact ⟨_,first.next (.call rfl (by simp [heldRun]) rfl (show 0 < 3 by decide)),rfl⟩

/-- A page that is still mapped is refused. -/
theorem pcp_wellFormed_iff_mapped : ∃ s,
    Run FreeRun.Start (FreeRun.Step bootPlatform) [(heldRun 1, 0)] s ∧
      Always FreeRun.WellFormed [(heldRun 1, 0)] s := by
  obtain ⟨s,run,-⟩ := firstFree_run 1
  refine ⟨s,run,(pcp_wellFormed_iff run).2 ?_⟩
  rintro _ (_ | ⟨_,⟨⟩⟩) z here
  cases here
  decide

/-- The first good page is linked to a null list head. -/
theorem first_free_faults :
    ¬∀ (env : Platform) past s, Run FreeRun.Start (FreeRun.Step env) past s → Always FreeRun.WellFormed past s := by
  intro all
  obtain ⟨s,run,after⟩ := firstFree_run 0
  obtain ⟨z,here,-⟩ := (all bootPlatform _ s run).2
  have faults : freePages bootPlatform (setUpZone (fun _ => heldPage 0) 0 1024 0 0) 0 0 = none := by rfl
  rw [after,faults] at here
  cases here

end Kernal.Buddy
