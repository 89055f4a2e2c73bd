import Kernal.BuddyReturn
import Kernal.Runs

/-! The memory statistics over several zones. An allocation takes its pages out of
`zone->free_pages`, of the statistic `NR_FREE_PAGES` and of the file's own counter
`free_pages`; a page that is freed only comes back to the first of them. -/
namespace Kernal.Buddy

open Runs

def MAX_NR_ZONES : Nat := 4

structure System where
  zone : Nat → Zone
  zones : List Nat
  freePages : Ulong

/-- The value `freeram` of `si_meminfo`. -/
def System.freeram (s : System) : Ulong := s.freePages

/-- The variable `free` after the loop of `show_mem`. -/
def System.showMemFree (s : System) : Ulong := s.zones.foldl (fun free i => free + (s.zone i).freePages) 0

def System.setZone (s : System) (i : Nat) (z : Zone) : System :=
  { s with zone := Function.update s.zone i z }

/-- `buddy_init` over the zone structures as they are in memory. -/
def buddyInit (zone : Nat → Zone) : System := ⟨zone, [], 0⟩

def System.initZone (s : System) (i startPfn size : Nat) : System :=
  let s := s.setZone i (Buddy.initZone (s.zone i) startPfn size)
  if s.zones.length < MAX_NR_ZONES then { s with zones := s.zones ++ [i] } else s

/-- `alloc_pages` when `first_zones_zonelist` yields zone `i` or nothing. -/
def System.allocPages (env : Platform) (s : System) (i : Nat) (gfpMask : Gfp) (order : Nat) :
    Option (Option Nat × System) :=
  (Buddy.allocPages env ⟨s.zone i, s.freePages⟩ gfpMask order).map fun
    | (page, mm) => (page, { s.setZone i mm.zone with freePages := mm.freePages })

inductive StatOp where
  | init (i startPfn size : Nat)
  | alloc (i : Nat) (gfpMask : Gfp) (order : Nat)
  | free (i page order : Nat)
  | freeOne (i page pfn order migratetype : Nat)
  deriving DecidableEq, Repr

structure StatState where
  now : System
  before : System

/-- One operation. It works on a zone of the table, on a block of an order below
`MAX_ORDER`, and it returns. -/
inductive StatStep (env : Platform) : StatState → StatOp → StatState → Prop where
  | init {s : StatState} {i : Nat} (startPfn size : Nat) : i ∉ s.now.zones →
      s.now.zones.length < MAX_NR_ZONES →
      StatStep env s (.init i startPfn size) ⟨s.now.initZone i startPfn size, s.now⟩
  | alloc {s : StatState} {i : Nat} {gfpMask : Gfp} {order : Nat} {page : Option Nat} {s' : System} :
      i ∈ s.now.zones → s.now.allocPages env i gfpMask order = some (page, s') →
      StatStep env s (.alloc i gfpMask order) ⟨s', s.now⟩
  | free {s : StatState} {i page order : Nat} {z : Zone} : i ∈ s.now.zones → order < MAX_ORDER →
      freePages env (s.now.zone i) page order = some z →
      StatStep env s (.free i page order) ⟨s.now.setZone i z, s.now⟩
  | freeOne {s : StatState} {i order : Nat} (page pfn migratetype : Nat) : i ∈ s.now.zones →
      order < MAX_ORDER →
      StatStep env s (.freeOne i page pfn order migratetype)
        ⟨s.now.setZone i (freeOnePage (s.now.zone i) page pfn order migratetype), s.now⟩

structure StatStart (s : StatState) : Prop where
  init : s.now = buddyInit s.now.zone
  zeroed : ∀ i, (s.now.zone i).freePages = 0
  same : s.before = s.now

abbrev StatRun (env : Platform) := Run StatStart (StatStep env)

/-- The two reports agree, and the last operation has changed both counters of every zone
by the same amount. -/
structure StatsAgree (s : StatState) : Prop where
  reports : s.now.freeram = s.now.showMemFree
  changes : ∀ i, BitVec.ofInt 32 ((s.now.zone i).nrFreePages - (s.before.zone i).nrFreePages) =
    (s.now.zone i).freePages - (s.before.zone i).freePages

/-- An operation moves the two reports alike, and likewise both counters of every zone. -/
structure InStep (s s' : System) : Prop where
  reports : s'.showMemFree - s'.freeram = s.showMemFree - s.freeram
  changes : ∀ i, BitVec.ofInt 32 ((s'.zone i).nrFreePages - (s.zone i).nrFreePages) =
    (s'.zone i).freePages - (s.zone i).freePages

/-- `__free_pages` gets as far as `__free_one_page`: it drops the last reference of a block
that `free_page_prepare` accepts, and the block has more than one page or the page goes to
a per-cpu list that is then emptied. -/
def Reaches (env : Platform) (z : Zone) (page order : Nat) : Prop :=
  let pcp := z.perCpuPageset env.smpProcessorId
  (putPageTestzero z page).1 = true ∧
  (freePagePrepare env (putPageTestzero z page).2 page order).1 = true ∧
  (order ≠ 0 ∨ pcp.high ≤ pcp.count + 1 ∧ pcp.batch % 2^32 ≠ 0)

def NothingFreed (env : Platform) (s : StatState) : StatOp → Prop
  | .free i page order => ¬Reaches env (s.now.zone i) page order
  | .freeOne _ _ _ _ _ => False
  | _ => True

/-- What `free_pcppages_bulk` does: it frees up to `n` pages of the processor's lists, and
at least one if there is one. -/
structure BulkFrees (env : Platform) : Prop where
  none : ∀ z, env.freePcppagesBulk z 0 = z
  some : ∀ z n m page, 0 < n → m < MIGRATE_PCPTYPES →
    page ∈ ((z.perCpuPageset env.smpProcessorId).lists m).getD [] →
    ∃ freed, 0 < freed ∧ freed ≤ n ∧
      (env.freePcppagesBulk z n).freePages = z.freePages + BitVec.ofNat 32 freed

theorem putPageTestzero_moved (z : Zone) (page : Nat) : Moved z (putPageTestzero z page).2 0 0 := by
  simp only [putPageTestzero]
  exact setPage_moved z page _

theorem ofNat_ne_zero (positive : 0 < n) (small : n < 2^32) : BitVec.ofNat 32 n ≠ 0 := by
  intro zero
  have value := congrArg BitVec.toNat zero
  simp only [BitVec.toNat_ofNat,Nat.mod_eq_of_lt small] at value
  exact positive.ne' value

theorem pageCount_ne_zero (bound : order < MAX_ORDER) : pageCount order ≠ 0 :=
  ofNat_ne_zero (Nat.two_pow_pos order) (two_pow_order_lt bound)

/-- The page is linked to a list of the processor, which is emptied when it has become too
long. -/
theorem freeHotColdPage_linked {env : Platform} {z z' : Zone} (accepted : (freePagePrepare env z page 0).1 = true)
    (returns : freeHotColdPage env z page cold = some z') :
    ∃ linked m, Moved z linked 0 0 ∧ m < MIGRATE_PCPTYPES ∧
      page ∈ ((linked.perCpuPageset env.smpProcessorId).lists m).getD [] ∧
      linked.perCpuPageset env.smpProcessorId = { z.perCpuPageset env.smpProcessorId with
        lists := (linked.perCpuPageset env.smpProcessorId).lists
        count := (z.perCpuPageset env.smpProcessorId).count + 1 } ∧
      z' = trimPcp env linked := by
  have prepared := freePagePrepare_moved env z page 0
  have same := (freePagePrepare_marked env z page 0).pcp
  generalize ready : (freePagePrepare env z page 0).2 = z₁ at prepared same
  rw [freeHotColdPage_accepted (Prod.ext accepted ready)] at returns
  split at returns
  · cases returns
  next type =>
    obtain ⟨sequence,-,rfl⟩ := Option.map_eq_some_iff.mp returns
    refine ⟨_,_,prepared.still (setPcp_moved z₁ _ _),Nat.not_le.mp type,?_,?_,rfl⟩
    · cases cold <;> simp [Zone.setPcp,PerCpuPages.setList]
    · simp [Zone.setPcp,PerCpuPages.setList,same]

/-- A page that is refused changes no counter. -/
theorem freeHotColdPage_refused {env : Platform} {z z' : Zone} (refused : (freePagePrepare env z page 0).1 = false)
    (returns : freeHotColdPage env z page cold = some z') : Moved z z' 0 0 := by
  have prepared := freePagePrepare_moved env z page 0
  unfold freeHotColdPage at returns
  generalize freePagePrepare env z page 0 = checked at refused prepared returns
  obtain ⟨ok,z₁⟩ := checked
  cases refused
  cases returns
  exact prepared

/-- A page that is linked changes no counter until the list is emptied. -/
theorem freeHotColdPage_moved {env : Platform} (bulk : BulkFrees env) {z z' : Zone}
    (accepted : (freePagePrepare env z page 0).1 = true)
    (returns : freeHotColdPage env z page cold = some z') :
    let pcp := z.perCpuPageset env.smpProcessorId
    (pcp.high ≤ pcp.count + 1 ∧ pcp.batch % 2^32 ≠ 0 → ∃ gain, gain ≠ 0 ∧ z'.freePages = z.freePages + gain) ∧
    (¬(pcp.high ≤ pcp.count + 1 ∧ pcp.batch % 2^32 ≠ 0) → Moved z z' 0 0) := by
  obtain ⟨linked,m,moved,type,entry,counted,rfl⟩ := freeHotColdPage_linked accepted returns
  simp only [trimPcp]
  rw [counted]
  generalize z.perCpuPageset env.smpProcessorId = pcp
  constructor
  · rintro ⟨full,some⟩
    obtain ⟨freed,positive,most,pages⟩ := bulk.some linked (pcp.batch % 2^32).toNat m page (by omega) type entry
    refine ⟨BitVec.ofNat 32 freed,ofNat_ne_zero positive (by omega),?_⟩
    rw [if_pos full,← moved.kept]
    exact pages
  · intro stays
    split
    next full =>
      have none : (pcp.batch % 2^32).toNat = 0 := by
        have zero : pcp.batch % 2^32 = 0 := Classical.not_not.mp fun some => stays ⟨full,some⟩
        rw [zero]
        rfl
      rw [none,bulk.none]
      exact moved.still (setPcp_moved linked _ _)
    · exact moved

theorem freePagesOk_moved (env : Platform) (z : Zone) (page order : Nat) :
    Moved z (freePagesOk env z page order)
      (if (freePagePrepare env z page order).1 then pageCount order else 0) 0 := by
  have prepared := freePagePrepare_moved env z page order
  unfold freePagesOk
  generalize freePagePrepare env z page order = checked at prepared
  obtain ⟨ok,z₁⟩ := checked
  cases ok
  · exact prepared
  · exact prepared.from_still (freeOnePage_moved z₁ page page order _)

/-- `__free_pages` adds to `free_pages` exactly when it gets to `__free_one_page`. -/
theorem freePages_moved {env : Platform} (bulk : BulkFrees env) {z z' : Zone} (bound : order < MAX_ORDER)
    (returns : freePages env z page order = some z') :
    (Reaches env z page order → ∃ gain, gain ≠ 0 ∧ z'.freePages = z.freePages + gain) ∧
    (¬Reaches env z page order → Moved z z' 0 0) := by
  have dropped := putPageTestzero_moved z page
  have lists : (putPageTestzero z page).2.perCpuPageset = z.perCpuPageset := rfl
  unfold freePages at returns
  unfold Reaches
  generalize putPageTestzero z page = put at dropped lists returns
  obtain ⟨last,z₁⟩ := put
  rw [← lists]
  cases last with
  | false =>
    cases returns
    exact ⟨fun reaches => absurd reaches.1 Bool.false_ne_true,fun _ => dropped⟩
  | true =>
    dsimp only at dropped returns ⊢
    split at returns
    next single =>
      subst single
      cases accepted : (freePagePrepare env z₁ page 0).1 with
      | false => exact ⟨fun reaches => absurd reaches.2.1 Bool.false_ne_true,
          fun _ => dropped.still (freeHotColdPage_refused accepted returns)⟩
      | true =>
        obtain ⟨grows,stays⟩ := freeHotColdPage_moved bulk accepted returns
        simp only [true_and,ne_eq,not_true_eq_false,false_or,← dropped.kept]
        exact ⟨grows,fun still => dropped.still (stays still)⟩
    next large =>
      cases returns
      have moved := freePagesOk_moved env z₁ page order
      constructor
      · rintro ⟨-,accepted,-⟩
        rw [if_pos accepted] at moved
        exact ⟨_,pageCount_ne_zero bound,(dropped.from_still moved).freePages⟩
      · intro stays
        rw [if_neg fun accepted => stays ⟨rfl,accepted,.inl large⟩] at moved
        exact dropped.still moved

theorem foldl_start (f : Nat → Ulong) (zones : List Nat) (start : Ulong) :
    zones.foldl (fun free i => free + f i) start = start + zones.foldl (fun free i => free + f i) 0 := by
  induction zones generalizing start with
  | nil => simp
  | cons i zones ih =>
    rw [List.foldl_cons,List.foldl_cons,ih,ih (0 + f i)]
    bv_omega

theorem foldl_update_other (f : Nat → Ulong) (zones : List Nat) (start : Ulong) (outside : i ∉ zones) :
    zones.foldl (fun free j => free + Function.update f i x j) start =
      zones.foldl (fun free j => free + f j) start := by
  refine List.foldl_ext _ _ _ fun free j member => ?_
  rw [Function.update_of_ne (ne_of_mem_of_not_mem member outside)]

/-- The sum over the zones after the counter of one of them has changed. -/
theorem foldl_update (f : Nat → Ulong) (zones : List Nat) (distinct : zones.Nodup) (member : i ∈ zones) :
    zones.foldl (fun free j => free + Function.update f i (f i + gain) j) 0 =
      zones.foldl (fun free j => free + f j) 0 + gain := by
  induction zones with
  | nil => cases member
  | cons j zones ih =>
    obtain ⟨outside,distinct⟩ := List.nodup_cons.mp distinct
    rw [List.foldl_cons,List.foldl_cons,foldl_start,foldl_start f]
    by_cases same : j = i
    · subst same
      rw [foldl_update_other f zones 0 outside,Function.update_self]
      bv_omega
    · have within : i ∈ zones := (List.mem_cons.mp member).resolve_left fun eq => same eq.symm
      rw [ih distinct within,Function.update_of_ne same]
      bv_omega

structure StatInv (s : System) : Prop where
  distinct : s.zones.Nodup
  unused : ∀ i, i ∉ s.zones → (s.zone i).freePages = 0

theorem System.showMemFree_setZone {s : System} (inv : StatInv s) (member : i ∈ s.zones) {z : Zone}
    (gains : z.freePages = (s.zone i).freePages + gain) :
    (s.setZone i z).showMemFree = s.showMemFree + gain := by
  rw [showMemFree,showMemFree,← foldl_update (fun i => (s.zone i).freePages) s.zones inv.distinct member,← gains]
  refine List.foldl_ext _ _ _ fun free j _ => ?_
  by_cases same : j = i
  · subst same
    simp [setZone]
  · simp [setZone,same]

/-- An operation on one zone is in step when the counter of the file and the statistic
have followed `free_pages`. -/
theorem inStep_setZone {s : System} (inv : StatInv s) (member : i ∈ s.zones) {z : Zone}
    (moved : Moved (s.zone i) z a n) (static : Ulong) :
    InStep s { s.setZone i z with freePages := static } ↔
      static = s.freePages + a ∧ BitVec.ofInt 32 n = a := by
  have free : { s.setZone i z with freePages := static }.showMemFree = s.showMemFree + a :=
    System.showMemFree_setZone inv member moved.freePages
  have reports : s.showMemFree + a - static = s.showMemFree - s.freePages ↔ static = s.freePages + a := by
    constructor <;> intro eq <;> bv_omega
  have here : BitVec.ofInt 32 (z.nrFreePages - (s.zone i).nrFreePages) = z.freePages - (s.zone i).freePages ↔
      BitVec.ofInt 32 n = a := by
    rw [moved.freePages,moved.nrFreePages,add_sub_cancel_left]
    refine Eq.congr_right ?_
    bv_omega
  rw [← here,← reports]
  constructor
  · intro agree
    refine ⟨by rw [← free]; exact agree.reports,?_⟩
    simpa [System.setZone] using agree.changes i
  · rintro ⟨follows,same⟩
    refine ⟨by rw [free]; exact follows,fun j => ?_⟩
    by_cases eq : j = i
    · subst eq
      simpa [System.setZone] using same
    · simp [System.setZone,eq]

/-- Pages that come back to a zone alone move the reports apart. -/
theorem not_inStep_of_gain {s : System} (inv : StatInv s) (member : i ∈ s.zones) {z : Zone}
    (gains : z.freePages = (s.zone i).freePages + gain) (some : gain ≠ 0) : ¬InStep s (s.setZone i z) := by
  intro agree
  have reports := agree.reports
  rw [System.showMemFree_setZone inv member gains] at reports
  have same : s.showMemFree + gain - s.freePages = s.showMemFree - s.freePages := reports
  apply some
  bv_omega

theorem System.initZone_entered {s : System} (room : s.zones.length < MAX_NR_ZONES) (i startPfn size : Nat) :
    s.initZone i startPfn size =
      { s.setZone i (Buddy.initZone (s.zone i) startPfn size) with zones := s.zones ++ [i] } := if_pos room

/-- Setting up a zone in zeroed memory changes no report. -/
theorem inStep_init {s : System} (inv : StatInv s) (new : i ∉ s.zones) (room : s.zones.length < MAX_NR_ZONES)
    (startPfn size : Nat) : InStep s (s.initZone i startPfn size) := by
  rw [System.initZone_entered room]
  constructor
  case reports =>
    have before : s.zones.foldl (fun free j => free +
        (Function.update s.zone i (Buddy.initZone (s.zone i) startPfn size) j).freePages) 0 = s.showMemFree := by
      refine List.foldl_ext _ _ _ fun free j member => ?_
      rw [Function.update_of_ne (ne_of_mem_of_not_mem member new)]
    simp only [System.showMemFree,System.setZone,List.foldl_append] at before ⊢
    rw [before]
    simp [System.freeram,Buddy.initZone]
  case changes =>
    intro j
    by_cases same : j = i
    · subst same
      simp [System.setZone,Buddy.initZone,inv.unused j new]
    · simp [System.setZone,same]

/-- An allocation takes its pages out of all three counters. -/
theorem inStep_alloc {env : Platform} {s s' : System} (inv : StatInv s) (member : i ∈ s.zones)
    (returns : s.allocPages env i gfpMask order = some (page, s')) : InStep s s' := by
  obtain ⟨⟨found,mm⟩,here,eq⟩ := Option.map_eq_some_iff.mp returns
  cases eq
  obtain ⟨a,n,moved,static,same⟩ := allocPages_moved here
  exact (inStep_setZone inv member moved mm.freePages).mpr ⟨static,same⟩

/-- Whatever happened before, an operation is in step exactly when it frees nothing. -/
theorem StatStep.inStep_iff {env : Platform} (bulk : BulkFrees env) (inv : StatInv s.now)
    (step : StatStep env s op s') : InStep s.now s'.now ↔ NothingFreed env s op := by
  cases step with
  | init startPfn size new room => exact iff_of_true (inStep_init inv new room startPfn size) trivial
  | alloc member returns => exact iff_of_true (inStep_alloc inv member returns) trivial
  | @free i page order z member bound returns =>
    obtain ⟨grows,stays⟩ := freePages_moved bulk bound returns
    constructor
    · intro after reaches
      obtain ⟨gain,some,gains⟩ := grows reaches
      exact not_inStep_of_gain inv member gains some after
    · intro refused
      exact (inStep_setZone inv member (stays refused) s.now.freePages).mpr ⟨(BitVec.add_zero _).symm,rfl⟩
  | freeOne page pfn migratetype member bound =>
    refine iff_of_false ?_ id
    exact not_inStep_of_gain inv member (freeOnePage_moved _ page pfn _ migratetype).freePages
      (pageCount_ne_zero bound)

theorem StatStep.agree_iff {env : Platform} (bulk : BulkFrees env) (inv : StatInv s.now) (agree : StatsAgree s)
    (step : StatStep env s op s') : StatsAgree s' ↔ NothingFreed env s op := by
  have last : s'.before = s.now := by cases step <;> rfl
  have before := agree.reports
  rw [← step.inStep_iff bulk inv]
  constructor
  · rintro ⟨reports,changes⟩
    exact ⟨by bv_omega,last ▸ changes⟩
  · rintro ⟨reports,changes⟩
    exact ⟨by bv_omega,last ▸ changes⟩

theorem StatInv.setZone {s : System} (inv : StatInv s) (member : i ∈ s.zones) (z : Zone) (static : Ulong) :
    StatInv { s.setZone i z with freePages := static } := by
  refine ⟨inv.distinct,fun j outside => ?_⟩
  have other : j ≠ i := (ne_of_mem_of_not_mem member outside).symm
  simpa [System.setZone,other] using inv.unused j outside

theorem StatStep.inv {env : Platform} (inv : StatInv s.now) (step : StatStep env s op s') : StatInv s'.now := by
  cases step with
  | @init i startPfn size new room =>
    rw [System.initZone_entered room]
    refine ⟨?_,fun j outside => ?_⟩
    · simpa [List.nodup_append] using ⟨inv.distinct,fun j member => ne_of_mem_of_not_mem member new⟩
    · have unused : j ∉ s.now.zones ∧ j ≠ i := by simpa [System.setZone] using outside
      simpa [System.setZone,unused.2] using inv.unused j unused.1
  | alloc member returns =>
    obtain ⟨⟨found,mm⟩,-,eq⟩ := Option.map_eq_some_iff.mp returns
    cases eq
    exact inv.setZone member mm.zone _
  | free member _ _ => exact inv.setZone member _ _
  | freeOne _ _ _ member _ => exact inv.setZone member _ _

theorem StatStart.agree (start : StatStart s) : StatInv s.now ∧ StatsAgree s := by
  obtain ⟨init,zeroed,same⟩ := start
  have none : s.now.zones = [] := congrArg System.zones init
  have zero : s.now.freePages = 0 := congrArg System.freePages init
  refine ⟨⟨by simp [none],fun i _ => zeroed i⟩,?_,fun i => by simp [same]⟩
  simp [System.freeram,System.showMemFree,none,zero]

/-- The statistics agree all along exactly the runs in which no block gets to a free list.
After any run, the next operation is in step exactly when it frees nothing. -/
theorem statistics_agree_iff (env : Platform) (bulk : BulkFrees env) (run : StatRun env past s) :
    (Always StatsAgree past s ↔ Throughout (NothingFreed env) past) ∧
    ∀ op s', StatStep env s op s' → (InStep s.now s'.now ↔ NothingFreed env s op) := by
  have inv : StatInv s.now :=
    run.invariant (I := fun s => StatInv s.now) (fun _ start => start.agree.1) fun _ _ _ inv step => step.inv inv
  refine ⟨?_,fun op s' step => step.inStep_iff bulk inv⟩
  exact run.always_iff (I := fun s => StatInv s.now) (fun _ start => start.agree)
    (fun _ _ _ inv step => step.inv inv) fun _ _ _ inv agree step => step.agree_iff bulk inv agree

/-- One round frees the page it finds. -/
theorem bulkOne_frees (cpu : Nat) (z : Zone) (types : List Nat) :
    ((bulkOne cpu z types).freePages = z.freePages ∧
      ∀ m ∈ types, ((z.perCpuPageset cpu).lists m).getD [] = []) ∨
    (bulkOne cpu z types).freePages = z.freePages + 1 := by
  induction types with
  | nil => exact .inl ⟨rfl,by simp⟩
  | cons m types ih =>
    simp only [bulkOne]
    split
    next none =>
      refine ih.imp_left fun still => ⟨still.1,?_⟩
      simpa [none] using still.2
    next sequence here =>
      split
      next empty =>
        refine ih.imp_left fun still => ⟨still.1,?_⟩
        simpa [here,List.getLast?_eq_none_iff.mp empty] using still.2
      next page last =>
        exact .inr (((setPcp_moved z cpu _).from_still (freeOnePage_moved _ page page 0 m)).freePages)

theorem bulk_frees (cpu : Nat) (z : Zone) (n : Nat) :
    ∃ freed ≤ n, (bulk cpu z n).freePages = z.freePages + BitVec.ofNat 32 freed := by
  induction n generalizing z with
  | zero => exact ⟨0,Nat.le_refl 0,(BitVec.add_zero _).symm⟩
  | succ n ih =>
    obtain ⟨freed,most,pages⟩ := ih (bulkOne cpu z (List.range MIGRATE_PCPTYPES))
    rcases bulkOne_frees cpu z (List.range MIGRATE_PCPTYPES) with ⟨same,-⟩ | one
    · exact ⟨freed,by omega,by rw [bulk,pages,same]⟩
    · exact ⟨freed + 1,by omega,by rw [bulk,pages,one,BitVec.ofNat_add]; bv_omega⟩

theorem bootPlatform_bulkFrees : BulkFrees bootPlatform where
  none _ := rfl
  some z n m page positive type entry := by
    obtain ⟨rest,rfl⟩ := Nat.exists_eq_succ_of_ne_zero positive.ne'
    obtain ⟨freed,most,pages⟩ := bulk_frees 0 (bulkOne 0 z (List.range MIGRATE_PCPTYPES)) rest
    rcases bulkOne_frees 0 z (List.range MIGRATE_PCPTYPES) with ⟨-,empty⟩ | one
    · have gone := empty m (List.mem_range.mpr type)
      exact absurd entry (by rw [show bootPlatform.smpProcessorId = 0 from rfl,gone]; exact List.not_mem_nil)
    · refine ⟨freed + 1,by omega,by omega,?_⟩
      change (bulk 0 (bulkOne 0 z (List.range MIGRATE_PCPTYPES)) rest).freePages = _
      rw [pages,one,BitVec.ofNat_add]
      bv_omega

/-- Zone 0 is set up, frame 0 is freed to it and allocated again. -/
def zeroSystem : System := buddyInit fun _ => zeroZone
def setUp : System := zeroSystem.initZone 0 0 1024
def frameFreed : System := setUp.setZone 0 (freeOnePage (setUp.zone 0) 0 0 0 MIGRATE_MOVABLE)
def frameTaken : System := ((frameFreed.allocPages bootPlatform 0 0x08 0).getD (none, frameFreed)).2

theorem setUp_run : StatRun bootPlatform ([] ++ [(⟨zeroSystem, zeroSystem⟩, .init 0 0 1024)])
    ⟨setUp, zeroSystem⟩ :=
  .next (.start ⟨rfl,fun _ => rfl,rfl⟩) (.init 0 1024 (by simp [zeroSystem,buddyInit]) (by decide))

theorem frameFreed_step : StatStep bootPlatform ⟨setUp, zeroSystem⟩ (.freeOne 0 0 0 0 MIGRATE_MOVABLE)
    ⟨frameFreed, setUp⟩ := .freeOne 0 0 MIGRATE_MOVABLE (by decide) (by decide)

theorem statistics_agree_iff_taken : StatsAgree ⟨setUp, zeroSystem⟩ ∧ InStep frameFreed frameTaken ∧
    frameTaken.freeram = -1 := by
  have first := (statistics_agree_iff bootPlatform bootPlatform_bulkFrees setUp_run).1.mpr
    (by simp [Throughout,NothingFreed])
  have taken : StatStep bootPlatform ⟨frameFreed, setUp⟩ (.alloc 0 0x08 0) ⟨frameTaken, frameFreed⟩ :=
    .alloc (by decide) rfl
  have second := (statistics_agree_iff bootPlatform bootPlatform_bulkFrees
    (setUp_run.next frameFreed_step)).2 _ _ taken
  exact ⟨first.2,second.mpr trivial,rfl⟩

theorem freed_page_not_counted : (∃ past, StatRun bootPlatform past ⟨frameFreed, setUp⟩) ∧
    frameFreed.freeram = 0 ∧ frameFreed.showMemFree = 1 ∧
    (frameFreed.zone 0).nrFreePages = (setUp.zone 0).nrFreePages ∧ ¬StatsAgree ⟨frameFreed, setUp⟩ := by
  refine ⟨⟨_,setUp_run.next frameFreed_step⟩,rfl,rfl,rfl,fun agree => ?_⟩
  have reports : (0 : Ulong) = 1 := agree.reports
  contradiction

end Kernal.Buddy
