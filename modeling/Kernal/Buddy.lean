import Kernal.Blocks

/-! The page allocator of `buddy.c` on one zone. A `struct page *` is an index into
the zone's page array, and `page_to_pfn` and `pfn_to_page` are the identity on it.
`ulong` is the 32-bit `unsigned` of `types.h` while pointers have 64 bits, so a
difference of frame numbers wraps before it is added to a page pointer. -/
namespace Kernal.Buddy

open Blocks

def MAX_ORDER : Nat := 11
def MIGRATE_UNMOVABLE : Nat := 0
def MIGRATE_MOVABLE : Nat := 1
def MIGRATE_RECLAIMABLE : Nat := 2
def MIGRATE_PCPTYPES : Nat := 3
def MIGRATE_RESERVE : Nat := 3
def MIGRATE_TYPES : Nat := 6

abbrev Ulong := BitVec 32
abbrev Gfp := BitVec 32

def NR_CPUS : Nat := 1

/-- `a - b` in `ulong`, as the natural number a pointer addition then uses. -/
def ulongSub (a b : Nat) : Nat := (a + 2^32 - b) % 2^32

def pageCount (order : Nat) : Ulong := BitVec.ofNat 32 (2^order)

structure Page where
  flags : Ulong
  pageBuddy : Bool
  pageGuard : Bool
  pagePrivate : Nat
  freepageMigratetype : Nat
  refcount : Int
  mapcount : Int
  mapping : Nat
  zoneId : Nat
  deriving DecidableEq, Repr

/-- A list head that was never initialised holds no sequence. -/
structure PerCpuPages where
  count : Int
  high : Int
  batch : Int
  lists : Nat → Option (List Nat)

structure Zone where
  zoneStartPfn : Nat
  spannedPages : Nat
  /-- `free_area[order].free_list[migratetype]`, first entry first. -/
  freeList : Nat → Nat → List Nat
  /-- `free_area[order].nr_free`. -/
  nrFree : Nat → Nat
  freePages : Ulong
  /-- `vm_stat[NR_FREE_PAGES]`. -/
  nrFreePages : Int
  perCpuPageset : Nat → PerCpuPages
  page : Nat → Page

def Zone.zoneEndPfn (z : Zone) : Nat := z.zoneStartPfn + z.spannedPages

/-- Constants and helpers that the repository uses and does not define. -/
structure Platform where
  pageblockOrder : Nat
  guardpageMinorder : Nat
  flagsCheckAtFree : Ulong
  flagsCheckAtPrep : Ulong
  pageAnon : Page → Bool
  pfnValidWithin : Nat → Bool
  allocflagsToMigratetype : Gfp → Nat
  /-- Whether `first_zones_zonelist` yields the zone or `NULL`. -/
  firstZonesZonelist : Gfp → Bool
  smpProcessorId : Nat
  /-- `free_pcppages_bulk(zone, count, pcp)` on the processor's own page set. -/
  freePcppagesBulk : Zone → Nat → Zone
  zoneEndPfn : Zone → Nat
  zoneEndPfn_eq : ∀ z, zoneEndPfn z = z.zoneEndPfn

def Zone.setPage (z : Zone) (page : Nat) (edit : Page → Page) : Zone :=
  { z with page := Function.update z.page page (edit (z.page page)) }

def Zone.setFreeList (z : Zone) (order migratetype : Nat) (sequence : List Nat) : Zone :=
  { z with
    freeList := Function.update z.freeList order
      (Function.update (z.freeList order) migratetype sequence) }

/-- `init_zone`, as far as the free lists go. -/
def initZone (z : Zone) (startPfn size : Nat) : Zone :=
  { z with
    zoneStartPfn := startPfn
    spannedPages := size
    freeList := fun _ _ => []
    nrFree := fun _ => 0
    freePages := 0 }

def findBuddyPfn (pagePfn order : Nat) : Nat := pagePfn ^^^ (1 <<< order)

def pageIsBuddy (z : Zone) (page buddy order : Nat) : Bool :=
  (z.page buddy).pageBuddy && (z.page buddy).pagePrivate == order &&
    (z.page page).zoneId == (z.page buddy).zoneId

/-- `list_del` unlinks the page from whichever list it is on; the `migratetype`
argument of the source is not used. -/
def delPageFromFreeList (z : Zone) (page order : Nat) : Zone :=
  let z := z.setPage page fun p => { p with pageBuddy := false, pagePrivate := 0 }
  { z with
    freeList := fun o m => (z.freeList o m).erase page
    nrFree := Function.update z.nrFree order (z.nrFree order - 1)
    freePages := z.freePages - pageCount order }

def addPageToFreeList (z : Zone) (page order migratetype : Nat) : Zone :=
  let z := z.setFreeList order migratetype (page :: z.freeList order migratetype)
  let z := z.setPage page fun p => { p with pageBuddy := true, pagePrivate := order }
  { z with
    nrFree := Function.update z.nrFree order (z.nrFree order + 1)
    freePages := z.freePages + pageCount order }

def setPageGuard (env : Platform) (z : Zone) (page order : Nat) : Zone :=
  if env.guardpageMinorder ≤ order then
    z.setPage page fun p => { p with pageGuard := true, pagePrivate := order }
  else z

/-- The loop of `expand`; `size` is `1 << high` on entry. -/
def expandLoop (env : Platform) (page low migratetype : Nat) : Nat → Nat → Zone → Zone
  | 0, _, z => z
  | high + 1, size, z =>
    if low < high + 1 then
      let size := size >>> 1
      let z := addPageToFreeList z (page + size) high migratetype
      expandLoop env page low migratetype high size (setPageGuard env z (page + size) high)
    else z

def expand (env : Platform) (z : Zone) (page low high migratetype : Nat) : Zone :=
  expandLoop env page low migratetype high (1 <<< high) z

def setFreepageMigratetype (z : Zone) (page migratetype : Nat) : Zone :=
  z.setPage page fun p => { p with freepageMigratetype := migratetype }

/-- The loop of `__rmqueue_smallest`, counting `MAX_ORDER - current_order` down. -/
def rmqueueSmallestLoop (env : Platform) (z : Zone) (order migratetype : Nat) :
    Nat → Nat → Option Nat × Zone
  | 0, _ => (none, z)
  | rest + 1, currentOrder =>
    match z.freeList currentOrder migratetype with
    | [] => rmqueueSmallestLoop env z order migratetype rest (currentOrder + 1)
    | page :: _ =>
      let z := delPageFromFreeList z page currentOrder
      let z := expand env z page order currentOrder migratetype
      (some page, setFreepageMigratetype z page migratetype)

def rmqueueSmallest (env : Platform) (z : Zone) (order migratetype : Nat) : Option Nat × Zone :=
  rmqueueSmallestLoop env z order migratetype (MAX_ORDER - order) order

/-- Rows are padded with zero as C initialises them. -/
def fallbacks : List (List Nat) := [
  [MIGRATE_RECLAIMABLE, MIGRATE_MOVABLE, MIGRATE_TYPES, 0],
  [MIGRATE_RECLAIMABLE, MIGRATE_UNMOVABLE, MIGRATE_TYPES, 0],
  [MIGRATE_UNMOVABLE, MIGRATE_MOVABLE, MIGRATE_TYPES, 0],
  [MIGRATE_RESERVE, 0, 0, 0],
  [MIGRATE_TYPES, 0, 0, 0],
  [MIGRATE_TYPES, 0, 0, 0]]

def canStealFallback (env : Platform) (order startMt : Nat) : Bool :=
  decide (env.pageblockOrder ≤ order) || startMt == MIGRATE_MOVABLE

/-- The walk along one row with `only_stealable` false. `none` is a read past the
end of the row, `some none` the result -1. -/
def fallbackRow (env : Platform) (z : Zone) (order migratetype : Nat) :
    List Nat → Option (Option (Nat × Bool))
  | [] => none
  | fallbackMt :: row =>
    if fallbackMt = MIGRATE_TYPES then some none
    else if (z.freeList order fallbackMt).isEmpty then fallbackRow env z order migratetype row
    else some (some (fallbackMt, canStealFallback env order migratetype))

def findSuitableFallback (env : Platform) (z : Zone) (order migratetype : Nat) :
    Option (Option (Nat × Bool)) :=
  if z.nrFree order = 0 then some none
  else fallbackRow env z order migratetype (fallbacks.getD migratetype [])

/-- `page <= end_page` bounds the scan; a free block is skipped as a whole. -/
def moveFreepagesLoop (env : Platform) (endPage migratetype : Nat) (z : Zone)
    (page : Nat) (pagesMoved : BitVec 32) : BitVec 32 × Zone :=
  if page ≤ endPage then
    if env.pfnValidWithin page = false then
      moveFreepagesLoop env endPage migratetype z (page + 1) pagesMoved
    else if (z.page page).pageBuddy = false then
      moveFreepagesLoop env endPage migratetype z (page + 1) pagesMoved
    else
      let order := (z.page page).pagePrivate
      moveFreepagesLoop env endPage migratetype
        (addPageToFreeList (delPageFromFreeList z page order) page order migratetype)
        (page + 2^order) (pagesMoved + BitVec.ofNat 32 (2^order))
  else (pagesMoved, z)
termination_by endPage + 1 - page
decreasing_by
  · omega
  · omega
  · have positive := Nat.two_pow_pos (z.page page).pagePrivate
    omega

def moveFreepages (env : Platform) (z : Zone) (startPage endPage migratetype : Nat) : BitVec 32 × Zone :=
  moveFreepagesLoop env endPage migratetype z startPage 0

def pageblockNrPages (env : Platform) : Nat := 1 <<< env.pageblockOrder

def moveFreepagesBlock (env : Platform) (z : Zone) (page migratetype : Nat) : BitVec 32 × Zone :=
  let startPfn := (BitVec.ofNat 32 page &&& ~~~(BitVec.ofNat 32 (pageblockNrPages env) - 1)).toNat
  let endPage := startPfn + pageblockNrPages env - 1
  let startPage := if startPfn < z.zoneStartPfn then z.zoneStartPfn else startPfn
  if env.zoneEndPfn z ≤ endPage then (0, z) else moveFreepages env z startPage endPage migratetype

def stealSuitableFallback (env : Platform) (z : Zone) (page startType : Nat) : Zone :=
  if (z.page page).pagePrivate < env.pageblockOrder then z
  else (moveFreepagesBlock env z page startType).2

/-- One order of the search of `__rmqueue_fallback`; `further` is the search of the
orders below it. -/
def fallbackAt (env : Platform) (z : Zone) (order startMigratetype currentOrder : Nat)
    (further : Option (Option Nat × Zone)) : Option (Option Nat × Zone) :=
  if currentOrder < order then some (none, z)
  else match findSuitableFallback env z currentOrder startMigratetype with
    | none => none
    | some none => further
    | some (some (fallbackMt, canSteal)) =>
      match z.freeList currentOrder fallbackMt with
      | [] => none
      | page :: _ =>
        let z := delPageFromFreeList z page currentOrder
        let z := if canSteal then stealSuitableFallback env z page startMigratetype else z
        let z := expand env z page order currentOrder startMigratetype
        some (some page, setFreepageMigratetype z page startMigratetype)

/-- `current_order` is unsigned: stepping below zero wraps it to an index far past
`free_area`, from which the search does not come back. -/
def rmqueueFallbackLoop (env : Platform) (z : Zone) (order startMigratetype : Nat) :
    Nat → Option (Option Nat × Zone)
  | 0 => fallbackAt env z order startMigratetype 0 none
  | next + 1 => fallbackAt env z order startMigratetype (next + 1)
      (rmqueueFallbackLoop env z order startMigratetype next)

def rmqueueFallback (env : Platform) (z : Zone) (order startMigratetype : Nat) :
    Option (Option Nat × Zone) :=
  rmqueueFallbackLoop env z order startMigratetype (MAX_ORDER - 1)

/-- The merging loop of `__free_one_page`, counting `MAX_ORDER - 1 - order` down. -/
def mergeLoop : Nat → Zone → (page pfn order : Nat) → Zone × Nat × Nat
  | 0, z, page, _, order => (z, page, order)
  | rest + 1, z, page, pfn, order =>
    let buddyPfn := findBuddyPfn pfn order
    let buddy := page + ulongSub buddyPfn pfn
    if pageIsBuddy z page buddy order then
      let z := delPageFromFreeList z buddy order
      let combinedPfn := buddyPfn &&& pfn
      let combinedPage := page + ulongSub combinedPfn pfn
      mergeLoop rest z combinedPage combinedPfn (order + 1)
    else (z, page, order)

def setPageOrder (z : Zone) (page order : Nat) : Zone :=
  z.setPage page fun p => { p with pageBuddy := true, pagePrivate := order }

def freeOnePage (z : Zone) (page pfn order migratetype : Nat) : Zone :=
  let (z, page, order) := mergeLoop (MAX_ORDER - 1 - order) z page pfn order
  addPageToFreeList (setPageOrder z page order) page order migratetype

/-- The flags `clear_page_flags` clears: locked, error, referenced, dirty, active,
reserved, private and writeback. -/
def clearedFlags : Ulong :=
  1 <<< 0 ||| 1 <<< 1 ||| 1 <<< 2 ||| 1 <<< 4 ||| 1 <<< 6 ||| 1 <<< 10 ||| 1 <<< 11 ||| 1 <<< 13

def clearPageFlags (p : Page) : Page := { p with flags := p.flags &&& ~~~clearedFlags }

/-- The loop of `prep_new_page` over the pages from `page` on. `__GFP_ZERO` clears the
contents of a page and nothing of its descriptor. -/
def prepLoop (z : Zone) (page : Nat) : Nat → Zone
  | 0 => z
  | i + 1 => (prepLoop z page i).setPage (page + i) fun p =>
      { clearPageFlags p with refcount := 1, pagePrivate := 0 }

def prepNewPage (z : Zone) (page order : Nat) : Zone := prepLoop z page (1 <<< order)

/-- `none` when the fallback search does not return. -/
def rmqueue (env : Platform) (z : Zone) (order migratetype : Nat) : Option (Option Nat × Zone) :=
  let found := match rmqueueSmallest env z order migratetype with
    | (none, z) => rmqueueFallback env z order migratetype
    | (some page, z) => some (some page, z)
  found.map fun
    | (none, z) => (none, z)
    | (some page, z) =>
      let z := prepNewPage z page order
      (some page, { z with nrFreePages := z.nrFreePages - 2^order })

structure Memory where
  zone : Zone
  freePages : Ulong

def allocPages (env : Platform) (mm : Memory) (gfpMask : Gfp) (order : Nat) :
    Option (Option Nat × Memory) :=
  let migratetype := env.allocflagsToMigratetype gfpMask
  if env.firstZonesZonelist gfpMask = false then some (none, mm)
  else (rmqueue env mm.zone order migratetype).map fun
    | (none, zone) => (none, { mm with zone })
    | (some page, zone) => (some page, ⟨zone, mm.freePages - BitVec.ofNat 32 (1 <<< order)⟩)

/-- The last reason found is the one reported. -/
def badReason (env : Platform) (p : Page) : Option String :=
  if p.flags &&& env.flagsCheckAtFree ≠ 0 then some "PAGE_FLAGS_CHECK_AT_FREE flag(s) set"
  else if p.refcount ≠ 0 then some "nonzero _refcount"
  else if p.mapping ≠ 0 then some "non-NULL mapping"
  else if p.mapcount ≠ 0 then some "nonzero mapcount"
  else none

/-- The result is 1 for a bad page, which is left as it is. -/
def freePageCheck (env : Platform) (z : Zone) (page : Nat) : Nat × Zone :=
  match badReason env (z.page page) with
  | some _ => (1, z)
  | none =>
    if (z.page page).flags &&& env.flagsCheckAtPrep ≠ 0 then
      (0, z.setPage page fun p => { p with flags := p.flags &&& ~~~env.flagsCheckAtPrep })
    else (0, z)

/-- The loop of `free_page_prepare`, with the number of bad pages so far. -/
def prepareLoop (env : Platform) (z : Zone) (page : Nat) : Nat → Nat × Zone
  | 0 => (0, z)
  | i + 1 =>
    let (bad, z) := prepareLoop env z page i
    let z := if env.pageAnon (z.page (page + i)) then
      z.setPage (page + i) fun p => { p with mapping := 0 } else z
    let (worse, z) := freePageCheck env z (page + i)
    (bad + worse, z)

def freePagePrepare (env : Platform) (z : Zone) (page order : Nat) : Bool × Zone :=
  let (bad, z) := prepareLoop env z page (1 <<< order)
  if bad ≠ 0 then (false, z)
  else (true, z.setPage page fun p => { p with flags := p.flags &&& ~~~env.flagsCheckAtPrep })

def Zone.setPcp (z : Zone) (cpu : Nat) (edit : PerCpuPages → PerCpuPages) : Zone :=
  { z with perCpuPageset := Function.update z.perCpuPageset cpu (edit (z.perCpuPageset cpu)) }

def PerCpuPages.setList (pcp : PerCpuPages) (migratetype : Nat) (sequence : List Nat) : PerCpuPages :=
  { pcp with lists := Function.update pcp.lists migratetype (some sequence) }

/-- `none` when the page would be linked to a list that does not exist or was never
initialised. -/
def freeHotColdPage (env : Platform) (z : Zone) (page : Nat) (cold : Bool) : Option Zone :=
  match freePagePrepare env z page 0 with
  | (false, z) => some z
  | (true, z) =>
    let migratetype := (z.page page).freepageMigratetype
    let cpu := env.smpProcessorId
    if MIGRATE_PCPTYPES ≤ migratetype then none
    else match (z.perCpuPageset cpu).lists migratetype with
      | none => none
      | some sequence =>
        let linked := if cold then sequence ++ [page] else page :: sequence
        let z := z.setPcp cpu fun pcp => { pcp.setList migratetype linked with count := pcp.count + 1 }
        let pcp := z.perCpuPageset cpu
        if pcp.high ≤ pcp.count then
          let z := env.freePcppagesBulk z (pcp.batch % 2^32).toNat
          some (z.setPcp cpu fun emptied => { emptied with count := emptied.count - pcp.batch })
        else some z

def freePagesOk (env : Platform) (z : Zone) (page order : Nat) : Zone :=
  match freePagePrepare env z page order with
  | (false, z) => z
  | (true, z) => freeOnePage z page page order (z.page page).freepageMigratetype

/-- `put_page_testzero` drops one reference and says whether it was the last. -/
def putPageTestzero (z : Zone) (page : Nat) : Bool × Zone :=
  let z := z.setPage page fun p => { p with refcount := p.refcount - 1 }
  ((z.page page).refcount == 0, z)

def freePages (env : Platform) (z : Zone) (page order : Nat) : Option Zone :=
  match putPageTestzero z page with
  | (false, z) => some z
  | (true, z) =>
    if order = 0 then freeHotColdPage env z page false
    else some (freePagesOk env z page order)

end Kernal.Buddy
