import Kernal.BuddyPcp
import Kernal.BuddySearch

/-! An allocated block handed back at once. `prep_new_page` gives every page of the
block a reference and `__free_pages` drops the one of the first page, so the check of
`free_page_prepare` passes only for a block of a single page; a larger block is
refused and reaches no list at all. -/
namespace Kernal.Buddy

open Blocks

def preparedPage (p : Page) : Page := { clearPageFlags p with refcount := 1, pagePrivate := 0 }

theorem prepLoop_eq (z : Zone) (page n : Nat) : prepLoop z page n =
    { z with page := fun p => if page ≤ p ∧ p < page + n then preparedPage (z.page p) else z.page p } := by
  induction n with
  | zero =>
    have never (p : Nat) : ¬(page ≤ p ∧ p < page + 0) := by omega
    simp only [prepLoop,never,if_false]
  | succ n ih =>
    rw [prepLoop,ih,Zone.setPage]
    congr 1
    funext p
    by_cases last : p = page + n
    · subst p
      rw [Function.update_self,if_pos (by omega)]
      dsimp only
      rw [if_neg (by omega)]
      rfl
    · rw [Function.update_of_ne last]
      dsimp only
      by_cases inside : page ≤ p ∧ p < page + n
      · rw [if_pos inside,if_pos (by omega)]
      · rw [if_neg inside,if_neg (by omega)]

/-- The state between `alloc_pages` and `__free_pages`: the block is in no free block
and on no per-cpu list, and each of its pages carries one reference. -/
structure Allotted (env : Platform) (z : Zone) (page order : Nat) (z' : Zone) : Prop where
  sound : Sound z'
  pcp : PcpSound z'
  hole : Hole z' ⟨page,order⟩
  unlisted : ∀ f ∈ (⟨page,order⟩ : Block).frames, f ∉ z'.pcpPages
  total : z'.freePages + BitVec.ofNat 32 z'.pcpPages.card + pageCount order =
    z.freePages + BitVec.ofNat 32 z.pcpPages.card
  refcount : ∀ f ∈ (⟨page,order⟩ : Block).frames, (z'.page f).refcount = 1
  clean : ∀ f ∈ (⟨page,order⟩ : Block).frames, (z'.page f).flags &&& env.flagsCheckAtFree = 0 ∧
    (z'.page f).mapcount = 0 ∧ (z'.page f).mapping = 0
  type : (z'.page page).freepageMigratetype < MIGRATE_PCPTYPES

/-- No page of the zone is mapped or carries a flag that a free refuses. -/
def Clean (env : Platform) (z : Zone) : Prop :=
  ∀ p ∈ z.span, (z.page p).flags &&& env.flagsCheckAtFree = 0 ∧ (z.page p).mapcount = 0 ∧
    (z.page p).mapping = 0

theorem mem_frames_shift (f : Nat) :
    f ∈ (⟨page,order⟩ : Block).frames ↔ page ≤ f ∧ f < page + 1 <<< order := by
  rw [Block.mem_frames,Nat.one_shiftLeft]

theorem prepNewPage_inside (inside : f ∈ (⟨page,order⟩ : Block).frames) :
    (prepNewPage z page order).page f = preparedPage (z.page f) := by
  simp only [prepNewPage,prepLoop_eq,if_pos ((mem_frames_shift f).mp inside)]

/-- Preparing an allocated block touches no free block. -/
theorem Hole.prepared (hole : Hole z ⟨page,order⟩) (sound : Sound z) : Agree z (prepNewPage z page order) := by
  have eq : prepNewPage z page order = _ := prepLoop_eq z page (1 <<< order)
  refine ⟨by rw [eq],by rw [eq],by rw [eq],by rw [eq]; exact ⟨rfl,rfl⟩,fun f => ?_⟩
  by_cases inside : f ∈ (⟨page,order⟩ : Block).frames
  · rw [prepNewPage_inside inside]
    refine ⟨rfl,rfl,fun marked => ?_⟩
    obtain ⟨o,free⟩ := sound.flagged f marked
    exact absurd free (hole.base_not_free inside)
  · simp only [prepNewPage,prepLoop_eq,if_neg (fun h => inside ((mem_frames_shift f).mpr h)),true_and,
      implies_true]

theorem prepNewPage_allotted (taken : Taken z page order migratetype z') (pcp : PcpSound z)
    (clean : Clean env z) (type : migratetype < MIGRATE_PCPTYPES) (nrFreePages : Int) :
    Allotted env z page order { prepNewPage z' page order with nrFreePages } := by
  have within {f : Nat} (inside : f ∈ (⟨page,order⟩ : Block).frames) :
      ({ prepNewPage z' page order with nrFreePages }).page f = preparedPage (z'.page f) :=
    prepNewPage_inside inside
  have prepared := taken.hole.prepared taken.inv.toSound
  have agree : Agree z' { prepNewPage z' page order with nrFreePages } :=
    ⟨prepared.freeList,prepared.nrFree,prepared.freePages,prepared.span,prepared.page⟩
  have lists : ({ prepNewPage z' page order with nrFreePages } : Zone).perCpuPageset =
      z.perCpuPageset := by
    simp only [prepNewPage,prepLoop_eq,taken.keeps.pcp]
  have entries : ({ prepNewPage z' page order with nrFreePages } : Zone).pcpPages = z.pcpPages :=
    pcpPages_congr fun c => by rw [lists]
  have coverEq : cover ({ prepNewPage z' page order with nrFreePages } : Zone).freeBlocks =
      cover z'.freeBlocks := by
    simp only [Zone.freeBlocks,agree.free]
  constructor
  case sound => exact agree.sound taken.inv.toSound
  case hole => exact agree.sameFree.hole taken.hole
  case pcp =>
    refine ⟨by rw [lists]; exact pcp.initialised,by rw [entries]; exact pcp.once,?_,?_⟩
    · rw [entries,agree.sameFree.span,taken.span]; exact pcp.inside
    · rw [entries,coverEq]
      exact fun p listed covered => pcp.apart p listed (taken.rest covered)
  case unlisted =>
    rw [entries]
    exact fun f inside listed => pcp.apart f listed (taken.source inside)
  case total =>
    rw [entries,agree.freePages,BitVec.add_assoc,BitVec.add_comm (BitVec.ofNat 32 _),← BitVec.add_assoc,
      taken.freePages]
  case refcount =>
    intro f inside
    rw [within inside]; rfl
  case clean =>
    intro f inside
    have here := taken.hole.inside inside
    rw [taken.span] at here
    have before := clean f here
    rw [← taken.keeps.flags,← taken.keeps.mapcount,← taken.keeps.mapping] at before
    rw [within inside]
    refine ⟨?_,before.2⟩
    change (z'.page f).flags &&& ~~~clearedFlags &&& env.flagsCheckAtFree = 0
    rw [BitVec.and_assoc,BitVec.and_comm (~~~clearedFlags),← BitVec.and_assoc,before.1]
    exact BitVec.zero_and
  case type =>
    rw [within (Block.base_mem ⟨page,order⟩)]
    exact lt_of_eq_of_lt taken.type type

theorem allocPages_allotted (inv : Inv mm.zone) (pcp : PcpSound mm.zone)
    (clean : Clean env mm.zone) (type : env.allocflagsToMigratetype gfpMask < MIGRATE_PCPTYPES)
    (returns : allocPages env mm gfpMask order = some (some page,mm')) :
    Allotted env mm.zone page order mm'.zone := by
  have valid : env.allocflagsToMigratetype gfpMask < MIGRATE_TYPES := Nat.lt_trans type (by decide)
  unfold allocPages at returns
  split at returns
  · simp at returns
  · obtain ⟨⟨result,zone⟩,found,eq⟩ := Option.map_eq_some_iff.mp returns
    cases result with
    | none => simp at eq
    | some head =>
      simp only [Prod.mk.injEq,Option.some.injEq] at eq
      obtain ⟨rfl,rfl⟩ := eq
      obtain ⟨taken,spec,rfl⟩ := rmqueue_taken env inv valid found
      exact prepNewPage_allotted spec pcp clean type _

section Check

variable {env : Platform} {z : Zone} {page : Nat}

structure Marked (z z' : Zone) : Prop where
  agree : Agree z z'
  pcp : z'.perCpuPageset = z.perCpuPageset
  refcount : ∀ p, (z'.page p).refcount = (z.page p).refcount
  type : ∀ p, (z'.page p).freepageMigratetype = (z.page p).freepageMigratetype

theorem Marked.refl (z : Zone) : Marked z z :=
  ⟨⟨rfl,rfl,rfl,⟨rfl,rfl⟩,fun _ => ⟨rfl,rfl,fun _ => rfl⟩⟩,rfl,fun _ => rfl,fun _ => rfl⟩

theorem Agree.trans (first : Agree z z') (second : Agree z' z'') : Agree z z'' where
  freeList := second.freeList.trans first.freeList
  nrFree := second.nrFree.trans first.nrFree
  freePages := second.freePages.trans first.freePages
  span := ⟨second.span.1.trans first.span.1,second.span.2.trans first.span.2⟩
  page p := by
    obtain ⟨buddy,zone,order⟩ := first.page p
    obtain ⟨buddy',zone',order'⟩ := second.page p
    refine ⟨buddy'.trans buddy,zone'.trans zone,fun marked => ?_⟩
    rw [order' (buddy.trans marked),order marked]

theorem Marked.trans (first : Marked z z') (second : Marked z' z'') : Marked z z'' where
  agree := first.agree.trans second.agree
  pcp := second.pcp.trans first.pcp
  refcount p := (second.refcount p).trans (first.refcount p)
  type p := (second.type p).trans (first.type p)

theorem setFlags_marked (z : Zone) (page : Nat) (flags : Ulong → Ulong) :
    Marked z (z.setPage page fun p => { p with flags := flags p.flags }) := by
  refine ⟨⟨rfl,rfl,rfl,⟨rfl,rfl⟩,?_⟩,rfl,?_,?_⟩ <;> intro p <;> by_cases same : p = page
  all_goals simp [Zone.setPage,same]

theorem setMapping_marked (z : Zone) (page mapping : Nat) :
    Marked z (z.setPage page fun p => { p with mapping := mapping }) := by
  refine ⟨⟨rfl,rfl,rfl,⟨rfl,rfl⟩,?_⟩,rfl,?_,?_⟩ <;> intro p <;> by_cases same : p = page
  all_goals simp [Zone.setPage,same]

theorem freePageCheck_marked : Marked z (freePageCheck env z page).2 := by
  unfold freePageCheck
  split
  · exact Marked.refl z
  · split
    · exact setFlags_marked z page (· &&& ~~~env.flagsCheckAtPrep)
    · exact Marked.refl z

theorem unmap_marked (z : Zone) (page : Nat) (anon : Bool) :
    Marked z (if anon then z.setPage page fun p => { p with mapping := 0 } else z) := by
  cases anon
  · exact Marked.refl z
  · exact setMapping_marked z page 0

theorem prepareLoop_marked (env : Platform) (z : Zone) (page n : Nat) : Marked z (prepareLoop env z page n).2 := by
  induction n with
  | zero => exact Marked.refl z
  | succ n ih => exact (ih.trans (unmap_marked _ _ _)).trans freePageCheck_marked

theorem freePagePrepare_marked (env : Platform) (z : Zone) (page order : Nat) :
    Marked z (freePagePrepare env z page order).2 := by
  unfold freePagePrepare
  dsimp only
  split
  · exact prepareLoop_marked env z page _
  · exact (prepareLoop_marked env z page _).trans (setFlags_marked _ page (· &&& ~~~env.flagsCheckAtPrep))

/-- A page that is still referenced counts as bad. -/
theorem freePageCheck_referenced (referenced : (z.page page).refcount ≠ 0) :
    (freePageCheck env z page).1 = 1 := by
  unfold freePageCheck
  have bad : badReason env (z.page page) ≠ none := by
    unfold badReason
    rw [if_pos referenced]
    split <;> simp
  split
  · rfl
  next none => exact absurd none bad

theorem prepareLoop_referenced (referenced : (z.page (page + i)).refcount ≠ 0) (inside : i < n) :
    (prepareLoop env z page n).1 ≠ 0 := by
  induction n with
  | zero => omega
  | succ n ih =>
    rw [prepareLoop]
    dsimp only
    by_cases last : i = n
    · subst i
      have before := (prepareLoop_marked env z page n).trans
        (unmap_marked _ (page + n) (env.pageAnon ((prepareLoop env z page n).2.page (page + n))))
      rw [freePageCheck_referenced (by rw [before.refcount]; exact referenced)]
      omega
    · have earlier := ih (by omega)
      omega

theorem freePagePrepare_referenced (referenced : (z.page (page + i)).refcount ≠ 0)
    (inside : i < 2^order) : (freePagePrepare env z page order).1 = false := by
  unfold freePagePrepare
  dsimp only
  rw [if_pos (prepareLoop_referenced referenced (by rwa [Nat.one_shiftLeft]))]

/-- A single page is checked once its anonymous mapping is dropped. -/
theorem freePagePrepare_accepts (env : Platform) (z : Zone) (page : Nat) :
    (freePagePrepare env z page 0).1 = true ↔
      badReason env (if env.pageAnon (z.page page) then { z.page page with mapping := 0 } else z.page page) =
        none := by
  have check (z : Zone) : (freePageCheck env z page).1 = 0 ↔ badReason env (z.page page) = none := by
    unfold freePageCheck
    split
    · next bad => simp [bad]
    · next good => split <;> simp [good]
  have loop : (prepareLoop env z page 1).1 = (freePageCheck env (if env.pageAnon (z.page page) then
      z.setPage page fun p => { p with mapping := 0 } else z) page).1 := Nat.zero_add _
  have unmapped : (if env.pageAnon (z.page page) then
      z.setPage page fun p => { p with mapping := 0 } else z).page page =
      if env.pageAnon (z.page page) then { z.page page with mapping := 0 } else z.page page := by
    split <;> simp [Zone.setPage]
  rw [← unmapped,← check,← loop]
  simp only [freePagePrepare,Nat.shiftLeft_zero]
  split
  · next bad => simpa using bad
  · next good => simpa using good

/-- A single unreferenced page without a mapping or a refused flag passes. -/
theorem freePagePrepare_single (unreferenced : (z.page page).refcount = 0)
    (flags : (z.page page).flags &&& env.flagsCheckAtFree = 0)
    (mapcount : (z.page page).mapcount = 0) (mapping : (z.page page).mapping = 0) :
    (freePagePrepare env z page 0).1 = true := by
  rw [freePagePrepare_accepts]
  split <;> simp [badReason,unreferenced,flags,mapcount,mapping]

end Check

/-- What the functions used here and defined elsewhere do: the processor number is
an index of `per_cpu_pageset`, an allocation asks for one of the types with per-cpu
lists, and `free_pcppages_bulk` moves pages of this processor's lists back to the
free blocks. -/
structure Helpers (env : Platform) : Prop where
  cpu : env.smpProcessorId < NR_CPUS
  types : ∀ gfpMask, env.allocflagsToMigratetype gfpMask < MIGRATE_PCPTYPES
  bulk : ∀ z n, Sound z → PcpSound z → Drained env.smpProcessorId z (env.freePcppagesBulk z n)

/-- Every frame of the block is free in exactly one place, and no page is missing. -/
structure Restored (z z' : Zone) (page order : Nat) : Prop where
  places : ∀ f ∈ (⟨page,order⟩ : Block).frames, z'.places f = 1
  total : z'.freePages + BitVec.ofNat 32 z'.pcpPages.card =
    z.freePages + BitVec.ofNat 32 z.pcpPages.card

section Return

variable {env : Platform} {z z' : Zone} {page order : Nat}

/-- The zone with the block's only counted reference dropped. -/
theorem Allotted.put (allotted : Allotted env z page order z') :
    ∃ put, putPageTestzero z' page = (true,put) ∧ Agree z' put ∧
      put.perCpuPageset = z'.perCpuPageset ∧ (put.page page) = { z'.page page with refcount := 0 } ∧
      ∀ p, p ≠ page → put.page p = z'.page p := by
  have one := allotted.refcount page (Block.base_mem ⟨page,order⟩)
  refine ⟨z'.setPage page fun p => { p with refcount := p.refcount - 1 },?_,?_,rfl,?_,?_⟩
  · simp [putPageTestzero,Zone.setPage,one]
  · refine ⟨rfl,rfl,rfl,⟨rfl,rfl⟩,?_⟩
    intro p
    by_cases same : p = page <;> simp [Zone.setPage,same]
  · simp [Zone.setPage,one]
  · intro p different
    simp [Zone.setPage,different]

/-- The second page of a larger block still has its reference, so nothing is freed. -/
theorem Allotted.lost (allotted : Allotted env z page order z') (large : order ≠ 0) :
    ∃ z'', freePages env z' page order = some z'' ∧
      ∀ f ∈ (⟨page,order⟩ : Block).frames, ¬z''.Available f := by
  obtain ⟨put,dropped,agree,lists,_,others⟩ := allotted.put
  have two : 1 < 2^order := Nat.one_lt_two_pow large
  have second : (put.page (page + 1)).refcount ≠ 0 := by
    rw [others (page + 1) (by omega),allotted.refcount]
    · decide
    · rw [Block.mem_frames]
      dsimp only
      omega
  have refused : (freePagePrepare env put page order).1 = false := freePagePrepare_referenced second two
  have marked := freePagePrepare_marked env put page order
  refine ⟨(freePagePrepare env put page order).2,?_,?_⟩
  · simp only [freePages,dropped,if_neg large,freePagesOk,Option.some.injEq]
    split
    next eq => rw [eq]
    next eq => rw [eq] at refused; contradiction
  · rintro f inside (covered | listed)
    · obtain ⟨c,free,within⟩ := mem_cover.mp covered
      exact allotted.hole.apart c (agree.free.mp (marked.agree.free.mp free)) f inside within
    · rw [pcpPages_congr (z := z') (fun c => by rw [marked.pcp,lists])] at listed
      exact allotted.unlisted f inside listed

theorem Restored.of_conserved (conserved : Conserved linked z') (available : linked.Available page)
    (total : linked.freePages + BitVec.ofNat 32 linked.pcpPages.card =
      z.freePages + BitVec.ofNat 32 z.pcpPages.card) : Restored z z' page 0 := by
  refine ⟨?_,conserved.total.trans total⟩
  intro f inside
  rw [Block.mem_frames] at inside
  dsimp only at inside
  rw [show f = page by omega]
  exact conserved.pcp.places_eq_one conserved.sound ((conserved.available page).mpr available)

/-- A single page goes to the head of a per-cpu list, from where it may move on. -/
theorem Allotted.returned (allotted : Allotted env z page 0 z') (helpers : Helpers env) :
    ∃ z'', freePages env z' page 0 = some z'' ∧ Restored z z'' page 0 := by
  obtain ⟨put,dropped,agree,lists,head,_⟩ := allotted.put
  have inside := Block.base_mem ⟨page,0⟩
  obtain ⟨flags,mapcount,mapping⟩ := allotted.clean page inside
  have passes : (freePagePrepare env put page 0).1 = true :=
    freePagePrepare_single (by rw [head]) (by rw [head]; exact flags) (by rw [head]; exact mapcount)
      (by rw [head]; exact mapping)
  have marked := freePagePrepare_marked env put page 0
  generalize hz : (freePagePrepare env put page 0).2 = ready at marked
  have split : freePagePrepare env put page 0 = (true,ready) := Prod.ext passes hz
  have same : Agree z' ready := agree.trans marked.agree
  have pageset : ready.perCpuPageset = z'.perCpuPageset := marked.pcp.trans lists
  have pcp : PcpSound ready := allotted.pcp.transfer same fun c => by rw [pageset]
  have entries : ready.pcpPages = z'.pcpPages := pcpPages_congr fun c => by rw [pageset]
  have type : (ready.page page).freepageMigratetype < MIGRATE_PCPTYPES := by
    rw [marked.type,head]; exact allotted.type
  have taken : ¬ready.Available page := by
    rintro (covered | listed)
    · obtain ⟨c,free,within⟩ := mem_cover.mp covered
      exact allotted.hole.apart c (same.free.mp free) page inside within
    · rw [entries] at listed
      exact allotted.unlisted page inside listed
  obtain ⟨sequence,here⟩ := pcp.initialised _ helpers.cpu _ type
  have located : page ∈ ready.span := by
    rw [same.sameFree.span]; exact allotted.hole.inside inside
  let link (pcp : PerCpuPages) : PerCpuPages :=
    { pcp.setList (ready.page page).freepageMigratetype (page :: sequence) with count := pcp.count + 1 }
  obtain ⟨grown,pcp'⟩ := link_entry link pcp helpers.cpu type here located taken rfl
  generalize hl : ready.setPcp env.smpProcessorId link = linked at grown pcp'
  have agreed : Agree ready linked := hl ▸ setPcp_agree _ _ _
  have sound := agreed.sound (same.sound allotted.sound)
  have total : linked.freePages + BitVec.ofNat 32 linked.pcpPages.card =
      z.freePages + BitVec.ofNat 32 z.pcpPages.card := by
    rw [← allotted.total,grown,entries,Multiset.card_cons,agreed.freePages,same.freePages,
      BitVec.ofNat_add,← BitVec.add_assoc]
    rfl
  have available : linked.Available page := .inr (by rw [grown]; exact Multiset.mem_cons_self _ _)
  have reaches : freePages env z' page 0 = some (trimPcp env linked) := by
    simp only [freePages,dropped,if_true]
    rw [freeHotColdPage_accepted split,if_neg (Nat.not_le.mpr type),here,← hl]
    rfl
  refine ⟨_,reaches,?_⟩
  dsimp only [trimPcp]
  split
  · have drained (n : Nat) := (helpers.bulk linked n sound pcp').conserved helpers.cpu sound pcp'
    exact .of_conserved ((drained _).trans
      (.recount _ _ _ (fun _ => rfl) (drained _).sound (drained _).pcp)) available total
  · exact .of_conserved ⟨sound,pcp',rfl,fun _ => Iff.rfl,rfl⟩ available total

end Return

/-- A block allocated and freed again is back exactly when it is a single page. -/
theorem alloc_free_restores_iff (helpers : Helpers env) (inv : Inv mm.zone) (pcp : PcpSound mm.zone)
    (clean : Clean env mm.zone)
    (returns : allocPages env mm gfpMask order = some (some page,mm')) :
    ∃ z', freePages env mm'.zone page order = some z' ∧
      (Restored mm.zone z' page order ↔ order = 0) := by
  have allotted := allocPages_allotted inv pcp clean (helpers.types gfpMask) returns
  by_cases single : order = 0
  · subst order
    obtain ⟨z',freed,restored⟩ := allotted.returned helpers
    exact ⟨z',freed,iff_of_true restored rfl⟩
  · obtain ⟨z',freed,gone⟩ := allotted.lost single
    refine ⟨z',freed,iff_of_false (fun restored => ?_) single⟩
    have place := restored.places page (Block.base_mem ⟨page,order⟩)
    rw [places_eq_zero (gone page (Block.base_mem ⟨page,order⟩))] at place
    contradiction

theorem bulk_drained (cpu : Nat) (z : Zone) (n : Nat) : Drained cpu z (bulk cpu z n) := by
  induction n generalizing z with
  | zero => exact .done z
  | succ n ih =>
    rw [bulk]
    have lists : ∀ m ∈ List.range MIGRATE_PCPTYPES, m < MIGRATE_PCPTYPES := fun m => List.mem_range.mp
    generalize List.range MIGRATE_PCPTYPES = types at lists
    induction types with
    | nil => exact ih z
    | cons m others next =>
      have further := next fun m member => lists m (List.mem_cons_of_mem _ member)
      have valid := lists m List.mem_cons_self
      unfold bulkOne
      split
      · exact further
      next sequence here =>
        split
        · exact further
        next page last =>
          exact .step z _ m page m sequence valid here (List.mem_of_getLast? last)
            (Nat.lt_trans valid (by decide)) (ih _)

theorem bootPlatform_helpers : Helpers bootPlatform where
  cpu := by decide
  types gfpMask := by
    simp only [bootPlatform]
    split
    · decide
    · split <;> decide
  bulk z n _ _ := bulk_drained 0 z n

section Example

def freedAtZero (order : Nat) : Zone := freeOnePage newZone 0 0 order MIGRATE_MOVABLE

theorem freedAtZero_inv (order : Nat) (bound : order < MAX_ORDER) : Inv (freedAtZero order) := by
  have fits : 2^order ≤ 2^10 := Nat.pow_le_pow_right (by decide) (Nat.le_of_lt_succ bound)
  have hole : Hole newZone ⟨0,order⟩ := newZone_hole (Nat.dvd_zero _) bound (by omega)
  exact (freeOnePage_inv_iff newZone_inv hole (by decide)).mpr (newZone_lone 0 order)

theorem freedAtZero_keeps (order : Nat) : Keeps newZone (freedAtZero order) := freeOnePage_keeps _ _ _ _ _

theorem freedAtZero_pcp (order : Nat) : PcpSound (freedAtZero order) := by
  have lists (cpu m : Nat) : ((freedAtZero order).perCpuPageset cpu).lists m = some [] := by
    rw [(freedAtZero_keeps order).pcp]; rfl
  have empty : (freedAtZero order).pcpPages = 0 := by
    simp [Zone.pcpPages,PerCpuPages.list,lists]
  refine ⟨fun cpu _ m _ => ⟨[],lists cpu m⟩,?_,?_,?_⟩
  all_goals simp [empty]

theorem freedAtZero_clean (order : Nat) : Clean bootPlatform (freedAtZero order) := by
  intro p _
  rw [(freedAtZero_keeps order).flags,(freedAtZero_keeps order).mapcount,(freedAtZero_keeps order).mapping]
  exact ⟨show (0 : Ulong) &&& 1 = 0 by decide,rfl,rfl⟩

theorem alloc_free_restores_iff_frame_zero : ∃ mm' z',
    allocPages bootPlatform ⟨freedAtZero 0,1⟩ 0x08 0 = some (some 0,mm') ∧
    freePages bootPlatform mm'.zone 0 0 = some z' ∧ Restored (freedAtZero 0) z' 0 0 := by
  obtain ⟨mm',returns⟩ : ∃ mm', allocPages bootPlatform ⟨freedAtZero 0,1⟩ 0x08 0 = some (some 0,mm') :=
    ⟨_,rfl⟩
  obtain ⟨z',freed,restored⟩ := alloc_free_restores_iff bootPlatform_helpers
    (freedAtZero_inv 0 (by decide)) (freedAtZero_pcp 0) (freedAtZero_clean 0) returns
  exact ⟨mm',z',returns,freed,restored.mpr rfl⟩

/-- Two pages allocated together are lost when they are freed together. -/
theorem free_loses_pair : ¬∀ (env : Platform) (mm mm' : Memory) (gfpMask : Gfp) (order page : Nat)
    (z' : Zone), Helpers env → Inv mm.zone → PcpSound mm.zone → Clean env mm.zone →
    order < MAX_ORDER → allocPages env mm gfpMask order = some (some page,mm') →
    freePages env mm'.zone page order = some z' → Restored mm.zone z' page order := by
  intro kept
  obtain ⟨mm',returns⟩ : ∃ mm', allocPages bootPlatform ⟨freedAtZero 1,2⟩ 0x08 1 = some (some 0,mm') :=
    ⟨_,rfl⟩
  have inv := freedAtZero_inv 1 (by decide)
  obtain ⟨z',freed,gone⟩ := (allocPages_allotted inv (freedAtZero_pcp 1) (freedAtZero_clean 1)
    (bootPlatform_helpers.types 0x08) returns).lost (by decide)
  have restored := kept bootPlatform _ mm' 0x08 1 0 z' bootPlatform_helpers inv
    (freedAtZero_pcp 1) (freedAtZero_clean 1) (by decide) returns freed
  have place := restored.places 0 (Block.base_mem ⟨0,1⟩)
  rw [places_eq_zero (gone 0 (Block.base_mem ⟨0,1⟩))] at place
  contradiction

end Example

end Kernal.Buddy
