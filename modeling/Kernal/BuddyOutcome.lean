import Kernal.BuddyOwners

/-! What `rmqueue` grants and what a call of `__free_pages` comes to, per-cpu lists and page
descriptors included. A block is freed, refused by `free_page_prepare`, or still referenced. -/
namespace Kernal.Buddy

open Blocks

/-- The fields of a descriptor that no list uses. -/
def Page.own (p : Page) : Ulong × Int × Int × Nat × Nat :=
  (p.flags, p.refcount, p.mapcount, p.mapping, p.freepageMigratetype)

def Zone.own (z : Zone) (f : Nat) : Ulong × Int × Int × Nat × Nat := (z.page f).own

section Own

variable {z : Zone} {page order migratetype : Nat}

theorem own_setPage (z : Zone) (page : Nat) (edit : Page → Page) (same : ∀ p, (edit p).own = p.own) :
    (z.setPage page edit).own = z.own := by
  funext f
  by_cases here : f = page
  · subst here
    simp only [Zone.own,Zone.setPage,Function.update_self,same]
  · simp only [Zone.own,Zone.setPage,Function.update_of_ne here]

@[simp] theorem own_del : (delPageFromFreeList z page order).own = z.own :=
  own_setPage z page (fun p => { p with pageBuddy := false, pagePrivate := 0 }) fun _ => rfl

@[simp] theorem own_add : (addPageToFreeList z page order migratetype).own = z.own :=
  own_setPage z page (fun p => { p with pageBuddy := true, pagePrivate := order }) fun _ => rfl

@[simp] theorem own_setPageGuard (env : Platform) : (setPageGuard env z page order).own = z.own := by
  unfold setPageGuard
  split
  · exact own_setPage z page (fun p => { p with pageGuard := true, pagePrivate := order }) fun _ => rfl
  · rfl

theorem own_expandLoop (env : Platform) (page low migratetype high size : Nat) (z : Zone) :
    (expandLoop env page low migratetype high size z).own = z.own := by
  induction high generalizing size z with
  | zero => rfl
  | succ high ih =>
    unfold expandLoop
    split
    · rw [ih,own_setPageGuard,own_add]
    · rfl

theorem own_mergeLoop (rest : Nat) (z : Zone) (page pfn order : Nat) :
    (mergeLoop rest z page pfn order).1.own = z.own := by
  induction rest generalizing z page pfn order with
  | zero => rfl
  | succ rest ih =>
    simp only [mergeLoop]
    split
    · rw [ih,own_del]
    · rfl

theorem own_freeOnePage (z : Zone) (page pfn order migratetype : Nat) :
    (freeOnePage z page pfn order migratetype).own = z.own := by
  simp only [freeOnePage,add_setPageOrder,own_add,own_mergeLoop]

theorem own_drained {cpu : Nat} {z z' : Zone} (drained : Drained cpu z z') : z'.own = z.own := by
  induction drained with
  | done => rfl
  | step z z' m page migratetype sequence _ _ _ _ _ ih => exact ih.trans (own_freeOnePage ..)

theorem own_splitBlock (env : Platform) (z : Zone) (page order high migratetype : Nat) :
    (splitBlock env z page order high migratetype).page page =
        { (expand env (delPageFromFreeList z page high) page order high migratetype).page page with
          freepageMigratetype := migratetype } ∧
      ∀ f, f ≠ page → (splitBlock env z page order high migratetype).own f = z.own f := by
  have rest : (expand env (delPageFromFreeList z page high) page order high migratetype).own = z.own := by
    rw [expand,own_expandLoop,own_del]
  refine ⟨Function.update_self ..,fun f other => ?_⟩
  rw [← rest]
  simp only [Zone.own,splitBlock,setFreepageMigratetype,Zone.setPage,Function.update_of_ne other]

theorem page_setPage_other (z : Zone) (edit : Page → Page) (other : f ≠ page) :
    (z.setPage page edit).page f = z.page f := Function.update_of_ne other ..

theorem freePageCheck_outside (env : Platform) (z : Zone) (other : f ≠ page) :
    (freePageCheck env z page).2.page f = z.page f := by
  unfold freePageCheck
  split
  · rfl
  · split
    · exact page_setPage_other z (fun p => { p with flags := p.flags &&& ~~~env.flagsCheckAtPrep }) other
    · rfl

theorem prepareLoop_outside (env : Platform) (z : Zone) (page n : Nat) (outside : f < page ∨ page + n ≤ f) :
    (prepareLoop env z page n).2.page f = z.page f := by
  induction n with
  | zero => rfl
  | succ n ih =>
    have other : f ≠ page + n := by omega
    rw [prepareLoop]
    refine (freePageCheck_outside env _ other).trans ?_
    split
    · exact (page_setPage_other _ _ other).trans (ih (by omega))
    · exact ih (by omega)

/-- `free_page_prepare` writes the descriptors of its own block only. -/
theorem freePagePrepare_outside (env : Platform) (z : Zone) (outside : f ∉ (⟨page,order⟩ : Block).frames) :
    (freePagePrepare env z page order).2.page f = z.page f := by
  rw [mem_frames_shift] at outside
  have loop := prepareLoop_outside env z page (1 <<< order) (f := f) (by omega)
  unfold freePagePrepare
  dsimp only
  split
  · exact loop
  · have positive : 0 < 1 <<< order := by rw [Nat.one_shiftLeft]; exact Nat.two_pow_pos order
    rw [← loop]
    exact Function.update_of_ne (by omega) ..

/-- A descriptor without a mapping or a flag that a free refuses. -/
def Page.Passes (env : Platform) (p : Page) : Prop :=
  p.flags &&& env.flagsCheckAtFree = 0 ∧ p.mapcount = 0 ∧ p.mapping = 0

theorem Page.Passes.clear {env : Platform} {p : Page} (passes : p.Passes env) (mask : Ulong) :
    { p with flags := p.flags &&& mask }.Passes env := by
  obtain ⟨flags,rest⟩ := passes
  refine ⟨?_,rest⟩
  change p.flags &&& mask &&& env.flagsCheckAtFree = 0
  rw [BitVec.and_assoc,BitVec.and_comm mask,← BitVec.and_assoc,flags]
  exact BitVec.zero_and

theorem Page.Passes.congr {env : Platform} {p p' : Page} (passes : p.Passes env) (same : p'.own = p.own) :
    p'.Passes env := by
  simp only [Page.own,Prod.mk.injEq] at same
  obtain ⟨flags,_,mapcount,mapping,_⟩ := same
  rw [Page.Passes,flags,mapcount,mapping]
  exact passes

theorem passes_setPage {env : Platform} (edit : Page → Page) (kept : ∀ p : Page, p.Passes env → (edit p).Passes env)
    (passes : (z.page f).Passes env) : ((z.setPage page edit).page f).Passes env := by
  by_cases here : f = page
  · subst here
    have head : (z.setPage f edit).page f = edit (z.page f) := Function.update_self ..
    rw [head]
    exact kept _ passes
  · rw [page_setPage_other z edit here]
    exact passes

theorem freePageCheck_passes {env : Platform} (passes : (z.page f).Passes env) :
    ((freePageCheck env z page).2.page f).Passes env := by
  unfold freePageCheck
  split
  · exact passes
  · split
    · exact passes_setPage (fun p => { p with flags := p.flags &&& ~~~env.flagsCheckAtPrep })
        (fun p passes => passes.clear _) passes
    · exact passes

theorem freePagePrepare_passes {env : Platform} (passes : (z.page f).Passes env) :
    ((freePagePrepare env z page order).2.page f).Passes env := by
  have loop (n : Nat) : ((prepareLoop env z page n).2.page f).Passes env := by
    induction n with
    | zero => exact passes
    | succ n ih =>
      rw [prepareLoop]
      apply freePageCheck_passes
      split
      · exact passes_setPage (fun p => { p with mapping := 0 }) (fun p passes => ⟨passes.1,passes.2.1,rfl⟩) ih
      · exact ih
  unfold freePagePrepare
  dsimp only
  split
  · exact loop _
  · exact passes_setPage (fun p => { p with flags := p.flags &&& ~~~env.flagsCheckAtPrep })
      (fun p passes => passes.clear _) (loop _)

end Own

structure Granted (z : Zone) (b : Block) (migratetype : Nat) (z' : Zone) : Prop extends Handed z b z' where
  pcp : PcpSound z'
  entries : z'.pcpPages = z.pcpPages
  others : ∀ f ∉ b.frames, z'.own f = z.own f
  prepared : ∀ f ∈ b.frames, ∃ type, (z'.page f).own = (preparedPage { z.page f with freepageMigratetype := type }).own
  type : (z'.page b.base).freepageMigratetype = migratetype

theorem rmqueue_granted (env : Platform) {z z' : Zone} (sound : Sound z) (pcp : PcpSound z)
    (valid : migratetype < MIGRATE_TYPES) (returns : rmqueue env z order migratetype = some (some page, z')) :
    Granted z ⟨page,order⟩ migratetype z' := by
  have handed := rmqueue_handed env sound valid returns
  obtain ⟨taken,searched,eq⟩ := rmqueue_page returns
  obtain ⟨high,t,tail,_,_,same⟩ := rmqueueSearch_page env sound searched
  obtain ⟨head,rest⟩ := own_splitBlock env z page order high migratetype
  rw [← same] at head rest
  have lists : z'.perCpuPageset = z.perCpuPageset := by
    rw [eq,prepNewPage,prepLoop_eq,same]
    exact ((setFreepageMigratetype_keeps _ page migratetype).pcp.trans (expandLoop_keeps ..).pcp).trans
      (del_keeps z page high).pcp
  have entries : z'.pcpPages = z.pcpPages := pcpPages_congr fun c => by rw [lists]
  have within {f : Nat} (inside : f ∈ (⟨page,order⟩ : Block).frames) : z'.page f = preparedPage (taken.page f) := by
    rw [eq]
    exact prepNewPage_inside inside
  have field {f : Nat} : ∃ type, (taken.page f).own = { z.page f with freepageMigratetype := type }.own := by
    by_cases here : f = page
    · subst here
      have kept : (expand env (delPageFromFreeList z f high) f order high migratetype).own f = z.own f := by
        rw [expand,own_expandLoop,own_del]
      refine ⟨migratetype,?_⟩
      rw [head]
      simp only [Zone.own,Page.own,Prod.mk.injEq] at kept ⊢
      exact ⟨kept.1,kept.2.1,kept.2.2.1,kept.2.2.2.1,trivial⟩
    · exact ⟨_,rest f here⟩
  refine { handed with pcp := ⟨?_,?_,?_,?_⟩, entries, others := ?_, prepared := ?_, type := ?_ }
  · rw [lists]
    exact pcp.initialised
  · rw [entries]
    exact pcp.once
  · rw [entries,handed.span]
    exact pcp.inside
  · rw [entries,handed.cover]
    exact fun p listed covered => pcp.apart p listed covered.1
  · intro f outside
    have other : f ≠ page := fun same => outside (same ▸ Block.base_mem ⟨page,order⟩)
    rw [← rest f other,eq]
    simp only [Zone.own,prepNewPage,prepLoop_eq,if_neg (fun h => outside ((mem_frames_shift f).mpr h))]
  · intro f inside
    obtain ⟨type,fields⟩ := field (f := f)
    refine ⟨type,?_⟩
    rw [within inside]
    simp only [Page.own,Prod.mk.injEq,preparedPage,clearPageFlags] at fields ⊢
    obtain ⟨flags,_,mapcount,mapping,kind⟩ := fields
    exact ⟨by rw [flags],trivial,mapcount,mapping,kind⟩
  · rw [within (Block.base_mem ⟨page,order⟩),preparedPage,clearPageFlags,head]

/-- What a call of `__free_pages` comes to: other references are left, `free_page_prepare`
refuses the block, or it is freed. -/
inductive Outcome where
  | shared
  | refused
  | freed
  deriving DecidableEq, Repr

def outcome (env : Platform) (z : Zone) (b : Block) : Outcome :=
  let (last, z) := putPageTestzero z b.base
  if last = false then .shared
  else if (freePagePrepare env z b.base b.order).1 = false then .refused
  else .freed

structure Released (z : Zone) (b : Block) (z' : Zone) : Prop where
  sound : Sound z'
  pcp : PcpSound z'
  span : z'.span = z.span
  available : ∀ f, z'.Available f ↔ z.Available f ∨ f ∈ b.frames

section Free

variable {env : Platform} {z z' : Zone} {page order : Nat} {b : Block}

theorem Agree.conserved (agree : Agree z z') (lists : z'.perCpuPageset = z.perCpuPageset) (sound : Sound z)
    (pcp : PcpSound z) : Conserved z z' := by
  have entries : z'.pcpPages = z.pcpPages := pcpPages_congr fun c => by rw [lists]
  refine ⟨agree.sound sound,pcp.transfer agree fun c => by rw [lists],agree.sameFree.span,fun f => ?_,?_⟩
  · rw [Zone.Available,Zone.Available,agree.cover,entries]
  · rw [agree.freePages,entries]

theorem Released.before (first : Conserved z z') (released : Released z' b z'') : Released z b z'' where
  sound := released.sound
  pcp := released.pcp
  span := released.span.trans first.span
  available f := (released.available f).trans (or_congr_left (first.available f))

theorem Released.after (released : Released z b z') (last : Conserved z' z'') : Released z b z'' where
  sound := last.sound
  pcp := last.pcp
  span := last.span.trans released.span
  available f := (last.available f).trans (released.available f)

theorem trimPcp_conserved (helpers : Helpers env) (sound : Sound z) (pcp : PcpSound z) :
    Conserved z (trimPcp env z) ∧ (trimPcp env z).own = z.own := by
  unfold trimPcp
  dsimp only
  split
  · have drained (n : Nat) := helpers.bulk z n sound pcp
    have conserved (n : Nat) := (drained n).conserved helpers.cpu sound pcp
    refine ⟨(conserved _).trans (.recount _ _ _ (fun _ => rfl) (conserved _).sound (conserved _).pcp),?_⟩
    exact (own_drained (drained _) : (env.freePcppagesBulk z _).own = z.own)
  · exact ⟨⟨sound,pcp,rfl,fun _ => Iff.rfl,rfl⟩,rfl⟩

/-- A page of the zone that is free nowhere goes to the head of a per-cpu list. -/
theorem linkPage_released {sequence : List Nat} {cpu : Nat} (pcp : PcpSound z) (sound : Sound z) (hc : cpu < NR_CPUS)
    (type : (z.page page).freepageMigratetype < MIGRATE_PCPTYPES)
    (here : (z.perCpuPageset cpu).lists (z.page page).freepageMigratetype = some sequence)
    (inside : page ∈ z.span) (taken : ¬z.Available page) :
    Released z ⟨page,0⟩ (linkPage z cpu page (page :: sequence)) := by
  obtain ⟨grown,pcp'⟩ := link_entry (fun pcp =>
    { pcp.setList (z.page page).freepageMigratetype (page :: sequence) with count := pcp.count + 1 })
    pcp hc type here inside taken rfl
  have agree : Agree z (linkPage z cpu page (page :: sequence)) := setPcp_agree ..
  have single (f : Nat) : f ∈ (⟨page,0⟩ : Block).frames ↔ f = page := by
    rw [Block.mem_frames]
    dsimp only
    omega
  refine ⟨agree.sound sound,pcp',agree.sameFree.span,fun f => ?_⟩
  change f ∈ cover _ ∨ f ∈ Zone.pcpPages (z.setPcp cpu _) ↔ _
  rw [grown,agree.cover,Multiset.mem_cons,single,Zone.Available]
  tauto

theorem freeOnePage_released (sound : Sound z) (pcp : PcpSound z) (hole : Hole z ⟨page,order⟩)
    (unlisted : ∀ f ∈ (⟨page,order⟩ : Block).frames, f ∉ z.pcpPages) (valid : migratetype < MIGRATE_TYPES) :
    Released z ⟨page,order⟩ (freeOnePage z page page order migratetype) := by
  have covered := freeOnePage_cover sound hole valid
  have span := freeOnePage_span migratetype sound hole
  have lists := (freeOnePage_keeps z page page order migratetype).pcp
  have entries : (freeOnePage z page page order migratetype).pcpPages = z.pcpPages :=
    pcpPages_congr fun c => by rw [lists]
  refine ⟨freeOnePage_sound sound hole valid,⟨?_,?_,?_,?_⟩,span,fun f => ?_⟩
  · rw [lists]
    exact pcp.initialised
  · rw [entries]
    exact pcp.once
  · rw [entries,span]
    exact pcp.inside
  · rw [entries,covered]
    rintro p listed (old | within)
    · exact pcp.apart p listed old
    · exact unlisted p within listed
  · rw [Zone.Available,Zone.Available,covered,entries,Set.mem_union]
    tauto

/-- A block that the zone does not hold: it is neither in a free block nor on a per-cpu list,
and its type has per-cpu lists. -/
structure Out (z : Zone) (b : Block) : Prop where
  hole : Hole z b
  unlisted : ∀ f ∈ b.frames, f ∉ z.pcpPages
  type : (z.page b.base).freepageMigratetype < MIGRATE_PCPTYPES

theorem Out.unavailable (out : Out z b) (inside : f ∈ b.frames) : ¬z.Available f := by
  rintro (covered | listed)
  · obtain ⟨c,free,member⟩ := mem_cover.mp covered
    exact out.hole.apart c free f inside member
  · exact out.unlisted f inside listed

structure Touched (env : Platform) (z : Zone) (b : Block) (z' : Zone) : Prop where
  others : ∀ f ∉ b.frames, z'.own f = z.own f
  type : ∀ f, (z'.page f).freepageMigratetype = (z.page f).freepageMigratetype
  passes : ∀ f, (z.page f).Passes env → (z'.page f).Passes env

theorem Touched.trans (first : Touched env z b z') (second : Touched env z' b z'') : Touched env z b z'' where
  others f outside := (second.others f outside).trans (first.others f outside)
  type f := (second.type f).trans (first.type f)
  passes f passes := second.passes f (first.passes f passes)

theorem touched_of_own (same : z'.own = z.own) : Touched env z b z' where
  others f _ := congrFun same f
  type f := congrArg (fun fields => fields.2.2.2.2) (congrFun same f)
  passes f passes := passes.congr (congrFun same f)

theorem out_of_unavailable (aligned : b.Aligned) (bound : b.order < MAX_ORDER) (inside : b.frames ⊆ z.span)
    (taken : ∀ f ∈ b.frames, ¬z.Available f) (type : (z.page b.base).freepageMigratetype < MIGRATE_PCPTYPES) :
    Out z b := by
  refine ⟨⟨aligned,bound,inside,fun c free f within member => ?_⟩,fun f within listed => ?_,type⟩
  · exact taken f within (.inl (mem_cover.mpr ⟨c,free,member⟩))
  · exact taken f within (.inr listed)

theorem Out.moved (out : Out z b) (conserved : Conserved z z')
    (type : ∀ f, (z'.page f).freepageMigratetype = (z.page f).freepageMigratetype) : Out z' b := by
  refine out_of_unavailable out.hole.aligned out.hole.bound ?_ (fun f inside available => ?_) ?_
  · rw [conserved.span]
    exact out.hole.inside
  · exact out.unavailable inside ((conserved.available f).mp available)
  · rw [type]
    exact out.type

theorem put_conserved (env : Platform) (sound : Sound z) (pcp : PcpSound z) (b : Block) :
    Conserved z (putPageTestzero z b.base).2 ∧ Touched env z b (putPageTestzero z b.base).2 := by
  have same (f : Nat) (other : f ≠ b.base) : (putPageTestzero z b.base).2.page f = z.page f :=
    page_setPage_other z (fun p => { p with refcount := p.refcount - 1 }) other
  have head : (putPageTestzero z b.base).2.page b.base =
      { z.page b.base with refcount := (z.page b.base).refcount - 1 } := Function.update_self ..
  have agree : Agree z (putPageTestzero z b.base).2 := by
    refine ⟨rfl,rfl,rfl,⟨rfl,rfl⟩,fun f => ?_⟩
    by_cases here : f = b.base
    · rw [here,head]
      exact ⟨rfl,rfl,fun _ => rfl⟩
    · rw [same f here]
      exact ⟨rfl,rfl,fun _ => rfl⟩
  refine ⟨agree.conserved rfl sound pcp,fun f outside => ?_,fun f => ?_,fun f passes => ?_⟩
  · have other : f ≠ b.base := fun here => outside (here ▸ Block.base_mem b)
    rw [Zone.own,same f other,Zone.own]
  · by_cases here : f = b.base
    · rw [here,head]
    · rw [same f here]
  · exact passes_setPage (fun p => { p with refcount := p.refcount - 1 }) (fun _ passes => passes) passes

theorem prepare_conserved (env : Platform) (sound : Sound z) (pcp : PcpSound z) (b : Block) :
    Conserved z (freePagePrepare env z b.base b.order).2 ∧
      Touched env z b (freePagePrepare env z b.base b.order).2 := by
  have marked := freePagePrepare_marked env z b.base b.order
  refine ⟨marked.agree.conserved marked.pcp sound pcp,fun f outside => ?_,marked.type,
    fun f passes => freePagePrepare_passes passes⟩
  rw [Zone.own,freePagePrepare_outside env z outside,Zone.own]

/-- A single page goes to a per-cpu list, from where it may move on. -/
theorem freeHotColdPage_released (helpers : Helpers env) (sound : Sound z) (pcp : PcpSound z)
    (out : Out z ⟨page,0⟩) (ready : freePagePrepare env z page 0 = (true,z')) :
    ∃ z'', freeHotColdPage env z page false = some z'' ∧ Released z ⟨page,0⟩ z'' ∧ Touched env z ⟨page,0⟩ z'' := by
  obtain ⟨conserved,touched⟩ := prepare_conserved env sound pcp ⟨page,0⟩
  rw [ready] at conserved touched
  have out' := out.moved conserved touched.type
  have base := Block.base_mem ⟨page,0⟩
  obtain ⟨sequence,here⟩ := conserved.pcp.initialised _ helpers.cpu _ out'.type
  have linked := linkPage_released conserved.pcp conserved.sound helpers.cpu out'.type here
    (out'.hole.inside base) (out'.unavailable base)
  obtain ⟨trimmed,same⟩ := trimPcp_conserved helpers linked.sound linked.pcp
  rw [freeHotColdPage_accepted ready,if_neg (Nat.not_le.mpr out'.type),here,Option.map_some]
  refine ⟨_,rfl,(linked.before conserved).after trimmed,touched.trans (touched_of_own ?_)⟩
  exact same.trans rfl

theorem freePagesOk_released (env : Platform) (sound : Sound z) (pcp : PcpSound z) (out : Out z b)
    (ready : freePagePrepare env z b.base b.order = (true,z')) :
    Released z b (freePagesOk env z b.base b.order) ∧ Touched env z b (freePagesOk env z b.base b.order) := by
  obtain ⟨conserved,touched⟩ := prepare_conserved env sound pcp b
  rw [ready] at conserved touched
  have out' := out.moved conserved touched.type
  have valid : (z'.page b.base).freepageMigratetype < MIGRATE_TYPES := Nat.lt_trans out'.type (by decide)
  have released := freeOnePage_released conserved.sound conserved.pcp out'.hole out'.unlisted valid
  unfold freePagesOk
  rw [ready]
  exact ⟨released.before conserved,touched.trans (touched_of_own (own_freeOnePage ..))⟩

theorem freePages_leaves_refused (put : putPageTestzero z b.base = (true,z'))
    (refused : freePagePrepare env z' b.base b.order = (false,z'')) :
    freePages env z b.base b.order = some z'' := by
  unfold freePages
  rw [put]
  dsimp only
  split
  next single =>
    rw [single] at refused
    simp only [freeHotColdPage,refused]
  next => simp only [freePagesOk,refused]

/-- What a call leaves, by its outcome. -/
def Leaves (z : Zone) (b : Block) (z' : Zone) : Outcome → Prop
  | .freed => Released z b z'
  | _ => Conserved z z'

/-- Every call of `__free_pages` on a block that is out returns, and changes what is available
exactly where its outcome says so. -/
theorem freePages_leaves (helpers : Helpers env) (sound : Sound z) (pcp : PcpSound z) (out : Out z b) :
    ∃ z', freePages env z b.base b.order = some z' ∧ Touched env z b z' ∧ Leaves z b z' (outcome env z b) := by
  obtain ⟨first,put⟩ := put_conserved env sound pcp b
  have out' := out.moved first put.type
  generalize result : putPageTestzero z b.base = dropped at first put out'
  obtain ⟨last,z₁⟩ := dropped
  dsimp only at first put out'
  obtain ⟨second,prepare⟩ := prepare_conserved env first.sound first.pcp b
  generalize ready : freePagePrepare env z₁ b.base b.order = check at second prepare
  obtain ⟨ok,z₂⟩ := check
  dsimp only at second prepare
  have ends : outcome env z b = if last = false then .shared else if ok = false then .refused else .freed := by
    simp only [outcome,result,ready]
  rw [ends]
  cases last with
  | false =>
    refine ⟨z₁,?_,put,first⟩
    unfold freePages
    rw [result]
  | true =>
    cases ok with
    | false => exact ⟨z₂,freePages_leaves_refused result ready,put.trans prepare,first.trans second⟩
    | true =>
      unfold freePages
      rw [result]
      dsimp only
      obtain ⟨page,order⟩ := b
      dsimp only at ready ⊢
      by_cases single : order = 0
      · subst single
        obtain ⟨z',freed,released,touched⟩ := freeHotColdPage_released helpers first.sound first.pcp out' ready
        exact ⟨z',(if_pos rfl).trans freed,put.trans touched,released.before first⟩
      · obtain ⟨released,touched⟩ := freePagesOk_released env first.sound first.pcp out' ready
        exact ⟨_,if_neg single,put.trans touched,released.before first⟩

/-- As `prep_new_page` leaves the pages of a block. -/
def Fresh (env : Platform) (z : Zone) (b : Block) : Prop :=
  ∀ f ∈ b.frames, (z.page f).refcount = 1 ∧ (z.page f).Passes env

/-- A block whose descriptors nobody has written is freed if it is a single page; the second
page of a larger one is still referenced. -/
theorem Fresh.ends (fresh : Fresh env z b) :
    outcome env z b = if b.order = 0 then .freed else .refused := by
  obtain ⟨one,passes⟩ := fresh b.base (Block.base_mem b)
  have head : (putPageTestzero z b.base).2.page b.base = { z.page b.base with refcount := 0 } := by
    have self : (putPageTestzero z b.base).2.page b.base =
        { z.page b.base with refcount := (z.page b.base).refcount - 1 } := Function.update_self ..
    rw [self,one]
    rfl
  have dropped : (putPageTestzero z b.base).1 = true := by
    change (((putPageTestzero z b.base).2.page b.base).refcount == 0) = true
    rw [head]
    rfl
  have ends (ok : Bool) (ready : (freePagePrepare env (putPageTestzero z b.base).2 b.base b.order).1 = ok) :
      outcome env z b = if ok = false then .refused else .freed := by
    simp only [outcome,dropped,ready,Bool.true_eq_false,if_false]
  have accepts : (freePagePrepare env (putPageTestzero z b.base).2 b.base 0).1 = true := by
    apply freePagePrepare_single <;> rw [head]
    · exact passes.1
    · exact passes.2.1
    · exact passes.2.2
  by_cases single : b.order = 0
  · rw [if_pos single]
    exact (ends true (single ▸ accepts)).trans rfl
  · rw [if_neg single]
    have two : 1 < 2^b.order := Nat.one_lt_two_pow single
    have second : b.base + 1 ∈ b.frames := by
      rw [Block.mem_frames]
      omega
    refine (ends false (freePagePrepare_referenced (i := 1) ?_ two)).trans rfl
    rw [putPageTestzero,page_setPage_other z _ (by omega),(fresh _ second).1]
    decide

theorem Fresh.congr {z' : Zone} (fresh : Fresh env z b) (same : ∀ f ∈ b.frames, z'.own f = z.own f) :
    Fresh env z' b := by
  intro f inside
  obtain ⟨one,passes⟩ := fresh f inside
  have refcount := congrArg (fun fields => fields.2.1) (same f inside)
  exact ⟨Eq.trans refcount one,passes.congr (same f inside)⟩

theorem Granted.fresh {z' : Zone} {migratetype : Nat} (granted : Granted z b migratetype z')
    (passes : ∀ f ∈ b.frames, (z.page f).Passes env) : Fresh env z' b := by
  intro f inside
  obtain ⟨type,fields⟩ := granted.prepared f inside
  have prepared : (preparedPage { z.page f with freepageMigratetype := type }).Passes env :=
    Page.Passes.clear (p := { z.page f with freepageMigratetype := type }) (passes f inside) (~~~clearedFlags)
  exact ⟨congrArg (fun fields => fields.2.1) fields,prepared.congr fields⟩

end Free

end Kernal.Buddy
