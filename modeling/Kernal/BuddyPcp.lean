import Kernal.BuddyTake
import Mathlib.Algebra.BigOperators.Group.Multiset.Basic
import Mathlib.Data.Set.Card

/-! The per-cpu lists beside the free blocks. A frame is free in one place, in a block
or on a list; draining a list frees its pages one by one and conserves both the frames
that are free and their number. -/
namespace Kernal.Buddy

open Blocks

def PerCpuPages.list (pcp : PerCpuPages) (migratetype : Nat) : Multiset Nat :=
  ((pcp.lists migratetype).getD [] : List Nat)

def Zone.pcpPages (z : Zone) : Multiset Nat :=
  ∑ cpu ∈ Finset.range NR_CPUS, ∑ m ∈ Finset.range MIGRATE_PCPTYPES, (z.perCpuPageset cpu).list m

/-- The number of places a frame is free in: free blocks around it, and entries on
per-cpu lists. -/
noncomputable def Zone.places (z : Zone) (f : Nat) : Nat :=
  {b | z.Free b ∧ f ∈ b.frames}.ncard + z.pcpPages.count f

/-- The per-cpu lists are initialised and hold frames of the zone, each once and none
that a free block covers. -/
structure PcpSound (z : Zone) : Prop where
  initialised : ∀ cpu < NR_CPUS, ∀ m < MIGRATE_PCPTYPES,
    ∃ sequence, (z.perCpuPageset cpu).lists m = some sequence
  once : z.pcpPages.Nodup
  inside : ∀ p ∈ z.pcpPages, p ∈ z.span
  apart : ∀ p ∈ z.pcpPages, p ∉ cover z.freeBlocks

def Zone.Available (z : Zone) (f : Nat) : Prop := f ∈ cover z.freeBlocks ∨ f ∈ z.pcpPages

theorem PcpSound.places_eq_one (pcp : PcpSound z) (sound : Sound z) (available : z.Available f) :
    z.places f = 1 := by
  rcases available with covered | listed
  · obtain ⟨b,free,inside⟩ := mem_cover.mp covered
    have single : {b | z.Free b ∧ f ∈ b.frames} = {b} := by
      ext c
      simp only [Set.mem_ofPred_eq,Set.mem_singleton_iff]
      constructor
      · rintro ⟨other,within⟩
        exact sound.disjoint c other b free f within inside
      · rintro rfl
        exact ⟨free,inside⟩
    have absent : f ∉ z.pcpPages := fun listed => pcp.apart f listed covered
    rw [Zone.places,single,Set.ncard_singleton,Multiset.count_eq_zero_of_notMem absent]
  · have none : {b | z.Free b ∧ f ∈ b.frames} = ∅ := by
      apply Set.eq_empty_iff_forall_notMem.mpr
      rintro b ⟨free,inside⟩
      exact pcp.apart f listed (mem_cover.mpr ⟨b,free,inside⟩)
    rw [Zone.places,none,Set.ncard_empty,Multiset.count_eq_one_of_mem pcp.once listed]

theorem places_eq_zero {z : Zone} (lost : ¬z.Available f) : z.places f = 0 := by
  have none : {b | z.Free b ∧ f ∈ b.frames} = ∅ := by
    apply Set.eq_empty_iff_forall_notMem.mpr
    rintro b ⟨free,inside⟩
    exact lost (.inl (mem_cover.mpr ⟨b,free,inside⟩))
  rw [Zone.places,none,Set.ncard_empty,Multiset.count_eq_zero_of_notMem (fun h => lost (.inr h))]

section Pcp

variable {z : Zone} {cpu migratetype : Nat} {edit : PerCpuPages → PerCpuPages}

theorem pcpPages_congr {z' : Zone} (same : ∀ cpu, (z'.perCpuPageset cpu).lists = (z.perCpuPageset cpu).lists) :
    z'.pcpPages = z.pcpPages := by
  simp only [Zone.pcpPages,PerCpuPages.list,same]

theorem setPcp_agree (z : Zone) (cpu : Nat) (edit : PerCpuPages → PerCpuPages) :
    Agree z (z.setPcp cpu edit) :=
  ⟨rfl,rfl,rfl,⟨rfl,rfl⟩,fun _ => ⟨rfl,rfl,fun _ => rfl⟩⟩

/-- The page is put into the list of its type, which becomes `sequence`. -/
def linkPage (z : Zone) (cpu page : Nat) (sequence : List Nat) : Zone :=
  z.setPcp cpu fun pcp =>
    { pcp.setList (z.page page).freepageMigratetype sequence with count := pcp.count + 1 }

/-- The end of `free_hot_cold_page`: lists that have become too long are emptied. -/
def trimPcp (env : Platform) (z : Zone) : Zone :=
  let pcp := z.perCpuPageset env.smpProcessorId
  if pcp.high ≤ pcp.count then
    (env.freePcppagesBulk z (pcp.batch % 2^32).toNat).setPcp env.smpProcessorId
      fun emptied => { emptied with count := emptied.count - pcp.batch }
  else z

/-- What becomes of a page that `free_page_prepare` has accepted. -/
theorem freeHotColdPage_accepted {env : Platform} {ready : Zone}
    (prepared : freePagePrepare env z page 0 = (true,ready)) : freeHotColdPage env z page cold =
      if MIGRATE_PCPTYPES ≤ (ready.page page).freepageMigratetype then none
      else ((ready.perCpuPageset env.smpProcessorId).lists (ready.page page).freepageMigratetype).map
        fun sequence => trimPcp env
          (linkPage ready env.smpProcessorId page (if cold then sequence ++ [page] else page :: sequence)) := by
  simp only [freeHotColdPage,prepared]
  split
  · rfl
  · split
    next uninitialised => rw [uninitialised,Option.map_none]
    next sequence here =>
      rw [here,Option.map_some]
      exact (apply_ite some _ _ _).symm

/-- Rewriting one list changes the entries by what it holds before and after. -/
theorem pcpPages_setList (edit : PerCpuPages → PerCpuPages) (hc : cpu < NR_CPUS)
    (hm : migratetype < MIGRATE_PCPTYPES)
    (before : (z.perCpuPageset cpu).lists migratetype = some old)
    (after : (edit (z.perCpuPageset cpu)).lists =
      Function.update (z.perCpuPageset cpu).lists migratetype (some new)) :
    (z.setPcp cpu edit).pcpPages + (old : Multiset Nat) = z.pcpPages + (new : Multiset Nat) := by
  have inner := sum_change (i := migratetype) (s := Finset.range MIGRATE_PCPTYPES)
    (f := (z.perCpuPageset cpu).list) (g := (edit (z.perCpuPageset cpu)).list)
    (Finset.mem_range.mpr hm) (by
      intro m _ different
      simp only [PerCpuPages.list,after,Function.update_of_ne different])
  have outer := sum_change (i := cpu) (s := Finset.range NR_CPUS)
    (f := fun c => ∑ m ∈ Finset.range MIGRATE_PCPTYPES, (z.perCpuPageset c).list m)
    (g := fun c => ∑ m ∈ Finset.range MIGRATE_PCPTYPES, ((z.setPcp cpu edit).perCpuPageset c).list m)
    (Finset.mem_range.mpr hc) (by
      intro c _ different
      simp only [Zone.setPcp,Function.update_of_ne different])
  simp only [Zone.setPcp,Function.update_self] at outer
  have oldList : (z.perCpuPageset cpu).list migratetype = old := by simp [PerCpuPages.list,before]
  have newList : (edit (z.perCpuPageset cpu)).list migratetype = new := by
    simp [PerCpuPages.list,after]
  rw [oldList,newList] at inner
  change (z.setPcp cpu edit).pcpPages + _ = z.pcpPages + _ at outer
  have moved : (z.setPcp cpu edit).pcpPages + (old : Multiset Nat) +
      ∑ m ∈ Finset.range MIGRATE_PCPTYPES, (z.perCpuPageset cpu).list m =
      z.pcpPages + (new : Multiset Nat) +
      ∑ m ∈ Finset.range MIGRATE_PCPTYPES, (z.perCpuPageset cpu).list m := by
    rw [add_right_comm,outer,add_assoc,inner,add_assoc,add_comm (new : Multiset Nat)]
  exact add_right_cancel moved

theorem setPcp_initialised (initialised : ∀ c < NR_CPUS, ∀ m < MIGRATE_PCPTYPES,
      ∃ sequence, (z.perCpuPageset c).lists m = some sequence)
    (after : (edit (z.perCpuPageset cpu)).lists =
      Function.update (z.perCpuPageset cpu).lists migratetype (some new)) :
    ∀ c < NR_CPUS, ∀ m < MIGRATE_PCPTYPES,
      ∃ sequence, ((z.setPcp cpu edit).perCpuPageset c).lists m = some sequence := by
  intro c hc m hm
  by_cases here : c = cpu
  · subst c
    simp only [Zone.setPcp,Function.update_self,after]
    by_cases same : m = migratetype
    · subst m; exact ⟨new,by simp⟩
    · rw [Function.update_of_ne same]
      exact initialised cpu hc m hm
  · simp only [Zone.setPcp,Function.update_of_ne here]
    exact initialised c hc m hm

theorem PcpSound.transfer (pcp : PcpSound z) (agree : Agree z z')
    (lists : ∀ cpu, (z'.perCpuPageset cpu).lists = (z.perCpuPageset cpu).lists) : PcpSound z' := by
  have entries := pcpPages_congr lists
  refine ⟨?_,?_,?_,?_⟩
  · simp only [lists]; exact pcp.initialised
  · rw [entries]; exact pcp.once
  · rw [entries,agree.sameFree.span]; exact pcp.inside
  · simp only [entries,Zone.freeBlocks,agree.free]; exact pcp.apart

/-- Linking a page of the zone that is free nowhere. -/
theorem link_entry {sequence : List Nat} (edit : PerCpuPages → PerCpuPages) (pcp : PcpSound z)
    (hc : cpu < NR_CPUS) (hm : migratetype < MIGRATE_PCPTYPES)
    (here : (z.perCpuPageset cpu).lists migratetype = some sequence) (inside : page ∈ z.span)
    (taken : ¬z.Available page)
    (after : (edit (z.perCpuPageset cpu)).lists =
      Function.update (z.perCpuPageset cpu).lists migratetype (some (page :: sequence))) :
    (z.setPcp cpu edit).pcpPages = page ::ₘ z.pcpPages ∧ PcpSound (z.setPcp cpu edit) := by
  have agree := setPcp_agree z cpu edit
  have entries : (z.setPcp cpu edit).pcpPages = page ::ₘ z.pcpPages := by
    have moved := pcpPages_setList edit hc hm here after
    rw [← Multiset.cons_coe,Multiset.add_cons,← Multiset.cons_add] at moved
    exact add_right_cancel moved
  have coverEq : cover (z.setPcp cpu edit).freeBlocks = cover z.freeBlocks := by
    simp only [Zone.freeBlocks,agree.free]
  refine ⟨entries,setPcp_initialised pcp.initialised after,?_,?_,?_⟩
  · rw [entries,Multiset.nodup_cons]
    exact ⟨fun listed => taken (.inr listed),pcp.once⟩
  · rw [entries,agree.sameFree.span]
    intro p listed
    rcases Multiset.mem_cons.mp listed with rfl | listed
    · exact inside
    · exact pcp.inside p listed
  · rw [entries,coverEq]
    intro p listed
    rcases Multiset.mem_cons.mp listed with rfl | listed
    · exact fun covered => taken (.inl covered)
    · exact pcp.apart p listed

theorem frame_hole (inside : p ∈ z.span) (uncovered : p ∉ cover z.freeBlocks) : Hole z ⟨p,0⟩ where
  aligned := by simp [Block.Aligned]
  bound := show 0 < MAX_ORDER by decide
  inside f within := by
    rw [Block.mem_frames] at within
    dsimp only at within
    rw [show f = p by omega]
    exact inside
  apart c free f within within' := by
    rw [Block.mem_frames] at within
    dsimp only at within
    rw [show f = p by omega] at within'
    exact uncovered (mem_cover.mpr ⟨c,free,within'⟩)

end Pcp

/-- One page after another moves from a processor's lists to the free blocks. -/
inductive Drained (cpu : Nat) : Zone → Zone → Prop where
  | done (z : Zone) : Drained cpu z z
  | step (z z' : Zone) (m page migratetype : Nat) (sequence : List Nat) :
      m < MIGRATE_PCPTYPES → (z.perCpuPageset cpu).lists m = some sequence → page ∈ sequence →
      migratetype < MIGRATE_TYPES →
      Drained cpu (freeOnePage (z.setPcp cpu fun pcp => pcp.setList m (sequence.erase page))
        page page 0 migratetype) z' →
      Drained cpu z z'

/-- What a state with per-cpu lists has to keep, and how much of it is free. -/
structure Conserved (z z' : Zone) : Prop where
  sound : Sound z'
  pcp : PcpSound z'
  span : z'.span = z.span
  available : ∀ f, z'.Available f ↔ z.Available f
  total : z'.freePages + BitVec.ofNat 32 z'.pcpPages.card =
    z.freePages + BitVec.ofNat 32 z.pcpPages.card

theorem Conserved.trans (first : Conserved z z') (second : Conserved z' z'') : Conserved z z'' where
  sound := second.sound
  pcp := second.pcp
  span := second.span.trans first.span
  available f := (second.available f).trans (first.available f)
  total := second.total.trans first.total

/-- Writing the counters of a page set. -/
theorem Conserved.recount (z : Zone) (cpu : Nat) (edit : PerCpuPages → PerCpuPages)
    (lists : ∀ pcp, (edit pcp).lists = pcp.lists) (sound : Sound z) (pcp : PcpSound z) :
    Conserved z (z.setPcp cpu edit) := by
  have agree := setPcp_agree z cpu edit
  have same (c : Nat) : ((z.setPcp cpu edit).perCpuPageset c).lists = (z.perCpuPageset c).lists := by
    by_cases here : c = cpu <;> simp [Zone.setPcp,here,lists]
  have entries := pcpPages_congr same
  refine ⟨agree.sound sound,pcp.transfer agree same,agree.sameFree.span,?_,?_⟩
  · intro f
    simp only [Zone.Available,entries,Zone.freeBlocks,agree.free]
  · rw [entries,agree.freePages]

theorem drain_one {sequence : List Nat} (sound : Sound z) (pcp : PcpSound z) (hc : cpu < NR_CPUS)
    (hm : m < MIGRATE_PCPTYPES) (here : (z.perCpuPageset cpu).lists m = some sequence)
    (member : page ∈ sequence) (valid : migratetype < MIGRATE_TYPES) :
    Conserved z (freeOnePage (z.setPcp cpu fun pcp => pcp.setList m (sequence.erase page))
      page page 0 migratetype) := by
  generalize hz : (z.setPcp cpu fun pcp => pcp.setList m (sequence.erase page)) = emptied
  have agree : Agree z emptied := hz ▸ setPcp_agree z cpu _
  have coverEq : cover emptied.freeBlocks = cover z.freeBlocks := by
    simp only [Zone.freeBlocks,agree.free]
  have entries : z.pcpPages = page ::ₘ emptied.pcpPages := by
    have moved := pcpPages_setList (fun pcp => pcp.setList m (sequence.erase page)) hc hm here rfl
    rw [hz,← Multiset.coe_erase] at moved
    have split : (sequence : Multiset Nat) = page ::ₘ (sequence : Multiset Nat).erase page :=
      (Multiset.cons_erase (Multiset.mem_coe.mpr member)).symm
    rw [split,Multiset.erase_cons_head,Multiset.add_cons,← Multiset.cons_add] at moved
    exact (add_right_cancel moved).symm
  have once := pcp.once
  rw [entries,Multiset.nodup_cons] at once
  have inside : page ∈ emptied.span := by
    rw [agree.sameFree.span]
    exact pcp.inside page (by simp [entries])
  have uncovered : page ∉ cover emptied.freeBlocks := by
    rw [coverEq]
    exact pcp.apart page (by simp [entries])
  have sound' := agree.sound sound
  have hole := frame_hole inside uncovered
  have single : (⟨page,0⟩ : Block).frames = {page} := by
    ext f
    simp only [Block.mem_frames,Set.mem_singleton_iff]
    omega
  have covered := freeOnePage_cover sound' hole valid
  rw [single,coverEq] at covered
  have lists : (freeOnePage emptied page page 0 migratetype).pcpPages = emptied.pcpPages :=
    pcpPages_congr fun c => by rw [(freeOnePage_keeps emptied page page 0 migratetype).pcp]
  have span := freeOnePage_span migratetype sound' hole
  refine ⟨freeOnePage_sound sound' hole valid,⟨?_,?_,?_,?_⟩,span.trans agree.sameFree.span,?_,?_⟩
  · rw [(freeOnePage_keeps emptied page page 0 migratetype).pcp,← hz]
    exact setPcp_initialised pcp.initialised rfl
  · rw [lists]; exact once.2
  · rw [lists,span,agree.sameFree.span]
    exact fun p listed => pcp.inside p (by rw [entries]; exact Multiset.mem_cons_of_mem listed)
  · rw [lists,covered]
    rintro p listed (old | rfl)
    · exact pcp.apart p (by rw [entries]; exact Multiset.mem_cons_of_mem listed) old
    · exact once.1 listed
  · intro f
    rw [Zone.Available,Zone.Available,covered,lists,entries,Multiset.mem_cons,Set.mem_union,
      Set.mem_singleton_iff,or_assoc]
  · rw [(freeOnePage_moved emptied page page 0 migratetype).freePages,lists,entries,Multiset.card_cons,agree.freePages,
      BitVec.ofNat_add,BitVec.add_assoc,BitVec.add_comm (BitVec.ofNat 32 _)]
    rfl

theorem Drained.conserved (drained : Drained cpu z z') (hc : cpu < NR_CPUS) (sound : Sound z)
    (pcp : PcpSound z) : Conserved z z' := by
  induction drained with
  | done z => exact ⟨sound,pcp,rfl,fun _ => Iff.rfl,rfl⟩
  | step z z' m page migratetype sequence hm here member valid _ ih =>
    have once := drain_one sound pcp hc hm here member valid
    exact once.trans (ih once.sound once.pcp)

end Kernal.Buddy
