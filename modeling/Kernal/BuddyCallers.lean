import Kernal.BuddyOutcome

/-! Who has which frames at the level of `alloc_pages` and `__free_pages`. A frame that nobody
has is in a free block or on a per-cpu list. Callers write the descriptors of pages they have;
a block that `free_page_prepare` refuses is with nobody and free nowhere. -/
namespace Kernal.Buddy

open Blocks Owners Runs

/-- The allocator, the blocks that callers have, and those that a call of `__free_pages` has
left to nobody. -/
structure Callers where
  memory : Memory
  held : List Block
  lost : List Block

namespace Callers

inductive Request where
  | alloc (gfpMask : Gfp) (order : Nat)
  /-- The block at this place of the list is passed to `__free_pages`. -/
  | free (index : Nat)
  /-- Its owner writes the descriptor of a page of that block. -/
  | write (index frame : Nat) (p : Page)
  deriving DecidableEq, Repr

/-- Fields that only the allocator writes stay as they are. -/
def overwrite (p old : Page) : Page :=
  { p with
    pageBuddy := old.pageBuddy
    pageGuard := old.pageGuard
    freepageMigratetype := old.freepageMigratetype
    zoneId := old.zoneId }

def setZone (c : Callers) (zone : Zone) : Callers := { c with memory := { c.memory with zone } }

/-- `none` is a search that does not return, or a page put on a list that is not there. -/
def serve (env : Platform) (c : Callers) : Request → Option Callers
  | .alloc gfpMask order => (allocPages env c.memory gfpMask order).map fun
    | (none, memory) => { c with memory }
    | (some page, memory) => { c with memory, held := ⟨page, order⟩ :: c.held }
  | .free index => match c.held[index]? with
    | none => some c
    | some b => (freePages env c.memory.zone b.base b.order).map fun zone =>
      match outcome env c.memory.zone b with
      | .shared => c.setZone zone
      | .refused => { c.setZone zone with held := c.held.eraseIdx index, lost := b :: c.lost }
      | .freed => { c.setZone zone with held := c.held.eraseIdx index }
  | .write index frame p => match c.held[index]? with
    | none => some c
    | some b =>
      if b.base ≤ frame ∧ frame < b.base + 2^b.order then
        some (c.setZone (c.memory.zone.setPage frame (overwrite p)))
      else some c

def Serves (env : Platform) (c : Callers) (r : Request) (c' : Callers) : Prop := c.serve env r = some c'

/-- The allocator and its callers from outside. -/
def pool (c : Callers) : Pool Nat := ⟨{f | c.memory.zone.Available f}, (c.held ++ c.lost).map Block.frames⟩

structure Good (c : Callers) : Prop where
  sound : Sound c.memory.zone
  pcp : PcpSound c.memory.zone
  out : ∀ b ∈ c.held, Out c.memory.zone b
  apart : Owners.Apart c.pool

section Step

variable {env : Platform} {c c' : Callers} {zone : Zone} {b : Block} {index : Nat}

theorem available_congr (conserved : Conserved c.memory.zone zone) :
    {f | zone.Available f} = {f | c.memory.zone.Available f} := Set.ext conserved.available

/-- A change of the zone that leaves all that is available, and the types of blocks. -/
theorem Good.setZone (good : Good c) (conserved : Conserved c.memory.zone zone)
    (type : ∀ f, (zone.page f).freepageMigratetype = (c.memory.zone.page f).freepageMigratetype) :
    Good (c.setZone zone) ∧ (c.setZone zone).pool = c.pool := by
  have same : (c.setZone zone).pool = c.pool := congrArg (Pool.mk · _) (available_congr conserved)
  refine ⟨⟨conserved.sound,conserved.pcp,fun b held => ?_,same ▸ good.apart⟩,same⟩
  exact (good.out b held).moved conserved type

theorem Good.allocated (helpers : Helpers env) (good : Good c) {memory : Memory} {page order : Nat} {gfpMask : Gfp}
    (returns : allocPages env c.memory gfpMask order = some (some page, memory)) :
    Granted c.memory.zone ⟨page,order⟩ (env.allocflagsToMigratetype gfpMask) memory.zone := by
  have valid : env.allocflagsToMigratetype gfpMask < MIGRATE_TYPES := Nat.lt_trans (helpers.types gfpMask) (by decide)
  unfold allocPages at returns
  split at returns
  · simp at returns
  · obtain ⟨⟨result,zone⟩,found,eq⟩ := Option.map_eq_some_iff.mp returns
    cases result with
    | none => simp at eq
    | some head =>
      simp only [Prod.mk.injEq,Option.some.injEq] at eq
      obtain ⟨rfl,rfl⟩ := eq
      exact rmqueue_granted env good.sound good.pcp valid found

theorem Good.refused (good : Good c) {memory : Memory} {order : Nat} {gfpMask : Gfp}
    (returns : allocPages env c.memory gfpMask order = some (none, memory)) : memory = c.memory := by
  unfold allocPages at returns
  split at returns
  · exact (Prod.mk.inj (Option.some.inj returns)).2.symm
  · obtain ⟨⟨result,zone⟩,found,eq⟩ := Option.map_eq_some_iff.mp returns
    cases result with
    | none =>
      have same := (rmqueueSearch_null env good.sound (rmqueue_null found)).1
      simp only [Prod.mk.injEq,true_and] at eq
      rw [← eq,same]
    | some head => simp at eq

/-- What is granted is available no more. -/
theorem granted_available {z z' : Zone} {migratetype : Nat} (pcp : PcpSound z)
    (granted : Granted z b migratetype z') (f : Nat) : z'.Available f ↔ z.Available f ∧ f ∉ b.frames := by
  have apart : f ∈ b.frames → f ∉ z.pcpPages := fun inside listed => pcp.apart f listed (granted.free inside)
  rw [Zone.Available,Zone.Available,granted.cover,granted.entries,Set.mem_sdiff]
  tauto

theorem Good.granted (helpers : Helpers env) (good : Good c) {memory : Memory} {page order : Nat} {gfpMask : Gfp}
    (returns : allocPages env c.memory gfpMask order = some (some page, memory)) :
    let c' : Callers := { c with memory, held := ⟨page, order⟩ :: c.held }
    Step ∅ c.pool c'.pool ∧ Sound memory.zone ∧ PcpSound memory.zone ∧ ∀ b ∈ c'.held, Out memory.zone b := by
  have granted := good.allocated helpers returns
  have available := granted_available good.pcp granted
  have fresh : (⟨page,order⟩ : Block).frames ⊆ {f | c.memory.zone.Available f} := fun f inside =>
    .inl (granted.free inside)
  refine ⟨?_,granted.sound,granted.pcp,fun b mem => ?_⟩
  · have same : {f | memory.zone.Available f} = {f | c.memory.zone.Available f} \ (⟨page,order⟩ : Block).frames :=
      Set.ext available
    change Step ∅ c.pool ⟨{f | memory.zone.Available f},(⟨page,order⟩ : Block).frames :: c.pool.held⟩
    rw [same]
    exact .take fresh
  · rcases List.mem_cons.mp mem with rfl | mem
    · refine out_of_unavailable granted.aligned granted.bound ?_ (fun f inside again => ?_) ?_
      · rw [granted.span]
        exact granted.free.trans good.sound.cover_inside
      · exact ((available f).mp again).2 inside
      · rw [granted.type]
        exact helpers.types gfpMask
    · have out := good.out b mem
      have outside : b.base ∉ (⟨page,order⟩ : Block).frames := fun inside =>
        out.unavailable (Block.base_mem b) (fresh inside)
      refine out_of_unavailable out.hole.aligned out.hole.bound ?_ (fun f inside again => ?_) ?_
      · rw [granted.span]
        exact out.hole.inside
      · exact out.unavailable inside ((available f).mp again).1
      · have same := congrArg (fun fields => fields.2.2.2.2) (granted.others b.base outside)
        exact lt_of_eq_of_lt same out.type

theorem Good.freed (helpers : Helpers env) (good : Good c) (here : c.held[index]? = some b)
    (returns : freePages env c.memory.zone b.base b.order = some zone) :
    Touched env c.memory.zone b zone ∧ Leaves c.memory.zone b zone (outcome env c.memory.zone b) := by
  obtain ⟨z',freed,touched,leaves⟩ :=
    freePages_leaves helpers good.sound good.pcp (good.out b (List.mem_of_getElem? here))
  rw [returns] at freed
  obtain rfl := Option.some.inj freed
  exact ⟨touched,leaves⟩

/-- The others' blocks are apart from one that is taken out of the list. -/
theorem Good.apart_rest (good : Good c) (here : c.held[index]? = some b) :
    ∀ d ∈ c.held.eraseIdx index, Disjoint b.frames d.frames := by
  have perm := ((taken_perm here).append_right c.lost).map Block.frames
  have parts := (perm.pairwise_iff fun {_ _} h => Disjoint.symm h).mp good.apart.parts
  intro d mem
  exact (List.pairwise_cons.mp parts).1 _ (List.mem_map_of_mem (List.mem_append_left _ mem))

/-- A block that became available is with nobody any more. -/
theorem Good.released (good : Good c) (here : c.held[index]? = some b)
    (touched : Touched env c.memory.zone b zone) (released : Released c.memory.zone b zone) :
    let c' : Callers := { c.setZone zone with held := c.held.eraseIdx index }
    Step ∅ c.pool c'.pool ∧ ∀ d ∈ c'.held, Out zone d := by
  refine ⟨?_,fun d mem => ?_⟩
  · have same : {f | zone.Available f} = {f | c.memory.zone.Available f} ∪ b.frames := Set.ext released.available
    change Step ∅ c.pool ⟨{f | zone.Available f},_⟩
    rw [same]
    exact .give (((taken_perm here).append_right c.lost).map Block.frames)
  · have out := good.out d (List.mem_of_mem_eraseIdx mem)
    refine out_of_unavailable out.hole.aligned out.hole.bound ?_ (fun f inside again => ?_) ?_
    · rw [released.span]
      exact out.hole.inside
    · rcases (released.available f).mp again with before | within
      · exact out.unavailable inside before
      · exact Set.disjoint_left.mp (good.apart_rest here d mem) within inside
    · rw [touched.type]
      exact out.type

/-- Writing the descriptor of a page that is out. -/
theorem overwrite_conserved {z : Zone} {frame : Nat} (sound : Sound z) (pcp : PcpSound z) (out : Out z b)
    (inside : frame ∈ b.frames) (p : Page) : Conserved z (z.setPage frame (overwrite p)) ∧
      ∀ f, ((z.setPage frame (overwrite p)).page f).freepageMigratetype = (z.page f).freepageMigratetype := by
  have unmarked : (z.page frame).pageBuddy ≠ true := by
    intro marked
    obtain ⟨o,free⟩ := sound.flagged frame marked
    exact out.hole.base_not_free inside free
  have head : (z.setPage frame (overwrite p)).page frame = overwrite p (z.page frame) := Function.update_self ..
  have agree : Agree z (z.setPage frame (overwrite p)) := by
    refine ⟨rfl,rfl,rfl,⟨rfl,rfl⟩,fun f => ?_⟩
    by_cases same : f = frame
    · subst same
      rw [head]
      exact ⟨rfl,rfl,fun marked => absurd marked unmarked⟩
    · rw [page_setPage_other z _ same]
      exact ⟨rfl,rfl,fun _ => rfl⟩
  refine ⟨agree.conserved rfl sound pcp,fun f => ?_⟩
  by_cases same : f = frame
  · rw [same,head]
    rfl
  · rw [page_setPage_other z _ same]

/-- A served request is one step of the pool. -/
theorem serves_step (helpers : Helpers env) (good : Good c) {r : Request} (serves : Serves env c r c') :
    Step ∅ c.pool c'.pool ∧ Sound c'.memory.zone ∧ PcpSound c'.memory.zone ∧
      ∀ b ∈ c'.held, Out c'.memory.zone b := by
  have stays {zone : Zone} (conserved : Conserved c.memory.zone zone)
      (type : ∀ f, (zone.page f).freepageMigratetype = (c.memory.zone.page f).freepageMigratetype) :
      Step ∅ c.pool (c.setZone zone).pool ∧ Sound zone ∧ PcpSound zone ∧ ∀ b ∈ c.held, Out zone b := by
    obtain ⟨still,same⟩ := good.setZone conserved type
    rw [same]
    exact ⟨.stay,still.sound,still.pcp,still.out⟩
  cases r with
  | alloc gfpMask order =>
    obtain ⟨⟨result,memory⟩,found,same⟩ := Option.map_eq_some_iff.mp serves
    cases result with
    | none =>
      rw [← same,good.refused found]
      exact ⟨.stay,good.sound,good.pcp,good.out⟩
    | some page =>
      rw [← same]
      exact good.granted helpers found
  | free index =>
    simp only [Serves,serve] at serves
    cases here : c.held[index]? with
    | none =>
      rw [here] at serves
      obtain rfl := Option.some.inj serves
      exact ⟨.stay,good.sound,good.pcp,good.out⟩
    | some b =>
      rw [here] at serves
      obtain ⟨zone,returns,same⟩ := Option.map_eq_some_iff.mp serves
      obtain ⟨touched,leaves⟩ := good.freed helpers here returns
      subst same
      cases ends : outcome env c.memory.zone b with
      | shared =>
        rw [ends] at leaves
        exact stays leaves touched.type
      | refused =>
        rw [ends] at leaves
        obtain ⟨step,sound,pcp,out⟩ := stays leaves touched.type
        refine ⟨?_,sound,pcp,fun d mem => out d (List.mem_of_mem_eraseIdx mem)⟩
        have perm : (c.held ++ c.lost).Perm (c.held.eraseIdx index ++ b :: c.lost) :=
          ((taken_perm here).append_right c.lost).trans List.perm_middle.symm
        change Step ∅ c.pool ⟨{f | zone.Available f},_⟩
        rw [available_congr leaves]
        exact .permute (perm.map Block.frames)
      | freed =>
        rw [ends] at leaves
        obtain ⟨step,out⟩ := good.released here touched leaves
        exact ⟨step,leaves.sound,leaves.pcp,out⟩
  | write index frame p =>
    simp only [Serves,serve] at serves
    cases here : c.held[index]? with
    | none =>
      rw [here] at serves
      obtain rfl := Option.some.inj serves
      exact ⟨.stay,good.sound,good.pcp,good.out⟩
    | some b =>
      rw [here] at serves
      dsimp only at serves
      split at serves
      next inside =>
        obtain rfl := Option.some.inj serves
        have written := overwrite_conserved good.sound good.pcp (good.out b (List.mem_of_getElem? here))
          ((Block.mem_frames ..).mpr inside) p
        exact stays written.1 written.2
      next =>
        obtain rfl := Option.some.inj serves
        exact ⟨.stay,good.sound,good.pcp,good.out⟩

theorem serves_good (helpers : Helpers env) (good : Good c) {r : Request} (serves : Serves env c r c') : Good c' := by
  obtain ⟨step,sound,pcp,out⟩ := serves_step helpers good serves
  exact ⟨sound,pcp,out,step.apart good.apart⟩

end Step

section Run

variable {env : Platform} {mm : Memory} {past : List (Callers × Request)} {c : Callers}

theorem run_good (helpers : Helpers env) (sound : Sound mm.zone) (pcp : PcpSound mm.zone)
    (run : Run (· = ⟨mm, [], []⟩) (Serves env) past c) : Good c := by
  refine run.invariant ?_ fun s a s' good serves => serves_good helpers good serves
  rintro c rfl
  exact ⟨sound,pcp,fun b mem => absurd mem List.not_mem_nil,.nil,fun b mem => absurd mem List.not_mem_nil⟩

theorem run_total (helpers : Helpers env) (sound : Sound mm.zone) (pcp : PcpSound mm.zone)
    (run : Run (· = ⟨mm, [], []⟩) (Serves env) past c) (f : Nat) :
    (c.memory.zone.Available f ∨ ∃ b ∈ c.held ++ c.lost, f ∈ b.frames) ↔ mm.zone.Available f := by
  have out (c : Callers) : f ∈ c.pool.free ∪ c.pool.out ↔
      c.memory.zone.Available f ∨ ∃ b ∈ c.held ++ c.lost, f ∈ b.frames := by
    simp only [pool,Pool.out,Set.mem_union,Set.mem_ofPred_eq,List.mem_map,exists_exists_and_eq_and]
  rw [← out]
  induction run with
  | start first =>
    subst first
    rw [out]
    simp only [List.append_nil,List.not_mem_nil,false_and,exists_false,or_false]
  | @next _ s _ _ before serves ih =>
    have total := (serves_step helpers (run_good helpers sound pcp before) serves).1.total
    rw [total,Set.union_empty]
    exact ih

theorem Good.free_returns (helpers : Helpers env) (good : Good c) (index : Nat) :
    ∃ c', Serves env c (.free index) c' := by
  simp only [Serves,serve]
  cases here : c.held[index]? with
  | none => exact ⟨c,rfl⟩
  | some b =>
    obtain ⟨zone,freed,_⟩ := freePages_leaves helpers good.sound good.pcp (good.out b (List.mem_of_getElem? here))
    dsimp only
    rw [freed]
    exact ⟨_,rfl⟩

/-- Whatever callers write in the descriptors of their pages: in every run each frame is free in
one place, with one caller, or in one block that `free_page_prepare` has refused; no frame
comes or goes, `free_pages` of the zone counts those in free blocks, and every call of
`__free_pages` returns. -/
theorem frames_accounted (helpers : Helpers env) (sound : Sound mm.zone) (pcp : PcpSound mm.zone)
    (run : Run (· = ⟨mm, [], []⟩) (Serves env) past c) :
    (c.held ++ c.lost).Pairwise (fun a b => Disjoint a.frames b.frames) ∧
    (∀ b ∈ c.held ++ c.lost, ∀ f ∈ b.frames, c.memory.zone.places f = 0) ∧
    (∀ f, c.memory.zone.Available f → c.memory.zone.places f = 1) ∧
    (∀ f, (c.memory.zone.Available f ∨ ∃ b ∈ c.held ++ c.lost, f ∈ b.frames) ↔ mm.zone.Available f) ∧
    c.memory.zone.freePages = BitVec.ofNat 32 (cover c.memory.zone.freeBlocks).ncard ∧
    ∀ index, ∃ c', Serves env c (.free index) c' := by
  have good := run_good helpers sound pcp run
  refine ⟨List.pairwise_map.mp good.apart.parts,fun b mem f inside => ?_,fun f available => ?_,
    run_total helpers sound pcp run,good.sound.freePages_count,good.free_returns helpers⟩
  · apply places_eq_zero
    exact fun available => Set.disjoint_left.mp (good.apart.free b.frames (List.mem_map_of_mem mem)) inside available
  · exact good.pcp.places_eq_one good.sound available

/-- Two pages come as one block, and their owner makes a second reference to the first one. -/
theorem frames_accounted_pair : ∃ c : Callers, c.held = [⟨0,1⟩] ∧ c.lost = [] ∧
    (c.held ++ c.lost).Pairwise (fun a b => Disjoint a.frames b.frames) ∧
    (∀ b ∈ c.held ++ c.lost, ∀ f ∈ b.frames, c.memory.zone.places f = 0) ∧
    (∀ f, c.memory.zone.Available f → c.memory.zone.places f = 1) ∧
    (∀ f, (c.memory.zone.Available f ∨ ∃ b ∈ c.held ++ c.lost, f ∈ b.frames) ↔ (freedAtZero 1).Available f) ∧
    c.memory.zone.freePages = BitVec.ofNat 32 (cover c.memory.zone.freeBlocks).ncard ∧
    ∀ index, ∃ c', Serves bootPlatform c (.free index) c' := by
  obtain ⟨m₁,returns⟩ : ∃ m₁, allocPages bootPlatform ⟨freedAtZero 1, 2⟩ 0x08 1 = some (some 0, m₁) := ⟨_,rfl⟩
  have taken : Serves bootPlatform ⟨⟨freedAtZero 1, 2⟩, [], []⟩ (.alloc 0x08 1) ⟨m₁, [⟨0,1⟩], []⟩ := by
    simp only [Serves,serve,returns,Option.map_some]
  obtain ⟨m₂,written⟩ : ∃ m₂, Serves bootPlatform ⟨m₁, [⟨0,1⟩], []⟩
      (.write 0 0 { m₁.zone.page 0 with refcount := 2 }) ⟨m₂, [⟨0,1⟩], []⟩ := ⟨_,rfl⟩
  have sound : Sound (Memory.mk (freedAtZero 1) 2).zone := (freedAtZero_inv 1 (by decide)).toSound
  have accounted := frames_accounted bootPlatform_helpers sound (freedAtZero_pcp 1)
    (.next (.next (.start rfl) taken) written)
  exact ⟨⟨m₂, [⟨0,1⟩], []⟩,rfl,rfl,accounted⟩

end Run

section Untouched

variable {env : Platform} {z : Zone} {mm : Memory} {past : List (Callers × Request)} {c c' : Callers} {b : Block}

def Reads (_ : Callers) : Request → Prop
  | .write .. => False
  | _ => True

def passed (past : List (Callers × Request)) : List Block :=
  past.filterMap fun e => match e.2 with
    | .free index => e.1.held[index]?
    | _ => none

/-- Nothing is lost but larger blocks that were freed, and each block that callers have is
as it came. -/
structure Untouched (env : Platform) (past : List (Callers × Request)) (c : Callers) : Prop where
  clean : Clean env c.memory.zone
  fresh : ∀ b ∈ c.held, Fresh env c.memory.zone b
  lost : c.lost = ((passed past).filter fun b => b.order ≠ 0).reverse

theorem passed_append (past : List (Callers × Request)) (e : Callers × Request) :
    passed (past ++ [e]) = passed past ++ passed [e] := List.filterMap_append

/-- A block that came is as it came, and so are those that callers had. -/
theorem Untouched.granted (good : Good c) (untouched : Untouched env past c) {zone : Zone} {migratetype : Nat}
    (granted : Granted c.memory.zone b migratetype zone) :
    Clean env zone ∧ ∀ d ∈ b :: c.held, Fresh env zone d := by
  have free {f : Nat} (inside : f ∈ b.frames) : c.memory.zone.Available f := .inl (granted.free inside)
  have fresh : Fresh env zone b := by
    apply granted.fresh
    intro f inside
    exact untouched.clean f (good.sound.cover_inside (granted.free inside))
  refine ⟨fun f inside => ?_,fun d mem => ?_⟩
  · by_cases here : f ∈ b.frames
    · exact (fresh f here).2
    · rw [granted.span] at inside
      exact Page.Passes.congr (untouched.clean f inside) (granted.others f here)
  · rcases List.mem_cons.mp mem with rfl | mem
    · exact fresh
    · apply (untouched.fresh d mem).congr
      intro f inside
      exact granted.others f fun within => (good.out d mem).unavailable inside (free within)

/-- A step of a run that writes no descriptor. -/
theorem Untouched.serves (helpers : Helpers env) (good : Good c) (untouched : Untouched env past c) {r : Request}
    (reads : Reads c r) (serves : Serves env c r c') : Untouched env (past ++ [(c, r)]) c' := by
  have same (none : passed [(c, r)] = []) :
      c.lost = ((passed (past ++ [(c, r)])).filter fun b => b.order ≠ 0).reverse := by
    rw [passed_append,none,List.append_nil]
    exact untouched.lost
  cases r with
  | write => exact absurd reads id
  | alloc gfpMask order =>
    obtain ⟨⟨result,memory⟩,found,eq⟩ := Option.map_eq_some_iff.mp serves
    cases result with
    | none =>
      rw [← eq,good.refused found]
      exact ⟨untouched.clean,untouched.fresh,same rfl⟩
    | some page =>
      rw [← eq]
      obtain ⟨clean,fresh⟩ := untouched.granted good (good.allocated helpers found)
      exact ⟨clean,fresh,same rfl⟩
  | free index =>
    have entry : passed [(c, Request.free index)] = (c.held[index]?).toList := by
      unfold passed
      cases here : c.held[index]? <;> simp [here]
    simp only [Serves,serve] at serves
    cases here : c.held[index]? with
    | none =>
      rw [here] at serves entry
      obtain rfl := Option.some.inj serves
      exact ⟨untouched.clean,untouched.fresh,same entry⟩
    | some b =>
      rw [here] at serves entry
      obtain ⟨zone,returns,eq⟩ := Option.map_eq_some_iff.mp serves
      obtain ⟨touched,leaves⟩ := good.freed helpers here returns
      have ends := (untouched.fresh b (List.mem_of_getElem? here)).ends
      have others : ∀ d ∈ c.held.eraseIdx index, Fresh env zone d := by
        intro d mem
        apply (untouched.fresh d (List.mem_of_mem_eraseIdx mem)).congr
        intro f inside
        apply touched.others f
        exact fun within => Set.disjoint_left.mp (good.apart_rest here d mem) within inside
      have clean (span : zone.span = c.memory.zone.span) : Clean env zone := by
        intro f inside
        rw [span] at inside
        exact touched.passes f (untouched.clean f inside)
      by_cases single : b.order = 0
      · rw [if_pos single] at ends
        rw [ends] at leaves eq
        subst eq
        refine ⟨clean leaves.span,others,?_⟩
        rw [passed_append,entry,List.filter_append]
        change c.lost = _
        rw [untouched.lost]
        simp [single]
      · rw [if_neg single] at ends
        rw [ends] at leaves eq
        subst eq
        refine ⟨clean leaves.span,others,?_⟩
        rw [passed_append,entry,List.filter_append]
        change b :: c.lost = _
        rw [untouched.lost]
        simp [single]

theorem run_untouched (helpers : Helpers env) (sound : Sound mm.zone) (pcp : PcpSound mm.zone)
    (clean : Clean env mm.zone) (run : Run (· = ⟨mm, [], []⟩) (Serves env) past c) (reads : Throughout Reads past) :
    Untouched env past c := by
  induction run with
  | start first =>
    subst first
    exact ⟨clean,fun b mem => absurd mem List.not_mem_nil,rfl⟩
  | next before serves ih =>
    obtain ⟨reads,last⟩ := Throughout.append.mp reads
    exact (ih reads).serves helpers (run_good helpers sound pcp before) last serves

/-- Where callers leave descriptors alone, the frames that are gone are exactly those of the
blocks of more than one page that were freed. -/
theorem larger_blocks_lost (helpers : Helpers env) (sound : Sound mm.zone) (pcp : PcpSound mm.zone)
    (clean : Clean env mm.zone) (run : Run (· = ⟨mm, [], []⟩) (Serves env) past c) (reads : Throughout Reads past)
    (f : Nat) : (c.memory.zone.Available f ∨ ∃ b ∈ c.held, f ∈ b.frames) ↔
      mm.zone.Available f ∧ ∀ b ∈ passed past, b.order ≠ 0 → f ∉ b.frames := by
  have good := run_good helpers sound pcp run
  have total := run_total helpers sound pcp run f
  have lost (b : Block) : b ∈ c.lost ↔ b ∈ passed past ∧ b.order ≠ 0 := by
    rw [(run_untouched helpers sound pcp clean run reads).lost,List.mem_reverse,List.mem_filter,decide_eq_true_iff]
  have gone {b : Block} (mem : b ∈ c.lost) (inside : f ∈ b.frames) :
      ¬(c.memory.zone.Available f ∨ ∃ d ∈ c.held, f ∈ d.frames) := by
    rintro (available | ⟨d,held,within⟩)
    · have apart := good.apart.free b.frames (List.mem_map_of_mem (List.mem_append_right _ mem))
      exact Set.disjoint_left.mp apart inside available
    · have parts := List.pairwise_append.mp (List.pairwise_map.mp good.apart.parts)
      exact Set.disjoint_left.mp (parts.2.2 d held b mem) within inside
  constructor
  · intro here
    refine ⟨total.mp (here.imp_right ?_),fun b freed large inside => ?_⟩
    · rintro ⟨b,held,inside⟩
      exact ⟨b,List.mem_append_left _ held,inside⟩
    · exact gone ((lost b).mpr ⟨freed,large⟩) inside here
  · rintro ⟨before,spared⟩
    rcases total.mpr before with available | ⟨b,mem,inside⟩
    · exact .inl available
    · rcases List.mem_append.mp mem with held | mem
      · exact .inr ⟨b,held,inside⟩
      · obtain ⟨freed,large⟩ := (lost b).mp mem
        exact absurd inside (spared b freed large)

/-- A block of two pages is gone when it is freed. -/
theorem larger_blocks_lost_pair : ∃ (c : Callers) (past : List (Callers × Request)), passed past = [⟨0,1⟩] ∧
    ((c.memory.zone.Available 0 ∨ ∃ b ∈ c.held, 0 ∈ b.frames) ↔
      (freedAtZero 1).Available 0 ∧ ∀ b ∈ passed past, b.order ≠ 0 → 0 ∉ b.frames) := by
  have sound : Sound (Memory.mk (freedAtZero 1) 2).zone := (freedAtZero_inv 1 (by decide)).toSound
  obtain ⟨m₁,returns⟩ : ∃ m₁, allocPages bootPlatform ⟨freedAtZero 1, 2⟩ 0x08 1 = some (some 0, m₁) := ⟨_,rfl⟩
  have taken : Serves bootPlatform ⟨⟨freedAtZero 1, 2⟩, [], []⟩ (.alloc 0x08 1) ⟨m₁, [⟨0,1⟩], []⟩ := by
    simp only [Serves,serve,returns,Option.map_some]
  have run : Run (· = ⟨⟨freedAtZero 1, 2⟩, [], []⟩) (Serves bootPlatform)
      ([] ++ [(⟨⟨freedAtZero 1, 2⟩, [], []⟩, .alloc 0x08 1)]) ⟨m₁, [⟨0,1⟩], []⟩ := .next (.start rfl) taken
  have good := run_good bootPlatform_helpers sound (freedAtZero_pcp 1) run
  obtain ⟨c,freed⟩ := good.free_returns bootPlatform_helpers 0
  have lost := larger_blocks_lost bootPlatform_helpers sound (freedAtZero_pcp 1) (freedAtZero_clean 1)
    (.next run freed) (by simp [Throughout,Reads]) 0
  exact ⟨c,_,rfl,lost⟩

end Untouched

end Callers

end Kernal.Buddy
