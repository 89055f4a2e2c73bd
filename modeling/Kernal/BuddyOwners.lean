import Kernal.BuddyGuard
import Kernal.Owners
import Mathlib.Algebra.BigOperators.Ring.Finset
import Mathlib.Data.List.Perm.Basic
import Mathlib.Data.Set.Card
import Mathlib.Order.Interval.Finset.Nat

/-! Who has which frames. Callers get blocks from `rmqueue` and hand them to
`__free_one_page` again, in any order; blocks that nobody ever had come in the same way.
Merging may leave buddies unjoined, but it never hands a frame to two callers. -/
namespace Kernal.Buddy

open Blocks Owners Runs

section Split

variable {z : Zone} {page order high migratetype : Nat}

theorem expandLoop_span (env : Platform) (low high : Nat) :
    (expandLoop env page low migratetype high (2^high) z).span = z.span := by
  induction high generalizing z with
  | zero => rfl
  | succ high ih =>
    by_cases more : low < high + 1
    · rw [expandLoop_succ env z page migratetype more,ih]
      exact (listPiece_agree env z page high migratetype).sameFree.span
    · simp only [expandLoop,if_neg more]

theorem splitBlock_span (env : Platform) : (splitBlock env z page order high migratetype).span = z.span := by
  refine (setFreepageMigratetype_agree _ page migratetype).sameFree.span.trans ?_
  rw [expand,Nat.one_shiftLeft,expandLoop_span,del_span]

/-- The blocks of the zone but the one that is split, and the pieces beyond its low end. -/
theorem splitBlock_free_iff (env : Platform) (order : Nat) (sound : Sound z) (listed : z.Free ⟨page,high⟩)
    (valid : migratetype < MIGRATE_TYPES) (b : Block) :
    (splitBlock env z page order high migratetype).Free b ↔
      z.Free b ∧ b ≠ ⟨page,high⟩ ∨ ∃ i, order ≤ i ∧ i < high ∧ b = ⟨page + 2^i,i⟩ := by
  have rest := del_free sound listed (b := b)
  obtain ⟨base,o⟩ := b
  rw [← rest]
  have bound : high < MAX_ORDER := listed.1
  simp only [Zone.Free,splitBlock_freeList,del_freeList]
  constructor
  · rintro ⟨small,m,hm,mem⟩
    split at mem
    next piece =>
      rcases List.mem_cons.mp mem with rfl | mem
      · exact .inr ⟨o,piece.2.1,piece.2.2,rfl⟩
      · exact .inl ⟨small,m,hm,mem⟩
    next => exact .inl ⟨small,m,hm,mem⟩
  · rintro (⟨small,m,hm,mem⟩ | ⟨i,low,below,same⟩)
    · refine ⟨small,m,hm,?_⟩
      split
      · exact List.mem_cons_of_mem _ mem
      · exact mem
    · obtain ⟨rfl,rfl⟩ := Block.mk.inj same
      refine ⟨Nat.lt_trans below bound,migratetype,valid,?_⟩
      rw [if_pos ⟨rfl,low,below⟩]
      exact List.mem_cons_self

/-- The low end is free no more, and nothing else. -/
theorem splitBlock_cover (env : Platform) (sound : Sound z) (listed : z.Free ⟨page,high⟩) (le : order ≤ high)
    (valid : migratetype < MIGRATE_TYPES) :
    cover (splitBlock env z page order high migratetype).freeBlocks =
      cover z.freeBlocks \ (⟨page,order⟩ : Block).frames := by
  have splits (b : Block) := splitBlock_free_iff env order sound listed valid b
  have small : 2^order ≤ 2^high := Nat.pow_le_pow_right (by decide) le
  apply Set.Subset.antisymm
  · intro f inside
    obtain ⟨b,free,member⟩ := mem_cover.mp inside
    rcases (splits b).mp free with ⟨old,different⟩ | ⟨i,low,below,rfl⟩
    · refine ⟨mem_cover.mpr ⟨b,old,member⟩,fun within => different ?_⟩
      refine sound.disjoint b old _ listed f member ?_
      rw [Block.mem_frames] at within ⊢
      dsimp only at within ⊢
      omega
    · have twice : 2^(i+1) ≤ 2^high := Nat.pow_le_pow_right (by decide) below
      have grows : 2^order ≤ 2^i := Nat.pow_le_pow_right (by decide) low
      rw [Nat.pow_succ] at twice
      rw [Block.mem_frames] at member
      dsimp only at member
      refine ⟨mem_cover.mpr ⟨_,listed,?_⟩,fun within => ?_⟩
      · rw [Block.mem_frames]
        dsimp only
        omega
      · rw [Block.mem_frames] at within
        dsimp only at within
        omega
  · rintro f ⟨inside,beyond⟩
    obtain ⟨b,free,member⟩ := mem_cover.mp inside
    by_cases same : b = ⟨page,high⟩
    · subst same
      obtain ⟨i,low,below,within⟩ := frames_pieces member beyond
      exact mem_cover.mpr ⟨_,(splits _).mpr (.inr ⟨i,low,below,rfl⟩),within⟩
    · exact mem_cover.mpr ⟨b,(splits b).mpr (.inl ⟨free,same⟩),member⟩

/-- The low end of a block is aligned, inside the zone and inside the block. -/
theorem low_end (sound : Sound z) (listed : z.Free ⟨page,high⟩) (le : order ≤ high) :
    (⟨page,order⟩ : Block).Aligned ∧ (⟨page,order⟩ : Block).frames ⊆ (⟨page,high⟩ : Block).frames := by
  have aligned : 2^high ∣ page := (sound.head _ listed).1
  refine ⟨Nat.dvd_trans (Nat.pow_dvd_pow 2 le) aligned,fun f inside => ?_⟩
  have small : 2^order ≤ 2^high := Nat.pow_le_pow_right (by decide) le
  rw [Block.mem_frames] at inside ⊢
  dsimp only at inside ⊢
  omega

end Split

theorem Sound.cover_inside {z : Zone} (sound : Sound z) : cover z.freeBlocks ⊆ z.span := by
  intro f inside
  obtain ⟨b,free,member⟩ := mem_cover.mp inside
  exact sound.inside b free member

def listFrames (z : Zone) (o m : Nat) : Finset Nat :=
  (z.freeList o m).toFinset.biUnion fun p => Finset.Ico p (p + 2^o)

theorem mem_listFrames {z : Zone} {o m f : Nat} :
    f ∈ listFrames z o m ↔ ∃ p ∈ z.freeList o m, f ∈ (⟨p,o⟩ : Block).frames := by
  simp [listFrames,Block.mem_frames]

theorem Sound.listFrames_card {z : Zone} (sound : Sound z) (bound : o < MAX_ORDER) (valid : m < MIGRATE_TYPES) :
    (listFrames z o m).card = (z.freeList o m).length * 2^o := by
  have apart : Set.PairwiseDisjoint ((z.freeList o m).toFinset : Set Nat) fun p => Finset.Ico p (p + 2^o) := by
    intro p hp q hq different
    rw [Finset.mem_coe,List.mem_toFinset] at hp hq
    rw [Function.onFun,Finset.disjoint_left]
    intro f inside inside'
    have same := sound.disjoint ⟨p,o⟩ ⟨bound,m,valid,hp⟩ ⟨q,o⟩ ⟨bound,m,valid,hq⟩ f
      (Finset.mem_Ico.mp inside) (Finset.mem_Ico.mp inside')
    exact different (congrArg Block.base same)
  rw [listFrames,Finset.card_biUnion apart,← List.toFinset_card_of_nodup (sound.once o bound m valid)]
  simp

/-- `free_pages` of the zone is the number of free frames. -/
theorem Sound.freePages_count {z : Zone} (sound : Sound z) :
    z.freePages = BitVec.ofNat 32 (cover z.freeBlocks).ncard := by
  have covered : cover z.freeBlocks = ((Finset.range MAX_ORDER).biUnion fun o =>
      (Finset.range MIGRATE_TYPES).biUnion (listFrames z o) : Finset Nat) := by
    ext f
    simp only [mem_cover,Finset.coe_biUnion,Set.mem_iUnion,Finset.mem_coe,Finset.mem_range,mem_listFrames,exists_prop]
    constructor
    · rintro ⟨⟨p,o⟩,⟨bound,m,valid,listed⟩,inside⟩
      exact ⟨o,bound,m,valid,p,listed,inside⟩
    · rintro ⟨o,bound,m,valid,p,listed,inside⟩
      exact ⟨⟨p,o⟩,⟨bound,m,valid,listed⟩,inside⟩
  -- Lists of different orders or types hold different blocks, and these share no frame.
  have apart {o m o' m' f : Nat} (bound : o < MAX_ORDER) (valid : m < MIGRATE_TYPES) (bound' : o' < MAX_ORDER)
      (valid' : m' < MIGRATE_TYPES) (inside : f ∈ listFrames z o m) (inside' : f ∈ listFrames z o' m') :
      o = o' ∧ m = m' := by
    obtain ⟨p,listed,member⟩ := mem_listFrames.mp inside
    obtain ⟨q,listed',member'⟩ := mem_listFrames.mp inside'
    have same := sound.disjoint ⟨p,o⟩ ⟨bound,m,valid,listed⟩ ⟨q,o'⟩ ⟨bound',m',valid',listed'⟩ f member member'
    obtain ⟨rfl,_⟩ := Block.mk.inj same
    exact sound.single o bound m valid o' bound' m' valid' p listed listed'
  have types (o : Nat) (bound : o < MAX_ORDER) :
      ((Finset.range MIGRATE_TYPES).biUnion (listFrames z o)).card = z.nrFree o * 2^o := by
    rw [Finset.card_biUnion,sound.nrFree o bound,Finset.sum_mul]
    · exact Finset.sum_congr rfl fun m mem => sound.listFrames_card bound (Finset.mem_range.mp mem)
    · intro m hm m' hm' different
      refine Finset.disjoint_left.mpr fun f inside inside' => different ?_
      exact (apart bound (Finset.mem_range.mp hm) bound (Finset.mem_range.mp hm') inside inside').2
  rw [sound.freePages,covered,Set.ncard_coe_finset,Finset.card_biUnion]
  · exact congrArg _ (Finset.sum_congr rfl fun o mem => (types o (Finset.mem_range.mp mem)).symm)
  · intro o ho o' ho' different
    refine Finset.disjoint_left.mpr fun f inside inside' => different ?_
    obtain ⟨m,hm,inside⟩ := Finset.mem_biUnion.mp inside
    obtain ⟨m',hm',inside'⟩ := Finset.mem_biUnion.mp inside'
    exact (apart (Finset.mem_range.mp ho) (Finset.mem_range.mp hm) (Finset.mem_range.mp ho')
      (Finset.mem_range.mp hm') inside inside').1

theorem Agree.cover {z z' : Zone} (agree : Agree z z') : cover z'.freeBlocks = cover z.freeBlocks := by
  have same : z'.freeBlocks = z.freeBlocks := Set.ext fun _ => agree.free
  rw [same]

theorem Zone.allocated_iff (z : Zone) (b : Block) : z.Allocated b ↔ Disjoint b.frames (cover z.freeBlocks) := by
  rw [Set.disjoint_left]
  constructor
  · intro apart f inside covered
    obtain ⟨c,free,member⟩ := mem_cover.mp covered
    exact apart c free f inside member
  · exact fun apart c free f inside member => apart inside (mem_cover.mpr ⟨c,free,member⟩)

structure Handed (z : Zone) (b : Block) (z' : Zone) : Prop where
  sound : Sound z'
  span : z'.span = z.span
  aligned : b.Aligned
  bound : b.order < MAX_ORDER
  free : b.frames ⊆ cover z.freeBlocks
  cover : cover z'.freeBlocks = cover z.freeBlocks \ b.frames

theorem Handed.hole {z z' : Zone} {b : Block} (handed : Handed z b z') (sound : Sound z) : Hole z' b where
  aligned := handed.aligned
  bound := handed.bound
  inside := by
    rw [handed.span]
    exact handed.free.trans sound.cover_inside
  apart := by
    apply (Zone.allocated_iff z' b).mpr
    rw [handed.cover]
    exact Set.disjoint_sdiff_right

theorem rmqueueSearch_handed (env : Platform) {z z' : Zone} (sound : Sound z) (valid : migratetype < MIGRATE_TYPES)
    (returns : rmqueueSearch env z order migratetype = some (some page, z')) : Handed z ⟨page,order⟩ z' := by
  obtain ⟨high,t,tail,source,sequence,rfl⟩ := rmqueueSearch_page env sound returns
  have listed := source.free valid sequence
  have le := source.listed.1
  obtain ⟨aligned,within⟩ := low_end sound listed le
  obtain ⟨sound',hole⟩ := splitBlock_sound env sound listed le valid
  exact ⟨sound',splitBlock_span env,aligned,hole.bound,within.trans (frames_subset_cover listed),
    splitBlock_cover env sound listed le valid⟩

theorem rmqueue_handed (env : Platform) {z z' : Zone} (sound : Sound z) (valid : migratetype < MIGRATE_TYPES)
    (returns : rmqueue env z order migratetype = some (some page, z')) : Handed z ⟨page,order⟩ z' := by
  obtain ⟨taken,searched,rfl⟩ := rmqueue_page returns
  have handed := rmqueueSearch_handed env sound valid searched
  -- `prep_new_page` and the statistics leave all that the lists say.
  obtain ⟨freeList,nrFree,freePages,ends,pages⟩ := (handed.hole sound).prepared handed.sound
  have agree (statistics : Int) : Agree taken
      { prepNewPage taken page order with nrFreePages := statistics } :=
    ⟨freeList,nrFree,freePages,ends,pages⟩
  exact ⟨(agree _).sound handed.sound,(agree _).sameFree.span.trans handed.span,handed.aligned,handed.bound,
    handed.free,(agree _).cover.trans handed.cover⟩

/-- What is taken out of a list by its place. -/
theorem taken_perm {index : Nat} {l : List Block} (here : l[index]? = some b) : l.Perm (b :: l.eraseIdx index) := by
  obtain ⟨inside,rfl⟩ := List.getElem?_eq_some_iff.mp here
  exact (List.getElem_cons_eraseIdx_perm inside).symm

structure Clients where
  zone : Zone
  held : List Block

namespace Clients

inductive Request where
  | alloc (order migratetype : Nat)
  /-- The block at this place of the list is freed. -/
  | free (index migratetype : Nat)
  /-- A block that nobody had before is freed. -/
  | add (pfn order migratetype : Nat)
  deriving DecidableEq, Repr

/-- `none` is a search that does not return. -/
def serve (env : Platform) (c : Clients) : Request → Option Clients
  | .alloc order migratetype => (rmqueue env c.zone order migratetype).map fun
    | (none, zone) => ⟨zone, c.held⟩
    | (some page, zone) => ⟨zone, ⟨page, order⟩ :: c.held⟩
  | .free index migratetype => match c.held[index]? with
    | none => some c
    | some b => some ⟨freeOnePage c.zone b.base b.base b.order migratetype, c.held.eraseIdx index⟩
  | .add pfn order migratetype => some ⟨freeOnePage c.zone pfn pfn order migratetype, c.held⟩

def Allowed (c : Clients) : Request → Prop
  | .alloc _ migratetype => migratetype < MIGRATE_TYPES
  | .free _ migratetype => migratetype < MIGRATE_TYPES
  | .add pfn order migratetype => migratetype < MIGRATE_TYPES ∧ Hole c.zone ⟨pfn, order⟩ ∧
    ∀ b ∈ c.held, Disjoint (⟨pfn, order⟩ : Block).frames b.frames

def Request.new : Request → Set Nat
  | .add pfn order _ => (⟨pfn, order⟩ : Block).frames
  | _ => ∅

def Serves (env : Platform) (c : Clients) (r : Request) (c' : Clients) : Prop :=
  c.Allowed r ∧ c.serve env r = some c'

/-- The zone and its callers from outside. -/
def pool (c : Clients) : Pool Nat := ⟨cover c.zone.freeBlocks, c.held.map Block.frames⟩

structure Good (c : Clients) : Prop where
  sound : Sound c.zone
  blocks : ∀ b ∈ c.held, b.Aligned ∧ b.order < MAX_ORDER ∧ b.frames ⊆ c.zone.span
  apart : Owners.Apart c.pool

theorem Good.hole {c : Clients} (good : Good c) {b : Block} (held : b ∈ c.held) : Hole c.zone b where
  aligned := (good.blocks b held).1
  bound := (good.blocks b held).2.1
  inside := (good.blocks b held).2.2
  apart := (Zone.allocated_iff c.zone b).mpr (good.apart.free b.frames (List.mem_map_of_mem held))

theorem Good.handed {c : Clients} (good : Good c) {b : Block} {zone : Zone} (handed : Handed c.zone b zone) :
    Step ∅ c.pool (pool ⟨zone, b :: c.held⟩) ∧ Sound zone ∧
      ∀ d ∈ b :: c.held, d.Aligned ∧ d.order < MAX_ORDER ∧ d.frames ⊆ zone.span := by
  refine ⟨?_,handed.sound,fun d mem => ?_⟩
  · change Step ∅ c.pool ⟨cover zone.freeBlocks,b.frames :: c.pool.held⟩
    rw [handed.cover]
    exact .take handed.free
  · rw [handed.span]
    rcases List.mem_cons.mp mem with rfl | mem
    · exact ⟨handed.aligned,handed.bound,handed.free.trans good.sound.cover_inside⟩
    · exact good.blocks d mem

theorem Good.returned {c : Clients} (good : Good c) {b : Block} {rest : List Block} {migratetype : Nat}
    (perm : c.held.Perm (b :: rest)) (valid : migratetype < MIGRATE_TYPES) :
    let zone := freeOnePage c.zone b.base b.base b.order migratetype
    Step ∅ c.pool (pool ⟨zone, rest⟩) ∧ Sound zone ∧
      ∀ d ∈ rest, d.Aligned ∧ d.order < MAX_ORDER ∧ d.frames ⊆ zone.span := by
  have hole : Hole c.zone ⟨b.base,b.order⟩ := good.hole (perm.mem_iff.mpr List.mem_cons_self)
  refine ⟨?_,freeOnePage_sound good.sound hole valid,fun d mem => ?_⟩
  · change Step ∅ c.pool ⟨cover (freeOnePage c.zone b.base b.base b.order migratetype).freeBlocks,_⟩
    rw [freeOnePage_cover good.sound hole valid]
    exact .give (perm.map Block.frames)
  · rw [freeOnePage_span migratetype good.sound hole]
    exact good.blocks d (perm.mem_iff.mpr (List.mem_cons_of_mem _ mem))

/-- A served request is one step of the pool. -/
theorem serves_step (env : Platform) {c c' : Clients} {r : Request} (good : Good c) (serves : Serves env c r c') :
    Step r.new c.pool c'.pool ∧ Sound c'.zone ∧
      ∀ b ∈ c'.held, b.Aligned ∧ b.order < MAX_ORDER ∧ b.frames ⊆ c'.zone.span := by
  obtain ⟨allowed,served⟩ := serves
  cases r with
  | alloc order migratetype =>
    obtain ⟨⟨result,zone⟩,found,same⟩ := Option.map_eq_some_iff.mp served
    cases result with
    | none =>
      have unchanged : zone = c.zone := (rmqueueSearch_null env good.sound (rmqueue_null found)).1
      subst unchanged
      rw [← same]
      exact ⟨.stay,good.sound,good.blocks⟩
    | some page =>
      rw [← same]
      exact good.handed (rmqueue_handed env good.sound allowed found)
  | free index migratetype =>
    simp only [serve] at served
    cases here : c.held[index]? with
    | none =>
      rw [here] at served
      obtain rfl := Option.some.inj served
      exact ⟨.stay,good.sound,good.blocks⟩
    | some b =>
      rw [here] at served
      obtain rfl := Option.some.inj served
      exact good.returned (taken_perm here) allowed
  | add pfn order migratetype =>
    obtain rfl := Option.some.inj served
    obtain ⟨valid,hole,fresh⟩ := allowed
    refine ⟨?_,freeOnePage_sound good.sound hole valid,fun b held => ?_⟩
    · have covered := freeOnePage_cover good.sound hole valid
      change Step _ c.pool ⟨cover (freeOnePage c.zone pfn pfn order migratetype).freeBlocks,_⟩
      rw [covered]
      refine .grow ((Zone.allocated_iff _ _).mp hole.apart) fun frames mem => ?_
      obtain ⟨b,held,rfl⟩ := List.mem_map.mp mem
      exact fresh b held
    · rw [freeOnePage_span migratetype good.sound hole]
      exact good.blocks b held

theorem serves_good (env : Platform) {c c' : Clients} {r : Request} (good : Good c) (serves : Serves env c r c') :
    Good c' := by
  obtain ⟨step,sound,blocks⟩ := serves_step env good serves
  exact ⟨sound,blocks,step.apart good.apart⟩

/-- All that was freed in a run by callers who had not got it from the zone. -/
def added (past : List (Clients × Request)) : Set Nat := {f | ∃ e ∈ past, f ∈ e.2.new}

section Run

variable (env : Platform) {z : Zone} {past : List (Clients × Request)} {c : Clients}

theorem run_good (sound : Sound z) (run : Run (· = ⟨z, []⟩) (Serves env) past c) : Good c := by
  refine run.invariant ?_ fun s a s' good serves => serves_good env good serves
  rintro c rfl
  exact ⟨sound,fun b mem => absurd mem List.not_mem_nil,.nil,fun b mem => absurd mem List.not_mem_nil⟩

theorem run_total (sound : Sound z) (run : Run (· = ⟨z, []⟩) (Serves env) past c) :
    c.pool.free ∪ c.pool.out = cover z.freeBlocks ∪ added past := by
  induction run with
  | start first =>
    subst first
    simp [pool,Pool.out,added]
  | @next past s s' r before serves ih =>
    have total := (serves_step env (run_good env sound before) serves).1.total
    rw [total,ih,Set.union_assoc]
    congr 1
    ext f
    simp [added,or_and_right,exists_or]

/-- In every run no two callers have a frame in common and no free block holds one that a caller
has, whatever merging leaves unjoined; each block is aligned and inside the zone; every frame
that was free or came in is free or with a caller still; and `free_pages` of the zone counts the
free ones. -/
theorem frames_owned (sound : Sound z) (run : Run (· = ⟨z, []⟩) (Serves env) past c) :
    c.held.Pairwise (fun a b => Disjoint a.frames b.frames) ∧
    (∀ b ∈ c.held, Hole c.zone b) ∧
    cover c.zone.freeBlocks ∪ {f | ∃ b ∈ c.held, f ∈ b.frames} = cover z.freeBlocks ∪ added past ∧
    c.zone.freePages = BitVec.ofNat 32 (cover c.zone.freeBlocks).ncard := by
  have good := run_good env sound run
  refine ⟨List.pairwise_map.mp good.apart.parts,fun b held => good.hole held,?_,good.sound.freePages_count⟩
  rw [← run_total env sound run]
  congr 1
  ext f
  simp [pool,Pool.out]

end Run

theorem frames_owned_first : ∃ c : Clients, c.held = [⟨0,0⟩] ∧
    c.held.Pairwise (fun a b => Disjoint a.frames b.frames) ∧ (∀ b ∈ c.held, Hole c.zone b) ∧
    cover c.zone.freeBlocks ∪ {f | ∃ b ∈ c.held, f ∈ b.frames} = cover newZone.freeBlocks ∪
      added [(⟨newZone, []⟩,.add 0 2 MIGRATE_MOVABLE),
        (⟨freeOnePage newZone 0 0 2 MIGRATE_MOVABLE, []⟩,.alloc 0 MIGRATE_MOVABLE)] ∧
    c.zone.freePages = BitVec.ofNat 32 (cover c.zone.freeBlocks).ncard := by
  obtain ⟨zone,taken⟩ : ∃ zone, serve bootPlatform ⟨freeOnePage newZone 0 0 2 MIGRATE_MOVABLE, []⟩
      (.alloc 0 MIGRATE_MOVABLE) = some ⟨zone, [⟨0,0⟩]⟩ := ⟨_,rfl⟩
  have valid : MIGRATE_MOVABLE < MIGRATE_TYPES := by decide
  have hole : Hole newZone ⟨0,2⟩ := newZone_hole (by decide) (by decide) (by decide)
  have first : Run (· = ⟨newZone, []⟩) (Serves bootPlatform) ([] ++ [(⟨newZone, []⟩,.add 0 2 MIGRATE_MOVABLE)])
      ⟨freeOnePage newZone 0 0 2 MIGRATE_MOVABLE, []⟩ :=
    .next (.start rfl) ⟨⟨valid,hole,fun b mem => absurd mem List.not_mem_nil⟩,rfl⟩
  exact ⟨⟨zone, [⟨0,0⟩]⟩,rfl,frames_owned bootPlatform newZone_inv.toSound (.next first ⟨valid,taken⟩)⟩

end Clients

end Kernal.Buddy
