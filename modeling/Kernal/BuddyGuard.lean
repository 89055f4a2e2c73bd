import Kernal.BuddyReturn
import Kernal.Runs

/-! Guard marks. `expand` marks the pieces it splits off, and `clear_page_guard`, which
would take a mark back, is called nowhere: a page keeps the mark of its first split
through every later allocation and merge. -/
namespace Kernal.Buddy

open Blocks Runs

def Zone.guarded (z : Zone) : Set Nat := {p | (z.page p).pageGuard = true}

section Marks

variable {z : Zone} {page order migratetype : Nat}

theorem guarded_setPage (z : Zone) (page : Nat) (edit : Page → Page)
    (same : ∀ p, (edit p).pageGuard = p.pageGuard) : (z.setPage page edit).guarded = z.guarded := by
  ext p
  by_cases here : p = page <;> simp [Zone.guarded,Zone.setPage,here,same]

@[simp] theorem guarded_del : (delPageFromFreeList z page order).guarded = z.guarded :=
  guarded_setPage z page (fun p => { p with pageBuddy := false, pagePrivate := 0 }) fun _ => rfl

@[simp] theorem guarded_add : (addPageToFreeList z page order migratetype).guarded = z.guarded :=
  guarded_setPage z page (fun p => { p with pageBuddy := true, pagePrivate := order }) fun _ => rfl

@[simp] theorem guarded_setFreepageMigratetype :
    (setFreepageMigratetype z page migratetype).guarded = z.guarded :=
  guarded_setPage z page _ fun _ => rfl

@[simp] theorem guarded_prepNewPage : (prepNewPage z page order).guarded = z.guarded := by
  have loop (n : Nat) : (prepLoop z page n).guarded = z.guarded := by
    induction n with
    | zero => rfl
    | succ n ih =>
      exact (guarded_setPage _ (page + n)
        (fun p => { clearPageFlags p with refcount := 1, pagePrivate := 0 }) fun _ => rfl).trans ih
  exact loop _

theorem guarded_mergeLoop (rest : Nat) (z : Zone) (page pfn order : Nat) :
    (mergeLoop rest z page pfn order).1.guarded = z.guarded := by
  induction rest generalizing z page pfn order with
  | zero => rfl
  | succ rest ih =>
    simp only [mergeLoop]
    split
    · rw [ih,guarded_del]
    · rfl

/-- Freeing neither sets nor clears a mark. -/
theorem guarded_freeOnePage (z : Zone) (page pfn order migratetype : Nat) :
    (freeOnePage z page pfn order migratetype).guarded = z.guarded := by
  simp only [freeOnePage,add_setPageOrder,guarded_add,guarded_mergeLoop]

/-- The heads of the pieces that `expand` marks when it splits a block of order `high`. -/
def markedPieces (env : Platform) (page low high : Nat) : Set Nat :=
  {p | ∃ i, low ≤ i ∧ i < high ∧ env.guardpageMinorder ≤ i ∧ p = page + 2^i}

theorem guarded_listPiece (env : Platform) (z : Zone) (page high migratetype : Nat) :
    (listPiece env z page high migratetype).guarded =
      z.guarded ∪ {p | env.guardpageMinorder ≤ high ∧ p = page + 2^high} := by
  unfold listPiece setPageGuard
  split
  · next guards =>
    ext p
    have old : p ∈ (addPageToFreeList z (page + 2^high) high migratetype).guarded ↔ p ∈ z.guarded := by
      rw [guarded_add]
    rw [Set.mem_union,← old]
    by_cases here : p = page + 2^high <;> simp [Zone.guarded,Zone.setPage,here,guards]
  · next plain => simp [plain]

theorem guarded_expandLoop (env : Platform) (page low migratetype high : Nat) (z : Zone) :
    (expandLoop env page low migratetype high (2^high) z).guarded = z.guarded ∪ markedPieces env page low high := by
  induction high generalizing z with
  | zero => simp [expandLoop,markedPieces]
  | succ high ih =>
    by_cases more : low < high + 1
    · rw [expandLoop_succ env z page migratetype more,ih,guarded_listPiece]
      ext p
      simp only [markedPieces,Set.mem_union,Set.mem_ofPred_eq]
      constructor
      · rintro ((old | ⟨guards,rfl⟩) | ⟨i,le,lt,guards,rfl⟩)
        · exact .inl old
        · exact .inr ⟨high,by omega,by omega,guards,rfl⟩
        · exact .inr ⟨i,le,by omega,guards,rfl⟩
      · rintro (old | ⟨i,le,lt,guards,rfl⟩)
        · exact .inl (.inl old)
        · by_cases last : i = high
          · subst i
            exact .inl (.inr ⟨guards,rfl⟩)
          · exact .inr ⟨i,le,by omega,guards,rfl⟩
    · have none : markedPieces env page low (high + 1) = ∅ := by
        ext p
        simp only [markedPieces,Set.mem_ofPred_eq,Set.mem_empty_iff_false,iff_false]
        rintro ⟨i,le,lt,-⟩
        omega
      simp only [expandLoop,if_neg more,none,Set.union_empty]

theorem guarded_splitBlock (env : Platform) (z : Zone) (page order high migratetype : Nat) :
    (splitBlock env z page order high migratetype).guarded = z.guarded ∪ markedPieces env page order high := by
  rw [splitBlock,guarded_setFreepageMigratetype,expand,Nat.one_shiftLeft,guarded_expandLoop,guarded_del]

/-- No piece lies in the block that is handed out. -/
theorem markedPieces_apart (inside : f ∈ (⟨page,order⟩ : Block).frames) :
    f ∉ markedPieces env page order high := by
  rintro ⟨i,le,-,-,rfl⟩
  have grows : 2^order ≤ 2^i := Nat.pow_le_pow_right (by decide) le
  rw [Block.mem_frames] at inside
  dsimp only at inside
  omega

end Marks

section Split

variable {z : Zone} {page order high migratetype : Nat}

/-- Splitting keeps what it needs of the lists, whether or not buddies are joined. -/
theorem expandLoop_sound (env : Platform) (sound : Sound z) (hole : Hole z ⟨page,high⟩) (le : order ≤ high)
    (valid : migratetype < MIGRATE_TYPES) :
    Sound (expandLoop env page order migratetype high (2^high) z) ∧
    Hole (expandLoop env page order migratetype high (2^high) z) ⟨page,order⟩ := by
  induction high generalizing z with
  | zero =>
    rw [Nat.le_zero.1 le]
    exact ⟨sound,hole⟩
  | succ high ih =>
    by_cases more : order < high + 1
    · rw [expandLoop_succ env z page migratetype more]
      obtain ⟨-,-,piece⟩ := hole.halves
      have listed := (listPiece_agree env z page high migratetype).sound (piece.add_sound sound valid)
      exact ih listed (hole.listPiece env valid) (by omega)
    · rw [show order = high + 1 by omega]
      simp only [expandLoop,Nat.lt_irrefl,if_false]
      exact ⟨sound,hole⟩

theorem splitBlock_sound (env : Platform) (sound : Sound z) (listed : z.Free ⟨page,high⟩) (le : order ≤ high)
    (valid : migratetype < MIGRATE_TYPES) :
    Sound (splitBlock env z page order high migratetype) ∧
    Hole (splitBlock env z page order high migratetype) ⟨page,order⟩ := by
  have marked := setFreepageMigratetype_agree
    (expand env (delPageFromFreeList z page high) page order high migratetype) page migratetype
  obtain ⟨kept,hole⟩ := expandLoop_sound env (del_sound sound listed) (del_hole sound listed) le valid
  rw [← Nat.one_shiftLeft high] at kept hole
  exact ⟨marked.sound kept,marked.sameFree.hole hole⟩

/-- What `rmqueue` leaves when it returns a page. -/
theorem rmqueue_split (env : Platform) (sound : Sound z) (valid : migratetype < MIGRATE_TYPES)
    (returns : rmqueue env z order migratetype = some (some page,z')) :
    ∃ c t tail, Source z order migratetype c t ∧ z.freeList c t = page :: tail ∧ Sound z' ∧
      (z.page page).pagePrivate = c ∧ z'.guarded = z.guarded ∪ markedPieces env page order c := by
  obtain ⟨taken,found,rfl⟩ := rmqueue_page returns
  obtain ⟨c,t,tail,source,sequence,rfl⟩ := rmqueueSearch_page env sound found
  have listed := source.free valid sequence
  obtain ⟨kept,hole⟩ := splitBlock_sound env sound listed source.listed.1 valid
  have counted : Agree (prepNewPage (splitBlock env z page order c migratetype) page order)
      { prepNewPage (splitBlock env z page order c migratetype) page order with
        nrFreePages := (prepNewPage (splitBlock env z page order c migratetype) page order).nrFreePages - 2^order } :=
    ⟨rfl,rfl,rfl,⟨rfl,rfl⟩,fun _ => ⟨rfl,rfl,fun _ => rfl⟩⟩
  refine ⟨c,t,tail,source,sequence,?_,(sound.head _ listed).2.2,?_⟩
  · exact counted.sound ((hole.prepared kept).sound kept)
  · exact guarded_prepNewPage.trans (guarded_splitBlock env z page order c migratetype)

end Split

section Merge

/-- The heads of the free blocks that the merging loop joins to the block being freed. -/
def mergedHeads : Nat → Zone → (page pfn order : Nat) → List Nat
  | 0, _, _, _, _ => []
  | rest + 1, z, page, pfn, order =>
    let buddyPfn := findBuddyPfn pfn order
    let buddy := page + ulongSub buddyPfn pfn
    if pageIsBuddy z page buddy order then
      let z := delPageFromFreeList z buddy order
      let combinedPfn := buddyPfn &&& pfn
      let combinedPage := page + ulongSub combinedPfn pfn
      buddy :: mergedHeads rest z combinedPage combinedPfn (order + 1)
    else []

/-- The loop takes these blocks off their lists, of one order after the other, and does nothing
else. -/
theorem mergeLoop_mergedHeads (rest : Nat) (z : Zone) (page pfn order : Nat) :
    let heads := mergedHeads rest z page pfn order
    let (z', _, final) := mergeLoop rest z page pfn order
    z' = (heads.zipIdx order).foldl (fun z head => delPageFromFreeList z head.1 head.2) z ∧
      final = order + heads.length := by
  induction rest generalizing z page pfn order with
  | zero => exact ⟨rfl,rfl⟩
  | succ rest ih =>
    simp only [mergedHeads,mergeLoop]
    split
    · obtain ⟨taken,final⟩ := ih (delPageFromFreeList z (page + ulongSub (findBuddyPfn pfn order) pfn) order)
        (page + ulongSub (findBuddyPfn pfn order &&& pfn) pfn) (findBuddyPfn pfn order &&& pfn) (order + 1)
      refine ⟨taken,final.trans ?_⟩
      rw [List.length_cons]
      omega
    · exact ⟨rfl,rfl⟩

/-- The block being freed grows over its upper buddies of all orders up to `i`. -/
def GrowsOver (z : Zone) (pfn order i : Nat) : Prop :=
  order ≤ i ∧ i < MAX_ORDER - 1 ∧
    ∀ j, order ≤ j → j ≤ i → pfn.testBit j = false ∧ z.Free ⟨pfn + 2^j,j⟩

theorem growsOver_join (sound : Sound z) (low : order < MAX_ORDER - 1) (clear : pfn.testBit order = false)
    (listed : z.Free ⟨pfn + 2^order,order⟩) : GrowsOver z pfn order i ↔
      i = order ∨ GrowsOver (delPageFromFreeList z (pfn + 2^order) order) pfn (order + 1) i := by
  constructor
  · rintro ⟨le,lt,free⟩
    by_cases first : i = order
    · exact .inl first
    · refine .inr ⟨by omega,lt,fun j above high => ?_⟩
      obtain ⟨bit,free⟩ := free j (by omega) high
      exact ⟨bit,(del_free_other sound listed (by omega)).2 free⟩
  · rintro (rfl | ⟨le,lt,free⟩)
    · refine ⟨Nat.le_refl _,low,fun j above high => ?_⟩
      rw [show j = i by omega]
      exact ⟨clear,listed⟩
    · refine ⟨by omega,lt,fun j above high => ?_⟩
      by_cases first : j = order
      · subst j
        exact ⟨clear,listed⟩
      · obtain ⟨bit,free⟩ := free j (by omega) high
        exact ⟨bit,(del_free_other sound listed (by omega)).1 free⟩

theorem mem_mergedHeads (rest : Nat) (sound : Sound z) (hole : Hole z ⟨pfn,order⟩)
    (counted : order + rest = MAX_ORDER - 1) :
    p ∈ mergedHeads rest z pfn pfn order ↔ ∃ i, GrowsOver z pfn order i ∧ p = pfn + 2^i := by
  induction rest generalizing z order with
  | zero =>
    simp only [mergedHeads,List.not_mem_nil,false_iff]
    rintro ⟨i,⟨le,lt,-⟩,-⟩
    omega
  | succ rest ih =>
    have check := merge_check sound hole
    by_cases merges : pfn.testBit order = false ∧ z.Free ⟨pfn + 2^order,order⟩
    · obtain ⟨clear,listed⟩ := merges
      have later := ih (del_sound sound listed) (hole.join sound (by omega) clear listed) (by omega)
      rw [mergedHeads,if_pos (check.2 ⟨clear,listed⟩)]
      simp only [combined_upper clear,ulongSub_upper hole clear,ulongSub_self,Nat.add_zero,List.mem_cons,later,
        growsOver_join sound (show order < MAX_ORDER - 1 by omega) clear listed,or_and_right,exists_or,
        exists_eq_left]
    · rw [mergedHeads,if_neg (by rw [check]; exact merges)]
      simp only [List.not_mem_nil,false_iff]
      rintro ⟨i,⟨le,-,free⟩,-⟩
      exact merges (free order (Nat.le_refl _) le)

end Merge

inductive GuardOp where
  | rmqueue (order migratetype : Nat)
  | freeOnePage (pfn order migratetype : Nat)

/-- The zone with the history of its splits: `split` has the heads of all pieces of guarded
order that were split off so far. The frames handed out and the heads merged are those of
the last call. -/
structure GuardRun where
  zone : Zone
  split : Set Nat
  out : Set Nat
  merged : List Nat

def GuardRun.Start (s : GuardRun) : Prop :=
  Sound s.zone ∧ s.zone.guarded = ∅ ∧ s.split = ∅ ∧ s.out = ∅ ∧ s.merged = []

/-- Only allocated blocks are freed. -/
inductive GuardRun.Step (env : Platform) (s : GuardRun) : GuardOp → GuardRun → Prop where
  | take {order migratetype page : Nat} {z : Zone} : migratetype < MIGRATE_TYPES →
      rmqueue env s.zone order migratetype = some (some page, z) →
      GuardRun.Step env s (.rmqueue order migratetype)
        ⟨z, s.split ∪ markedPieces env page order (s.zone.page page).pagePrivate,
          (⟨page, order⟩ : Block).frames, []⟩
  | refuse {order migratetype : Nat} {z : Zone} : migratetype < MIGRATE_TYPES →
      rmqueue env s.zone order migratetype = some (none, z) →
      GuardRun.Step env s (.rmqueue order migratetype) ⟨z, s.split, ∅, []⟩
  | free {pfn order migratetype : Nat} : migratetype < MIGRATE_TYPES → Hole s.zone ⟨pfn, order⟩ →
      GuardRun.Step env s (.freeOnePage pfn order migratetype)
        ⟨freeOnePage s.zone pfn pfn order migratetype, s.split, ∅,
          mergedHeads (MAX_ORDER - 1 - order) s.zone pfn pfn order⟩

/-- The last call handed out no marked page and left no mark on a head it merged. -/
def GuardRun.Unmarked (s : GuardRun) : Prop :=
  (∀ f ∈ s.out, f ∉ s.zone.guarded) ∧ ∀ p ∈ s.merged, p ∉ s.zone.guarded

/-- The block to split, or the free blocks to merge, were not split off before. -/
def GuardRun.Fresh (s : GuardRun) : GuardOp → Prop
  | .rmqueue order migratetype => ∀ c t page tail, Source s.zone order migratetype c t →
    s.zone.freeList c t = page :: tail → ∀ f ∈ (⟨page, order⟩ : Block).frames, f ∉ s.split
  | .freeOnePage pfn order _ => ∀ i, GrowsOver s.zone pfn order i → pfn + 2^i ∉ s.split

structure GuardRun.Recorded (s : GuardRun) : Prop where
  sound : Sound s.zone
  marks : s.zone.guarded = s.split

section Run

variable {env : Platform} {s s' : GuardRun} {op : GuardOp}

theorem GuardRun.Recorded.step (recorded : s.Recorded) (step : GuardRun.Step env s op s') :
    s'.Recorded := by
  have sound := recorded.sound
  cases step with
  | take valid returns =>
    obtain ⟨c,t,tail,-,-,kept,order,marks⟩ := rmqueue_split env sound valid returns
    exact ⟨kept,by rw [marks,recorded.marks,order]⟩
  | refuse _ returns =>
    obtain ⟨rfl,-⟩ := rmqueueSearch_null env sound (rmqueue_null returns)
    exact ⟨sound,recorded.marks⟩
  | free valid hole =>
    exact ⟨freeOnePage_sound sound hole valid,(guarded_freeOnePage _ _ _ _ _).trans recorded.marks⟩

/-- A call meets a mark exactly when it comes back to a piece that was split off before. -/
theorem GuardRun.Step.unmarked_iff (step : GuardRun.Step env s op s') (recorded : s.Recorded) :
    s'.Unmarked ↔ s.Fresh op := by
  have sound := recorded.sound
  have after := (recorded.step step).marks
  cases step with
  | @take order migratetype page z valid returns =>
    obtain ⟨c,t,tail,source,sequence,-,-,-⟩ := rmqueue_split env sound valid returns
    simp only [GuardRun.Unmarked,List.not_mem_nil,false_implies,implies_true,and_true] at after ⊢
    rw [after]
    constructor
    · intro unmarked c' t' page' tail' source' sequence' f inside
      obtain ⟨rfl,rfl⟩ := source.unique source'
      rw [sequence] at sequence'
      cases sequence'
      exact fun old => unmarked f inside (.inl old)
    · rintro fresh f inside (old | new)
      · exact fresh c t page tail source sequence f inside old
      · exact markedPieces_apart inside new
  | refuse _ returns =>
    obtain ⟨-,nothing⟩ := rmqueueSearch_null env sound (rmqueue_null returns)
    apply iff_of_true (by simp [GuardRun.Unmarked])
    intro c t page tail source
    exact absurd source (nothing c t)
  | @free pfn order migratetype valid hole =>
    have bound : order < MAX_ORDER := hole.bound
    have heads (p : Nat) := mem_mergedHeads (p := p) (MAX_ORDER - 1 - order) sound hole
      (by unfold MAX_ORDER at *; omega)
    simp only [GuardRun.Unmarked,Set.mem_empty_iff_false,false_implies,implies_true,true_and] at after ⊢
    rw [after]
    constructor
    · intro unmarked i grows
      exact unmarked _ ((heads _).2 ⟨i,grows,rfl⟩)
    · intro fresh p member
      obtain ⟨i,grows,rfl⟩ := (heads p).1 member
      exact fresh i grows

/-- Guard marks stay out of allocations and merges exactly in those runs that never come
back to a piece they have split off. -/
theorem guards_unmarked_iff {past : List (GuardRun × GuardOp)}
    (run : Run GuardRun.Start (GuardRun.Step env) past s) :
    Always GuardRun.Unmarked past s ↔ Throughout GuardRun.Fresh past := by
  apply run.always_iff (I := GuardRun.Recorded)
  · rintro s ⟨sound,marks,split,out,merged⟩
    exact ⟨⟨sound,marks.trans split.symm⟩,by simp [GuardRun.Unmarked,out,merged]⟩
  · intro s op s' recorded step
    exact recorded.step step
  · intro s op s' recorded _ step
    exact step.unmarked_iff recorded

end Run

def guardPlatform : Platform := { bootPlatform with guardpageMinorder := 0 }

def onePageTaken (z : Zone) : Zone :=
  ((rmqueue guardPlatform z 0 MIGRATE_MOVABLE).map Prod.snd).getD z

/-- A zone whose only free block has two frames. -/
def pairRun : GuardRun := ⟨freedAtZero 1, ∅, ∅, []⟩

theorem pair_start : pairRun.Start := by
  refine ⟨(freedAtZero_inv 1 (by decide)).toSound,?_,rfl,rfl,rfl⟩
  change (freeOnePage newZone 0 0 1 MIGRATE_MOVABLE).guarded = ∅
  rw [guarded_freeOnePage]
  ext p
  simp [Zone.guarded,newZone,initZone,zeroZone,zeroPage]

theorem pair_first : ∃ s, Run GuardRun.Start (GuardRun.Step guardPlatform)
      [(pairRun, .rmqueue 0 MIGRATE_MOVABLE)] s ∧ s.zone = onePageTaken (freedAtZero 1) := by
  have returns : rmqueue guardPlatform (freedAtZero 1) 0 MIGRATE_MOVABLE =
      some (some 0,onePageTaken (freedAtZero 1)) := rfl
  have first : Run GuardRun.Start (GuardRun.Step guardPlatform) [] pairRun := .start pair_start
  exact ⟨_,first.next (.take (by decide) returns),rfl⟩

theorem guards_unmarked_iff_first : ∃ s, Run GuardRun.Start (GuardRun.Step guardPlatform)
      [(pairRun, .rmqueue 0 MIGRATE_MOVABLE)] s ∧
      Always GuardRun.Unmarked [(pairRun, GuardOp.rmqueue 0 MIGRATE_MOVABLE)] s := by
  obtain ⟨s,run,-⟩ := pair_first
  refine ⟨s,run,(guards_unmarked_iff run).2 ?_⟩
  rintro _ (_ | ⟨_,⟨⟩⟩) c t page tail _ _ f _ old
  exact old

/-- Frame 1 is marked when frame 0 is taken from the pair, and is handed out marked. -/
theorem second_page_marked :
    ¬∀ env : Platform, env.guardpageMinorder < MAX_ORDER - 1 → ∀ past s,
      Run GuardRun.Start (GuardRun.Step env) past s → Always GuardRun.Unmarked past s := by
  intro all
  obtain ⟨s,run,zone⟩ := pair_first
  have returns : rmqueue guardPlatform s.zone 0 MIGRATE_MOVABLE =
      some (some 1,onePageTaken (onePageTaken (freedAtZero 1))) := by
    rw [zone]
    rfl
  have second := run.next (.take (by decide) returns)
  have unmarked := (all guardPlatform (by decide) _ _ second).2.1 1 (Block.base_mem ⟨1,0⟩)
  exact unmarked (by rfl)

end Kernal.Buddy
