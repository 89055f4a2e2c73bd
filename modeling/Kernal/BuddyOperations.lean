import Kernal.BuddyFree

/-! The operations on a zone's free lists taken together. Each of them keeps the
invariant except a free that strands a lower buddy, and that one always breaks it. -/
namespace Kernal.Buddy

open Blocks

inductive Op where
  | rmqueueSmallest (order migratetype : Nat)
  | rmqueueFallback (order migratetype : Nat)
  | moveFreepages (startPage endPage migratetype : Nat)
  | freeOnePage (pfn order migratetype : Nat)
  deriving DecidableEq, Repr

namespace Op

/-- `none` is a search of `__rmqueue_fallback` that does not return. -/
def run (env : Platform) (z : Zone) : Op → Option Zone
  | rmqueueSmallest order migratetype => some (Buddy.rmqueueSmallest env z order migratetype).2
  | rmqueueFallback order migratetype =>
    (Buddy.rmqueueFallback env z order migratetype).map Prod.snd
  | moveFreepages startPage endPage migratetype =>
    some (Buddy.moveFreepages env z startPage endPage migratetype).2
  | freeOnePage pfn order migratetype => some (Buddy.freeOnePage z pfn pfn order migratetype)

/-- List types are indices of `free_list`, and what is freed is an aligned block of
the zone that overlaps no free block. -/
def Allowed (z : Zone) : Op → Prop
  | rmqueueSmallest _ migratetype => migratetype < MIGRATE_TYPES
  | rmqueueFallback _ migratetype => migratetype < MIGRATE_TYPES
  | moveFreepages _ _ migratetype => migratetype < MIGRATE_TYPES
  | freeOnePage pfn order migratetype => Hole z ⟨pfn,order⟩ ∧ migratetype < MIGRATE_TYPES

def Strands (z : Zone) : Op → Prop
  | freeOnePage pfn order _ => StrandsLower z pfn order
  | _ => False

end Op

section Initial

/-- A zone whose lists have just been initialised satisfies the invariant. -/
theorem initZone_inv (z : Zone) (unmarked : ∀ p, (z.page p).pageBuddy = false)
    (extent : startPfn + size ≤ 2^32)
    (zoneId : ∀ p q, (z.page p).zoneId = (z.page q).zoneId) :
    Inv (initZone z startPfn size) := by
  have none (b : Block) : ¬(initZone z startPfn size).Free b := by
    rintro ⟨_,_,_,member⟩
    exact List.not_mem_nil member
  refine ⟨⟨?_,?_,?_,?_,?_,?_,?_,?_,extent,?_⟩,?_⟩
  · exact fun b free => absurd free (none b)
  · exact fun _ _ _ _ => List.nodup_nil
  · exact fun _ _ _ _ _ _ _ _ _ member => absurd member List.not_mem_nil
  · exact fun a free => absurd free (none a)
  · intro p marked
    rw [show (initZone z startPfn size).page = z.page from rfl,unmarked] at marked
    contradiction
  · simp [initZone]
  · simp [initZone]
  · exact fun b free => absurd free (none b)
  · exact fun p _ q _ => zoneId p q
  · exact fun b free => absurd free (none b)

def zeroPage : Page where
  flags := 0
  pageBuddy := false
  pageGuard := false
  pagePrivate := 0
  freepageMigratetype := 0
  refcount := 0
  mapcount := 0
  mapping := 0
  zoneId := 0

def zeroZone : Zone where
  zoneStartPfn := 0
  spannedPages := 0
  freeList _ _ := []
  nrFree _ := 0
  freePages := 0
  nrFreePages := 0
  perCpuPageset _ := ⟨0,0,0,fun _ => some []⟩
  page _ := zeroPage

/-- A freshly initialised zone of 1024 frames. -/
def newZone : Zone := initZone zeroZone 0 1024

theorem newZone_inv : Inv newZone :=
  initZone_inv zeroZone (fun _ => rfl) (by decide) (fun _ _ => rfl)

theorem newZone_unlisted (b : Block) : ¬newZone.Free b := by
  rintro ⟨_,_,_,member⟩
  exact List.not_mem_nil member

theorem newZone_hole (aligned : 2^order ∣ pfn) (bound : order < MAX_ORDER)
    (inside : pfn + 2^order ≤ 1024) : Hole newZone ⟨pfn,order⟩ where
  aligned := aligned
  bound := bound
  inside f := by
    simp only [Block.mem_frames,Zone.span,Zone.zoneEndPfn,newZone,initZone,Set.mem_Ico]
    omega
  apart c free := absurd free (newZone_unlisted c)

theorem newZone_lone (pfn order : Nat) : ¬StrandsLower newZone pfn order := by
  rintro ⟨k,_,_,_,waiting,_⟩
  exact newZone_unlisted _ waiting

def oneFreed : Zone := freeOnePage newZone 0 0 0 MIGRATE_MOVABLE

theorem oneFreed_inv : Inv oneFreed :=
  (freeOnePage_inv_iff newZone_inv (newZone_hole (by decide) (by decide) (by decide)) (by decide)).mpr
    (newZone_lone 0 0)

theorem oneFreed_free : oneFreed.Free b ↔ b = ⟨0,0⟩ := by
  have hole : Hole newZone ⟨0,0⟩ := newZone_hole (by decide) (by decide) (by decide)
  have alone := freeOnePage_alone (b := b) MIGRATE_MOVABLE newZone_inv.toSound hole (by decide)
    (newZone_unlisted _)
  exact alone.trans (or_iff_left (newZone_unlisted b))

/-- Frame 1 may be freed next. -/
theorem oneFreed_hole : Hole oneFreed ⟨1,0⟩ where
  aligned := by simp [Block.Aligned]
  bound := by decide
  inside := by
    have hole : Hole newZone ⟨0,0⟩ := newZone_hole (by decide) (by decide) (by decide)
    rw [oneFreed,freeOnePage_span MIGRATE_MOVABLE newZone_inv.toSound hole]
    exact (newZone_hole (by decide) (by decide) (by decide)).inside
  apart c free f := by
    rw [oneFreed_free.mp free]
    simp only [Block.mem_frames]
    omega

theorem oneFreed_strands : StrandsLower oneFreed 1 0 :=
  ⟨0,Nat.le_refl _,by decide,by decide,oneFreed_free.mpr rfl,fun i hl hh => by omega⟩

/-- Frees the last page of the first of the given lists that has one. -/
def bulkOne (cpu : Nat) (z : Zone) : List Nat → Zone
  | [] => z
  | m :: others =>
    match (z.perCpuPageset cpu).lists m with
    | none => bulkOne cpu z others
    | some sequence =>
      match sequence.getLast? with
      | none => bulkOne cpu z others
      | some page =>
        freeOnePage (z.setPcp cpu fun pcp => pcp.setList m (sequence.erase page)) page page 0 m

def bulk (cpu : Nat) (z : Zone) : Nat → Zone
  | 0 => z
  | n + 1 => bulk cpu (bulkOne cpu z (List.range MIGRATE_PCPTYPES)) n

def bootPlatform : Platform where
  pageblockOrder := 9
  guardpageMinorder := MAX_ORDER
  flagsCheckAtFree := 0x1
  flagsCheckAtPrep := 0x2
  pageAnon p := p.mapping % 2 == 1
  pfnValidWithin _ := true
  allocflagsToMigratetype gfpMask :=
    if gfpMask &&& 0x08 ≠ 0 then MIGRATE_MOVABLE
    else if gfpMask &&& 0x10 ≠ 0 then MIGRATE_RECLAIMABLE
    else MIGRATE_UNMOVABLE
  firstZonesZonelist _ := true
  smpProcessorId := 0
  freePcppagesBulk := bulk 0
  zoneEndPfn z := z.zoneStartPfn + z.spannedPages
  zoneEndPfn_eq _ := rfl

end Initial

/-- Each operation keeps the invariant exactly when it strands no lower buddy. -/
theorem op_inv_iff (env : Platform) (op : Op) (inv : Inv z) (allowed : op.Allowed z)
    (returns : op.run env z = some z') : Inv z' ↔ ¬op.Strands z := by
  cases op with
  | rmqueueSmallest order migratetype =>
    cases returns
    exact iff_of_true (rmqueueSmallest_inv env inv allowed) id
  | rmqueueFallback order migratetype =>
    obtain ⟨result,found,rfl⟩ := Option.map_eq_some_iff.mp returns
    exact iff_of_true (rmqueueFallback_inv env inv allowed found) id
  | moveFreepages startPage endPage migratetype =>
    cases returns
    exact iff_of_true (moveFreepagesLoop_same env endPage allowed startPage 0 inv).1 id
  | freeOnePage pfn order migratetype =>
    cases returns
    exact freeOnePage_inv_iff inv allowed.1 allowed.2

theorem op_inv_iff_first_free : Inv newZone ∧ Inv oneFreed :=
  ⟨newZone_inv,(op_inv_iff bootPlatform (.freeOnePage 0 0 MIGRATE_MOVABLE) newZone_inv
    ⟨newZone_hole (by decide) (by decide) (by decide),by decide⟩ rfl).mpr (newZone_lone 0 0)⟩

/-- Freeing frame 0 and then frame 1 leaves two buddies on the list of order 0. -/
theorem upper_free_breaks_inv :
    ¬∀ (env : Platform) (z z' : Zone) (op : Op), Inv z → op.Allowed z → op.run env z = some z' →
      Inv z' := by
  intro kept
  have after : Inv (freeOnePage oneFreed 1 1 0 MIGRATE_MOVABLE) :=
    kept bootPlatform oneFreed _ (.freeOnePage 1 0 MIGRATE_MOVABLE) oneFreed_inv
      ⟨oneFreed_hole,by decide⟩ rfl
  exact (freeOnePage_inv_iff oneFreed_inv oneFreed_hole (by decide)).mp after oneFreed_strands

end Kernal.Buddy
