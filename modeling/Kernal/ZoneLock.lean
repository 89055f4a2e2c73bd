import Kernal.BuddyReturn
import Kernal.Spinlock
import Kernal.ZoneSections

/-! Processors that share one zone. Each of them takes `zone->lock` access by access, runs its
section of `rmqueue` or `free_one_page` step by step and gives the lock back, while the others
do the same; it passes to `free_one_page` blocks that it has from `rmqueue`. -/
namespace Kernal.ZoneLock

open Blocks Buddy Critical Interleaving Linearize Owners

def keep (blocks : List Block) : Section × Option Nat → List Block
  | (.rmqueue order _, some page) => ⟨page, order⟩ :: blocks
  | (.rmqueue _ _, none) => blocks
  | (.freeOnePage page order _, _) => blocks.erase ⟨page, order⟩

def blocks (past : List (Section × Option Nat)) : List Block := past.foldl keep []

def permits (past : List (Section × Option Nat)) : Section → Bool
  | .rmqueue _ migratetype => migratetype < MIGRATE_TYPES
  | .freeOnePage page order migratetype => migratetype < MIGRATE_TYPES ∧ ⟨page, order⟩ ∈ blocks past

variable {Cpu : Type} [DecidableEq Cpu] (env : Platform) (id : Cpu → BitVec 32)

/-- The input is the return address that `spin_lock` stores. -/
def zoneLock : Guarded Cpu (BitVec 64) Spinlock.SpinlockT Spinlock.Pc Section Zone Work (Option Nat) where
  lock := fun cpu returnAddress => Spinlock.access id cpu ⟨.spinLock, returnAddress⟩
  idle := .idle
  held := .held
  enter := Work.enter
  step := Work.step env
  result := Work.result
  permits := permits

abbrev System := (zoneLock env id).System

def start (memory : Spinlock.SpinlockT) (z : Zone) : System env id :=
  ⟨(Spinlock.spinLockInit memory, z), fun _ => ⟨.idle, .rest, []⟩⟩

/-- Whole sections one after the other, with what they return. -/
def Runs : Zone → List (Cpu × Section × Option Nat) → Zone → Prop
  | z, [], z' => z' = z
  | z, (_, op, r) :: rest, z' => ∃ next, op.whole env z = some (r, next) ∧ Runs next rest z'

section Whole

variable {env id} {op : Section} {z z' : Zone} {w : Work} {r : Option Nat}

omit [DecidableEq Cpu] in
theorem midway_rest (midway : (zoneLock env id).Midway op z z' w) : w.rest env z' = op.whole env z := by
  induction midway with
  | begin => exact Work.rest_enter env z op
  | next _ _ ih => exact (Work.rest_step env _ _).trans ih

omit [DecidableEq Cpu] in
/-- What is left of a section whose source functions return. -/
theorem work_finishes (rest : w.rest env z = some (r, z')) :
    ∃ n, n ≤ w.rank env ∧ (zoneLock env id).Finishes r z' n z w := by
  induction low : w.rank env using Nat.strong_induction_on generalizing w z with
  | h m ih =>
    cases ends : w.result with
    | some page =>
      cases w with
      | finished =>
        obtain ⟨rfl,rfl⟩ := Prod.mk.inj (Option.some.inj rest)
        exact ⟨0,Nat.zero_le _,.done rfl⟩
      | _ => cases ends
    | none =>
      have found : w ≠ .lost := by
        rintro rfl
        cases rest
      have lower := Work.rank_step env z w ends found
      obtain ⟨n,few,finishes⟩ := ih _ (low ▸ lower) ((Work.rest_step env z w).trans rest) rfl
      exact ⟨n + 1,by omega,.step ends finishes⟩

omit [DecidableEq Cpu] in
/-- A section that nobody disturbs does what the source functions say, and ends where they return. -/
theorem alone_iff : (zoneLock env id).Alone op z r z' ↔ op.whole env z = some (r, z') := by
  constructor
  · rintro ⟨w,midway,ends⟩
    rw [← midway_rest midway]
    cases w with
    | finished page =>
      obtain rfl := Option.some.inj ends
      rfl
    | _ => cases ends
  · intro whole
    obtain ⟨n,_,finishes⟩ := work_finishes ((Work.rest_enter env z op).trans whole)
    exact Guarded.Midway.begin.finishes finishes

end Whole

section Lock

variable (distinct : Function.Injective id) (reserved : ∀ cpu, id cpu ≠ Spinlock.NO_CPU)
include distinct reserved

theorem zoneLock_exclusive : (zoneLock env id).Exclusive (Spinlock.Invariant id) where
  keeps := fun s inv chosen =>
    Spinlock.dispatch_invariant id distinct reserved s inv (chosen.1, ⟨.spinLock, chosen.2⟩)
  apart := fun s inv a b ha hb => inv.exclusive a b (by rw [ha]; rfl) (by rw [hb]; rfl)

omit distinct [DecidableEq Cpu] in
theorem start_kept (memory : Spinlock.SpinlockT) (z : Zone) :
    (zoneLock env id).Kept (Spinlock.Invariant id) z (start env id memory z) where
  lock := Spinlock.initial_invariant id memory reserved
  fit := fun _ _ _ none => nomatch none
  works := fun _ _ _ none => nomatch none
  quiet := fun _ => rfl

/-- From the start nothing has been done before. -/
theorem started_serial (memory : Spinlock.SpinlockT) (z : Zone) (schedule : List (Cpu × Section × BitVec 64)) :
    let t := interleave (zoneLock env id).access schedule (start env id memory z)
    let h := (zoneLock env id).history schedule (start env id memory z)
    ∃ z', (zoneLock env id).Serial [] z h z' ∧ (zoneLock env id).Kept (Spinlock.Invariant id) z' t ∧
      ∀ cpu, (t.pc cpu).past = mine cpu h :=
  interleaved_serial (zoneLock_exclusive env id distinct reserved) schedule _ z []
    (start_kept env id reserved memory z) fun _ => rfl

end Lock

def inTurn {Cpu : Type} (a b : Cpu) (n : Nat) : List (Cpu × Section × BitVec 64) :=
  (List.replicate n [(a, .rmqueue 0 MIGRATE_MOVABLE, 0),(b, .rmqueue 0 MIGRATE_MOVABLE, 0)]).flatten

section Lock

variable (distinct : Function.Injective id) (reserved : ∀ cpu, id cpu ≠ Spinlock.NO_CPU)
include distinct reserved

end Lock

section Blocks

/-- Who has which blocks after the sections. -/
def keepOwned (owned : List (Cpu × Block)) : Cpu × Section × Option Nat → List (Cpu × Block)
  | (cpu, .rmqueue order _, some page) => (cpu, ⟨page, order⟩) :: owned
  | (_, .rmqueue _ _, none) => owned
  | (cpu, .freeOnePage page order _, _) => owned.erase (cpu, ⟨page, order⟩)

def owned (h : List (Cpu × Section × Option Nat)) : List (Cpu × Block) := h.foldl keepOwned []

/-- A processor's own sections tell what it has. -/
theorem count_owned (cpu : Cpu) (b : Block) (h : List (Cpu × Section × Option Nat)) :
    (owned h).count (cpu, b) = (blocks (mine cpu h)).count b := by
  induction h using List.reverseRecOn with
  | nil => rfl
  | append_singleton h e ih =>
    obtain ⟨agent,op,r⟩ := e
    rw [mine_append]
    unfold owned blocks at ih ⊢
    rw [List.foldl_append,List.foldl_append]
    by_cases own : agent = cpu
    · subst own
      have last : mine agent [(agent, op, r)] = [(op, r)] := List.filterMap_cons_some (if_pos rfl)
      rw [last]
      cases op with
      | rmqueue order migratetype =>
        cases r with
        | none => exact ih
        | some page =>
          simp only [List.foldl_cons,List.foldl_nil,keepOwned,keep,List.count_cons,ih]
          simp
      | freeOnePage page order migratetype =>
        simp only [List.foldl_cons,List.foldl_nil,keepOwned,keep,List.count_erase,ih]
        simp
    · have last : mine cpu [(agent, op, r)] = [] := List.filterMap_cons_none (if_neg own)
      rw [last,List.foldl_nil,← ih]
      cases op with
      | rmqueue order migratetype =>
        cases r with
        | none => rfl
        | some page => exact List.count_cons_of_ne fun same => own (Prod.mk.inj same).1
      | freeOnePage page order migratetype =>
        exact List.count_erase_of_ne fun same => own (Prod.mk.inj same).1.symm

theorem mem_owned {cpu : Cpu} {b : Block} {h : List (Cpu × Section × Option Nat)} :
    (cpu, b) ∈ owned h ↔ b ∈ blocks (mine cpu h) := by
  rw [← List.count_pos_iff,count_owned,List.count_pos_iff]

def clients (z : Zone) (h : List (Cpu × Section × Option Nat)) : Clients := ⟨z, (owned h).map Prod.snd⟩

variable {env} {id} {z z' : Zone} {before h : List (Cpu × Section × Option Nat)}

/-- A whole section is one step of the pool. -/
theorem whole_step {cpu : Cpu} {op : Section} {r : Option Nat} (good : (clients z before).Good)
    (permitted : permits (mine cpu before) op = true) (whole : op.whole env z = some (r, z')) :
    let c' := clients z' (before ++ [(cpu, op, r)])
    Step ∅ (clients z before).pool c'.pool ∧ Sound c'.zone ∧
      ∀ b ∈ c'.held, b.Aligned ∧ b.order < MAX_ORDER ∧ b.frames ⊆ c'.zone.span := by
  have last (e : Cpu × Section × Option Nat) : owned (before ++ [e]) = keepOwned (owned before) e := List.foldl_append
  unfold clients
  rw [last]
  cases op with
  | rmqueue order migratetype =>
    have valid : migratetype < MIGRATE_TYPES := of_decide_eq_true permitted
    cases r with
    | none =>
      obtain rfl : z' = z := (rmqueueSearch_null env good.sound whole).1
      exact ⟨.stay,good.sound,good.blocks⟩
    | some page => exact good.handed (rmqueueSearch_handed env good.sound valid whole)
  | freeOnePage page order migratetype =>
    obtain ⟨valid,has⟩ := of_decide_eq_true permitted
    obtain ⟨rfl,rfl⟩ := Prod.mk.inj (Option.some.inj whole)
    have perm := (List.perm_cons_erase (mem_owned.mpr has)).map Prod.snd
    have returned := good.returned (b := ⟨page,order⟩) perm valid
    exact returned

theorem serial_good (serial : (zoneLock env id).Serial before z h z') (good : (clients z before).Good) :
    (clients z' (before ++ h)).Good ∧
      (clients z' (before ++ h)).pool.free ∪ (clients z' (before ++ h)).pool.out =
        (clients z before).pool.free ∪ (clients z before).pool.out := by
  induction h generalizing before z with
  | nil =>
    obtain rfl : z' = z := serial
    rw [List.append_nil]
    exact ⟨good,rfl⟩
  | cons e h ih =>
    obtain ⟨permitted,next,alone,rest⟩ := serial
    obtain ⟨step,sound,blocks⟩ := whole_step good permitted (alone_iff.mp alone)
    have total := step.total
    rw [Set.union_empty] at total
    obtain ⟨last,same⟩ := ih rest ⟨sound,blocks,step.apart good.apart⟩
    rw [List.append_assoc,List.singleton_append] at last same
    exact ⟨last,same.trans total⟩

theorem owned_parts (good : (clients z h).Good) :
    (owned h).Pairwise fun p q => Disjoint p.2.frames q.2.frames := by
  have parts : (((owned h).map Prod.snd).map Block.frames).Pairwise Disjoint := good.apart.parts
  rwa [List.pairwise_map,List.pairwise_map] at parts

theorem owned_apart (good : (clients z h).Good) {a b : Cpu} {x y : Block} (hx : x ∈ blocks (mine a h))
    (hy : y ∈ blocks (mine b h)) (different : a ≠ b ∨ x ≠ y) : Disjoint x.frames y.frames := by
  have symmetric : Std.Symm fun p q : Cpu × Block => Disjoint p.2.frames q.2.frames := ⟨fun _ _ h => h.symm⟩
  refine (owned_parts good).forall (mem_owned.mpr hx) (mem_owned.mpr hy) fun same => ?_
  obtain ⟨rfl,rfl⟩ := Prod.mk.inj same
  exact different.elim (absurd rfl) (absurd rfl)

theorem blocks_nodup (good : (clients z h).Good) (cpu : Cpu) : (blocks (mine cpu h)).Nodup := by
  have distinct : (owned h).Nodup := by
    refine (owned_parts good).imp fun {p q} apart same => ?_
    subst same
    exact Set.disjoint_left.mp apart (Block.base_mem p.2) (Block.base_mem p.2)
  rw [List.nodup_iff_count_le_one]
  intro b
  rw [← count_owned]
  exact List.nodup_iff_count_le_one.mp distinct (cpu, b)

theorem mem_out {f : Nat} : f ∈ (clients z h).pool.out ↔ ∃ cpu, ∃ b ∈ blocks (mine cpu h), f ∈ b.frames := by
  constructor
  · rintro ⟨frames,mem,inside⟩
    obtain ⟨b,held,rfl⟩ := List.mem_map.mp mem
    obtain ⟨⟨cpu,d⟩,has,rfl⟩ := List.mem_map.mp held
    exact ⟨cpu,d,mem_owned.mp has,inside⟩
  · rintro ⟨cpu,b,mem,inside⟩
    exact ⟨b.frames,List.mem_map_of_mem (List.mem_map_of_mem (mem_owned.mpr mem)),inside⟩

/-- However the accesses of any number of processors are interleaved: no frame is in two blocks
that processors have, and whenever nobody is at work the lists of the zone are sound, what they
hold is with no processor, and no frame has come or gone. -/
theorem processors_apart (distinct : Function.Injective id)
    (reserved : ∀ cpu, id cpu ≠ Spinlock.NO_CPU) (sound : Sound z) (memory : Spinlock.SpinlockT)
    (schedule : List (Cpu × Section × BitVec 64)) :
    let t := interleave (zoneLock env id).access schedule (start env id memory z)
    (∀ a b, ∀ x ∈ blocks (t.pc a).past, ∀ y ∈ blocks (t.pc b).past, a ≠ b ∨ x ≠ y → Disjoint x.frames y.frames) ∧
    (∀ cpu, (blocks (t.pc cpu).past).Nodup) ∧
    ((∀ cpu, ¬(zoneLock env id).Works t cpu) → Sound t.shared.2 ∧
      (∀ cpu, ∀ b ∈ blocks (t.pc cpu).past, Disjoint b.frames (cover t.shared.2.freeBlocks)) ∧
      ∀ f, (f ∈ cover t.shared.2.freeBlocks ∨ ∃ cpu, ∃ b ∈ blocks (t.pc cpu).past, f ∈ b.frames) ↔
        f ∈ cover z.freeBlocks) := by
  intro t
  obtain ⟨z',serial,kept,past⟩ := started_serial env id distinct reserved memory z schedule
  have fresh : (clients z ([] : List (Cpu × Section × Option Nat))).Good :=
    ⟨sound,fun _ mem => absurd mem List.not_mem_nil,⟨.nil,fun _ mem => absurd mem List.not_mem_nil⟩⟩
  obtain ⟨good,total⟩ := serial_good serial fresh
  rw [List.nil_append] at good total
  refine ⟨fun a b x hx y hy => ?_,fun cpu => ?_,fun quiet => ?_⟩
  · rw [past] at hx hy
    exact owned_apart good hx hy
  · rw [past]
    exact blocks_nodup good cpu
  · have same : t.shared.2 = z' := kept.quiet quiet
    rw [same]
    refine ⟨good.sound,fun cpu b mem => ?_,fun f => ?_⟩
    · rw [past] at mem
      exact good.apart.free b.frames (List.mem_map_of_mem (List.mem_map_of_mem (mem_owned.mpr mem)))
    · have here := Set.ext_iff.mp total f
      rw [Set.mem_union,Set.mem_union,mem_out,mem_out] at here
      have held : (∃ cpu, ∃ b ∈ blocks (t.pc cpu).past, f ∈ b.frames) ↔
          ∃ cpu, ∃ b ∈ blocks (mine cpu ((zoneLock env id).history schedule (start env id memory z))), f ∈ b.frames :=
        exists_congr fun cpu => by rw [past]
      rw [held]
      refine here.trans (or_iff_left ?_)
      rintro ⟨_,_,mem,_⟩
      exact List.not_mem_nil mem

theorem processors_apart_pair :
    let G := zoneLock bootPlatform fun cpu : Fin 2 => BitVec.ofNat 32 cpu.val
    let s := start bootPlatform (fun cpu : Fin 2 => BitVec.ofNat 32 cpu.val) ⟨7,7,7,"stale",7⟩ (freedAtZero 1)
    let t := interleave G.access (inTurn 0 1 24) s
    (blocks (t.pc 0).past = [⟨0,0⟩] ∧ blocks (t.pc 1).past = [⟨1,0⟩]) ∧
    (∀ a b, ∀ x ∈ blocks (t.pc a).past, ∀ y ∈ blocks (t.pc b).past, a ≠ b ∨ x ≠ y → Disjoint x.frames y.frames) ∧
    (∀ cpu, (blocks (t.pc cpu).past).Nodup) ∧
    ((∀ cpu, ¬G.Works t cpu) → Sound t.shared.2 ∧
      (∀ cpu, ∀ b ∈ blocks (t.pc cpu).past, Disjoint b.frames (cover t.shared.2.freeBlocks)) ∧
      ∀ f, (f ∈ cover t.shared.2.freeBlocks ∨ ∃ cpu, ∃ b ∈ blocks (t.pc cpu).past, f ∈ b.frames) ↔
        f ∈ cover (freedAtZero 1).freeBlocks) :=
  ⟨by decide +kernel,processors_apart (by decide) (by decide) (freedAtZero_inv 1 (by decide)).toSound _ _⟩

end Blocks

end Kernal.ZoneLock
