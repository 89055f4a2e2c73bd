import Kernal.Cfs
import Mathlib.Data.List.Chain

/-! An entity that leaves a queue and joins one again. `dequeue_entity` takes the queue's
`min_vruntime` off unless the entity sleeps, and `enqueue_entity` adds it unless the entity
wakes up, so the flags of the two calls have to match. -/
namespace Kernal.Cfs

structure Times where
  vruntime : Nat → U64
  least : Nat → U64
  curr : Nat → Option Nat

def Sched.times (s : Sched) : Times where
  vruntime e := (s.entity e).vruntime
  least q := (s.cfs q).minVruntime
  curr q := (s.cfs q).curr

/-- The helpers choose by the sign of the 64-bit difference. -/
structure BySign (env : Platform) : Prop where
  least : ∀ a b, env.minVruntime a b = if (b - a).toInt < 0 then b else a
  greatest : ∀ a b, env.maxVruntime a b = if 0 < (b - a).toInt then b else a

/-- How far `place_entity` lets a sleeper fall behind. -/
def sleeperThresh (env : Platform) : Ulong :=
  if env.gentleFairSleepers then env.sysctlSchedLatency >>> 1 else env.sysctlSchedLatency

namespace Times

def setVruntime (t : Times) (e : Nat) (v : U64) : Times := { t with vruntime := Function.update t.vruntime e v }

def setLeast (t : Times) (q : Nat) (v : U64) : Times := { t with least := Function.update t.least q v }

def setCurr (t : Times) (q : Nat) (e : Option Nat) : Times := { t with curr := Function.update t.curr q e }

def Forward (t t' : Times) : Prop := ∀ q, 0 ≤ (t'.least q - t.least q).toInt

structure Spares (x : Nat) (t t' : Times) : Prop where
  vruntime : t'.vruntime x = t.vruntime x
  curr : ∀ q, t'.curr q = some x → t.curr q = some x

theorem Spares.refl (x : Nat) (t : Times) : Spares x t t := ⟨rfl,fun _ here => here⟩

theorem Spares.trans (first : Spares x t t') (second : Spares x t' t'') : Spares x t t'' :=
  ⟨second.vruntime.trans first.vruntime,fun q here => first.curr q (second.curr q here)⟩

theorem Spares.setVruntime (other : e ≠ x) (t : Times) (v : U64) : Spares x t (t.setVruntime e v) :=
  ⟨Function.update_of_ne (Ne.symm other) _ _,fun _ here => here⟩

theorem Spares.setCurr (t : Times) (q : Nat) (other : c ≠ some x) : Spares x t (t.setCurr q c) := by
  refine ⟨rfl,fun q' here => ?_⟩
  by_cases same : q' = q
  · subst same
    exact absurd ((Function.update_self ..).symm.trans here) other
  · exact (Function.update_of_ne same _ _).symm.trans here

theorem Spares.setLeast (spares : Spares x t t') (q : Nat) (v : U64) : Spares x t (t'.setLeast q v) :=
  ⟨spares.vruntime,spares.curr⟩

theorem Forward.of_eq (same : t'.least = t.least) : Forward t t' := by
  intro q
  rw [same,BitVec.sub_self]
  decide

theorem Forward.congr (forward : Forward t t') (left : u.least = t.least) (right : u'.least = t'.least) :
    Forward u u' := by
  intro q
  rw [left,right]
  exact forward q

/-- A candidate that is not later is passed over. -/
theorem forward_offer (order : BySign env) (t : Times) (q : Nat) (v : U64) :
    t.Forward (t.setLeast q (env.maxVruntime (t.least q) v)) := by
  intro q'
  by_cases same : q' = q
  · subst same
    simp only [setLeast,Function.update_self,order.greatest]
    split
    next later => exact Int.le_of_lt later
    next => rw [BitVec.sub_self]; decide
  · simp [setLeast,same]

end Times

section Frame

variable (env : Platform) (s : Sched) (q e : Nat)

theorem times_setCfs {edit : CfsRq → CfsRq} (least : (edit (s.cfs q)).minVruntime = (s.cfs q).minVruntime)
    (curr : (edit (s.cfs q)).curr = (s.cfs q).curr) : (s.setCfs q edit).times = s.times := by
  simp only [Sched.times,Sched.setCfs,Times.mk.injEq,true_and]
  constructor <;> (funext q'; by_cases same : q' = q <;> simp [same,least,curr])

@[simp] theorem times_treeEnqueueEntity : (treeEnqueueEntity env s q e).times = s.times := by
  unfold treeEnqueueEntity
  exact times_setCfs s q rfl rfl

@[simp] theorem times_treeDequeueEntity : (treeDequeueEntity env s q e).times = s.times :=
  times_setCfs s q rfl rfl

@[simp] theorem times_accountEntityEnqueue : (accountEntityEnqueue env s q e).times = s.times :=
  times_setCfs s q (by rw [env.accountEntityEnqueue_eq]) (by rw [env.accountEntityEnqueue_eq])

@[simp] theorem times_accountEntityDequeue : (accountEntityDequeue env s q e).times = s.times :=
  times_setCfs s q (by rw [env.accountEntityDequeue_eq]) (by rw [env.accountEntityDequeue_eq])

@[simp] theorem times_clearBuddies (se : Option Nat) : (clearBuddies env s q se).times = s.times := rfl

theorem times_setEntity {edit : SchedEntity → SchedEntity} (v : U64) (time : (edit (s.entity e)).vruntime = v) :
    (s.setEntity e edit).times = s.times.setVruntime e v := by
  simp only [Sched.times,Sched.setEntity,Times.setVruntime,Times.mk.injEq,and_true]
  funext x
  by_cases same : x = e <;> simp [same,time]

theorem times_setEntity_kept {edit : SchedEntity → SchedEntity}
    (time : (edit (s.entity e)).vruntime = (s.entity e).vruntime) : (s.setEntity e edit).times = s.times := by
  rw [times_setEntity s e _ time]
  simp only [Times.setVruntime,Sched.times,Times.mk.injEq,and_true]
  exact Function.update_eq_self e _

theorem times_setCurr (c : Option Nat) :
    (s.setCfs q fun rq => { rq with curr := c }).times = s.times.setCurr q c := by
  simp only [Sched.times,Sched.setCfs,Times.setCurr,Times.mk.injEq,true_and]
  constructor <;> (funext q'; by_cases same : q' = q <;> simp [same])

theorem times_setLeast (least : U64 → U64) :
    (s.setCfs q fun rq => { rq with minVruntime := least rq.minVruntime }).times =
      s.times.setLeast q (least (s.times.least q)) := by
  simp only [Sched.times,Sched.setCfs,Times.setLeast,Times.mk.injEq,true_and]
  constructor <;> (funext q'; by_cases same : q' = q <;> simp [same])

theorem times_ite (c : Prop) [Decidable c] {a b : Sched} {t : Times} (yes : a.times = t) (no : b.times = t) :
    (if c then a else b).times = t := by
  split
  · exact yes
  · exact no

/-- `update_min_vruntime` offers the queue one candidate. -/
theorem times_updateMinVruntime : ∃ v,
    (updateMinVruntime env s q).times = s.times.setLeast q (env.maxVruntime (s.times.least q) v) := by
  unfold updateMinVruntime
  exact ⟨_,times_setLeast s q fun least => env.maxVruntime least _⟩

end Frame

section Calls

variable (env : Platform) (s : Sched)

/-- Only the current entity of the queue is charged. -/
theorem spares_updateCurr {q x : Nat} (other : s.times.curr q ≠ some x) (now : U64) :
    s.times.Spares x (updateCurr env s q now).times := by
  unfold updateCurr
  split
  · exact .refl x _
  next e here =>
    dsimp only
    split
    · exact .refl x _
    · obtain ⟨v,least⟩ := times_updateMinVruntime env (s.setEntity e _) q
      rw [least,times_setEntity s e _ rfl]
      have different : e ≠ x := fun same => other (same ▸ here)
      exact (Times.Spares.setVruntime different _ _).setLeast q _

/-- The first line of `enqueue_entity`. -/
def denormalised (s : Sched) (q e : Nat) (flags : EnqueueFlags) : Sched :=
  if !flags.wakeup || flags.waking then
    s.setEntity e fun se => { se with vruntime := se.vruntime + (s.cfs q).minVruntime }
  else s

theorem times_denormalised (q e : Nat) (flags : EnqueueFlags) : (denormalised s q e flags).times =
    if !flags.wakeup || flags.waking then s.times.setVruntime e (s.times.vruntime e + s.times.least q)
    else s.times := by
  unfold denormalised
  split
  · exact times_setEntity s e _ rfl
  · rfl

theorem spares_denormalised (other : e ≠ x) (q : Nat) (flags : EnqueueFlags) :
    s.times.Spares x (denormalised s q e flags).times := by
  rw [times_denormalised]
  split
  · exact .setVruntime other _ _
  · exact .refl x _

theorem times_placeEntity (q e : Nat) : (placeEntity env s q e false).times = s.times.setVruntime e
    (env.maxVruntime (s.times.vruntime e) (s.times.least q - (sleeperThresh env).setWidth 64)) := by
  unfold placeEntity
  apply times_setEntity
  simp [Sched.times,sleeperThresh]

theorem times_enqueueEntity (q e : Nat) (flags : EnqueueFlags) (now : U64) :
    (enqueueEntity env s q e flags now).times =
      let t := (updateCurr env (denormalised s q e flags) q now).times
      if flags.wakeup then t.setVruntime e
        (env.maxVruntime (t.vruntime e) (t.least q - (sleeperThresh env).setWidth 64)) else t := by
  unfold enqueueEntity
  dsimp only
  rw [times_setEntity_kept _ _ rfl,times_ite _ rfl (times_treeEnqueueEntity ..),← denormalised]
  generalize updateCurr env (denormalised s q e flags) q now = charged
  split
  · rw [times_placeEntity,times_accountEntityEnqueue]
  · exact times_accountEntityEnqueue ..

theorem times_dequeueEntity (q e : Nat) (sleep : Bool) (now : U64) : ∃ v,
    (dequeueEntity env s q e sleep now).times =
      let t := (updateCurr env s q now).times
      (if sleep then t else t.setVruntime e (t.vruntime e - t.least q)).setLeast q
        (env.maxVruntime (t.least q) v) := by
  unfold dequeueEntity
  dsimp only
  generalize taken : (if ((clearBuddies env (updateCurr env s q now) q (some e)).cfs q).curr = some e
    then clearBuddies env (updateCurr env s q now) q (some e)
    else treeDequeueEntity env (clearBuddies env (updateCurr env s q now) q (some e)) q e) = s₁
  have same : (accountEntityDequeue env (s₁.setEntity e fun se => { se with onRq := false }) q e).times =
      (updateCurr env s q now).times := by
    rw [times_accountEntityDequeue,times_setEntity_kept _ _ rfl,← taken]
    exact times_ite _ rfl (times_treeDequeueEntity ..)
  generalize accountEntityDequeue env (s₁.setEntity e fun se => { se with onRq := false }) q e = s₂ at same
  obtain ⟨v,least⟩ := times_updateMinVruntime env
    (if sleep = true then s₂ else
      s₂.setEntity e fun se => { se with vruntime := se.vruntime - (s₂.cfs q).minVruntime }) q
  refine ⟨v,least.trans ?_⟩
  rw [← same]
  split
  · rfl
  · rw [times_setEntity s₂ e _ rfl]
    rfl

theorem times_setNextEntity (q e : Nat) (now : U64) :
    (setNextEntity env s q e now).times = s.times.setCurr q (some e) := by
  unfold setNextEntity
  dsimp only
  rw [times_setEntity_kept _ _ rfl,times_setCurr,times_ite _ (times_treeDequeueEntity ..) rfl]

theorem times_putPrevEntity (q e : Nat) (now : U64) : (putPrevEntity env s q e now).times =
    (if (s.entity e).onRq then updateCurr env s q now else s).times.setCurr q none := by
  unfold putPrevEntity
  dsimp only
  rw [times_setCurr]
  congr 1
  split
  · exact times_treeEnqueueEntity ..
  · rfl

variable {env} (order : BySign env)
include order

theorem forward_updateMinVruntime (q : Nat) : s.times.Forward (updateMinVruntime env s q).times := by
  obtain ⟨v,least⟩ := times_updateMinVruntime env s q
  rw [least]
  exact Times.forward_offer order s.times q v

theorem forward_updateCurr (q : Nat) (now : U64) : s.times.Forward (updateCurr env s q now).times := by
  unfold updateCurr
  split
  · exact .of_eq rfl
  · dsimp only
    split
    · exact .of_eq rfl
    · exact forward_updateMinVruntime (s.setEntity _ _) order q

end Calls

inductive QueueCall where
  | update (q : Nat) (now : U64)
  | enqueue (q e : Nat) (flags : EnqueueFlags) (now : U64)
  | dequeue (q e : Nat) (sleep : Bool) (now : U64)
  | pick (q : Nat) (curr : Option Nat)
  | setNext (q e : Nat) (now : U64)
  | putPrev (q e : Nat) (now : U64)

namespace QueueCall

def queue : QueueCall → Nat
  | update q _ | enqueue q _ _ _ | dequeue q _ _ _ | pick q _ | setNext q _ _ | putPrev q _ _ => q

def entity : QueueCall → Option Nat
  | enqueue _ e _ _ | dequeue _ e _ _ | setNext _ e _ | putPrev _ e _ => some e
  | update .. | pick .. => none

variable (env : Platform)

def exec (s : Sched) : QueueCall → Sched
  | update q now => updateCurr env s q now
  | enqueue q e flags now => enqueueEntity env s q e flags now
  | dequeue q e sleep now => dequeueEntity env s q e sleep now
  | pick q curr => (pickNextEntity env s q curr).2
  | setNext q e now => setNextEntity env s q e now
  | putPrev q e now => putPrevEntity env s q e now

/-- The states the call goes through, up to its last one. From each to the next
`min_vruntime` is written at most once. -/
def stages (s : Sched) : QueueCall → List Sched
  | enqueue q e flags now =>
    [updateCurr env (denormalised s q e flags) q now, enqueueEntity env s q e flags now]
  | dequeue q e sleep now => [updateCurr env s q now, dequeueEntity env s q e sleep now]
  | c => [exec env s c]

def run (s : Sched) (calls : List QueueCall) : Sched := calls.foldl (exec env) s

/-- All states that a row of calls goes through. -/
def trace : Sched → List QueueCall → List Sched
  | _, [] => []
  | s, c :: calls => c.stages env s ++ trace (c.exec env s) calls

/-- A call on one of the two queues that has nothing to do with `se`. -/
def Apart (A B se : Nat) (c : QueueCall) : Prop := (c.queue = A ∨ c.queue = B) ∧ c.entity ≠ some se

variable {env} {s : Sched}

theorem spares {c : QueueCall} (idle : s.times.curr c.queue ≠ some x) (other : c.entity ≠ some x) :
    s.times.Spares x (c.exec env s).times := by
  cases c with
  | update q now => exact spares_updateCurr env s idle now
  | enqueue q e flags now =>
    have apart : e ≠ x := fun same => other (congrArg some same)
    have first := spares_denormalised s apart q flags
    have charged := first.trans (spares_updateCurr env _ (fun here => idle (first.curr q here)) now)
    simp only [exec,times_enqueueEntity]
    split
    · exact charged.trans (.setVruntime apart _ _)
    · exact charged
  | dequeue q e sleep now =>
    have apart : e ≠ x := fun same => other (congrArg some same)
    have charged := spares_updateCurr env s idle now
    obtain ⟨v,times⟩ := times_dequeueEntity env s q e sleep now
    simp only [exec,times]
    refine Times.Spares.setLeast ?_ q _
    split
    · exact charged
    · exact charged.trans (.setVruntime apart _ _)
  | pick q curr => exact .refl x _
  | setNext q e now =>
    simp only [exec,times_setNextEntity]
    exact .setCurr _ q other
  | putPrev q e now =>
    simp only [exec,times_putPrevEntity]
    refine Times.Spares.trans ?_ (.setCurr _ q (by simp))
    split
    · exact spares_updateCurr env s idle now
    · exact .refl x _

/-- Whatever happens on the two queues, an entity that is on neither keeps its time. -/
theorem spares_run (env : Platform) {A B x : Nat} {calls : List QueueCall} (apart : ∀ c ∈ calls, c.Apart A B x) :
    {s : Sched} → s.times.curr A ≠ some x → s.times.curr B ≠ some x → s.times.Spares x (run env s calls).times := by
  induction calls with
  | nil => exact fun _ _ => .refl x _
  | cons c calls ih =>
    intro s idleA idleB
    obtain ⟨⟨here,other⟩,rest⟩ := List.forall_mem_cons.mp apart
    have first : s.times.Spares x (c.exec env s).times := by
      refine spares ?_ other
      rcases here with here | here
      · exact here ▸ idleA
      · exact here ▸ idleB
    exact first.trans (ih rest (fun h => idleA (first.curr A h)) (fun h => idleB (first.curr B h)))

theorem forward_stages (order : BySign env) (c : QueueCall) :
    (s :: c.stages env s).IsChain (fun a b => a.times.Forward b.times) := by
  cases c with
  | update q now => exact .cons_cons (forward_updateCurr s order q now) (.singleton _)
  | enqueue q e flags now =>
    have same : (denormalised s q e flags).times.least = s.times.least := by
      rw [times_denormalised]
      split <;> rfl
    have first := (forward_updateCurr (denormalised s q e flags) order q now).congr same.symm rfl
    refine .cons_cons first (.cons_cons (.of_eq ?_) (.singleton _))
    rw [times_enqueueEntity]
    dsimp only
    split <;> rfl
  | dequeue q e sleep now =>
    refine .cons_cons (forward_updateCurr s order q now) (.cons_cons ?_ (.singleton _))
    obtain ⟨v,times⟩ := times_dequeueEntity env s q e sleep now
    rw [times]
    apply (Times.forward_offer order (updateCurr env s q now).times q v).congr rfl
    dsimp only
    split <;> rfl
  | pick q curr => exact .cons_cons (.of_eq rfl) (.singleton _)
  | setNext q e now =>
    refine .cons_cons (.of_eq ?_) (.singleton _)
    rw [exec,times_setNextEntity]
    rfl
  | putPrev q e now =>
    refine .cons_cons ?_ (.singleton _)
    rw [exec,times_putPrevEntity]
    split
    · exact (forward_updateCurr s order q now).congr rfl rfl
    · exact .of_eq rfl

theorem stages_exec (env : Platform) (s : Sched) (c : QueueCall) :
    ∃ before, c.stages env s = before ++ [c.exec env s] := by
  cases c with
  | enqueue | dequeue => exact ⟨[_],rfl⟩
  | update | pick | setNext | putPrev => exact ⟨[],rfl⟩

theorem forward_trace (order : BySign env) (calls : List QueueCall) : (s : Sched) →
    (s :: trace env s calls).IsChain (fun a b => a.times.Forward b.times) := by
  induction calls with
  | nil => exact fun _ => .singleton _
  | cons c calls ih =>
    intro s
    obtain ⟨before,stages⟩ := stages_exec env s c
    have first := forward_stages (s := s) order c
    rw [trace,stages,List.append_assoc,List.singleton_append,← List.cons_append,List.isChain_split]
    rw [stages] at first
    exact ⟨first,ih (c.exec env s)⟩

end QueueCall

section Requeue

variable (env : Platform) {s : Sched} {A B se : Nat}

/-- What the entity takes along, and that it is current nowhere. -/
theorem dequeueEntity_leaves (idleA : s.times.curr A ≠ some se) (idleB : s.times.curr B ≠ some se)
    (sleep : Bool) (now : U64) :
    let t := (dequeueEntity env s A se sleep now).times
    t.vruntime se = (if sleep then s.times.vruntime se
      else s.times.vruntime se - (updateCurr env s A now).times.least A) ∧
    t.curr A ≠ some se ∧ t.curr B ≠ some se := by
  have charged := spares_updateCurr env s idleA now
  obtain ⟨v,times⟩ := times_dequeueEntity env s A se sleep now
  rw [times,← charged.vruntime]
  cases sleep with
  | true => exact ⟨rfl,fun here => idleA (charged.curr A here),fun here => idleB (charged.curr B here)⟩
  | false =>
    refine ⟨?_,fun here => idleA (charged.curr A here),fun here => idleB (charged.curr B here)⟩
    simp [Times.setVruntime,Times.setLeast]

theorem enqueueEntity_joins (idle : s.times.curr B ≠ some se) (flags : EnqueueFlags)
    (asleep : flags.wakeup = false) (now : U64) :
    (enqueueEntity env s B se flags now).times.vruntime se = s.times.vruntime se + s.times.least B := by
  have adds : (denormalised s B se flags).times =
      s.times.setVruntime se (s.times.vruntime se + s.times.least B) := by
    simp [times_denormalised,asleep]
  have idle' : (denormalised s B se flags).times.curr B ≠ some se := by
    rw [adds]
    exact idle
  have charged := (spares_updateCurr env (denormalised s B se flags) idle' now).vruntime
  simp only [times_enqueueEntity,asleep,Bool.false_eq_true,if_false]
  rw [charged,adds]
  exact Function.update_self ..

theorem enqueueEntity_wakes (idle : s.times.curr A ≠ some se) (now : U64) :
    (enqueueEntity env s A se ⟨true, false⟩ now).times.vruntime se =
      env.maxVruntime (s.times.vruntime se)
        ((updateCurr env s A now).times.least A - (sleeperThresh env).setWidth 64) := by
  have charged := (spares_updateCurr env s idle now).vruntime
  have same : denormalised s A se ⟨true, false⟩ = s := rfl
  rw [times_enqueueEntity,same,← charged]
  exact Function.update_self ..

/-- The time at which the entity comes back. -/
theorem run_leaves (idleA : s.times.curr A ≠ some se) (idleB : s.times.curr B ≠ some se)
    {calls : List QueueCall} (apart : ∀ c ∈ calls, c.Apart A B se) (sleep : Bool) (now : U64) :
    let t := (QueueCall.run env (dequeueEntity env s A se sleep now) calls).times
    t.vruntime se = (if sleep then s.times.vruntime se
      else s.times.vruntime se - (updateCurr env s A now).times.least A) ∧
    t.curr A ≠ some se ∧ t.curr B ≠ some se := by
  obtain ⟨vruntime,offA,offB⟩ := dequeueEntity_leaves env idleA idleB sleep now
  have spared := QueueCall.spares_run env apart offA offB
  refine ⟨spared.vruntime.trans vruntime,?_,?_⟩
  · exact fun here => offA (spared.curr A here)
  · exact fun here => offB (spared.curr B here)

/-- The later of a time and `used - thresh`. -/
theorem clamped {env : Platform} (order : BySign env) (old used : U64) (thresh : Ulong) :
    let v := env.maxVruntime old (used - thresh.setWidth 64)
    0 ≤ (v - old).toInt ∧ (used - v).toInt ≤ thresh.toNat := by
  have small : (thresh.setWidth 64).toInt = thresh.toNat := by
    have := thresh.isLt
    rw [BitVec.toInt_eq_toNat_of_lt,BitVec.toNat_setWidth,Nat.mod_eq_of_lt] <;>
      (try rw [BitVec.toNat_setWidth]) <;> omega
  dsimp only
  rw [order.greatest]
  split
  next later =>
    refine ⟨Int.le_of_lt later,?_⟩
    have back : used - (used - thresh.setWidth 64) = thresh.setWidth 64 := by bv_omega
    rw [back,small]
  next earlier =>
    refine ⟨by rw [BitVec.sub_self]; decide,?_⟩
    have split : used - old = (used - thresh.setWidth 64 - old) + thresh.setWidth 64 := by bv_omega
    have low := BitVec.le_toInt (used - thresh.setWidth 64 - old)
    have narrow := thresh.isLt
    rw [split,BitVec.toInt_add,small]
    rw [Int.bmod_eq_of_le_mul_two] <;> omega

end Requeue

/-- An entity that is queued again keeps its distance from `min_vruntime`, and one that slept
falls behind by no more than the threshold. `min_vruntime` only moves forward. -/
theorem requeue_keeps_place {env : Platform} (order : BySign env) :
    (∀ (s : Sched) A B se calls flags now now', (s.cfs A).curr ≠ some se → (s.cfs B).curr ≠ some se →
      (∀ c ∈ calls, QueueCall.Apart A B se c) →
      let between sleep := QueueCall.run env (dequeueEntity env s A se sleep now) calls
      (flags.wakeup = false →
        ((enqueueEntity env (between false) B se flags now').entity se).vruntime -
          ((between false).cfs B).minVruntime =
        (s.entity se).vruntime - ((updateCurr env s A now).cfs A).minVruntime) ∧
      (flags = ⟨true, false⟩ →
        let v := ((enqueueEntity env (between true) A se flags now').entity se).vruntime
        let used := ((updateCurr env (between true) A now').cfs A).minVruntime
        v = env.maxVruntime (s.entity se).vruntime (used - (sleeperThresh env).setWidth 64) ∧
        0 ≤ (v - (s.entity se).vruntime).toInt ∧ (used - v).toInt ≤ (sleeperThresh env).toNat)) ∧
    ∀ (s : Sched) calls, (s :: QueueCall.trace env s calls).IsChain fun before after =>
      ∀ q, 0 ≤ ((after.cfs q).minVruntime - (before.cfs q).minVruntime).toInt := by
  refine ⟨?_,fun s calls => QueueCall.forward_trace order calls s⟩
  intro s A B se calls flags now now' idleA idleB apart
  dsimp only
  refine ⟨fun asleep => ?_,fun wakes => ?_⟩
  · obtain ⟨vruntime,_,idle⟩ := run_leaves env idleA idleB apart false now
    have joined := enqueueEntity_joins env idle flags asleep now'
    rw [vruntime] at joined
    exact (congrArg (· - _) joined).trans (BitVec.add_sub_cancel ..)
  · obtain ⟨vruntime,idle,_⟩ := run_leaves env idleA idleB apart true now
    subst wakes
    have woken := enqueueEntity_wakes env idle now'
    rw [vruntime,if_pos rfl] at woken
    refine ⟨woken,?_⟩
    have near := clamped order (s.times.vruntime se)
      ((updateCurr env (QueueCall.run env (dequeueEntity env s A se true now) calls) A now').times.least A)
      (sleeperThresh env)
    dsimp only at near
    rw [← woken] at near
    exact near

def twoQueues : Sched :=
  ((enqueueEntity basePlatform (emptySched fun _ => 1024) 0 1 ⟨false, false⟩ 0).setEntity 1
    fun se => { se with vruntime := 5000 }).setCfs 0 (fun c => { c with minVruntime := 3000 })
    |>.setCfs 1 fun c => { c with minVruntime := 10000 }

/-- It moves to queue 1, or sleeps and comes back, while another entity joins queue 0. -/
theorem requeue_keeps_place_two :
    let joins := [QueueCall.enqueue 0 2 ⟨false, false⟩ 0]
    let between sleep := QueueCall.run basePlatform (dequeueEntity basePlatform twoQueues 0 1 sleep 0) joins
    ((enqueueEntity basePlatform (between false) 1 1 ⟨false, false⟩ 0).entity 1).vruntime -
      ((between false).cfs 1).minVruntime = 2000 ∧
    ((enqueueEntity basePlatform (between true) 0 1 ⟨true, false⟩ 0).entity 1).vruntime =
      basePlatform.maxVruntime 5000 (((between true).cfs 0).minVruntime - 3000000) := by
  have order : BySign basePlatform := ⟨fun _ _ => rfl,fun _ _ => rfl⟩
  have apart : ∀ c ∈ [QueueCall.enqueue 0 2 ⟨false, false⟩ 0], QueueCall.Apart 0 1 1 c := by
    simp [QueueCall.Apart,QueueCall.queue,QueueCall.entity]
  have place (flags : EnqueueFlags) := (requeue_keeps_place order).1 twoQueues 0 1 1 _ flags 0 0
    (by decide) (by decide) apart
  obtain ⟨moved,_⟩ := place ⟨false, false⟩
  obtain ⟨_,woken⟩ := place ⟨true, false⟩
  exact ⟨moved rfl,(woken rfl).1⟩

end Kernal.Cfs
