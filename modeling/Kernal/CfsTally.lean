import Kernal.Cfs

/-! The counters of the run queues on their own. Neither virtual times nor the tree
decide what is counted, so the two task operations act on the counters alone, whatever
the flags and the clock are. -/
namespace Kernal.Cfs

structure Tally where
  onRq : Nat → Bool
  weight : Nat → Nat
  nr : Nat → Nat
  load : Nat → Nat
  hNr : Nat → Nat
  total : Nat

def Sched.tally (s : Sched) : Tally where
  onRq e := (s.entity e).onRq
  weight e := (s.entity e).weight
  nr q := (s.cfs q).nrRunning
  load q := (s.cfs q).loadWeight
  hNr q := (s.cfs q).hNrRunning
  total := s.nrRunning

namespace Tally

def enqueueEntity (t : Tally) (q e : Nat) : Tally :=
  { t with
    onRq := Function.update t.onRq e true
    nr := Function.update t.nr q (t.nr q + 1)
    load := Function.update t.load q (t.load q + t.weight e) }

def dequeueEntity (t : Tally) (q e : Nat) : Tally :=
  { t with
    onRq := Function.update t.onRq e false
    nr := Function.update t.nr q (t.nr q - 1)
    load := Function.update t.load q (t.load q - t.weight e) }

def count (t : Tally) (q : Nat) (f : Nat → Nat) : Tally :=
  { t with hNr := Function.update t.hNr q (f (t.hNr q)) }

variable (h : Hierarchy)

def enqueueLoop : List Nat → Tally → List Nat × Tally
  | [], t => ([], t)
  | e :: up, t =>
    if t.onRq e then (e :: up, t)
    else
      let q := h.cfsRqOf e
      let t := t.enqueueEntity q e
      if h.throttled q then (e :: up, t) else enqueueLoop up (t.count q (· + 1))

def countLoop (f : Nat → Nat) : List Nat → Tally → List Nat × Tally
  | [], t => ([], t)
  | e :: up, t =>
    let q := h.cfsRqOf e
    if h.throttled q then (e :: up, t.count q f) else countLoop f up (t.count q f)

def dequeueLoop : List Nat → Tally → List Nat × Tally
  | [], t => ([], t)
  | e :: up, t =>
    let q := h.cfsRqOf e
    let t := t.dequeueEntity q e
    if h.throttled q then (e :: up, t)
    else
      let t := t.count q (· - 1)
      if t.load q ≠ 0 then (up, t) else dequeueLoop up t

def enqueueTask (t : Tally) (p : Nat) : Tally :=
  let (rest, t) := enqueueLoop h (h.path p) t
  let (rest, t) := countLoop h (· + 1) rest t
  if rest = [] then { t with total := t.total + 1 } else t

def dequeueTask (t : Tally) (p : Nat) : Tally :=
  let (rest, t) := dequeueLoop h (h.path p) t
  let (rest, t) := countLoop h (· - 1) rest t
  if rest = [] then { t with total := t.total - 1 } else t

end Tally

section Frame

variable (env : Platform) (s : Sched)

theorem tally_setEntity (e : Nat) (edit : SchedEntity → SchedEntity)
    (onRq : ∀ se, (edit se).onRq = se.onRq) (weight : ∀ se, (edit se).weight = se.weight) :
    (s.setEntity e edit).tally = s.tally := by
  simp only [Sched.tally,Sched.setEntity,Tally.mk.injEq,and_true]
  constructor <;> funext x <;> by_cases same : x = e
  all_goals simp [same,onRq,weight]

theorem tally_setCfs (q : Nat) (edit : CfsRq → CfsRq)
    (nr : ∀ c, (edit c).nrRunning = c.nrRunning) (load : ∀ c, (edit c).loadWeight = c.loadWeight)
    (hNr : ∀ c, (edit c).hNrRunning = c.hNrRunning) : (s.setCfs q edit).tally = s.tally := by
  simp only [Sched.tally,Sched.setCfs,Tally.mk.injEq,true_and,and_true]
  refine ⟨?_,?_,?_⟩ <;> funext x <;> by_cases same : x = q
  all_goals simp [same,nr,load,hNr]

@[simp] theorem tally_updateMinVruntime (q : Nat) : (updateMinVruntime env s q).tally = s.tally := by
  unfold updateMinVruntime
  apply tally_setCfs <;> exact fun _ => rfl

theorem updateInvWeight_weight (se : SchedEntity) :
    (updateInvWeight env se).weight = se.weight ∧ (updateInvWeight env se).onRq = se.onRq := by
  unfold updateInvWeight
  dsimp only
  split
  · exact ⟨rfl,rfl⟩
  · split
    · exact ⟨rfl,rfl⟩
    · split <;> exact ⟨rfl,rfl⟩

theorem calcDeltaFair_weight (delta : U64) (se : SchedEntity) :
    (calcDeltaFair env delta se).2.weight = se.weight ∧
    (calcDeltaFair env delta se).2.onRq = se.onRq := by
  unfold calcDeltaFair
  split
  · exact updateInvWeight_weight env se
  · exact ⟨rfl,rfl⟩

@[simp] theorem tally_updateCurr (q : Nat) (now : U64) : (updateCurr env s q now).tally = s.tally := by
  unfold updateCurr
  split
  · rfl
  · dsimp only
    split
    · rfl
    · rw [tally_updateMinVruntime]
      exact tally_setEntity s _ _ (fun se => (calcDeltaFair_weight env _ se).2)
        (fun se => (calcDeltaFair_weight env _ se).1)

@[simp] theorem tally_treeEnqueueEntity (q e : Nat) : (treeEnqueueEntity env s q e).tally = s.tally := by
  unfold treeEnqueueEntity
  apply tally_setCfs <;> exact fun _ => rfl

@[simp] theorem tally_treeDequeueEntity (q e : Nat) : (treeDequeueEntity env s q e).tally = s.tally := by
  unfold treeDequeueEntity
  apply tally_setCfs <;> exact fun _ => rfl

@[simp] theorem tally_placeEntity (q e : Nat) (initial : Bool) :
    (placeEntity env s q e initial).tally = s.tally := by
  unfold placeEntity
  apply tally_setEntity <;> exact fun _ => rfl

@[simp] theorem tally_setVruntime (e : Nat) (f : U64 → U64) :
    (s.setEntity e fun se => { se with vruntime := f se.vruntime }).tally = s.tally :=
  tally_setEntity s e _ (fun _ => rfl) (fun _ => rfl)

@[simp] theorem tally_clearBuddies (q : Nat) (se : Option Nat) :
    (clearBuddies env s q se).tally = s.tally := rfl

theorem tally_setOnRq (e : Nat) (value : Bool) :
    (s.setEntity e fun se => { se with onRq := value }).tally =
      { s.tally with onRq := Function.update s.tally.onRq e value } := by
  simp only [Sched.tally,Sched.setEntity,Tally.mk.injEq,and_true]
  constructor <;> funext x <;> by_cases same : x = e
  all_goals simp [same]

theorem tally_count (q : Nat) (f : Nat → Nat) :
    (s.setCfs q fun c => { c with hNrRunning := f c.hNrRunning }).tally = s.tally.count q f := by
  simp only [Sched.tally,Sched.setCfs,Tally.count,Tally.mk.injEq,true_and,and_true]
  refine ⟨?_,?_,?_⟩ <;> funext x <;> by_cases same : x = q
  all_goals simp [same]

theorem tally_accountEntityEnqueue (q e : Nat) : (accountEntityEnqueue env s q e).tally =
    { s.tally with
      nr := Function.update s.tally.nr q (s.tally.nr q + 1)
      load := Function.update s.tally.load q (s.tally.load q + s.tally.weight e) } := by
  simp only [accountEntityEnqueue,env.accountEntityEnqueue_eq,Sched.tally,Sched.setCfs,Tally.mk.injEq,true_and,and_true]
  refine ⟨?_,?_,?_⟩ <;> funext x <;> by_cases same : x = q
  all_goals simp [same]

theorem tally_accountEntityDequeue (q e : Nat) : (accountEntityDequeue env s q e).tally =
    { s.tally with
      nr := Function.update s.tally.nr q (s.tally.nr q - 1)
      load := Function.update s.tally.load q (s.tally.load q - s.tally.weight e) } := by
  simp only [accountEntityDequeue,env.accountEntityDequeue_eq,Sched.tally,Sched.setCfs,Tally.mk.injEq,true_and,and_true]
  refine ⟨?_,?_,?_⟩ <;> funext x <;> by_cases same : x = q
  all_goals simp [same]

/-- Branches that move no counter. -/
theorem tally_ite (c : Prop) [Decidable c] {a b : Sched} (ha : a.tally = s.tally)
    (hb : b.tally = s.tally) : (if c then a else b).tally = s.tally := by
  split
  · exact ha
  · exact hb

theorem tally_enqueueEntity (q e : Nat) (flags : EnqueueFlags) (now : U64) :
    (enqueueEntity env s q e flags now).tally = s.tally.enqueueEntity q e := by
  unfold enqueueEntity
  dsimp only
  rw [tally_setOnRq,tally_ite _ _ rfl (tally_treeEnqueueEntity ..),
    tally_ite _ _ (tally_placeEntity ..) rfl,tally_accountEntityEnqueue,tally_updateCurr,
    tally_ite s _ (tally_setVruntime s e (· + (s.cfs q).minVruntime)) rfl]
  rfl

theorem tally_dequeueEntity (q e : Nat) (sleep : Bool) (now : U64) :
    (dequeueEntity env s q e sleep now).tally = s.tally.dequeueEntity q e := by
  unfold dequeueEntity
  dsimp only
  rw [tally_updateMinVruntime,tally_ite _ _ rfl (tally_setVruntime _ e (· - _)),
    tally_accountEntityDequeue,tally_setOnRq,tally_ite _ _ rfl (tally_treeDequeueEntity ..),
    tally_clearBuddies,tally_updateCurr]
  rfl

end Frame

section Refinement

variable (env : Platform) (h : Hierarchy) (clock : Nat → U64)

theorem tally_countLoop (f : Nat → Nat) (l : List Nat) (s : Sched) :
    ((countLoop h f l s).1,(countLoop h f l s).2.tally) = s.tally.countLoop h f l := by
  induction l generalizing s with
  | nil => rfl
  | cons e up ih =>
    simp only [countLoop,Tally.countLoop,← tally_count]
    split
    · rfl
    · exact ih _

theorem tally_enqueueLoop (l : List Nat) (flags : EnqueueFlags) (s : Sched) :
    ((enqueueLoop env h clock l flags s).1,(enqueueLoop env h clock l flags s).2.tally) =
      s.tally.enqueueLoop h l := by
  induction l generalizing flags s with
  | nil => rfl
  | cons e up ih =>
    simp only [enqueueLoop,Tally.enqueueLoop]
    rw [show s.tally.onRq e = (s.entity e).onRq from rfl]
    split
    · rfl
    · rw [← tally_enqueueEntity env s (h.cfsRqOf e) e flags (clock (h.cfsRqOf e)),← tally_count]
      split
      · rfl
      · exact ih _ _

theorem tally_dequeueLoop (taskSleep : Bool) (l : List Nat) (sleep : Bool) (s : Sched) :
    ((dequeueLoop env h clock taskSleep l sleep s).1,
      (dequeueLoop env h clock taskSleep l sleep s).2.tally) = s.tally.dequeueLoop h l := by
  induction l generalizing sleep s with
  | nil => rfl
  | cons e up ih =>
    simp only [dequeueLoop,Tally.dequeueLoop]
    rw [← tally_dequeueEntity env s (h.cfsRqOf e) e sleep (clock (h.cfsRqOf e)),← tally_count]
    generalize dequeueEntity env s (h.cfsRqOf e) e sleep (clock (h.cfsRqOf e)) = s'
    split
    · rfl
    · generalize (s'.setCfs (h.cfsRqOf e) fun c => { c with hNrRunning := c.hNrRunning - 1 }) = s''
      rw [show s''.tally.load (h.cfsRqOf e) = (s''.cfs (h.cfsRqOf e)).loadWeight from rfl]
      split
      · -- The buddy that may be set here is not counted.
        cases up with
        | nil => rfl
        | cons g up => dsimp only; split <;> rfl
      · exact ih _ _

/-- The task operations refine those on the counters alone. -/
theorem tally_enqueueTaskFair (s : Sched) (p : Nat) (flags : EnqueueFlags) :
    (enqueueTaskFair env h s p flags clock).tally = s.tally.enqueueTask h p := by
  have first := tally_enqueueLoop env h clock (h.path p) flags s
  have second := tally_countLoop h (· + 1) (enqueueLoop env h clock (h.path p) flags s).1
    (enqueueLoop env h clock (h.path p) flags s).2
  simp only [enqueueTaskFair,Tally.enqueueTask,env.addNrRunning_eq,← first,← second]
  split <;> rfl

theorem tally_dequeueTaskFair (s : Sched) (p : Nat) (sleep : Bool) :
    (dequeueTaskFair env h s p sleep clock).tally = s.tally.dequeueTask h p := by
  have first := tally_dequeueLoop env h clock sleep (h.path p) sleep s
  have second := tally_countLoop h (· - 1) (dequeueLoop env h clock sleep (h.path p) sleep s).1
    (dequeueLoop env h clock sleep (h.path p) sleep s).2
  simp only [dequeueTaskFair,Tally.dequeueTask,env.subNrRunning_eq,← first,← second]
  split <;> rfl

end Refinement

end Kernal.Cfs
