import Kernal.CfsShape
import Kernal.Runs

/-! Whether `sum_exec_runtime` grows by the time an entity was current. `update_curr` moves
`exec_start` and `sum_exec_runtime` by the same amount, so what counts is whether the last
charge before an entity is put back reaches the reading of the clock. -/
namespace Kernal.Cfs

open SearchTree Runs

/-- What an entity ran before `exec_start`; charging does not change it. -/
def Sched.balance (s : Sched) (e : Nat) : U64 := (s.entity e).sumExecRuntime - (s.entity e).execStart

section Balance

variable (env : Platform) (s : Sched) (x : Nat)

theorem balance_setEntity (e : Nat) (edit : SchedEntity → SchedEntity)
    (same : ∀ se, (edit se).sumExecRuntime - (edit se).execStart = se.sumExecRuntime - se.execStart) :
    (s.setEntity e edit).balance x = s.balance x := by
  by_cases here : x = e <;> simp [Sched.balance,Sched.setEntity,here,same]

@[simp] theorem balance_setCfs (q : Nat) (edit : CfsRq → CfsRq) :
    (s.setCfs q edit).balance x = s.balance x := rfl

@[simp] theorem balance_treeEnqueueEntity (q e : Nat) :
    (treeEnqueueEntity env s q e).balance x = s.balance x := rfl

@[simp] theorem balance_treeDequeueEntity (q e : Nat) :
    (treeDequeueEntity env s q e).balance x = s.balance x := rfl

@[simp] theorem balance_updateMinVruntime (q : Nat) :
    (updateMinVruntime env s q).balance x = s.balance x := rfl

@[simp] theorem balance_clearBuddies (q : Nat) (se : Option Nat) :
    (clearBuddies env s q se).balance x = s.balance x := rfl

@[simp] theorem balance_ite (c : Prop) [Decidable c] (s t : Sched) :
    (if c then s else t).balance x = if c then s.balance x else t.balance x :=
  apply_ite (fun s : Sched => s.balance x) c s t

@[simp] theorem balance_updateCurr (q : Nat) (now : U64) :
    (updateCurr env s q now).balance x = s.balance x := by
  unfold updateCurr
  split
  · rfl
  · next e _ =>
    dsimp only
    rw [balance_ite,balance_updateMinVruntime]
    by_cases here : x = e
    · simp [Sched.balance,Sched.setEntity,here]
      intro _
      bv_omega
    · simp [Sched.balance,Sched.setEntity,here]

@[simp] theorem balance_enqueueEntity (q e : Nat) (flags : EnqueueFlags) (now : U64) :
    (enqueueEntity env s q e flags now).balance x = s.balance x := by
  simp [enqueueEntity,placeEntity,accountEntityEnqueue,balance_setEntity]

@[simp] theorem balance_dequeueEntity (q e : Nat) (sleep : Bool) (now : U64) :
    (dequeueEntity env s q e sleep now).balance x = s.balance x := by
  simp [dequeueEntity,accountEntityDequeue,balance_setEntity]

@[simp] theorem balance_putPrevEntity (q e : Nat) (now : U64) :
    (putPrevEntity env s q e now).balance x = s.balance x := by
  simp [putPrevEntity]

/-- The next entity starts with what it ran before. -/
theorem balance_setNextEntity (q e : Nat) (now : U64) :
    (setNextEntity env s q e now).balance x =
      if x = e then (s.entity e).sumExecRuntime - now else s.balance x := by
  by_cases here : x = e <;> by_cases on : (s.entity e).onRq = true <;>
    simp [setNextEntity,Sched.balance,Sched.setEntity,treeDequeueEntity,Sched.setCfs,here,on]

end Balance

section Charge

variable (env : Platform) (s : Sched)

def chargedUntil (s : Sched) (q e : Nat) (now : U64) : U64 :=
  if (s.cfs q).curr = some e ∧ 0 < toS64 (now - (s.entity e).execStart) then now
  else (s.entity e).execStart

theorem execStart_updateCurr (q e : Nat) (now : U64) :
    ((updateCurr env s q now).entity e).execStart = chargedUntil s q e now := by
  unfold updateCurr chargedUntil
  split
  · simp [*]
  · next c current =>
    dsimp only
    rw [current]
    by_cases here : c = e
    · subst here
      by_cases late : toS64 (now - (s.entity c).execStart) ≤ 0
      · simp [late]
      · simp [late,Int.not_le.1 late,entity_updateMinVruntime,Sched.setEntity]
    · split <;> simp [here,Ne.symm here,entity_updateMinVruntime,Sched.setEntity]

theorem chargedUntil_eq_now {q e : Nat} {now : U64} : chargedUntil s q e now = now ↔
    (s.entity e).execStart = now ∨
      (s.cfs q).curr = some e ∧ 0 < toS64 (now - (s.entity e).execStart) := by
  unfold chargedUntil
  split
  · next charged => simp [charged]
  · next lost => simp [lost]

theorem execStart_putPrevEntity (q : Nat) {e : Nat} (on : (s.entity e).onRq = true) (now : U64) :
    ((putPrevEntity env s q e now).entity e).execStart = chargedUntil s q e now := by
  rw [← execStart_updateCurr env]
  simp [putPrevEntity,on,treeEnqueueEntity,Sched.setCfs]

end Charge

/-- A stretch of time in which an entity was current, with `sum_exec_runtime` at both
ends. -/
structure Stretch where
  start : U64
  sumStart : U64
  stop : U64
  sumStop : U64
  deriving DecidableEq, Repr

def Stretch.Charged (r : Stretch) : Prop := r.sumStop = r.sumStart + (r.stop - r.start)

/-- The queue with its last reading. `since` has the reading and the sum at which an
entity became current, until it is put back; `closed` is the stretch that ended in the
last call. -/
structure Timed where
  sched : Sched
  now : U64
  since : Nat → Option (U64 × U64)
  closed : Option Stretch

section Calls

variable (env : Platform) (h : Hierarchy)

def Timed.setNext (t : Timed) (e : Nat) (now : U64) : Timed where
  sched := setNextEntity env t.sched root e now
  now := now
  since := Function.update t.since e (some (now, (t.sched.entity e).sumExecRuntime))
  closed := t.closed

/-- Only an entity that is still on the queue is put back. -/
def Timed.putPrev (t : Timed) (p : Nat) (now : U64) : Timed :=
  let sched := putPrevEntity env t.sched root p now
  { sched
    now
    since := Function.update t.since p none
    closed := if (t.sched.entity p).onRq then
        (t.since p).map fun (start, sum) => ⟨start, sum, now, (sched.entity p).sumExecRuntime⟩
      else none }

def Timed.first (t : Timed) (now : U64) : Timed :=
  match pickNextEntity env t.sched root none with
  | (none, s) => { t with sched := s }
  | (some e, s) => Timed.setNext env { t with sched := s } e now

def Timed.charge (t : Timed) (now : U64) : Timed := { t with sched := updateCurr env t.sched root now }

def Timed.pick (t : Timed) (prev : Option Nat) (clock : Nat → U64) : Timed :=
  if (t.sched.cfs root).nrRunning = 0 then t
  else match prev with
    | none => t.first env (clock 2)
    | some p =>
      let t := t.charge env (clock 0)
      if keepsPrev h t.sched p then t else (t.putPrev env p (clock 1)).first env (clock 2)

theorem Timed.sched_first (t : Timed) (now : U64) :
    (t.first env now).sched = (pickFirst env t.sched now).2 := by
  unfold Timed.first pickFirst
  generalize pickNextEntity env t.sched root none = answer
  obtain ⟨chosen,s⟩ := answer
  cases chosen <;> rfl

/-- Keeping record does not change what the code does. -/
theorem Timed.sched_pick (t : Timed) (prev : Option Nat) (clock : Nat → U64) :
    (t.pick env h prev clock).sched = (pickNextTaskFair env h t.sched prev clock).2 := by
  unfold Timed.pick pickNextTaskFair
  split
  · rfl
  · cases prev with
    | none => exact t.sched_first env (clock 2)
    | some p =>
      dsimp only [Timed.charge]
      split
      · rfl
      · exact Timed.sched_first env _ (clock 2)

inductive Call where
  | setNextEntity (e : Nat) (now : U64)
  | updateCurr (now : U64)
  | enqueueEntity (e : Nat) (flags : EnqueueFlags) (now : U64)
  | dequeueEntity (e : Nat) (sleep : Bool) (now : U64)
  | pickNextTaskFair (prev : Option Nat) (clock : Nat → U64)
  | putPrevEntity (p : Nat) (now : U64)

def Timed.call (t : Timed) : Call → Timed
  | .setNextEntity e now => { t with closed := none }.setNext env e now
  | .updateCurr now => { t.charge env now with now, closed := none }
  | .enqueueEntity e flags now =>
    { t with sched := Cfs.enqueueEntity env t.sched root e flags now, now, closed := none }
  | .dequeueEntity e sleep now =>
    { t with sched := Cfs.dequeueEntity env t.sched root e sleep now, now, closed := none }
  | .pickNextTaskFair prev clock =>
    { { t with closed := none }.pick env h prev clock with now := clock 2 }
  | .putPrevEntity p now => t.putPrev env p now

def Call.readings : Call → List U64
  | .setNextEntity _ now => [now]
  | .updateCurr now => [now]
  | .enqueueEntity _ _ now => [now]
  | .dequeueEntity _ _ now => [now]
  | .pickNextTaskFair _ clock => [clock 0, clock 1, clock 2]
  | .putPrevEntity _ now => [now]

/-- The readings of a run never go back and stay below `2^63`. -/
def Timed.Step (t : Timed) (c : Call) (t' : Timed) : Prop :=
  (t.now :: c.readings).Pairwise (· ≤ ·) ∧ (∀ r ∈ c.readings, r.toNat < 2^63) ∧ t' = t.call env h c

def Timed.Fresh (t : Timed) : Prop := t.since = (fun _ => none) ∧ t.closed = none

/-- The stretch that ended last was charged in full. -/
def Timed.Charged (t : Timed) : Prop := ∀ r, t.closed = some r → r.Charged

/-- All time from the last charge of `p` up to `now` can be charged. -/
def Timed.PutCharges (t : Timed) (p : Nat) (now : U64) : Prop :=
  (t.sched.entity p).onRq = true → t.since p ≠ none → (t.sched.entity p).execStart = now ∨
    (t.sched.cfs root).curr = some p ∧ 0 < toS64 (now - (t.sched.entity p).execStart)

/-- In `pick_next_task_fair`, `put_prev_entity` runs after a first `update_curr`. -/
def Timed.Charges (t : Timed) : Call → Prop
  | .putPrevEntity p now => t.PutCharges p now
  | .pickNextTaskFair (some p) clock => (t.sched.cfs root).nrRunning ≠ 0 →
    keepsPrev h (t.charge env (clock 0)).sched p = false → (t.charge env (clock 0)).PutCharges p (clock 1)
  | _ => True

/-- Between `since` and `exec_start` all time is charged. -/
def Timed.Kept (t : Timed) : Prop :=
  ∀ e start sum, t.since e = some (start, sum) → t.sched.balance e = sum - start

variable {env h} {t : Timed}

theorem Timed.Kept.setNext (kept : t.Kept) (e : Nat) (now : U64) : (t.setNext env e now).Kept := by
  intro x start sum was
  simp only [Timed.setNext] at was ⊢
  rw [balance_setNextEntity]
  by_cases here : x = e
  · simp [here] at was
    simp [here,was]
  · simp [here] at was
    simpa [here] using kept x start sum was

theorem Timed.Kept.putPrev (kept : t.Kept) (p : Nat) (now : U64) : (t.putPrev env p now).Kept := by
  intro x start sum was
  simp only [Timed.putPrev] at was ⊢
  by_cases here : x = p
  · simp [here] at was
  · simp [here] at was
    simpa using kept x start sum was

theorem Timed.Kept.first (kept : t.Kept) (now : U64) : (t.first env now).Kept := by
  have chosen : Timed.Kept { t with sched := (pickNextEntity env t.sched root none).2 } := kept
  unfold Timed.first
  split
  · next s answer =>
    rw [answer] at chosen
    exact chosen
  · next e s answer =>
    rw [answer] at chosen
    exact chosen.setNext e now

theorem Timed.Kept.charge (kept : t.Kept) (now : U64) : (t.charge env now).Kept := by
  intro x start sum was
  rw [Timed.charge,balance_updateCurr]
  exact kept x start sum was

theorem Timed.Kept.pick (kept : t.Kept) (prev : Option Nat) (clock : Nat → U64) :
    (t.pick env h prev clock).Kept := by
  unfold Timed.pick
  split
  · exact kept
  · cases prev with
    | none => exact kept.first (clock 2)
    | some p =>
      dsimp only
      split
      · exact kept.charge (clock 0)
      · exact ((kept.charge (clock 0)).putPrev p (clock 1)).first (clock 2)

theorem Timed.Kept.call (kept : t.Kept) (c : Call) : (t.call env h c).Kept := by
  have opened : Timed.Kept { t with closed := none } := kept
  cases c with
  | setNextEntity e now => exact opened.setNext e now
  | updateCurr now => exact kept.charge now
  | enqueueEntity e flags now =>
    intro x start sum was
    simpa [Timed.call] using kept x start sum was
  | dequeueEntity e sleep now =>
    intro x start sum was
    simpa [Timed.call] using kept x start sum was
  | pickNextTaskFair prev clock => exact opened.pick prev clock
  | putPrevEntity p now => exact kept.putPrev p now

/-- Putting an entity back charges all its time exactly when the last charge reaches
`now`. -/
theorem Timed.Kept.putPrev_charged (kept : t.Kept) (env : Platform) (p : Nat) (now : U64) :
    (t.putPrev env p now).Charged ↔ t.PutCharges p now := by
  unfold Timed.Charged Timed.PutCharges Timed.putPrev
  rw [← chargedUntil_eq_now]
  by_cases on : (t.sched.entity p).onRq = true
  · cases was : t.since p with
    | none => simp
    | some opened =>
      obtain ⟨start,sum⟩ := opened
      have balance := balance_putPrevEntity env t.sched p root p now
      rw [kept p start sum was] at balance
      simp only [Sched.balance,execStart_putPrevEntity env t.sched root on now] at balance
      simp [on,Stretch.Charged]
      bv_omega
  · simp [on]

theorem Timed.closed_first (now : U64) : (t.first env now).closed = t.closed := by
  unfold Timed.first
  split <;> rfl

theorem Timed.charged_pick (kept : t.Kept) (opened : t.closed = none) (prev : Option Nat)
    (clock : Nat → U64) :
    (t.pick env h prev clock).Charged ↔ t.Charges env h (.pickNextTaskFair prev clock) := by
  have none_charged (u : Timed) (same : u.closed = t.closed) : u.Charged := by
    intro r closed
    simp [same,opened] at closed
  unfold Timed.pick
  split
  · next empty =>
    cases prev <;> simp [Timed.Charges,empty,none_charged t rfl]
  · next busy =>
    cases prev with
    | none => simp [Timed.Charges,none_charged _ (t.closed_first (clock 2))]
    | some p =>
      dsimp only [Timed.Charges]
      split
      · next keeps => simp [keeps,none_charged (t.charge env (clock 0)) rfl]
      · next puts =>
        rw [← (kept.charge (clock 0)).putPrev_charged env]
        simp [Timed.Charged,Timed.closed_first,busy,puts]

/-- All time is charged in those runs in which no entity is put back at a reading whose
distance from its last charge, cut to 32 bits, is not positive. -/
theorem all_time_charged_iff {past : List (Timed × Call)} {t : Timed}
    (run : Run Timed.Fresh (Timed.Step env h) past t) :
    Always Timed.Charged past t ↔ Throughout (Timed.Charges env h) past := by
  apply run.always_iff (I := Timed.Kept)
  · rintro t ⟨since,closed⟩
    exact ⟨by simp [Timed.Kept,since],by simp [Timed.Charged,closed]⟩
  · rintro t c _ kept ⟨_,_,rfl⟩
    exact kept.call c
  · rintro t c _ kept - ⟨_,_,rfl⟩
    cases c with
    | pickNextTaskFair prev clock => exact Timed.charged_pick (t := { t with closed := none }) kept rfl prev clock
    | putPrevEntity p now => exact kept.putPrev_charged env p now
    | _ => simp [Timed.Charges,Timed.Charged,Timed.call,Timed.setNext]

end Calls

def firstUnused : Timed := ⟨emptySched fun _ => 1024, 0, fun _ => none, none⟩

def firstQueued : Timed := firstUnused.call basePlatform flat (.enqueueEntity 1 ⟨true, false⟩ 0)

def firstCurrent : Timed := firstQueued.call basePlatform flat (.setNextEntity 1 0)

def firstPutBack (stop : U64) : Timed := firstCurrent.call basePlatform flat (.putPrevEntity 1 stop)

/-- Entity 1 is queued and becomes current at time zero, and is put back at `stop`. -/
def oneStretch (stop : U64) : List (Timed × Call) :=
  [(firstUnused, .enqueueEntity 1 ⟨true, false⟩ 0), (firstQueued, .setNextEntity 1 0),
    (firstCurrent, .putPrevEntity 1 stop)]

theorem oneStretch_run (stop : U64) (low : stop.toNat < 2^63) :
    Run Timed.Fresh (Timed.Step basePlatform flat) (oneStretch stop) (firstPutBack stop) := by
  have first : Run Timed.Fresh (Timed.Step basePlatform flat) [] firstUnused := .start ⟨rfl,rfl⟩
  have second := first.next (a := .enqueueEntity 1 ⟨true, false⟩ 0) ⟨by decide,by simp [Call.readings],rfl⟩
  have third := second.next (a := .setNextEntity 1 0) ⟨by decide,by simp [Call.readings],rfl⟩
  refine third.next (a := .putPrevEntity 1 stop) ⟨?_,by simpa [Call.readings] using low,rfl⟩
  simp [Timed.call,Timed.setNext,Call.readings,BitVec.le_def]

theorem all_time_charged_iff_short :
    (firstPutBack 5).closed = some ⟨0, 0, 5, 5⟩ ∧ (firstPutBack 5).Charged := by
  have run := oneStretch_run 5 (by decide)
  refine ⟨by decide,((all_time_charged_iff run).2 ?_).2⟩
  intro entry member
  simp only [oneStretch,List.mem_cons,List.not_mem_nil,or_false] at member
  rcases member with rfl | rfl | rfl
  · trivial
  · trivial
  · exact fun _ _ => .inr ⟨by decide,by decide⟩

/-- After `2^31` the elapsed time looks negative and nothing is charged. -/
theorem long_stretch_lost :
    ¬ ∀ past t, Run Timed.Fresh (Timed.Step basePlatform flat) past t → Always Timed.Charged past t := by
  intro all
  have run := oneStretch_run 0x80000000 (by decide)
  have charged := (all _ _ run).2 ⟨0, 0, 0x80000000, 0⟩ (by decide)
  exact absurd charged (by simp [Stretch.Charged])

end Kernal.Cfs
