import Kernal.Cfs
import Kernal.Runs
import Mathlib.Algebra.Group.Int.Defs

/-! The clocks of a run queue, `update_rq_clock` of `sched.c`. The clocks are `u64`; the
differences taken between them are `s64`, which has 32 bits. -/
namespace Kernal.RqClock

open Cfs Runs

/-- The clock fields of `struct rq`. -/
structure Rq where
  clock : U64
  clockTask : U64
  prevIrqTime : U64
  prevStealTimeRq : U64
  deriving DecidableEq, Repr

/-- What `sched_clock_cpu`, `irq_time_read` and `steal_account_process_tick` return during
one call. -/
structure Readings where
  schedClock : U64
  irqTime : U64
  steal : BitVec 32
  deriving DecidableEq, Repr

/-- `a - b` of two `s64`, taken modulo `2^32`. -/
def subS64 (a b : Int) : Int := (a - b).bmod (2^32)

/-- `clock += delta`, which extends the sign of `delta`. -/
def addDelta (clock : U64) (delta : Int) : U64 := clock + BitVec.ofInt 64 delta

def updateRqClockTask (input : Readings) (delta : Int) (rq : Rq) : Rq :=
  let irqDelta := toS64 (input.irqTime - rq.prevIrqTime)
  let irqDelta := if delta < irqDelta then delta else irqDelta
  let rest := subS64 delta irqDelta
  let steal := if rest < input.steal.toInt then rest else input.steal.toInt
  { rq with
    prevIrqTime := addDelta rq.prevIrqTime irqDelta
    prevStealTimeRq := addDelta rq.prevStealTimeRq steal
    clockTask := addDelta rq.clockTask (subS64 rest steal) }

def updateRqClock (input : Readings) (rq : Rq) : Rq :=
  let delta := toS64 (input.schedClock - rq.clock)
  if delta < 0 then rq
  else updateRqClockTask input delta { rq with clock := addDelta rq.clock delta }

section Parts

variable (input : Readings) (rq : Rq)

def elapsed : Nat := input.schedClock.toNat - rq.clock.toNat

def irqPart : Int := min (toS64 (input.irqTime - rq.prevIrqTime)) (elapsed input rq)

def stealPart : Int := min input.steal.toInt (elapsed input rq - irqPart input rq)

def taskPart : Int := elapsed input rq - irqPart input rq - stealPart input rq

end Parts

/-- No difference needs more than the 31 value bits of `s64`, and the task clock does not
run over. -/
structure Exact (input : Readings) (rq : Rq) : Prop where
  elapsed_fits : elapsed input rq < 2^31
  rest_fits : elapsed input rq - irqPart input rq < 2^31
  task_fits : rq.clockTask.toNat + taskPart input rq < 2^64

theorem bmod_cases (x : Int) :
    x.bmod (2^32) = if x % 2^32 < 2^31 then x % 2^32 else x % 2^32 - 2^32 := by
  rw [Int.bmod_def]
  omega

theorem bmod_bounds (x : Int) : -2^31 ≤ x.bmod (2^32) ∧ x.bmod (2^32) < 2^31 := by
  rw [bmod_cases]
  omega

theorem toS64_sub {x y : U64} (le : y ≤ x) : toS64 (x - y) = ((x.toNat - y.toNat : Nat) : Int).bmod (2^32) := by
  rw [toS64,BitVec.toInt_setWidth,BitVec.toNat_sub_of_le le]

theorem addDelta_toNat (clock : U64) (delta : Int) :
    ((addDelta clock delta).toNat : Int) = (clock.toNat + delta) % 2^64 := by
  rw [addDelta,BitVec.toNat_add,BitVec.toNat_ofInt]
  omega

/-- The sum of the parts stays the clock exactly when the parts of `delta` add up. -/
theorem sum_addDelta {clock task irq steal : U64} (sum : clock = task + irq + steal) (d t i s : Int) :
    addDelta clock d = addDelta task t + addDelta irq i + addDelta steal s ↔ (d - t - i - s) % 2^64 = 0 := by
  have before : (clock.toNat : Int) = (task.toNat + irq.toNat + steal.toNat) % 2^64 := by
    rw [sum,BitVec.toNat_add,BitVec.toNat_add]
    omega
  have c := addDelta_toNat clock d
  have a := addDelta_toNat task t
  have b := addDelta_toNat irq i
  have e := addDelta_toNat steal s
  rw [← BitVec.toNat_inj,BitVec.toNat_add,BitVec.toNat_add]
  omega

theorem le_addDelta {clock : U64} {delta : Int} (nonneg : 0 ≤ delta) (small : delta < 2^32) :
    clock ≤ addDelta clock delta ↔ clock.toNat + delta < 2^64 := by
  have after := addDelta_toNat clock delta
  have bound := clock.isLt
  rw [BitVec.le_def]
  omega

/-- Whatever `rest` is, what is stolen of it and what is left make it up again. -/
theorem rest_split {rest steal : Int} (nonneg : 0 ≤ steal) (low : -2^31 ≤ rest) (high : rest < 2^31) :
    subS64 rest (if rest < steal then rest else steal) = rest - min steal rest := by
  rw [subS64,bmod_cases]
  omega

/-- The clock is the last reading, the task clock did not go back, and the parts make up
the clock. -/
structure Follows (reading taskBefore : U64) (rq : Rq) : Prop where
  clock_eq : rq.clock = reading
  task_le : taskBefore ≤ rq.clockTask
  sum : rq.clock = rq.clockTask + rq.prevIrqTime + rq.prevStealTimeRq

/-- Up to `2^31` the clock arrives at the reading; further off it stays behind. -/
theorem updateRqClock_clock {input : Readings} {rq : Rq} (later : rq.clock ≤ input.schedClock) :
    (updateRqClock input rq).clock = input.schedClock ↔ elapsed input rq < 2^31 := by
  have bound := input.schedClock.isLt
  have le := BitVec.le_def.1 later
  have delta := toS64_sub later
  rw [bmod_cases] at delta
  have after := addDelta_toNat rq.clock (toS64 (input.schedClock - rq.clock))
  rw [updateRqClock,elapsed]
  split
  · rename_i back
    rw [← BitVec.toNat_inj]
    omega
  · rename_i forth
    simp only [updateRqClockTask]
    rw [← BitVec.toNat_inj]
    omega

theorem updateRqClock_near {input : Readings} {rq : Rq} (later : rq.clock ≤ input.schedClock)
    (near : elapsed input rq < 2^31) (nonneg : 0 ≤ input.steal.toInt) :
    updateRqClock input rq =
      let rest := subS64 (elapsed input rq) (irqPart input rq)
      { clock := addDelta rq.clock (elapsed input rq)
        clockTask := addDelta rq.clockTask (rest - min input.steal.toInt rest)
        prevIrqTime := addDelta rq.prevIrqTime (irqPart input rq)
        prevStealTimeRq := addDelta rq.prevStealTimeRq (min input.steal.toInt rest) } := by
  have delta : toS64 (input.schedClock - rq.clock) = elapsed input rq := by
    rw [toS64_sub later,bmod_cases]
    rw [elapsed] at near ⊢
    omega
  have irq (a b : Int) : (if a < b then a else b) = min b a := by omega
  have rest := bmod_bounds (elapsed input rq - irqPart input rq)
  have split := rest_split nonneg rest.1 rest.2
  rw [irq,← subS64] at split
  simp only [updateRqClock,updateRqClockTask,delta,irq]
  rw [if_neg (by omega),← irqPart,split]

/-- One call keeps the law exactly when no difference is cut short. -/
theorem updateRqClock_follows {input : Readings} {rq : Rq} (later : rq.clock ≤ input.schedClock)
    (nonneg : 0 ≤ input.steal.toInt) (sum : rq.clock = rq.clockTask + rq.prevIrqTime + rq.prevStealTimeRq) :
    Follows input.schedClock rq.clockTask (updateRqClock input rq) ↔ Exact input rq := by
  have arrives := updateRqClock_clock later
  by_cases near : elapsed input rq < 2^31
  · have after := updateRqClock_near later near nonneg
    have irq : irqPart input rq ≤ elapsed input rq := Int.min_le_right _ _
    have low : -2^31 ≤ irqPart input rq := by
      have := bmod_bounds (input.irqTime - rq.prevIrqTime).toNat
      rw [irqPart,toS64,BitVec.toInt_setWidth]
      omega
    have parts := sum_addDelta sum (elapsed input rq)
    have rest : subS64 (elapsed input rq) (irqPart input rq) =
        if elapsed input rq - irqPart input rq < 2^31 then (elapsed input rq : Int) - irqPart input rq
        else elapsed input rq - irqPart input rq - 2^32 := by
      rw [subS64,bmod_cases]
      omega
    constructor
    · rintro ⟨here,task,law⟩
      rw [after] at task law
      simp only [parts] at law
      have fits : elapsed input rq - irqPart input rq < 2^31 := by
        split at rest <;> omega
      rw [if_pos fits] at rest
      rw [rest] at task
      rw [le_addDelta (by omega) (by omega)] at task
      exact ⟨near,fits,by simpa [taskPart,stealPart] using task⟩
    · rintro ⟨_,fits,task⟩
      rw [if_pos fits] at rest
      refine ⟨arrives.2 near,?_,?_⟩
      · rw [after,rest]
        simp only [taskPart,stealPart] at task
        rw [le_addDelta (by omega) (by omega)]
        exact task
      · rw [after]
        simp only [parts]
        omega
  · constructor
    · intro follows
      exact absurd (arrives.1 follows.clock_eq) near
    · intro exact
      exact absurd exact.elapsed_fits near

structure Observed where
  rq : Rq
  schedClock : U64
  irqTime : U64
  taskBefore : U64

def Observed.start : Observed := ⟨⟨0, 0, 0, 0⟩, 0, 0, 0⟩

def Observed.Start (s : Observed) : Prop := s = .start

/-- One call of `update_rq_clock`. The readings never go back, interrupts take no more
time than there was, and no negative time is stolen. -/
inductive Update (s : Observed) (input : Readings) : Observed → Prop where
  | call : s.schedClock ≤ input.schedClock → s.irqTime ≤ input.irqTime →
      input.irqTime ≤ input.schedClock → 0 ≤ input.steal.toInt →
      Update s input ⟨updateRqClock input s.rq, input.schedClock, input.irqTime, s.rq.clockTask⟩

def Observed.Follows (s : Observed) : Prop := RqClock.Follows s.schedClock s.taskBefore s.rq

/-- The clocks follow their source and split exactly all along those runs in which no call
comes so late, or finds so much interrupt time, that a difference leaves `s64`. -/
theorem clocks_follow_iff {past : List (Observed × Readings)} {s : Observed}
    (run : Run Observed.Start Update past s) :
    Always Observed.Follows past s ↔ Throughout (fun before input => Exact input before.rq) past := by
  apply run.always_iff (I := fun _ => True)
  · rintro s rfl
    exact ⟨trivial,⟨rfl,BitVec.le_refl _,rfl⟩⟩
  · intros
    trivial
  · rintro s input _ - follows ⟨later,-,-,nonneg⟩
    rw [← follows.clock_eq] at later
    exact updateRqClock_follows later nonneg follows.sum

/-- One call on the run queue of the start. -/
theorem Update.run {input : Readings} (irq : input.irqTime ≤ input.schedClock)
    (nonneg : 0 ≤ input.steal.toInt) :
    Run Observed.Start Update [(.start, input)]
      ⟨updateRqClock input Observed.start.rq, input.schedClock, input.irqTime, 0⟩ := by
  have first : Run Observed.Start Update [] .start := .start rfl
  exact first.next (.call (Nat.zero_le _) (Nat.zero_le _) irq nonneg)

theorem clocks_follow_iff_busy :
    updateRqClock ⟨100, 30, 20⟩ Observed.start.rq = ⟨100, 50, 30, 20⟩ ∧
      Always Observed.Follows [(.start, (⟨100, 30, 20⟩ : Readings))] ⟨⟨100, 50, 30, 20⟩, 100, 30, 0⟩ := by
  have after : updateRqClock ⟨100, 30, 20⟩ Observed.start.rq = ⟨100, 50, 30, 20⟩ := by decide
  have run : Run Observed.Start Update [(.start, (⟨100, 30, 20⟩ : Readings))] _ :=
    Update.run (by decide) (by decide)
  rw [after] at run
  refine ⟨after,(clocks_follow_iff run).2 ?_⟩
  rintro _ (_ | ⟨_,⟨⟩⟩)
  exact ⟨by decide,by decide,by decide⟩

/-- A first reading of `2^31` looks negative, and the clock stays at zero. -/
theorem late_update_lost :
    ¬ ∀ past s, Run Observed.Start Update past s → Always Observed.Follows past s := by
  intro all
  have run : Run Observed.Start Update [(.start, (⟨2^31, 0, 0⟩ : Readings))] _ :=
    Update.run (by decide) (by decide)
  have follows := (all _ _ run).2
  exact absurd follows.clock_eq (by decide)

end Kernal.RqClock
