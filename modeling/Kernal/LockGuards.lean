import Kernal.Contexts
import Kernal.Rwlock
import Kernal.Spinlock

/-! The variants of the locks in `spinlock.h` that take care of interrupts: those ending in
`_irqsave` and `_irqrestore` and those ending in `_irq`. A handler on the same processor may take
the lock as well; with these variants it never meets a lock that its own processor holds. -/
namespace Kernal.LockGuards

open Interleaving Contexts

/-- `rflags`, and `ulong` to save it in. -/
abbrev Flags := BitVec 64
abbrev Saved := BitVec 32

/-- `cli`, `sti`, `local_irq_save` up to its `cli`, and `local_irq_restore`. -/
def rflags : Flagging Flags Saved where
  isOn f := f.getLsbD 9
  mask f := f &&& ~~~0x200
  unmask f := f ||| 0x200
  keep f := f.setWidth 32
  back f := f.setWidth 64
  isOn_mask f := by
    rw [BitVec.getLsbD_and]
    exact Bool.and_false _
  isOn_unmask f := by
    rw [BitVec.getLsbD_or]
    exact Bool.or_true _
  isOn_back f := by
    simp

/-- A task or a handler of the processor is at `pc`. -/
def Runs (p : Place Pc Flags Saved) (pc : Pc) : Prop :=
  p.task = .inside pc ∨ ∃ flags, p.handler = some (pc, flags)

theorem current_of_runs {p : Place Pc Flags Saved} {idle pc : Pc} (masked : p.Masked rflags) (runs : Runs p pc) :
    p.current idle = pc := by
  rcases runs with task | ⟨flags,handler⟩
  · have free := (masked pc task).2
    simp only [Place.current,free,task]
  · simp only [Place.current,handler]

section Spin

open Kernal.Spinlock

variable {Cpu : Type} [DecidableEq Cpu] (id : Cpu → BitVec 32)

/-- `spin_lock` and `spin_unlock` for `.none`, the variants in `_irq` for `.mask` and the
variants in `_irqsave` and `_irqrestore` for `.save`. -/
def spinAccess (guard : Guard) : Access Cpu (Choice Call) SpinlockT (Place Pc Flags Saved) :=
  Contexts.access rflags (Spinlock.access id) .idle guard

abbrev Spinning (Cpu : Type) := State Cpu SpinlockT (Place Pc Flags Saved)

def spinStart (memory : SpinlockT) (flags : Cpu → Flags) : Spinning Cpu :=
  ⟨spinLockInit memory, fun a => .start (flags a) 0⟩

/-- The lock is held by one task or handler at most, and no check has panicked. -/
structure SpinSafe (s : Spinning Cpu) : Prop where
  exclusive : ∀ a b pc pc', Runs (s.pc a) pc → Runs (s.pc b) pc' → pc.holds = true → pc'.holds = true → a = b
  /-- A handler of the processor never finds its own task inside the lock. -/
  outside : ∀ a pc, (s.pc a).task = .inside pc → (s.pc a).handler = none
  locked : ∀ a pc, Runs (s.pc a) pc → pc.holds = true → s.shared.lock = SPINLOCK_LOCKED
  running : ∀ a format, ¬Runs (s.pc a) (.panicked format)

def lockCall (interrupt : Bool) : Choice Call := ⟨interrupt, ⟨.spinLock, 0⟩⟩

/-- A handler comes in front of a task that holds the lock and finds its own processor there. -/
def reentered (a : Cpu) : List (Cpu × Choice Call) :=
  (List.replicate 5 (lockCall false) ++ List.replicate 3 (lockCall true)).map (a, ·)

theorem reentered_panics (memory : SpinlockT) (a : Cpu) (reserved : id a ≠ NO_CPU) :
    Runs ((interleave (spinAccess id .none) (reentered a) (spinStart memory fun _ => 0x200)).pc a)
      (.panicked "Recursive spinlock: %s on CPU %d\n") := by
  rw [reentered,interleave_alone,install_same]
  refine .inr ⟨0x200,?_⟩
  have other : NO_CPU ≠ id a := Ne.symm reserved
  simp [alone,spinAccess,Contexts.access,taskAccess,enter,ended,Spinlock.access,spinStart,Place.start,spinLockInit,
    rflags,lockCall,other]

/-- Guarded tasks and their handlers look like processors that only run the lock. -/
theorem spin_shown {guard : Guard} (guarded : guard ≠ .none) (memory : SpinlockT) (flags : Cpu → Flags)
    (schedule : List (Cpu × Choice Call)) :
    let s := interleave (spinAccess id guard) schedule (spinStart memory flags)
    (∀ a, (s.pc a).Masked rflags) ∧
      ∃ schedule', s.abstracted (Place.current .idle) = interleave (Spinlock.access id) schedule' (initial memory) :=
  interleave_shown guarded schedule (spinLockInit memory) flags 0

/-- Whatever the interrupts do, the lock is safe to take in handlers too exactly if the tasks mask
their interrupts around it. -/
theorem spin_safe_iff [Nonempty Cpu] (distinct : Function.Injective id) (reserved : ∀ cpu, id cpu ≠ NO_CPU)
    (guard : Guard) :
    (∀ memory flags schedule, SpinSafe (interleave (spinAccess id guard) schedule (spinStart memory flags))) ↔
      guard ≠ .none := by
  constructor
  · rintro safe rfl
    obtain ⟨a⟩ := ‹Nonempty Cpu›
    have panics := reentered_panics id ⟨0, 0, 0, "", 0⟩ a (reserved a)
    exact (safe _ _ _).running a _ panics
  · intro guarded memory flags schedule
    obtain ⟨masked,schedule',shown⟩ := spin_shown id guarded memory flags schedule
    have valid := interleave_invariant id distinct reserved memory schedule'
    rw [← shown] at valid
    generalize interleave (spinAccess id guard) schedule (spinStart memory flags) = s at *
    have at_current (a : Cpu) (pc : Pc) (runs : Runs (s.pc a) pc) : (s.pc a).current .idle = pc :=
      current_of_runs (masked a) runs
    refine ⟨fun a b pc pc' first second holds holds' => ?_,fun a pc task => (masked a pc task).2,
      fun a pc runs holds => ?_,fun a format runs => ?_⟩
    · refine valid.exclusive a b ?_ ?_
      · exact (congrArg Pc.holds (at_current a pc first)).trans holds
      · exact (congrArg Pc.holds (at_current b pc' second)).trans holds'
    · exact valid.locked a ((congrArg Pc.holds (at_current a pc runs)).trans holds)
    · exact valid.running a format (at_current a _ runs)

theorem spin_safe_iff_pair :
    (∀ memory flags schedule, SpinSafe (interleave
      (spinAccess (fun cpu : Fin 2 => BitVec.ofNat 32 cpu.val) .save) schedule (spinStart memory flags))) ↔
      Guard.save ≠ .none :=
  spin_safe_iff _ (by decide) (by decide) .save

/-- A task takes the lock and gives it up with its interrupts masked before. -/
def unmasking (a : Cpu) : List (Cpu × Choice Call) := (List.replicate 14 (lockCall false)).map (a, ·)

theorem unmasking_unmasks (memory : SpinlockT) (a : Cpu) (reserved : id a ≠ NO_CPU) :
    let s := interleave (spinAccess id .mask) (unmasking a) (spinStart memory fun _ => 0)
    (s.pc a).task = .running ∧ (s.pc a).handler = none ∧ rflags.isOn (s.pc a).flags = true := by
  intro s
  have run : s = _ := interleave_alone (spinAccess id .mask) a (List.replicate 14 (lockCall false)) _
  have other : NO_CPU ≠ id a := Ne.symm reserved
  rw [run,install_same]
  refine ⟨?_,?_,?_⟩
  all_goals
    simp [alone,spinAccess,Contexts.access,taskAccess,enter,ended,Spinlock.access,spinStart,Place.start,
      spinLockInit,lockCall,other]
  exact rflags.isOn_unmask _

/-- Outside the lock a task has the interrupt flag it started with, whatever the others and its
handlers did, except where a variant in `_irq` was used with interrupts masked before. -/
theorem spin_restores_iff [Nonempty Cpu] (reserved : ∀ cpu, id cpu ≠ NO_CPU) (guard : Guard) (on : Bool) :
    (∀ memory flags schedule a, rflags.isOn (flags a) = on →
      let s := interleave (spinAccess id guard) schedule (spinStart memory flags)
      (s.pc a).task = .running → (s.pc a).handler = none → rflags.isOn (s.pc a).flags = on) ↔
    (guard = .mask → on = true) := by
  constructor
  · rintro restores rfl
    obtain ⟨a⟩ := ‹Nonempty Cpu›
    cases on with
    | true => rfl
    | false =>
      obtain ⟨running,free,unmasked⟩ := unmasking_unmasks id ⟨0, 0, 0, "", 0⟩ a (reserved a)
      have masked := restores _ _ (unmasking a) a rfl running free
      exact masked.symm.trans unmasked
  · intro unmasks memory flags schedule a start s running free
    have kept : rflags.isOn (s.pc a).flags = rflags.isOn (flags a) :=
      interleave_restored schedule (spinLockInit memory) flags 0 a (fun mask => start.trans (unmasks mask))
        running free
    exact kept.trans start

theorem spin_restores_iff_pair :
    (∀ memory flags schedule a, rflags.isOn (flags a) = false →
      let s := interleave (spinAccess (fun cpu : Fin 2 => BitVec.ofNat 32 cpu.val) .save) schedule
        (spinStart memory flags)
      (s.pc a).task = .running → (s.pc a).handler = none → rflags.isOn (s.pc a).flags = false) ↔
    (Guard.save = .mask → false = true) :=
  spin_restores_iff _ (by decide) .save false

end Spin

section Rw

open Kernal.Rwlock

/-- `read_lock`, `write_lock` and their unlocks for `.none`, the variants in `_irq` for `.mask`
and the variants in `_irqsave` and `_irqrestore` for `.save`. -/
def rwAccess (guard : Guard) : Access (Fin n) (Choice Rwlock.Call) RwlockT (Place Rwlock.Pc Flags Saved) :=
  Contexts.access rflags Rwlock.access .idle guard

def rwStart (memory : RwlockT) (flags : Fin n → Flags) : State (Fin n) RwlockT (Place Rwlock.Pc Flags Saved) :=
  ⟨rwlockInit memory, fun a => .start (flags a) 0⟩

/-- Tasks and handlers together keep what processors that only run the lock keep: a writer is
alone, and the two counters say on how many processors somebody stands behind them. -/
structure RwSafe (s : State (Fin n) RwlockT (Place Rwlock.Pc Flags Saved)) : Prop where
  single : ∀ a b pc pc', Runs (s.pc a) pc → Runs (s.pc b) pc' → pc.writes = true → pc'.writes = true → a = b
  excluded : ∀ a b pc pc', Runs (s.pc a) pc → Runs (s.pc b) pc' → pc.writes = true → pc'.reads = false
  /-- A handler of the processor never finds its own task inside the lock. -/
  outside : ∀ a pc, (s.pc a).task = .inside pc → (s.pc a).handler = none
  readerCount : s.shared.readerCount.toNat = count (fun p => (Place.current .idle p).counted) s
  writerWaiting : s.shared.writerWaiting.toNat = count (fun p => (Place.current .idle p).announced) s
  running : ∀ a format, ¬Runs (s.pc a) (.panicked format)

theorem rw_shown {guard : Guard} (guarded : guard ≠ .none) (memory : RwlockT) (flags : Fin n → Flags)
    (schedule : List (Fin n × Choice Rwlock.Call)) :
    let s := interleave (rwAccess guard) schedule (rwStart memory flags)
    (∀ a, (s.pc a).Masked rflags) ∧
      ∃ schedule', s.abstracted (Place.current .idle) = interleave Rwlock.access schedule' (initial memory) :=
  interleave_shown guarded schedule (rwlockInit memory) flags 0

theorem rw_safe (few : n < 2^32) {guard : Guard} (guarded : guard ≠ .none) (memory : RwlockT)
    (flags : Fin n → Flags) (schedule : List (Fin n × Choice Rwlock.Call)) :
    RwSafe (interleave (rwAccess guard) schedule (rwStart memory flags)) := by
  obtain ⟨masked,schedule',shown⟩ := rw_shown guarded memory flags schedule
  have valid := interleave_preserves Rwlock.access Invariant (dispatch_invariant few) _
    (initial_invariant memory) schedule'
  rw [← shown] at valid
  generalize interleave (rwAccess guard) schedule (rwStart memory flags) = s at *
  have at_current (a : Fin n) (pc : Rwlock.Pc) (runs : Runs (s.pc a) pc) : (s.pc a).current .idle = pc :=
    current_of_runs (masked a) runs
  refine ⟨?_,?_,fun a pc task => (masked a pc task).2,valid.readerCount,valid.writerWaiting,?_⟩
  · intro a b pc pc' first second writes writes'
    refine valid.single a b (Pc.biases_of_writes _ ?_) (Pc.biases_of_writes _ ?_)
    · exact (congrArg Pc.writes (at_current a pc first)).trans writes
    · exact (congrArg Pc.writes (at_current b pc' second)).trans writes'
  · intro a b pc pc' first second writes
    have free := valid.excluded a b ((congrArg Pc.writes (at_current a pc first)).trans writes)
    exact (congrArg Pc.reads (at_current b pc' second)).symm.trans free
  · exact fun a format runs => valid.running a format (at_current a _ runs)

/-- A handler reads and the task of the other processor has announced itself as a writer. -/
def mixed (a b : Fin 2) : List (Fin 2 × Choice Rwlock.Call) :=
  List.replicate 7 (a, ⟨true, .read .lock⟩) ++ List.replicate 5 (b, ⟨false, .write .lock⟩)

theorem rw_safe_mixed :
    let s := interleave (rwAccess .mask) (mixed 0 1) (rwStart ⟨7, 7, 7, "stale", 7⟩ fun _ => 0x200)
    (Place.current .idle (s.pc 0) = .readHeld ∧ Place.current .idle (s.pc 1) = .writeReaders .lock) ∧ RwSafe s :=
  ⟨by decide, rw_safe (by decide) (by decide) _ _ _⟩

end Rw

end Kernal.LockGuards
