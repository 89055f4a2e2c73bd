import Kernal.Interleaving

/-! The spinlock of `spinlock.h`, one access of `lock` or `owner_cpu` at a time.
Every processor runs `spin_lock` or `spin_trylock` and, after each success, exactly
one `spin_unlock`; nothing is assumed about the order of their accesses. -/
namespace Kernal.Spinlock

open Interleaving

def SPINLOCK_MAGIC : BitVec 32 := 0xDEADBEEF
def SPINLOCK_UNLOCKED : BitVec 32 := 0
def SPINLOCK_LOCKED : BitVec 32 := 1

/-- `owner_cpu` of a lock that nobody owns. -/
def NO_CPU : BitVec 32 := 0xFFFFFFFF

structure SpinlockT where
  lock : BitVec 32
  ownerCpu : BitVec 32
  owner : BitVec 64
  name : String
  magic : BitVec 32
  deriving DecidableEq, Repr

/-- Every field is written, so nothing of the memory's earlier content survives. -/
def spinLockInit (_ : SpinlockT) : SpinlockT :=
  { lock := SPINLOCK_UNLOCKED, ownerCpu := NO_CPU, owner := 0, name := "unknown",
    magic := SPINLOCK_MAGIC }

inductive Entry where
  | spinLock
  | spinTrylock
  deriving DecidableEq, Repr

/-- The next access of a processor. `spin_lock` and `spin_trylock` share their
checks and the compare-and-swap and differ in what a lost swap leads to. -/
inductive Pc where
  | idle
  | checkMagic (entry : Entry)
  | checkRecursive (entry : Entry)
  | swap (entry : Entry)
  | spin
  | setOwnerCpu
  | setOwner
  | held
  | unlockMagic
  | unlockOwner
  | clearOwnerCpu
  | clearOwner
  | release
  | panicked (format : String)
  deriving DecidableEq, Repr

/-- What the caller decides: the routine an idle processor enters and the return
address that `__builtin_return_address` yields there. -/
structure Call where
  entry : Entry
  returnAddress : BitVec 64

def access (id : Cpu → BitVec 32) (cpu : Cpu) (call : Call) (l : SpinlockT) : Pc → SpinlockT × Pc
  | .idle => (l, .checkMagic call.entry)
  | .checkMagic entry =>
    if l.magic ≠ SPINLOCK_MAGIC then (l, .panicked "Bad spinlock magic: %p\n")
    else (l, .checkRecursive entry)
  | .checkRecursive entry =>
    if l.ownerCpu = id cpu then (l, .panicked "Recursive spinlock: %s on CPU %d\n")
    else (l, .swap entry)
  | .swap entry =>
    if l.lock = SPINLOCK_UNLOCKED then ({ l with lock := SPINLOCK_LOCKED }, .setOwnerCpu)
    else match entry with
      | .spinLock => (l, .spin)
      | .spinTrylock => (l, .idle)
  | .spin => if l.lock = SPINLOCK_LOCKED then (l, .spin) else (l, .swap .spinLock)
  | .setOwnerCpu => ({ l with ownerCpu := id cpu }, .setOwner)
  | .setOwner => ({ l with owner := call.returnAddress }, .held)
  | .held => (l, .unlockMagic)
  | .unlockMagic =>
    if l.magic ≠ SPINLOCK_MAGIC then (l, .panicked "Bad spinlock magic: %p\n")
    else (l, .unlockOwner)
  | .unlockOwner =>
    if l.ownerCpu ≠ id cpu then
      (l, .panicked "Spinlock not owned by current CPU: %s, owner=%d, current=%d\n")
    else (l, .clearOwnerCpu)
  | .clearOwnerCpu => ({ l with ownerCpu := NO_CPU }, .clearOwner)
  | .clearOwner => ({ l with owner := 0 }, .release)
  | .release => ({ l with lock := SPINLOCK_UNLOCKED }, .idle)
  | .panicked format => (l, .panicked format)

/-- Past the successful compare-and-swap and before the releasing store. -/
def Pc.holds : Pc → Bool
  | .setOwnerCpu | .setOwner | .held | .unlockMagic | .unlockOwner
  | .clearOwnerCpu | .clearOwner | .release => true
  | _ => false

/-- Between writing its own id into `owner_cpu` and erasing it again. -/
def Pc.recorded : Pc → Bool
  | .setOwner | .held | .unlockMagic | .unlockOwner | .clearOwnerCpu => true
  | _ => false

theorem Pc.holds_of_recorded (pc : Pc) (h : pc.recorded = true) : pc.holds = true := by
  cases pc <;> simp_all [recorded,holds]

abbrev System (Cpu : Type) := State Cpu SpinlockT Pc

def initial (memory : SpinlockT) : System Cpu := ⟨spinLockInit memory, fun _ => .idle⟩

section

variable {Cpu : Type} [DecidableEq Cpu] (id : Cpu → BitVec 32)

/-- `owner_cpu` names a processor exactly while that processor is in its recorded
window; this is what both checks read, in whatever state the others are. -/
structure Invariant (s : System Cpu) : Prop where
  magic : s.shared.magic = SPINLOCK_MAGIC
  exclusive : ∀ a b, (s.pc a).holds = true → (s.pc b).holds = true → a = b
  locked : ∀ a, (s.pc a).holds = true → s.shared.lock = SPINLOCK_LOCKED
  owner : ∀ a, s.shared.ownerCpu = id a ↔ (s.pc a).recorded = true
  running : ∀ a format, s.pc a ≠ .panicked format

omit [DecidableEq Cpu] in
theorem initial_invariant (memory : SpinlockT) (reserved : ∀ cpu, id cpu ≠ NO_CPU) :
    Invariant id (initial memory : System Cpu) where
  magic := rfl
  exclusive := by simp [initial,Pc.holds]
  locked := by simp [initial,Pc.holds]
  owner := by
    intro a
    simp [initial,spinLockInit,Pc.recorded,(reserved a).symm]
  running := by simp [initial]

/-- No processor panics where the one that moves does not. -/
theorem install_running (s : System Cpu) (cpu : Cpu) (result : SpinlockT × Pc) (valid : Invariant id s)
    (running : ∀ format, result.2 ≠ .panicked format) :
    ∀ a format, (install s cpu result).pc a ≠ .panicked format :=
  install_all (P := fun _ (pc : Pc) => ∀ format, pc ≠ .panicked format) running fun a _ => valid.running a

/-- An access that moves no ownership: the store keeps its words and the processor
neither enters nor leaves its two windows. -/
theorem install_quiet (s : System Cpu) (cpu : Cpu) (result : SpinlockT × Pc)
    (valid : Invariant id s) (magic : result.1.magic = s.shared.magic)
    (lock : result.1.lock = s.shared.lock) (ownerCpu : result.1.ownerCpu = s.shared.ownerCpu)
    (holds : result.2.holds = (s.pc cpu).holds)
    (recorded : result.2.recorded = (s.pc cpu).recorded)
    (running : ∀ format, result.2 ≠ .panicked format) :
    Invariant id (install s cpu result) := by
  have holdsAt := install_all (P := fun a (pc : Pc) => pc.holds = (s.pc a).holds) holds fun _ _ => rfl
  have recordedAt := install_all (P := fun a (pc : Pc) => pc.recorded = (s.pc a).recorded) recorded fun _ _ => rfl
  refine ⟨?_,?_,?_,?_,?_⟩
  · rw [install_shared,magic]; exact valid.magic
  · intro a b
    rw [holdsAt,holdsAt]
    exact valid.exclusive a b
  · intro a
    rw [holdsAt,install_shared,lock]
    exact valid.locked a
  · intro a
    rw [recordedAt,install_shared,ownerCpu]
    exact valid.owner a
  · exact install_running id s cpu result valid running

/-- The swap succeeds only on an unlocked word, hence only when nobody holds. -/
theorem install_acquire (s : System Cpu) (cpu : Cpu) (valid : Invariant id s)
    (free : s.shared.lock = SPINLOCK_UNLOCKED) (outside : (s.pc cpu).recorded = false) :
    Invariant id (install s cpu ({ s.shared with lock := SPINLOCK_LOCKED }, .setOwnerCpu)) := by
  have nobody (a : Cpu) : (s.pc a).holds = false := by
    apply Bool.eq_false_iff.mpr
    intro holds
    have locked := valid.locked a holds
    rw [free] at locked
    exact absurd locked (by decide)
  refine ⟨valid.magic,?_,fun _ _ => rfl,?_,?_⟩
  · intro a b ha hb
    by_cases sameA : a = cpu <;> by_cases sameB : b = cpu
    · rw [sameA,sameB]
    · rw [install_other _ _ sameB,nobody] at hb; contradiction
    · rw [install_other _ _ sameA,nobody] at ha; contradiction
    · rw [install_other _ _ sameA,nobody] at ha; contradiction
  · refine install_all (P := fun a (pc : Pc) => s.shared.ownerCpu = id a ↔ pc.recorded = true) ?_
      fun a _ => valid.owner a
    have owner := valid.owner cpu
    rw [outside] at owner
    simpa [Pc.recorded] using owner
  · exact install_running id s cpu _ valid (by simp)

/-- A holder writes `owner_cpu`: nobody else can be in a recorded window. -/
theorem install_owner (s : System Cpu) (cpu : Cpu) (pc : Pc) (word : BitVec 32)
    (valid : Invariant id s) (holder : (s.pc cpu).holds = true)
    (running : ∀ format, pc ≠ .panicked format)
    (mine : word = id cpu ↔ pc.recorded = true) (others : ∀ a, a ≠ cpu → word ≠ id a) :
    Invariant id (install s cpu ({ s.shared with ownerCpu := word }, pc)) := by
  have holdsAt (a : Cpu) (h : ((install s cpu ({ s.shared with ownerCpu := word }, pc)).pc a).holds = true) :
      (s.pc a).holds = true := by
    by_cases same : a = cpu
    · subst a; exact holder
    · rwa [install_other _ _ same] at h
  refine ⟨valid.magic,?_,?_,?_,?_⟩
  · intro a b ha hb
    exact valid.exclusive a b (holdsAt a ha) (holdsAt b hb)
  · intro a ha
    exact valid.locked a (holdsAt a ha)
  · intro a
    by_cases same : a = cpu
    · subst a; simpa using mine
    · rw [install_other _ _ same]
      refine ⟨fun eq => absurd eq (others a same),fun recorded => ?_⟩
      exact absurd (valid.exclusive a cpu (Pc.holds_of_recorded _ recorded) holder) same
  · exact install_running id s cpu _ valid running

/-- The releasing store comes after `owner_cpu` was erased. -/
theorem install_release (s : System Cpu) (cpu : Cpu) (valid : Invariant id s)
    (holder : s.pc cpu = .release) :
    Invariant id (install s cpu ({ s.shared with lock := SPINLOCK_UNLOCKED }, .idle)) := by
  have nobody (a : Cpu) :
      ((install s cpu ({ s.shared with lock := SPINLOCK_UNLOCKED }, .idle)).pc a).holds = false := by
    by_cases same : a = cpu
    · subst a; simp [Pc.holds]
    · rw [install_other _ _ same]
      apply Bool.eq_false_iff.mpr
      intro holds
      exact same (valid.exclusive a cpu holds (by simp [holder,Pc.holds]))
  refine ⟨valid.magic,?_,?_,?_,?_⟩
  · intro a b ha
    rw [nobody a] at ha; contradiction
  · intro a ha
    rw [nobody a] at ha; contradiction
  · refine install_all (P := fun a (pc : Pc) => s.shared.ownerCpu = id a ↔ pc.recorded = true) ?_
      fun a _ => valid.owner a
    have owner := valid.owner cpu
    rw [holder] at owner
    simpa [Pc.recorded] using owner
  · exact install_running id s cpu _ valid (by simp)

variable (distinct : Function.Injective id) (reserved : ∀ cpu, id cpu ≠ NO_CPU)
include distinct reserved

theorem dispatch_invariant (s : System Cpu) (valid : Invariant id s) (chosen : Cpu × Call) :
    Invariant id (dispatch (access id) s chosen) := by
  obtain ⟨cpu,call⟩ := chosen
  have owner := valid.owner cpu
  simp only [dispatch]
  cases pc : s.pc cpu with
  | idle | setOwner | held | clearOwner =>
    apply install_quiet id s cpu _ valid <;> simp [access,pc,Pc.holds,Pc.recorded]
  | checkMagic entry | unlockMagic =>
    simp only [access,valid.magic,ne_eq,not_true_eq_false,↓reduceIte]
    apply install_quiet id s cpu _ valid <;> simp [pc,Pc.holds,Pc.recorded]
  | checkRecursive entry =>
    -- A processor outside its window cannot find its own id here.
    have foreign : s.shared.ownerCpu ≠ id cpu := by
      intro eq
      have recorded := owner.mp eq
      simp [pc,Pc.recorded] at recorded
    simp only [access,if_neg foreign]
    apply install_quiet id s cpu _ valid <;> simp [pc,Pc.holds,Pc.recorded]
  | swap entry =>
    by_cases free : s.shared.lock = SPINLOCK_UNLOCKED
    · simp only [access,if_pos free]
      exact install_acquire id s cpu valid free (by simp [pc,Pc.recorded])
    · simp only [access,if_neg free]
      cases entry
      all_goals apply install_quiet id s cpu _ valid <;> simp [pc,Pc.holds,Pc.recorded]
  | spin =>
    simp only [access]
    split
    all_goals apply install_quiet id s cpu _ valid <;> simp [pc,Pc.holds,Pc.recorded]
  | setOwnerCpu =>
    refine install_owner id s cpu .setOwner (id cpu) valid (by simp [pc,Pc.holds]) (by simp)
      (by simp [Pc.recorded]) ?_
    intro a different eq
    exact different (distinct eq).symm
  | clearOwnerCpu =>
    refine install_owner id s cpu .clearOwner NO_CPU valid (by simp [pc,Pc.holds]) (by simp)
      ?_ ?_
    · simp [Pc.recorded,(reserved cpu).symm]
    · exact fun a _ eq => reserved a eq.symm
  | unlockOwner =>
    have mine : s.shared.ownerCpu = id cpu := owner.mpr (by simp [pc,Pc.recorded])
    simp only [access,mine,ne_eq,not_true_eq_false,↓reduceIte]
    apply install_quiet id s cpu _ valid <;> simp [pc,Pc.holds,Pc.recorded]
  | release => exact install_release id s cpu valid pc
  | panicked format => exact absurd pc (valid.running cpu format)

theorem interleave_invariant (memory : SpinlockT) (schedule : List (Cpu × Call)) :
    Invariant id (interleave (access id) schedule (initial memory)) :=
  interleave_preserves (access id) (Invariant id) (dispatch_invariant id distinct reserved)
    _ (initial_invariant id memory reserved) schedule

/-- In every reachable state at most one processor holds the lock, the lock word
says so while one does, and no check of any processor has panicked. -/
theorem spinlock_exclusion (memory : SpinlockT) (schedule : List (Cpu × Call)) :
    let s := interleave (access id) schedule (initial memory)
    (∀ a b, (s.pc a).holds = true → (s.pc b).holds = true → a = b) ∧
    (∀ a, (s.pc a).holds = true → s.shared.lock = SPINLOCK_LOCKED) ∧
    (∀ a format, s.pc a ≠ .panicked format) := by
  have valid := interleave_invariant id distinct reserved memory schedule
  exact ⟨valid.exclusive,valid.locked,valid.running⟩

end

/-- The second processor loses the swap against the first one and spins. -/
def contended {Cpu : Type} (a b : Cpu) : List (Cpu × Call) :=
  [a,b,a,b,a,b,a,b,a,b].map fun cpu => (cpu,⟨.spinLock,0⟩)

theorem spinlock_exclusion_contended :
    let s := interleave (access fun cpu : Fin 2 => BitVec.ofNat 32 cpu.val) (contended 0 1)
      (initial (spinLockInit ⟨7,7,7,"stale",7⟩))
    ((s.pc 0).holds = true ∧ s.pc 1 = .spin) ∧
    (∀ a b, (s.pc a).holds = true → (s.pc b).holds = true → a = b) ∧
    (∀ a, (s.pc a).holds = true → s.shared.lock = SPINLOCK_LOCKED) ∧
    (∀ a format, s.pc a ≠ .panicked format) :=
  ⟨by decide, spinlock_exclusion _ (by decide) (by decide) _ _⟩

end Kernal.Spinlock
