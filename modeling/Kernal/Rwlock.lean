import Kernal.Interleaving

/-! The reader-writer lock of `spinlock.h`, one access of `lock`, `reader_count` or
`writer_waiting` at a time. Readers count themselves before they look at the writer
words again, writers take the bias bit before they look at the count; exclusion
rests on that order alone. -/
namespace Kernal.Rwlock

open Interleaving

def RWLOCK_MAGIC : BitVec 32 := 0xFACEFEED
def RWLOCK_WRITE_BIAS : BitVec 32 := 0x01000000

structure RwlockT where
  lock : BitVec 32
  readerCount : BitVec 32
  writerWaiting : BitVec 32
  name : String
  magic : BitVec 32
  deriving DecidableEq, Repr

def rwlockInit (_ : RwlockT) : RwlockT :=
  { lock := 0, readerCount := 0, writerWaiting := 0, name := "unknown", magic := RWLOCK_MAGIC }

/-- The blocking routine of a pair, or the one that gives up. -/
inductive Mode where
  | lock
  | trylock
  deriving DecidableEq, Repr

inductive Call where
  | read (mode : Mode)
  | write (mode : Mode)
  deriving DecidableEq, Repr

/-- The next access of a processor. `read_lock` and `read_trylock` make the same
accesses in the same order; only what a failed check leads to differs. -/
inductive Pc where
  | idle
  | readMagic (mode : Mode)
  | readWaiting (mode : Mode)
  | readLock (mode : Mode)
  | readCount (mode : Mode)
  | recheckWaiting (mode : Mode)
  | recheckLock (mode : Mode)
  | readUndo (mode : Mode)
  | readHeld
  | readUnlockMagic
  | readUnlock
  | writeMagic (mode : Mode)
  | writeAnnounce
  | writeSwap (mode : Mode)
  | writeReaders (mode : Mode)
  | writeRetract
  | writeBackOut
  | writeHeld
  | writeUnlockMagic
  | writeUnlock
  | panicked (format : String)
  deriving DecidableEq, Repr

/-- Where a reader goes when a writer is seen: back to the waiting loop, or out. -/
def Mode.readFailed : Mode → Pc
  | .lock => .readWaiting .lock
  | .trylock => .idle

def biased (l : RwlockT) : Prop := l.lock &&& RWLOCK_WRITE_BIAS ≠ 0

instance : Decidable (biased l) := inferInstanceAs (Decidable (_ ≠ _))

def access (_ : Cpu) (call : Call) (l : RwlockT) : Pc → RwlockT × Pc
  | .idle => match call with
    | .read mode => (l, .readMagic mode)
    | .write mode => (l, .writeMagic mode)
  | .readMagic mode =>
    if l.magic ≠ RWLOCK_MAGIC then (l, .panicked "Bad rwlock magic: %p\n")
    else (l, .readWaiting mode)
  | .readWaiting mode =>
    if l.writerWaiting ≠ 0 then (l, mode.readFailed) else (l, .readLock mode)
  | .readLock mode => if biased l then (l, mode.readFailed) else (l, .readCount mode)
  | .readCount mode =>
    let counted := { l with readerCount := l.readerCount + 1 }
    if counted.readerCount ≠ 0 then (counted, .recheckWaiting mode)
    else (counted, mode.readFailed)
  | .recheckWaiting mode =>
    if l.writerWaiting ≠ 0 then (l, .readUndo mode) else (l, .recheckLock mode)
  | .recheckLock mode => if biased l then (l, .readUndo mode) else (l, .readHeld)
  | .readUndo mode => ({ l with readerCount := l.readerCount - 1 }, mode.readFailed)
  | .readHeld => (l, .readUnlockMagic)
  | .readUnlockMagic =>
    if l.magic ≠ RWLOCK_MAGIC then (l, .panicked "Bad rwlock magic: %p\n") else (l, .readUnlock)
  | .readUnlock => ({ l with readerCount := l.readerCount - 1 }, .idle)
  | .writeMagic mode =>
    if l.magic ≠ RWLOCK_MAGIC then (l, .panicked "Bad rwlock magic: %p\n")
    else match mode with
      | .lock => (l, .writeAnnounce)
      | .trylock => (l, .writeSwap .trylock)
  | .writeAnnounce => ({ l with writerWaiting := l.writerWaiting + 1 }, .writeSwap .lock)
  | .writeSwap mode =>
    if l.lock = 0 then ({ l with lock := RWLOCK_WRITE_BIAS }, .writeReaders mode)
    else match mode with
      | .lock => (l, .writeSwap .lock)
      | .trylock => (l, .idle)
  | .writeReaders .lock =>
    if l.readerCount ≠ 0 then (l, .writeReaders .lock) else (l, .writeRetract)
  | .writeReaders .trylock =>
    if l.readerCount ≠ 0 then (l, .writeBackOut) else (l, .writeHeld)
  | .writeRetract => ({ l with writerWaiting := l.writerWaiting - 1 }, .writeHeld)
  | .writeBackOut => ({ l with lock := 0 }, .idle)
  | .writeHeld => (l, .writeUnlockMagic)
  | .writeUnlockMagic =>
    if l.magic ≠ RWLOCK_MAGIC then (l, .panicked "Bad rwlock magic: %p\n") else (l, .writeUnlock)
  | .writeUnlock => ({ l with lock := 0 }, .idle)
  | .panicked format => (l, .panicked format)

/-- Between a successful read acquisition and its `read_unlock`. -/
def Pc.reads : Pc → Bool
  | .readHeld | .readUnlockMagic | .readUnlock => true
  | _ => false

/-- Between a successful write acquisition and its `write_unlock`. `write_lock` has
succeeded once it has read a zero count, before it retracts its announcement. -/
def Pc.writes : Pc → Bool
  | .writeRetract | .writeHeld | .writeUnlockMagic | .writeUnlock => true
  | _ => false

/-- Has incremented `reader_count` and not undone it. -/
def Pc.counted : Pc → Bool
  | .recheckWaiting _ | .recheckLock _ | .readUndo _ => true
  | pc => pc.reads

/-- Inside `write_lock`, has incremented `writer_waiting` and not decremented it. -/
def Pc.announced : Pc → Bool
  | .writeSwap .lock | .writeReaders .lock | .writeRetract => true
  | _ => false

/-- Has swapped the bias into the lock word and not stored zero since. -/
def Pc.biases : Pc → Bool
  | .writeReaders _ | .writeBackOut => true
  | pc => pc.writes

/-- All that the invariant asks of a place. -/
def Pc.standing (pc : Pc) : Bool × Bool × Bool × Bool × Bool :=
  (pc.biases, pc.writes, pc.reads, pc.counted, pc.announced)

abbrev System (n : Nat) := State (Fin n) RwlockT Pc

def initial (memory : RwlockT) : System n := ⟨rwlockInit memory, fun _ => .idle⟩

structure Invariant (s : System n) : Prop where
  magic : s.shared.magic = RWLOCK_MAGIC
  bias : ∀ a, (s.pc a).biases = true → s.shared.lock = RWLOCK_WRITE_BIAS
  single : ∀ a b, (s.pc a).biases = true → (s.pc b).biases = true → a = b
  /-- A writer that has seen no readers excludes readers that have seen no writer. -/
  excluded : ∀ a b, (s.pc a).writes = true → (s.pc b).reads = false
  readerCount : s.shared.readerCount.toNat = count Pc.counted s
  writerWaiting : s.shared.writerWaiting.toNat = count Pc.announced s
  running : ∀ a format, s.pc a ≠ .panicked format

theorem Pc.counted_of_reads (pc : Pc) (h : pc.reads = true) : pc.counted = true := by
  cases pc <;> simp_all [reads,counted]

theorem Pc.biases_of_writes (pc : Pc) (h : pc.writes = true) : pc.biases = true := by
  cases pc <;> simp_all [writes,biases]

theorem Pc.not_reads_of_writes (pc : Pc) (h : pc.writes = true) : pc.reads = false := by
  cases pc <;> simp_all [writes,reads]

theorem initial_invariant (memory : RwlockT) : Invariant (initial memory : System n) := by
  constructor <;> simp [initial,rwlockInit,count,Pc.biases,Pc.writes,Pc.counted,Pc.reads,Pc.announced]

section

variable (s : System n) (cpu : Fin n) (result : RwlockT × Pc) (valid : Invariant s)
include valid

/-- What one access owes to the invariant, besides the frame on the other processors. -/
theorem install_invariant (magic : result.1.magic = s.shared.magic)
    (bias : result.2.biases = true → result.1.lock = RWLOCK_WRITE_BIAS)
    (others : ∀ a, a ≠ cpu → (s.pc a).biases = true →
      result.1.lock = RWLOCK_WRITE_BIAS ∧ result.2.biases = false)
    (writes : result.2.writes = true → ∀ b, b ≠ cpu → (s.pc b).reads = false)
    (reads : result.2.reads = true → ∀ a, a ≠ cpu → (s.pc a).writes = false)
    (readerCount : result.1.readerCount.toNat + (s.pc cpu).counted.toNat =
      s.shared.readerCount.toNat + result.2.counted.toNat)
    (writerWaiting : result.1.writerWaiting.toNat + (s.pc cpu).announced.toNat =
      s.shared.writerWaiting.toNat + result.2.announced.toNat)
    (running : ∀ format, result.2 ≠ .panicked format) : Invariant (install s cpu result) := by
  refine ⟨magic.trans valid.magic,?_,?_,?_,?_,?_,?_⟩
  · intro a h
    by_cases same : a = cpu
    · subst a; exact bias (by simpa using h)
    · rw [install_other _ _ same] at h; exact (others a same h).1
  · intro a b ha hb
    by_cases sameA : a = cpu <;> by_cases sameB : b = cpu
    · rw [sameA,sameB]
    · subst a
      rw [install_same] at ha
      rw [install_other _ _ sameB] at hb
      simp [(others b sameB hb).2] at ha
    · subst b
      rw [install_same] at hb
      rw [install_other _ _ sameA] at ha
      simp [(others a sameA ha).2] at hb
    · rw [install_other _ _ sameA] at ha
      rw [install_other _ _ sameB] at hb
      exact valid.single a b ha hb
  · intro a b ha
    by_cases sameA : a = cpu <;> by_cases sameB : b = cpu
    · subst a; subst b; exact Pc.not_reads_of_writes _ ha
    · subst a
      rw [install_same] at ha
      rw [install_other _ _ sameB]
      exact writes ha b sameB
    · subst b
      rw [install_other _ _ sameA] at ha
      rw [install_same]
      apply Bool.eq_false_iff.mpr
      intro h
      simp [reads h a sameA] at ha
    · rw [install_other _ _ sameA] at ha
      rw [install_other _ _ sameB]
      exact valid.excluded a b ha
  · have counts := count_install Pc.counted s cpu result
    have before := valid.readerCount
    rw [install_shared]
    omega
  · have counts := count_install Pc.announced s cpu result
    have before := valid.writerWaiting
    rw [install_shared]
    omega
  · exact install_all (P := fun _ (pc : Pc) => ∀ format, pc ≠ .panicked format) running fun a _ => valid.running a

/-- The lock word and the processor's own standing are kept; counters may move. -/
theorem install_quiet (magic : result.1.magic = s.shared.magic)
    (lock : result.1.lock = s.shared.lock) (biases : result.2.biases = (s.pc cpu).biases)
    (writes : result.2.writes = (s.pc cpu).writes) (reads : result.2.reads = true →
      (s.pc cpu).reads = true)
    (readerCount : result.1.readerCount.toNat + (s.pc cpu).counted.toNat =
      s.shared.readerCount.toNat + result.2.counted.toNat)
    (writerWaiting : result.1.writerWaiting.toNat + (s.pc cpu).announced.toNat =
      s.shared.writerWaiting.toNat + result.2.announced.toNat)
    (running : ∀ format, result.2 ≠ .panicked format) : Invariant (install s cpu result) := by
  refine install_invariant s cpu result valid magic ?_ ?_ ?_ ?_ readerCount writerWaiting running
  · intro h
    rw [lock]
    exact valid.bias cpu (biases ▸ h)
  · intro a different h
    refine ⟨lock.trans (valid.bias a h),?_⟩
    rw [biases]
    apply Bool.eq_false_iff.mpr
    exact fun mine => different (valid.single a cpu h mine)
  · intro h b _
    exact valid.excluded cpu b (writes ▸ h)
  · intro h a _
    apply Bool.eq_false_iff.mpr
    intro writer
    have free := valid.excluded a cpu writer
    simp [reads h] at free

/-- The processor moves on without a write, and means the same to the others as before. -/
theorem install_move (pc : s.pc cpu = here) (next : Pc) (same : next.standing = here.standing)
    (running : ∀ format, next ≠ .panicked format) : Invariant (install s cpu (s.shared,next)) := by
  simp only [Pc.standing,Prod.mk.injEq] at same
  obtain ⟨biases,writes,reads,counted,announced⟩ := same
  refine install_quiet s cpu _ valid rfl rfl ?_ ?_ ?_ ?_ ?_ running
  · rw [pc,biases]
  · rw [pc,writes]
  · rw [pc,← reads]
    exact fun inside => inside
  · rw [pc,counted]
  · rw [pc,announced]

/-- Storing zero is done by the one processor that had set the bias. -/
theorem install_release (pc : s.pc cpu = .writeUnlock ∨ s.pc cpu = .writeBackOut) :
    Invariant (install s cpu ({ s.shared with lock := 0 },.idle)) := by
  have mine : (s.pc cpu).biases = true := by rcases pc with pc | pc <;> simp [pc,Pc.biases,Pc.writes]
  refine install_invariant s cpu _ valid rfl (by simp [Pc.biases,Pc.writes]) ?_
    (by simp [Pc.writes]) (by simp [Pc.reads]) ?_ ?_ (by simp)
  · intro a different h
    exact absurd (valid.single a cpu h mine) different
  · rcases pc with pc | pc <;> simp [pc,Pc.counted,Pc.reads]
  · rcases pc with pc | pc <;> simp [pc,Pc.announced]

/-- A writer that reads a zero count leaves no reader inside. -/
theorem install_writer (pc : s.pc cpu = .writeReaders mode) (none : s.shared.readerCount = 0)
    (next : Pc) (target : next = .writeRetract ∧ mode = .lock ∨ next = .writeHeld ∧ mode = .trylock) :
    Invariant (install s cpu (s.shared,next)) := by
  have biases : (s.pc cpu).biases = true := by simp [pc,Pc.biases]
  have empty : count Pc.counted s = 0 := by
    rw [← valid.readerCount,none]; rfl
  have writes : next.biases = true := by
    rcases target with ⟨rfl,_⟩ | ⟨rfl,_⟩ <;> rfl
  refine install_invariant s cpu _ valid rfl (fun _ => valid.bias cpu biases) ?_ ?_ ?_ ?_ ?_ ?_
  · intro a different h
    exact absurd (valid.single a cpu h biases) different
  · intro _ b _
    apply Bool.eq_false_iff.mpr
    intro reader
    have positive := count_pos Pc.counted s b (Pc.counted_of_reads _ reader)
    omega
  · rcases target with ⟨rfl,_⟩ | ⟨rfl,_⟩ <;> simp [Pc.reads]
  · rcases target with ⟨rfl,_⟩ | ⟨rfl,_⟩ <;> simp [pc,Pc.counted,Pc.reads]
  · rcases target with ⟨rfl,rfl⟩ | ⟨rfl,rfl⟩ <;> simp [pc,Pc.announced]
  · rcases target with ⟨rfl,_⟩ | ⟨rfl,_⟩ <;> simp

/-- A reader that finds the word unbiased after counting itself faces no writer. -/
theorem install_reader (pc : s.pc cpu = .recheckLock mode) (free : ¬biased s.shared) :
    Invariant (install s cpu (s.shared,.readHeld)) := by
  have nobody (a : Fin n) : (s.pc a).biases = false := by
    apply Bool.eq_false_iff.mpr
    intro h
    apply free
    simp [biased,valid.bias a h,RWLOCK_WRITE_BIAS]
  refine install_invariant s cpu _ valid rfl (by simp [Pc.biases,Pc.writes]) ?_
    (by simp [Pc.writes]) ?_ (by simp [pc,Pc.counted,Pc.reads]) (by simp [pc,Pc.announced]) (by simp)
  · intro a _ h
    simp [nobody a] at h
  · intro _ a _
    apply Bool.eq_false_iff.mpr
    intro writer
    have h := Pc.biases_of_writes _ writer
    simp [nobody a] at h

/-- The swap succeeds only on a zero word, hence only when nobody has set the bias. -/
theorem install_bias (pc : s.pc cpu = .writeSwap mode) (free : s.shared.lock = 0) :
    Invariant (install s cpu ({ s.shared with lock := RWLOCK_WRITE_BIAS },.writeReaders mode)) := by
  refine install_invariant s cpu _ valid rfl (fun _ => rfl) ?_ (by simp [Pc.writes])
    (by simp [Pc.reads]) (by simp [pc,Pc.counted,Pc.reads]) ?_ (by simp)
  · intro a _ h
    have held := valid.bias a h
    rw [free] at held
    exact absurd held (by decide)
  · cases mode <;> simp [pc,Pc.announced]

end

theorem counter_increment (word : BitVec 32) (bound : word.toNat + 1 < 2^32) :
    (word + 1#32).toNat = word.toNat + 1 := by
  rw [BitVec.toNat_add]
  exact Nat.mod_eq_of_lt bound

theorem counter_decrement (word : BitVec 32) (positive : 0 < word.toNat) :
    (word - 1#32).toNat + 1 = word.toNat := by
  have bound := word.isLt
  rw [BitVec.toNat_sub]
  change (2^32 - 1 + word.toNat) % 2^32 + 1 = word.toNat
  omega

variable (few : n < 2^32)
include few

/-- A processor that has not counted itself leaves room in the 32-bit counter. -/
theorem count_room (here : Pc → Bool) (s : System n) (cpu : Fin n)
    (outside : here (s.pc cpu) = false) : count here s + 1 < 2^32 := by
  have room := count_lt here s cpu outside
  rw [Fintype.card_fin] at room
  omega

theorem dispatch_invariant (s : System n) (valid : Invariant s) (chosen : Fin n × Call) :
    Invariant (dispatch access s chosen) := by
  obtain ⟨cpu,call⟩ := chosen
  simp only [dispatch]
  cases pc : s.pc cpu with
  | idle =>
    simp only [access]
    split
    all_goals exact install_move s cpu valid pc _ rfl (by simp)
  | readMagic mode | readUnlockMagic | writeUnlockMagic =>
    simp only [access,valid.magic,ne_eq,not_true_eq_false,↓reduceIte]
    exact install_move s cpu valid pc _ rfl (by simp)
  | writeMagic mode =>
    simp only [access,valid.magic,ne_eq,not_true_eq_false,↓reduceIte]
    cases mode
    all_goals exact install_move s cpu valid pc _ rfl (by simp)
  | readWaiting mode | readLock mode | recheckWaiting mode =>
    simp only [access]
    split
    all_goals cases mode
    all_goals exact install_move s cpu valid pc _ rfl (by simp [Mode.readFailed])
  | readCount mode =>
    have room := count_room few Pc.counted s cpu (by simp [pc,Pc.counted,Pc.reads])
    rw [← valid.readerCount] at room
    have next := counter_increment _ room
    have nonzero : s.shared.readerCount + 1 ≠ 0 := by
      intro zero
      change s.shared.readerCount + 1#32 = 0 at zero
      rw [zero] at next
      simp at next
    simp only [access,ne_eq,nonzero,not_false_eq_true,↓reduceIte]
    apply install_quiet s cpu _ valid <;>
      simp [pc,next,-BitVec.toNat_add,Pc.biases,Pc.writes,Pc.reads,Pc.counted,Pc.announced]
  | recheckLock mode =>
    by_cases seen : biased s.shared
    · simp only [access,if_pos seen]
      exact install_move s cpu valid pc _ rfl (by simp)
    · simp only [access,if_neg seen]
      exact install_reader s cpu valid pc seen
  | readUndo mode =>
    have positive := count_pos Pc.counted s cpu (by simp [pc,Pc.counted])
    rw [← valid.readerCount] at positive
    have next := counter_decrement _ positive
    cases mode
    all_goals apply install_quiet s cpu _ valid <;>
      simp [pc,access,next,-BitVec.toNat_sub,Mode.readFailed,Pc.biases,Pc.writes,Pc.reads,Pc.counted,Pc.announced]
  | readUnlock =>
    have positive := count_pos Pc.counted s cpu (by simp [pc,Pc.counted,Pc.reads])
    rw [← valid.readerCount] at positive
    have next := counter_decrement _ positive
    apply install_quiet s cpu _ valid <;>
      simp [pc,access,next,-BitVec.toNat_sub,Pc.biases,Pc.writes,Pc.reads,Pc.counted,Pc.announced]
  | readHeld | writeHeld => exact install_move s cpu valid pc _ rfl (by simp)
  | writeAnnounce =>
    have room := count_room few Pc.announced s cpu (by simp [pc,Pc.announced])
    rw [← valid.writerWaiting] at room
    have next := counter_increment _ room
    apply install_quiet s cpu _ valid <;>
      simp [pc,access,next,-BitVec.toNat_add,Pc.biases,Pc.writes,Pc.reads,Pc.counted,Pc.announced]
  | writeSwap mode =>
    by_cases free : s.shared.lock = 0
    · simp only [access,if_pos free]
      exact install_bias s cpu valid pc free
    · simp only [access,if_neg free]
      cases mode
      all_goals exact install_move s cpu valid pc _ rfl (by simp)
  | writeReaders mode =>
    by_cases none : s.shared.readerCount = 0
    · cases mode <;> simp only [access,none,ne_eq,not_true_eq_false,↓reduceIte]
      · exact install_writer s cpu valid pc none _ (.inl ⟨rfl,rfl⟩)
      · exact install_writer s cpu valid pc none _ (.inr ⟨rfl,rfl⟩)
    · cases mode <;> simp only [access,none,ne_eq,not_false_eq_true,↓reduceIte]
      all_goals exact install_move s cpu valid pc _ rfl (by simp)
  | writeRetract =>
    have positive := count_pos Pc.announced s cpu (by simp [pc,Pc.announced])
    rw [← valid.writerWaiting] at positive
    have next := counter_decrement _ positive
    apply install_quiet s cpu _ valid <;>
      simp [pc,access,next,-BitVec.toNat_sub,Pc.biases,Pc.writes,Pc.reads,Pc.counted,Pc.announced]
  | writeBackOut => exact install_release s cpu valid (.inr pc)
  | writeUnlock => exact install_release s cpu valid (.inl pc)
  | panicked format => exact absurd pc (valid.running cpu format)

/-- In every reachable state writers exclude each other and all readers, and both
counters say exactly how many processors stand behind them. -/
theorem rwlock_exclusion (memory : RwlockT) (schedule : List (Fin n × Call)) :
    let s := interleave access schedule (initial memory)
    (∀ a b, (s.pc a).writes = true → (s.pc b).writes = true → a = b) ∧
    (∀ a b, (s.pc a).writes = true → (s.pc b).reads = false) ∧
    s.shared.readerCount.toNat = count Pc.counted s ∧
    s.shared.writerWaiting.toNat = count Pc.announced s := by
  have valid := interleave_preserves access Invariant (dispatch_invariant few) _
    (initial_invariant memory) schedule
  refine ⟨?_,valid.excluded,valid.readerCount,valid.writerWaiting⟩
  intro a b ha hb
  exact valid.single a b (Pc.biases_of_writes _ ha) (Pc.biases_of_writes _ hb)

omit few

/-- Reader 0 is inside, writer 1 has announced itself and waits for the count. -/
def contended : List (Fin 2 × Call) :=
  List.replicate 7 (0,.read .lock) ++ List.replicate 4 (1,.write .lock)

theorem rwlock_exclusion_contended :
    let s := interleave access contended (initial (rwlockInit ⟨7,7,7,"stale",7⟩))
    ((s.pc 0).reads = true ∧ s.pc 1 = .writeReaders .lock) ∧
    (∀ a b, (s.pc a).writes = true → (s.pc b).writes = true → a = b) ∧
    (∀ a b, (s.pc a).writes = true → (s.pc b).reads = false) ∧
    s.shared.readerCount.toNat = count Pc.counted s ∧
    s.shared.writerWaiting.toNat = count Pc.announced s :=
  ⟨by decide, rwlock_exclusion (by decide) _ _⟩

end Kernal.Rwlock
