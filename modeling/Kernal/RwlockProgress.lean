import Kernal.Rounds
import Kernal.Rwlock

/-! When the reader-writer lock of `spinlock.h` can be had: alone, behind a writer that has
announced itself, and among processors that all go on. -/
namespace Kernal.Rwlock

open Interleaving

/-- Who sets the bias stands behind it, and who stops standing behind it clears the word. -/
theorem access_word (cpu : Fin n) (call : Call) (l : RwlockT) (pc : Pc)
    (running : ∀ format, (access cpu call l pc).2 ≠ .panicked format) :
    ((access cpu call l pc).1.lock = l.lock ∧
      (pc.biases = true → (access cpu call l pc).2.biases = true)) ∨
    (access cpu call l pc).2.biases = true ∨ (access cpu call l pc).1.lock = 0 := by
  cases pc with
  | writeSwap mode =>
    simp only [access]
    split
    · exact .inr (.inl rfl)
    · refine .inl ⟨?_,fun biases => absurd biases Bool.false_ne_true⟩
      cases mode <;> rfl
  | writeReaders mode =>
    refine .inl ?_
    cases mode
    all_goals
      simp only [access]
      split <;> exact ⟨rfl,fun _ => rfl⟩
  | writeUnlockMagic =>
    simp only [access] at running ⊢
    split
    next bad => simp [bad] at running
    next good => exact .inl ⟨rfl,fun _ => rfl⟩
  | writeBackOut | writeUnlock => exact .inr (.inr rfl)
  | writeRetract | writeHeld => exact .inl ⟨rfl,fun _ => rfl⟩
  | idle | readMagic mode | readWaiting mode | readLock mode | readCount mode | recheckWaiting mode
  | recheckLock mode | readUnlockMagic | writeMagic mode =>
    refine .inl ⟨?_,fun biases => absurd biases Bool.false_ne_true⟩
    simp only [access]
    split
    all_goals first | rfl | (split <;> rfl)
  | readUndo mode | readHeld | readUnlock | writeAnnounce | panicked format =>
    exact .inl ⟨rfl,fun biases => absurd biases Bool.false_ne_true⟩

/-- The invariant of the lock, and somebody behind a word that is not zero. -/
def Owned (s : System n) : Prop := Invariant s ∧ (s.shared.lock = 0 ∨ ∃ a, (s.pc a).biases = true)

section

variable (few : n < 2^32)
include few

theorem dispatch_owned (s : System n) (owned : Owned s) (chosen : Fin n × Call) :
    Owned (dispatch access s chosen) := by
  obtain ⟨valid,word⟩ := owned
  have next := dispatch_invariant few s valid chosen
  refine ⟨next,?_⟩
  have running := next.running chosen.1
  rw [dispatch,install_same] at running
  rcases access_word chosen.1 chosen.2 s.shared (s.pc chosen.1) running with ⟨same,kept⟩ | taken | free
  · rcases word with free | ⟨a,biases⟩
    · exact .inl (same.trans free)
    · refine .inr ⟨a,?_⟩
      by_cases own : a = chosen.1
      · subst own
        rw [dispatch,install_same]
        exact kept biases
      · rw [dispatch,install_other _ _ own]
        exact biases
  · refine .inr ⟨chosen.1,?_⟩
    rw [dispatch,install_same]
    exact taken
  · exact .inl free

theorem interleave_owned (memory : RwlockT) (schedule : List (Fin n × Call)) :
    Owned (interleave access schedule (initial memory)) :=
  interleave_preserves access Owned (dispatch_owned few) _ ⟨initial_invariant memory,.inl rfl⟩ schedule

end

section Words

variable {s : System n} (owned : Owned s)
include owned

theorem Owned.lock_zero_iff : s.shared.lock = 0 ↔ ∀ a, (s.pc a).biases = false := by
  constructor
  · intro free a
    refine Bool.eq_false_iff.mpr fun biases => ?_
    have set := owned.1.bias a biases
    rw [free] at set
    exact absurd set (by decide)
  · intro nobody
    refine owned.2.resolve_right ?_
    rintro ⟨a,biases⟩
    exact absurd ((nobody a).symm.trans biases) Bool.false_ne_true

theorem Owned.biased_iff : biased s.shared ↔ ∃ a, (s.pc a).biases = true := by
  constructor
  · intro set
    refine owned.2.resolve_left fun free => ?_
    rw [biased,free] at set
    exact set rfl
  · rintro ⟨a,biases⟩
    rw [biased,owned.1.bias a biases]
    decide

theorem Owned.readerCount_zero_iff : s.shared.readerCount = 0 ↔ ∀ a, (s.pc a).counted = false := by
  rw [← count_eq_zero,← owned.1.readerCount]
  exact BitVec.toNat_inj.symm

theorem Owned.writerWaiting_zero_iff : s.shared.writerWaiting = 0 ↔ ∀ a, (s.pc a).announced = false := by
  rw [← count_eq_zero,← owned.1.writerWaiting]
  exact BitVec.toNat_inj.symm

/-- A processor that has not counted itself leaves room for its count. -/
theorem Owned.readerCount_next (few : n < 2^32) {a : Fin n} (outside : (s.pc a).counted = false) :
    s.shared.readerCount + 1#32 ≠ 0#32 := by
  have room := count_room few Pc.counted s a outside
  rw [← owned.1.readerCount] at room
  have next := counter_increment _ room
  intro zero
  rw [zero] at next
  exact absurd next (Nat.succ_ne_zero _).symm

end Words

theorem alone_keeps (P : System n → Prop) (a : Fin n) (call : Call)
    (next : ∀ s, P s → P (dispatch access s (a, call))) (s : System n) (start : P s) (k : Nat) :
    P (interleave access (List.replicate k (a, call)) s) :=
  List.foldlRecOn _ (dispatch access) start fun s holds chosen mem => by
    rw [List.eq_of_mem_replicate mem]
    exact next s holds

/-- On the way into `write_lock`, up to where the count is read. -/
def Pc.writesNext : Pc → Bool
  | .idle | .writeMagic .lock | .writeAnnounce | .writeSwap .lock | .writeReaders .lock => true
  | _ => false

/-- On the way into `read_lock`, up to where the word is read first. -/
def Pc.readsNext : Pc → Bool
  | .idle | .readMagic .lock | .readWaiting .lock | .readLock .lock => true
  | _ => false

section Alone

variable {s : System n} (owned : Owned s) (few : n < 2^32) (a b : Fin n) (other : b ≠ a)
include owned few other

/-- A writer does not get past one that stands behind the word or the count. -/
theorem write_blocked (there : (s.pc b).biases = true ∨ (s.pc b).counted = true)
    (here : (s.pc a).writesNext = true) (k : Nat) :
    ((interleave access (List.replicate k (a, .write .lock)) s).pc a).writes = false := by
  have kept := alone_keeps (fun t => Owned t ∧ t.pc b = s.pc b ∧ (t.pc a).writesNext = true) a (.write .lock)
    (fun t ⟨owned,same,here⟩ => by
      refine ⟨dispatch_owned few t owned _,?_,?_⟩
      · rw [dispatch,install_other _ _ other]
        exact same
      · rw [dispatch,install_same]
        have magic := owned.1.magic
        cases pc : t.pc a with
        | idle | writeAnnounce => rfl
        | writeMagic mode =>
          cases mode with
          | trylock => rw [pc] at here; contradiction
          | lock => simp [access,magic,Pc.writesNext]
        | writeSwap mode =>
          cases mode with
          | trylock => rw [pc] at here; contradiction
          | lock =>
            simp only [access]
            split <;> rfl
        | writeReaders mode =>
          cases mode with
          | trylock => rw [pc] at here; contradiction
          | lock =>
            -- The other one does not stand behind the word, for it is behind this processor's own.
            have mine : (t.pc a).biases = true := by rw [pc]; rfl
            have counted : (t.pc b).counted = true := by
              rw [same]
              refine there.resolve_left fun biases => other ?_
              exact owned.1.single b a (by rw [same]; exact biases) mine
            have readers : t.shared.readerCount ≠ 0 := by
              intro zero
              exact absurd ((owned.readerCount_zero_iff.mp zero b).symm.trans counted) Bool.false_ne_true
            simp only [access,if_pos readers]
            rfl
        | _ => rw [pc] at here; contradiction)
    s ⟨owned,rfl,here⟩ k
  have last := kept.2.2
  cases pc : (interleave access (List.replicate k (a, .write .lock)) s).pc a with
  | writeRetract | writeHeld | writeUnlockMagic | writeUnlock => rw [pc] at last; contradiction
  | _ => rfl

/-- A reader does not get past one that has announced itself or stands behind the word. -/
theorem read_blocked (there : (s.pc b).announced = true ∨ (s.pc b).biases = true)
    (here : (s.pc a) = .idle) (k : Nat) :
    ((interleave access (List.replicate k (a, .read .lock)) s).pc a).reads = false := by
  have kept := alone_keeps (fun t => Owned t ∧ t.pc b = s.pc b ∧ (t.pc a).readsNext = true ∧
      (t.pc a = .readLock .lock → (t.pc b).announced = false)) a (.read .lock)
    (fun t ⟨owned,same,here,quiet⟩ => by
      refine ⟨dispatch_owned few t owned _,?_,?_⟩
      · rw [dispatch,install_other _ _ other]
        exact same
      · rw [dispatch,install_same,install_other _ _ other]
        have magic := owned.1.magic
        cases pc : t.pc a with
        | idle => exact ⟨rfl,fun eq => Pc.noConfusion eq⟩
        | readMagic mode =>
          cases mode with
          | trylock => rw [pc] at here; contradiction
          | lock => simp [access,magic,Pc.readsNext]
        | readWaiting mode =>
          cases mode with
          | trylock => rw [pc] at here; contradiction
          | lock =>
            simp only [access]
            split
            · exact ⟨rfl,fun eq => Pc.noConfusion eq⟩
            · next none =>
              exact ⟨rfl,fun _ => owned.writerWaiting_zero_iff.mp (not_not.mp none) b⟩
        | readLock mode =>
          cases mode with
          | trylock => rw [pc] at here; contradiction
          | lock =>
            have silent := quiet pc
            rw [same] at silent
            have biases := there.resolve_left (by rw [silent]; exact Bool.false_ne_true)
            have set : biased t.shared := owned.biased_iff.mpr ⟨b,by rw [same]; exact biases⟩
            simp only [access,if_pos set]
            exact ⟨rfl,fun eq => Pc.noConfusion eq⟩
        | _ => rw [pc] at here; contradiction)
    s ⟨owned,rfl,by rw [here]; rfl,fun eq => by rw [here] at eq; contradiction⟩ k
  have last := kept.2.2.1
  cases pc : (interleave access (List.replicate k (a, .read .lock)) s).pc a with
  | readHeld | readUnlockMagic | readUnlock => rw [pc] at last; contradiction
  | _ => rfl

end Alone

/-- A processor that enters `write_lock` and runs alone gets the lock with its fifth access
where no other one stands behind the word or the count, and never where one does. -/
theorem alone_writes_iff (few : n < 2^32) (memory : RwlockT) (schedule : List (Fin n × Call)) (a : Fin n)
    (idle : (interleave access schedule (initial memory)).pc a = .idle) (k : Nat) (enough : 5 ≤ k) :
    let s := interleave access schedule (initial memory)
    (∃ j ≤ k, ((interleave access (List.replicate j (a, .write .lock)) s).pc a).writes = true) ↔
      ∀ b, b ≠ a → (s.pc b).biases = false ∧ (s.pc b).counted = false := by
  intro s
  have owned : Owned s := interleave_owned few memory schedule
  have here : s.pc a = .idle := idle
  constructor
  · rintro ⟨j,_,writes⟩ b other
    by_contra stands
    have there : (s.pc b).biases = true ∨ (s.pc b).counted = true := by
      by_contra neither
      rw [not_or,Bool.not_eq_true,Bool.not_eq_true] at neither
      exact stands neither
    have blocked := write_blocked owned few a b other there (by rw [here]; rfl) j
    exact absurd (blocked.symm.trans writes) Bool.false_ne_true
  · intro nobody
    have free : s.shared.lock = 0 := owned.lock_zero_iff.mpr fun b => by
      by_cases own : b = a
      · subst own
        rw [here]
        rfl
      · exact (nobody b own).1
    have empty : s.shared.readerCount = 0 := owned.readerCount_zero_iff.mpr fun b => by
      by_cases own : b = a
      · subst own
        rw [here]
        rfl
      · exact (nobody b own).2
    have magic := owned.1.magic
    have run := interleave_alone access a (List.replicate 5 (.write .lock)) s
    rw [List.map_replicate] at run
    refine ⟨5,enough,?_⟩
    rw [run,install_same]
    simp [alone,access,here,magic,free,empty,Pc.writes]

theorem alone_writes_iff_pair :
    let s := interleave access (List.replicate 7 (0,.read .lock)) (initial ⟨7,7,7,"stale",7⟩ : System 2)
    (∃ j ≤ 5, ((interleave access (List.replicate j (1, .write .lock)) s).pc 1).writes = true) ↔
      ∀ b, b ≠ 1 → (s.pc b).biases = false ∧ (s.pc b).counted = false :=
  alone_writes_iff (by decide) _ _ 1 (by decide) 5 (by decide)

/-- A processor that enters `read_lock` and runs alone gets the lock with its seventh access
where no other one has announced itself or stands behind the word, and never where one has. -/
theorem alone_reads_iff (few : n < 2^32) (memory : RwlockT) (schedule : List (Fin n × Call)) (a : Fin n)
    (idle : (interleave access schedule (initial memory)).pc a = .idle) (k : Nat) (enough : 7 ≤ k) :
    let s := interleave access schedule (initial memory)
    (∃ j ≤ k, ((interleave access (List.replicate j (a, .read .lock)) s).pc a).reads = true) ↔
      ∀ b, b ≠ a → (s.pc b).announced = false ∧ (s.pc b).biases = false := by
  intro s
  have owned : Owned s := interleave_owned few memory schedule
  have here : s.pc a = .idle := idle
  constructor
  · rintro ⟨j,_,reads⟩ b other
    by_contra stands
    have there : (s.pc b).announced = true ∨ (s.pc b).biases = true := by
      by_contra neither
      rw [not_or,Bool.not_eq_true,Bool.not_eq_true] at neither
      exact stands neither
    have blocked := read_blocked owned few a b other there here j
    exact absurd (blocked.symm.trans reads) Bool.false_ne_true
  · intro nobody
    have quiet : s.shared.writerWaiting = 0 := owned.writerWaiting_zero_iff.mpr fun b => by
      by_cases own : b = a
      · subst own
        rw [here]
        rfl
      · exact (nobody b own).1
    have free : s.shared.lock = 0 := owned.lock_zero_iff.mpr fun b => by
      by_cases own : b = a
      · subst own
        rw [here]
        rfl
      · exact (nobody b own).2
    have nonzero := owned.readerCount_next few (a := a) (by rw [here]; rfl)
    have magic := owned.1.magic
    have run := interleave_alone access a (List.replicate 7 (.read .lock)) s
    rw [List.map_replicate] at run
    refine ⟨7,enough,?_⟩
    rw [run,install_same]
    simp [alone,access,here,magic,quiet,free,nonzero,Pc.reads,biased]

theorem alone_reads_iff_pair :
    let s := interleave access (List.replicate 3 (1,.write .lock)) (initial ⟨7,7,7,"stale",7⟩ : System 2)
    (∃ j ≤ 7, ((interleave access (List.replicate j (0, .read .lock)) s).pc 0).reads = true) ↔
      ∀ b, b ≠ 0 → (s.pc b).announced = false ∧ (s.pc b).biases = false :=
  alone_reads_iff (by decide) _ _ 0 (by decide) 7 (by decide)

/-- How many accesses the routines that never wait have left at most. -/
def Pc.accessesLeft : Pc → Nat
  | .readMagic .trylock => 7
  | .readWaiting .trylock => 6
  | .readLock .trylock => 5
  | .readCount .trylock | .writeMagic .trylock => 4
  | .recheckWaiting .trylock | .writeSwap .trylock => 3
  | .recheckLock .trylock | .writeReaders .trylock | .readUnlockMagic | .writeUnlockMagic => 2
  | .readUndo .trylock | .writeBackOut | .readUnlock | .writeUnlock => 1
  | _ => 0

def Pc.Returned (pc : Pc) : Prop := pc = .idle ∨ pc = .readHeld ∨ pc = .writeHeld ∨ ∃ format, pc = .panicked format

theorem access_nearer (cpu : Fin n) (call : Call) (l : RwlockT) (pc : Pc) (left : 0 < pc.accessesLeft) :
    let next := (access cpu call l pc).2
    (0 < next.accessesLeft ∨ next.Returned) ∧ next.accessesLeft < pc.accessesLeft := by
  cases pc with
  | readMagic mode | readWaiting mode | readLock mode | readCount mode | recheckWaiting mode | recheckLock mode
  | writeMagic mode | writeSwap mode | writeReaders mode =>
    cases mode with
    | lock => exact absurd left (Nat.lt_irrefl 0)
    | trylock =>
      simp only [access]
      split <;> simp [Pc.accessesLeft,Pc.Returned,Mode.readFailed]
  | readUndo mode =>
    cases mode with
    | lock => exact absurd left (Nat.lt_irrefl 0)
    | trylock => simp [access,Pc.accessesLeft,Pc.Returned,Mode.readFailed]
  | readUnlockMagic | writeUnlockMagic =>
    simp only [access]
    split <;> simp [Pc.accessesLeft,Pc.Returned]
  | writeBackOut | readUnlock | writeUnlock => simp [access,Pc.accessesLeft,Pc.Returned]
  | _ => exact absurd left (Nat.lt_irrefl 0)

/-- `read_trylock`, `write_trylock` and both unlocks are over after seven accesses of their own,
whatever the other processors do in between and whatever they hold. -/
theorem rwlock_try_returns (few : n < 2^32) (memory : RwlockT) (before : List (Fin n × Call)) (a : Fin n) :
    let s := interleave access before (initial memory)
    0 < (s.pc a).accessesLeft → ∀ schedule : List (Fin n × Call),
      (s.pc a).accessesLeft ≤ schedule.countP (·.1 = a) → ∃ front, front <+: schedule ∧
        ((interleave access front s).pc a = .idle ∨ (interleave access front s).pc a = .readHeld ∨
          (interleave access front s).pc a = .writeHeld) := by
  intro s inside schedule enough
  obtain ⟨front,isFront,idle | reads | writes | ⟨format,panicked⟩⟩ := done_within access a
    (fun pc => 0 < pc.accessesLeft ∨ pc.Returned) Pc.Returned Pc.accessesLeft
    (fun pc here zero => here.resolve_left (by omega))
    (fun l pc call here going => access_nearer a call l pc (here.resolve_right going))
    schedule s (.inl inside) enough
  · exact ⟨front,isFront,.inl idle⟩
  · exact ⟨front,isFront,.inr (.inl reads)⟩
  · exact ⟨front,isFront,.inr (.inr writes)⟩
  · have owned := interleave_owned few memory (before ++ front)
    rw [interleave_append] at owned
    exact absurd panicked (owned.1.running a format)

theorem rwlock_try_returns_pair :
    let s := interleave access (List.replicate 6 (0,.write .lock) ++ [(1,.read .trylock)])
      (initial ⟨7,7,7,"stale",7⟩ : System 2)
    ∃ front, front <+: List.replicate 7 (1,.read .trylock) ∧ ((interleave access front s).pc 1 = .idle ∨
      (interleave access front s).pc 1 = .readHeld ∨ (interleave access front s).pc 1 = .writeHeld) :=
  rwlock_try_returns (by decide) _ _ 1 (by decide) _ (by decide)

end Kernal.Rwlock
