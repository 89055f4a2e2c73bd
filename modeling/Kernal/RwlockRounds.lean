import Kernal.RwlockProgress

/-! Who waits for whom in the reader-writer lock of `spinlock.h` while all processors go on:
how many readers come before an announced writer, and that somebody always gets in. -/
namespace Kernal.Rwlock

open Interleaving

/-- The last check of a reader. -/
def Pc.checksWord (pc : Pc) : Prop := ∃ mode, pc = .recheckLock mode

/-- A reader comes to its last check by seeing nobody announced. -/
theorem access_checksWord (cpu : Fin n) (call : Call) (l : RwlockT) (pc : Pc)
    (checks : (access cpu call l pc).2.checksWord) : l.writerWaiting = 0 := by
  obtain ⟨mode,checks⟩ := checks
  cases pc with
  | recheckWaiting mode' =>
    simp only [access] at checks
    split at checks
    · contradiction
    · next none => exact not_not.mp none
  | readWaiting mode' | readLock mode' | readCount mode' =>
    simp only [access] at checks
    cases mode' <;> split at checks <;> contradiction
  | readUndo mode' => cases mode' <;> contradiction
  | writeSwap mode' | writeReaders mode' =>
    cases mode'
    all_goals
      simp only [access] at checks
      split at checks <;> contradiction
  | writeMagic mode' =>
    simp only [access] at checks
    split at checks
    · contradiction
    · cases mode' <;> contradiction
  | idle =>
    cases call <;> contradiction
  | readMagic mode' | recheckLock mode' | readUnlockMagic | writeUnlockMagic =>
    simp only [access] at checks
    split at checks <;> contradiction
  | _ => contradiction

/-- A reader gets in with its last check only. -/
theorem access_reads (cpu : Fin n) (call : Call) (l : RwlockT) (pc : Pc) (before : pc.reads = false)
    (after : (access cpu call l pc).2.reads = true) : pc.checksWord := by
  cases pc with
  | recheckLock mode => exact ⟨mode,rfl⟩
  | readHeld | readUnlockMagic | readUnlock => contradiction
  | readWaiting mode | readLock mode | readCount mode =>
    simp only [access] at after
    cases mode <;> split at after <;> contradiction
  | readUndo mode => cases mode <;> contradiction
  | writeSwap mode | writeReaders mode =>
    cases mode
    all_goals
      simp only [access] at after
      split at after <;> contradiction
  | writeMagic mode =>
    simp only [access] at after
    split at after
    · contradiction
    · cases mode <;> contradiction
  | idle => cases call <;> contradiction
  | readMagic mode | recheckWaiting mode | writeUnlockMagic =>
    simp only [access] at after
    split at after <;> contradiction
  | _ => contradiction

/-- While a writer has announced itself, a reader gets in only with the one check of the word
that it was about to make when the writer came: each of the others comes in at most once before
that writer, and after it otherwise. -/
theorem reader_before_writer (few : n < 2^32) (memory : RwlockT) (before : List (Fin n × Call)) (w b : Fin n)
    (schedule : List (Fin n × Call)) (call : Call) :
    let s := interleave access before (initial memory)
    let t := interleave access schedule s
    (∀ front, front <+: schedule → ((interleave access front s).pc w).announced = true) →
      (t.pc b).reads = false → ((dispatch access t (b, call)).pc b).reads = true →
        (s.pc b).checksWord ∧ ∀ chosen ∈ schedule, chosen.1 ≠ b := by
  intro s t announced outside inside
  rw [dispatch,install_same] at inside
  refine unmoved_of_shut b Pc.checksWord (fun s => Owned s ∧ (s.pc w).announced = true) ?_ schedule s ?_
    (access_reads b call t.shared (t.pc b) outside inside)
  · rintro s input ⟨owned,announced⟩ checks
    have none := owned.writerWaiting_zero_iff.mp (access_checksWord b input s.shared (s.pc b) checks) w
    exact absurd (none.symm.trans announced) Bool.false_ne_true
  · intro front isFront
    refine ⟨?_,announced front isFront⟩
    have owned := interleave_owned few memory (before ++ front)
    rw [interleave_append] at owned
    exact owned

/-- The writer announces itself in front of the first reader's last check, and a second reader
comes. -/
def overtaking : List (Fin 3 × Call) :=
  List.replicate 6 (0,.read .lock) ++ List.replicate 3 (1,.write .lock) ++ [(2,.read .lock)]

theorem reader_before_writer_three :
    let s := interleave access overtaking (initial ⟨7,7,7,"stale",7⟩)
    (s.pc 0).checksWord ∧ ∀ chosen ∈ ([(2,.read .lock),(2,.read .lock)] : List (Fin 3 × Call)), chosen.1 ≠ 0 :=
  reader_before_writer (by decide) _ _ 1 0 _ (.read .lock) (fun front isFront =>
    (by decide : ∀ front ∈ List.inits [(2,.read .lock),(2,.read .lock)],
      ((interleave access front (interleave access overtaking (initial ⟨7,7,7,"stale",7⟩))).pc 1).announced = true)
      front ((List.mem_inits _ _).mpr isFront)) (by decide) (by decide)

/-! Processors that use `read_lock` and `write_lock` only. -/

def Call.blocking : Call → Bool
  | .read .lock | .write .lock => true
  | _ => false

def Pc.blocking : Pc → Bool
  | .readMagic .trylock | .readWaiting .trylock | .readLock .trylock | .readCount .trylock
  | .recheckWaiting .trylock | .recheckLock .trylock | .readUndo .trylock | .writeMagic .trylock
  | .writeSwap .trylock | .writeReaders .trylock | .writeBackOut => false
  | _ => true

def Pc.holds (pc : Pc) : Bool := pc.reads || pc.writes

def Entered (s : System n) : Prop := ∃ a, (s.pc a).holds = true

theorem access_blocking (cpu : Fin n) (call : Call) (l : RwlockT) (pc : Pc) (here : pc.blocking = true)
    (blocking : call.blocking = true) : (access cpu call l pc).2.blocking = true := by
  cases pc with
  | idle =>
    cases call with
    | read mode | write mode =>
      cases mode with
      | lock => rfl
      | trylock => contradiction
  | readMagic mode | readWaiting mode | readLock mode | readCount mode | recheckWaiting mode | recheckLock mode
  | writeSwap mode | writeReaders mode =>
    cases mode with
    | lock =>
      simp only [access]
      split <;> rfl
    | trylock => contradiction
  | writeMagic mode =>
    cases mode with
    | lock =>
      simp only [access]
      split <;> rfl
    | trylock => contradiction
  | readUndo mode =>
    cases mode with
    | lock => rfl
    | trylock => contradiction
  | readUnlockMagic | writeUnlockMagic =>
    simp only [access]
    split <;> rfl
  | writeBackOut => contradiction
  | _ => rfl

structure Calm (s : System n) : Prop where
  owned : Owned s
  blocking : ∀ a, (s.pc a).blocking = true
  outside : ∀ a, (s.pc a).holds = false

/-- Without holders and routines that give up, a processor behind the word waits for the readers. -/
theorem Calm.biases {s : System n} (calm : Calm s) {a : Fin n} (biases : (s.pc a).biases = true) :
    s.pc a = .writeReaders .lock := by
  have blocking := calm.blocking a
  have outside := calm.outside a
  cases pc : s.pc a with
  | writeReaders mode =>
    cases mode with
    | lock => rfl
    | trylock => rw [pc] at blocking; contradiction
  | writeBackOut => rw [pc] at blocking; contradiction
  | writeRetract | writeHeld | writeUnlockMagic | writeUnlock => rw [pc] at outside; contradiction
  | _ => rw [pc] at biases; contradiction

theorem Calm.announced {s : System n} (calm : Calm s) {a : Fin n} (announced : (s.pc a).announced = true) :
    s.pc a = .writeSwap .lock ∨ s.pc a = .writeReaders .lock := by
  have outside := calm.outside a
  cases pc : s.pc a with
  | writeSwap mode | writeReaders mode =>
    cases mode with
    | lock => first | exact .inl rfl | exact .inr rfl
    | trylock => rw [pc] at announced; contradiction
  | writeRetract => rw [pc] at outside; contradiction
  | _ => rw [pc] at announced; contradiction

/-- How far a reader is from having taken back its count, once a writer waits for it. -/
def Pc.retreat : Pc → Nat
  | .readCount _ => 3
  | .recheckWaiting _ | .recheckLock _ => 2
  | .readUndo _ => 1
  | _ => 0

theorem Pc.retreat_le (pc : Pc) : pc.retreat ≤ 3 := by
  cases pc <;> simp [retreat]

theorem waits_next (v : Fin n) (s : System n) (waits : s.pc v = .writeReaders .lock) (chosen : Fin n × Call) :
    Entered (dispatch access s chosen) ∨ (dispatch access s chosen).pc v = .writeReaders .lock := by
  by_cases own : v = chosen.1
  · subst own
    by_cases readers : s.shared.readerCount = 0
    · refine .inl ⟨chosen.1,?_⟩
      rw [dispatch,install_same,waits]
      simp only [access,readers,ne_eq,not_true_eq_false,↓reduceIte]
      rfl
    · refine .inr ?_
      rw [dispatch,install_same,waits]
      simp only [access,ne_eq,readers,not_false_eq_true,↓reduceIte]
  · rw [dispatch,install_other _ _ own]
    exact .inr waits

theorem retreat_falls (v : Fin n) (s : System n) (calm : Calm s) (waits : s.pc v = .writeReaders .lock)
    (b : Fin n) (call : Call) : (access b call s.shared (s.pc b)).2.retreat ≤ (s.pc b).retreat - 1 := by
  have waiting : s.shared.writerWaiting ≠ 0 := fun none => by
    have silent := calm.owned.writerWaiting_zero_iff.mp none v
    rw [waits] at silent
    contradiction
  have set : biased s.shared := calm.owned.biased_iff.mpr ⟨v,by rw [waits]; rfl⟩
  have blocking := calm.blocking b
  cases pc : s.pc b with
  | readWaiting mode | readLock mode | readUndo mode =>
    cases mode with
    | trylock => rw [pc] at blocking; contradiction
    | lock =>
      simp only [access,if_pos waiting,if_pos set]
      exact Nat.zero_le _
  | readCount mode =>
    cases mode with
    | trylock => rw [pc] at blocking; contradiction
    | lock =>
      simp only [access]
      split
      · exact Nat.le_refl _
      · exact Nat.zero_le _
  | recheckWaiting mode =>
    simp only [access,if_pos waiting]
    exact Nat.le_refl _
  | recheckLock mode =>
    simp only [access,if_pos set]
    exact Nat.le_refl _
  | idle => cases call <;> exact Nat.le_refl _
  | readMagic mode | readUnlockMagic | writeUnlockMagic =>
    simp only [access]
    split <;> exact Nat.le_refl _
  | writeMagic mode =>
    cases mode
    all_goals
      simp only [access]
      split <;> exact Nat.le_refl _
  | writeSwap mode | writeReaders mode =>
    cases mode
    all_goals
      simp only [access]
      split <;> exact Nat.le_refl _
  | _ => exact Nat.le_refl _

theorem split_rounds {rounds : List (List (Fin n × Call))} {k : Nat} (enough : k ≤ rounds.length) :
    ∃ first second, rounds = first ++ second ∧ first.length = k :=
  ⟨rounds.take k,rounds.drop k,(List.take_append_drop k rounds).symm,List.length_take_of_le enough⟩

/-- Rounds of `read_lock` and `write_lock` with an access of each processor in each. -/
structure Fair (rounds : List (List (Fin n × Call))) : Prop where
  covers : ∀ round ∈ rounds, Covers round
  blocking : ∀ chosen ∈ rounds.flatten, chosen.2.blocking = true

theorem Fair.left {first second : List (List (Fin n × Call))} (fair : Fair (first ++ second)) : Fair first where
  covers round mem := fair.covers round (List.mem_append_left _ mem)
  blocking chosen mem := fair.blocking chosen (by
    rw [List.flatten_append]
    exact List.mem_append_left _ mem)

theorem Fair.right {first second : List (List (Fin n × Call))} (fair : Fair (first ++ second)) : Fair second where
  covers round mem := fair.covers round (List.mem_append_right _ mem)
  blocking chosen mem := fair.blocking chosen (by
    rw [List.flatten_append]
    exact List.mem_append_right _ mem)

/-- A writer that waits for the word or for the readers stays announced. -/
theorem announced_next (w : Fin n) (s : System n) (calm : Calm s) (announced : (s.pc w).announced = true)
    (chosen : Fin n × Call) : ((dispatch access s chosen).pc w).announced = true := by
  by_cases own : w = chosen.1
  · subst own
    rw [dispatch,install_same]
    rcases calm.announced announced with here | here
    all_goals
      rw [here]
      simp only [access]
      split <;> rfl
  · rw [dispatch,install_other _ _ own]
    exact announced

theorem swap_waits (w : Fin n) (s : System n) (calm : Calm s) (announced : (s.pc w).announced = true)
    (free : ∀ b, (s.pc b).biases = false) (call : Call) :
    (dispatch access s (w, call)).pc w = .writeReaders .lock := by
  have word : s.shared.lock = 0 := calm.owned.lock_zero_iff.mpr free
  have here : s.pc w = .writeSwap .lock := by
    refine (calm.announced announced).resolve_right fun waits => ?_
    have behind := free w
    rw [waits] at behind
    contradiction
  rw [dispatch,install_same,here]
  simp only [access,if_pos word]

/-- How far a processor is from the lock, or from announcing itself, where nobody is in front. -/
def Pc.approach : Pc → Nat
  | .readMagic _ | .readUndo _ => 6
  | .readWaiting _ => 5
  | .readLock _ => 4
  | .readCount _ => 3
  | .recheckWaiting _ | .writeMagic _ => 2
  | .recheckLock _ | .writeAnnounce => 1
  | _ => 0

theorem Pc.approach_le (pc : Pc) : pc.approach ≤ 6 := by
  cases pc <;> simp [approach]

theorem Calm.approach_pos {s : System n} (calm : Calm s) (silent : ∀ b, (s.pc b).announced = false) {a : Fin n}
    (inside : s.pc a ≠ .idle) : 0 < (s.pc a).approach := by
  have blocking := calm.blocking a
  have outside := calm.outside a
  have quiet := silent a
  have running := calm.owned.1.running a
  cases pc : s.pc a with
  | idle => exact absurd pc inside
  | panicked format => exact absurd pc (running format)
  | writeSwap mode | writeReaders mode =>
    cases mode with
    | lock => rw [pc] at quiet; contradiction
    | trylock => rw [pc] at blocking; contradiction
  | writeBackOut => rw [pc] at blocking; contradiction
  | readHeld | readUnlockMagic | readUnlock | writeRetract | writeHeld | writeUnlockMagic | writeUnlock =>
    rw [pc] at outside; contradiction
  | _ => exact Nat.succ_pos _

section Rounds

variable (few : n < 2^32)
include few

theorem calm_next (s : System n) (calm : Calm s) (chosen : Fin n × Call) (blocking : chosen.2.blocking = true) :
    Entered (dispatch access s chosen) ∨ Calm (dispatch access s chosen) := by
  by_cases entered : Entered (dispatch access s chosen)
  · exact .inl entered
  · refine .inr ⟨dispatch_owned few s calm.owned chosen,?_,fun a => ?_⟩
    · exact install_all (P := fun _ (pc : Pc) => pc.blocking = true)
        (access_blocking chosen.1 chosen.2 s.shared _ (calm.blocking chosen.1) blocking) fun a _ => calm.blocking a
    · exact Bool.eq_false_iff.mpr fun holds => entered ⟨a,holds⟩

theorem calm_lasts (Goal Q : System n → Prop) (more : ∀ s, Entered s → Goal s)
    (kept : ∀ s, Calm s → Q s → ∀ chosen : Fin n × Call, chosen.2.blocking = true →
      Calm (dispatch access s chosen) → Goal (dispatch access s chosen) ∨ Q (dispatch access s chosen)) :
    Lasts access (·.blocking = true) Goal fun s => Calm s ∧ Q s := by
  intro s stage chosen blocking
  rcases calm_next few s stage.1 chosen blocking with entered | calm
  · exact .inl (more _ entered)
  · exact (kept s stage.1 stage.2 chosen blocking calm).imp_right fun q => ⟨calm,q⟩

/-- A writer behind the word is in after four rounds: three for the readers to take back their
counts and one to see it. -/
theorem waiting_enters (v : Fin n) {s : System n} (calm : Calm s) (waits : s.pc v = .writeReaders .lock)
    {rounds : List (List (Fin n × Call))} (fair : Fair rounds) (enough : 4 ≤ rounds.length) :
    Meets access rounds.flatten Entered s := by
  obtain ⟨first,second,rfl,three⟩ := split_rounds (Nat.le_of_succ_le enough : 3 ≤ rounds.length)
  rw [List.flatten_append]
  have next := calm_lasts few Entered (fun s => s.pc v = .writeReaders .lock) (fun _ entered => entered)
    fun s _ waits chosen _ _ => waits_next v s waits chosen
  by_cases meets : Meets access first.flatten Entered s
  · exact meets.append_left _
  · refine Meets.append_right _ ?_
    have lower (b : Fin n) := (rank_falls next b Pc.retreat
      (fun s stage call _ => .inr (retreat_falls v s stage.1 stage.2 b call)) first.flatten fair.left.blocking s
      ⟨calm,waits⟩).resolve_left meets
    generalize interleave access first.flatten s = t at *
    have quiet (b : Fin n) : (t.pc b).retreat = 0 := by
      have low := (lower b).2
      have start := (s.pc b).retreat_le
      have passed := count_rounds fair.left.covers b
      omega
    have next := calm_lasts few Entered
      (fun s => s.pc v = .writeReaders .lock ∧ ∀ b, (s.pc b).retreat = 0) (fun _ entered => entered)
      fun s calm stage chosen _ _ => (waits_next v s stage.1 chosen).imp_right fun waits =>
        ⟨waits,install_all (P := fun _ (pc : Pc) => pc.retreat = 0) (by
          have falls := retreat_falls v s calm stage.1 chosen.1 chosen.2
          rw [stage.2 chosen.1] at falls
          exact Nat.le_zero.mp falls) fun a _ => stage.2 a⟩
    have sees (s : System n) (calm : Calm s) (stage : s.pc v = .writeReaders .lock ∧ ∀ b, (s.pc b).retreat = 0)
        (call : Call) : Entered (dispatch access s (v, call)) := by
      have none : s.shared.readerCount = 0 := calm.owned.readerCount_zero_iff.mpr fun b => by
        have outside := calm.outside b
        have low := stage.2 b
        cases pc : s.pc b with
        | recheckWaiting mode | recheckLock mode | readUndo mode => rw [pc] at low; contradiction
        | readHeld | readUnlockMagic | readUnlock => rw [pc] at outside; contradiction
        | _ => rfl
      refine ⟨v,?_⟩
      rw [dispatch,install_same,stage.1]
      simp only [access,none,ne_eq,not_true_eq_false,↓reduceIte]
      rfl
    rcases rank_falls next v (fun _ => 1) (fun s stage call _ => .inl (sees s stage.1 stage.2 call)) second.flatten
      fair.right.blocking t ⟨(lower v).1.1,(lower v).1.2,quiet⟩ with meets | ⟨_,low⟩
    · exact meets
    · have passed := count_rounds fair.right.covers v
      rw [List.length_append] at enough
      omega

/-- From an announced writer it takes one round more: if nobody is behind the word, that writer
or another one gets there. -/
theorem announced_enters (w : Fin n) {s : System n} (calm : Calm s) (announced : (s.pc w).announced = true)
    {rounds : List (List (Fin n × Call))} (fair : Fair rounds) (enough : 5 ≤ rounds.length) :
    Meets access rounds.flatten Entered s := by
  by_cases behind : ∃ v, (s.pc v).biases = true
  · obtain ⟨v,biases⟩ := behind
    exact waiting_enters few v calm (calm.biases biases) fair (Nat.le_of_succ_le enough)
  obtain ⟨first,second,rfl,one⟩ := split_rounds (Nat.le_trans (by decide) enough : 1 ≤ rounds.length)
  have free : ∀ b, (s.pc b).biases = false := fun b => Bool.eq_false_iff.mpr fun biases => behind ⟨b,biases⟩
  have next := calm_lasts few (fun s => Entered s ∨ (Calm s ∧ ∃ v, s.pc v = .writeReaders .lock))
    (fun s => (s.pc w).announced = true ∧ ∀ b, (s.pc b).biases = false) (fun _ entered => .inl entered)
    fun s calm stage chosen _ calm' => by
      by_cases behind : ∃ v, ((dispatch access s chosen).pc v).biases = true
      · obtain ⟨v,biases⟩ := behind
        exact .inl (.inr ⟨calm',v,calm'.biases biases⟩)
      · refine .inr ⟨?_,fun b => Bool.eq_false_iff.mpr fun biases => behind ⟨b,biases⟩⟩
        by_cases own : w = chosen.1
        · subst own
          have waits := swap_waits chosen.1 s calm stage.1 stage.2 chosen.2
          exact absurd ⟨chosen.1,by rw [waits]; rfl⟩ behind
        · rw [dispatch,install_other _ _ own]
          exact stage.1
  have last := calm_lasts few Entered (fun s => ∃ v, s.pc v = .writeReaders .lock) (fun _ entered => entered)
    fun s _ stage chosen _ _ => by
      obtain ⟨v,waits⟩ := stage
      exact (waits_next v s waits chosen).imp_right fun waits => ⟨v,waits⟩
  have swaps (s : System n) (calm : Calm s) (stage : (s.pc w).announced = true ∧ ∀ b, (s.pc b).biases = false)
      (call : Call) (blocking : call.blocking = true) : Entered (dispatch access s (w, call)) ∨
      (Calm (dispatch access s (w, call)) ∧ ∃ v, (dispatch access s (w, call)).pc v = .writeReaders .lock) :=
    (calm_next few s calm (w, call) blocking).imp_right fun calm' =>
      ⟨calm',w,swap_waits w s calm stage.1 stage.2 call⟩
  rw [List.flatten_append]
  rcases rank_falls next w (fun _ => 1) (fun s stage call blocking => .inl (swaps s stage.1 stage.2 call blocking))
    first.flatten fair.left.blocking s ⟨calm,announced,free⟩ with meets | ⟨_,low⟩
  · rcases meets.lasts last fair.left.blocking with meets | ⟨calm,v,waits⟩
    · exact meets.append_left _
    · rw [List.length_append] at enough
      exact Meets.append_right _ (waiting_enters few v calm waits fair.right (by omega))
  · have passed := count_rounds fair.left.covers w
    omega

/-- Where nobody is in front, each access of a processor inside brings it nearer. -/
theorem approaches (a : Fin n) (s : System n) (calm : Calm s) (silent : ∀ b, (s.pc b).announced = false)
    (inside : s.pc a ≠ .idle) (call : Call) :
    ((access a call s.shared (s.pc a)).2.holds = true ∨ (access a call s.shared (s.pc a)).2.announced = true) ∨
      ((access a call s.shared (s.pc a)).2 ≠ .idle ∧
        (access a call s.shared (s.pc a)).2.approach ≤ (s.pc a).approach - 1) := by
  have blocking := calm.blocking a
  have outside := calm.outside a
  have magic := calm.owned.1.magic
  have waiting : s.shared.writerWaiting = 0 := calm.owned.writerWaiting_zero_iff.mpr silent
  have free : ¬biased s.shared := fun set => by
    obtain ⟨b,biases⟩ := calm.owned.biased_iff.mp set
    have quiet := silent b
    rw [calm.biases biases] at quiet
    contradiction
  cases pc : s.pc a with
  | readMagic mode =>
    simp only [access,magic,ne_eq,not_true_eq_false,↓reduceIte]
    exact .inr ⟨Pc.noConfusion,Nat.le_refl _⟩
  | readWaiting mode | recheckWaiting mode =>
    simp only [access,waiting,ne_eq,not_true_eq_false,↓reduceIte]
    exact .inr ⟨Pc.noConfusion,Nat.le_refl _⟩
  | readLock mode =>
    simp only [access,if_neg free]
    exact .inr ⟨Pc.noConfusion,Nat.le_refl _⟩
  | recheckLock mode =>
    simp only [access,if_neg free]
    exact .inl (.inl rfl)
  | readCount mode =>
    have nonzero : s.shared.readerCount + 1 ≠ 0 := calm.owned.readerCount_next few (a := a) (by rw [pc]; rfl)
    simp only [access,if_pos nonzero]
    exact .inr ⟨Pc.noConfusion,Nat.le_refl _⟩
  | readUndo mode =>
    cases mode with
    | lock => exact .inr ⟨Pc.noConfusion,Nat.le_refl _⟩
    | trylock => rw [pc] at blocking; contradiction
  | writeMagic mode =>
    cases mode with
    | lock =>
      simp only [access,magic,ne_eq,not_true_eq_false,↓reduceIte]
      exact .inr ⟨Pc.noConfusion,Nat.le_refl _⟩
    | trylock => rw [pc] at blocking; contradiction
  | writeAnnounce => exact .inl (.inr rfl)
  | _ =>
    -- The other places hold the lock, are announced, give up or are outside.
    have near := calm.approach_pos silent inside
    rw [pc] at near
    exact absurd near (Nat.lt_irrefl 0)

/-- Among processors that only read or write with `read_lock` and `write_lock`, eleven rounds in
which each of them moves let somebody in, from any state that has one of them inside a routine. -/
theorem somebody_enters (memory : RwlockT) (before : List (Fin n × Call))
    (blocking : ∀ chosen ∈ before, chosen.2.blocking = true) (a : Fin n) (rounds : List (List (Fin n × Call)))
    (fair : Fair rounds) (eleven : 11 ≤ rounds.length) :
    let s := interleave access before (initial memory)
    s.pc a ≠ .idle → ∃ front, front <+: rounds.flatten ∧ Entered (interleave access front s) := by
  intro s inside
  by_cases entered : Entered s
  · exact meets_now _ entered
  have calm : Calm s := by
    refine ⟨interleave_owned few memory before,fun b => ?_,fun b => Bool.eq_false_iff.mpr fun h => entered ⟨b,h⟩⟩
    have kept := List.foldlRecOn (motive := fun s : System n => ∀ b, (s.pc b).blocking = true) before
      (dispatch access) (fun _ => rfl : ∀ b, ((initial memory).pc b).blocking = true) fun s here chosen mem =>
        install_all (P := fun _ (pc : Pc) => pc.blocking = true)
          (access_blocking chosen.1 chosen.2 s.shared _ (here chosen.1) (blocking chosen mem)) fun a _ => here a
    exact kept b
  by_cases loud : ∃ w, (s.pc w).announced = true
  · obtain ⟨w,announced⟩ := loud
    exact announced_enters few w calm announced fair (Nat.le_trans (by decide) eleven)
  have silent : ∀ b, (s.pc b).announced = false := fun b => Bool.eq_false_iff.mpr fun h => loud ⟨b,h⟩
  obtain ⟨first,second,rfl,six⟩ := split_rounds (Nat.le_trans (by decide) eleven : 6 ≤ rounds.length)
  have next := calm_lasts few (fun s => Entered s ∨ (Calm s ∧ ∃ w, (s.pc w).announced = true))
    (fun s => s.pc a ≠ .idle ∧ ∀ b, (s.pc b).announced = false) (fun _ entered => .inl entered)
    fun s calm stage chosen _ calm' => by
      by_cases loud : ∃ w, ((dispatch access s chosen).pc w).announced = true
      · exact .inl (.inr ⟨calm',loud⟩)
      · refine .inr ⟨?_,fun b => Bool.eq_false_iff.mpr fun h => loud ⟨b,h⟩⟩
        by_cases own : a = chosen.1
        · subst own
          have far := approaches few chosen.1 s calm stage.2 stage.1 chosen.2
          rw [dispatch,install_same]
          rcases far with (holds | announced) | ⟨inside,_⟩
          · have outside := calm'.outside chosen.1
            rw [dispatch,install_same,holds] at outside
            contradiction
          · exact absurd ⟨chosen.1,by rw [dispatch,install_same]; exact announced⟩ loud
          · exact inside
        · rw [dispatch,install_other _ _ own]
          exact stage.1
  have last := calm_lasts few Entered (fun s => ∃ w, (s.pc w).announced = true) (fun _ entered => entered)
    fun s calm stage chosen _ _ => by
      obtain ⟨w,announced⟩ := stage
      exact .inr ⟨w,announced_next w s calm announced chosen⟩
  rw [List.flatten_append]
  have own (s : System n) (stage : Calm s ∧ s.pc a ≠ .idle ∧ ∀ b, (s.pc b).announced = false) (call : Call)
      (blocking : call.blocking = true) :
      (Entered (dispatch access s (a, call)) ∨ (Calm (dispatch access s (a, call)) ∧
        ∃ w, ((dispatch access s (a, call)).pc w).announced = true)) ∨
      (access a call s.shared (s.pc a)).2.approach ≤ (s.pc a).approach - 1 := by
    have moved := install_same s a (access a call s.shared (s.pc a))
    rcases calm_next few s stage.1 (a, call) blocking with entered | calm
    · exact .inl (.inl entered)
    · rcases approaches few a s stage.1 stage.2.2 stage.2.1 call with (holds | announced) | ⟨_,near⟩
      · exact .inl (.inl ⟨a,(congrArg Pc.holds moved).trans holds⟩)
      · exact .inl (.inr ⟨calm,a,(congrArg Pc.announced moved).trans announced⟩)
      · exact .inr near
  rcases rank_falls next a Pc.approach own first.flatten fair.left.blocking s ⟨calm,inside,silent⟩ with
    meets | ⟨stage,low⟩
  · rcases meets.lasts last fair.left.blocking with meets | ⟨calm,w,announced⟩
    · exact meets.append_left _
    · rw [List.length_append] at eleven
      exact Meets.append_right _ (announced_enters few w calm announced fair.right (by omega))
  · have passed := count_rounds fair.left.covers a
    have start := (s.pc a).approach_le
    have near := stage.1.approach_pos stage.2.2 stage.2.1
    omega

end Rounds

theorem somebody_enters_pair :
    let s := interleave access [(0,.write .lock)] (initial ⟨7,7,7,"stale",7⟩ : System 2)
    ∃ front, front <+: (List.replicate 11 [(1,.read .lock),(0,.write .lock)]).flatten ∧
      Entered (interleave access front s) :=
  somebody_enters (by decide) _ _ (by decide) 0 _
    ⟨fun round mem => by rw [List.eq_of_mem_replicate mem]; unfold Covers; decide,by decide⟩ (by decide) (by decide)

def counting (a : Fin 2) : System 2 := interleave access (List.replicate 4 (a,.read .lock)) (initial ⟨7,7,7,"stale",7⟩)

/-- The reader counts itself whenever the writer that gives up has the word, and in this order
both take back what they did. -/
def inStep (a b : Fin 2) : List (Fin 2 × Call) :=
  [a,b,b,b,a,a,b,a,b,a,a].map fun cpu => (cpu,if cpu = a then .read .lock else .write .trylock)

theorem inStep_returns : interleave access (inStep 0 1) (counting 0) = counting 0 := by
  have shared : (interleave access (inStep 0 1) (counting 0)).shared = (counting 0).shared := by decide
  have pc : (interleave access (inStep 0 1) (counting 0)).pc = (counting 0).pc := funext (by decide)
  calc interleave access (inStep 0 1) (counting 0)
      = ⟨(interleave access (inStep 0 1) (counting 0)).shared,(interleave access (inStep 0 1) (counting 0)).pc⟩ := rfl
    _ = counting 0 := by rw [shared,pc]

/-- With a routine that gives up, the rounds can go on forever and nobody gets in. -/
theorem nobody_enters (m : Nat) : Covers (inStep 0 1) ∧
    ¬Meets access (List.replicate m (inStep 0 1)).flatten Entered (counting 0) := by
  have outside : ∀ front ∈ (inStep 0 1).inits, ∀ a, ((interleave access front (counting 0)).pc a).holds = false := by
    decide
  refine ⟨by unfold Covers; decide,?_⟩
  induction m with
  | zero =>
    rintro ⟨front,isFront,a,holds⟩
    rw [List.prefix_nil.mp isFront] at holds
    exact absurd ((outside [] (by decide) a).symm.trans holds) Bool.false_ne_true
  | succ m ih =>
    rw [List.replicate_succ,List.flatten_cons,meets_append_iff,inStep_returns]
    refine fun meets => meets.elim ?_ ih
    rintro ⟨front,isFront,a,holds⟩
    exact absurd ((outside front ((List.mem_inits _ _).mpr isFront) a).symm.trans holds) Bool.false_ne_true

end Kernal.Rwlock
