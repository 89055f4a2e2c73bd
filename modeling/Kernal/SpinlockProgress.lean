import Kernal.Spinlock

/-! When the spinlock of `spinlock.h` can be had. Its word is set for as long as somebody holds
it and no longer, so a processor that runs alone gets the lock unless another one has it; and
`spin_trylock` and `spin_unlock` never wait for anybody. -/
namespace Kernal.Spinlock

open Interleaving

section

variable {Cpu : Type} [DecidableEq Cpu] (id : Cpu → BitVec 32)

omit [DecidableEq Cpu] in
/-- Who sets the word holds the lock, and who gives the lock up clears it. -/
theorem access_word (cpu : Cpu) (call : Call) (l : SpinlockT) (pc : Pc)
    (running : ∀ format, (access id cpu call l pc).2 ≠ .panicked format) :
    ((access id cpu call l pc).1.lock = l.lock ∧
      (pc.holds = true → (access id cpu call l pc).2.holds = true)) ∨
    (access id cpu call l pc).2.holds = true ∨ (access id cpu call l pc).1.lock = SPINLOCK_UNLOCKED := by
  cases pc with
  | release => exact .inr (.inr rfl)
  | swap entry =>
    simp only [access]
    split
    · exact .inr (.inl rfl)
    · refine .inl ⟨?_,fun holds => absurd holds Bool.false_ne_true⟩
      cases entry <;> rfl
  | unlockMagic | unlockOwner =>
    simp only [access] at running ⊢
    split
    next bad => simp [bad] at running
    next good => exact .inl ⟨rfl,fun _ => rfl⟩
  | checkMagic entry | checkRecursive entry | spin =>
    refine .inl ⟨?_,fun holds => absurd holds Bool.false_ne_true⟩
    simp only [access]
    split <;> rfl
  | idle | panicked format => exact .inl ⟨rfl,fun holds => absurd holds Bool.false_ne_true⟩
  | setOwnerCpu | setOwner | held | clearOwnerCpu | clearOwner => exact .inl ⟨rfl,fun _ => rfl⟩

variable (distinct : Function.Injective id) (reserved : ∀ cpu, id cpu ≠ NO_CPU)
include distinct reserved

/-- The word is set only while a processor holds the lock. -/
theorem interleave_owned (memory : SpinlockT) (schedule : List (Cpu × Call)) :
    let s := interleave (access id) schedule (initial memory)
    Invariant id s ∧ (s.shared.lock = SPINLOCK_UNLOCKED ∨ ∃ a, (s.pc a).holds = true) := by
  refine interleave_preserves (access id)
    (fun s => Invariant id s ∧ (s.shared.lock = SPINLOCK_UNLOCKED ∨ ∃ a, (s.pc a).holds = true))
    (fun s valid chosen => ?_) _ ⟨initial_invariant id memory reserved,.inl rfl⟩ schedule
  obtain ⟨valid,owned⟩ := valid
  have next := dispatch_invariant id distinct reserved s valid chosen
  refine ⟨next,?_⟩
  have running := next.running chosen.1
  rw [dispatch,install_same] at running
  rcases access_word id chosen.1 chosen.2 s.shared (s.pc chosen.1) running with ⟨same,kept⟩ | taken | free
  · rcases owned with free | ⟨a,holds⟩
    · exact .inl (same.trans free)
    · refine .inr ⟨a,?_⟩
      by_cases own : a = chosen.1
      · subst own
        rw [dispatch,install_same]
        exact kept holds
      · rw [dispatch,install_other _ _ own]
        exact holds
  · refine .inr ⟨chosen.1,?_⟩
    rw [dispatch,install_same]
    exact taken
  · exact .inl free

theorem lock_free_iff (memory : SpinlockT) (schedule : List (Cpu × Call)) :
    let s := interleave (access id) schedule (initial memory)
    s.shared.lock = SPINLOCK_UNLOCKED ↔ ∀ a, (s.pc a).holds = false := by
  intro s
  obtain ⟨valid,owned⟩ := interleave_owned id distinct reserved memory schedule
  constructor
  · intro free a
    refine Bool.eq_false_iff.mpr fun holds => ?_
    have locked := valid.locked a holds
    rw [free] at locked
    exact absurd locked (by decide)
  · intro nobody
    refine owned.resolve_right ?_
    rintro ⟨a,holds⟩
    exact absurd ((nobody a).symm.trans holds) Bool.false_ne_true

/-- A processor that enters the lock and runs alone has it after four accesses, unless another
one holds it; then it never gets it. -/
theorem alone_acquires_iff (memory : SpinlockT) (schedule : List (Cpu × Call)) (a : Cpu) (call : Call)
    (idle : ((interleave (access id) schedule (initial memory)).pc a) = .idle) (n : Nat) (enough : 4 ≤ n) :
    let s := interleave (access id) schedule (initial memory)
    (∃ k ≤ n, ((interleave (access id) (List.replicate k (a, call)) s).pc a).holds = true) ↔
      ∀ b, b ≠ a → (s.pc b).holds = false := by
  intro s
  constructor
  · rintro ⟨k,_,mine⟩ b other
    refine Bool.eq_false_iff.mpr fun theirs => other ?_
    have valid := interleave_invariant id distinct reserved memory (schedule ++ List.replicate k (a, call))
    rw [interleave_append] at valid
    refine valid.exclusive b a ?_ mine
    have kept := interleave_alone (access id) a (List.replicate k call) s
    rw [List.map_replicate] at kept
    rw [kept,install_other _ _ other]
    exact theirs
  · intro nobody
    have valid := interleave_invariant id distinct reserved memory schedule
    have free : s.shared.lock = SPINLOCK_UNLOCKED := by
      refine (lock_free_iff id distinct reserved memory schedule).mpr fun b => ?_
      by_cases own : b = a
      · subst own
        rw [idle]
        rfl
      · exact nobody b own
    have foreign : s.shared.ownerCpu ≠ id a := by
      intro mine
      have recorded := (valid.owner a).mp mine
      rw [idle] at recorded
      exact absurd recorded Bool.false_ne_true
    refine ⟨4,enough,?_⟩
    have run := interleave_alone (access id) a (List.replicate 4 call) s
    rw [List.map_replicate] at run
    rw [run,install_same]
    have magic : s.shared.magic = SPINLOCK_MAGIC := valid.magic
    have here : s.pc a = .idle := idle
    simp [alone,access,here,magic,foreign,free,Pc.holds]

end

theorem alone_acquires_iff_pair :
    let s := interleave (access fun cpu : Fin 2 => BitVec.ofNat 32 cpu.val) (contended 0 0) (initial ⟨7,7,7,"stale",7⟩)
    (∃ k ≤ 9, ((interleave (access fun cpu : Fin 2 => BitVec.ofNat 32 cpu.val)
      (List.replicate k (1,⟨.spinLock,0⟩)) s).pc 1).holds = true) ↔ ∀ b, b ≠ 1 → (s.pc b).holds = false :=
  alone_acquires_iff _ (by decide) (by decide) _ _ _ _ (by decide) 9 (by decide)

/-- How many accesses `spin_trylock` and `spin_unlock` have left at most, or `spin_lock` once it
has the word. -/
def Pc.accessesLeft : Pc → Nat
  | .checkMagic .spinTrylock | .unlockMagic => 5
  | .checkRecursive .spinTrylock | .unlockOwner => 4
  | .swap .spinTrylock | .clearOwnerCpu => 3
  | .setOwnerCpu | .clearOwner => 2
  | .setOwner | .release => 1
  | _ => 0

def Pc.Returned (pc : Pc) : Prop := pc = .idle ∨ pc = .held ∨ ∃ format, pc = .panicked format

section

variable {Cpu : Type} [DecidableEq Cpu] (id : Cpu → BitVec 32)

omit [DecidableEq Cpu] in
theorem access_nearer (cpu : Cpu) (call : Call) (l : SpinlockT) (pc : Pc) (left : 0 < pc.accessesLeft) :
    let next := (access id cpu call l pc).2
    (0 < next.accessesLeft ∨ next.Returned) ∧ next.accessesLeft < pc.accessesLeft := by
  cases pc with
  | checkMagic entry | checkRecursive entry =>
    cases entry with
    | spinLock => exact absurd left (Nat.lt_irrefl 0)
    | spinTrylock =>
      simp only [access]
      split <;> simp [Pc.accessesLeft,Pc.Returned]
  | swap entry =>
    cases entry with
    | spinLock => exact absurd left (Nat.lt_irrefl 0)
    | spinTrylock =>
      simp only [access]
      split <;> simp [Pc.accessesLeft,Pc.Returned]
  | unlockMagic | unlockOwner =>
    simp only [access]
    split <;> simp [Pc.accessesLeft,Pc.Returned]
  | setOwnerCpu | setOwner | clearOwnerCpu | clearOwner | release =>
    simp [access,Pc.accessesLeft,Pc.Returned]
  | idle | spin | held | panicked format => exact absurd left (Nat.lt_irrefl 0)

/-- `spin_trylock` and `spin_unlock` are over after five accesses of their own, whatever the
other processors do in between and whatever they hold. -/
theorem trylock_unlock_return (distinct : Function.Injective id) (reserved : ∀ cpu, id cpu ≠ NO_CPU)
    (memory : SpinlockT) (before : List (Cpu × Call)) (a : Cpu) :
    let s := interleave (access id) before (initial memory)
    0 < (s.pc a).accessesLeft → ∀ schedule : List (Cpu × Call),
      (s.pc a).accessesLeft ≤ schedule.countP (·.1 = a) → ∃ front, front <+: schedule ∧
        ((interleave (access id) front s).pc a = .idle ∨ (interleave (access id) front s).pc a = .held) := by
  intro s inside schedule enough
  obtain ⟨front,isFront,idle | held | ⟨format,panicked⟩⟩ := done_within (access id) a
    (fun pc => 0 < pc.accessesLeft ∨ pc.Returned) Pc.Returned Pc.accessesLeft
    (fun pc here zero => here.resolve_left (by omega))
    (fun l pc call here going => access_nearer id a call l pc (here.resolve_right going))
    schedule s (.inl inside) enough
  · exact ⟨front,isFront,.inl idle⟩
  · exact ⟨front,isFront,.inr held⟩
  · have valid := interleave_invariant id distinct reserved memory (before ++ front)
    rw [interleave_append] at valid
    exact absurd panicked (valid.running a format)

end

def trying (a b : Fin 2) : List (Fin 2 × Call) :=
  [(a,⟨.spinLock,0⟩),(a,⟨.spinLock,0⟩),(a,⟨.spinLock,0⟩),(a,⟨.spinLock,0⟩),(b,⟨.spinTrylock,0⟩)]

theorem trylock_unlock_return_pair :
    let s := interleave (access fun cpu : Fin 2 => BitVec.ofNat 32 cpu.val) (trying 0 1) (initial ⟨7,7,7,"stale",7⟩)
    ∃ front, front <+: List.replicate 5 (1,⟨.spinTrylock,0⟩) ∧
      ((interleave (access fun cpu : Fin 2 => BitVec.ofNat 32 cpu.val) front s).pc 1 = .idle ∨
        (interleave (access fun cpu : Fin 2 => BitVec.ofNat 32 cpu.val) front s).pc 1 = .held) :=
  trylock_unlock_return _ (by decide) (by decide) _ _ 1 (by decide) _ (by decide)

end Kernal.Spinlock
