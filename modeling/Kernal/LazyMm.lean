import Kernal.Runs
import Kernal.Task
import Mathlib.Algebra.BigOperators.Group.Finset.Piecewise

/-! References of kernel threads to a borrowed `mm_struct`. A thread borrows the address
space of the task before it and gives the reference back through `rq->prev_mm` when it
leaves. `sched_fork` takes a reference for a new thread too; the first switch to that
thread overwrites the pointer and the reference is never given back. -/
namespace Kernal.Task

open Runs

structure MmState where
  kernel : Kernel
  tasks : Finset Nat
  switching : Bool

inductive MmOp where
  | fork (p : Nat)
  | switch (next : Nat)
  | finish (prev : Nat)
  deriving DecidableEq, Repr

/-- `schedule` records `next` before it calls `context_switch`. -/
def switchKernel (k : Kernel) (prev next : Nat) : Except NullDeref Kernel :=
  contextSwitch { k with sched := { k.sched with curr := some next } } prev next

inductive MmStep (env : Platform) : MmState → MmOp → MmState → Prop where
  | fork {s : MmState} {p : Nat} {k : Kernel} : p ∉ s.tasks →
      (s.kernel.task p).flags &&& PF_KTHREAD ≠ 0 → schedFork env s.kernel p = .ok k →
      MmStep env s (.fork p) { s with kernel := k, tasks := insert p s.tasks }
  | switch {s : MmState} {prev next : Nat} {k : Kernel} : s.switching = false →
      s.kernel.sched.curr = some prev → next ∈ s.tasks → next ≠ prev →
      switchKernel s.kernel prev next = .ok k →
      MmStep env s (.switch next) { s with kernel := k, switching := true }
  | finish {s : MmState} (prev : Nat) : s.switching = true →
      MmStep env s (.finish prev)
        { s with kernel := finishTaskSwitch env s.kernel prev, switching := false }

def Borrows (t : TaskStruct) (m : Nat) : Prop := t.mm = none ∧ t.activeMm = some m

instance : Decidable (Borrows t m) := inferInstanceAs (Decidable (_ ∧ _))

def MmState.borrowers (s : MmState) (m : Nat) : Nat :=
  (s.tasks.filter fun t => Borrows (s.kernel.task t) m).card

/-- `mm_count` counts the borrowers and the reference on its way back. -/
structure Balanced (base : Nat → BitVec 32) (s : MmState) : Prop where
  count : ∀ m, s.kernel.mmCount m =
    base m + BitVec.ofNat 32 (s.borrowers m + if s.kernel.prevMm = some m then 1 else 0)
  running : ∃ r m, s.kernel.sched.curr = some r ∧ (s.kernel.task r).activeMm = some m

structure MmShape (s : MmState) : Prop where
  user : ∀ t ∈ s.tasks, ∀ m, (s.kernel.task t).mm = some m → (s.kernel.task t).activeMm = some m
  member : ∀ r, s.kernel.sched.curr = some r → r ∈ s.tasks

/-- No switch overwrites a reference. It does not go to a kernel thread that still has the
`active_mm` of its fork, nor leave a kernel thread while `rq->prev_mm` is set. The second
can only fail in the first switch of a run that starts so. -/
def NoStaleMm (s : MmState) : MmOp → Prop
  | .switch next => ((s.kernel.task next).mm = none → (s.kernel.task next).activeMm = none) ∧
    ∀ prev, s.kernel.sched.curr = some prev → (s.kernel.task prev).mm = none → s.kernel.prevMm = none
  | _ => True

abbrev MmRun (env : Platform) (base : Nat → BitVec 32) :=
  Run (fun s => MmShape s ∧ Balanced base s) (MmStep env)

/-- What `sched_fork` does to the address spaces for a kernel thread. -/
theorem schedFork_thread {k k' : Kernel} (thread : (k.task p).flags &&& PF_KTHREAD ≠ 0)
    (forked : schedFork env k p = .ok k') :
    (∀ t, t ≠ p → k'.task t = k.task t) ∧ (k'.task p).mm = none ∧ k'.prevMm = k.prevMm ∧
    k'.sched.curr = k.sched.curr ∧
    ∀ m, k'.mmCount m = k.mmCount m + if (k'.task p).activeMm = some m then 1 else 0 := by
  unfold schedFork at forked
  split at forked
  · cases forked
  next c here =>
    simp only [Kernel.setTask,Kernel.setEntity,Function.update_self,thread,ne_eq,not_false_eq_true,if_true,
      Except.ok.injEq] at forked
    cases borrowed : (k.task c).activeMm with
    | none =>
      simp only [borrowed] at forked
      subst forked
      exact ⟨fun t other => by simp [other],by simp,rfl,rfl,by simp⟩
    | some mm =>
      simp only [borrowed] at forked
      subst forked
      refine ⟨fun t other => by simp [other],by simp,rfl,rfl,fun m => ?_⟩
      by_cases same : mm = m
      · simp [same]
      · simp [same,Ne.symm same]

/-- The reference on its way back is dropped, whichever task is finished. -/
theorem finishTaskSwitch_mm (env : Platform) (k : Kernel) (prev : Nat) :
    let k' := finishTaskSwitch env k prev
    (∀ t, (k'.task t).mm = (k.task t).mm ∧ (k'.task t).activeMm = (k.task t).activeMm) ∧
    k'.prevMm = none ∧ k'.sched = k.sched ∧
    ∀ m, k'.mmCount m + (if k.prevMm = some m then 1 else 0) = k.mmCount m := by
  have put (k : Kernel) : let k' := putTaskStruct k prev
      (∀ t, (k'.task t).mm = (k.task t).mm ∧ (k'.task t).activeMm = (k.task t).activeMm) ∧
      k'.prevMm = k.prevMm ∧ k'.sched = k.sched ∧ k'.mmCount = k.mmCount := by
    have dropped := putTaskStruct_dropped k prev
    refine ⟨fun t => ⟨?_,?_⟩,dropped.prevMm,dropped.sched,dropped.mmCount⟩
    · exact dropped.field TaskStruct.mm (fun _ _ => rfl) t
    · exact dropped.field TaskStruct.activeMm (fun _ _ => rfl) t
  dsimp only [finishTaskSwitch]
  cases kept : k.prevMm with
  | none =>
    split
    · obtain ⟨tasks,mm,sched,count⟩ := put { k with prevMm := none }
      exact ⟨tasks,mm,sched,fun m => by simp [count]⟩
    · simp
  | some old =>
    have dropped (m : Nat) : Function.update k.mmCount old (k.mmCount old - 1) m +
        (if some old = some m then 1 else 0) = k.mmCount m := by
      by_cases same : m = old
      · subst same
        rw [Function.update_self,if_pos rfl]
        exact BitVec.sub_add_cancel ..
      · simp [same,Ne.symm same]
    split
    · obtain ⟨tasks,mm,sched,count⟩ :=
        put { k with prevMm := none, mmCount := Function.update k.mmCount old (k.mmCount old - 1) }
      exact ⟨tasks,mm,sched,fun m => by rw [count]; exact dropped m⟩
    · exact ⟨fun _ => ⟨rfl,rfl⟩,rfl,rfl,dropped⟩

def owes (t : TaskStruct) (m : Nat) : Nat := if Borrows t m then 1 else 0

theorem MmState.borrowers_eq_sum (s : MmState) (m : Nat) :
    s.borrowers m = ∑ t ∈ s.tasks, owes (s.kernel.task t) m := Finset.card_filter _ _

/-- The borrowers after a change of two tasks. -/
theorem borrowers_two (s s' : MmState) (tasks : s'.tasks = s.tasks) (left : prev ∈ s.tasks)
    (taken : next ∈ s.tasks) (other : next ≠ prev)
    (others : ∀ t, t ≠ prev → t ≠ next → s'.kernel.task t = s.kernel.task t) (m : Nat) :
    s'.borrowers m + (owes (s.kernel.task prev) m + owes (s.kernel.task next) m) =
    s.borrowers m + (owes (s'.kernel.task prev) m + owes (s'.kernel.task next) m) := by
  have still : next ∈ s.tasks.erase prev := Finset.mem_erase.2 ⟨other,taken⟩
  have rest : ∑ t ∈ (s.tasks.erase prev).erase next, owes (s'.kernel.task t) m =
      ∑ t ∈ (s.tasks.erase prev).erase next, owes (s.kernel.task t) m := by
    refine Finset.sum_congr rfl fun t inside => ?_
    simp only [Finset.mem_erase] at inside
    rw [others t inside.2.1 inside.1]
  rw [s.borrowers_eq_sum,s'.borrowers_eq_sum,tasks,← Finset.add_sum_erase _ _ left,
    ← Finset.add_sum_erase _ _ still,← Finset.add_sum_erase s.tasks _ left,
    ← Finset.add_sum_erase (s.tasks.erase prev) _ still,rest]
  omega

/-- The references to `m` that a switch from `prev` to `next` overwrites. -/
def overwritten (k : Kernel) (prev next m : Nat) : Nat :=
  owes (k.task next) m + if (k.task prev).mm = none ∧ k.prevMm = some m then 1 else 0

/-- After a switch the count is too high by the references it has overwritten. -/
theorem switch_surplus (balanced : Balanced base s) (left : prev ∈ s.tasks) (taken : next ∈ s.tasks)
    (other : next ≠ prev) (switched : Switched s.kernel k prev next) (m : Nat) :
    let s' : MmState := { s with kernel := k, switching := true }
    k.mmCount m = base m + BitVec.ofNat 32 (s'.borrowers m + if k.prevMm = some m then 1 else 0) +
      BitVec.ofNat 32 (overwritten s.kernel prev next m) := by
  intro s'
  have moved := borrowers_two s s' rfl left taken other switched.others m
  have away : owes (s'.kernel.task prev) m = 0 := by
    by_cases kernel : (s.kernel.task prev).mm = none <;>
      simp [s',owes,Borrows,switched.mm,switched.given,kernel]
  have back : (if k.prevMm = some m then 1 else 0) +
      (if (s.kernel.task prev).mm = none ∧ s.kernel.prevMm = some m then 1 else 0) =
      owes (s.kernel.task prev) m + if s.kernel.prevMm = some m then 1 else 0 := by
    by_cases kernel : (s.kernel.task prev).mm = none <;>
      simp [owes,Borrows,switched.prevMm,kernel]
  have lent : (if (s.kernel.task next).mm = none ∧ (s.kernel.task prev).activeMm = some m then 1
      else 0) = BitVec.ofNat 32 (owes (s'.kernel.task next) m) := by
    by_cases kernel : (s.kernel.task next).mm = none
    · simp only [s',owes,Borrows,switched.mm,switched.borrowed,kernel]
      split <;> simp_all
    · simp [s',owes,Borrows,switched.mm,kernel]
  have total : s'.borrowers m + (if k.prevMm = some m then 1 else 0) + overwritten s.kernel prev next m =
      s.borrowers m + (if s.kernel.prevMm = some m then 1 else 0) + owes (s'.kernel.task next) m := by
    simp only [overwritten]
    omega
  rw [switched.count,balanced.count,lent,BitVec.add_assoc,BitVec.add_assoc,← BitVec.ofNat_add,
    ← BitVec.ofNat_add,total]

theorem overwritten_eq_zero (left : s.kernel.sched.curr = some prev) :
    (∀ m, overwritten s.kernel prev next m = 0) ↔ NoStaleMm s (.switch next) := by
  have clear (m : Nat) : owes (s.kernel.task next) m = 0 ↔ ¬Borrows (s.kernel.task next) m := by simp [owes]
  simp only [overwritten,NoStaleMm,left,Nat.add_eq_zero_iff,forall_and,clear,Borrows]
  refine and_congr ?_ ?_
  · cases (s.kernel.task next).activeMm <;> simp
  · cases s.kernel.prevMm <;> simp

theorem borrowers_insert {s : MmState} {k : Kernel} (fresh : p ∉ s.tasks)
    (others : ∀ t, t ≠ p → k.task t = s.kernel.task t) (m : Nat) :
    ({ s with kernel := k, tasks := insert p s.tasks } : MmState).borrowers m =
      owes (k.task p) m + s.borrowers m := by
  rw [s.borrowers_eq_sum,MmState.borrowers_eq_sum,Finset.sum_insert fresh]
  congr 1
  refine Finset.sum_congr rfl fun t inside => ?_
  rw [others t (ne_of_mem_of_not_mem inside fresh)]

theorem fork_balanced (thread : (s.kernel.task p).flags &&& PF_KTHREAD ≠ 0) (fresh : p ∉ s.tasks)
    (forked : schedFork env s.kernel p = .ok k) (shape : MmShape s) (balanced : Balanced base s) :
    Balanced base { s with kernel := k, tasks := insert p s.tasks } := by
  obtain ⟨others,none,prevMm,curr,count⟩ := schedFork_thread thread forked
  constructor
  case count =>
    intro m
    have taken : (if (k.task p).activeMm = some m then 1 else 0) =
        BitVec.ofNat 32 (owes (k.task p) m) := by
      simp only [owes,Borrows,none,true_and]
      split <;> rfl
    rw [borrowers_insert fresh others,count,balanced.count,taken,BitVec.add_assoc,← BitVec.ofNat_add,prevMm]
    congr 2
    omega
  case running =>
    obtain ⟨r,m,runs,active⟩ := balanced.running
    have other : r ≠ p := ne_of_mem_of_not_mem (shape.member r runs) fresh
    exact ⟨r,m,curr ▸ runs,by rw [← active,← others r other]⟩

theorem finish_balanced (balanced : Balanced base s) (prev : Nat) :
    Balanced base { s with kernel := finishTaskSwitch env s.kernel prev, switching := false } := by
  obtain ⟨tasks,prevMm,sched,count⟩ := finishTaskSwitch_mm env s.kernel prev
  constructor
  case count =>
    intro m
    have same : ({ s with kernel := finishTaskSwitch env s.kernel prev, switching := false } :
        MmState).borrowers m = s.borrowers m := by
      rw [MmState.borrowers_eq_sum,MmState.borrowers_eq_sum]
      refine Finset.sum_congr rfl fun t _ => ?_
      exact if_congr (by simp [Borrows,tasks t]) rfl rfl
    have before := count m
    rw [balanced.count,BitVec.ofNat_add,← BitVec.add_assoc] at before
    rw [same,prevMm]
    split at before
    · simpa using before
    · simpa using before
  case running =>
    obtain ⟨r,m,runs,active⟩ := balanced.running
    exact ⟨r,m,by rw [sched,runs],by rw [(tasks r).2,active]⟩

theorem switch_balanced_iff (shape : MmShape s) (balanced : Balanced base s)
    (left : s.kernel.sched.curr = some prev) (taken : next ∈ s.tasks) (other : next ≠ prev)
    (switched : Switched s.kernel k prev next) :
    Balanced base { s with kernel := k, switching := true } ↔ NoStaleMm s (.switch next) := by
  have surplus := switch_surplus balanced (shape.member prev left) taken other switched
  rw [← overwritten_eq_zero left]
  constructor
  · intro after m
    -- So few references cannot make the count come round.
    have few : overwritten s.kernel prev next m ≤ 2 := by
      simp only [overwritten,owes]
      split <;> split <;> omega
    have excess := surplus m
    rw [after.count m] at excess
    bv_omega
  · intro clean
    constructor
    case count =>
      intro m
      have exact := surplus m
      rw [clean m] at exact
      simpa using exact
    case running =>
      obtain ⟨r,m,runs,active⟩ := balanced.running
      cases Option.some.inj (left.symm.trans runs)
      cases kind : (s.kernel.task next).mm with
      | none => exact ⟨next,m,switched.curr,by simp [switched.borrowed,kind,active]⟩
      | some own => exact ⟨next,own,switched.curr,by simp [switched.borrowed,kind,shape.user next taken]⟩

theorem mmStep_balanced_iff (shape : MmShape s) (balanced : Balanced base s) (taken : MmStep env s op s') :
    Balanced base s' ↔ NoStaleMm s op := by
  cases taken with
  | fork fresh thread forked => exact iff_of_true (fork_balanced thread fresh forked shape balanced) trivial
  | switch _ left inside other switched =>
    exact switch_balanced_iff shape balanced left inside other (contextSwitch_switched other switched)
  | finish prev _ => exact iff_of_true (finish_balanced balanced prev) trivial

theorem mmStep_shape (shape : MmShape s) (taken : MmStep env s op s') : MmShape s' := by
  cases taken with
  | @fork p k fresh thread forked =>
    obtain ⟨others,none,-,curr,-⟩ := schedFork_thread thread forked
    constructor
    case user =>
      intro t inside m own
      by_cases same : t = p
      · simp [same,none] at own
      · have old : t ∈ s.tasks := by simpa [same] using inside
        simp only [others t same] at own ⊢
        exact shape.user t old m own
    case member =>
      intro r runs
      exact Finset.mem_insert_of_mem (shape.member r (curr ▸ runs))
  | @switch prev next k _ _ inside other switched =>
    have moved := contextSwitch_switched other switched
    constructor
    case user =>
      intro t known m own
      have before := shape.user t known m (by rw [← moved.mm t]; exact own)
      have kind : (s.kernel.task t).mm = some m := by rw [← moved.mm t]; exact own
      by_cases gone : t = prev
      · subst gone
        simp [moved.given,kind,before]
      · by_cases next : t = next
        · subst next
          simp [moved.borrowed,kind,before]
        · simp [moved.others t gone next,before]
    case member =>
      intro r runs
      cases Option.some.inj (moved.curr.symm.trans runs)
      exact inside
  | finish prev _ =>
    obtain ⟨tasks,-,sched,-⟩ := finishTaskSwitch_mm env s.kernel prev
    constructor
    case user =>
      intro t known m own
      simp only [tasks t] at own ⊢
      exact shape.user t known m own
    case member => exact fun r runs => shape.member r (by rw [← sched]; exact runs)

/-- The references balance along exactly the runs in which no switch overwrites one. -/
theorem mm_balanced_iff (env : Platform) (base : Nat → BitVec 32) (run : MmRun env base past s) :
    Always (Balanced base) past s ↔ Throughout NoStaleMm past :=
  Run.always_iff (I := MmShape) (fun _ first => first) (fun _ _ _ => mmStep_shape)
    (fun _ _ _ => mmStep_balanced_iff) run

/-- Task 1 is a user task with the address space 0 and runs, task 3 is a kernel thread that
has run before, and task 2 is a thread that is not forked yet. -/
def userRuns : MmState where
  kernel :=
    { bootKernel with
      task := fun t =>
        if t = 1 then { zeroTask with mm := some 0, activeMm := some 0 }
        else { zeroTask with flags := PF_KTHREAD }
      currentTask := some 1
      sched := { bootKernel.sched with curr := some 1 } }
  tasks := {1, 3}
  switching := false

theorem userRuns_start : MmShape userRuns ∧ Balanced (fun _ => 0) userRuns := by
  refine ⟨⟨?_,?_⟩,⟨?_,1,0,rfl,rfl⟩⟩
  · intro t inside m own
    by_cases user : t = 1
    · subst user
      exact own
    · simp [userRuns,user,zeroTask] at own
  · intro r runs
    cases runs
    decide
  · intro m
    have nobody : userRuns.borrowers m = 0 := by
      rw [MmState.borrowers_eq_sum]
      exact Finset.sum_pair (by decide)
    rw [nobody]
    rfl

def threadForked : MmState :=
  { userRuns with
    kernel := (schedFork basePlatform userRuns.kernel 2).toOption.getD userRuns.kernel
    tasks := insert 2 userRuns.tasks }

def threadRuns (next : Nat) : MmState :=
  { threadForked with
    kernel := (switchKernel threadForked.kernel 1 next).toOption.getD threadForked.kernel
    switching := true }

theorem threadForked_run :
    MmRun basePlatform (fun _ => 0) ([] ++ [(userRuns, .fork 2)]) threadForked :=
  .next (.start userRuns_start) (.fork (by decide) (by decide) rfl)

theorem mm_balanced_iff_old_thread : Balanced (fun _ => 0) (threadRuns 3) := by
  have run : MmRun basePlatform (fun _ => 0) ([] ++ [(userRuns, .fork 2)] ++ [(threadForked, .switch 3)])
      (threadRuns 3) :=
    threadForked_run.next (.switch rfl rfl (by decide) (by decide) rfl)
  have clean : Throughout NoStaleMm ([] ++ [(userRuns, .fork 2)] ++ [(threadForked, .switch 3)]) := by
    intro e member
    simp only [List.nil_append,List.cons_append,List.mem_cons,List.not_mem_nil,or_false] at member
    obtain rfl | rfl := member
    · trivial
    · exact ⟨fun _ => rfl,fun _ _ _ => rfl⟩
  exact ((mm_balanced_iff _ _ run).2 clean).2

/-- The first switch to task 2 takes a second reference for it. -/
theorem first_switch_leaks : (∃ past, MmRun basePlatform (fun _ => 0) past (threadRuns 2)) ∧
    (threadRuns 2).kernel.mmCount 0 = 2 ∧ (threadRuns 2).borrowers 0 = 1 ∧
    (threadRuns 2).kernel.prevMm = none ∧ ¬Balanced (fun _ => 0) (threadRuns 2) := by
  have run := threadForked_run.next (.switch rfl rfl (by decide) (by decide) rfl :
    MmStep basePlatform threadForked (.switch 2) (threadRuns 2))
  have count : (threadRuns 2).kernel.mmCount 0 = 2 := rfl
  have one : (threadRuns 2).borrowers 0 = 1 := rfl
  refine ⟨⟨_,run⟩,count,one,rfl,fun balanced => ?_⟩
  have expected := balanced.count 0
  rw [count,one] at expected
  exact absurd expected (by decide)

end Kernal.Task
