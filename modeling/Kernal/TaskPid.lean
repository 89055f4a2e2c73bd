import Kernal.TaskStack

/-! Process numbers. `alloc_pid` counts up and starts again at 1 behind the last number,
whoever still has it. A task keeps its number to itself as long as no later task draws
exactly a multiple of `PID_MAX - 1` numbers after it. -/
namespace Kernal.Task

open Runs

/-- The kernel with the count of numbers drawn so far and, for each task, the count at
which it drew its own. -/
structure Numbered where
  kernel : Kernel
  drawn : Nat
  serial : Nat → Nat

/-- A copy draws two numbers and keeps the second. -/
def Numbered.after (s : Numbered) (kernel : Kernel) : LifeOp → Numbered
  | .alloc (some t) (some _) => ⟨kernel, s.drawn + 1, Function.update s.serial t s.drawn⟩
  | .dup _ (some t) (some _) _ => ⟨kernel, s.drawn + 2, Function.update s.serial t (s.drawn + 1)⟩
  | _ => { s with kernel }

inductive NumberedStep (env : Platform) : Numbered → LifeOp → Numbered → Prop where
  | mk {s : Numbered} {op : LifeOp} {k : Kernel} : LifeStep env s.kernel op k →
      NumberedStep env s op (s.after k op)

abbrev NumberedRun (env : Platform) :=
  Run (fun s : Numbered => NoTasks s.kernel ∧ s.drawn = 0) (NumberedStep env)

structure DistinctPids (k : Kernel) : Prop where
  apart : ∀ t u, k.Live t → k.Live u → (k.task t).pid = (k.task u).pid → t = u
  range : ∀ t, k.Live t → 1 ≤ (k.task t).pid ∧ (k.task t).pid < PID_MAX

/-- No live task is a multiple of `PID_MAX - 1` numbers older than number `drawn`. -/
def Unused (s : Numbered) (drawn : Nat) : Prop :=
  ∀ u, s.kernel.Live u → (drawn - s.serial u) % (PID_MAX - 1) ≠ 0

def NoReuse (s : Numbered) : LifeOp → Prop
  | .alloc (some _) (some _) => Unused s s.drawn
  | .dup _ (some _) (some _) _ => Unused s (s.drawn + 1)
  | _ => True

def pidAt (drawn : Nat) : Nat := drawn % (PID_MAX - 1) + 1

structure Counting (s : Numbered) : Prop where
  next : s.kernel.nextPid = pidAt s.drawn
  pid : ∀ t, s.kernel.Live t → (s.kernel.task t).pid = pidAt (s.serial t)
  older : ∀ t, s.kernel.Live t → s.serial t < s.drawn

theorem pidAt_range (drawn : Nat) : 1 ≤ pidAt drawn ∧ pidAt drawn < PID_MAX := by
  simp only [pidAt,PID_MAX]
  omega

theorem pidAt_eq_iff (older : first ≤ second) :
    pidAt first = pidAt second ↔ (second - first) % (PID_MAX - 1) = 0 := by
  simp only [pidAt,PID_MAX]
  omega

theorem allocPid_next (next : k.nextPid = pidAt drawn) :
    (allocPid k).1 = pidAt drawn ∧ (allocPid k).2.nextPid = pidAt (drawn + 1) := by
  refine ⟨next,?_⟩
  simp only [allocPid,next,pidAt,PID_MAX]
  split <;> omega

/-- One more live task keeps the numbers apart when nobody has its number. -/
theorem DistinctPids.add_iff {k k' : Kernel} (distinct : DistinctPids k)
    (live : ∀ u, k'.Live u ↔ u = t ∨ k.Live u) (dead : ¬k.Live t)
    (same : ∀ u, u ≠ t → (k'.task u).pid = (k.task u).pid)
    (range : 1 ≤ (k'.task t).pid ∧ (k'.task t).pid < PID_MAX) :
    DistinctPids k' ↔ ∀ u, k.Live u → (k.task u).pid ≠ (k'.task t).pid := by
  have other {u : Nat} (liveU : k.Live u) : u ≠ t := by
    rintro rfl
    exact dead liveU
  constructor
  · intro distinct' u liveU eq
    rw [← same u (other liveU)] at eq
    exact other liveU (distinct'.apart u t ((live u).mpr (.inr liveU)) ((live t).mpr (.inl rfl)) eq)
  · intro unused
    refine ⟨fun u v liveU liveV eq => ?_,fun u liveU => ?_⟩
    · rcases (live u).mp liveU with rfl | liveU <;> rcases (live v).mp liveV with rfl | liveV
      · rfl
      · rw [same v (other liveV)] at eq
        exact absurd eq.symm (unused v liveV)
      · rw [same u (other liveU)] at eq
        exact absurd eq (unused u liveU)
      · rw [same u (other liveU),same v (other liveV)] at eq
        exact distinct.apart u v liveU liveV eq
    · rcases (live u).mp liveU with rfl | liveU
      · exact range
      · rw [same u (other liveU)]
        exact distinct.range u liveU

structure Quiet (k k' : Kernel) : Prop where
  live : ∀ t, k'.Live t → k.Live t
  pid : ∀ t, (k'.task t).pid = (k.task t).pid
  nextPid : k'.nextPid = k.nextPid

theorem Untouched.quiet (same : Untouched k k') : Quiet k k' where
  live t := by simp [Kernel.Live,same.heap]
  pid t := by rw [same.task]
  nextPid := same.nextPid

theorem get_quiet (k : Kernel) (tsk : Nat) : Quiet k (getTaskStruct k tsk) where
  live _ live := live
  pid := k.setTask_field TaskStruct.pid rfl
  nextPid := rfl

theorem put_quiet (k : Kernel) (tsk : Nat) : Quiet k (putTaskStruct k tsk) := by
  have dropped := putTaskStruct_dropped k tsk
  refine ⟨fun t live => ?_,dropped.field TaskStruct.pid fun _ _ => rfl,dropped.nextPid⟩
  dsimp only [putTaskStruct] at live
  split at live
  · simp only [Kernel.Live,freeTaskStruct] at live ⊢
    split at live <;> simp only [Kernel.kfree,Function.update_apply,Kernel.setTask] at live <;> grind
  · exact live

/-- A step that makes task `t` and gives it the number drawn at count `drawn`. -/
structure Draws (s s' : Numbered) (t drawn : Nat) : Prop where
  live : ∀ u, s'.kernel.Live u ↔ u = t ∨ s.kernel.Live u
  dead : ¬s.kernel.Live t
  same : ∀ u, u ≠ t → (s'.kernel.task u).pid = (s.kernel.task u).pid
  later : s.drawn ≤ drawn
  pid : (s'.kernel.task t).pid = pidAt drawn
  next : s'.kernel.nextPid = pidAt (drawn + 1)
  count : s'.drawn = drawn + 1
  serial : s'.serial = Function.update s.serial t drawn

theorem alloc_draws (env : Platform) (next : s.kernel.nextPid = pidAt s.drawn)
    (fresh : Fresh s.kernel (some t) (some b)) :
    Draws s (s.after (allocTaskStruct env s.kernel (some t) (some b)).2 (.alloc (some t) (some b))) t s.drawn := by
  have made := alloc_made env s.kernel t b
  obtain ⟨first,second⟩ := allocPid_next next
  refine ⟨fresh.live_iff made,fresh.not_live,fun u other => congrArg TaskStruct.pid (made.others u other),
    Nat.le_refl _,?_,second,rfl,rfl⟩
  rw [← first]
  simp [Numbered.after,allocTaskStruct,Kernel.kmalloc,allocPid,Kernel.setTask,Kernel.setEntity,newTask]

/-- The first of the two numbers a copy draws goes to nobody. -/
theorem dup_draws (env : Platform) (next : s.kernel.nextPid = pidAt s.drawn)
    (fresh : Fresh s.kernel (some t) (some b)) (orig : Nat) (jiffies : Cfs.U64) :
    Draws s (s.after (dupTaskStruct env s.kernel orig (some t) (some b) jiffies).2
      (.dup orig (some t) (some b) jiffies)) t (s.drawn + 1) := by
  have made := dup_made env s.kernel orig t b jiffies
  obtain ⟨first,second⟩ := allocPid_next (allocPid_next next).2
  refine ⟨fresh.live_iff made,fresh.not_live,fun u other => congrArg TaskStruct.pid (made.others u other),
    Nat.le_succ _,?_,second,rfl,rfl⟩
  rw [← first]
  simp only [Numbered.after,dupTaskStruct,allocTaskStruct,Kernel.kmalloc,Kernel.setTask,Kernel.setEntity,
    Function.update_self]
  rfl

/-- A step draws no number or makes one task. -/
theorem NumberedStep.cases (next : s.kernel.nextPid = pidAt s.drawn) (step : NumberedStep env s op s') :
    (∃ k, s' = { s with kernel := k } ∧ Quiet s.kernel k ∧ NoReuse s op) ∨
    ∃ t drawn, Draws s s' t drawn ∧ (NoReuse s op ↔ Unused s drawn) := by
  obtain ⟨step⟩ := step
  cases step with
  | @alloc task stack fresh =>
    rcases task with _ | t
    · exact .inl ⟨_,rfl,(alloc_failed env fresh (.inl rfl)).2.quiet,trivial⟩
    rcases stack with _ | b
    · exact .inl ⟨_,rfl,(alloc_failed env fresh (.inr rfl)).2.quiet,trivial⟩
    · exact .inr ⟨t,s.drawn,alloc_draws env next fresh,.rfl⟩
  | @dup orig task stack jiffies live fresh =>
    rcases task with _ | t
    · exact .inl ⟨_,rfl,(dup_failed env fresh (.inl rfl) orig jiffies).2.quiet,trivial⟩
    rcases stack with _ | b
    · exact .inl ⟨_,rfl,(dup_failed env fresh (.inr rfl) orig jiffies).2.quiet,trivial⟩
    · exact .inr ⟨t,s.drawn + 1,dup_draws env next fresh orig jiffies,.rfl⟩
  | get tsk => exact .inl ⟨_,rfl,get_quiet s.kernel tsk,trivial⟩
  | put tsk => exact .inl ⟨_,rfl,put_quiet s.kernel tsk,trivial⟩

theorem Counting.quiet (counting : Counting s) (quiet : Quiet s.kernel k) :
    Counting { s with kernel := k } where
  next := quiet.nextPid.trans counting.next
  pid t live := (quiet.pid t).trans (counting.pid t (quiet.live t live))
  older t live := counting.older t (quiet.live t live)

theorem DistinctPids.quiet (distinct : DistinctPids k) (quiet : Quiet k k') : DistinctPids k' where
  apart t u liveT liveU eq := by
    rw [quiet.pid,quiet.pid] at eq
    exact distinct.apart t u (quiet.live t liveT) (quiet.live u liveU) eq
  range t live := by
    rw [quiet.pid]
    exact distinct.range t (quiet.live t live)

theorem Counting.draws (counting : Counting s) (draws : Draws s s' t drawn) : Counting s' := by
  have other {u : Nat} (live : s.kernel.Live u) : u ≠ t := by
    rintro rfl
    exact draws.dead live
  constructor
  case next => rw [draws.next,draws.count]
  case pid =>
    intro u live
    rw [draws.serial]
    rcases (draws.live u).mp live with rfl | live
    · simpa using draws.pid
    · simpa [other live,draws.same u (other live)] using counting.pid u live
  case older =>
    intro u live
    rw [draws.serial,draws.count]
    rcases (draws.live u).mp live with rfl | live
    · simp
    · have older := counting.older u live
      have later := draws.later
      simp only [Function.update_of_ne (other live)]
      omega

/-- The new number is free exactly when no live task is older by whole rounds. -/
theorem Counting.distinct_iff (counting : Counting s) (distinct : DistinctPids s.kernel)
    (draws : Draws s s' t drawn) : DistinctPids s'.kernel ↔ Unused s drawn := by
  have range : 1 ≤ (s'.kernel.task t).pid ∧ (s'.kernel.task t).pid < PID_MAX := by
    rw [draws.pid]
    exact pidAt_range drawn
  rw [distinct.add_iff draws.live draws.dead draws.same range,draws.pid]
  refine forall_congr' fun u => forall_congr' fun live => not_congr ?_
  have older := counting.older u live
  rw [counting.pid u live]
  exact pidAt_eq_iff (older.le.trans draws.later)

theorem NumberedStep.counting (counting : Counting s) (step : NumberedStep env s op s') : Counting s' := by
  obtain ⟨k,rfl,quiet,-⟩ | ⟨t,drawn,draws,-⟩ := step.cases counting.next
  · exact counting.quiet quiet
  · exact counting.draws draws

theorem NumberedStep.distinct_iff (counting : Counting s) (distinct : DistinctPids s.kernel)
    (step : NumberedStep env s op s') : DistinctPids s'.kernel ↔ NoReuse s op := by
  obtain ⟨k,rfl,quiet,free⟩ | ⟨t,drawn,draws,reuse⟩ := step.cases counting.next
  · exact iff_of_true (distinct.quiet quiet) free
  · rw [reuse]
    exact counting.distinct_iff distinct draws

theorem NumberedRun.start_counting {s : Numbered} (start : NoTasks s.kernel ∧ s.drawn = 0) :
    Counting s ∧ DistinctPids s.kernel := by
  have dead (t : Nat) : ¬s.kernel.Live t := by simp [Kernel.Live,start.1.heap]
  refine ⟨⟨?_,fun t live => absurd live (dead t),fun t live => absurd live (dead t)⟩,
    fun t _ live => absurd live (dead t),fun t live => absurd live (dead t)⟩
  rw [start.1.nextPid,start.2]
  rfl

theorem NumberedRun.counting (run : NumberedRun env past s) : Counting s :=
  run.invariant (fun _ start => (NumberedRun.start_counting start).1)
    fun _ _ _ counting step => step.counting counting

/-- Numbers stay apart all along exactly the runs in which no task gets a number that is
whole rounds behind the one of a live task. They are in range in any case. -/
theorem pids_distinct_iff (env : Platform) (past : List (Numbered × LifeOp)) (s : Numbered)
    (run : NumberedRun env past s) :
    (Always (fun s => DistinctPids s.kernel) past s ↔ Throughout NoReuse past) ∧
    ∀ t, s.kernel.Live t → 1 ≤ (s.kernel.task t).pid ∧ (s.kernel.task t).pid < PID_MAX := by
  constructor
  · exact run.always_iff (I := Counting) (fun _ start => NumberedRun.start_counting start)
      (fun _ _ _ counting step => step.counting counting)
      fun _ _ _ counting distinct step => step.distinct_iff counting distinct
  · intro t live
    rw [(NumberedRun.counting run).pid t live]
    exact pidAt_range _

def firstNumbered : Numbered := ⟨oneTask, 1, Function.update (fun _ => 0) 1 0⟩

theorem firstNumbered_run : NumberedRun basePlatform
    ([] ++ [(⟨bootKernel, 0, fun _ => 0⟩, .alloc (some 1) (some 2))]) firstNumbered := by
  have fresh : Fresh bootKernel (some 1) (some 2) :=
    ⟨fun _ _ => rfl,fun b same => by cases same; exact ⟨rfl,by simp⟩⟩
  exact .next (.start ⟨bootKernel_noTasks,rfl⟩) ⟨.alloc fresh⟩

theorem oneTask_alone (live : oneTask.Live t) : t = 1 := by
  have none : ∀ b, bootKernel.heap b = none := fun _ => rfl
  simp only [oneTask,Kernel.Live,(alloc_made basePlatform bootKernel 1 2).heap,withBlocks,
    Function.update_apply,none] at live
  grind

/-- Task 3 draws the second one, and a copy that fails none. -/
theorem pids_distinct_iff_two : DistinctPids copyFailed ∧ (copyFailed.task 1).pid = 1 ∧
    (copyFailed.task 3).pid = 2 := by
  have run := (firstNumbered_run.next ⟨.alloc oneTask_fresh⟩).next ⟨.dup 1 0 rfl twoTasks_fresh⟩
  have first : NoReuse ⟨bootKernel, 0, fun _ => 0⟩ (.alloc (some 1) (some 2)) := by
    intro u live
    cases live
  have second : NoReuse firstNumbered (.alloc (some 3) (some 4)) := by
    intro u live
    cases oneTask_alone live
    decide
  have distinct := (pids_distinct_iff basePlatform _ _ run).1.mpr
    (by simp only [Throughout.append]; exact ⟨⟨⟨by simp [Throughout],first⟩,second⟩,trivial⟩)
  exact ⟨distinct.2,rfl,rfl⟩

structure Round (s : Numbered) (count : Nat) : Prop where
  run : ∃ past, NumberedRun basePlatform past s
  drawn : s.drawn = count
  first : s.kernel.Live 1 ∧ s.serial 1 = 0
  alone : ∀ t, s.kernel.Live t → t = 1
  free : s.kernel.heap 3 = none ∧ s.kernel.heap 4 = none

theorem Round.fresh (round : Round s count) : Fresh s.kernel (some 3) (some 4) :=
  ⟨fun t same => by cases same; exact round.free.1,
    fun b same => by cases same; exact ⟨round.free.2,by simp⟩⟩

/-- A last reference that is put takes both blocks off the heap. -/
theorem put_last {k : Kernel} (last : (k.task t).usage = 1) (stack : (k.task t).stack = some b) :
    (putTaskStruct k t).heap = Function.update (Function.update k.heap b none) t none := by
  rw [putTaskStruct_last last]
  simp [freeTaskStruct,Kernel.setTask,Kernel.kfree,stack]

/-- Task 3 comes and goes. -/
theorem Round.next (round : Round s count) : ∃ s', Round s' (count + 1) := by
  obtain ⟨past,run⟩ := round.run
  have live := round.fresh.live_iff (alloc_made basePlatform s.kernel 3 4)
  generalize made : (allocTaskStruct basePlatform s.kernel (some 3) (some 4)).2 = k at live
  have task : (k.task 3).usage = 1 ∧ (k.task 3).stack = some 4 := by
    rw [← made]
    exact ⟨rfl,rfl⟩
  have heap : k.heap = withBlocks s.kernel.heap 3 4 := by
    rw [← made]
    rfl
  have allocated := run.next ⟨.alloc round.fresh⟩
  simp only [Numbered.after,made] at allocated
  have ended := allocated.next ⟨.put 3 ((live 3).mpr (.inl rfl))⟩
  simp only [Numbered.after] at ended
  have freed : (putTaskStruct k 3).heap = Function.update (Function.update k.heap 4 none) 3 none :=
    put_last task.1 task.2
  refine ⟨_,⟨_,ended⟩,by rw [round.drawn],⟨?_,?_⟩,fun t liveT => ?_,?_⟩
  · have first := round.first.1
    simp only [Kernel.Live] at first
    simp [Kernel.Live,freed,heap,withBlocks,first]
  · simp [round.first.2]
  · simp only [Kernel.Live,freed,heap,withBlocks] at liveT
    have alone := round.alone t
    simp only [Kernel.Live,Function.update_apply] at liveT alone
    grind
  · simp [freed]

theorem exists_round (n : Nat) : ∃ s, Round s (n + 1) := by
  induction n with
  | zero =>
    refine ⟨firstNumbered,⟨_,firstNumbered_run⟩,rfl,⟨rfl,rfl⟩,fun t live => oneTask_alone live,rfl,rfl⟩
  | succ n ih =>
    obtain ⟨s,round⟩ := ih
    exact round.next

/-- After `PID_MAX - 1` numbers the second of two live tasks has the number of the first. -/
theorem pid_used_twice : ∃ past s, NumberedRun basePlatform past s ∧
    (∀ t, s.kernel.Live t ↔ t = 1 ∨ t = 3) ∧
    (s.kernel.task 1).pid = 1 ∧ (s.kernel.task 3).pid = 1 ∧
    ¬Always (fun s => DistinctPids s.kernel) past s := by
  obtain ⟨s,round⟩ := exists_round 32766
  obtain ⟨past,run⟩ := round.run
  have live := round.fresh.live_iff (alloc_made basePlatform s.kernel 3 4)
  have next := run.next ⟨.alloc round.fresh⟩
  have counting := NumberedRun.counting next
  simp only [Numbered.after] at next counting
  have first := counting.pid 1 ((live 1).mpr (.inr round.first.1))
  have third := counting.pid 3 ((live 3).mpr (.inl rfl))
  simp only [round.drawn,Function.update_self,Function.update_of_ne (show (1 : Nat) ≠ 3 by decide),
    round.first.2] at first third
  refine ⟨_,_,next,fun t => ?_,first,third,fun always => ?_⟩
  · rw [live]
    constructor
    · rintro (rfl | liveT)
      · exact .inr rfl
      · exact .inl (round.alone t liveT)
    · rintro (rfl | rfl)
      · exact .inr round.first.1
      · exact .inl rfl
  · have same := always.2.apart 1 3 ((live 1).mpr (.inr round.first.1)) ((live 3).mpr (.inl rfl))
      (first.trans third.symm)
    contradiction

end Kernal.Task
