import Kernal.Schedule

/-! The tasks of `sched.c`: making, copying and releasing a `task_struct`, putting it on
the task list and the run queue, and switching to it. Blocks of `kmalloc`, tasks and
`mm_struct`s are named by numbers, the entity of a task by the number of the task, and a
null pointer is `none`. What `kmalloc` returns is an input. A function that follows a
null pointer ends in the fault. -/
namespace Kernal.Task

open Cfs (Sched SchedClass SchedEntity Buddies EnqueueFlags Hierarchy U64 TASK_RUNNING MAX_RT_PRIO SCHED_NORMAL)

def DEFAULT_PRIO : Nat := 120
def PID_MAX : Nat := 32768
def THREAD_SIZE : Nat := 16384
def NR_CPUS : Nat := 1
def PF_KTHREAD : BitVec 32 := 1

/-- The fields of `task_struct` that the functions below read, without the entity. -/
structure TaskStruct where
  state : Nat
  exitState : Int
  exitCode : Int
  exitSignal : Int
  flags : BitVec 32
  pid : Nat
  tgid : Nat
  ppid : Nat
  pgrp : Nat
  session : Nat
  prio : Nat
  staticPrio : Nat
  normalPrio : Nat
  policy : Nat
  schedClass : Option SchedClass
  cpusAllowed : U64
  nrCpusAllowed : Nat
  realParent : Option Nat
  parent : Option Nat
  groupLeader : Option Nat
  mm : Option Nat
  activeMm : Option Nat
  stack : Option Nat
  stackSize : Nat
  startTime : U64
  realStartTime : U64
  comm : String
  needResched : Bool
  preemptCount : Nat
  usage : BitVec 32
  lastCpu : Int
  wakeCpu : Int
  deriving DecidableEq, Repr

inductive Use where
  | task | stack
  deriving DecidableEq, Repr

/-- The variables of `sched.c` for its one processor. -/
structure Kernel where
  task : Nat → TaskStruct
  sched : Sched
  /-- The blocks that are allocated. -/
  heap : Nat → Option Use
  /-- Some block was given back that was not allocated. -/
  badFree : Bool
  /-- The tasks `free_task_struct` has released and nobody has got again. -/
  released : Nat → Bool
  nextPid : Nat
  taskList : List Nat
  currentTask : Option Nat
  mmCount : Nat → BitVec 32
  /-- `rq->prev_mm`. -/
  prevMm : Option Nat
  /-- The variable `prev` of a task suspended in `context_switch`. -/
  frame : Nat → Option Nat

/-- Constants and helpers that the repository uses and does not define. -/
structure Platform where
  cfs : Cfs.Platform
  sigchld : Int
  taskDead : Nat
  schedIdle : Nat
  schedBatch : Nat
  forkPreemptCount : Nat
  schedNrLatency : Nat
  featWakeupPreemption : Bool
  featNextBuddy : Bool
  featLastBuddy : Bool
  setLastBuddy : (Nat → Buddies) → Nat → Nat → Buddies
  setSkipBuddy : (Nat → Buddies) → Nat → Nat → Buddies
  /-- The ancestors of two entities that are on the same queue. -/
  findMatchingSe : Nat → Nat → Nat × Nat

inductive NullDeref where
  | current | schedClass | rqCurr | next | activeMm
  deriving DecidableEq, Repr

theorem ok_getD {r : Except ε α} (d : α) (done : r.toOption.isSome = true) : r = .ok (r.toOption.getD d) := by
  cases r with
  | error => contradiction
  | ok x => rfl

def Kernel.setTask (k : Kernel) (p : Nat) (edit : TaskStruct → TaskStruct) : Kernel :=
  { k with task := Function.update k.task p (edit (k.task p)) }

@[simp] theorem Kernel.setTask_same (k : Kernel) (p : Nat) (edit : TaskStruct → TaskStruct) :
    (k.setTask p edit).task p = edit (k.task p) := by
  simp [setTask]

theorem Kernel.setTask_other (k : Kernel) (edit : TaskStruct → TaskStruct) (other : t ≠ p) :
    (k.setTask p edit).task t = k.task t := by
  simp [setTask,other]

/-- A field that the edit keeps is the same in every task. -/
theorem Kernel.setTask_field (k : Kernel) (field : TaskStruct → α) {edit : TaskStruct → TaskStruct}
    (keeps : field (edit (k.task p)) = field (k.task p)) (t : Nat) :
    field ((k.setTask p edit).task t) = field (k.task t) := by
  by_cases same : t = p
  · subst same
    simpa using keeps
  · rw [k.setTask_other edit same]

def Kernel.setEntity (k : Kernel) (p : Nat) (edit : SchedEntity → SchedEntity) : Kernel :=
  { k with sched := k.sched.setEntity p edit }

def Kernel.setBuddies (k : Kernel) (buddies : Nat → Buddies) : Kernel :=
  { k with sched := { k.sched with buddies } }

/-- The block `kmalloc` has chosen becomes allocated. -/
def Kernel.kmalloc (k : Kernel) (block : Nat) (use : Use) : Kernel :=
  { k with
    heap := Function.update k.heap block (some use)
    released := Function.update k.released block false }

def Kernel.kfree (k : Kernel) (block : Nat) : Kernel :=
  { k with
    heap := Function.update k.heap block none
    badFree := k.badFree || (k.heap block).isNone }

def setCurrent (k : Kernel) (task : Option Nat) : Kernel := { k with currentTask := task }

def allocPid (k : Kernel) : Nat × Kernel :=
  let next := k.nextPid + 1
  (k.nextPid, { k with nextPid := if PID_MAX ≤ next then 1 else next })

section

variable (env : Platform)

/-- The structure is zeroed and then filled in; no class is set. -/
def newTask (self stack pid : Nat) : TaskStruct where
  state := TASK_RUNNING
  exitState := 0
  exitCode := 0
  exitSignal := env.sigchld
  flags := 0
  pid := pid
  tgid := pid
  ppid := 0
  pgrp := 0
  session := 0
  prio := DEFAULT_PRIO
  staticPrio := DEFAULT_PRIO
  normalPrio := DEFAULT_PRIO
  policy := SCHED_NORMAL
  schedClass := none
  cpusAllowed := (1 <<< NR_CPUS) - 1
  nrCpusAllowed := NR_CPUS
  realParent := none
  parent := none
  groupLeader := some self
  mm := none
  activeMm := none
  stack := some stack
  stackSize := THREAD_SIZE
  startTime := 0
  realStartTime := 0
  comm := "suibian"
  needResched := false
  preemptCount := 0
  usage := 1
  lastCpu := -1
  wakeCpu := -1

def prioWeight (staticPrio : Nat) : Nat := Cfs.prioToWeight.getD (staticPrio - MAX_RT_PRIO) 0

/-- The two blocks are what the two calls of `kmalloc` return. -/
def allocTaskStruct (k : Kernel) (taskBlock stackBlock : Option Nat) : Option Nat × Kernel :=
  match taskBlock with
  | none => (none, k)
  | some task =>
    let k := k.kmalloc task .task
    match stackBlock with
    | none => (none, k.kfree task)
    | some stack =>
      let k := k.kmalloc stack .stack
      let (pid, k) := allocPid k
      let k := k.setTask task fun _ => newTask env task stack pid
      (some task, k.setEntity task fun _ => Cfs.newEntity (prioWeight DEFAULT_PRIO))

def freeTaskStruct (k : Kernel) : Option Nat → Kernel
  | none => k
  | some tsk =>
    let k := match (k.task tsk).stack with
      | none => k
      | some stack => k.kfree stack
    let k := k.kfree tsk
    { k with released := Function.update k.released tsk true }

def getTaskStruct (k : Kernel) (tsk : Nat) : Kernel :=
  k.setTask tsk fun t => { t with usage := t.usage + 1 }

def putTaskStruct (k : Kernel) (tsk : Nat) : Kernel :=
  let k := k.setTask tsk fun t => { t with usage := t.usage - 1 }
  if (k.task tsk).usage = 0 then freeTaskStruct k (some tsk) else k

/-- What `put_task_struct` does to anything but blocks, whether it frees the task or not. -/
structure Dropped (k k' : Kernel) (tsk : Nat) : Prop where
  task : k'.task = (k.setTask tsk fun t => { t with usage := t.usage - 1 }).task
  sched : k'.sched = k.sched
  nextPid : k'.nextPid = k.nextPid
  mmCount : k'.mmCount = k.mmCount
  prevMm : k'.prevMm = k.prevMm
  frame : k'.frame = k.frame

theorem putTaskStruct_dropped (k : Kernel) (tsk : Nat) : Dropped k (putTaskStruct k tsk) tsk := by
  dsimp only [putTaskStruct]
  split
  · simp only [freeTaskStruct]
    split <;> exact ⟨rfl,rfl,rfl,rfl,rfl,rfl⟩
  · exact ⟨rfl,rfl,rfl,rfl,rfl,rfl⟩

theorem Dropped.field (dropped : Dropped k k' tsk) (field : TaskStruct → α)
    (keeps : ∀ t usage, field { t with usage } = field t) (t : Nat) : field (k'.task t) = field (k.task t) := by
  rw [dropped.task]
  exact k.setTask_field field (keeps _ _) t

theorem putTaskStruct_last (last : (k.task tsk).usage = 1) : putTaskStruct k tsk =
    freeTaskStruct (k.setTask tsk fun t => { t with usage := t.usage - 1 }) (some tsk) :=
  if_pos (by rw [Kernel.setTask_same,last]; rfl)

/-- `*tsk = *orig` overwrites what `alloc_task_struct` has set, the stack included. -/
def dupTaskStruct (k : Kernel) (orig : Nat) (taskBlock stackBlock : Option Nat) (jiffies : U64) :
    Option Nat × Kernel :=
  match allocTaskStruct env k taskBlock stackBlock with
  | (none, k) => (none, k)
  | (some tsk, k) =>
    let k := k.setTask tsk fun _ => k.task orig
    let (pid, k) := allocPid k
    let k := k.setTask tsk fun t =>
      { t with
        pid
        state := TASK_RUNNING
        exitState := 0
        exitCode := 0
        startTime := jiffies
        realStartTime := jiffies
        usage := 1 }
    (some tsk, k.setEntity tsk fun _ =>
      { k.sched.entity orig with execStart := 0, sumExecRuntime := 0, prevSumExecRuntime := 0 })

/-- `list_add_tail(&p->tasks, &task_list)` is the last thing done. -/
def schedFork (k : Kernel) (p : Nat) : Except NullDeref Kernel :=
  match k.currentTask with
  | none => .error .current
  | some c =>
    let current := k.task c
    let k := k.setTask p fun t =>
      { t with
        state := TASK_RUNNING
        policy := SCHED_NORMAL
        prio := current.normalPrio
        staticPrio := current.staticPrio
        normalPrio := current.normalPrio
        cpusAllowed := current.cpusAllowed
        nrCpusAllowed := current.nrCpusAllowed }
    let k := k.setEntity p fun se =>
      { se with
        execStart := 0
        sumExecRuntime := 0
        prevSumExecRuntime := 0
        vruntime := 0
        weight := prioWeight current.staticPrio
        invWeight := 0 }
    let k := if (k.task p).flags &&& PF_KTHREAD ≠ 0 then
        let k := k.setTask p fun t => { t with mm := none, activeMm := current.activeMm }
        match current.activeMm with
        | none => k
        | some mm => { k with mmCount := Function.update k.mmCount mm (k.mmCount mm + 1) }
      else k
    let k := k.setTask p fun t =>
      { t with lastCpu := 0, wakeCpu := 0, preemptCount := env.forkPreemptCount }
    .ok { k with taskList := k.taskList ++ [p] }

/-- What `sched_fork` leaves as it was, and the two things it is called for. -/
structure Forked (k k' : Kernel) (p : Nat) : Prop where
  others : ∀ t, t ≠ p → k'.task t = k.task t
  state : (k'.task p).state = TASK_RUNNING
  schedClass : (k'.task p).schedClass = (k.task p).schedClass
  usage : (k'.task p).usage = (k.task p).usage
  entities : ∀ e, e ≠ p → k'.sched.entity e = k.sched.entity e
  onRq : (k'.sched.entity p).onRq = (k.sched.entity p).onRq
  sched : k'.sched = { k.sched with entity := k'.sched.entity }
  heap : k'.heap = k.heap
  released : k'.released = k.released
  taskList : k'.taskList = k.taskList ++ [p]
  currentTask : k'.currentTask = k.currentTask
  frame : k'.frame = k.frame

theorem Forked.curr (forked : Forked k k' p) : k'.sched.curr = k.sched.curr := by
  rw [forked.sched]

variable {env} in
theorem schedFork_forked {k k' : Kernel} (forked : schedFork env k p = .ok k') : Forked k k' p := by
  unfold schedFork at forked
  split at forked
  · cases forked
  next c here =>
    simp only [Except.ok.injEq] at forked
    subst forked
    split
    · split
      all_goals
        constructor
        case others | entities => intro t other; simp [Kernel.setTask,Kernel.setEntity,Cfs.Sched.setEntity,other]
        all_goals simp [Kernel.setTask,Kernel.setEntity,Cfs.Sched.setEntity]
    · constructor
      case others | entities => intro t other; simp [Kernel.setTask,Kernel.setEntity,Cfs.Sched.setEntity,other]
      all_goals simp [Kernel.setTask,Kernel.setEntity,Cfs.Sched.setEntity]

variable (h : Hierarchy)

/-- `enqueue_task` through the task's class; the other classes are not in the repository. -/
def enqueueTask (k : Kernel) (p : Nat) (flags : EnqueueFlags) (clock : Nat → U64) : Except NullDeref Kernel :=
  match (k.task p).schedClass with
  | none => .error .schedClass
  | some .fair => .ok { k with sched := Cfs.enqueueTaskFair env.cfs h k.sched p flags clock }
  | some _ => .ok k

def dequeueTask (k : Kernel) (p : Nat) (sleep : Bool) (clock : Nat → U64) : Except NullDeref Kernel :=
  match (k.task p).schedClass with
  | none => .error .schedClass
  | some .fair => .ok { k with sched := Cfs.dequeueTaskFair env.cfs h k.sched p sleep clock }
  | some _ => .ok k

def activateTask (k : Kernel) (p : Nat) (flags : EnqueueFlags) (clock : Nat → U64) : Except NullDeref Kernel :=
  enqueueTask env h k p flags clock

def deactivateTask (k : Kernel) (p : Nat) (sleep : Bool) (clock : Nat → U64) : Except NullDeref Kernel :=
  dequeueTask env h k p sleep clock

/-- The end of `check_preempt_wakeup`, from the label `preempt` on. -/
def preempt (k : Kernel) (curr se : Nat) (scale : Bool) : Kernel :=
  let k := k.setTask curr fun t => { t with needResched := true }
  if (k.sched.entity se).onRq && env.featLastBuddy && scale && (h.myQ se).isNone then
    k.setBuddies (env.setLastBuddy k.sched.buddies se)
  else k

/-- `fork` is the bit `WF_FORK` of the flags; `now` is the clock `update_curr` reads. -/
def checkPreemptWakeup (k : Kernel) (p : Nat) (fork : Bool) (now : U64) : Except NullDeref Kernel :=
  match k.sched.curr with
  | none => .error .rqCurr
  | some curr =>
    let scale := decide (env.schedNrLatency ≤ (k.sched.cfs (h.cfsRqOf curr)).nrRunning)
    if curr = p then .ok k
    else if env.cfs.throttledHierarchy (h.cfsRqOf p) then .ok k
    else
      let nextBuddyMarked := env.featNextBuddy && scale && !fork
      let k := if nextBuddyMarked then k.setBuddies (env.cfs.setNextBuddy k.sched.buddies p) else k
      if (k.task curr).needResched then .ok k
      else if (k.task curr).policy = env.schedIdle ∧ (k.task p).policy ≠ env.schedIdle then
        .ok (preempt env h k curr curr scale)
      else if (k.task p).policy ≠ SCHED_NORMAL ∨ !env.featWakeupPreemption then .ok k
      else
        let (se, pse) := env.findMatchingSe curr p
        let k := { k with sched := Cfs.updateCurr env.cfs k.sched (h.cfsRqOf se) now }
        if env.cfs.wakeupPreemptEntity (k.sched.entity se) (k.sched.entity pse) = 1 then
          let k := if nextBuddyMarked then k else k.setBuddies (env.cfs.setNextBuddy k.sched.buddies pse)
          .ok (preempt env h k curr se scale)
        else .ok k

/-- `yield_task_fair`; the clocks of the run queue that it brings up to date are not part of
the state. -/
def yieldTaskFair (k : Kernel) (now : U64) : Except NullDeref Kernel :=
  match k.sched.curr with
  | none => .error .rqCurr
  | some curr =>
    if k.sched.nrRunning = 1 then .ok k
    else
      let q := h.cfsRqOf curr
      let s := Cfs.clearBuddies env.cfs k.sched q (some curr)
      let s := if (k.task curr).policy ≠ env.schedBatch then Cfs.updateCurr env.cfs s q now else s
      .ok { k with sched := { s with buddies := env.setSkipBuddy s.buddies curr } }

/-- What `check_preempt_wakeup` and `yield_task_fair` write: marks of tasks that are to be
rescheduled, hints, and the times of a current entity. -/
inductive Checked (k : Kernel) : Kernel → Prop where
  | refl : Checked k k
  | mark (curr : Nat) : Checked k k' → Checked k (k'.setTask curr fun t => { t with needResched := true })
  | hint (buddies : Nat → Buddies) : Checked k k' → Checked k (k'.setBuddies buddies)
  | charge (se : Nat) (now : U64) : Checked k k' →
      Checked k { k' with sched := Cfs.updateCurr env.cfs k'.sched (h.cfsRqOf se) now }

variable {env h} in
theorem Checked.ite {c : Prop} [Decidable c] {k₁ k₂ : Kernel} (yes : Checked env h k k₁) (no : Checked env h k k₂) :
    Checked env h k (if c then k₁ else k₂) := by
  split
  · exact yes
  · exact no

variable {env h} in
theorem Checked.preempt (checked : Checked env h k k') (curr se : Nat) (scale : Bool) :
    Checked env h k (preempt env h k' curr se scale) :=
  .ite (.hint _ (checked.mark curr)) (checked.mark curr)

variable {env h} in
theorem checkPreemptWakeup_checked {k k' : Kernel} (done : checkPreemptWakeup env h k p fork now = .ok k') :
    Checked env h k k' := by
  unfold checkPreemptWakeup at done
  split at done
  · cases done
  next curr _ =>
    dsimp only at done
    generalize decide (env.schedNrLatency ≤ (k.sched.cfs (h.cfsRqOf curr)).nrRunning) = scale at done
    generalize (env.featNextBuddy && scale && !fork) = marked at done
    have first : Checked env h k
        (if marked then k.setBuddies (env.cfs.setNextBuddy k.sched.buddies p) else k) := .ite (.hint _ .refl) .refl
    generalize (if marked then k.setBuddies (env.cfs.setNextBuddy k.sched.buddies p) else k) = k₁ at done first
    split at done
    · cases done
      exact .refl
    split at done
    · cases done
      exact .refl
    split at done
    · cases done
      exact first
    split at done
    · cases done
      exact first.preempt ..
    split at done
    · cases done
      exact first
    split at done
    · cases done
      exact Checked.preempt (.ite (first.charge ..) (.hint _ (first.charge ..))) ..
    · cases done
      exact first.charge ..

variable {env h} in
theorem yieldTaskFair_checked {k k' : Kernel} (done : yieldTaskFair env h k now = .ok k') :
    Checked env h k k' := by
  unfold yieldTaskFair at done
  split at done
  · cases done
  next curr _ =>
    dsimp only at done
    split at done
    · cases done
      exact .refl
    · cases done
      have cleared : Checked env h k
          { k with sched := Cfs.clearBuddies env.cfs k.sched (h.cfsRqOf curr) (some curr) } := .hint _ .refl
      split
      · exact .hint _ (cleared.charge ..)
      · exact .hint _ .refl

/-- `check_preempt_curr` is not in the repository. -/
def wakeUpNewTaskWith (checkPreemptCurr : Kernel → Nat → Bool → Except NullDeref Kernel) (k : Kernel) (p : Nat)
    (clock : Nat → U64) : Except NullDeref Kernel := do
  let k ← activateTask env h (k.setTask p fun t => { t with state := TASK_RUNNING }) p ⟨false, false⟩ clock
  checkPreemptCurr k p true

/-- While a fair task runs `check_preempt_curr` is the fair class's `check_preempt_wakeup`. -/
def wakeUpNewTask (k : Kernel) (p : Nat) (clock : Nat → U64) (now : U64) : Except NullDeref Kernel :=
  wakeUpNewTaskWith env h (fun k p fork => checkPreemptWakeup env h k p fork now) k p clock

/-- `ttwu_remote` and `ttwu_queue` are not in the repository. -/
def wakeUpProcess (ttwuRemote : Kernel → Nat → Except NullDeref (Bool × Kernel))
    (ttwuQueue : Kernel → Nat → Except NullDeref Kernel) (k : Kernel) (p : Nat) : Except NullDeref Kernel :=
  if (k.task p).state &&& env.cfs.taskNormal = 0 then .ok k
  else do
    let (woken, k) ← ttwuRemote k p
    if woken then .ok k else ttwuQueue k p

/-- `context_switch` up to the call of `switch_to`. -/
def contextSwitch (k : Kernel) (prev next : Nat) : Except NullDeref Kernel := do
  let oldmm := (k.task prev).activeMm
  let k ← match (k.task next).mm, oldmm with
    | some _, _ => .ok k
    | none, none => .error .activeMm
    | none, some mm =>
      let k := k.setTask next fun t => { t with activeMm := oldmm }
      .ok { k with mmCount := Function.update k.mmCount mm (k.mmCount mm + 1) }
  if (k.task prev).mm = none then
    .ok { k.setTask prev fun t => { t with activeMm := none } with prevMm := oldmm }
  else .ok k

/-- What `context_switch` does when `schedule` has recorded `next`: one of the two tasks
borrows an address space, the other one gives its own back. -/
structure Switched (k k' : Kernel) (prev next : Nat) : Prop where
  others : ∀ t, t ≠ prev → t ≠ next → k'.task t = k.task t
  mm : ∀ t, (k'.task t).mm = (k.task t).mm
  state : ∀ t, (k'.task t).state = (k.task t).state
  usage : ∀ t, (k'.task t).usage = (k.task t).usage
  borrowed : (k'.task next).activeMm =
    if (k.task next).mm = none then (k.task prev).activeMm else (k.task next).activeMm
  given : (k'.task prev).activeMm = if (k.task prev).mm = none then none else (k.task prev).activeMm
  prevMm : k'.prevMm = if (k.task prev).mm = none then (k.task prev).activeMm else k.prevMm
  count : ∀ m, k'.mmCount m = k.mmCount m +
    if (k.task next).mm = none ∧ (k.task prev).activeMm = some m then 1 else 0
  sched : k'.sched = { k.sched with curr := some next }
  heap : k'.heap = k.heap
  released : k'.released = k.released
  frame : k'.frame = k.frame

theorem Switched.curr (switched : Switched k k' prev next) : k'.sched.curr = some next := by
  rw [switched.sched]

theorem contextSwitch_switched {k k' : Kernel} (other : next ≠ prev)
    (switched : contextSwitch { k with sched := { k.sched with curr := some next } } prev next = .ok k') :
    Switched k k' prev next := by
  have back : prev ≠ next := other.symm
  simp only [contextSwitch,bind,Except.bind] at switched
  cases own : (k.task next).mm with
  | some m =>
    -- `next` needs nothing; a kernel thread that leaves still gives its reference back.
    simp only [own] at switched
    split at switched
    next kernel =>
      cases switched
      constructor
      case others => exact fun t left _ => by simp [Kernel.setTask,left]
      case mm | state | usage =>
        intro t
        by_cases left : t = prev <;> simp [Kernel.setTask,left]
      case borrowed => simp [Kernel.setTask_other _ _ other,own]
      all_goals simp [Kernel.setTask,own,kernel]
    next user =>
      cases switched
      constructor
      case others | mm | state | usage => intros; rfl
      all_goals simp [own,user]
  | none =>
    cases old : (k.task prev).activeMm with
    | none => simp [own,old] at switched
    | some o =>
      -- The `mm` of `prev` is read after `next` was written, which is another task.
      simp only [own,old,Kernel.setTask_other _ _ back] at switched
      have count (m : Nat) : Function.update k.mmCount o (k.mmCount o + 1) m =
          k.mmCount m + if o = m then 1 else 0 := by
        by_cases same : m = o
        · simp [same]
        · simp [same,Ne.symm same]
      split at switched
      next kernel =>
        cases switched
        constructor
        case others => exact fun t left taken => by simp [Kernel.setTask,left,taken]
        case mm | state | usage =>
          intro t
          by_cases left : t = prev
          · simp [Kernel.setTask,left,back]
          · by_cases taken : t = next <;> simp [Kernel.setTask,left,taken,other]
        case borrowed => simp [Kernel.setTask,own,old,other]
        case count =>
          intro m
          simpa [Kernel.setTask,own,old] using count m
        all_goals simp [Kernel.setTask,kernel,old]
      next user =>
        cases switched
        constructor
        case others => exact fun t _ taken => by simp [Kernel.setTask,taken]
        case mm | state | usage =>
          intro t
          by_cases taken : t = next <;> simp [Kernel.setTask,taken]
        case count =>
          intro m
          simpa [Kernel.setTask,own,old] using count m
        all_goals simp [Kernel.setTask,own,old,user,back]

def finishTaskSwitch (k : Kernel) (prev : Nat) : Kernel :=
  let mm := k.prevMm
  let prevState := (k.task prev).state
  let k := { k with prevMm := none }
  let k := match mm with
    | none => k
    | some mm => { k with mmCount := Function.update k.mmCount mm (k.mmCount mm - 1) }
  if prevState = env.taskDead then putTaskStruct k prev else k

/-- `switch_to` leaves the variable `prev` on the stack of `prev`. A task that was
suspended in `context_switch` goes on with its own; a new one starts elsewhere. -/
def switchTo (k : Kernel) (prev next : Nat) : Kernel :=
  let k := { k with frame := Function.update k.frame prev (some prev) }
  match k.frame next with
  | none => k
  | some own => finishTaskSwitch env { k with frame := Function.update k.frame next none } own

structure Still (k k' : Kernel) : Prop where
  sched : k'.sched = k.sched
  state : ∀ t, (k'.task t).state = (k.task t).state

theorem Still.trans (one : Still k k') (two : Still k' k'') : Still k k'' :=
  ⟨two.sched.trans one.sched,fun t => (two.state t).trans (one.state t)⟩

theorem finishTaskSwitch_still (k : Kernel) (prev : Nat) : Still k (finishTaskSwitch env k prev) := by
  have settles (k : Kernel) : Still k (putTaskStruct k prev) :=
    ⟨(putTaskStruct_dropped k prev).sched,(putTaskStruct_dropped k prev).field TaskStruct.state fun _ _ => rfl⟩
  unfold finishTaskSwitch
  cases k.prevMm
  all_goals
    dsimp only
    split
    · refine .trans ?_ (settles _)
      exact ⟨rfl,fun _ => rfl⟩
    · exact ⟨rfl,fun _ => rfl⟩

theorem switchTo_still (k : Kernel) (prev next : Nat) : Still k (switchTo env k prev next) := by
  dsimp only [switchTo]
  split
  · exact ⟨rfl,fun _ => rfl⟩
  · refine .trans ?_ (finishTaskSwitch_still env _ _)
    exact ⟨rfl,fun _ => rfl⟩

theorem finishTaskSwitch_frame (k : Kernel) (prev : Nat) : (finishTaskSwitch env k prev).frame = k.frame := by
  unfold finishTaskSwitch
  cases k.prevMm
  all_goals
    dsimp only
    split
    · exact (putTaskStruct_dropped _ prev).frame
    · rfl

/-- `rq->idle` is null. `pick_next_task` gives `prev` to the fair class when it is of it. -/
def schedule (k : Kernel) (clock : Nat → U64) : Except NullDeref Kernel :=
  match k.sched.curr with
  | none => .error .rqCurr
  | some prev =>
    let fair := if (k.task prev).schedClass = some .fair then some prev else none
    let (next, sched) := Cfs.pickNextTask env.cfs h k.sched fair clock
    let k := { k with sched }.setTask prev fun t => { t with needResched := false }
    match next with
    | none => .error .next
    | some next =>
      if next = prev then .ok k
      else do
        let k ← contextSwitch { k with sched := { k.sched with curr := some next } } prev next
        .ok (switchTo env k prev next)

end

/-- The kernel after `sched_init`; `next_pid` starts at 1 and everything else is zero. -/
def schedInit (task : Nat → TaskStruct) (mmCount : Nat → BitVec 32) : Kernel where
  task := task
  sched := Cfs.emptySched fun _ => 0
  heap _ := none
  badFree := false
  released _ := false
  nextPid := 1
  taskList := []
  currentTask := none
  mmCount := mmCount
  prevMm := none
  frame _ := none

def basePlatform : Platform where
  cfs := Cfs.basePlatform
  sigchld := 17
  taskDead := 64
  schedIdle := 5
  schedBatch := 3
  forkPreemptCount := 2
  schedNrLatency := 8
  featWakeupPreemption := true
  featNextBuddy := false
  featLastBuddy := false
  setLastBuddy buddies _ := buddies
  setSkipBuddy buddies _ := buddies
  findMatchingSe se pse := (se, pse)

/-- What `memset` leaves of a structure. -/
def zeroTask : TaskStruct where
  state := 0
  exitState := 0
  exitCode := 0
  exitSignal := 0
  flags := 0
  pid := 0
  tgid := 0
  ppid := 0
  pgrp := 0
  session := 0
  prio := 0
  staticPrio := 0
  normalPrio := 0
  policy := 0
  schedClass := none
  cpusAllowed := 0
  nrCpusAllowed := 0
  realParent := none
  parent := none
  groupLeader := none
  mm := none
  activeMm := none
  stack := none
  stackSize := 0
  startTime := 0
  realStartTime := 0
  comm := ""
  needResched := false
  preemptCount := 0
  usage := 0
  lastCpu := 0
  wakeCpu := 0

def bootKernel : Kernel := schedInit (fun _ => zeroTask) fun _ => 0

end Kernal.Task
