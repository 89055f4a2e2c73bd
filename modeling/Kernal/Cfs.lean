import Kernal.SearchTree
import Mathlib.Algebra.Group.Nat.Defs
import Mathlib.Logic.Function.Basic

/-! The fair scheduling class of `sched_fair.c`. Entities and queues are named by
numbers, `cfs 0` is the queue `rq->cfs`, and a null pointer is `none`. `u64` has 64
bits; `s64` is the plain `signed` of `types.h`, so a conversion to it keeps 32 bits.
Every reading of `sched_clock_cpu` is an input. -/
namespace Kernal.Cfs

open SearchTree

abbrev U64 := BitVec 64
abbrev Ulong := BitVec 32

def toS64 (x : U64) : Int := (x.setWidth 32).toInt

def NICE_0_LOAD : Nat := 1024

def prioToWeight : List Nat := [
  88761, 71755, 56483, 46273, 36291, 29154, 23254, 18705, 14949, 11916,
  9548, 7620, 6100, 4904, 3906, 3121, 2501, 1991, 1586, 1277,
  1024, 820, 655, 526, 423, 335, 272, 215, 172, 137,
  110, 87, 70, 56, 45, 36, 29, 23, 18, 15]

structure SchedEntity where
  weight : Nat
  invWeight : U64
  onRq : Bool
  execStart : U64
  sumExecRuntime : U64
  prevSumExecRuntime : U64
  vruntime : U64
  deriving DecidableEq, Repr

structure CfsRq where
  loadWeight : Nat
  nrRunning : Nat
  hNrRunning : Nat
  minVruntime : U64
  tasksTimeline : BinaryTree Nat
  rbLeftmost : Option Nat
  curr : Option Nat

structure Buddies where
  next : Option Nat
  last : Option Nat
  skip : Option Nat
  deriving DecidableEq, Repr

/-- `rq->curr` with `none` for `rq->idle`. -/
structure Sched where
  entity : Nat → SchedEntity
  cfs : Nat → CfsRq
  buddies : Nat → Buddies
  nrRunning : Nat
  curr : Option Nat
  /-- `wakeup_preempt_entity` was given a null pointer. -/
  nullDeref : Bool

def root : Nat := 0

/-- How entities and queues hang together. `path` lists what `for_each_sched_entity`
visits: the entity, its parent and so on up to an entity of the root queue. -/
structure Hierarchy where
  parentEntity : Nat → Option Nat
  cfsRqOf : Nat → Nat
  /-- The queue a group entity stands for; a task has none. -/
  myQ : Nat → Option Nat
  throttled : Nat → Bool
  path : Nat → List Nat
  path_eq : ∀ e, path e = e :: (parentEntity e).elim [] path
  parent_owns : ∀ e g, parentEntity e = some g → myQ g = some (cfsRqOf e)
  top : ∀ e, parentEntity e = none → cfsRqOf e = root
  one_owner : ∀ g g' q, myQ g = some q → myQ g' = some q → g = g'
  root_unowned : ∀ g, myQ g ≠ some root
  root_unthrottled : throttled root = false

/-- Constants and helpers that the repository uses and does not define. -/
structure Platform where
  rb : Balancer Nat
  minVruntime : U64 → U64 → U64
  maxVruntime : U64 → U64 → U64
  wmultConst : Nat
  wmultShift : Nat
  scaleLoadDown : Nat → Nat
  mulU64U32Shr : U64 → Ulong → Int → U64
  entityBefore : SchedEntity → SchedEntity → Bool
  wakeupPreemptEntity : SchedEntity → SchedEntity → Int
  clearBuddies : (Nat → Buddies) → Nat → Option Nat → Nat → Buddies
  /-- Clearing sets no buddy. -/
  clearBuddies_null : ∀ buddies q se, buddies q = ⟨none, none, none⟩ →
    clearBuddies buddies q se q = ⟨none, none, none⟩
  setNextBuddy : (Nat → Buddies) → Nat → Nat → Buddies
  throttledHierarchy : Nat → Bool
  sysctlSchedLatency : Ulong
  gentleFairSleepers : Bool
  startDebit : Bool
  schedVslice : CfsRq → SchedEntity → U64
  taskNormal : Nat
  accountEntityEnqueue : CfsRq → SchedEntity → CfsRq
  accountEntityEnqueue_eq : ∀ c se, accountEntityEnqueue c se =
    { c with nrRunning := c.nrRunning + 1, loadWeight := c.loadWeight + se.weight }
  accountEntityDequeue : CfsRq → SchedEntity → CfsRq
  accountEntityDequeue_eq : ∀ c se, accountEntityDequeue c se =
    { c with nrRunning := c.nrRunning - 1, loadWeight := c.loadWeight - se.weight }
  /-- `add_nr_running(rq, count)` and `sub_nr_running(rq, count)` on `rq->nr_running`. -/
  addNrRunning : Nat → Nat → Nat
  addNrRunning_eq : ∀ nr count, addNrRunning nr count = nr + count
  subNrRunning : Nat → Nat → Nat
  subNrRunning_eq : ∀ nr count, subNrRunning nr count = nr - count

attribute [simp] Platform.accountEntityEnqueue_eq Platform.accountEntityDequeue_eq
  Platform.addNrRunning_eq Platform.subNrRunning_eq

def Sched.setEntity (s : Sched) (e : Nat) (edit : SchedEntity → SchedEntity) : Sched :=
  { s with entity := Function.update s.entity e (edit (s.entity e)) }

def Sched.setCfs (s : Sched) (q : Nat) (edit : CfsRq → CfsRq) : Sched :=
  { s with cfs := Function.update s.cfs q (edit (s.cfs q)) }

section

variable (env : Platform)

/-- `ulong w` drops the upper half of the weight. -/
def updateInvWeight (se : SchedEntity) : SchedEntity :=
  if se.invWeight ≠ 0 then se
  else
    let w := env.scaleLoadDown se.weight % 2^32
    if env.wmultConst ≤ w then { se with invWeight := 1 }
    else if w = 0 then { se with invWeight := BitVec.ofNat 64 env.wmultConst }
    else { se with invWeight := BitVec.ofNat 64 (env.wmultConst / w) }

/-- `while (fact >> 32) { fact >>= 1; shift--; }`, which ends within 32 rounds. -/
def shrinkFact : Nat → U64 → Int → U64 × Int
  | 0, fact, shift => (fact, shift)
  | rounds + 1, fact, shift =>
    if fact >>> 32 ≠ 0 then shrinkFact rounds (fact >>> 1) (shift - 1) else (fact, shift)

/-- The entity comes back with its inverse weight filled in. -/
def calcDelta (deltaExec : U64) (weight : Nat) (se : SchedEntity) : U64 × SchedEntity :=
  let fact := BitVec.ofNat 64 (env.scaleLoadDown (weight % 2^32))
  let se := updateInvWeight env se
  let (fact, shift) := shrinkFact 32 fact env.wmultShift
  let (fact, shift) := shrinkFact 32 ((fact.setWidth 32).setWidth 64 * se.invWeight) shift
  (env.mulU64U32Shr deltaExec (fact.setWidth 32) shift, se)

def calcDeltaFair (delta : U64) (se : SchedEntity) : U64 × SchedEntity :=
  if se.weight ≠ NICE_0_LOAD then calcDelta env delta NICE_0_LOAD se else (delta, se)

def updateMinVruntime (s : Sched) (q : Nat) : Sched :=
  let curr := (s.cfs q).curr.filter fun e => (s.entity e).onRq
  let vruntime := match curr, (s.cfs q).rbLeftmost with
    | none, none => (s.cfs q).minVruntime
    | some e, none => (s.entity e).vruntime
    | none, some l => (s.entity l).vruntime
    | some e, some l => env.minVruntime (s.entity e).vruntime (s.entity l).vruntime
  s.setCfs q fun c => { c with minVruntime := env.maxVruntime c.minVruntime vruntime }

def updateCurr (s : Sched) (q : Nat) (now : U64) : Sched :=
  match (s.cfs q).curr with
  | none => s
  | some e =>
    let deltaExec := now - (s.entity e).execStart
    if toS64 deltaExec ≤ 0 then s
    else
      let s := s.setEntity e fun se =>
        let (charged, weighed) := calcDeltaFair env deltaExec se
        { weighed with
          execStart := now
          sumExecRuntime := se.sumExecRuntime + deltaExec
          vruntime := se.vruntime + charged }
      updateMinVruntime env s q

def entityKey (s : Sched) (q e : Nat) : Int := toS64 ((s.entity e).vruntime - (s.cfs q).minVruntime)

/-- `__enqueue_entity`. -/
def treeEnqueueEntity (s : Sched) (q e : Nat) : Sched :=
  let before entry := decide (entityKey s q e < entityKey s q entry)
  s.setCfs q fun c =>
    { c with
      rbLeftmost := if leftmost before c.tasksTimeline then some e else c.rbLeftmost
      tasksTimeline := env.rb.insertColor e (link e before c.tasksTimeline) }

/-- `__dequeue_entity`. -/
def treeDequeueEntity (s : Sched) (q e : Nat) : Sched :=
  s.setCfs q fun c =>
    { c with
      rbLeftmost := if c.rbLeftmost = some e then following e (inorder c.tasksTimeline)
        else c.rbLeftmost
      tasksTimeline := env.rb.erase e c.tasksTimeline }

def clearBuddies (s : Sched) (q : Nat) (se : Option Nat) : Sched :=
  { s with buddies := env.clearBuddies s.buddies q se }

/-- `candidate` where there is one that does not lag too far behind the first entity. -/
def preferBuddy (s : Sched) (left candidate se : Option Nat) : Option Nat :=
  match candidate, left with
  | some b, some l =>
    if env.wakeupPreemptEntity (s.entity b) (s.entity l) < 1 then some b else se
  | _, _ => se

/-- The second choice when the first one is to be skipped. -/
def secondEntity (s : Sched) (q : Nat) (curr se : Option Nat) : Option Nat :=
  if se = curr then (s.cfs q).rbLeftmost
  else
    let second := se.bind fun e => following e (inorder (s.cfs q).tasksTimeline)
    match second, curr with
    | none, _ => curr
    | some n, some c => if env.entityBefore (s.entity c) (s.entity n) then curr else some n
    | some n, none => some n

def pickNextEntity (s : Sched) (q : Nat) (curr : Option Nat) : Option Nat × Sched :=
  let left := match (s.cfs q).rbLeftmost, curr with
    | none, _ => curr
    | some l, some c => if env.entityBefore (s.entity c) (s.entity l) then curr else some l
    | some l, none => some l
  let buddies := s.buddies q
  let second := if buddies.skip = left then secondEntity env s q curr left else none
  let se := preferBuddy env s left second left
  let se := preferBuddy env s left buddies.last se
  let se := preferBuddy env s left buddies.next se
  -- Each candidate is compared with `left`, also where that is null.
  let asked := second.isSome || buddies.last.isSome || buddies.next.isSome
  let s := { s with nullDeref := s.nullDeref || (left.isNone && asked) }
  (se, clearBuddies env s q se)

def setNextEntity (s : Sched) (q e : Nat) (now : U64) : Sched :=
  let s := if (s.entity e).onRq then treeDequeueEntity env s q e else s
  let s := s.setCfs q fun c => { c with curr := some e }
  s.setEntity e fun se => { se with prevSumExecRuntime := se.sumExecRuntime, execStart := now }

def putPrevEntity (s : Sched) (q e : Nat) (now : U64) : Sched :=
  let s := if (s.entity e).onRq then treeEnqueueEntity env (updateCurr env s q now) q e else s
  s.setCfs q fun c => { c with curr := none }

/-- The end of `pick_next_task_fair`, once the previous entity is put back. -/
def pickFirst (s : Sched) (now : U64) : Option Nat × Sched :=
  match pickNextEntity env s root none with
  | (none, s) => (none, s)
  | (some e, s) => (some e, setNextEntity env s root e now)

/-- The shortcut that lets the previous task run on. -/
def keepsPrev (h : Hierarchy) (s : Sched) (p : Nat) : Bool :=
  (s.entity p).onRq && (h.myQ p).isNone &&
    match (s.cfs root).rbLeftmost with
    | none => false
    | some l => decide (entityKey s root p ≤ entityKey s root l)

/-- `prev` is `none` when it is null or a task of another class. -/
def pickNextTaskFair (h : Hierarchy) (s : Sched) (prev : Option Nat) (clock : Nat → U64) :
    Option Nat × Sched :=
  if (s.cfs root).nrRunning = 0 then (none, s)
  else match prev with
    | none => pickFirst env s (clock 2)
    | some p =>
      let s := updateCurr env s root (clock 0)
      if keepsPrev h s p then (some p, s)
      else pickFirst env (putPrevEntity env s root p (clock 1)) (clock 2)

def placeEntity (s : Sched) (q e : Nat) (initial : Bool) : Sched :=
  let vruntime := (s.cfs q).minVruntime
  let vruntime := if initial && env.startDebit
    then vruntime + env.schedVslice (s.cfs q) (s.entity e) else vruntime
  let thresh := if env.gentleFairSleepers then env.sysctlSchedLatency >>> 1 else env.sysctlSchedLatency
  let vruntime := if initial then vruntime else vruntime - thresh.setWidth 64
  s.setEntity e fun se => { se with vruntime := env.maxVruntime se.vruntime vruntime }

/-- The bits of `flags` that `enqueue_entity` tests. -/
structure EnqueueFlags where
  wakeup : Bool
  waking : Bool
  deriving DecidableEq, Repr

def accountEntityEnqueue (s : Sched) (q e : Nat) : Sched :=
  s.setCfs q fun c => env.accountEntityEnqueue c (s.entity e)

def accountEntityDequeue (s : Sched) (q e : Nat) : Sched :=
  s.setCfs q fun c => env.accountEntityDequeue c (s.entity e)

def enqueueEntity (s : Sched) (q e : Nat) (flags : EnqueueFlags) (now : U64) : Sched :=
  let s := if !flags.wakeup || flags.waking then
    s.setEntity e fun se => { se with vruntime := se.vruntime + (s.cfs q).minVruntime } else s
  let s := updateCurr env s q now
  let s := accountEntityEnqueue env s q e
  let s := if flags.wakeup then placeEntity env s q e false else s
  let s := if (s.cfs q).curr = some e then s else treeEnqueueEntity env s q e
  s.setEntity e fun se => { se with onRq := true }

def dequeueEntity (s : Sched) (q e : Nat) (sleep : Bool) (now : U64) : Sched :=
  let s := updateCurr env s q now
  let s := clearBuddies env s q (some e)
  let s := if (s.cfs q).curr = some e then s else treeDequeueEntity env s q e
  let s := s.setEntity e fun se => { se with onRq := false }
  let s := accountEntityDequeue env s q e
  let s := if sleep then s else
    s.setEntity e fun se => { se with vruntime := se.vruntime - (s.cfs q).minVruntime }
  updateMinVruntime env s q

variable (h : Hierarchy)

/-- The first loop of `enqueue_task_fair` with what is left of the walk. -/
def enqueueLoop (clock : Nat → U64) : List Nat → EnqueueFlags → Sched → List Nat × Sched
  | [], _, s => ([], s)
  | e :: up, flags, s =>
    if (s.entity e).onRq then (e :: up, s)
    else
      let q := h.cfsRqOf e
      let s := enqueueEntity env s q e flags (clock q)
      if h.throttled q then (e :: up, s)
      else enqueueLoop clock up ⟨true, false⟩
        (s.setCfs q fun c => { c with hNrRunning := c.hNrRunning + 1 })

/-- The second loop of either operation, which only counts. -/
def countLoop (count : Nat → Nat) : List Nat → Sched → List Nat × Sched
  | [], s => ([], s)
  | e :: up, s =>
    let q := h.cfsRqOf e
    let s := s.setCfs q fun c => { c with hNrRunning := count c.hNrRunning }
    if h.throttled q then (e :: up, s) else countLoop count up s

def enqueueTaskFair (s : Sched) (p : Nat) (flags : EnqueueFlags) (clock : Nat → U64) : Sched :=
  let (rest, s) := enqueueLoop env h clock (h.path p) flags s
  let (rest, s) := countLoop h (· + 1) rest s
  if rest = [] then { s with nrRunning := env.addNrRunning s.nrRunning 1 } else s

/-- The first loop of `dequeue_task_fair`; `taskSleep` is the flag the caller gave. -/
def dequeueLoop (clock : Nat → U64) (taskSleep : Bool) : List Nat → Bool → Sched → List Nat × Sched
  | [], _, s => ([], s)
  | e :: up, sleep, s =>
    let q := h.cfsRqOf e
    let s := dequeueEntity env s q e sleep (clock q)
    if h.throttled q then (e :: up, s)
    else
      let s := s.setCfs q fun c => { c with hNrRunning := c.hNrRunning - 1 }
      if (s.cfs q).loadWeight ≠ 0 then
        match up with
        | [] => ([], s)
        | g :: up =>
          if taskSleep && !env.throttledHierarchy q then
            (g :: up, { s with buddies := env.setNextBuddy s.buddies g })
          else (g :: up, s)
      else dequeueLoop clock taskSleep up true s

def dequeueTaskFair (s : Sched) (p : Nat) (sleep : Bool) (clock : Nat → U64) : Sched :=
  let (rest, s) := dequeueLoop env h clock sleep (h.path p) sleep s
  let (rest, s) := countLoop h (· - 1) rest s
  if rest = [] then { s with nrRunning := env.subNrRunning s.nrRunning 1 } else s

end

/-- Values for the constants a configuration would fix, and plain versions of the
helpers: later and earlier of two virtual times by the sign of their difference. -/
def basePlatform : Platform where
  rb := plainBalancer
  minVruntime a b := if (b - a).toInt < 0 then b else a
  maxVruntime a b := if 0 < (b - a).toInt then b else a
  wmultConst := 2^32 - 1
  wmultShift := 32
  scaleLoadDown w := w
  mulU64U32Shr a mul shift := BitVec.ofNat 64 ((a.toNat * mul.toNat) >>> shift.toNat)
  entityBefore a b := decide ((a.vruntime - b.vruntime).toInt < 0)
  wakeupPreemptEntity a b :=
    let vdiff := (a.vruntime - b.vruntime).toInt
    if vdiff ≤ 0 then -1 else if 1000000 < vdiff then 1 else 0
  clearBuddies buddies q se := Function.update buddies q {
    next := if (buddies q).next = se then none else (buddies q).next
    last := if (buddies q).last = se then none else (buddies q).last
    skip := if (buddies q).skip = se then none else (buddies q).skip }
  clearBuddies_null buddies q se null := by simp [null]
  setNextBuddy buddies _ := buddies
  throttledHierarchy _ := false
  sysctlSchedLatency := 6000000
  gentleFairSleepers := true
  startDebit := true
  schedVslice _ se := se.vruntime
  taskNormal := 3
  accountEntityEnqueue c se := { c with nrRunning := c.nrRunning + 1, loadWeight := c.loadWeight + se.weight }
  accountEntityEnqueue_eq _ _ := rfl
  accountEntityDequeue c se := { c with nrRunning := c.nrRunning - 1, loadWeight := c.loadWeight - se.weight }
  accountEntityDequeue_eq _ _ := rfl
  addNrRunning := (· + ·)
  addNrRunning_eq _ _ := rfl
  subNrRunning := (· - ·)
  subNrRunning_eq _ _ := rfl

def newEntity (weight : Nat) : SchedEntity where
  weight := weight
  invWeight := 0
  onRq := false
  execStart := 0
  sumExecRuntime := 0
  prevSumExecRuntime := 0
  vruntime := 0

/-- One queue for all entities: no groups, nothing throttled. -/
def flat : Hierarchy where
  parentEntity _ := none
  cfsRqOf _ := root
  myQ _ := none
  throttled _ := false
  path e := [e]
  path_eq _ := rfl
  parent_owns _ _ up := by contradiction
  top _ _ := rfl
  one_owner _ _ _ owns := by contradiction
  root_unowned _ := by simp
  root_unthrottled := rfl

def emptyCfsRq : CfsRq where
  loadWeight := 0
  nrRunning := 0
  hNrRunning := 0
  minVruntime := 0
  tasksTimeline := .nil
  rbLeftmost := none
  curr := none

def emptySched (weight : Nat → Nat) : Sched where
  entity e := newEntity (weight e)
  cfs _ := emptyCfsRq
  buddies _ := ⟨none, none, none⟩
  nrRunning := 0
  curr := none
  nullDeref := false

end Kernal.Cfs
