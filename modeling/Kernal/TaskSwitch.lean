import Kernal.SwitchTo
import Kernal.Task

/-! `context_switch` and `finish_task_switch` of `sched.c` on top of `switch_to`. The
variable `prev` that a resumed task hands to `finish_task_switch` is the one it kept
across its own call, and there it stands for the task itself: `switch_to` gives nothing
back of the task that ran in between. -/
namespace Kernal.SwitchTo

open X86

/-- Where the compiled `context_switch` keeps a variable across a call. -/
inductive Place where
  | reg (r : Reg)
  | stack (offset : Word)
  deriving DecidableEq, Repr

namespace Place

def read (m : Machine) : Place → Word
  | .reg r => m.reg r
  | .stack offset => load m.mem (m.reg .rsp + offset)

/-- A callee-saved register, or a word of the caller's stack above its stack pointer. -/
def Safe (stack : Set Word) (m : Machine) : Place → Prop
  | .reg r => r ∈ calleeSaved
  | .stack offset => offset.toNat + 72 ≤ 2^64 ∧ span (m.reg .rsp + offset) 8 ⊆ stack

end Place

theorem Restored.calleeSaved (restored : Restored c m) (saved : r ∈ X86.calleeSaved) :
    m.reg r = c.machine.reg r := by
  simp only [X86.calleeSaved,List.mem_cons,List.not_mem_nil,or_false] at saved
  rcases saved with rfl | rfl | rfl | rfl | rfl | rfl
  · exact restored.rbx
  · exact restored.rbp
  · exact restored.r12
  · exact restored.r13
  · exact restored.r14
  · exact restored.r15

theorem Layout.task_injective (L : Layout T) (same : L.task t = L.task u) : t = u := by
  by_contra other
  have apart := L.slots_apart t u other
  rw [same] at apart
  have here : L.task u + threadSp ∈ span (L.task u + threadSp) 8 := by
    change (_ - _ : Word).toNat < 8
    simp
  exact Set.disjoint_left.mp apart here here

/-- One switch of a run, with what `finish_task_switch` is called on when `next` was
suspended in `context_switch`, and what it calls `put_task_struct` on. -/
structure Switch (T : Type) where
  prev : T
  next : T
  /-- `prev` leaves in the state `TASK_DEAD`. -/
  dead : Bool
  finish : Option Word
  put : Option Word

/-- `state` is the field of the `task_struct` at an address. -/
structure Tasks (T : Type) where
  cpu : Cpu T
  state : Word → Nat
  history : List (Switch T)

/-- What `finish_task_switch(prev)` puts. -/
def finishTaskSwitch (taskDead : Nat) (state : Word → Nat) (prev : Word) : Option Word :=
  if state prev = taskDead then some prev else none

section

variable [DecidableEq T] (L : Layout T) (taskDead : Nat) (place : Place)

/-- A task that runs for the first time does not return into `context_switch`. -/
def contextSwitch (s : Tasks T) (next : T) (ret entry : Word) : Tasks T :=
  let cpu := s.cpu.switch next ret entry
  let finish := if (s.cpu.called next).isSome then some (place.read cpu.machine) else none
  { cpu
    state := s.state
    history := s.history ++ [{
      prev := s.cpu.running
      next
      dead := s.state (L.task s.cpu.running) == taskDead
      finish
      put := finish.bind (finishTaskSwitch taskDead s.state) }] }

/-- Every run of context switches. Task states change in any way; at the call of
`switch_to` the variable `prev` is at its place and points to the running task. -/
inductive SwitchRun : Tasks T → Prop where
  | boot (machine : Machine) (running : T) (state : Word → Nat) :
      SwitchRun ⟨⟨machine, running, fun _ => none⟩, state, []⟩
  | work {s : Tasks T} (machine : Machine) : SwitchRun s →
      (∀ x, x ∉ L.stack s.cpu.running → machine.mem x = s.cpu.machine.mem x) →
      SwitchRun { s with cpu := { s.cpu with machine } }
  | setState {s : Tasks T} (state : Word → Nat) : SwitchRun s → SwitchRun { s with state }
  | switch {s : Tasks T} {next : T} (ret entry : Word) : SwitchRun s → Ready L s.cpu next →
      next ≠ s.cpu.running → place.Safe (L.stack s.cpu.running) s.cpu.machine →
      place.read s.cpu.machine = L.task s.cpu.running →
      SwitchRun (contextSwitch L taskDead place s next ret entry)

variable {L taskDead place}

/-- A resumed task finds its variable as it was at its own call. -/
theorem Intact.read {s : Cpu T} (intact : Intact L s) (ready : Ready L s next) (ret entry : Word)
    (called : (s.switch next ret entry).called next = some c)
    (safe : place.Safe (L.stack next) c.machine) :
    place.read (s.switch next ret entry).machine = place.read c.machine := by
  have restored := intact.restored ready ret entry called
  cases place with
  | reg r => exact restored.calleeSaved safe
  | stack offset =>
    obtain ⟨above,inside⟩ := safe
    simp only [Place.read,restored.rsp]
    refine load_congr fun x here => ?_
    refine (intact.switched ready ret entry called).rest x (inside here) fun frame => ?_
    change (x - (c.machine.reg .rsp - 64)).toNat < 64 at frame
    change (x - (c.machine.reg .rsp + offset)).toNat < 8 at here
    bv_omega

/-- What a run keeps: `called` and `history` tell the same story, and every variable
`prev` points to the task on whose stack it is. -/
structure Kept (L : Layout T) (place : Place) (s : Tasks T) : Prop where
  intact : Intact L s.cpu
  local_prev : ∀ t c, s.cpu.called t = some c →
    place.Safe (L.stack t) c.machine ∧ place.read c.machine = L.task t
  left : ∀ t, s.cpu.called t = none ↔ ∀ e ∈ s.history, e.prev ≠ t
  moves : ∀ e ∈ s.history, e.prev ≠ e.next
  finishes : ∀ e ∈ s.history, ∀ arg, e.finish = some arg → arg = L.task e.next
  puts : ∀ e ∈ s.history, e.finish = none → e.put = none
  fresh : (∀ e ∈ s.history, e.finish = none) ↔ s.history.Pairwise fun e f => e.prev ≠ f.next

theorem Kept.switch {s : Tasks T} (kept : Kept L place s) (ready : Ready L s.cpu next)
    (other : next ≠ s.cpu.running) (safe : place.Safe (L.stack s.cpu.running) s.cpu.machine)
    (holds : place.read s.cpu.machine = L.task s.cpu.running) (ret entry : Word) :
    Kept L place (contextSwitch L taskDead place s next ret entry) := by
  have same : (s.cpu.switch next ret entry).called next = s.cpu.called next :=
    Function.update_of_ne other ..
  constructor
  case intact => exact fun t c called _ => kept.intact.switched ready ret entry called
  case local_prev =>
    intro t c called
    by_cases caller : t = s.cpu.running
    · subst caller
      simp only [contextSwitch,Cpu.switch,Function.update_self,Option.some.injEq] at called
      subst called
      exact ⟨safe,holds⟩
    · simp only [contextSwitch,Cpu.switch,Function.update_of_ne caller] at called
      exact kept.local_prev t c called
  case left =>
    intro t
    simp only [contextSwitch,List.mem_append,List.mem_singleton,or_imp,forall_and,forall_eq]
    by_cases caller : s.cpu.running = t
    · simp [Cpu.switch,caller]
    · simp [Cpu.switch,Function.update_of_ne (Ne.symm caller),kept.left t,caller]
  case moves =>
    simp only [contextSwitch,List.mem_append,List.mem_singleton,or_imp,forall_and,forall_eq]
    exact ⟨kept.moves,other.symm⟩
  case finishes =>
    simp only [contextSwitch,List.mem_append,List.mem_singleton,or_imp,forall_and,forall_eq]
    refine ⟨kept.finishes,fun arg finish => ?_⟩
    split at finish
    next suspended =>
      obtain ⟨c,called⟩ := Option.isSome_iff_exists.mp suspended
      obtain ⟨safe,own⟩ := kept.local_prev next c called
      rw [← Option.some.inj finish,kept.intact.read ready ret entry (same.trans called) safe,own]
    next => contradiction
  case puts =>
    simp only [contextSwitch,List.mem_append,List.mem_singleton,or_imp,forall_and,forall_eq]
    exact ⟨kept.puts,fun finish => by rw [finish]; rfl⟩
  case fresh =>
    simp only [contextSwitch,List.mem_append,List.mem_singleton,or_imp,forall_and,forall_eq,
      List.pairwise_append,List.pairwise_singleton,kept.fresh,true_and]
    refine and_congr_right fun _ => ?_
    rw [← kept.left next]
    cases s.cpu.called next <;> simp

theorem SwitchRun.kept {s : Tasks T} (run : SwitchRun L taskDead place s) : Kept L place s := by
  induction run with
  | boot machine running state =>
    refine ⟨fun t c called => ?_,fun t c called => ?_,?_,?_,?_,?_,?_⟩
    · contradiction
    · contradiction
    all_goals simp
  | work machine _ own ih =>
    exact ⟨ih.intact.work own,ih.local_prev,ih.left,ih.moves,ih.finishes,ih.puts,ih.fresh⟩
  | setState state _ ih => exact ⟨ih.intact,ih.local_prev,ih.left,ih.moves,ih.finishes,ih.puts,ih.fresh⟩
  | switch ret entry _ ready other safe holds ih => exact ih.switch ready other safe holds ret entry

end

section Kernel

variable (env : Task.Platform) (L : Layout Nat) (place : Place)

/-- The kernel of `sched.c` on this machine: they switch together, and between two switches
the kernel does anything that is not one. -/
inductive Together : Task.Kernel → Tasks Nat → Prop where
  | boot {k : Task.Kernel} (machine : Machine) (running : Nat) (state : Word → Nat) : (∀ t, k.frame t = none) →
      (∀ t, state (L.task t) = (k.task t).state) → Together k ⟨⟨machine, running, fun _ => none⟩, state, []⟩
  | work {k k' : Task.Kernel} {s : Tasks Nat} (machine : Machine) (state : Word → Nat) : Together k s →
      (∀ x, x ∉ L.stack s.cpu.running → machine.mem x = s.cpu.machine.mem x) → k'.frame = k.frame →
      (∀ t, state (L.task t) = (k'.task t).state) → Together k' { s with cpu := { s.cpu with machine }, state }
  | switch {k : Task.Kernel} {s : Tasks Nat} {next : Nat} (ret entry : Word) : Together k s → Ready L s.cpu next →
      next ≠ s.cpu.running → place.Safe (L.stack s.cpu.running) s.cpu.machine →
      place.read s.cpu.machine = L.task s.cpu.running →
      Together (Task.switchTo env k s.cpu.running next) (contextSwitch L env.taskDead place s next ret entry)

/-- The kernel's record of the suspended tasks and their states is what the machine has. -/
structure Recorded (L : Layout Nat) (k : Task.Kernel) (s : Tasks Nat) : Prop where
  frame : ∀ t, t ≠ s.cpu.running → k.frame t = if (s.cpu.called t).isSome then some t else none
  state : ∀ t, s.state (L.task t) = (k.task t).state

variable {env L place} {k : Task.Kernel} {s : Tasks Nat}

theorem Together.run (together : Together env L place k s) : SwitchRun L env.taskDead place s := by
  induction together with
  | boot machine running state _ _ => exact .boot machine running state
  | work machine state _ own _ _ ih => exact .setState state (.work machine ih own)
  | switch ret entry _ ready other safe holds ih => exact .switch ret entry ih ready other safe holds

/-- What `switchTo` leaves in the record, whether it finishes a switch or not. -/
theorem switchTo_frame (k : Task.Kernel) (prev next : Nat) (away : t ≠ next) :
    (Task.switchTo env k prev next).frame t = if t = prev then some prev else k.frame t := by
  unfold Task.switchTo
  dsimp only
  split
  · exact Function.update_apply ..
  · rw [Task.finishTaskSwitch_frame]
    exact (Function.update_of_ne away ..).trans (Function.update_apply ..)

theorem Together.recorded (together : Together env L place k s) : Recorded L k s := by
  induction together with
  | boot machine running state none same => exact ⟨fun t _ => none t,same⟩
  | work machine state _ _ frame same ih => exact ⟨fun t other => frame ▸ ih.frame t other,same⟩
  | @switch k s next ret entry _ _ other _ _ ih =>
    refine ⟨fun t away => ?_,fun t => ?_⟩
    · have away : t ≠ next := away
      rw [switchTo_frame k _ _ away]
      by_cases caller : t = s.cpu.running
      · simp [contextSwitch,Cpu.switch,caller]
      · simpa [contextSwitch,Cpu.switch,caller] using ih.frame t caller
    · exact (ih.state t).trans ((Task.switchTo_still env k s.cpu.running next).state t).symm

/-- `switchTo` finishes the switch for the resumed task exactly when the machine calls
`finish_task_switch`, which gets that very task, and both put it for the same state. -/
theorem switchTo_finishes (together : Together env L place k s) (ready : Ready L s.cpu next)
    (other : next ≠ s.cpu.running) (safe : place.Safe (L.stack s.cpu.running) s.cpu.machine)
    (holds : place.read s.cpu.machine = L.task s.cpu.running) (ret entry : Word) :
    let left := { k with frame := Function.update k.frame s.cpu.running (some s.cpu.running) }
    ∃ e, (contextSwitch L env.taskDead place s next ret entry).history = s.history ++ [e] ∧
      (e.finish = none ∧ Task.switchTo env k s.cpu.running next = left ∨
        e.finish = some (L.task next) ∧ (e.put = some (L.task next) ↔ (k.task next).state = env.taskDead) ∧
          Task.switchTo env k s.cpu.running next =
            Task.finishTaskSwitch env { left with frame := Function.update left.frame next none } next) := by
  intro left
  have recorded := together.recorded.frame next other
  have saved : Function.update k.frame s.cpu.running (some s.cpu.running) next = k.frame next :=
    Function.update_of_ne other ..
  have kept := (SwitchRun.switch ret entry together.run ready other safe holds).kept
  refine ⟨_,rfl,?_⟩
  cases called : s.cpu.called next with
  | none =>
    simp only [called,Option.isSome_none,Bool.false_eq_true,if_false] at recorded
    refine .inl ⟨by simp,?_⟩
    simp only [Task.switchTo,saved,recorded,left]
  | some c =>
    simp only [called,Option.isSome_some,if_true] at recorded
    have own := kept.finishes _ (List.mem_append_right _ (List.mem_singleton_self _))
      (place.read (s.cpu.switch next ret entry).machine) (by simp [called])
    refine .inr ⟨by simp [own],?_,?_⟩
    · simp [own,finishTaskSwitch,together.recorded.state]
    · simp only [Task.switchTo,saved,recorded,left]

end Kernel

def puts (L : Layout T) (t : T) (history : List (Switch T)) : Nat :=
  history.countP fun e => e.put == some (L.task t)

/-- `finish_task_switch` receives the task that ran before, and a task that leaves for
the last time dead is put once, after another one has started. -/
structure Released (L : Layout T) (history : List (Switch T)) : Prop where
  received : ∀ e ∈ history, ∀ arg, e.finish = some arg → arg = L.task e.prev
  once : ∀ before e after, history = before ++ e :: after → e.dead = true →
    (∀ f ∈ after, f.next ≠ e.prev) → puts L e.prev before = 0 ∧ puts L e.prev (e :: after) = 1

/-- No switch goes to a task that has left before, and none leaves dead. -/
structure FirstRuns (history : List (Switch T)) : Prop where
  fresh : history.Pairwise fun e f => e.prev ≠ f.next
  alive : ∀ e ∈ history, e.dead = false

variable [DecidableEq T]

/-- Only where no task is ever resumed is there nothing `finish_task_switch` gets wrong. -/
theorem released_iff_firstRuns (L : Layout T) (taskDead : Nat) (place : Place) (s : Tasks T)
    (run : SwitchRun L taskDead place s) : Released L s.history ↔ FirstRuns s.history := by
  have kept := run.kept
  constructor
  · intro released
    -- A call would get the resumed task, which is not the one that ran before.
    have unfinished (e : Switch T) (member : e ∈ s.history) : e.finish = none := by
      cases finish : e.finish with
      | none => rfl
      | some arg =>
        have prev := released.received e member arg finish
        have next := kept.finishes e member arg finish
        exact absurd (L.task_injective (prev.symm.trans next)) (kept.moves e member)
    have fresh := kept.fresh.mp unfinished
    refine ⟨fresh,fun e member => ?_⟩
    cases dead : e.dead with
    | false => rfl
    | true =>
      -- Without a call nobody puts the dead task.
      obtain ⟨before,after,split⟩ := List.append_of_mem member
      rw [split,List.pairwise_append,List.pairwise_cons] at fresh
      have once := (released.once before e after split dead
        fun f later => (fresh.2.1.1 f later).symm).2
      have never : puts L e.prev (e :: after) = 0 := by
        refine List.countP_eq_zero.mpr fun f later => ?_
        have member : f ∈ s.history := by
          rw [split]
          exact List.mem_append_right before later
        simp [kept.puts f member (unfinished f member)]
      rw [never] at once
      contradiction
  · intro first
    have unfinished := kept.fresh.mpr first.fresh
    refine ⟨fun e member arg finish => ?_,fun before e after split dead => ?_⟩
    · rw [unfinished e member] at finish
      contradiction
    · have alive := first.alive e (by simp [split])
      rw [dead] at alive
      contradiction

def pairStarted : Tasks Bool :=
  contextSwitch pairLayout 64 (.reg .rbx) ⟨pairStart, fun _ => 0, []⟩ true 0x1234 0

theorem pairStarted_run : SwitchRun pairLayout 64 (.reg .rbx) pairStarted :=
  .switch _ _ (.boot _ _ _) (pairMachine_ready _ _ _) (by decide) (by simp [Place.Safe,calleeSaved]) rfl

theorem released_iff_firstRuns_started :
    FirstRuns pairStarted.history ∧ Released pairLayout pairStarted.history := by
  have first : FirstRuns pairStarted.history :=
    ⟨List.pairwise_singleton .. ,fun e member => by rw [List.mem_singleton.mp member]; rfl⟩
  exact ⟨first,(released_iff_firstRuns pairLayout 64 (.reg .rbx) _ pairStarted_run).mpr first⟩

/-- The second task exits and is about to switch back. -/
def pairExiting : Tasks Bool where
  cpu := { pairStarted.cpu with machine := pairMachine pairStarted.cpu.machine.mem true }
  state a := if a = pairLayout.task true then 64 else 0
  history := pairStarted.history

def pairExited : Tasks Bool := contextSwitch pairLayout 64 (.reg .rbx) pairExiting false 0x5678 0

theorem pairExited_run : SwitchRun pairLayout 64 (.reg .rbx) pairExited :=
  .switch _ _ (.setState _ (.work (pairMachine pairStarted.cpu.machine.mem true) pairStarted_run fun _ _ => rfl))
    (pairMachine_ready _ true _) (by decide) (by simp [Place.Safe,calleeSaved]) rfl

/-- The first task is resumed, finishes the switch with itself and puts nothing. -/
theorem exited_task_not_put : SwitchRun pairLayout 64 (.reg .rbx) pairExited ∧
    (∃ e ∈ pairExited.history, e.prev = true ∧ e.dead = true ∧
      e.finish = some (pairLayout.task false) ∧ e.put = none) ∧
    ¬Released pairLayout pairExited.history := by
  obtain ⟨arg,read⟩ : ∃ arg, Place.read pairExited.cpu.machine (.reg .rbx) = arg := ⟨_,rfl⟩
  -- The switch back to the first task, the last one of the history.
  let back : Switch Bool := ⟨true,false,true,some arg,finishTaskSwitch 64 pairExiting.state arg⟩
  have member : back ∈ pairExited.history := by
    refine List.mem_append_right _ (List.mem_singleton.mpr ?_)
    simp only [back,← read]
    rfl
  have own : arg = pairLayout.task false := pairExited_run.kept.finishes back member arg rfl
  refine ⟨pairExited_run,⟨back,member,rfl,rfl,congrArg some own,?_⟩,fun released => ?_⟩
  · simp only [back,own]
    rfl
  · have prev := released.received back member arg rfl
    rw [own] at prev
    exact Bool.false_ne_true (pairLayout.task_injective prev)

end Kernal.SwitchTo
