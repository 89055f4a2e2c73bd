import Kernal.X86

/-! The routine `switch_to` of `switch.S` and the tasks that switch with it. A suspended
task consists of the frame that `switch_to` pushed and the slot that points to it. As
stacks and slots are apart, nothing another task does reaches either of them. -/
namespace Kernal.SwitchTo

open X86

/-- Where `switch.S` takes `thread.sp` to be in a `task_struct`. -/
def threadSp : Word := 0x1000

/-- `rdi` points to `prev` and `rsi` to `next`. -/
def switchTo : List Instr := [
  .push .rbp, .push .rbx, .push .r12, .push .r13, .push .r14, .push .r15, .pushf,
  .store .rsp threadSp .rdi,
  .load threadSp .rsi .rsp,
  .popf, .pop .r15, .pop .r14, .pop .r13, .pop .r12, .pop .rbx, .pop .rbp,
  .ret]

/-- A call of `switch_to`: the machine at the call and the return address. -/
structure Call where
  machine : Machine
  ret : Word

namespace Call

/-- The words the call leaves on the caller's stack, the last one pushed first. -/
def frame (c : Call) : List Word :=
  [c.machine.rflags, c.machine.reg .r15, c.machine.reg .r14, c.machine.reg .r13,
    c.machine.reg .r12, c.machine.reg .rbx, c.machine.reg .rbp, c.ret]

def sp (c : Call) : Word := c.machine.reg .rsp - 64

def saved (c : Call) : Machine := c.machine.pushAll c.frame.reverse

/-- The machine when the routine, entered at `entry`, has returned to some task. -/
def result (c : Call) (entry : Word) : Machine := (c.machine.call c.ret entry).exec switchTo

theorem saved_rsp (c : Call) : c.saved.reg .rsp = c.sp := Machine.pushAll_rsp _ _

theorem saved_stack (c : Call) : Stack c.saved.mem c.sp c.frame := by
  have stack := Stack.of_pushAll c.machine c.frame.reverse (by simp [frame])
  rw [List.reverse_reverse] at stack
  rw [← saved_rsp]
  exact stack

theorem saved_outside (c : Call) (outside : x ∉ span c.sp 64) : c.saved.mem x = c.machine.mem x := by
  refine Machine.pushAll_outside _ _ (by simp [frame]) ?_
  rw [← saved,saved_rsp]
  exact Nat.not_lt.mp outside

theorem result_mem (c : Call) (entry : Word) : (c.result entry).mem =
    store c.saved.mem (c.machine.reg .rdi + threadSp) c.sp := by
  rw [← saved_rsp]
  rfl

end Call

/-- The caller goes on as after any call. -/
structure Restored (c : Call) (m : Machine) : Prop where
  rip : m.rip = c.ret
  rsp : m.reg .rsp = c.machine.reg .rsp
  rbx : m.reg .rbx = c.machine.reg .rbx
  rbp : m.reg .rbp = c.machine.reg .rbp
  r12 : m.reg .r12 = c.machine.reg .r12
  r13 : m.reg .r13 = c.machine.reg .r13
  r14 : m.reg .r14 = c.machine.reg .r14
  r15 : m.reg .r15 = c.machine.reg .r15
  rflags : m.rflags = c.machine.rflags

/-- What `switch_to` returns with is what it finds on the stack of `next`. -/
theorem Call.result_stack (c : Call) (entry : Word) :
    let m := c.result entry
    let sp := load m.mem (c.machine.reg .rsi + threadSp)
    m.reg .rsp = sp + 64 ∧ Stack m.mem sp (Call.mk m m.rip).frame := by
  have popped (k : Machine) :
      let m := k.exec (switchTo.drop 9)
      m.mem = k.mem ∧ m.reg .rsp = k.reg .rsp + 64 ∧
        Stack k.mem (k.reg .rsp) (Call.mk m m.rip).frame := by
    refine ⟨rfl,?_,rfl,rfl,rfl,rfl,rfl,rfl,rfl,rfl,trivial⟩
    change k.reg .rsp + 8 + 8 + 8 + 8 + 8 + 8 + 8 + 8 = k.reg .rsp + 64
    bv_omega
  intro m sp
  generalize switched : (c.machine.call c.ret entry).exec (switchTo.take 9) = k
  have eq : m = k.exec (switchTo.drop 9) := by
    rw [← switched]
    rfl
  obtain ⟨mem,rsp,stack⟩ := popped k
  rw [← eq] at mem rsp stack
  have here : k.reg .rsp = sp := by
    change _ = load m.mem _
    rw [mem,← switched]
    simp [switchTo,Machine.step,Machine.set,Machine.call,Machine.push]
  rw [← here,mem]
  exact ⟨rsp,stack⟩

/-- Whoever's frame the slot of `next` points to is resumed. -/
theorem Call.result_restored (c : Call) (entry : Word) {d : Call}
    (slot : load (c.result entry).mem (c.machine.reg .rsi + threadSp) = d.sp)
    (stack : Stack (c.result entry).mem d.sp d.frame) : Restored d (c.result entry) := by
  obtain ⟨rsp,found⟩ := c.result_stack entry
  rw [slot] at rsp found
  have same : (Call.mk (c.result entry) (c.result entry).rip).frame = d.frame :=
    Stack.unique rfl found stack
  simp only [Call.frame,List.cons.injEq,and_true] at same
  obtain ⟨rflags,r15,r14,r13,r12,rbx,rbp,rip⟩ := same
  have back : d.sp + 64 = d.machine.reg .rsp := BitVec.sub_add_cancel ..
  exact ⟨rip,rsp.trans back,rbx,rbp,r12,r13,r14,r15,rflags⟩

/-- Where the tasks, named by a type, are in memory. -/
structure Layout (T : Type) where
  /-- The address of the `task_struct`. -/
  task : T → Word
  stack : T → Set Word
  stacks_apart : ∀ t u, t ≠ u → Disjoint (stack t) (stack u)
  slots_apart : ∀ t u, t ≠ u → Disjoint (span (task t + threadSp) 8) (span (task u + threadSp) 8)
  slot_apart : ∀ t u, Disjoint (span (task t + threadSp) 8) (stack u)

def Layout.slot (L : Layout T) (t : T) : Word := L.task t + threadSp

/-- The machine with the task it runs and each task's last call of `switch_to`. -/
structure Cpu (T : Type) where
  machine : Machine
  running : T
  called : T → Option Call

def Cpu.call (s : Cpu T) (ret : Word) : Call := ⟨s.machine, ret⟩

/-- The arguments of `switch_to`, and room for its frame on the caller's stack. -/
structure Ready (L : Layout T) (s : Cpu T) (next : T) : Prop where
  rdi : s.machine.reg .rdi = L.task s.running
  rsi : s.machine.reg .rsi = L.task next
  room : span (s.machine.reg .rsp - 64) 64 ⊆ L.stack s.running

/-- The task that made the call `c` is still as the call left it. -/
structure Parked (L : Layout T) (mem : Mem) (t : T) (c : Call) : Prop where
  slot : load mem (L.slot t) = c.sp
  frame : Stack mem c.sp c.frame
  room : span c.sp 64 ⊆ L.stack t
  rest : ∀ x ∈ L.stack t, x ∉ span c.sp 64 → mem x = c.machine.mem x

theorem Parked.congr {L : Layout T} (parked : Parked L mem t c)
    (stack : ∀ x ∈ L.stack t, mem' x = mem x) (slot : ∀ x ∈ span (L.slot t) 8, mem' x = mem x) :
    Parked L mem' t c where
  slot := (load_congr slot).trans parked.slot
  frame := parked.frame.congr (by simp [Call.frame]) fun x near => stack x (parked.room near)
  room := parked.room
  rest x here outside := (stack x here).trans (parked.rest x here outside)

def Intact (L : Layout T) (s : Cpu T) : Prop :=
  ∀ t c, s.called t = some c → t ≠ s.running → Parked L s.machine.mem t c

theorem Layout.not_mem_stack (L : Layout T) (other : t ≠ u) (here : x ∈ L.stack t) : x ∉ L.stack u :=
  Set.disjoint_left.mp (L.stacks_apart t u other) here

theorem Intact.work {L : Layout T} (intact : Intact L s)
    (own : ∀ x, x ∉ L.stack s.running → machine.mem x = s.machine.mem x) :
    Intact L { s with machine } := by
  intro t c called other
  refine (intact t c called other).congr (fun x here => own x ?_) fun x here => own x ?_
  · exact L.not_mem_stack other here
  · exact Set.disjoint_left.mp (L.slot_apart t s.running) here

/-- What the call writes is on the caller's stack and in its slot. -/
theorem Ready.mem {L : Layout T} (ready : Ready L s next) (ret entry : Word)
    (stack : x ∉ L.stack s.running) (slot : x ∉ span (L.slot s.running) 8) :
    ((s.call ret).result entry).mem x = s.machine.mem x := by
  rw [Call.result_mem,store_outside]
  · exact (s.call ret).saved_outside fun near => stack (ready.room near)
  · change 8 ≤ (x - (s.machine.reg .rdi + threadSp)).toNat
    rw [ready.rdi]
    exact Nat.not_lt.mp slot

/-- The caller is parked by its own call. -/
theorem Ready.parked {L : Layout T} (ready : Ready L s next) (ret entry : Word) :
    Parked L ((s.call ret).result entry).mem s.running (s.call ret) := by
  have slot : (s.call ret).machine.reg .rdi + threadSp = L.slot s.running :=
    congrArg (· + threadSp) ready.rdi
  have stack (x : Word) (here : x ∈ L.stack s.running) :
      ((s.call ret).result entry).mem x = (s.call ret).saved.mem x := by
    rw [Call.result_mem,slot]
    exact store_outside (Nat.not_lt.mp fun near =>
      Set.disjoint_left.mp (L.slot_apart s.running s.running) near here)
  constructor
  case slot =>
    rw [Call.result_mem,slot]
    exact load_store ..
  case frame =>
    refine (s.call ret).saved_stack.congr (by simp [Call.frame]) fun x near => ?_
    exact stack x (ready.room near)
  case room => exact ready.room
  case rest =>
    intro x here outside
    exact (stack x here).trans ((s.call ret).saved_outside outside)

section

variable [DecidableEq T]

def Cpu.switch (s : Cpu T) (next : T) (ret entry : Word) : Cpu T where
  machine := (s.call ret).result entry
  running := next
  called := Function.update s.called s.running (some (s.call ret))

/-- Every run of the tasks: the running one changes registers and its own stack as it
likes or calls `switch_to`. A task that has not called it before starts from whatever
its stack was prepared with. -/
inductive CpuRun (L : Layout T) : Cpu T → Prop where
  | boot (machine : Machine) (running : T) : CpuRun L ⟨machine, running, fun _ => none⟩
  | work {s : Cpu T} (machine : Machine) : CpuRun L s →
      (∀ x, x ∉ L.stack s.running → machine.mem x = s.machine.mem x) →
      CpuRun L { s with machine }
  | switch {s : Cpu T} {next : T} (ret entry : Word) : CpuRun L s → Ready L s next →
      CpuRun L (s.switch next ret entry)

/-- Right after a switch every task that has called is parked, the resumed one too. -/
theorem Intact.switched {L : Layout T} (intact : Intact L s) (ready : Ready L s next)
    (ret entry : Word) (called : (s.switch next ret entry).called t = some c) :
    Parked L (s.switch next ret entry).machine.mem t c := by
  by_cases caller : t = s.running
  · subst caller
    simp only [Cpu.switch,Function.update_self,Option.some.injEq] at called
    subst called
    exact ready.parked ret entry
  · simp only [Cpu.switch,Function.update_of_ne caller] at called
    refine (intact t c called caller).congr (fun x here => ?_) fun x here => ?_
    · refine ready.mem ret entry (L.not_mem_stack caller here) fun slot => ?_
      exact Set.disjoint_left.mp (L.slot_apart s.running t) slot here
    · refine ready.mem ret entry (Set.disjoint_left.mp (L.slot_apart t s.running) here) ?_
      exact Set.disjoint_left.mp (L.slots_apart t s.running caller) here

theorem CpuRun.intact {L : Layout T} (run : CpuRun L s) : Intact L s := by
  induction run with
  | boot => exact fun t c called => by contradiction
  | work machine _ own ih => exact ih.work own
  | switch ret entry _ ready ih => exact fun t c called _ => ih.switched ready ret entry called

theorem Intact.restored {L : Layout T} (intact : Intact L s) (ready : Ready L s next)
    (ret entry : Word) (called : (s.switch next ret entry).called next = some c) :
    Restored c (s.switch next ret entry).machine := by
  have parked := intact.switched ready ret entry called
  refine (s.call ret).result_restored entry ?_ parked.frame
  have next : (s.call ret).machine.reg .rsi + threadSp = L.slot next :=
    congrArg (· + threadSp) ready.rsi
  rw [next]
  exact parked.slot

/-- A task that is resumed goes on from its own last call of `switch_to`. -/
theorem resumed_task_restored (L : Layout T) {s : Cpu T} (run : CpuRun L s) {next : T}
    (ready : Ready L s next) (ret entry : Word) {c : Call}
    (called : (s.switch next ret entry).called next = some c) :
    Restored c (s.switch next ret entry).machine :=
  run.intact.restored ready ret entry called

end

def pairLayout : Layout Bool where
  task t := bif t then 0x200000 else 0x100000
  stack t := span (bif t then 0x400000 else 0x300000) 0x4000
  stacks_apart t u other := by
    cases t <;> cases u
    · contradiction
    · exact span_disjoint (by decide) (by decide)
    · exact span_disjoint (by decide) (by decide)
    · contradiction
  slots_apart t u other := by
    cases t <;> cases u
    · contradiction
    · exact span_disjoint (by decide) (by decide)
    · exact span_disjoint (by decide) (by decide)
    · contradiction
  slot_apart t u := by
    cases t <;> cases u
    all_goals exact span_disjoint (by decide) (by decide)

/-- The machine of a task of the pair about to switch to the other one. -/
def pairMachine (mem : Mem) (t : Bool) : Machine where
  reg
    | .rdi => pairLayout.task t
    | .rsi => pairLayout.task !t
    | .rsp => bif t then 0x403000 else 0x303000
    | .rbx => pairLayout.task t
    | _ => 0
  rip := 0
  rflags := bif t then 0x246 else 0x202
  mem := mem

theorem pairMachine_ready (mem : Mem) (t : Bool) (called : Bool → Option Call) :
    Ready pairLayout ⟨pairMachine mem t, t, called⟩ !t where
  rdi := rfl
  rsi := rfl
  room := by
    cases t
    all_goals exact span_subset (by simp [pairMachine])

def pairStart : Cpu Bool := ⟨pairMachine (fun _ => 0) false, false, fun _ => none⟩

/-- The other task has been started and is about to switch back. -/
def pairBack : Cpu Bool :=
  let s := pairStart.switch true 0x1234 0
  { s with machine := pairMachine s.machine.mem true }

theorem pairBack_run : CpuRun pairLayout pairBack :=
  .work _ (.switch _ _ (.boot _ _) (pairMachine_ready _ _ _)) fun _ _ => rfl

theorem resumed_task_restored_pair :
    Restored (pairStart.call 0x1234) (pairBack.switch false 0x5678 0).machine :=
  resumed_task_restored pairLayout pairBack_run (pairMachine_ready _ true _) _ _ rfl

end Kernal.SwitchTo
