import Kernal.X86

/-! The entry points of `interrupt.S`. Each one saves registers on the stack below the frame
that the processor pushed, calls a C function and takes the words off again before `iretq`.
The stubs of the exceptions differ in one word only: where the processor pushes no error code,
the stub pushes a zero in its place. -/
namespace Kernal.Interrupt

open X86

inductive Seg where
  | cs | ss | ds | es | fs | gs
  deriving DecidableEq, Repr

abbrev Selector := BitVec 16

structure Cpu where
  machine : Machine
  seg : Seg → Selector
  /-- The address of the last page fault. -/
  cr2 : Word
  /-- The bytes written to ports, the last one first. -/
  sent : List (BitVec 16 × BitVec 8)

inductive Instr where
  | base (i : X86.Instr)
  | pushImm (imm : Word)
  | movFromSeg (s : Seg) (r : Reg)
  | movToSeg (r : Reg) (s : Seg)
  | movFromCr2 (r : Reg)
  /-- `movb` to the lowest byte of the register. -/
  | movb (imm : BitVec 8) (r : Reg)
  | outb (r : Reg) (port : BitVec 16)
  | cli
  | iretq
  deriving DecidableEq, Repr

def IF : Word := 0x200

/-- The words `iretq` takes off the stack, from the top on. -/
def iretWords (c : Cpu) : List Word :=
  [c.machine.rip, (c.seg .cs).setWidth 64, c.machine.rflags, c.machine.reg .rsp, (c.seg .ss).setWidth 64]

namespace Cpu

def rsp (c : Cpu) : Word := c.machine.reg .rsp

def iret (c : Cpu) : Cpu where
  machine := { c.machine.set .rsp (load c.machine.mem (c.rsp + 24)) with
    rip := load c.machine.mem c.rsp
    rflags := load c.machine.mem (c.rsp + 16) }
  seg
    | .cs => (load c.machine.mem (c.rsp + 8)).setWidth 16
    | .ss => (load c.machine.mem (c.rsp + 32)).setWidth 16
    | s => c.seg s
  cr2 := c.cr2
  sent := c.sent

theorem iret_rsp (c : Cpu) : c.iret.machine.reg .rsp = load c.machine.mem (c.rsp + 24) := by
  simp [iret,Machine.set]

theorem iret_reg (c : Cpu) (other : r ≠ .rsp) : c.iret.machine.reg r = c.machine.reg r := by
  simp [iret,Machine.set,other]

def step (c : Cpu) : Instr → Cpu
  | .base i => { c with machine := c.machine.step i }
  | .pushImm imm => { c with machine := c.machine.push imm }
  | .movFromSeg s r => { c with machine := c.machine.set r ((c.seg s).setWidth 64) }
  | .movToSeg r s => { c with seg := Function.update c.seg s ((c.machine.reg r).setWidth 16) }
  | .movFromCr2 r => { c with machine := c.machine.set r c.cr2 }
  | .movb imm r =>
    { c with machine := c.machine.set r ((c.machine.reg r &&& ~~~0xff) ||| imm.setWidth 64) }
  | .outb r port => { c with sent := (port, (c.machine.reg r).setWidth 8) :: c.sent }
  | .cli => { c with machine := { c.machine with rflags := c.machine.rflags &&& ~~~IF } }
  | .iretq => c.iret

def exec (c : Cpu) (code : List Instr) : Cpu := code.foldl step c

def call (c : Cpu) (next target : Word) : Cpu := { c with machine := c.machine.call next target }

@[simp] theorem exec_nil (c : Cpu) : c.exec [] = c := rfl

@[simp] theorem exec_cons (c : Cpu) (i : Instr) (code : List Instr) :
    c.exec (i :: code) = (c.step i).exec code := rfl

theorem exec_append (c : Cpu) (first second : List Instr) :
    c.exec (first ++ second) = (c.exec first).exec second := List.foldl_append

/-- Instructions of the plain machine leave the rest alone. -/
theorem exec_base (code : List X86.Instr) : (c : Cpu) →
    c.exec (code.map .base) = { c with machine := c.machine.exec code } := by
  induction code with
  | nil => exact fun _ => rfl
  | cons i code ih => exact fun c => ih (c.step (.base i))

end Cpu

/-- The stack the processor starts an interrupt on and the selectors it loads. -/
structure Arrival where
  top : Word
  cs : Selector
  ss : Selector

/-- The processor takes an interrupt: it pushes the words for `iretq` and, for some exceptions,
an error code on top of them. -/
def Cpu.deliver (c : Cpu) (a : Arrival) (error : Option Word) : Cpu :=
  { c with
    machine := (c.machine.set .rsp a.top).pushAll ((iretWords c).reverse ++ error.toList)
    seg := Function.update (Function.update c.seg .cs a.cs) .ss a.ss }

section Code

/-- In the order in which they are pushed. -/
def generalRegs : List Reg :=
  [.rax, .rbx, .rcx, .rdx, .rbp, .rsi, .rdi, .r8, .r9, .r10, .r11, .r12, .r13, .r14, .r15]

def dataSegs : List Seg := [.ds, .es, .fs, .gs]

def saveRegs : List Instr := (generalRegs.map .push).map .base

def restoreRegs : List Instr := (generalRegs.reverse.map .pop).map .base

def saveSegs : List Instr := dataSegs.flatMap fun s => [.movFromSeg s .rax, .base (.push .rax)]

def kernelSegs : List Instr := .base (.movImm 0x10 .rax) :: dataSegs.map (.movToSeg .rax)

def restoreSegs : List Instr :=
  dataSegs.reverse.flatMap fun s => [.base (.pop .rax), .movToSeg .rax s]

/-- The common stubs up to the call. `isr_common_stub` and `irq_common_stub` differ in the
function they call. -/
def commonEnter : List Instr := saveRegs ++ saveSegs ++ kernelSegs ++ [.base (.mov .rsp .rdi)]

def commonLeave : List Instr := restoreSegs ++ restoreRegs ++ [.base (.add 16 .rsp), .iretq]

def errcodes : List Nat := [8, 10, 11, 12, 13, 14, 17]

def isrNoerrcode (num : Nat) : List Instr := [.cli, .pushImm 0, .pushImm (BitVec.ofNat 64 num)]

def isrErrcode (num : Nat) : List Instr := [.cli, .pushImm (BitVec.ofNat 64 num)]

def isr (num : Nat) : List Instr := if num ∈ errcodes then isrErrcode num else isrNoerrcode num

def irq (num : Nat) : List Instr := [.cli, .pushImm 0, .pushImm (BitVec.ofNat 64 (32 + num))]

/-- `rdi` is left as it is. -/
def pageFaultEnter : List Instr := saveRegs ++ [.movFromCr2 .rsi, .base (.load 120 .rsp .rdx)]

def pageFaultLeave : List Instr := restoreRegs ++ [.base (.add 8 .rsp), .iretq]

/-- The end of `timer_interrupt_handler` and of `keyboard_interrupt_handler`. -/
def deviceLeave : List Instr := [.movb 0x20 .rax, .outb .rax 0x20] ++ restoreRegs ++ [.iretq]

end Code

theorem pushAll_append (ws ws' : List Word) : (m : Machine) →
    m.pushAll (ws ++ ws') = (m.pushAll ws).pushAll ws' := by
  induction ws with
  | nil => exact fun _ => rfl
  | cons w ws ih => exact fun m => ih (m.push w)

/-- Only memory and the stack pointer count for what pushes do to them. -/
theorem pushAll_congr (ws : List Word) : {m m' : Machine} → m'.mem = m.mem → m'.reg .rsp = m.reg .rsp →
    (m'.pushAll ws).mem = (m.pushAll ws).mem ∧ (m'.pushAll ws).reg .rsp = (m.pushAll ws).reg .rsp := by
  induction ws with
  | nil => exact fun mem rsp => ⟨mem,rsp⟩
  | cons w ws ih =>
    intro m m' mem rsp
    refine ih ?_ ?_
    · simp only [Machine.push,mem,rsp]
    · rw [Machine.push_rsp,Machine.push_rsp,rsp]

theorem stack_append {mem : Mem} {vs ws : List Word} : {sp : Word} →
    Stack mem sp (vs ++ ws) → Stack mem sp vs ∧ Stack mem (sp + BitVec.ofNat 64 (8 * vs.length)) ws := by
  induction vs with
  | nil =>
    intro sp stack
    refine ⟨trivial,?_⟩
    simpa using stack
  | cons v vs ih =>
    intro sp stack
    obtain ⟨first,rest⟩ := ih stack.2
    refine ⟨⟨stack.1,first⟩,?_⟩
    have place : sp + 8 + BitVec.ofNat 64 (8 * vs.length) = sp + BitVec.ofNat 64 (8 * (v :: vs).length) := by
      rw [List.length_cons]
      bv_omega
    rwa [place] at rest

/-- `ws` were pushed on the way from `c` to `c'`. -/
structure Pushed (ws : List Word) (c c' : Cpu) : Prop where
  mem : c'.machine.mem = (c.machine.pushAll ws).mem
  rsp : c'.rsp = (c.machine.pushAll ws).reg .rsp

theorem Pushed.trans {c c' c'' : Cpu} (first : Pushed ws c c') (second : Pushed ws' c' c'') :
    Pushed (ws ++ ws') c c'' := by
  obtain ⟨mem,rsp⟩ := pushAll_congr ws' first.mem first.rsp
  refine ⟨?_,?_⟩
  · rw [pushAll_append,second.mem,mem]
  · rw [pushAll_append,second.rsp,rsp]

structure Resumed (u c : Cpu) : Prop where
  reg : ∀ r, c.machine.reg r = u.machine.reg r
  rip : c.machine.rip = u.machine.rip
  rflags : c.machine.rflags = u.machine.rflags
  seg : ∀ s, c.seg s = u.seg s

section Leaving

variable {c u : Cpu}

theorem selector_kept (s : Selector) : (s.setWidth 64).setWidth 16 = s := by
  rw [BitVec.setWidth_setWidth_of_le _ (by decide),BitVec.setWidth_eq]

theorem iret_resumed (stack : Stack c.machine.mem c.rsp (iretWords u))
    (regs : ∀ r, r ≠ .rsp → c.machine.reg r = u.machine.reg r) (segs : ∀ s ∈ dataSegs, c.seg s = u.seg s) :
    Resumed u c.iret := by
  obtain ⟨rip,cs,rflags,rsp,ss,_⟩ := stack
  simp only [BitVec.add_assoc] at rflags rsp ss
  refine ⟨fun r => ?_,rip,rflags,fun s => ?_⟩
  · by_cases top : r = .rsp
    · subst r
      exact c.iret_rsp.trans rsp
    · exact (c.iret_reg top).trans (regs r top)
  · cases s with
    | cs => exact (congrArg (BitVec.setWidth 16) cs).trans (selector_kept _)
    | ss => exact (congrArg (BitVec.setWidth 16) ss).trans (selector_kept _)
    | ds | es | fs | gs => exact segs _ (by decide)

theorem exec_pops_mem (rs : List Reg) : (m : Machine) → (m.exec (rs.map .pop)).mem = m.mem := by
  induction rs with
  | nil => exact fun _ => rfl
  | cons r rs ih => exact fun m => ih (m.step (.pop r))

theorem restoreRegs_exec (stack : Stack c.machine.mem c.rsp ((generalRegs.map u.machine.reg).reverse ++ ws)) :
    let c' := c.exec restoreRegs
    (∀ r, r ≠ .rsp → c'.machine.reg r = u.machine.reg r) ∧ Stack c'.machine.mem c'.rsp ws ∧
      c'.seg = c.seg ∧ c'.machine.mem = c.machine.mem := by
  obtain ⟨regs,rest⟩ := stack_append stack
  rw [← List.map_reverse] at regs
  have popped := Stack.pops generalRegs.reverse (by decide) (by decide) rfl regs
  have all (r : Reg) (notSp : r ≠ .rsp) : r ∈ generalRegs.reverse := by
    cases r <;> first | contradiction | decide
  have mem := exec_pops_mem generalRegs.reverse c.machine
  have others : Reg.rsp ∉ generalRegs.reverse := by decide
  have rsp := Machine.exec_pops_rsp others c.machine
  intro c'
  have run : c' = { c with machine := c.machine.exec (generalRegs.reverse.map .pop) } := Cpu.exec_base _ c
  rw [run]
  refine ⟨fun r notSp => List.map_inj_left.mp popped r (all r notSp),?_,rfl,mem⟩
  change Stack (c.machine.exec _).mem ((c.machine.exec _).reg .rsp) ws
  rw [mem,rsp]
  exact rest

theorem restoreSegs_exec (stack : Stack c.machine.mem c.rsp
      ((dataSegs.map fun s => (u.seg s).setWidth 64).reverse ++ ws)) :
    let c' := c.exec restoreSegs
    (∀ s ∈ dataSegs, c'.seg s = u.seg s) ∧ Stack c'.machine.mem c'.rsp ws ∧ c'.machine.mem = c.machine.mem := by
  obtain ⟨gs,fs,es,ds,rest⟩ := stack
  intro c'
  refine ⟨fun s member => ?_,rest,rfl⟩
  simp only [dataSegs,List.mem_cons,List.not_mem_nil,or_false] at member
  rcases member with rfl | rfl | rfl | rfl
  · exact (congrArg (BitVec.setWidth 16) ds).trans (selector_kept _)
  · exact (congrArg (BitVec.setWidth 16) es).trans (selector_kept _)
  · exact (congrArg (BitVec.setWidth 16) fs).trans (selector_kept _)
  · exact (congrArg (BitVec.setWidth 16) gs).trans (selector_kept _)

/-- The words below the frame are dropped by an addition to the stack pointer. -/
theorem drop_resumed {k : Word} (stack : Stack c.machine.mem c.rsp (skipped ++ iretWords u))
    (length : BitVec.ofNat 64 (8 * skipped.length) = k)
    (regs : ∀ r, r ≠ .rsp → c.machine.reg r = u.machine.reg r) (segs : ∀ s ∈ dataSegs, c.seg s = u.seg s) :
    Resumed u (c.exec [.base (.add k .rsp), .iretq]) := by
  have rest := (stack_append stack).2
  rw [length] at rest
  have rsp : (c.step (.base (.add k .rsp))).rsp = c.rsp + k := by
    simp [Cpu.step,Cpu.rsp,Machine.step,Machine.set]
  rw [← rsp] at rest
  refine iret_resumed rest (fun r notSp => ?_) segs
  have kept : (c.step (.base (.add k .rsp))).machine.reg r = c.machine.reg r := by
    simp [Cpu.step,Machine.step,Machine.set,notSp]
  exact kept.trans (regs r notSp)

end Leaving

section Entering

variable (c : Cpu)

theorem exec_saveRegs :
    c.exec saveRegs = { c with machine := c.machine.pushAll (generalRegs.map c.machine.reg) } := by
  have run := Cpu.exec_base (generalRegs.map .push) c
  rwa [Machine.exec_pushes (by decide)] at run

theorem saveRegs_pushed : Pushed (generalRegs.map c.machine.reg) c (c.exec saveRegs) := by
  rw [exec_saveRegs]
  exact ⟨rfl,rfl⟩

theorem pushSegs_pushed (segs : List Seg) : (c : Cpu) →
    let c' := c.exec (segs.flatMap fun s => [.movFromSeg s .rax, .base (.push .rax)])
    Pushed (segs.map fun s => (c.seg s).setWidth 64) c c' ∧ c'.seg = c.seg := by
  induction segs with
  | nil => exact fun _ => ⟨⟨rfl,rfl⟩,rfl⟩
  | cons s segs ih =>
    intro c
    have first : Pushed [(c.seg s).setWidth 64] c (c.exec [.movFromSeg s .rax, .base (.push .rax)]) := by
      constructor <;> simp [Cpu.step,Cpu.rsp,Machine.step,Machine.pushAll,Machine.push,Machine.set]
    obtain ⟨pushed,same⟩ := ih (c.exec [.movFromSeg s .rax, .base (.push .rax)])
    exact ⟨first.trans pushed,same⟩

/-- The rest of the common stubs up to the call. -/
theorem switchSegs_pushed : Pushed (dataSegs.map fun s => (c.seg s).setWidth 64) c
    (c.exec (saveSegs ++ kernelSegs ++ [.base (.mov .rsp .rdi)])) := by
  have loads (k : Cpu) : Pushed [] k (k.exec (kernelSegs ++ [.base (.mov .rsp .rdi)])) := ⟨rfl,rfl⟩
  have pushed := (pushSegs_pushed dataSegs c).1.trans (loads _)
  rwa [List.append_nil,← Cpu.exec_append,← List.append_assoc] at pushed

theorem exec_commonEnter : c.exec commonEnter =
    (c.exec saveRegs).exec (saveSegs ++ kernelSegs ++ [.base (.mov .rsp .rdi)]) := by
  rw [← Cpu.exec_append,commonEnter,List.append_assoc,List.append_assoc,List.append_assoc]

/-- The handler's argument, its data segments and its flags. -/
theorem commonEnter_state : let c' := c.exec commonEnter
    c'.machine.reg .rdi = c'.rsp ∧ (∀ s ∈ dataSegs, c'.seg s = 0x10) ∧ c'.machine.rflags = c.machine.rflags := by
  have rest (k : Cpu) : let k' := k.exec (saveSegs ++ kernelSegs ++ [.base (.mov .rsp .rdi)])
      k'.machine.reg .rdi = k'.rsp ∧ (∀ s ∈ dataSegs, k'.seg s = 0x10) ∧
        k'.machine.rflags = k.machine.rflags := by
    refine ⟨rfl,fun s data => ?_,rfl⟩
    simp only [dataSegs,List.mem_cons,List.not_mem_nil,or_false] at data
    rcases data with rfl | rfl | rfl | rfl <;> rfl
  obtain ⟨rdi,segs,rflags⟩ := rest (c.exec saveRegs)
  rw [← exec_commonEnter] at rdi segs rflags
  refine ⟨rdi,segs,rflags.trans ?_⟩
  rw [exec_saveRegs]
  exact Machine.pushAll_rflags ..

theorem commonEnter_pushed : Pushed
    (generalRegs.map c.machine.reg ++ dataSegs.map fun s => (c.seg s).setWidth 64) c (c.exec commonEnter) := by
  have segs := switchSegs_pushed (c.exec saveRegs)
  have same : (c.exec saveRegs).seg = c.seg := by rw [exec_saveRegs]
  rw [same,← exec_commonEnter] at segs
  exact (saveRegs_pushed c).trans segs

end Entering

end Kernal.Interrupt
