import Kernal.Interrupt

/-! The ways through `interrupt.S`: the stubs of the exceptions and of the interrupt requests,
`page_fault_handler` and the two handlers of devices. They differ in what their code pushes below
the processor's words, in whether they expect an error code there and in whether the data
segments are among the words. What the interrupted program finds follows from that alone. -/
namespace Kernal.Interrupt

open X86

/-- A way in and out of the kernel for an interrupt, and the words its code has on the stack
when it calls the handler. -/
structure Path where
  enter : List Instr
  leave : List Instr
  words : Cpu → List Word
  /-- Whether `leave` drops an error code that the processor pushed. -/
  hasError : Bool
  /-- Whether `leave` takes the data segments off the stack. -/
  reloads : Bool
  short : ∀ c, (words c).length ≤ 21
  same : ∀ {c u : Cpu}, (∀ r, r ≠ .rsp → c.machine.reg r = u.machine.reg r) →
    (∀ s ∈ dataSegs, c.seg s = u.seg s) → words c = words u
  entered : ∀ c : Cpu, Pushed (words c) c (c.exec enter)
  entered_seg : reloads = false → ∀ c : Cpu, (c.exec enter).seg = c.seg
  left : ∀ {c u : Cpu} {errors : List Word}, errors.length = hasError.toNat →
    Stack c.machine.mem c.rsp ((words u).reverse ++ (errors ++ iretWords u)) →
    (reloads = false → ∀ s ∈ dataSegs, c.seg s = u.seg s) → Resumed u (c.exec leave)
  left_mem : ∀ c : Cpu, (c.exec leave).machine.mem = c.machine.mem

section Paths

theorem generalRegs_same {c u : Cpu} (regs : ∀ r, r ≠ .rsp → c.machine.reg r = u.machine.reg r) :
    generalRegs.map c.machine.reg = generalRegs.map u.machine.reg := by
  refine List.map_congr_left fun r member => regs r ?_
  rintro rfl
  exact absurd member (by decide)

/-- What both common stubs push after the words `front` of the stub that jumps to them. -/
def commonWords (front : List Word) (c : Cpu) : List Word :=
  front ++ (generalRegs.map c.machine.reg ++ dataSegs.map fun s => (c.seg s).setWidth 64)

theorem commonWords_same {c u : Cpu} (front : List Word)
    (regs : ∀ r, r ≠ .rsp → c.machine.reg r = u.machine.reg r) (segs : ∀ s ∈ dataSegs, c.seg s = u.seg s) :
    commonWords front c = commonWords front u := by
  have selectors : (dataSegs.map fun s => (c.seg s).setWidth 64) =
      dataSegs.map fun s => (u.seg s).setWidth 64 :=
    List.map_congr_left fun s member => by rw [segs s member]
  rw [commonWords,commonWords,generalRegs_same regs,selectors]

theorem commonEnter_entered {c c' : Cpu} (front : List Word) (stub : Pushed front c c')
    (regs : ∀ r, r ≠ .rsp → c'.machine.reg r = c.machine.reg r) (segs : c'.seg = c.seg) :
    Pushed (commonWords front c) c (c'.exec commonEnter) := by
  have common := commonEnter_pushed c'
  rw [generalRegs_same regs,segs] at common
  exact stub.trans common

theorem commonLeave_left {c u : Cpu} {front errors : List Word} (two : (front.reverse ++ errors).length = 2)
    (stack : Stack c.machine.mem c.rsp ((commonWords front u).reverse ++ (errors ++ iretWords u))) :
    Resumed u (c.exec commonLeave) := by
  simp only [commonWords,List.reverse_append,List.append_assoc] at stack
  obtain ⟨segs,stack,_⟩ := restoreSegs_exec stack
  obtain ⟨regs,stack,kept,_⟩ := restoreRegs_exec stack
  rw [commonLeave,List.append_assoc,Cpu.exec_append,Cpu.exec_append]
  rw [← List.append_assoc] at stack
  refine drop_resumed stack ?_ regs fun s member => ?_
  · rw [two]
    rfl
  · rw [kept]
    exact segs s member

theorem commonLeave_mem (c : Cpu) : (c.exec commonLeave).machine.mem = c.machine.mem := rfl

theorem commonWords_short (front : List Word) {hasError : Bool} (two : front.length + hasError.toNat = 2) (c : Cpu) :
    (commonWords front c).length ≤ 21 := by
  simp only [commonWords,generalRegs,dataSegs,List.length_append,List.length_map,List.length_cons,List.length_nil]
  omega

/-- A stub that pushes `front` and jumps to one of the common stubs. -/
def commonPath (stub : List Instr) (front : List Word) (hasError : Bool)
    (two : front.length + hasError.toNat = 2) (pushed : ∀ c : Cpu, Pushed front c (c.exec stub))
    (regs : ∀ (c : Cpu) (r : Reg), r ≠ .rsp → (c.exec stub).machine.reg r = c.machine.reg r)
    (segs : ∀ c : Cpu, (c.exec stub).seg = c.seg) : Path where
  enter := stub ++ commonEnter
  leave := commonLeave
  words := commonWords front
  hasError := hasError
  reloads := true
  short := commonWords_short front two
  same := commonWords_same front
  entered c := by
    rw [Cpu.exec_append]
    exact commonEnter_entered front (pushed c) (regs c) (segs c)
  entered_seg none := Bool.noConfusion none
  left length stack _ := by
    refine commonLeave_left ?_ stack
    rw [List.length_append,List.length_reverse,length,two]
  left_mem := commonLeave_mem

def isrPath (num : Nat) : Path :=
  commonPath (isr num) (if num ∈ errcodes then [BitVec.ofNat 64 num] else [0, BitVec.ofNat 64 num])
    (decide (num ∈ errcodes)) (by split <;> simp [*])
    (fun c => by unfold isr; split <;> exact ⟨rfl,rfl⟩)
    (fun c r other => by
      unfold isr
      split
      · exact Machine.push_reg _ _ other
      · exact (Machine.push_reg _ _ other).trans (Machine.push_reg _ _ other))
    (fun c => by unfold isr; split <;> rfl)

def irqPath (num : Nat) : Path :=
  commonPath (irq num) [0, BitVec.ofNat 64 (32 + num)] false rfl (fun _ => ⟨rfl,rfl⟩)
    (fun _ _ other => (Machine.push_reg _ _ other).trans (Machine.push_reg _ _ other)) (fun _ => rfl)

def pageFaultPath : Path where
  enter := pageFaultEnter
  leave := pageFaultLeave
  words c := generalRegs.map c.machine.reg
  hasError := true
  reloads := false
  short c := by simp [generalRegs]
  same regs _ := generalRegs_same regs
  entered c := by
    have rest (k : Cpu) : Pushed [] k (k.exec [.movFromCr2 .rsi, .base (.load 120 .rsp .rdx)]) := ⟨rfl,rfl⟩
    have pushed := (saveRegs_pushed c).trans (rest _)
    rwa [List.append_nil,← Cpu.exec_append] at pushed
  entered_seg _ c := by
    have rest (k : Cpu) : (k.exec [.movFromCr2 .rsi, .base (.load 120 .rsp .rdx)]).seg = k.seg := rfl
    rw [pageFaultEnter,Cpu.exec_append,rest,exec_saveRegs]
  left length stack segs := by
    obtain ⟨regs,stack,kept,_⟩ := restoreRegs_exec stack
    rw [pageFaultLeave,Cpu.exec_append]
    refine drop_resumed stack ?_ regs fun s member => ?_
    · rw [length]
      rfl
    · rw [kept]
      exact segs rfl s member
  left_mem _ := rfl

def devicePath : Path where
  enter := saveRegs
  leave := deviceLeave
  words c := generalRegs.map c.machine.reg
  hasError := false
  reloads := false
  short c := by simp [generalRegs]
  same regs _ := generalRegs_same regs
  entered := saveRegs_pushed
  entered_seg _ c := by rw [exec_saveRegs]
  left {c u errors} length stack segs := by
    have none : errors = [] := List.length_eq_zero_iff.mp length
    rw [none,List.nil_append] at stack
    -- The byte for the controller is sent before the registers come off the stack.
    have sent : Stack (c.exec [.movb 0x20 .rax, .outb .rax 0x20]).machine.mem
        (c.exec [.movb 0x20 .rax, .outb .rax 0x20]).rsp
        ((generalRegs.map u.machine.reg).reverse ++ iretWords u) := stack
    obtain ⟨regs,stack,kept,_⟩ := restoreRegs_exec sent
    rw [deviceLeave,Cpu.exec_append,Cpu.exec_append]
    refine iret_resumed stack regs fun s member => ?_
    rw [kept]
    exact segs rfl s member
  left_mem _ := rfl

end Paths

namespace Path

variable (p : Path)

def entry (next target : Word) (c : Cpu) : Cpu := (c.exec p.enter).call next target

/-- The whole way of an interrupt, back to the program. -/
def serve (f : Cpu → Cpu) (next target : Word) (c : Cpu) : Cpu := (f (p.entry next target c)).exec p.leave

/-- What is on the stack above the handler's return address. -/
def frame (error : Option Word) (u : Cpu) : List Word :=
  (p.words u).reverse ++ (error.toList ++ iretWords u)

theorem deliver_reg (u : Cpu) (a : Arrival) (error : Option Word) (other : r ≠ .rsp) :
    (u.deliver a error).machine.reg r = u.machine.reg r :=
  (Machine.pushAll_reg other _ _).trans (Function.update_of_ne other ..)

theorem deliver_seg (u : Cpu) (a : Arrival) (error : Option Word) (data : s ∈ dataSegs) :
    (u.deliver a error).seg s = u.seg s := by
  simp only [dataSegs,List.mem_cons,List.not_mem_nil,or_false] at data
  rcases data with rfl | rfl | rfl | rfl <;> rfl

theorem words_deliver (u : Cpu) (a : Arrival) (error : Option Word) :
    p.words (u.deliver a error) = p.words u :=
  p.same (fun _ => deliver_reg u a error) fun _ => deliver_seg u a error

/-- Everything that is pushed until the handler is called. -/
theorem saved_pushed (u : Cpu) (a : Arrival) (error : Option Word) :
    Pushed (p.frame error u).reverse { u with machine := u.machine.set .rsp a.top }
      ((u.deliver a error).exec p.enter) := by
  have hardware : Pushed ((iretWords u).reverse ++ error.toList)
      { u with machine := u.machine.set .rsp a.top } (u.deliver a error) := ⟨rfl,rfl⟩
  have code := p.entered (u.deliver a error)
  rw [words_deliver] at code
  have one : error.toList.reverse = error.toList := by cases error <;> rfl
  rw [frame,List.reverse_append,List.reverse_append,List.reverse_reverse,one]
  exact hardware.trans code

theorem entry_pushed (u : Cpu) (a : Arrival) (error : Option Word) (next target : Word) :
    Pushed ((next :: p.frame error u).reverse) { u with machine := u.machine.set .rsp a.top }
      (p.entry next target (u.deliver a error)) := by
  have call : Pushed [next] ((u.deliver a error).exec p.enter) (p.entry next target (u.deliver a error)) :=
    ⟨rfl,rfl⟩
  rw [List.reverse_cons]
  exact (p.saved_pushed u a error).trans call

theorem frame_length (error : Option Word) (u : Cpu) : (p.frame error u).length ≤ 27 := by
  have short := p.short u
  have one : error.toList.length ≤ 1 := by cases error <;> simp
  simp only [frame,iretWords,List.length_append,List.length_reverse,List.length_cons,List.length_nil]
  omega

theorem saved_stack (u : Cpu) (a : Arrival) (error : Option Word) :
    let k := (u.deliver a error).exec p.enter
    Stack k.machine.mem k.rsp (p.frame error u) := by
  intro k
  have pushed := p.saved_pushed u a error
  have length := p.frame_length error u
  have stack := Stack.of_pushAll (u.machine.set .rsp a.top) (p.frame error u).reverse (by
    rw [List.length_reverse]
    omega)
  rw [List.reverse_reverse,← pushed.mem,← pushed.rsp] at stack
  exact stack

theorem entry_stack (u : Cpu) (a : Arrival) (error : Option Word) (next target : Word) :
    let e := p.entry next target (u.deliver a error)
    Stack e.machine.mem e.rsp (next :: p.frame error u) := by
  have length := p.frame_length error u
  exact (p.saved_stack u a error).push (by omega) next

end Path

/-- A C function that leaves the `n` words above its return address as they are. -/
structure Returns (f : Cpu → Cpu) (n : Nat) (e : Cpu) : Prop where
  rsp : (f e).rsp = e.rsp + 8
  seg : ∀ s ∈ dataSegs, (f e).seg s = e.seg s
  mem : ∀ x ∈ span (e.rsp + 8) (8 * n), (f e).machine.mem x = e.machine.mem x

theorem Returns.stack {f : Cpu → Cpu} {e : Cpu} (returns : Returns f ws.length e) (room : 8 * ws.length < 2^64)
    (stack : Stack e.machine.mem (e.rsp + 8) ws) : Stack (f e).machine.mem (f e).rsp ws := by
  rw [returns.rsp]
  exact stack.congr room returns.mem

namespace Path

variable (p : Path)

theorem entry_seg (stays : p.reloads = false) (u : Cpu) (a : Arrival) (error : Option Word) (next target : Word)
    (data : s ∈ dataSegs) : (p.entry next target (u.deliver a error)).seg s = u.seg s := by
  change ((u.deliver a error).exec p.enter).seg s = u.seg s
  rw [p.entered_seg stays]
  exact deliver_seg u a error data

theorem serve_resumed {u : Cpu} {a : Arrival} {error : Option Word} {f : Cpu → Cpu} {next target : Word}
    (matched : error.isSome = p.hasError)
    (returns : Returns f (p.frame error u).length (p.entry next target (u.deliver a error))) :
    Resumed u (p.serve f next target (u.deliver a error)) := by
  have short := p.frame_length error u
  have stack := returns.stack (by omega) (p.entry_stack u a error next target).2
  refine p.left ?_ stack fun stays s data => ?_
  · rw [← matched]
    cases error <;> rfl
  · exact (returns.seg s data).trans (p.entry_seg stays u a error next target data)

/-- Every interrupted program goes on as it was, whatever was interrupted and whichever
function was called. -/
def Transparent (hasCode : Bool) : Prop :=
  ∀ (u : Cpu) (a : Arrival) (error : Option Word) (f : Cpu → Cpu) (next target : Word),
    error.isSome = hasCode →
    Returns f (p.frame error u).length (p.entry next target (u.deliver a error)) →
    Resumed u (p.serve f next target (u.deliver a error))

end Path

def returnOnly (c : Cpu) : Cpu := { c with machine := c.machine.step .ret }

theorem returnOnly_returns (n : Nat) (e : Cpu) : Returns returnOnly n e where
  rsp := by simp [returnOnly,Cpu.rsp,Machine.step,Machine.popped,Machine.set]
  seg _ _ := rfl
  mem _ _ := rfl

def plain (rip : Word) : Cpu where
  machine := { reg := fun _ => 0, rip, rflags := 0, mem := fun _ => 0 }
  seg _ := 0
  cr2 := 0
  sent := []

def kernelArrival : Arrival := ⟨0x8000, 0x08, 0⟩

namespace Path

variable (p : Path)

/-- The frame of the plain program, with the word of the interrupted stack above it. -/
theorem plain_stack (error : Option Word) :
    let e := p.entry 0 0 ((plain 1).deliver kernelArrival error)
    Stack (returnOnly e).machine.mem (returnOnly e).rsp (p.frame error (plain 1) ++ [0]) := by
  intro e
  have pushed := p.entry_pushed (plain 1) kernelArrival error 0 0
  have length := p.frame_length error (plain 1)
  have above : Stack ((plain 1).machine.set .rsp kernelArrival.top).mem
      (((plain 1).machine.set .rsp kernelArrival.top).reg .rsp) [0] := ⟨rfl,trivial⟩
  have stack := above.pushAll (0 :: p.frame error (plain 1)).reverse (by
    simp only [List.length_reverse,List.length_cons,List.length_nil]
    omega)
  rw [List.reverse_reverse,← pushed.mem,← pushed.rsp] at stack
  rw [(returnOnly_returns 0 e).rsp]
  exact stack.2

/-- What the plain program goes on with is what the words on the stack say. -/
theorem plain_resumed {v : Cpu} {error : Option Word} {errors : List Word} (length : errors.length = p.hasError.toNat)
    (reg : ∀ r, v.machine.reg r = 0) (seg : ∀ s ∈ dataSegs, v.seg s = 0)
    (words : error.toList ++ iretWords (plain 1) ++ [0] = errors ++ iretWords v ++ rest) :
    Resumed v (p.serve returnOnly 0 0 ((plain 1).deliver kernelArrival error)) := by
  have same : p.words v = p.words (plain 1) := p.same (fun r _ => reg r) seg
  have stack := p.plain_stack error
  rw [frame,List.append_assoc,words,← same,← List.append_assoc] at stack
  refine p.left length (stack_append stack).1 fun stays s data => ?_
  exact (p.entry_seg stays (plain 1) kernelArrival error 0 0 data).trans (seg s data).symm

/-- With a word too few or too many, `iretq` takes the wrong word for the place in the program. -/
theorem not_transparent {hasCode : Bool} (mismatch : hasCode ≠ p.hasError) : ¬p.Transparent hasCode := by
  intro transparent
  cases code : p.hasError with
  | true =>
    obtain rfl : hasCode = false := by simpa [code] using mismatch
    have length : [(1 : Word)].length = p.hasError.toNat := by
      rw [code]
      rfl
    have words : (none : Option Word).toList ++ iretWords (plain 1) ++ [0] = [1] ++ iretWords (plain 0) ++ [] := by
      decide
    have out := p.plain_resumed length (fun _ => rfl) (fun _ _ => rfl) words
    have back := transparent (plain 1) kernelArrival none returnOnly 0 0 rfl (returnOnly_returns ..)
    exact absurd (out.rip.symm.trans back.rip) (by decide)
  | false =>
    obtain rfl : hasCode = true := by simpa [code] using mismatch
    let v : Cpu := { plain 0 with seg := Function.update (plain 0).seg .cs 1 }
    have length : ([] : List Word).length = p.hasError.toNat := by
      rw [code]
      rfl
    have seg : ∀ s ∈ dataSegs, v.seg s = 0 := by decide
    have words : (some (0 : Word)).toList ++ iretWords (plain 1) ++ [0] = [] ++ iretWords v ++ [0, 0] := by decide
    have out := p.plain_resumed length (fun _ => rfl) seg words
    have back := transparent (plain 1) kernelArrival (some 0) returnOnly 0 0 rfl (returnOnly_returns ..)
    exact absurd (out.rip.symm.trans back.rip) (by decide)

theorem transparent_iff (hasCode : Bool) : p.Transparent hasCode ↔ hasCode = p.hasError := by
  constructor
  · intro transparent
    by_contra mismatch
    exact p.not_transparent mismatch transparent
  · intro matched u a error f next target code returns
    exact p.serve_resumed (code.trans matched) returns

end Path

/-- An interrupted program goes on as it was, whatever the handler does, exactly if the processor
pushed an error code where the code that is entered takes one to be. -/
theorem entries_transparent_iff (hasCode : Bool) :
    (∀ num, (isrPath num).Transparent hasCode ↔ (hasCode = true ↔ num ∈ errcodes)) ∧
    (∀ num, (irqPath num).Transparent hasCode ↔ hasCode = false) ∧
    (pageFaultPath.Transparent hasCode ↔ hasCode = true) ∧
    (devicePath.Transparent hasCode ↔ hasCode = false) := by
  refine ⟨fun num => ?_,fun num => ?_,?_,?_⟩
  · refine ((isrPath num).transparent_iff hasCode).trans ?_
    change hasCode = decide (num ∈ errcodes) ↔ _
    cases hasCode <;> simp
  · exact (irqPath num).transparent_iff hasCode
  · exact pageFaultPath.transparent_iff hasCode
  · exact devicePath.transparent_iff hasCode

/-- What the argument of `isr_handler` and of `irq_handler` points to. -/
def frameWords (num error : Word) (u : Cpu) : List Word :=
  (dataSegs.reverse.map fun s => (u.seg s).setWidth 64) ++ generalRegs.reverse.map u.machine.reg ++
    [num, error] ++ iretWords u

/-- The handler of a common stub gets a frame with the whole state of the program in `u`, and
the program goes on in whatever state the handler leaves there. -/
structure Handed (num error : Word) (u e : Cpu) : Prop where
  argument : e.machine.reg .rdi = e.rsp + 8
  frame : Stack e.machine.mem (e.machine.reg .rdi) (frameWords num error u)
  segs : ∀ s ∈ dataSegs, e.seg s = 0x10
  masked : e.machine.rflags &&& IF = 0
  edited : ∀ (f : Cpu → Cpu) (num' error' : Word) (v : Cpu), (f e).rsp = e.rsp + 8 →
    Stack (f e).machine.mem (e.machine.reg .rdi) (frameWords num' error' v) →
    Resumed v ((f e).exec commonLeave)

theorem frameWords_common (num error : Word) (u : Cpu) :
    frameWords num error u = (commonWords [error, num] u).reverse ++ iretWords u := rfl

theorem common_handed {stub : List Instr} {c u : Cpu} {num error : Word} (next target : Word)
    (stack : Stack ((c.exec (stub ++ commonEnter)).call next target).machine.mem
      (((c.exec (stub ++ commonEnter)).call next target).rsp + 8) (frameWords num error u))
    (masked : (c.exec stub).machine.rflags &&& IF = 0) :
    Handed num error u ((c.exec (stub ++ commonEnter)).call next target) := by
  obtain ⟨rdi,segs,rflags⟩ := commonEnter_state (c.exec stub)
  rw [← Cpu.exec_append] at rdi segs rflags
  generalize c.exec (stub ++ commonEnter) = k at *
  have argument : (k.call next target).machine.reg .rdi = (k.call next target).rsp + 8 := by
    have sp : (k.call next target).rsp = k.rsp - 8 := Machine.push_rsp _ next
    rw [sp,BitVec.sub_add_cancel,← rdi]
    exact Machine.call_reg _ _ _ (by decide)
  refine ⟨argument,?_,segs,?_,fun f num' error' v rsp stack => ?_⟩
  · rw [argument]
    exact stack
  · rw [← masked,← rflags]
    rfl
  · rw [argument,← rsp,frameWords_common] at stack
    have two : ([error', num'].reverse ++ ([] : List Word)).length = 2 := rfl
    exact commonLeave_left two stack

theorem cli_masked (flags : Word) : flags &&& ~~~IF &&& IF = 0 := by
  rw [BitVec.and_assoc,BitVec.and_comm (~~~IF),BitVec.and_not_self]
  exact BitVec.and_zero

/-- Exceptions and interrupt requests hand their whole state over, with the number and the error
code that belong to them, and take it back from the frame. -/
theorem stubs_handed (num : Nat) (error : Option Word) (u : Cpu) (a : Arrival) (next target : Word) :
    ((error.isSome = true ↔ num ∈ errcodes) → Handed (BitVec.ofNat 64 num) (error.getD 0) u
      ((isrPath num).entry next target (u.deliver a error))) ∧
    (error = none → Handed (BitVec.ofNat 64 (32 + num)) 0 u
      ((irqPath num).entry next target (u.deliver a error))) := by
  refine ⟨fun matched => ?_,fun none => ?_⟩
  · have stack := ((isrPath num).entry_stack u a error next target).2
    have frame : (isrPath num).frame error u = frameWords (BitVec.ofNat 64 num) (error.getD 0) u := by
      by_cases code : num ∈ errcodes
      · obtain ⟨w,rfl⟩ := Option.isSome_iff_exists.mp (matched.mpr code)
        change (commonWords (if num ∈ errcodes then _ else _) u).reverse ++ _ = _
        rw [if_pos code]
        rfl
      · obtain rfl : error = none := by
          cases error with
          | none => rfl
          | some w => exact absurd (matched.mp rfl) code
        change (commonWords (if num ∈ errcodes then _ else _) u).reverse ++ _ = _
        rw [if_neg code]
        rfl
    rw [frame] at stack
    refine common_handed next target stack ?_
    unfold isr
    split
    all_goals exact cli_masked _
  · subst none
    exact common_handed next target ((irqPath num).entry_stack u a none next target).2 (cli_masked _)

/-- A general protection fault and the timer's request. -/
theorem stubs_handed_plain :
    Handed 13 0x18 (plain 1) ((isrPath 13).entry 2 3 ((plain 1).deliver kernelArrival (some 0x18))) ∧
    Handed 32 0 (plain 1) ((irqPath 0).entry 2 3 ((plain 1).deliver kernelArrival none)) :=
  ⟨(stubs_handed 13 (some 0x18) (plain 1) kernelArrival 2 3).1 (by decide),
    (stubs_handed 0 none (plain 1) kernelArrival 2 3).2 rfl⟩

/-- The error code is found above the fifteen registers; it becomes the third argument, and the
address of the fault the second. -/
theorem pageFault_args (u : Cpu) (a : Arrival) (error next target : Word) :
    let e := pageFaultPath.entry next target (u.deliver a (some error))
    e.machine.arg 0 = u.machine.reg .rdi ∧ e.machine.arg 1 = u.cr2 ∧ e.machine.arg 2 = error := by
  have stack := devicePath.saved_stack u a (some error)
  have run : pageFaultPath.entry next target (u.deliver a (some error)) =
      (((u.deliver a (some error)).exec saveRegs).exec [.movFromCr2 .rsi, .base (.load 120 .rsp .rdx)]).call
        next target := congrArg (Cpu.call · next target) (Cpu.exec_append ..)
  have rdi : ((u.deliver a (some error)).exec saveRegs).machine.reg .rdi = u.machine.reg .rdi := by
    rw [exec_saveRegs]
    exact (Machine.pushAll_reg (by decide) _ _).trans (Path.deliver_reg u a _ (by decide))
  have cr2 : ((u.deliver a (some error)).exec saveRegs).cr2 = u.cr2 := by
    rw [exec_saveRegs]
    rfl
  change Stack ((u.deliver a (some error)).exec saveRegs).machine.mem
    ((u.deliver a (some error)).exec saveRegs).rsp
    ((generalRegs.map u.machine.reg).reverse ++ (error :: iretWords u)) at stack
  rw [run,← rdi,← cr2]
  generalize (u.deliver a (some error)).exec saveRegs = k at stack
  exact ⟨rfl,rfl,(stack_append stack).2.1⟩

/-- `do_page_fault` takes the address first and the error code second. -/
theorem pageFault_args_iff (u : Cpu) (a : Arrival) (error next target : Word) :
    let e := pageFaultPath.entry next target (u.deliver a (some error))
    (e.machine.arg 0 = u.cr2 ∧ e.machine.arg 1 = error) ↔ u.machine.reg .rdi = u.cr2 ∧ u.cr2 = error := by
  obtain ⟨first,second,_⟩ := pageFault_args u a error next target
  intro e
  rw [first,second]

end Kernal.Interrupt
