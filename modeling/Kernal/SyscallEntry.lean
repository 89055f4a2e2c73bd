import Kernal.Syscall
import Kernal.X86

/-! `syscall_entry` of `interrupt.S`, from the user's registers to the call of
`do_syscall` and back to `sysretq`. The moves before the call shift the arguments one
place too far: `do_syscall` gets the second argument as the number and the number as
its last argument. Nothing saves `rcx` and `r11`, which `sysretq` returns with. -/
namespace Kernal.Syscall

open X86

def savedRegs : List Reg :=
  [.rbp, .rbx, .r12, .r13, .r14, .r15, .rdi, .rsi, .rdx, .r10, .r8, .r9, .rax]

def shiftArgs : List Instr := [
  .mov .rax .r11,
  .mov .rdi .rax,
  .mov .rsi .rdi,
  .mov .rdx .rsi,
  .mov .r10 .rdx,
  .mov .r8 .r10,
  .mov .r9 .r8,
  .load 8 .rsp .r9]

def restoreUser : List Instr :=
  .add 56 .rsp :: [.r15, .r14, .r13, .r12, .rbx, .rbp].map .pop

/-- Up to `jae syscall_invalid`. -/
def saveUser : List Instr := savedRegs.map .push ++ [.cmp (BitVec.ofNat 64 NR_syscalls) .rax]

/-- The machine at the entry of `do_syscall`, called from the instruction before `next`. -/
def entered (u : Machine) (next target : Word) : Machine :=
  ((u.exec saveUser).exec shiftArgs).call next target

/-- The machine at `sysretq`; `jae` jumps when the comparison sets no carry. -/
def syscallEntry (doSyscall : Machine → Machine) (next target : Word) (u : Machine) : Machine :=
  if (u.exec saveUser).carry then (doSyscall (entered u next target)).exec restoreUser
  else (u.exec saveUser).exec (.movImm (BitVec.ofInt 64 (-ENOSYS)) .rax :: restoreUser)

/-- `do_syscall` gets the number and the six arguments at their places. -/
structure HandedOver (u entry : Machine) : Prop where
  syscallNr : entry.arg 0 = u.reg .rax
  arg0 : entry.arg 1 = u.reg .rdi
  arg1 : entry.arg 2 = u.reg .rsi
  arg2 : entry.arg 3 = u.reg .rdx
  arg3 : entry.arg 4 = u.reg .r10
  arg4 : entry.arg 5 = u.reg .r8
  arg5 : entry.arg 6 = u.reg .r9

/-- `m` at `sysretq` returns `result` to the user's program as it was in `u`. -/
structure Returned (u m : Machine) (result : Word) : Prop where
  saved : ∀ r ∈ calleeSaved, m.reg r = u.reg r
  rsp : m.reg .rsp = u.reg .rsp
  rcx : m.reg .rcx = u.reg .rcx
  r11 : m.reg .r11 = u.reg .r11
  rax : m.reg .rax = result

structure Clean (doSyscall : Machine → Machine) (next target : Word) (u : Machine) : Prop where
  handed : HandedOver u (entered u next target)
  returned : Returned u (syscallEntry doSyscall next target u)
    ((doSyscall (entered u next target)).reg .rax)

def stacked (u : Machine) : Machine := u.pushAll (savedRegs.map u.reg)

theorem exec_saveUser (u : Machine) :
    (u.exec saveUser).reg = (stacked u).reg ∧ (u.exec saveUser).mem = (stacked u).mem ∧
    (u.exec saveUser).rflags = subFlags u.rflags (u.reg .rax) (BitVec.ofNat 64 NR_syscalls) := by
  rw [saveUser,Machine.exec_append,Machine.exec_pushes (by simp [savedRegs]),← stacked]
  simp [Machine.step,stacked,Machine.pushAll_rflags,Machine.pushAll_reg]

theorem saveUser_carry {u : Machine} (valid : u.reg .rax < BitVec.ofNat 64 NR_syscalls) :
    (u.exec saveUser).carry = true := by
  rw [Machine.carry,(exec_saveUser u).2.2,subFlags,withStatus_carry]
  exact decide_eq_true valid

theorem saveUser_reg (u : Machine) (other : r ≠ .rsp) : (u.exec saveUser).reg r = u.reg r := by
  rw [(exec_saveUser u).1,stacked,Machine.pushAll_reg other]

theorem saveUser_rsp (u : Machine) : (u.exec saveUser).reg .rsp = u.reg .rsp - 104 := by
  rw [(exec_saveUser u).1,stacked,Machine.pushAll_rsp]
  rfl

theorem saveUser_stack (u : Machine) :
    Stack (u.exec saveUser).mem ((u.exec saveUser).reg .rsp) (savedRegs.map u.reg).reverse := by
  have stack := Stack.of_pushAll u (savedRegs.map u.reg) (by simp [savedRegs])
  rw [← stacked,← (exec_saveUser u).1,← (exec_saveUser u).2.1] at stack
  exact stack

/-- Each register gets the user's next one; `rcx` is not among them. -/
theorem exec_shiftArgs (m : Machine) :
    let m' := m.exec shiftArgs
    m'.reg .rdi = m.reg .rsi ∧ m'.reg .rsi = m.reg .rdx ∧ m'.reg .rdx = m.reg .r10 ∧
    m'.reg .rcx = m.reg .rcx ∧ m'.reg .r8 = m.reg .r9 ∧
    m'.reg .r9 = load m.mem (m.reg .rsp + 8) ∧ m'.reg .rsp = m.reg .rsp ∧ m'.mem = m.mem ∧
    ∀ r ∈ calleeSaved, m'.reg r = m.reg r := by
  refine ⟨rfl,rfl,rfl,rfl,rfl,rfl,rfl,rfl,fun r saved => ?_⟩
  simp only [calleeSaved,List.mem_cons,List.not_mem_nil,or_false] at saved
  rcases saved with rfl | rfl | rfl | rfl | rfl | rfl <;> rfl

/-- The words on the stack at the entry of `do_syscall`. -/
theorem entered_stack (u : Machine) (next target : Word) :
    Stack (entered u next target).mem ((entered u next target).reg .rsp)
      (next :: (savedRegs.map u.reg).reverse) := by
  obtain ⟨_,_,_,_,_,_,rsp,mem,_⟩ := exec_shiftArgs (u.exec saveUser)
  have stack := saveUser_stack u
  rw [← rsp,← mem] at stack
  exact stack.push (by simp [savedRegs]) next

theorem entered_reg (u : Machine) (next target : Word) (other : r ≠ .rsp) :
    (entered u next target).reg r = ((u.exec saveUser).exec shiftArgs).reg r := by
  rw [entered,Machine.call_reg _ _ _ other]

/-- The user's return address passes through, the user's flags do not. -/
theorem entered_hidden (u : Machine) (next target : Word) :
    (entered u next target).reg .rcx = u.reg .rcx ∧ (entered u next target).reg .r11 = u.reg .rax := by
  constructor
  · rw [entered_reg u next target (by decide),(exec_shiftArgs _).2.2.2.1,saveUser_reg u (by decide)]
  · have moved (m : Machine) : (m.exec shiftArgs).reg .r11 = m.reg .rax := rfl
    rw [entered_reg u next target (by decide),moved,saveUser_reg u (by decide)]

/-- What `do_syscall` really gets. -/
theorem entered_args (u : Machine) (next target : Word) :
    (List.range 7).map (entered u next target).arg =
      [.rsi, .rdx, .r10, .rcx, .r9, .r9, .rax].map u.reg := by
  obtain ⟨rdi,rsi,rdx,rcx,r8,r9,_⟩ := exec_shiftArgs (u.exec saveUser)
  have last : load (entered u next target).mem ((entered u next target).reg .rsp + 8) = u.reg .rax :=
    (entered_stack u next target).2.1
  have sixth : load (u.exec saveUser).mem ((u.exec saveUser).reg .rsp + 8) = u.reg .r9 :=
    (saveUser_stack u).2.1
  simp [List.range_succ,Machine.arg,argRegs,entered_reg,rdi,rsi,rdx,rcx,r8,r9,saveUser_reg]
  exact ⟨sixth,last⟩

/-- The pops take what `syscall_entry` pushed first. -/
theorem exec_restoreUser (u m : Machine) (rsp : m.reg .rsp = u.reg .rsp - 104)
    (stack : Stack m.mem (m.reg .rsp + 56) ([.r15, .r14, .r13, .r12, .rbx, .rbp].map u.reg)) :
    let m' := m.exec restoreUser
    (∀ r ∈ calleeSaved, m'.reg r = u.reg r) ∧ m'.reg .rsp = u.reg .rsp ∧
    ∀ r, r ∉ calleeSaved → r ≠ .rsp → m'.reg r = m.reg r := by
  have same (r : Reg) : r ∈ [.r15, .r14, .r13, .r12, .rbx, .rbp] ↔ r ∈ calleeSaved := by
    cases r <;> decide
  generalize added : m.step (.add 56 .rsp) = k
  have sp : k.reg .rsp = m.reg .rsp + 56 := by
    rw [← added]
    simp [Machine.step,Machine.set]
  have mem : k.mem = m.mem := by
    rw [← added]
    rfl
  rw [← sp,← mem] at stack
  have popped := Stack.pops [.r15, .r14, .r13, .r12, .rbx, .rbp] (by decide) (by decide) rfl stack
  rw [restoreUser,Machine.exec_cons,added]
  refine ⟨fun r saved => List.map_inj_left.mp popped r ((same r).mpr saved),?_,fun r other notSp => ?_⟩
  · rw [Machine.exec_pops_rsp (by decide),sp,rsp]
    simp only [List.length_cons,List.length_nil]
    bv_omega
  · rw [Machine.exec_pops_reg (fun member => other ((same r).mp member)) notSp,← added]
    simp [Machine.step,Machine.set,notSp]

/-- Whatever `do_syscall` is, the user's registers and stack pointer come back. -/
theorem syscallEntry_returns {u : Machine} (valid : u.reg .rax < BitVec.ofNat 64 NR_syscalls)
    {f : Machine → Machine} (conforms : Conforms 1 96 f) (next target : Word) :
    let m := syscallEntry f next target u
    (∀ r ∈ calleeSaved, m.reg r = u.reg r) ∧ m.reg .rsp = u.reg .rsp ∧
    ∀ r, r ∉ calleeSaved → r ≠ .rsp → m.reg r = (f (entered u next target)).reg r := by
  obtain ⟨_,_,_,_,_,_,rsp,_,_⟩ := exec_shiftArgs (u.exec saveUser)
  have entry : (entered u next target).reg .rsp = u.reg .rsp - 112 := by
    rw [entered,Machine.call]
    change ((u.exec saveUser).exec shiftArgs).reg .rsp - 8 = _
    rw [rsp,saveUser_rsp]
    bv_omega
  have back : (f (entered u next target)).reg .rsp = u.reg .rsp - 104 := by
    rw [conforms.rsp,entry]
    bv_omega
  rw [syscallEntry,if_pos (saveUser_carry valid)]
  refine exec_restoreUser u _ back ?_
  -- Below these words lie the return address, the number and the six arguments.
  have kept : Stack (entered u next target).mem (u.reg .rsp - 48)
      ([.r15, .r14, .r13, .r12, .rbx, .rbp].map u.reg) := by
    have stack := (entered_stack u next target).2.2.2.2.2.2.2.2
    have place : (entered u next target).reg .rsp + 8 + 8 + 8 + 8 + 8 + 8 + 8 + 8 = u.reg .rsp - 48 := by
      rw [entry]
      bv_omega
    rw [place] at stack
    exact stack
  have place : (f (entered u next target)).reg .rsp + 56 = u.reg .rsp - 48 := by
    rw [back]
    bv_omega
  rw [place]
  refine kept.congr (by simp) fun x near => conforms.mem _ x ?_
  rw [entry]
  change (x - (u.reg .rsp - 48)).toNat < 48 at near
  change (x - (u.reg .rsp - 112 + 16)).toNat < 96
  bv_omega

/-- The user's registers are such that the shift does not matter. -/
structure Coincide (u : Machine) : Prop where
  rsi : u.reg .rsi = u.reg .rax
  r10 : u.reg .r10 = u.reg .rax
  r8 : u.reg .r8 = u.reg .rax
  r9 : u.reg .r9 = u.reg .rax
  rdx : u.reg .rdx = u.reg .rdi
  rcx : u.reg .rcx = u.reg .rdi

theorem handedOver_iff (u : Machine) (next target : Word) :
    HandedOver u (entered u next target) ↔ Coincide u := by
  have args := entered_args u next target
  simp only [List.range_succ,List.range_zero,List.nil_append,List.cons_append,List.map_cons,List.map_nil,
    List.cons.injEq,and_true] at args
  obtain ⟨nr,a0,a1,a2,a3,a4,a5⟩ := args
  constructor
  · rintro ⟨h,h0,h1,h2,h3,h4,h5⟩
    have rsi : u.reg .rsi = u.reg .rax := nr.symm.trans h
    have r10 : u.reg .r10 = u.reg .rsi := a1.symm.trans h1
    have r9 : u.reg .rax = u.reg .r9 := a5.symm.trans h5
    have r8 : u.reg .r9 = u.reg .r8 := a4.symm.trans h4
    have rdx : u.reg .rdx = u.reg .rdi := a0.symm.trans h0
    have rcx : u.reg .rcx = u.reg .rdx := a2.symm.trans h2
    exact ⟨rsi,r10.trans rsi,(r9.trans r8).symm,r9.symm,rdx,rcx.trans rdx⟩
  · rintro ⟨rsi,r10,r8,r9,rdx,rcx⟩
    exact ⟨nr.trans rsi,a0.trans rdx,a1.trans (r10.trans rsi.symm),a2.trans (rcx.trans rdx.symm),
      a3.trans (r9.trans r10.symm),a4.trans (r9.trans r8.symm),a5.trans r9.symm⟩

/-- A C function that returns at once, with `rcx` changed by `edit`. -/
def returnWith (edit : Word → Word) (m : Machine) : Machine :=
  { m.set .rcx (edit (m.reg .rcx)) with
    reg := Function.update (m.set .rcx (edit (m.reg .rcx))).reg .rsp (m.reg .rsp + 8)
    rip := load m.mem (m.reg .rsp) }

theorem returnWith_rcx (edit : Word → Word) (m : Machine) :
    (returnWith edit m).reg .rcx = edit (m.reg .rcx) := by
  simp [returnWith,Machine.set]

theorem returnWith_conforms (edit : Word → Word) : Conforms 1 96 (returnWith edit) where
  rip _ := rfl
  rsp m := by simp [returnWith]
  saved m r saved := by
    simp only [calleeSaved,List.mem_cons,List.not_mem_nil,or_false] at saved
    rcases saved with rfl | rfl | rfl | rfl | rfl | rfl
    all_goals simp [returnWith,Machine.set]
  mem _ _ _ := rfl

/-- For a given `do_syscall` the user's registers and what it happens to leave in `rcx`
and `r11` decide; no registers serve for all of them. -/
theorem syscallEntry_clean_iff (u : Machine) (valid : u.reg .rax < BitVec.ofNat 64 NR_syscalls)
    (f : Machine → Machine) (conforms : Conforms 1 96 f) (next target : Word) :
    (Clean f next target u ↔ Coincide u ∧
      (f (entered u next target)).reg .rcx = u.reg .rcx ∧
      (f (entered u next target)).reg .r11 = u.reg .r11) ∧
    ¬∀ g, Conforms 1 96 g → Clean g next target u := by
  have returns {g : Machine → Machine} (conforms : Conforms 1 96 g) {r : Reg} (other : r ∉ calleeSaved)
      (notSp : r ≠ .rsp) : (syscallEntry g next target u).reg r = (g (entered u next target)).reg r :=
    (syscallEntry_returns valid conforms next target).2.2 r other notSp
  refine ⟨⟨fun clean => ?_,fun ⟨same,rcx,r11⟩ => ?_⟩,fun all => ?_⟩
  · refine ⟨(handedOver_iff u next target).mp clean.handed,?_,?_⟩
    · rw [← returns conforms (by decide) (by decide),clean.returned.rcx]
    · rw [← returns conforms (by decide) (by decide),clean.returned.r11]
  · obtain ⟨saved,rsp,_⟩ := syscallEntry_returns valid conforms next target
    refine ⟨(handedOver_iff u next target).mpr same,saved,rsp,?_,?_,returns conforms (by decide) (by decide)⟩
    · exact (returns conforms (by decide) (by decide)).trans rcx
    · exact (returns conforms (by decide) (by decide)).trans r11
  · have conforms := returnWith_conforms (· + 1)
    have rcx := (all _ conforms).returned.rcx
    rw [returns conforms (by decide) (by decide)] at rcx
    simp [returnWith_rcx,(entered_hidden u next target).1] at rcx

/-- A user program with `rax` as its number; `rcx` is the return address, `r11` the flags. -/
def userMachine (rax rsi rcx r11 : Word) : Machine where
  reg
    | .rax => rax
    | .rsi | .r8 | .r9 | .r10 => rsi
    | .rcx | .rdi | .rdx => rcx
    | .r11 => r11
    | .rsp => 0x7ffff000
    | _ => 0
  rip := rcx
  rflags := r11
  mem _ := 0

theorem syscallEntry_clean_iff_repeated :
    Clean (returnWith id) 0x1000 0x2000 (userMachine 3 3 0x400000 3) := by
  refine (syscallEntry_clean_iff _ (by decide) _ (returnWith_conforms id) 0x1000 0x2000).1.mpr
    ⟨⟨rfl,rfl,rfl,rfl,rfl,rfl⟩,?_,?_⟩
  · rw [returnWith_rcx,(entered_hidden _ _ _).1]
    rfl
  · have kept (m : Machine) : (returnWith id m).reg .r11 = m.reg .r11 := rfl
    rw [kept,(entered_hidden _ _ _).2]
    rfl

/-- `getpid`, number 39, arrives as number 0. -/
theorem getpid_number_lost :
    let u := userMachine 39 0 0x400000 0x202
    let entry := entered u 0x1000 0x2000
    Conforms 1 96 (returnWith id) ∧ entry.arg 0 = 0 ∧ entry.arg 6 = 39 ∧
    ¬Clean (returnWith id) 0x1000 0x2000 u := by
  intro u entry
  have args : (List.range 7).map entry.arg = [0,0x400000,0,0x400000,0,0,39] :=
    entered_args u 0x1000 0x2000
  simp only [List.range_succ,List.range_zero,List.nil_append,List.cons_append,List.map_cons,List.map_nil,
    List.cons.injEq,and_true] at args
  refine ⟨returnWith_conforms id,args.1,args.2.2.2.2.2.2,fun clean => ?_⟩
  have rsi := ((handedOver_iff u _ _).mp clean.handed).rsi
  simp [u,userMachine] at rsi

end Kernal.Syscall
