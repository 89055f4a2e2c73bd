/-! `do_syscall` of `main.c` with its table and the handlers defined beside it. The
errors of `types.h` are negative already, so that `-ENOSYS` and `-EFAULT` are positive
and a failed call looks like a small result. -/
namespace Kernal.Syscall

/-- `unsigned long`, and `long` when read signed. -/
abbrev Word := BitVec 64

def NR_syscalls : Nat := 101
def PID_MAX : Nat := 32768

/-- `ENOSYS` and `EFAULT` of `error_t`. -/
def ENOSYS : Int := -27
def EFAULT : Int := -11

def CLONE_VM : Word := 0x100
def CLONE_VFORK : Word := 0x4000

structure SysInfo where
  totalram : Nat
  freeram : Nat
  sharedram : Nat
  bufferram : Nat
  totalswap : Nat
  freeswap : Nat
  totalhigh : Nat
  freehigh : Nat
  memUnit : Nat
  deriving DecidableEq, Repr

structure Utsname where
  sysname : String
  nodename : String
  release : String
  version : String
  machine : String
  domainname : String
  deriving DecidableEq, Repr

inductive UserData where
  | sysinfo (val : SysInfo)
  | utsname (val : Utsname)
  deriving DecidableEq, Repr

/-- The rest of the kernel, over its state. -/
structure Kernel (σ : Type) where
  printk : String → σ → σ
  currentPid : σ → BitVec 32
  sigchld : Word
  /-- Clone flags, stack pointer, stack size and the two places for thread numbers. -/
  doFork : Word → Word → Word → Word → Word → σ → Word × σ
  doWait : BitVec 32 → Word → BitVec 32 → Word → σ → Word × σ
  doKill : BitVec 32 → BitVec 32 → σ → Word × σ
  doBrk : Word → σ → Word × σ
  doMmap : Word → Word → Word → Word → Word → Word → σ → Word × σ
  doMunmap : Word → Word → σ → Word × σ
  /-- `none` when the call does not return. -/
  doExit : BitVec 32 → σ → Option σ
  yield : σ → σ
  siMeminfo : σ → SysInfo
  siSwapinfo : σ → SysInfo → SysInfo
  /-- The number of bytes that could not be copied. -/
  copyToUser : Word → UserData → σ → Nat × σ

inductive Handler where
  | sysRead | sysWrite | sysOpen | sysClose | sysGetpid | sysClone | sysFork | sysVfork | sysExecve
  | sysExit | sysWait4 | sysKill | sysSchedYield | sysBrk | sysMmap | sysMunmap | sysSysinfo | sysUname
  deriving DecidableEq, Repr

def sysCallTable : Nat → Option Handler
  | 0 => some .sysRead
  | 1 => some .sysWrite
  | 2 => some .sysOpen
  | 3 => some .sysClose
  | 39 => some .sysGetpid
  | 56 => some .sysClone
  | 57 => some .sysFork
  | 58 => some .sysVfork
  | 59 => some .sysExecve
  | 60 => some .sysExit
  | 61 => some .sysWait4
  | 62 => some .sysKill
  | 24 => some .sysSchedYield
  | 12 => some .sysBrk
  | 9 => some .sysMmap
  | 11 => some .sysMunmap
  | 99 => some .sysSysinfo
  | 63 => some .sysUname
  | _ => none

def errorResult (error : Int) : Word := BitVec.ofInt 64 (-error)

/-- `sys_getpid` for a task with this number. -/
def pidResult (pid : BitVec 32) : Word := pid.signExtend 64

section

variable (k : Kernel σ)

def kernelInfo : Utsname where
  sysname := "MicroKernel"
  nodename := "localhost"
  release := "0.1.0"
  version := "1"
  machine := "x86_64"
  domainname := "localdomain"

/-- The end of `sys_sysinfo` and of `sys_uname`. -/
def copyOut (dest : Word) (data : UserData) (s : σ) : Word × σ :=
  let (left, s) := k.copyToUser dest data s
  if left ≠ 0 then (errorResult EFAULT, s) else (0, s)

def sysinfoData (s : σ) : UserData := .sysinfo (k.siSwapinfo s (k.siMeminfo s))

/-- A handler called with six arguments; it takes those it has parameters for, narrowed
to their types. `none` when it does not return. -/
def Handler.call (a0 a1 a2 a3 a4 a5 : Word) (s : σ) : Handler → Option (Word × σ)
  | .sysRead | .sysWrite | .sysOpen | .sysClose | .sysExecve => some (errorResult ENOSYS, s)
  | .sysGetpid => some (pidResult (k.currentPid s), s)
  | .sysClone => some (k.doFork a0 a1 0 a2 a3 s)
  | .sysFork => some (k.doFork k.sigchld 0 0 0 0 s)
  | .sysVfork => some (k.doFork (CLONE_VFORK ||| CLONE_VM ||| k.sigchld) 0 0 0 0 s)
  | .sysExit => (k.doExit (a0.setWidth 32) s).map (0, ·)
  | .sysWait4 => some (k.doWait (a0.setWidth 32) a1 (a2.setWidth 32) a3 s)
  | .sysKill => some (k.doKill (a0.setWidth 32) (a1.setWidth 32) s)
  | .sysSchedYield => some (0, k.yield s)
  | .sysBrk => some (k.doBrk a0 s)
  | .sysMmap => some (k.doMmap a0 a1 a2 a3 a4 a5 s)
  | .sysMunmap => some (k.doMunmap a0 a1 s)
  | .sysSysinfo => some (copyOut k a0 (sysinfoData k s) s)
  | .sysUname => some (copyOut k a0 (.utsname kernelInfo) s)

def doSyscall (nr a0 a1 a2 a3 a4 a5 : Word) (s : σ) : Option (Word × σ) :=
  if NR_syscalls ≤ nr.toNat then
    some (errorResult ENOSYS, k.printk ("Invalid syscall number: " ++ toString nr.toNat ++ "\n") s)
  else match sysCallTable nr.toNat with
    | none => some (errorResult ENOSYS, k.printk ("Unimplemented syscall: " ++ toString nr.toNat ++ "\n") s)
    | some handler => handler.call k a0 a1 a2 a3 a4 a5 s

def stubs : List Handler := [.sysRead, .sysWrite, .sysOpen, .sysClose, .sysExecve]

def Fails (nr a0 : Word) (s : σ) : Prop :=
  NR_syscalls ≤ nr.toNat ∨ match sysCallTable nr.toNat with
    | none => True
    | some .sysSysinfo => (k.copyToUser a0 (sysinfoData k s) s).1 ≠ 0
    | some .sysUname => (k.copyToUser a0 (.utsname kernelInfo) s).1 ≠ 0
    | some handler => handler ∈ stubs

/-- A failure is negative and no process number, and a handler in the table is called
with the arguments in order. -/
structure Recognisable (nr a0 a1 a2 a3 a4 a5 : Word) (s : σ) : Prop where
  failed : Fails k nr a0 s → ∃ result s', doSyscall k nr a0 a1 a2 a3 a4 a5 s = some (result, s') ∧
    result.toInt < 0 ∧ ∀ pid : BitVec 32, 1 ≤ pid.toInt → pid.toInt < PID_MAX → result ≠ pidResult pid
  dispatched : ∀ handler, nr.toNat < NR_syscalls → sysCallTable nr.toNat = some handler →
    doSyscall k nr a0 a1 a2 a3 a4 a5 s = handler.call k a0 a1 a2 a3 a4 a5 s

theorem copyOut_failed {data : UserData} (failed : (k.copyToUser dest data s).1 ≠ 0) :
    copyOut k dest data s = (errorResult EFAULT, (k.copyToUser dest data s).2) := if_pos failed

theorem stub_call (stub : handler ∈ stubs) (a0 a1 a2 a3 a4 a5 : Word) (s : σ) :
    handler.call k a0 a1 a2 a3 a4 a5 s = some (errorResult ENOSYS, s) := by
  simp only [stubs,List.mem_cons,List.not_mem_nil,or_false] at stub
  rcases stub with rfl | rfl | rfl | rfl | rfl <;> rfl

variable {k}

/-- Every failure is reported by one of the two errors, negated. -/
theorem doSyscall_of_fails {nr a0 : Word} {s : σ} (fails : Fails k nr a0 s) (a1 a2 a3 a4 a5 : Word) :
    ∃ error s', (error = ENOSYS ∨ error = EFAULT) ∧
      doSyscall k nr a0 a1 a2 a3 a4 a5 s = some (errorResult error, s') := by
  unfold doSyscall
  split
  next invalid => exact ⟨ENOSYS,_,.inl rfl,rfl⟩
  next valid =>
    have fails := fails.resolve_left valid
    cases entry : sysCallTable nr.toNat with
    | none => exact ⟨ENOSYS,_,.inl rfl,rfl⟩
    | some handler =>
      rw [entry] at fails
      dsimp only at fails ⊢
      split at fails
      next => contradiction
      next same =>
        cases same
        exact ⟨EFAULT,_,.inr rfl,congrArg some (copyOut_failed k fails)⟩
      next same =>
        cases same
        exact ⟨EFAULT,_,.inr rfl,congrArg some (copyOut_failed k fails)⟩
      next same =>
        cases same
        exact ⟨ENOSYS,_,.inl rfl,stub_call k fails ..⟩

theorem errorResult_positive (known : error = ENOSYS ∨ error = EFAULT) :
    0 < (errorResult error).toInt := by
  rcases known with rfl | rfl <;> decide

theorem doSyscall_dispatches {nr : Word} (valid : nr.toNat < NR_syscalls)
    (entry : sysCallTable nr.toNat = some handler) (a0 a1 a2 a3 a4 a5 : Word) (s : σ) :
    doSyscall k nr a0 a1 a2 a3 a4 a5 s = handler.call k a0 a1 a2 a3 a4 a5 s := by
  simp only [doSyscall,if_neg (Nat.not_le.mpr valid),entry]

/-- The dispatcher is right; no failure is. -/
theorem recognisable_iff_not_fails (k : Kernel σ) (nr a0 a1 a2 a3 a4 a5 : Word) (s : σ) :
    Recognisable k nr a0 a1 a2 a3 a4 a5 s ↔ ¬Fails k nr a0 s := by
  constructor
  · intro recognisable fails
    obtain ⟨result,s',eq,negative,_⟩ := recognisable.failed fails
    obtain ⟨error,s'',known,eq'⟩ := doSyscall_of_fails fails a1 a2 a3 a4 a5
    have same : result = errorResult error := congrArg Prod.fst (Option.some.inj (eq.symm.trans eq'))
    have positive := errorResult_positive known
    rw [← same] at positive
    omega
  · intro succeeds
    exact ⟨fun fails => absurd fails succeeds,fun handler valid entry => doSyscall_dispatches valid entry ..⟩

end

/-- A kernel without processes that counts the messages printed. -/
def quietKernel : Kernel Nat where
  printk _ printed := printed + 1
  currentPid _ := 27
  sigchld := 17
  doFork _ _ _ _ _ s := (0, s)
  doWait _ _ _ _ s := (0, s)
  doKill _ _ s := (0, s)
  doBrk _ s := (0, s)
  doMmap _ _ _ _ _ _ s := (0, s)
  doMunmap _ _ s := (0, s)
  doExit _ _ := none
  yield s := s
  siMeminfo _ := ⟨0, 0, 0, 0, 0, 0, 0, 0, 4096⟩
  siSwapinfo _ info := info
  copyToUser _ _ s := (0, s)

/-- `read` fails with the result of a successful `getpid` of process 27. -/
theorem failed_read_is_pid : Fails quietKernel 0 0 0 ∧
    doSyscall quietKernel 0 0 0 0 0 0 0 0 = some (27, 0) ∧
    doSyscall quietKernel 39 0 0 0 0 0 0 0 = some (27, 0) ∧
    ¬Recognisable quietKernel 0 0 0 0 0 0 0 0 := by
  have fails : Fails quietKernel 0 0 0 := .inr List.mem_cons_self
  refine ⟨fails,rfl,rfl,fun recognisable => ?_⟩
  obtain ⟨result,s',eq,negative,_⟩ := recognisable.failed fails
  cases eq
  contradiction

end Kernal.Syscall
