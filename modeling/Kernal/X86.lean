import Mathlib.Algebra.Group.Nat.Defs
import Mathlib.Data.Set.Lattice
import Mathlib.Order.CompletePartialOrder

/-! A part of the x86-64 machine at the privilege of a kernel: the general registers,
memory by bytes and the instructions a routine in assembly saves and restores registers
with. Operands stand in the order of the AT&T syntax, source first. `rip` is tracked at
calls and returns only, and `rflags` is the part of the register that `pushfq` stores
and `popfq` loads. -/
namespace Kernal.X86

abbrev Word := BitVec 64
abbrev Mem := Word → BitVec 8

inductive Reg where
  | rax | rbx | rcx | rdx | rsi | rdi | rbp | rsp
  | r8 | r9 | r10 | r11 | r12 | r13 | r14 | r15
  deriving DecidableEq, Repr

/-- The eight bytes from `a` on, the lowest one first. -/
def load (mem : Mem) (a : Word) : Word :=
  mem (a + 7) ++ mem (a + 6) ++ mem (a + 5) ++ mem (a + 4) ++
    mem (a + 3) ++ mem (a + 2) ++ mem (a + 1) ++ mem a

def span (a : Word) (n : Nat) : Set Word := fun x => (x - a).toNat < n

def store (mem : Mem) (a v : Word) : Mem :=
  fun x => if (x - a).toNat < 8 then v.extractLsb' (8 * (x - a).toNat) 8 else mem x

theorem add_sub_self (a i : Word) : a + i - a = i := by
  rw [BitVec.add_comm,BitVec.add_sub_cancel]

theorem store_outside {mem : Mem} {a v x : Word} (outside : 8 ≤ (x - a).toNat) :
    store mem a v x = mem x := if_neg (Nat.not_lt.mpr outside)

theorem span_disjoint (left : n ≤ (b - a).toNat) (right : k ≤ (a - b).toNat) :
    Disjoint (span a n) (span b k) := by
  refine Set.disjoint_left.mpr fun x here there => ?_
  change (x - a).toNat < n at here
  change (x - b).toNat < k at there
  bv_omega

theorem span_subset (inside : (b - a).toNat + k ≤ n) : span b k ⊆ span a n := by
  intro x here
  change (x - b).toNat < k at here
  change (x - a).toNat < n
  bv_omega

theorem load_congr {mem mem' : Mem} {a : Word}
    (same : ∀ x ∈ span a 8, mem' x = mem x) : load mem' a = load mem a := by
  have byte (i : Word) (small : i.toNat < 8) : mem' (a + i) = mem (a + i) := by
    apply same
    change (a + i - a).toNat < 8
    rw [add_sub_self]
    exact small
  have first : mem' a = mem a := by simpa using byte 0 (by decide)
  simp only [load,first,byte 1 (by decide),byte 2 (by decide),byte 3 (by decide),
    byte 4 (by decide),byte 5 (by decide),byte 6 (by decide),byte 7 (by decide)]

/-- A word is its bytes put together. -/
theorem bytes_append (v : Word) :
    v.extractLsb' 56 8 ++ v.extractLsb' 48 8 ++ v.extractLsb' 40 8 ++ v.extractLsb' 32 8 ++
      v.extractLsb' 24 8 ++ v.extractLsb' 16 8 ++ v.extractLsb' 8 8 ++ v.extractLsb' 0 8 = v := by
  refine BitVec.eq_of_getLsbD_eq fun i small => ?_
  simp only [BitVec.getLsbD_append,BitVec.getLsbD_extractLsb']
  repeat' split
  all_goals
    rw [decide_eq_true (by omega),Bool.true_and]
    congr 1
    omega

theorem load_store (mem : Mem) (a v : Word) : load (store mem a v) a = v := by
  have byte (i : Word) (small : i.toNat < 8) :
      store mem a v (a + i) = v.extractLsb' (8 * i.toNat) 8 := by
    simp only [store,add_sub_self,if_pos small]
  have first : store mem a v a = v.extractLsb' 0 8 := by simpa using byte 0 (by decide)
  simp only [load,first,byte 1 (by decide),byte 2 (by decide),byte 3 (by decide),
    byte 4 (by decide),byte 5 (by decide),byte 6 (by decide),byte 7 (by decide)]
  exact bytes_append v

theorem load_store_disjoint {mem : Mem} (disjoint : Disjoint (span a 8) (span b 8)) :
    load (store mem a v) b = load mem b := by
  refine load_congr fun x near => store_outside (Nat.not_lt.mp fun inside => ?_)
  exact Set.disjoint_left.mp disjoint inside near

structure Machine where
  reg : Reg → Word
  rip : Word
  rflags : Word
  mem : Mem

inductive Instr where
  | push (r : Reg)
  | pop (r : Reg)
  | pushf
  | popf
  | mov (src dst : Reg)
  | movImm (imm : Word) (dst : Reg)
  /-- `movq disp(base), dst`. -/
  | load (disp : Word) (base dst : Reg)
  /-- `movq src, disp(base)`. -/
  | store (src : Reg) (disp : Word) (base : Reg)
  | add (imm : Word) (dst : Reg)
  | cmp (imm : Word) (r : Reg)
  | ret
  deriving DecidableEq, Repr

def statusBit (on : Bool) (n : Nat) : Word := if on then BitVec.twoPow 64 n else 0

/-- Bit 0 is CF, then PF, AF, ZF, SF and OF. -/
def withStatus (flags : Word) (cf pf af zf sf of : Bool) : Word :=
  (flags &&& ~~~0x8d5) ||| statusBit cf 0 ||| statusBit pf 2 ||| statusBit af 4 |||
    statusBit zf 6 ||| statusBit sf 7 ||| statusBit of 11

theorem statusBit_first (on : Bool) (n : Nat) : (statusBit on n).getLsbD 0 = (on && decide (0 = n)) := by
  cases on <;> simp [statusBit]

theorem withStatus_carry (flags : Word) (cf pf af zf sf of : Bool) :
    (withStatus flags cf pf af zf sf of).getLsbD 0 = cf := by
  simp only [withStatus,BitVec.getLsbD_or,BitVec.getLsbD_and,statusBit_first]
  simp

def evenParity (v : Word) : Bool := (List.range 8).countP v.getLsbD % 2 == 0

def addFlags (flags a b : Word) : Word :=
  let d := a + b
  withStatus flags (d < a) (evenParity d) ((a ^^^ b ^^^ d).getLsbD 4) (d == 0) d.msb
    (a.msb == b.msb && d.msb != a.msb)

def subFlags (flags a b : Word) : Word :=
  let d := a - b
  withStatus flags (a < b) (evenParity d) ((a ^^^ b ^^^ d).getLsbD 4) (d == 0) d.msb
    (a.msb != b.msb && d.msb != a.msb)

namespace Machine

def set (m : Machine) (r : Reg) (v : Word) : Machine := { m with reg := Function.update m.reg r v }

def carry (m : Machine) : Bool := m.rflags.getLsbD 0

def push (m : Machine) (v : Word) : Machine :=
  let sp := m.reg .rsp - 8
  { m.set .rsp sp with mem := X86.store m.mem sp v }

/-- The word on top of the stack and the machine without it. -/
def popped (m : Machine) : Word × Machine :=
  (X86.load m.mem (m.reg .rsp), m.set .rsp (m.reg .rsp + 8))

/-- `call` with the address of the instruction after it. -/
def call (m : Machine) (next target : Word) : Machine := { m.push next with rip := target }

def step (m : Machine) : Instr → Machine
  | .push r => m.push (m.reg r)
  | .pop r => m.popped.2.set r m.popped.1
  | .pushf => m.push m.rflags
  | .popf => { m.popped.2 with rflags := m.popped.1 }
  | .mov src dst => m.set dst (m.reg src)
  | .movImm imm dst => m.set dst imm
  | .load disp base dst => m.set dst (X86.load m.mem (m.reg base + disp))
  | .store src disp base => { m with mem := X86.store m.mem (m.reg base + disp) (m.reg src) }
  | .add imm dst =>
    { m.set dst (m.reg dst + imm) with rflags := addFlags m.rflags (m.reg dst) imm }
  | .cmp imm r => { m with rflags := subFlags m.rflags (m.reg r) imm }
  | .ret => { m.popped.2 with rip := m.popped.1 }

def exec (m : Machine) (code : List Instr) : Machine := code.foldl step m

@[simp] theorem exec_nil (m : Machine) : m.exec [] = m := rfl

@[simp] theorem exec_cons (m : Machine) (i : Instr) (code : List Instr) :
    m.exec (i :: code) = (m.step i).exec code := rfl

theorem exec_append (m : Machine) (first second : List Instr) :
    m.exec (first ++ second) = (m.exec first).exec second := List.foldl_append

/-- The words in order, each one pushed on those before it. -/
def pushAll (m : Machine) : List Word → Machine
  | [] => m
  | v :: vs => (m.push v).pushAll vs

@[simp] theorem push_rsp (m : Machine) (v : Word) : (m.push v).reg .rsp = m.reg .rsp - 8 := by
  simp [push,set]

theorem push_reg (m : Machine) (v : Word) (other : r ≠ .rsp) : (m.push v).reg r = m.reg r := by
  simp [push,set,other]

theorem call_reg (m : Machine) (next target : Word) (other : r ≠ .rsp) :
    (m.call next target).reg r = m.reg r := push_reg m next other

theorem pushAll_reg (other : r ≠ .rsp) (vs : List Word) : (m : Machine) →
    (m.pushAll vs).reg r = m.reg r := by
  induction vs with
  | nil => exact fun _ => rfl
  | cons v vs ih => exact fun m => (ih (m.push v)).trans (push_reg m v other)

theorem pushAll_rsp (vs : List Word) : (m : Machine) →
    (m.pushAll vs).reg .rsp = m.reg .rsp - BitVec.ofNat 64 (8 * vs.length) := by
  induction vs with
  | nil => intro m; simp [pushAll]
  | cons v vs ih =>
    intro m
    rw [pushAll,ih,push_rsp,List.length_cons]
    bv_omega

theorem pushAll_rflags (vs : List Word) : (m : Machine) → (m.pushAll vs).rflags = m.rflags := by
  induction vs with
  | nil => exact fun _ => rfl
  | cons v vs ih => exact fun m => ih (m.push v)

/-- A row of pushes stores the registers as they were before the first. -/
theorem exec_pushes {rs : List Reg} (others : .rsp ∉ rs) : (m : Machine) →
    m.exec (rs.map .push) = m.pushAll (rs.map m.reg) := by
  induction rs with
  | nil => exact fun _ => rfl
  | cons r rs ih =>
    intro m
    simp only [List.mem_cons,not_or] at others
    have same : rs.map (m.push (m.reg r)).reg = rs.map m.reg := by
      refine List.map_congr_left fun r' member => push_reg m _ fun eq => ?_
      exact others.2 (eq ▸ member)
    rw [List.map_cons,List.map_cons,exec_cons,step,ih others.2,same]
    rfl

theorem pop_reg (m : Machine) (other : r' ≠ r) (notSp : r' ≠ .rsp) :
    (m.step (.pop r)).reg r' = m.reg r' := by
  simp [step,popped,set,other,notSp]

theorem exec_pops_reg {rs : List Reg} (other : r ∉ rs) (notSp : r ≠ .rsp) : (m : Machine) →
    (m.exec (rs.map .pop)).reg r = m.reg r := by
  induction rs with
  | nil => exact fun _ => rfl
  | cons r' rs ih =>
    intro m
    simp only [List.mem_cons,not_or] at other
    exact (ih other.2 (m.step (.pop r'))).trans (pop_reg m other.1 notSp)

theorem exec_pops_rsp {rs : List Reg} (others : .rsp ∉ rs) : (m : Machine) →
    (m.exec (rs.map .pop)).reg .rsp = m.reg .rsp + BitVec.ofNat 64 (8 * rs.length) := by
  induction rs with
  | nil => intro m; simp
  | cons r rs ih =>
    intro m
    simp only [List.mem_cons,not_or] at others
    have popped : (m.step (.pop r)).reg .rsp = m.reg .rsp + 8 := by
      simp [step,Machine.popped,set,others.1]
    rw [List.map_cons,exec_cons,ih others.2,popped,List.length_cons]
    bv_omega

/-- Pushing changes only the bytes between the new stack pointer and the old one. -/
theorem pushAll_outside (vs : List Word) : (m : Machine) → 8 * vs.length < 2^64 →
    8 * vs.length ≤ (x - (m.pushAll vs).reg .rsp).toNat → (m.pushAll vs).mem x = m.mem x := by
  induction vs with
  | nil => exact fun _ _ _ => rfl
  | cons v vs ih =>
    intro m room outside
    rw [pushAll_rsp] at outside
    simp only [List.length_cons] at room outside
    refine (ih (m.push v) (by omega) ?_).trans (store_outside ?_)
    · rw [pushAll_rsp,push_rsp]
      bv_omega
    · bv_omega

end Machine

/-- From `sp` on, memory holds the words in order. -/
def Stack (mem : Mem) (sp : Word) : List Word → Prop
  | [] => True
  | v :: vs => load mem sp = v ∧ Stack mem (sp + 8) vs

namespace Stack

/-- Only the bytes of the words themselves matter. -/
theorem congr {mem mem' : Mem} {vs : List Word} : {sp : Word} → 8 * vs.length < 2^64 →
    (∀ x ∈ span sp (8 * vs.length), mem' x = mem x) → Stack mem sp vs → Stack mem' sp vs := by
  induction vs with
  | nil => exact fun _ _ _ => trivial
  | cons v vs ih =>
    intro sp room same stack
    simp only [List.length_cons] at room same
    refine ⟨(load_congr fun x near => same x ?_).trans stack.1,ih (by omega) (fun x near => same x ?_) stack.2⟩
    · exact Nat.lt_of_lt_of_le near (by omega)
    · change (x - (sp + 8)).toNat < _ at near
      change (x - sp).toNat < _
      bv_omega

theorem unique {mem : Mem} {vs : List Word} : {sp : Word} → {ws : List Word} →
    vs.length = ws.length → Stack mem sp vs → Stack mem sp ws → vs = ws := by
  induction vs with
  | nil => exact fun length _ _ => (List.length_eq_zero_iff.mp length.symm).symm
  | cons v vs ih =>
    intro sp ws length left right
    cases ws with
    | nil => simp at length
    | cons w ws =>
      have head : v = w := left.1.symm.trans right.1
      have tail : vs = ws := ih (Nat.succ.inj length) left.2 right.2
      rw [head,tail]

theorem push {m : Machine} (stack : Stack m.mem (m.reg .rsp) vs) (room : 8 * vs.length + 8 < 2^64)
    (v : Word) : Stack (m.push v).mem ((m.push v).reg .rsp) (v :: vs) := by
  rw [Machine.push_rsp]
  refine ⟨load_store ..,?_⟩
  rw [BitVec.sub_add_cancel]
  refine congr (by omega) (fun x near => store_outside ?_) stack
  change (x - m.reg .rsp).toNat < _ at near
  bv_omega

theorem pushAll (new : List Word) : {m : Machine} → {vs : List Word} →
    Stack m.mem (m.reg .rsp) vs → 8 * (new.length + vs.length) < 2^64 →
    Stack (m.pushAll new).mem ((m.pushAll new).reg .rsp) (new.reverse ++ vs) := by
  induction new with
  | nil => exact fun stack _ => stack
  | cons v new ih =>
    intro m vs stack room
    simp only [List.length_cons] at room
    rw [List.reverse_cons,List.append_assoc]
    refine ih (stack.push (by omega) v) ?_
    change 8 * (new.length + (vs.length + 1)) < 2^64
    omega

theorem of_pushAll (m : Machine) (new : List Word) (room : 8 * new.length < 2^64) :
    Stack (m.pushAll new).mem ((m.pushAll new).reg .rsp) new.reverse := by
  have nothing : Stack m.mem (m.reg .rsp) [] := trivial
  simpa using nothing.pushAll new room

/-- A row of pops takes the words off in order. -/
theorem pops (rs : List Reg) (nodup : rs.Nodup) (others : .rsp ∉ rs) : {m : Machine} → {vs : List Word} →
    rs.length = vs.length → Stack m.mem (m.reg .rsp) vs → rs.map (m.exec (rs.map .pop)).reg = vs := by
  induction rs with
  | nil => exact fun length _ => (List.length_eq_zero_iff.mp length.symm).symm
  | cons r rs ih =>
    intro m vs length stack
    simp only [List.mem_cons,not_or,List.nodup_cons] at others nodup
    cases vs with
    | nil => simp at length
    | cons v vs =>
      have here : (m.step (.pop r)).reg r = v := by
        simpa [Machine.step,Machine.popped,Machine.set] using stack.1
      have rest : Stack (m.step (.pop r)).mem ((m.step (.pop r)).reg .rsp) vs := by
        have rsp : (m.step (.pop r)).reg .rsp = m.reg .rsp + 8 := by
          simp [Machine.step,Machine.popped,Machine.set,others.1]
        rw [rsp]
        exact stack.2
      have kept := Machine.exec_pops_reg nodup.1 (Ne.symm others.1) (m.step (.pop r))
      rw [List.map_cons,List.map_cons,Machine.exec_cons,kept,here,
        ih nodup.2 others.2 (Nat.succ.inj length) rest]

end Stack

/-- Registers a C function gives back as it found them. -/
def calleeSaved : List Reg := [.rbx, .rbp, .r12, .r13, .r14, .r15]

def argRegs : List Reg := [.rdi, .rsi, .rdx, .rcx, .r8, .r9]

/-- Argument `i` of the System V convention, read at the entry of a C function. -/
def Machine.arg (m : Machine) (i : Nat) : Word :=
  match argRegs[i]? with
  | some r => m.reg r
  | none => load m.mem (m.reg .rsp + BitVec.ofNat 64 (8 * (i - 5)))

/-- A C function as a step from its entry to the instruction after the call. It keeps the
callee-saved registers and `frame` bytes of its caller above the `stackArgs` arguments. -/
structure Conforms (stackArgs frame : Nat) (f : Machine → Machine) : Prop where
  rip : ∀ m, (f m).rip = load m.mem (m.reg .rsp)
  rsp : ∀ m, (f m).reg .rsp = m.reg .rsp + 8
  saved : ∀ m, ∀ r ∈ calleeSaved, (f m).reg r = m.reg r
  mem : ∀ m, ∀ x ∈ span (m.reg .rsp + BitVec.ofNat 64 (8 + 8 * stackArgs)) frame, (f m).mem x = m.mem x

end Kernal.X86
