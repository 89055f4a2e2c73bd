import Kernal.X86

/-! The routines `save_user_regs` and `restore_user_regs` of `switch.S`. Both copy the five
words of the interrupt frame through `rax`: when `restore_user_regs` does so, it has already
loaded the saved `rax`, and returns with the last word of the frame in its place. -/
namespace Kernal.UserRegs

open X86

/-- `rdi` points to the `pt_regs`. -/
def saveUserRegs : List Instr := [
  .store .rax 0x50 .rdi, .store .rbx 0x28 .rdi, .store .rcx 0x58 .rdi, .store .rdx 0x60 .rdi,
  .store .rsi 0x68 .rdi, .store .rbp 0x20 .rdi, .store .r8 0x48 .rdi, .store .r9 0x40 .rdi,
  .store .r10 0x38 .rdi, .store .r11 0x30 .rdi, .store .r12 0x18 .rdi, .store .r13 0x10 .rdi,
  .store .r14 0x08 .rdi, .store .r15 0x00 .rdi,
  .load 0x80 .rsp .rax, .store .rax 0x70 .rdi,
  .load 0x98 .rsp .rax, .store .rax 0x88 .rdi,
  .load 0x90 .rsp .rax, .store .rax 0x78 .rdi,
  .load 0x88 .rsp .rax, .store .rax 0x80 .rdi,
  .load 0xA0 .rsp .rax, .store .rax 0x90 .rdi,
  .ret]

def restoreUserRegs : List Instr := [
  .load 0x50 .rdi .rax, .load 0x28 .rdi .rbx, .load 0x58 .rdi .rcx, .load 0x60 .rdi .rdx,
  .load 0x68 .rdi .rsi, .load 0x20 .rdi .rbp, .load 0x48 .rdi .r8, .load 0x40 .rdi .r9,
  .load 0x38 .rdi .r10, .load 0x30 .rdi .r11, .load 0x18 .rdi .r12, .load 0x10 .rdi .r13,
  .load 0x08 .rdi .r14, .load 0x00 .rdi .r15,
  .load 0x70 .rdi .rax, .store .rax 0x80 .rsp,
  .load 0x88 .rdi .rax, .store .rax 0x98 .rsp,
  .load 0x78 .rdi .rax, .store .rax 0x90 .rsp,
  .load 0x80 .rdi .rax, .store .rax 0x88 .rsp,
  .load 0x90 .rdi .rax, .store .rax 0xA0 .rsp,
  .ret]

/-- The general registers but for `rdi` and `rsp`, each with its place in `pt_regs`. -/
def places : List (Reg × Word) := [
  (.rax, 0x50), (.rbx, 0x28), (.rcx, 0x58), (.rdx, 0x60), (.rsi, 0x68), (.rbp, 0x20), (.r8, 0x48),
  (.r9, 0x40), (.r10, 0x38), (.r11, 0x30), (.r12, 0x18), (.r13, 0x10), (.r14, 0x08), (.r15, 0x00)]

/-- The words of the frame, from the stack pointer at entry on, each with its place in `pt_regs`:
`rip`, `rsp`, `eflags`, `cs` and `ss`. -/
def frame : List (Word × Word) := [(0x80, 0x70), (0x98, 0x88), (0x90, 0x78), (0x88, 0x80), (0xA0, 0x90)]

theorem saveUserRegs_eq : saveUserRegs =
    (places.map fun p => .store p.1 p.2 .rdi) ++
      (frame.flatMap fun p => [.load p.1 .rsp .rax, .store .rax p.2 .rdi]) ++ [.ret] := rfl

theorem restoreUserRegs_eq : restoreUserRegs =
    (places.map fun p => .load p.2 .rdi p.1) ++
      ((frame.map Prod.swap).flatMap fun c => [.load c.1 .rdi .rax, .store .rax c.2 .rsp]) ++ [.ret] := rfl

/-- Where `save_user_regs` stores in the `pt_regs`. -/
def offsets : List Word := saveUserRegs.filterMap fun i => match i with
  | .store _ disp .rdi => some disp
  | _ => none

/-- Words at these offsets do not overlap. -/
def Apart (a b : Word) : Prop := 8 ≤ (b - a).toNat ∧ 8 ≤ (a - b).toNat

instance (a b : Word) : Decidable (Apart a b) := inferInstanceAs (Decidable (_ ∧ _))

theorem offsets_apart : offsets.Pairwise Apart := by decide

/-- The words are stored one after the other, each at its offset from `base`. -/
def put (mem : Mem) (base : Word) : List (Word × Word) → Mem
  | [] => mem
  | w :: ws => put (store mem (base + w.1) w.2) base ws

section Put

theorem apart_disjoint (base : Word) (apart : Apart a b) : Disjoint (span (base + a) 8) (span (base + b) 8) := by
  refine span_disjoint ?_ ?_
  · have same : base + b - (base + a) = b - a := by bv_omega
    rw [same]
    exact apart.1
  · have same : base + a - (base + b) = a - b := by bv_omega
    rw [same]
    exact apart.2

theorem put_append (mem : Mem) (base : Word) (ws ws' : List (Word × Word)) :
    put mem base (ws ++ ws') = put (put mem base ws) base ws' := by
  induction ws generalizing mem with
  | nil => rfl
  | cons w ws ih => exact ih _

theorem load_put_disjoint {mem : Mem} {ws : List (Word × Word)}
    (disjoint : ∀ w ∈ ws, Disjoint (span (base + w.1) 8) (span b 8)) : load (put mem base ws) b = load mem b := by
  induction ws generalizing mem with
  | nil => rfl
  | cons w ws ih =>
    obtain ⟨first,rest⟩ := List.forall_mem_cons.mp disjoint
    exact (ih rest).trans (load_store_disjoint first)

theorem load_put {mem : Mem} {ws : List (Word × Word)} (apart : ws.Pairwise fun v w => Apart v.1 w.1)
    (member : (o, v) ∈ ws) : load (put mem base ws) (base + o) = v := by
  induction ws generalizing mem with
  | nil => simp at member
  | cons w ws ih =>
    obtain ⟨first,rest⟩ := List.pairwise_cons.mp apart
    rcases List.mem_cons.mp member with rfl | later
    · have disjoint : ∀ w ∈ ws, Disjoint (span (base + w.1) 8) (span (base + o) 8) :=
        fun w member => (apart_disjoint base (first w member)).symm
      rw [put,load_put_disjoint disjoint,load_store]
    · exact ih rest later

end Put

section Moves

/-- A row of stores off one register. -/
theorem exec_stores (b : Reg) (rs : List (Reg × Word)) : (m : Machine) →
    m.exec (rs.map fun p => .store p.1 p.2 b) =
      { m with mem := put m.mem (m.reg b) (rs.map fun p => (p.2, m.reg p.1)) } := by
  induction rs with
  | nil => exact fun _ => rfl
  | cons p rs ih => exact fun m => ih (m.step (.store p.1 p.2 b))

theorem exec_loads_mem (b : Reg) (rs : List (Reg × Word)) : (m : Machine) →
    (m.exec (rs.map fun p => .load p.2 b p.1)).mem = m.mem := by
  induction rs with
  | nil => exact fun _ => rfl
  | cons p rs ih => exact fun m => ih (m.step (.load p.2 b p.1))

theorem exec_loads_other (b : Reg) (rs : List (Reg × Word)) (other : r ∉ rs.map (·.1)) : (m : Machine) →
    (m.exec (rs.map fun p => .load p.2 b p.1)).reg r = m.reg r := by
  induction rs with
  | nil => exact fun _ => rfl
  | cons p rs ih =>
    intro m
    simp only [List.map_cons,List.mem_cons,not_or] at other
    exact (ih other.2 _).trans (Function.update_of_ne other.1 _ _)

/-- A row of loads off one register, which is not among those loaded. -/
theorem exec_loads (b : Reg) (rs : List (Reg × Word)) (base : b ∉ rs.map (·.1)) (once : (rs.map (·.1)).Nodup)
    (member : (r, o) ∈ rs) : (m : Machine) →
    (m.exec (rs.map fun p => .load p.2 b p.1)).reg r = load m.mem (m.reg b + o) := by
  induction rs with
  | nil => simp at member
  | cons p rs ih =>
    intro m
    simp only [List.map_cons,List.mem_cons,not_or,List.nodup_cons] at base once
    have kept : (m.step (.load p.2 b p.1)).reg b = m.reg b := Function.update_of_ne base.1 _ _
    rcases List.mem_cons.mp member with rfl | later
    · exact (exec_loads_other b rs once.1 _).trans (Function.update_self ..)
    · refine (ih base.2 once.2 later _).trans ?_
      rw [kept]
      rfl

/-- Words are copied one by one through the register `s`. -/
theorem exec_copies {a b s : Reg} (source : a ≠ s) (target : b ≠ s) (cs : List (Word × Word)) : (m : Machine) →
    (∀ c ∈ cs, ∀ d ∈ cs, Disjoint (span (m.reg b + c.2) 8) (span (m.reg a + d.1) 8)) →
    let k := m.exec (cs.flatMap fun c => [.load c.1 a s, .store s c.2 b])
    k.mem = put m.mem (m.reg b) (cs.map fun c => (c.2, load m.mem (m.reg a + c.1))) ∧
      (∀ r, r ≠ s → k.reg r = m.reg r) ∧
      ∀ c ∈ cs.getLast?, k.reg s = load m.mem (m.reg a + c.1) := by
  induction cs with
  | nil => exact fun m _ => ⟨rfl,fun _ _ => rfl,by simp⟩
  | cons c cs ih =>
    intro m disjoint k
    let v := load m.mem (m.reg a + c.1)
    let m' := { m.set s v with mem := store m.mem (m.reg b + c.2) v }
    have step : (m.step (.load c.1 a s)).step (.store s c.2 b) = m' := by
      simp [Machine.step,Machine.set,m',v,target]
    have run : k = m'.exec (cs.flatMap fun c => [.load c.1 a s, .store s c.2 b]) := congrArg (Machine.exec · _) step
    have keepA : m'.reg a = m.reg a := Function.update_of_ne source _ _
    have keepB : m'.reg b = m.reg b := Function.update_of_ne target _ _
    have memory : m'.mem = store m.mem (m.reg b + c.2) v := rfl
    have later : ∀ d ∈ cs, load m'.mem (m.reg a + d.1) = load m.mem (m.reg a + d.1) := by
      intro d member
      rw [memory,load_store_disjoint (disjoint c List.mem_cons_self d (List.mem_cons_of_mem c member))]
    obtain ⟨mem,regs,last⟩ := ih m' (by
      rw [keepA,keepB]
      exact fun d hd e he => disjoint d (List.mem_cons_of_mem c hd) e (List.mem_cons_of_mem c he))
    rw [← run,keepA,keepB] at mem
    rw [← run] at regs
    rw [← run,keepA] at last
    refine ⟨?_,fun r other => (regs r other).trans (Function.update_of_ne other _ _),fun d final => ?_⟩
    · have values : (cs.map fun d => (d.2, load m'.mem (m.reg a + d.1))) =
          cs.map fun d => (d.2, load m.mem (m.reg a + d.1)) :=
        List.map_congr_left fun d member => by rw [later d member]
      rw [mem,values,memory,List.map_cons,put]
    · cases cs with
      | nil =>
        obtain rfl : c = d := Option.some.inj final
        rw [run]
        exact Function.update_self ..
      | cons e cs =>
        rw [List.getLast?_cons_cons] at final
        rw [last d final,later d (List.mem_of_getLast? final)]

end Moves

/-- The `pt_regs` area, and the words on the stack that the routines use. -/
structure Separate (m : Machine) : Prop where
  ret : Disjoint (span (m.reg .rdi) 0x98) (span (m.reg .rsp) 8)
  stack : Disjoint (span (m.reg .rdi) 0x98) (span (m.reg .rsp + 0x80) 40)

/-- `restore_user_regs` is entered after `save_user_regs` was at `m`: the registers but for `rdi`
and `rsp` are arbitrary, and so is the return address. -/
structure Between (m k : Machine) : Prop where
  rdi : k.reg .rdi = m.reg .rdi
  rsp : k.reg .rsp = m.reg .rsp
  mem : ∀ x ∉ span (m.reg .rsp) 8, k.mem x = (m.exec saveUserRegs).mem x

/-- `rip`, `cs`, `eflags`, `rsp` and `ss` in the frame. -/
def frameWords : List Word := [0x80, 0x88, 0x90, 0x98, 0xA0]

/-- The registers and the frame are what they were, and no two places of `pt_regs` overlap. -/
structure Restored (m after : Machine) : Prop where
  regs : ∀ r, r ≠ .rdi → r ≠ .rsp → after.reg r = m.reg r
  frame : ∀ o ∈ frameWords, load after.mem (m.reg .rsp + o) = load m.mem (m.reg .rsp + o)
  apart : offsets.Pairwise Apart

def saved (m : Machine) : List (Word × Word) :=
  (places.map fun p => (p.2, m.reg p.1)) ++ frame.map fun p => (p.2, load m.mem (m.reg .rsp + p.1))

section Routines

variable {m k : Machine}

theorem saved_apart (m : Machine) : (saved m).Pairwise fun v w => Apart v.1 w.1 := by
  have firsts : (saved m).map (·.1) = offsets := rfl
  have apart := offsets_apart
  rwa [← firsts,List.pairwise_map] at apart

theorem frame_inside : ∀ p ∈ frame, p.2.toNat + 8 ≤ 0x98 ∧ (p.1 - 0x80).toNat + 8 ≤ 40 := by
  intro p member
  simp only [frame,List.mem_cons,List.not_mem_nil,or_false] at member
  rcases member with rfl | rfl | rfl | rfl | rfl <;> decide

theorem frameWords_listed : ∀ o ∈ frameWords, o ∈ frame.map (·.1) := by
  intro o member
  simp only [frameWords,List.mem_cons,List.not_mem_nil,or_false] at member
  rcases member with rfl | rfl | rfl | rfl | rfl <;> decide

theorem places_inside : ∀ p ∈ places, p.2.toNat + 8 ≤ 0x98 := by decide

theorem area_subset (base : Word) (inside : o.toNat + 8 ≤ 0x98) : span (base + o) 8 ⊆ span base 0x98 := by
  refine span_subset ?_
  rw [add_sub_self]
  exact inside

theorem frame_subset (sp : Word) (inside : (o - 0x80).toNat + 8 ≤ 40) :
    span (sp + o) 8 ⊆ span (sp + 0x80) 40 := by
  have same : sp + o - (sp + 0x80) = o - 0x80 := by bv_omega
  refine span_subset ?_
  rw [same]
  exact inside

theorem Separate.word (apart : Separate m) (area : o.toNat + 8 ≤ 0x98) (p : Word × Word) (member : p ∈ frame) :
    Disjoint (span (m.reg .rdi + o) 8) (span (m.reg .rsp + p.1) 8) :=
  apart.stack.mono (area_subset _ area) (frame_subset _ (frame_inside p member).2)

theorem saveUserRegs_mem (apart : Separate m) :
    (m.exec saveUserRegs).mem = put m.mem (m.reg .rdi) (saved m) := by
  let m' : Machine := { m with mem := put m.mem (m.reg .rdi) (places.map fun p => (p.2, m.reg p.1)) }
  have words (p : Word × Word) (member : p ∈ frame) :
      load m'.mem (m.reg .rsp + p.1) = load m.mem (m.reg .rsp + p.1) := by
    refine load_put_disjoint fun w there => ?_
    obtain ⟨q,place,rfl⟩ := List.mem_map.mp there
    exact apart.word (places_inside q place) p member
  have values : (frame.map fun p => (p.2, load m'.mem (m.reg .rsp + p.1))) =
      frame.map fun p => (p.2, load m.mem (m.reg .rsp + p.1)) :=
    List.map_congr_left fun p member => by rw [words p member]
  obtain ⟨mem,_⟩ := exec_copies (a := .rsp) (b := .rdi) (s := .rax) (by decide) (by decide) frame m'
    fun c hc d hd => apart.word (frame_inside c hc).1 d hd
  have run : (m.exec saveUserRegs).mem =
      (m'.exec (frame.flatMap fun p => [.load p.1 .rsp .rax, .store .rax p.2 .rdi])).mem := by
    rw [saveUserRegs_eq,Machine.exec_append,Machine.exec_append,exec_stores]
    rfl
  rw [run,mem,saved,put_append,← values]

/-- The `pt_regs` when `restore_user_regs` is entered. -/
theorem Between.load (between : Between m k) (apart : Separate m) (member : (o, v) ∈ saved m)
    (inside : o.toNat + 8 ≤ 0x98) : load k.mem (m.reg .rdi + o) = v := by
  have same : X86.load k.mem (m.reg .rdi + o) = X86.load (m.exec saveUserRegs).mem (m.reg .rdi + o) := by
    refine load_congr fun x near => between.mem x fun ret => ?_
    exact Set.disjoint_left.mp apart.ret (area_subset _ inside near) ret
  rw [same,saveUserRegs_mem apart,load_put (saved_apart m) member]

theorem Between.register (between : Between m k) (apart : Separate m) (member : (r, o) ∈ places) :
    X86.load k.mem (k.reg .rdi + o) = m.reg r := by
  rw [between.rdi]
  refine between.load apart (List.mem_append_left _ ?_) (places_inside _ member)
  exact List.mem_map.mpr ⟨(r, o),member,rfl⟩

theorem Between.word (between : Between m k) (apart : Separate m) (member : p ∈ frame) :
    X86.load k.mem (k.reg .rdi + p.2) = X86.load m.mem (m.reg .rsp + p.1) := by
  rw [between.rdi]
  refine between.load apart (List.mem_append_right _ ?_) (frame_inside p member).1
  exact List.mem_map.mpr ⟨p,member,rfl⟩

/-- What `restore_user_regs` does, wherever it is entered. -/
theorem restoreUserRegs_exec (apart : Separate k) :
    let after := k.exec restoreUserRegs
    after.mem = put k.mem (k.reg .rsp) (frame.map fun p => (p.1, load k.mem (k.reg .rdi + p.2))) ∧
      (∀ r o, (r, o) ∈ places → r ≠ .rax → r ≠ .rsp → after.reg r = load k.mem (k.reg .rdi + o)) ∧
      after.reg .rax = load k.mem (k.reg .rdi + 0x90) := by
  intro after
  generalize loaded : k.exec (places.map fun p => .load p.2 .rdi p.1) = k'
  have memory : k'.mem = k.mem := by rw [← loaded,exec_loads_mem]
  have rdi : k'.reg .rdi = k.reg .rdi := by rw [← loaded,exec_loads_other _ _ (by decide)]
  have rsp : k'.reg .rsp = k.reg .rsp := by rw [← loaded,exec_loads_other _ _ (by decide)]
  obtain ⟨mem,regs,last⟩ := exec_copies (a := .rdi) (b := .rsp) (s := .rax) (by decide) (by decide)
    (frame.map Prod.swap) k' (by
      rw [rdi,rsp]
      intro c hc d hd
      obtain ⟨p,hp,rfl⟩ := List.mem_map.mp hc
      obtain ⟨q,hq,rfl⟩ := List.mem_map.mp hd
      exact (apart.word (frame_inside q hq).1 p hp).symm)
  generalize copied : k'.exec ((frame.map Prod.swap).flatMap fun c => [.load c.1 .rdi .rax, .store .rax c.2 .rsp]) = k''
    at mem regs last
  have run : after = k''.step .ret := by
    rw [← copied,← loaded,← Machine.exec_append]
    exact (congrArg k.exec restoreUserRegs_eq).trans (Machine.exec_append k _ [.ret])
  have kept (r : Reg) (other : r ≠ .rsp) : after.reg r = k''.reg r := by
    rw [run]
    exact Function.update_of_ne other _ _
  refine ⟨?_,fun r o member notRax notSp => ?_,?_⟩
  · rw [run]
    refine mem.trans ?_
    rw [memory,rdi,rsp,List.map_map]
    rfl
  · rw [kept r notSp,regs r notRax,← loaded]
    exact exec_loads .rdi places (by decide) (by decide) member k
  · rw [kept .rax (by decide),last (0x90, 0xA0) rfl,memory,rdi]

theorem Between.separate (between : Between m k) (apart : Separate m) : Separate k := by
  constructor
  · rw [between.rdi,between.rsp]
    exact apart.ret
  · rw [between.rdi,between.rsp]
    exact apart.stack

/-- Every register but `rax` is restored, and the frame is; `rax` gets the frame's last word. -/
theorem Between.restored (between : Between m k) (apart : Separate m) :
    let after := k.exec restoreUserRegs
    after.reg .rax = X86.load m.mem (m.reg .rsp + 0xA0) ∧
      (∀ p ∈ places, p.1 ≠ .rax → after.reg p.1 = m.reg p.1) ∧
      ∀ p ∈ frame, X86.load after.mem (m.reg .rsp + p.1) = X86.load m.mem (m.reg .rsp + p.1) := by
  intro after
  obtain ⟨mem,regs,rax⟩ := restoreUserRegs_exec (between.separate apart)
  refine ⟨?_,fun p member notRax => ?_,fun p member => ?_⟩
  · exact rax.trans (between.word apart (p := (0xA0, 0x90)) (by decide))
  · have notSp : ∀ p ∈ places, p.1 ≠ .rsp := by decide
    exact (regs p.1 p.2 member notRax (notSp p member)).trans (between.register apart member)
  · have apart' : (frame.map fun p => (p.1, X86.load k.mem (k.reg .rdi + p.2))).Pairwise
        fun v w => Apart v.1 w.1 := by
      have offsets : frame.Pairwise fun v w => Apart v.1 w.1 := by decide
      rwa [List.pairwise_map]
    have loaded : X86.load after.mem (k.reg .rsp + p.1) = X86.load k.mem (k.reg .rdi + p.2) := by
      rw [mem]
      exact load_put apart' (List.mem_map.mpr ⟨p,member,rfl⟩)
    rw [← between.rsp,loaded,between.word apart member,between.rsp]

/-- The registers that a caller of the routines saved are restored exactly if `rax` was equal to
the stack segment in the frame. -/
theorem user_regs_restored_iff (between : Between m k) (apart : Separate m) :
    Restored m (k.exec restoreUserRegs) ↔ m.reg .rax = X86.load m.mem (m.reg .rsp + 0xA0) := by
  obtain ⟨rax,regs,words⟩ := between.restored apart
  constructor
  · exact fun restored => (restored.regs .rax (by decide) (by decide)).symm.trans rax
  · intro same
    refine ⟨fun r notDi notSp => ?_,fun o member => ?_,offsets_apart⟩
    · by_cases accumulator : r = .rax
      · rw [accumulator,rax,same]
      · have listed : r ∈ places.map (·.1) := by
          cases r <;> first | contradiction | decide
        obtain ⟨p,member,rfl⟩ := List.mem_map.mp listed
        exact regs p member accumulator
    · have listed : o ∈ frame.map (·.1) := frameWords_listed o member
      obtain ⟨p,inside,rfl⟩ := List.mem_map.mp listed
      exact words p inside

end Routines

/-- The registers are all different, and a byte of memory is the last one of its address. -/
def mixed (rax : Word) : Machine where
  reg
    | .rax => rax
    | .rbx => 1
    | .rcx => 2
    | .rdx => 3
    | .rsi => 4
    | .rdi => 0x1000
    | .rbp => 5
    | .rsp => 0x8000
    | .r8 => 8
    | .r9 => 9
    | .r10 => 10
    | .r11 => 11
    | .r12 => 12
    | .r13 => 13
    | .r14 => 14
    | .r15 => 15
  rip := 0
  rflags := 2
  mem x := x.setWidth 8

def overwritten (m : Machine) : Machine where
  reg r := match r with
    | .rdi => m.reg .rdi
    | .rsp => m.reg .rsp
    | _ => BitVec.allOnes 64
  rip := 0
  rflags := 2
  mem := (m.exec saveUserRegs).mem

theorem overwritten_between (m : Machine) : Between m (overwritten m) := ⟨rfl,rfl,fun _ _ => rfl⟩

theorem mixed_separate (rax : Word) : Separate (mixed rax) :=
  ⟨span_disjoint (a := 0x1000) (b := 0x8000) (by decide) (by decide),
    span_disjoint (a := 0x1000) (b := 0x8000 + 0x80) (by decide) (by decide)⟩

/-- `rax` is lost. -/
theorem user_regs_not_restored :
    let m := mixed 7
    Between m (overwritten m) ∧ Separate m ∧ ¬Restored m ((overwritten m).exec restoreUserRegs) := by
  intro m
  have between := overwritten_between m
  have apart : Separate m := mixed_separate 7
  refine ⟨between,apart,fun restored => ?_⟩
  have rax := restored.regs .rax (by decide) (by decide)
  rw [(between.restored apart).1] at rax
  exact absurd rax (by decide)

/-- The stack segment in the frame of `mixed`. -/
def segment : Word := 0xA7A6A5A4A3A2A1A0

theorem user_regs_restored_mixed :
    Restored (mixed segment) ((overwritten (mixed segment)).exec restoreUserRegs) :=
  (user_regs_restored_iff (overwritten_between _) (mixed_separate segment)).mpr (by decide)

end Kernal.UserRegs
