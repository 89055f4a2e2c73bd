import Kernal.InterruptPaths

/-! A program interrupted again and again runs as if it had not been. The two runs agree but for
the memory of the handlers and the bytes that have been below the program's stack pointer since
the program last wrote them: an interrupt overwrites these. -/
namespace Kernal.Interrupt

open X86

structure Agree (D : Set Word) (m k : Machine) : Prop where
  reg : k.reg = m.reg
  rip : k.rip = m.rip
  rflags : k.rflags = m.rflags
  mem : ∀ x ∉ D, k.mem x = m.mem x

def reads (m : Machine) : X86.Instr → Set Word
  | .pop _ | .popf | .ret => span (m.reg .rsp) 8
  | .load disp b _ => span (m.reg b + disp) 8
  | _ => ∅

def writes (m : Machine) : X86.Instr → Set Word
  | .push _ | .pushf => span (m.reg .rsp - 8) 8
  | .store _ disp b => span (m.reg b + disp) 8
  | _ => ∅

namespace Agree

variable {D D' : Set Word} {m k : Machine}

theorem mono (agree : Agree D m k) (larger : D ⊆ D') : Agree D' m k :=
  ⟨agree.reg,agree.rip,agree.rflags,fun x outside => agree.mem x fun inside => outside (larger inside)⟩

theorem load (agree : Agree D m k) (clean : Disjoint (span a 8) D) : X86.load k.mem a = X86.load m.mem a :=
  load_congr fun x near => agree.mem x (Set.disjoint_left.mp clean near)

/-- A word stored in both is the same in both. -/
theorem store (agree : Agree D m k) (a v : Word) (x : Word) (outside : x ∉ D \ span a 8) :
    X86.store k.mem a v x = X86.store m.mem a v x := by
  by_cases near : x ∈ span a 8
  · have inside : (x - a).toNat < 8 := near
    simp only [X86.store,if_pos inside]
  · have far := Nat.not_lt.mp near
    rw [store_outside far,store_outside far]
    exact agree.mem x fun inside => outside ⟨inside,near⟩

/-- An instruction that reads none of the bytes in question makes no new difference, and its own
bytes are the same afterwards. -/
theorem step (agree : Agree D m k) (i : X86.Instr) (clean : Disjoint (reads m i) D) :
    Agree (D \ writes m i) (m.step i) (k.step i) := by
  have push (v : Word) : Agree (D \ span (m.reg .rsp - 8) 8) (m.push v) (k.push v) := by
    refine ⟨?_,agree.rip,agree.rflags,fun x outside => ?_⟩
    · simp only [Machine.push,Machine.set,agree.reg]
    · simp only [Machine.push,agree.reg]
      exact agree.store _ _ x outside
  have set (r : Reg) (v : Word) : Agree (D \ ∅) (m.set r v) (k.set r v) := by
    refine ⟨?_,agree.rip,agree.rflags,fun x outside => agree.mem x fun inside => outside ⟨inside,id⟩⟩
    simp only [Machine.set,agree.reg]
  have popped (clean : Disjoint (span (m.reg .rsp) 8) D) : k.popped.1 = m.popped.1 := by
    simp only [Machine.popped,agree.reg]
    exact agree.load clean
  have rest : Agree (D \ ∅) m.popped.2 k.popped.2 := by
    simp only [Machine.popped,agree.reg]
    exact set ..
  cases i with
  | push r =>
    simp only [Machine.step,agree.reg]
    exact push _
  | pushf =>
    simp only [Machine.step,agree.rflags]
    exact push _
  | pop r =>
    simp only [Machine.step,popped clean]
    refine ⟨?_,rest.rip,rest.rflags,rest.mem⟩
    simp only [Machine.set,rest.reg]
  | popf =>
    simp only [Machine.step,popped clean]
    exact ⟨rest.reg,rest.rip,rfl,rest.mem⟩
  | ret =>
    simp only [Machine.step,popped clean]
    exact ⟨rest.reg,rfl,rest.rflags,rest.mem⟩
  | mov src dst =>
    simp only [Machine.step,agree.reg]
    exact set ..
  | movImm imm dst => exact set ..
  | load disp b dst =>
    have same : X86.load k.mem (m.reg b + disp) = X86.load m.mem (m.reg b + disp) := agree.load clean
    simp only [Machine.step,agree.reg,same]
    exact set ..
  | store src disp b =>
    refine ⟨agree.reg,agree.rip,agree.rflags,fun x outside => ?_⟩
    simp only [Machine.step,agree.reg]
    exact agree.store _ _ x outside
  | add imm dst =>
    have added := set dst (m.reg dst + imm)
    simp only [Machine.step,agree.reg,agree.rflags]
    exact ⟨added.reg,added.rip,rfl,added.mem⟩
  | cmp imm r =>
    simp only [Machine.step,agree.reg,agree.rflags]
    exact ⟨rfl,agree.rip,rfl,fun x outside => agree.mem x fun inside => outside ⟨inside,id⟩⟩

end Agree

/-- The bytes of the stack below its pointer. -/
def dead (base sp : Word) : Set Word := span base (sp - base).toNat

/-- A program picks its next instruction by what it has executed, its registers and its flags. -/
abbrev Program := List X86.Instr → (Reg → Word) → Word → X86.Instr

structure Running where
  cpu : Cpu
  past : List X86.Instr

/-- The next instruction, or an interrupt at the privilege of the program. -/
inductive Event where
  | instr
  | interrupt (p : Path) (error : Option Word) (f : Cpu → Cpu) (next target : Word) (cs : Selector)

def Event.isInstr : Event → Bool
  | .instr => true
  | .interrupt .. => false

/-- The processor aligns the stack pointer before it pushes. -/
def Cpu.arrival (c : Cpu) (cs : Selector) : Arrival := ⟨c.rsp &&& ~~~15, cs, c.seg .ss⟩

def Cpu.interrupted (c : Cpu) (p : Path) (error : Option Word) (f : Cpu → Cpu) (next target : Word)
    (cs : Selector) : Cpu := p.serve f next target (c.deliver (c.arrival cs) error)

namespace Running

variable (program : Program)

def next (r : Running) : X86.Instr := program r.past r.cpu.machine.reg r.cpu.machine.rflags

def advance (r : Running) : Running := ⟨r.cpu.step (.base (r.next program)), r.past ++ [r.next program]⟩

def event (r : Running) : Event → Running
  | .instr => r.advance program
  | .interrupt p error f next target cs => ⟨r.cpu.interrupted p error f next target cs, r.past⟩

def run (r : Running) (events : List Event) : Running := events.foldl (event program) r

end Running

/-- A handler that changes no memory but its own and the stack below its return address. -/
structure Contained (base : Word) (own : Set Word) (f : Cpu → Cpu) (e : Cpu) : Prop where
  rsp : (f e).rsp = e.rsp + 8
  seg : ∀ s ∈ dataSegs, (f e).seg s = e.seg s
  mem : ∀ x, x ∉ own → x ∉ dead base (e.rsp + 8) → (f e).machine.mem x = e.machine.mem x

section Once

variable {base : Word} {own : Set Word} {c : Cpu} {p : Path} {error : Option Word} {f : Cpu → Cpu}
  {next target : Word} {cs : Selector}

theorem aligned_close (sp : Word) : (sp - (sp &&& ~~~15)).toNat < 16 := by
  have apart : (sp &&& ~~~15) &&& (sp &&& 15) = 0 := by
    rw [BitVec.and_assoc,← BitVec.and_assoc (~~~15),BitVec.and_comm (~~~15),BitVec.and_assoc,
      BitVec.and_comm (~~~15),BitVec.and_not_self]
    simp
  have parts : (sp &&& ~~~15) + (sp &&& 15) = sp := by
    rw [BitVec.add_eq_or_of_and_eq_zero _ _ apart]
    ext i
    simp only [BitVec.getElem_or,BitVec.getElem_and,BitVec.getElem_not]
    cases (15 : Word)[i] <;> simp
  have rest : sp - (sp &&& ~~~15) = sp &&& 15 := by
    calc
      sp - (sp &&& ~~~15) = (sp &&& ~~~15) + (sp &&& 15) - (sp &&& ~~~15) := by rw [parts]
      _ = sp &&& 15 := add_sub_self _ _
  rw [rest,BitVec.toNat_and]
  exact Nat.lt_of_le_of_lt Nat.and_le_right (by decide)

theorem entry_rsp : (p.entry next target (c.deliver (c.arrival cs) error)).rsp =
    (c.rsp &&& ~~~15) - BitVec.ofNat 64 (8 * ((p.frame error c).length + 1)) := by
  rw [(p.entry_pushed c (c.arrival cs) error next target).rsp,Machine.pushAll_rsp]
  simp [Machine.set,Cpu.arrival]

/-- With room for the frame, the program goes on as it was, and all that has changed is the
handler's memory and what lies below the stack pointer. -/
theorem interrupted_resumed (matched : error.isSome = p.hasError) (room : 256 ≤ (c.rsp - base).toNat)
    (apart : Disjoint own (dead base c.rsp))
    (contained : Contained base own f (p.entry next target (c.deliver (c.arrival cs) error))) :
    let c' := c.interrupted p error f next target cs
    Resumed c c' ∧ ∀ x, x ∉ own → x ∉ dead base c.rsp → c'.machine.mem x = c.machine.mem x := by
  have short := p.frame_length error c
  have close := aligned_close c.rsp
  have place : (p.entry next target (c.deliver (c.arrival cs) error)).rsp =
      (c.rsp &&& ~~~15) - BitVec.ofNat 64 (8 * ((p.frame error c).length + 1)) := entry_rsp
  have pushed := p.entry_pushed c (c.arrival cs) error next target
  generalize entered : p.entry next target (c.deliver (c.arrival cs) error) = e at contained place pushed
  generalize (c.rsp &&& ~~~15) = top at close place
  generalize length : (p.frame error c).length = n at short place
  have returns : Returns f n e := by
    refine ⟨contained.rsp,contained.seg,fun x near => ?_⟩
    change (x - (e.rsp + 8)).toNat < 8 * n at near
    have inside : x ∈ dead base c.rsp := by
      change (x - base).toNat < (c.rsp - base).toNat
      bv_omega
    refine contained.mem x (fun mine => Set.disjoint_left.mp apart mine inside) fun below => ?_
    change (x - base).toNat < (e.rsp + 8 - base).toNat at below
    bv_omega
  have resumed := p.serve_resumed (f := f) matched (by rw [entered,length]; exact returns)
  refine ⟨resumed,fun x foreign above => ?_⟩
  have above : (c.rsp - base).toNat ≤ (x - base).toNat := Nat.not_lt.mp above
  have left : (c.interrupted p error f next target cs).machine.mem = (f e).machine.mem := by
    rw [← entered]
    exact p.left_mem _
  rw [left,contained.mem x foreign (fun below => ?_),pushed.mem]
  · refine Machine.pushAll_outside _ _ (by simp [length]; omega) ?_
    rw [← pushed.rsp,List.length_reverse,List.length_cons,length]
    bv_omega
  · change (x - base).toNat < (e.rsp + 8 - base).toNat at below
    bv_omega

end Once

structure Alike (D : Set Word) (c c' : Cpu) : Prop where
  machine : Agree D c.machine c'.machine
  seg : c'.seg = c.seg

theorem Alike.refl (D : Set Word) (c : Cpu) : Alike D c c := ⟨⟨rfl,rfl,rfl,fun _ _ => rfl⟩,rfl⟩

theorem Alike.interrupted {D : Set Word} {c c' c'' : Cpu} (alike : Alike D c c') (resumed : Resumed c' c'')
    (mem : ∀ x ∉ D, c''.machine.mem x = c'.machine.mem x) : Alike D c c'' where
  machine := ⟨(funext resumed.reg).trans alike.machine.reg,resumed.rip.trans alike.machine.rip,
    resumed.rflags.trans alike.machine.rflags,fun x outside => (mem x outside).trans (alike.machine.mem x outside)⟩
  seg := (funext resumed.seg).trans alike.seg

section Runs

variable (program : Program) (base : Word) (size : Nat) (own : Set Word)

/-- What an interrupt after the next instruction may have changed, given the same for before. -/
def settle (D : Set Word) (r : Running) : Set Word :=
  (D \ writes r.cpu.machine (r.next program)) ∪ own ∪ dead base (r.advance program).cpu.rsp

/-- What interrupts may have changed after `n` instructions. -/
def stale (D : Set Word) (r : Running) : Nat → Set Word
  | 0 => D
  | n + 1 => stale (settle program base own D r) (r.advance program) n

/-- For `n` instructions the program reads nothing that an interrupt may have changed, and its
stack pointer stays in its stack. -/
def Minds (D : Set Word) (r : Running) : Nat → Prop
  | 0 => True
  | n + 1 => Disjoint (reads r.cpu.machine (r.next program)) D ∧
      ((r.advance program).cpu.rsp - base).toNat ≤ size ∧
      Minds (settle program base own D r) (r.advance program) n

/-- Every interrupt of the run finds the code that expects it, a handler that keeps to its own
memory, and room on the stack. -/
def Allowed (r : Running) : List Event → Prop
  | [] => True
  | .instr :: events => Allowed (r.event program .instr) events
  | .interrupt p error f next target cs :: events =>
    error.isSome = p.hasError ∧
    Contained base own f (p.entry next target (r.cpu.deliver (r.cpu.arrival cs) error)) ∧
    256 ≤ (r.cpu.rsp - base).toNat ∧
    Allowed (r.event program (.interrupt p error f next target cs)) events

def Running.plainly (r : Running) : Nat → Running
  | 0 => r
  | n + 1 => (r.advance program).plainly n

variable {program base size own}

theorem dead_subset (inside : (sp - base).toNat ≤ size) : dead base sp ⊆ span base size :=
  fun _ near => Nat.lt_of_lt_of_le near inside

theorem Alike.advance {D : Set Word} {r r' : Running} (alike : Alike D r.cpu r'.cpu) (past : r'.past = r.past)
    (clean : Disjoint (reads r.cpu.machine (r.next program)) D) :
    Alike (settle program base own D r) (r.advance program).cpu (r'.advance program).cpu ∧
      (r'.advance program).past = (r.advance program).past := by
  have next : r'.next program = r.next program := by
    rw [Running.next,Running.next,past,alike.machine.reg,alike.machine.rflags]
  have machine := alike.machine.step (r.next program) clean
  rw [Running.advance,Running.advance,next,past]
  refine ⟨⟨machine.mono fun x inside => ?_,alike.seg⟩,rfl⟩
  exact .inl (.inl inside)

theorem run_alike (apart : Disjoint own (span base size)) (events : List Event) : {D : Set Word} →
    (r r' : Running) → own ⊆ D → dead base r.cpu.rsp ⊆ D → (r.cpu.rsp - base).toNat ≤ size →
    Alike D r.cpu r'.cpu → r'.past = r.past →
    Minds program base size own D r (events.countP Event.isInstr) → Allowed program base own r' events →
    Alike (stale program base own D r (events.countP Event.isInstr))
        (r.plainly program (events.countP Event.isInstr)).cpu (r'.run program events).cpu ∧
      (r'.run program events).past = (r.plainly program (events.countP Event.isInstr)).past := by
  induction events with
  | nil => exact fun _ _ _ _ _ alike past _ _ => ⟨alike,past⟩
  | cons event events ih =>
    intro D r r' mine below inside alike past minds allowed
    cases event with
    | instr =>
      rw [List.countP_cons_of_pos rfl] at minds ⊢
      obtain ⟨clean,stays,minds⟩ := minds
      obtain ⟨alike,past⟩ := alike.advance past clean
      exact ih _ _ (fun x own => .inl (.inr own)) (fun x near => .inr near) stays alike past minds allowed
    | interrupt p error f next target cs =>
      rw [List.countP_cons_of_neg Bool.false_ne_true] at minds ⊢
      obtain ⟨matched,contained,room,allowed⟩ := allowed
      have sp : r'.cpu.rsp = r.cpu.rsp := congrFun alike.machine.reg .rsp
      have separate : Disjoint own (dead base r'.cpu.rsp) := by
        rw [sp]
        exact apart.mono_right (dead_subset inside)
      obtain ⟨resumed,mem⟩ := interrupted_resumed matched room separate contained
      refine ih r _ mine below inside (alike.interrupted resumed fun x outside => ?_) past minds allowed
      refine mem x (fun own => outside (mine own)) fun near => outside (below ?_)
      rwa [← sp]

theorem settle_subset {D : Set Word} {r : Running} (within : D ⊆ own ∪ span base size)
    (stays : ((r.advance program).cpu.rsp - base).toNat ≤ size) :
    settle program base own D r ⊆ own ∪ span base size := by
  rintro x ((before | mine) | below)
  · exact within before.1
  · exact .inl mine
  · exact .inr (dead_subset stays below)

theorem stale_subset {D : Set Word} {r : Running} {n : Nat} (minds : Minds program base size own D r n)
    (within : D ⊆ own ∪ span base size) : stale program base own D r n ⊆ own ∪ span base size := by
  induction n generalizing D r with
  | zero => exact within
  | succ n ih => exact ih minds.2.2 (settle_subset within minds.2.1)

/-- Wherever its interrupts come, a program executes the instructions it would have executed
without them, and ends with the same registers, flags, segments and memory, but for the
handlers' memory and the bytes of the stack that it has left below its stack pointer. -/
theorem interrupts_unnoticed (c : Cpu) (events : List Event) (apart : Disjoint own (span base size))
    (inside : (c.rsp - base).toNat ≤ size)
    (minds : Minds program base size own (own ∪ dead base c.rsp) ⟨c, []⟩ (events.countP Event.isInstr))
    (allowed : Allowed program base own ⟨c, []⟩ events) :
    let real := (Running.mk c []).run program events
    let plain := (Running.mk c []).plainly program (events.countP Event.isInstr)
    let changed := stale program base own (own ∪ dead base c.rsp) ⟨c, []⟩ (events.countP Event.isInstr)
    real.past = plain.past ∧ Alike changed plain.cpu real.cpu ∧ changed ⊆ own ∪ span base size := by
  obtain ⟨alike,past⟩ := run_alike apart events ⟨c, []⟩ ⟨c, []⟩ Set.subset_union_left
    Set.subset_union_right inside (Alike.refl _ c) rfl minds allowed
  exact ⟨past,alike,stale_subset minds (Set.union_subset_union_right own (dead_subset inside))⟩

/-- A handler that keeps to the memory of `mine` is interrupted by handlers that keep to that of
`own`. It may read and write what is its own, and together they keep to the memory of both. -/
theorem interrupted_contained (mine : Set Word) (e : Cpu) (events : List Event)
    (apart : Disjoint own (dead base (e.rsp + 8))) (room : 8 ≤ (e.rsp + 8 - base).toNat)
    (contained : Contained base mine
      (fun e => ((Running.mk e []).plainly program (events.countP Event.isInstr)).cpu) e)
    (minds : Minds program base (e.rsp + 8 - base).toNat own (own ∪ dead base e.rsp) ⟨e, []⟩
      (events.countP Event.isInstr))
    (allowed : Allowed program base own ⟨e, []⟩ events) :
    Contained base (mine ∪ own) (fun e => ((Running.mk e []).run program events).cpu) e := by
  have inside : (e.rsp - base).toNat ≤ (e.rsp + 8 - base).toNat := by bv_omega
  obtain ⟨alike,_⟩ := run_alike apart events ⟨e, []⟩ ⟨e, []⟩ Set.subset_union_left
    Set.subset_union_right inside (Alike.refl _ e) rfl minds allowed
  have kept := stale_subset minds (Set.union_subset_union_right own (dead_subset inside))
  refine ⟨?_,fun s data => ?_,fun x foreign above => ?_⟩
  · exact (congrFun alike.machine.reg .rsp).trans contained.rsp
  · exact (congrFun alike.seg s).trans (contained.seg s data)
  · obtain ⟨notMine,notOwn⟩ := not_or.mp foreign
    refine (alike.machine.mem x fun changed => ?_).trans (contained.mem x notMine above)
    exact (kept changed).elim notOwn above

end Runs

def tick (c : Cpu) : Cpu :=
  { c with machine := { c.machine with mem := store c.machine.mem 0x100000 1 }.step .ret }

theorem tick_contained (base : Word) (e : Cpu) : Contained base (span 0x100000 8) tick e where
  rsp := by simp [tick,Cpu.rsp,Machine.step,Machine.popped,Machine.set]
  seg _ _ := rfl
  mem _ foreign _ := store_outside (Nat.not_lt.mp foreign)

/-- `pushq %rbx; popq %rbx; ret`. -/
def pushPop : Program := fun past _ _ => ([.push .rbx, .pop .rbx] : List X86.Instr).getD past.length .ret

def tickAfterPush : List Event :=
  [.instr, .interrupt (irqPath 0) none tick 0 0 8, .instr, .instr]

def atPush : Cpu := { plain 1 with machine := (plain 1).machine.set .rsp 0x8000 }

theorem pushPop_minds (size : Nat) (large : 0x4008 ≤ size) :
    Minds pushPop 0x4000 size (span 0x100000 8) (span 0x100000 8 ∪ dead 0x4000 0x8000) ⟨atPush, []⟩ 3 := by
  have stays (sp : Word) (inside : (sp - 0x4000).toNat ≤ 0x4008) : (sp - 0x4000).toNat ≤ size :=
    Nat.le_trans inside large
  refine ⟨Set.empty_disjoint _,stays 0x7ff8 (by decide),?_,stays 0x8000 (by decide),?_,stays 0x8008 (by decide),trivial⟩
  · refine Set.disjoint_left.mpr fun x near changed => ?_
    change x ∈ span 0x7ff8 8 at near
    rcases changed with (before | mine) | below
    · exact before.2 near
    · exact Set.disjoint_left.mp (span_disjoint (by decide) (by decide)) near mine
    · exact Set.disjoint_left.mp (span_disjoint (by decide) (by decide)) below near
  · have within : dead 0x4000 0x8000 ⊆ span 0x4000 0x4000 := dead_subset (by decide)
    have first : settle pushPop 0x4000 (span 0x100000 8) (span 0x100000 8 ∪ dead 0x4000 0x8000) ⟨atPush, []⟩ ⊆
        span 0x100000 8 ∪ span 0x4000 0x4000 :=
      settle_subset (Set.union_subset_union_right _ within) (by decide)
    have stays : (((Running.mk atPush []).advance pushPop |>.advance pushPop).cpu.rsp - 0x4000).toNat ≤ 0x4000 := by
      decide
    refine Disjoint.mono_right (settle_subset first stays) (Set.disjoint_union_right.mpr ⟨?_,?_⟩)
    · exact span_disjoint (by decide) (by decide)
    · exact span_disjoint (by decide) (by decide)

theorem tickAfterPush_allowed : Allowed pushPop 0x4000 (span 0x100000 8) ⟨atPush, []⟩ tickAfterPush :=
  ⟨rfl,tick_contained _ _,by decide,trivial⟩

theorem interrupts_unnoticed_pushPop :
    let real := (Running.mk atPush []).run pushPop tickAfterPush
    let plain := (Running.mk atPush []).plainly pushPop 3
    let changed := stale pushPop 0x4000 (span 0x100000 8) (span 0x100000 8 ∪ dead 0x4000 0x8000) ⟨atPush, []⟩ 3
    real.past = plain.past ∧ Alike changed plain.cpu real.cpu ∧ changed ⊆ span 0x100000 8 ∪ span 0x4000 0x8000 :=
  interrupts_unnoticed atPush tickAfterPush (span_disjoint (by decide) (by decide)) (by decide)
    (pushPop_minds 0x8000 (by decide)) tickAfterPush_allowed

/-- A handler that counts in a word at 0x200000; `rbx` is zero. -/
def countUp : Program := fun past _ _ =>
  ([.load 0x200000 .rbx .rcx, .add 1 .rcx, .store .rcx 0x200000 .rbx] : List X86.Instr).getD past.length .ret

def tickAfterLoad : List Event :=
  [.instr, .interrupt (irqPath 0) none tick 0 0 8, .instr, .instr, .instr]

theorem countUp_minds :
    Minds countUp 0x4000 0x4008 (span 0x100000 8) (span 0x100000 8 ∪ dead 0x4000 0x8000) ⟨atPush, []⟩ 4 := by
  have start : span 0x100000 8 ∪ dead 0x4000 0x8000 ⊆ span 0x100000 8 ∪ span 0x4000 0x4000 :=
    Set.union_subset_union_right _ (dead_subset (by decide))
  have apart (a : Word) (first : Disjoint (span a 8) (span 0x100000 8))
      (second : Disjoint (span a 8) (span 0x4000 0x4000)) {D : Set Word}
      (within : D ⊆ span 0x100000 8 ∪ span 0x4000 0x4000) : Disjoint (span a 8) D :=
    Disjoint.mono_right within (Set.disjoint_union_right.mpr ⟨first,second⟩)
  refine ⟨?_,by decide,Set.empty_disjoint _,by decide,Set.empty_disjoint _,by decide,?_,by decide,trivial⟩
  · exact apart 0x200000 (span_disjoint (by decide) (by decide)) (span_disjoint (by decide) (by decide)) start
  · refine apart 0x8000 (span_disjoint (by decide) (by decide)) (span_disjoint (by decide) (by decide)) ?_
    exact settle_subset (settle_subset (settle_subset start (by decide)) (by decide)) (by decide)

/-- The handler reads and writes its own word, and another one comes in between. -/
theorem interrupted_contained_countUp : Contained 0x4000 (span 0x200000 8 ∪ span 0x100000 8)
    (fun e => ((Running.mk e []).run countUp tickAfterLoad).cpu) atPush := by
  refine interrupted_contained (span 0x200000 8) atPush tickAfterLoad (span_disjoint (by decide) (by decide))
    (by decide) ⟨by decide,fun _ _ => rfl,fun x foreign _ => ?_⟩ countUp_minds
    ⟨rfl,tick_contained _ _,by decide,trivial⟩
  exact store_outside (Nat.not_lt.mp foreign)

end Kernal.Interrupt
