import Kernal.Linearize
import Kernal.X86
import Mathlib.Data.BitVec

/-! `atomic_cmpxchg`, `atomic_add` and `atomic_sub`, instruction by instruction. Each has one
locked instruction, which is where a call takes effect for everybody. -/
namespace Kernal.Atomics

open Interleaving Linearize X86

abbrev Int32 := BitVec 32

/-- The four bytes from `a` on, the lowest one first. -/
def load32 (mem : Mem) (a : Word) : Int32 := mem (a + 3) ++ mem (a + 2) ++ mem (a + 1) ++ mem a

def store32 (mem : Mem) (a : Word) (v : Int32) : Mem :=
  fun x => if (x - a).toNat < 4 then v.extractLsb' (8 * (x - a).toNat) 8 else mem x

inductive Reg32 where
  | eax | edx | esi
  deriving DecidableEq, Repr

/-- The memory operand of each locked instruction is `(%rdi)`. -/
inductive Instr32 where
  | movl (src dst : Reg32)
  | negl (r : Reg32)
  | addl (src dst : Reg32)
  | lockCmpxchgl (src : Reg32)
  | lockXaddl (r : Reg32)
  deriving DecidableEq, Repr

structure Frame where
  rdi : Word
  reg : Reg32 → Int32

namespace Frame

def set (f : Frame) (r : Reg32) (v : Int32) : Frame := { f with reg := Function.update f.reg r v }

@[simp] theorem set_rdi (f : Frame) (r : Reg32) (v : Int32) : (f.set r v).rdi = f.rdi := rfl

theorem set_reg (f : Frame) (r r' : Reg32) (v : Int32) : (f.set r v).reg r' = if r' = r then v else f.reg r' :=
  Function.update_apply ..

end Frame

/-- `cmpxchg` writes its operand back where it differs from `eax`. -/
def denote : Instr32 → Effect Mem Frame
  | .movl src dst => .own fun f => f.set dst (f.reg src)
  | .negl r => .own fun f => f.set r (-f.reg r)
  | .addl src dst => .own fun f => f.set dst (f.reg dst + f.reg src)
  | .lockCmpxchgl src => .touch fun mem f =>
    let now := load32 mem f.rdi
    if f.reg .eax = now then (store32 mem f.rdi (f.reg src), f)
    else (store32 mem f.rdi now, f.set .eax now)
  | .lockXaddl r => .touch fun mem f =>
    let now := load32 mem f.rdi
    (store32 mem f.rdi (now + f.reg r), f.set r now)

inductive Call where
  | cmpxchg (ptr : Word) (old new : Int32)
  | add (ptr : Word) (val : Int32)
  | sub (ptr : Word) (val : Int32)
  deriving DecidableEq, Repr

def atomicCmpxchg : List Instr32 := [.movl .esi .eax, .lockCmpxchgl .edx]
def atomicAdd : List Instr32 := [.movl .esi .eax, .lockXaddl .eax, .addl .esi .eax]
def atomicSub : List Instr32 := [.negl .esi, .movl .esi .eax, .lockXaddl .eax, .addl .esi .eax]

/-- Arguments come in `rdi`, `esi` and `edx`, and the result is in `eax`. -/
def routines : Routines Call Instr32 Mem Frame Int32 where
  denote := denote
  code
    | .cmpxchg .. => atomicCmpxchg
    | .add .. => atomicAdd
    | .sub .. => atomicSub
  enter
    | .cmpxchg ptr old new, f => { (f.set .esi old).set .edx new with rdi := ptr }
    | .add ptr val, f => { f.set .esi val with rdi := ptr }
    | .sub ptr val, f => { f.set .esi val with rdi := ptr }
  result f := f.reg .eax

/-- What a call does that nobody can get in the way of. -/
def apply : Call → Mem → Mem × Int32
  | .cmpxchg ptr old new, mem =>
    let now := load32 mem ptr
    (if now = old then store32 mem ptr new else mem, now)
  | .add ptr val, mem => (store32 mem ptr (load32 mem ptr + val), load32 mem ptr + val)
  | .sub ptr val, mem => (store32 mem ptr (load32 mem ptr - val), load32 mem ptr - val)

section Words

theorem store32_outside {mem : Mem} {a x : Word} (v : Int32) (outside : 4 ≤ (x - a).toNat) :
    store32 mem a v x = mem x := if_neg (Nat.not_lt.mpr outside)

/-- A word is its bytes put together. -/
theorem bytes32_append (v : Int32) :
    v.extractLsb' 24 8 ++ v.extractLsb' 16 8 ++ v.extractLsb' 8 8 ++ v.extractLsb' 0 8 = v := by
  refine BitVec.eq_of_getLsbD_eq fun i small => ?_
  simp only [BitVec.getLsbD_append,BitVec.getLsbD_extractLsb']
  repeat' split
  all_goals
    rw [decide_eq_true (by omega),Bool.true_and]
    congr 1
    omega

theorem load32_store32 (mem : Mem) (a : Word) (v : Int32) : load32 (store32 mem a v) a = v := by
  have byte (i : Word) (small : i.toNat < 4) : store32 mem a v (a + i) = v.extractLsb' (8 * i.toNat) 8 := by
    simp only [store32,X86.add_sub_self,if_pos small]
  have first : store32 mem a v a = v.extractLsb' 0 8 := by simpa using byte 0 (by decide)
  simp only [load32,first,byte 1 (by decide),byte 2 (by decide),byte 3 (by decide)]
  exact bytes32_append v

theorem load32_store32_disjoint {mem : Mem} {a b : Word} (v : Int32) (disjoint : Disjoint (span a 4) (span b 4)) :
    load32 (store32 mem a v) b = load32 mem b := by
  have byte (i : Word) (small : i.toNat < 4) : store32 mem a v (b + i) = mem (b + i) := by
    refine store32_outside v (Nat.not_lt.mp fun inside => ?_)
    have member : b + i ∈ span b 4 := by
      change (b + i - b).toNat < 4
      rw [X86.add_sub_self]
      exact small
    exact Set.disjoint_left.mp disjoint inside member
  have first : store32 mem a v b = mem b := by simpa using byte 0 (by decide)
  simp only [load32,first,byte 1 (by decide),byte 2 (by decide),byte 3 (by decide)]

theorem extract_low (v : BitVec n) (w : BitVec 8) : (v ++ w).extractLsb' 0 8 = w := by
  apply BitVec.eq_of_getLsbD_eq
  intro j small
  simp only [BitVec.getLsbD_extractLsb',BitVec.getLsbD_append,small,decide_true,Bool.true_and,Nat.zero_add,if_true]

theorem extract_above (v : BitVec n) (w : BitVec 8) (k : Nat) :
    (v ++ w).extractLsb' (k + 8) 8 = v.extractLsb' k 8 := by
  apply BitVec.eq_of_getLsbD_eq
  intro j small
  have above : ¬k + 8 + j < 8 := by omega
  have place : k + 8 + j - 8 = k + j := by omega
  simp only [BitVec.getLsbD_extractLsb',BitVec.getLsbD_append,small,decide_true,Bool.true_and,above,if_false,place]

/-- Writing back what is there changes nothing. -/
theorem store32_load32 (mem : Mem) (a : Word) : store32 mem a (load32 mem a) = mem := by
  funext x
  unfold store32
  split
  next inside =>
    have place : x = a + (x - a) := (add_sub_cancel a x).symm
    generalize x - a = i at inside place
    subst place
    have cases : i = 0 ∨ i = 1 ∨ i = 2 ∨ i = 3 := by bv_omega
    rcases cases with rfl | rfl | rfl | rfl
    · exact (extract_low _ _).trans (congrArg mem (add_zero a).symm)
    · exact (extract_above _ _ 0).trans (extract_low _ _)
    · exact (extract_above _ _ 8).trans ((extract_above _ _ 0).trans (extract_low _ _))
    · refine (extract_above _ _ 16).trans ((extract_above _ _ 8).trans ((extract_above _ _ 0).trans ?_))
      exact BitVec.extractLsb'_eq_self
  next => rfl

end Words

theorem cmpxchg_alone (ptr : Word) (old new : Int32) (frame : Frame) (mem : Mem) :
    apply (.cmpxchg ptr old new) mem =
      ((routines.run atomicCmpxchg (mem, routines.enter (.cmpxchg ptr old new) frame)).1,
        routines.result (routines.run atomicCmpxchg (mem, routines.enter (.cmpxchg ptr old new) frame)).2) := by
  simp only [Routines.run,Routines.step,routines,atomicCmpxchg,List.foldl_cons,List.foldl_nil,denote,
    Frame.set_rdi,Frame.set_reg,reduceCtorEq,if_true,if_false,apply]
  by_cases same : old = load32 mem ptr
  · rw [if_pos same,if_pos same.symm]
    simp only [Frame.set_reg,reduceCtorEq,if_true,if_false,same]
  · rw [if_neg same,if_neg (Ne.symm same)]
    simp only [Frame.set_reg,if_true,store32_load32]

theorem add_alone (ptr : Word) (val : Int32) (frame : Frame) (mem : Mem) :
    apply (.add ptr val) mem = ((routines.run atomicAdd (mem, routines.enter (.add ptr val) frame)).1,
      routines.result (routines.run atomicAdd (mem, routines.enter (.add ptr val) frame)).2) := by
  simp only [Routines.run,Routines.step,routines,atomicAdd,List.foldl_cons,List.foldl_nil,denote,
    Frame.set_rdi,Frame.set_reg,reduceCtorEq,if_true,if_false,apply]

/-- The exchange adds the negated operand. -/
theorem sub_alone (ptr : Word) (val : Int32) (frame : Frame) (mem : Mem) :
    apply (.sub ptr val) mem = ((routines.run atomicSub (mem, routines.enter (.sub ptr val) frame)).1,
      routines.result (routines.run atomicSub (mem, routines.enter (.sub ptr val) frame)).2) := by
  simp only [Routines.run,Routines.step,routines,atomicSub,List.foldl_cons,List.foldl_nil,denote,
    Frame.set_rdi,Frame.set_reg,reduceCtorEq,if_true,if_false,apply,sub_eq_add_neg]

/-- Each routine has one locked instruction, and alone it does what its call says. -/
theorem routines_atomic : Atomic routines apply where
  once call := by cases call <;> rfl
  correct call frame mem := by
    cases call with
    | cmpxchg ptr old new => exact cmpxchg_alone ptr old new frame mem
    | add ptr val => exact add_alone ptr val frame mem
    | sub ptr val => exact sub_alone ptr val frame mem

section Calls

variable {Agent : Type} [DecidableEq Agent]

def idle (mem : Mem) : State Agent Mem (Place Call Instr32 Frame Int32) := ⟨mem, fun _ => ⟨[], none⟩⟩

omit [DecidableEq Agent] in
theorem idle_sound (mem : Mem) (a : Agent) : Linearize.Sound routines apply ((idle mem).pc a) :=
  fun _ _ _ none => nomatch none

/-- In every interleaving of the instructions of any number of callers, each call of one of the
three routines acts at one point between its begin and its return: replayed one after another in
the order of these points, the calls lead to the same memory, and each caller gets the results it
gets there. -/
theorem calls_sequential (schedule : List (Agent × Call × Frame)) (mem : Mem) :
    let t := interleave routines.access schedule (idle mem)
    let h := routines.history schedule (idle mem)
    Replays apply mem h t.shared ∧ (∀ a, routines.shown (t.pc a) = mine a h) ∧
      ∀ front, front <+: schedule → routines.history front (idle mem) <+: h := by
  obtain ⟨replays,own⟩ := interleaved_sequential routines_atomic schedule (idle mem) (idle_sound mem)
  refine ⟨replays,own,?_⟩
  rintro front ⟨back,rfl⟩
  rw [Routines.history_append]
  exact List.prefix_append _ _

theorem idle_calls (P : Call → Prop) (schedule : List (Agent × Call × Frame)) (mem : Mem)
    (all : ∀ chosen ∈ schedule, P chosen.2.1) : ∀ e ∈ routines.history schedule (idle mem), P e.2.1 :=
  history_calls P schedule all (idle mem) fun _ _ _ _ none => nomatch none

/-- What a call adds to the word at `p`. -/
def delta (p : Word) : Call → Int32
  | .add q val => if q = p then val else 0
  | .sub q val => if q = p then -val else 0
  | .cmpxchg .. => 0

def Counts (p : Word) : Call → Prop
  | .add q _ | .sub q _ => q = p ∨ Disjoint (span q 4) (span p 4)
  | .cmpxchg q _ _ => Disjoint (span q 4) (span p 4)

theorem ne_of_disjoint {p q : Word} (disjoint : Disjoint (span q 4) (span p 4)) : q ≠ p := by
  rintro rfl
  have here : q ∈ span q 4 := by
    change (q - q).toNat < 4
    rw [BitVec.sub_self]
    decide
  exact Set.disjoint_left.mp disjoint here here

theorem apply_counts {p : Word} {call : Call} (counts : Counts p call) (mem : Mem) :
    load32 (apply call mem).1 p = load32 mem p + delta p call := by
  cases call with
  | cmpxchg q old new =>
    refine Eq.trans ?_ (add_zero _).symm
    dsimp only [apply]
    split
    · exact load32_store32_disjoint new counts
    · rfl
  | add q val =>
    rcases counts with rfl | apart
    · simp only [apply,delta,if_true,load32_store32]
    · simp only [apply,delta,if_neg (ne_of_disjoint apart),load32_store32_disjoint _ apart,add_zero]
  | sub q val =>
    rcases counts with rfl | apart
    · simp only [apply,delta,if_true,load32_store32,sub_eq_add_neg]
    · simp only [apply,delta,if_neg (ne_of_disjoint apart),load32_store32_disjoint _ apart,add_zero]

omit [DecidableEq Agent] in
theorem replays_counts {p : Word} {mem mem' : Mem} {h : List (Agent × Call × Int32)}
    (replays : Replays apply mem h mem') (counts : ∀ e ∈ h, Counts p e.2.1) :
    load32 mem' p = load32 mem p + ((h.map Prod.snd).map fun c => delta p c.1).sum := by
  induction h generalizing mem with
  | nil =>
    obtain rfl : mem' = mem := replays
    exact (add_zero _).symm
  | cons e h ih =>
    have first := apply_counts (counts e List.mem_cons_self) mem
    rw [ih replays.2 fun c later => counts c (List.mem_cons_of_mem e later),first,List.map_cons,List.map_cons,
      List.sum_cons,add_assoc]

/-- No update is lost: while everybody adds to a word or subtracts from it, it has what it had
before and all that the callers have added to it. -/
theorem counter_exact [Fintype Agent] (p : Word) (schedule : List (Agent × Call × Frame))
    (counts : ∀ chosen ∈ schedule, Counts p chosen.2.1) (mem : Mem) :
    let t := interleave routines.access schedule (idle mem)
    load32 t.shared p = load32 mem p + ∑ a, ((routines.shown (t.pc a)).map fun c => delta p c.1).sum := by
  obtain ⟨replays,own⟩ := interleaved_sequential routines_atomic schedule (idle mem) (idle_sound mem)
  have total := sum_mine (fun l : List (Call × Int32) => (l.map fun c => delta p c.1).sum) (fun c => delta p c.1) rfl
    (fun c l => rfl) (routines.history schedule (idle mem))
  have sum := replays_counts replays (idle_calls (Counts p) schedule mem counts)
  rw [← total] at sum
  refine sum.trans (congrArg (load32 mem p + ·) (Finset.sum_congr rfl fun a _ => ?_))
  rw [own a]
  rfl

def inTurn (call : Bool → Call) (n : Nat) : List (Bool × Call × Frame) :=
  (List.range n).map fun i => (i % 2 == 0, call (i % 2 == 0), ⟨0, fun _ => 0⟩)

theorem inTurn_calls {P : Call → Prop} {call : Bool → Call} (all : ∀ a, P (call a)) (n : Nat) :
    ∀ chosen ∈ inTurn call n, P chosen.2.1 := by
  intro chosen member
  obtain ⟨i,_,rfl⟩ := List.mem_map.mp member
  exact all _

theorem counter_exact_pair :
    let t := interleave routines.access (inTurn (fun a => if a then .add 64 3 else .sub 64 1) 9) (idle fun _ => 0)
    load32 t.shared 64 = load32 (fun _ => 0) 64 +
      ∑ a, ((routines.shown (t.pc a)).map fun c => delta 64 c.1).sum :=
  counter_exact 64 _ (inTurn_calls (fun a => by cases a <;> exact .inl rfl) 9) _

def Exchanges (p : Word) (old : Int32) (call : Call) : Prop := ∃ new, new ≠ old ∧ call = .cmpxchg p old new

def won (old : Int32) (c : Call × Int32) : Bool := c.2 = old

section Winner

variable {p : Word} {old : Int32} {mem mem' : Mem} {h : List (Agent × Call × Int32)}

omit [DecidableEq Agent] in
/-- Once the word is something else, no exchange takes place. -/
theorem replays_late (replays : Replays apply mem h mem') (calls : ∀ e ∈ h, Exchanges p old e.2.1)
    (late : load32 mem p ≠ old) : (h.map Prod.snd).countP (won old) = 0 := by
  induction h generalizing mem with
  | nil => rfl
  | cons e h ih =>
    obtain ⟨agent,call,r⟩ := e
    obtain ⟨new,_,eq⟩ := calls _ List.mem_cons_self
    obtain rfl : call = .cmpxchg p old new := eq
    obtain ⟨result,rest⟩ := replays
    simp only [apply,if_neg late] at result rest
    have fails : ¬won old (Call.cmpxchg p old new,r) = true := fun same =>
      late (result.trans (of_decide_eq_true same))
    rw [List.map_cons,List.countP_cons_of_neg fails]
    exact ih rest (fun c later => calls c (List.mem_cons_of_mem _ later)) late

omit [DecidableEq Agent] in
theorem replays_winner (replays : Replays apply mem h mem') (calls : ∀ e ∈ h, Exchanges p old e.2.1)
    (free : load32 mem p = old) : (h.map Prod.snd).countP (won old) = min 1 (h.map Prod.snd).length := by
  cases h with
  | nil => rfl
  | cons e h =>
    obtain ⟨agent,call,r⟩ := e
    obtain ⟨new,other,eq⟩ := calls _ List.mem_cons_self
    obtain rfl : call = .cmpxchg p old new := eq
    obtain ⟨result,rest⟩ := replays
    simp only [apply,if_pos free] at result rest
    have late : load32 (store32 mem p new) p ≠ old := by
      rw [load32_store32]
      exact other
    have wins : won old (Call.cmpxchg p old new,r) = true := decide_eq_true (result.symm.trans free)
    rw [List.map_cons,List.countP_cons_of_pos wins,
      replays_late rest (fun c later => calls c (List.mem_cons_of_mem _ later)) late,List.length_cons]
    exact (Nat.min_eq_left (Nat.succ_le_succ (Nat.zero_le _))).symm

end Winner

/-- Among callers that exchange one value of a word for others, the first one succeeds and nobody
else does. -/
theorem one_winner [Fintype Agent] (p : Word) (old : Int32) (schedule : List (Agent × Call × Frame))
    (calls : ∀ chosen ∈ schedule, Exchanges p old chosen.2.1) (mem : Mem) (free : load32 mem p = old) :
    let t := interleave routines.access schedule (idle mem)
    ∑ a, (routines.shown (t.pc a)).countP (won old) = min 1 (∑ a, (routines.shown (t.pc a)).length) := by
  obtain ⟨replays,own⟩ := interleaved_sequential routines_atomic schedule (idle mem) (idle_sound mem)
  have winner := replays_winner replays (idle_calls (Exchanges p old) schedule mem calls) free
  have wins := sum_mine (List.countP (won old)) (fun c => if won old c then 1 else 0) rfl
    (fun c l => List.countP_cons.trans (add_comm ..)) (routines.history schedule (idle mem))
  have all := sum_mine List.length (fun _ => 1) rfl (fun c l => List.length_cons.trans (add_comm ..))
    (routines.history schedule (idle mem))
  rw [← wins,← all] at winner
  have shown (a : Agent) : routines.shown ((interleave routines.access schedule (idle mem)).pc a) =
      mine a (routines.history schedule (idle mem)) := own a
  simp only [shown]
  exact winner

theorem one_winner_pair :
    let t := interleave routines.access (inTurn (fun a => .cmpxchg 64 0 (if a then 1 else 2)) 9) (idle fun _ => 0)
    ∑ a, (routines.shown (t.pc a)).countP (won 0) = min 1 (∑ a, (routines.shown (t.pc a)).length) :=
  one_winner 64 0 _ (inTurn_calls (fun a => ⟨_,by cases a <;> decide,rfl⟩) 9) _ (by decide)

end Calls

end Kernal.Atomics
