import Kernal.Interleaving
import Mathlib.Algebra.BigOperators.Group.Finset.Piecewise

/-! Routines that touch the shared store once. However the instructions of their callers are
interleaved, a call acts as if the whole of it ran at that access: the accesses in their order
are a sequential history, and every caller finds its own calls there with the results it got. -/
namespace Kernal.Linearize

open Interleaving

/-- An instruction works on the caller's own frame, or on the store and the frame. -/
inductive Effect (Shared Frame : Type) where
  | own (f : Frame → Frame)
  | touch (f : Shared → Frame → Shared × Frame)

/-- Straight-line routines: the arguments are put into the frame the caller has, and the
result is read from the one that is left. -/
structure Routines (Op Instr Shared Frame Result : Type) where
  denote : Instr → Effect Shared Frame
  code : Op → List Instr
  enter : Op → Frame → Frame
  result : Frame → Result

/-- The calls of an agent that have returned, and the one that is under way. -/
structure Place (Op Instr Frame Result : Type) where
  past : List (Op × Result)
  call : Option (Op × List Instr × Frame)

section

variable {Agent Op Instr Shared Frame Result : Type} [DecidableEq Agent]

namespace Routines

variable (R : Routines Op Instr Shared Frame Result)

def touches (i : Instr) : Bool := match R.denote i with
  | .own _ => false
  | .touch _ => true

def step (i : Instr) (now : Shared × Frame) : Shared × Frame := match R.denote i with
  | .own f => (now.1, f now.2)
  | .touch f => f now.1 now.2

def run (code : List Instr) (now : Shared × Frame) : Shared × Frame := code.foldl (fun now i => R.step i now) now

/-- What instructions that touch no store make of a frame. -/
def settle (code : List Instr) (frame : Frame) : Frame :=
  code.foldl (fun frame i => match R.denote i with
    | .own f => f frame
    | .touch _ => frame) frame

/-- One instruction of the call that is under way, its return, or the next call. -/
def access : Access Agent (Op × Frame) Shared (Place Op Instr Frame Result) := fun _ input shared place =>
  match place.call with
  | none => (shared, ⟨place.past, some (input.1, R.code input.1, R.enter input.1 input.2)⟩)
  | some (op, [], frame) => (shared, ⟨place.past ++ [(op, R.result frame)], none⟩)
  | some (op, i :: code, frame) =>
    let now := R.step i (shared, frame)
    (now.1, ⟨place.past, some (op, code, now.2)⟩)

/-- The calls of an agent that have taken effect, with the results they return. -/
def shown (place : Place Op Instr Frame Result) : List (Op × Result) :=
  place.past ++ match place.call with
    | none => []
    | some (op, code, frame) => if code.any R.touches then [] else [(op, R.result (R.settle code frame))]

/-- The call that takes effect with the next access of an agent, and its result. -/
def effect (s : State Agent Shared (Place Op Instr Frame Result)) (agent : Agent) : List (Agent × Op × Result) :=
  match (s.pc agent).call with
  | some (op, i :: code, frame) => match R.denote i with
    | .own _ => []
    | .touch f => [(agent, op, R.result (R.settle code (f s.shared frame).2))]
  | _ => []

/-- The calls in the order in which they take effect. -/
def history : List (Agent × Op × Frame) → State Agent Shared (Place Op Instr Frame Result) →
    List (Agent × Op × Result)
  | [], _ => []
  | chosen :: schedule, s => R.effect s chosen.1 ++ history schedule (dispatch R.access s chosen)

theorem history_append (first second : List (Agent × Op × Frame))
    (s : State Agent Shared (Place Op Instr Frame Result)) :
    R.history (first ++ second) s = R.history first s ++ R.history second (interleave R.access first s) := by
  induction first generalizing s with
  | nil => rfl
  | cons chosen first ih =>
    rw [List.cons_append,history,ih,history,List.append_assoc]
    rfl

end Routines

/-- Sequential runs of whole calls. -/
def Replays (apply : Op → Shared → Shared × Result) (s : Shared) : List (Agent × Op × Result) → Shared → Prop
  | [], s' => s' = s
  | (_, op, r) :: rest, s' => (apply op s).2 = r ∧ Replays apply (apply op s).1 rest s'

omit [DecidableEq Agent] in
theorem Replays.append {apply : Op → Shared → Shared × Result} {s s' s'' : Shared}
    {first second : List (Agent × Op × Result)} (begins : Replays apply s first s')
    (ends : Replays apply s' second s'') : Replays apply s (first ++ second) s'' := by
  induction first generalizing s with
  | nil =>
    obtain rfl : s' = s := begins
    exact ends
  | cons e first ih => exact ⟨begins.1,ih begins.2⟩

def mine (a : Agent) (h : List (Agent × Op × Result)) : List (Op × Result) :=
  h.filterMap fun e => if e.1 = a then some e.2 else none

theorem mine_append (a : Agent) (first second : List (Agent × Op × Result)) :
    mine a (first ++ second) = mine a first ++ mine a second := List.filterMap_append

/-- What adds up over calls adds up over agents. -/
theorem sum_mine [Fintype Agent] {M : Type} [AddCommMonoid M] (f : List (Op × Result) → M) (g : Op × Result → M)
    (nil : f [] = 0) (cons : ∀ c l, f (c :: l) = g c + f l) (h : List (Agent × Op × Result)) :
    ∑ a, f (mine a h) = f (h.map Prod.snd) := by
  induction h with
  | nil => exact (Finset.sum_eq_zero fun a _ => nil).trans nil.symm
  | cons e h ih =>
    have split (a : Agent) : f (mine a (e :: h)) = (if e.1 = a then g e.2 else 0) + f (mine a h) := by
      by_cases own : e.1 = a
      · have first : mine a (e :: h) = e.2 :: mine a h := List.filterMap_cons_some (if_pos own)
        rw [first,cons,if_pos own]
      · have skips : mine a (e :: h) = mine a h := List.filterMap_cons_none (if_neg own)
        rw [skips,if_neg own,zero_add]
    rw [Finset.sum_congr rfl fun a _ => split a,Finset.sum_add_distrib,Finset.sum_ite_eq,if_pos (Finset.mem_univ _),ih]
    exact (cons _ _).symm

variable (R : Routines Op Instr Shared Frame Result) (apply : Op → Shared → Shared × Result)

/-- Each routine touches the store once, and alone it does what `apply` says. -/
structure Atomic : Prop where
  once : ∀ op, (R.code op).countP R.touches = 1
  correct : ∀ op frame s, (apply op s) =
    ((R.run (R.code op) (s, R.enter op frame)).1, R.result (R.run (R.code op) (s, R.enter op frame)).2)

/-- A call that is under way has still to touch the store, and will do then what `apply` says,
or touches it no more. -/
def Sound (place : Place Op Instr Frame Result) : Prop := ∀ op code frame, place.call = some (op, code, frame) →
  (code.countP R.touches = 1 ∧ ∀ s, apply op s = ((R.run code (s, frame)).1, R.result (R.run code (s, frame)).2)) ∨
    code.countP R.touches = 0

variable {R apply}

theorem run_untouched {code : List Instr} (none : code.countP R.touches = 0) (s : Shared) (frame : Frame) :
    R.run code (s, frame) = (s, R.settle code frame) := by
  induction code generalizing frame with
  | nil => rfl
  | cons i code ih =>
    rw [List.countP_eq_zero] at none
    have first := none i List.mem_cons_self
    have rest := ih (List.countP_eq_zero.mpr fun j member => none j (List.mem_cons_of_mem i member))
    unfold Routines.touches at first
    simp only [Routines.run,Routines.settle,Routines.step,List.foldl_cons] at rest ⊢
    cases kind : R.denote i with
    | own f => exact rest (f frame)
    | touch f => simp [kind] at first

theorem any_touches (code : List Instr) : code.any R.touches = true ↔ code.countP R.touches ≠ 0 := by
  rw [List.any_eq_true,ne_eq,List.countP_eq_zero]
  simp only [not_forall,Bool.not_eq_true,Bool.not_eq_false,exists_prop]

theorem touches_own {f : Frame → Frame} (kind : R.denote i = .own f) : R.touches i = false := by
  unfold Routines.touches
  rw [kind]

theorem touches_touch {f : Shared → Frame → Shared × Frame} (kind : R.denote i = .touch f) : R.touches i = true := by
  unfold Routines.touches
  rw [kind]

section Step

variable {s : State Agent Shared (Place Op Instr Frame Result)} {agent : Agent} {past : List (Op × Result)}
  {op : Op} {i : Instr} {code : List Instr} {frame : Frame}

theorem shown_pending (pending : code.countP R.touches ≠ 0) :
    R.shown ⟨past, some (op, code, frame)⟩ = past := by
  simp only [Routines.shown,if_pos ((any_touches code).mpr pending),List.append_nil]

theorem shown_settled (settled : code.countP R.touches = 0) :
    R.shown ⟨past, some (op, code, frame)⟩ = past ++ [(op, R.result (R.settle code frame))] := by
  simp only [Routines.shown,if_neg (fun any => (any_touches code).mp any settled)]

theorem shown_returning : R.shown ⟨past, some (op, [], frame)⟩ = past ++ [(op, R.result frame)] := rfl

theorem shown_idle (past : List (Op × Result)) : R.shown ⟨past, none⟩ = past := List.append_nil past

omit [DecidableEq Agent] in
/-- The access of an agent takes at most one call into effect: its own, as a whole. -/
theorem access_effect (atomic : Atomic R apply) (input : Op × Frame) (sound : Sound R apply (s.pc agent)) :
    let result := R.access agent input s.shared (s.pc agent)
    Replays apply s.shared (R.effect s agent) result.1 ∧
      R.shown result.2 = R.shown (s.pc agent) ++ (R.effect s agent).map Prod.snd ∧ Sound R apply result.2 := by
  unfold Routines.effect
  generalize s.pc agent = place at sound
  obtain ⟨past,call⟩ := place
  rcases call with _ | ⟨op,_ | ⟨i,code⟩,frame⟩
  · refine ⟨rfl,?_,?_⟩
    · dsimp only [Routines.access]
      rw [shown_idle,shown_pending (by rw [atomic.once]; exact Nat.one_ne_zero),List.map_nil,List.append_nil]
    · rintro op code frame ⟨⟩
      exact .inl ⟨atomic.once _,atomic.correct _ _⟩
  · refine ⟨rfl,?_,fun _ _ _ none => nomatch none⟩
    dsimp only [Routines.access]
    rw [shown_idle,shown_returning,List.map_nil,List.append_nil]
  · have now := sound op (i :: code) frame rfl
    simp only [List.countP_cons] at now
    dsimp only [Routines.access,Routines.step]
    cases kind : R.denote i with
    | own f =>
      have first : (i :: code).countP R.touches = code.countP R.touches := by
        rw [List.countP_cons,touches_own kind]
        rfl
      rw [touches_own kind] at now
      have run (s : Shared) : R.run (i :: code) (s, frame) = R.run code (s, f frame) := by
        simp only [Routines.run,List.foldl_cons,Routines.step,kind]
      have settle : R.settle (i :: code) frame = R.settle code (f frame) := by
        simp only [Routines.settle,List.foldl_cons,kind]
      refine ⟨rfl,?_,?_⟩
      · rw [List.map_nil,List.append_nil]
        by_cases settled : code.countP R.touches = 0
        · rw [shown_settled settled,shown_settled (first.trans settled),settle]
        · rw [shown_pending settled,shown_pending (first ▸ settled)]
      · rintro _ _ _ ⟨⟩
        refine now.imp (fun pending => ?_) fun settled => ?_
        · refine ⟨by simpa using pending.1,fun s => ?_⟩
          rw [← run]
          exact pending.2 s
        · simpa using settled
    | touch f =>
      rw [touches_touch kind] at now
      obtain ⟨once,does⟩ : code.countP R.touches = 0 ∧ ∀ s, apply op s =
          ((R.run (i :: code) (s, frame)).1, R.result (R.run (i :: code) (s, frame)).2) := by
        rcases now with ⟨one,does⟩ | none
        · exact ⟨by simpa using one,does⟩
        · simp at none
      have run : R.run (i :: code) (s.shared, frame) =
          ((f s.shared frame).1, R.settle code (f s.shared frame).2) := by
        rw [← run_untouched once]
        simp only [Routines.run,List.foldl_cons,Routines.step,kind]
      refine ⟨?_,?_,?_⟩
      · simp only [Replays]
        rw [does,run]
        exact ⟨rfl,rfl⟩
      · have before : (i :: code).countP R.touches ≠ 0 := by
          rw [List.countP_cons,touches_touch kind]
          exact Nat.succ_ne_zero _
        rw [shown_settled once,shown_pending before]
        rfl
      · rintro _ _ _ ⟨⟩
        exact .inr once

end Step

section Run

variable {s : State Agent Shared (Place Op Instr Frame Result)}

theorem mine_effect (agent a : Agent) :
    mine a (R.effect s agent) = if agent = a then (R.effect s agent).map Prod.snd else [] := by
  unfold Routines.effect mine
  split
  · split
    · simp
    · by_cases same : agent = a <;> simp [same]
  · simp

/-- However the instructions of any number of agents are interleaved, the calls that have taken
effect, in the order in which they did, are a sequential run from the first store to the last, and
each agent finds its own among them. -/
theorem interleaved_sequential (atomic : Atomic R apply) (schedule : List (Agent × Op × Frame)) :
    (s : State Agent Shared (Place Op Instr Frame Result)) → (∀ a, Sound R apply (s.pc a)) →
    let t := interleave R.access schedule s
    Replays apply s.shared (R.history schedule s) t.shared ∧
      ∀ a, R.shown (t.pc a) = R.shown (s.pc a) ++ mine a (R.history schedule s) := by
  induction schedule with
  | nil => exact fun s _ => ⟨rfl,fun a => (List.append_nil _).symm⟩
  | cons chosen schedule ih =>
    intro s sound
    obtain ⟨agent,input⟩ := chosen
    obtain ⟨first,own,next⟩ := access_effect atomic input (sound agent)
    obtain ⟨later,others⟩ := ih (dispatch R.access s (agent, input))
      (install_all (P := fun _ place => Sound R apply place) next fun a _ => sound a)
    refine ⟨first.append later,fun a => ?_⟩
    rw [Routines.history,mine_append,mine_effect,← List.append_assoc]
    refine (others a).trans (congrArg (· ++ _) ?_)
    by_cases same : agent = a
    · subst same
      rw [if_pos rfl,dispatch,install_same]
      exact own
    · rw [if_neg same,dispatch,install_other _ _ (Ne.symm same),List.append_nil]

/-- What holds of every call that is made holds of all that take effect. -/
theorem history_calls (P : Op → Prop) (schedule : List (Agent × Op × Frame)) :
    (∀ chosen ∈ schedule, P chosen.2.1) → (s : State Agent Shared (Place Op Instr Frame Result)) →
    (∀ a op code frame, (s.pc a).call = some (op, code, frame) → P op) →
    ∀ e ∈ R.history schedule s, P e.2.1 := by
  induction schedule with
  | nil => exact fun _ _ _ _ member => absurd member List.not_mem_nil
  | cons chosen schedule ih =>
    intro allowed s calls e member
    rcases List.mem_append.mp member with now | later
    · unfold Routines.effect at now
      split at now
      next op i code frame here =>
        split at now
        · exact absurd now List.not_mem_nil
        · rw [List.mem_singleton.mp now]
          exact calls chosen.1 op (i :: code) frame here
      next => exact absurd now List.not_mem_nil
    · refine ih (fun c later => allowed c (List.mem_cons_of_mem _ later)) _ ?_ e later
      refine install_all (P := fun _ (place : Place Op Instr Frame Result) =>
        ∀ op code frame, place.call = some (op, code, frame) → P op) ?_
        fun a _ => calls a
      have own := calls chosen.1
      unfold Routines.access
      split
      · rintro _ _ _ ⟨⟩
        exact allowed chosen List.mem_cons_self
      · exact fun _ _ _ none => nomatch none
      next op i code frame here =>
        rintro _ _ _ ⟨⟩
        exact own op (i :: code) frame here

end Run

end

end Kernal.Linearize
