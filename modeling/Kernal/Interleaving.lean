import Mathlib.Algebra.Group.Nat.Defs
import Mathlib.Data.Fintype.Card

/-! Sequentially consistent interleavings of any family of agents over one shared
store. One dispatch runs one atomic access of one agent; the dispatched input
resolves whatever choice that access leaves to the agent's caller. -/
namespace Kernal.Interleaving

structure State (Agent Shared Place : Type) where
  shared : Shared
  pc : Agent → Place

/-- The store and the agent's own place after one of its accesses. -/
abbrev Access (Agent Input Shared Place : Type) :=
  Agent → Input → Shared → Place → Shared × Place

section

variable {Agent Input Shared Place : Type} [DecidableEq Agent]

def install (s : State Agent Shared Place) (agent : Agent) (result : Shared × Place) :
    State Agent Shared Place :=
  ⟨result.1, Function.update s.pc agent result.2⟩

@[simp] theorem install_shared (s : State Agent Shared Place) (agent : Agent)
    (result : Shared × Place) : (install s agent result).shared = result.1 := rfl

@[simp] theorem install_same (s : State Agent Shared Place) (agent : Agent)
    (result : Shared × Place) : (install s agent result).pc agent = result.2 := by
  simp [install]

theorem install_other (s : State Agent Shared Place) (result : Shared × Place)
    (h : other ≠ agent) : (install s agent result).pc other = s.pc other := by
  simp [install,h]

/-- What holds of the agent's new place, and of all others as before, holds of every place. -/
theorem install_all {P : Agent → Place → Prop} {s : State Agent Shared Place} {agent : Agent}
    {result : Shared × Place} (own : P agent result.2) (others : ∀ a, a ≠ agent → P a (s.pc a)) (a : Agent) :
    P a ((install s agent result).pc a) := by
  by_cases same : a = agent
  · subst a
    rw [install_same]
    exact own
  · rw [install_other s result same]
    exact others a same

def dispatch (access : Access Agent Input Shared Place) (s : State Agent Shared Place)
    (chosen : Agent × Input) : State Agent Shared Place :=
  install s chosen.1 (access chosen.1 chosen.2 s.shared (s.pc chosen.1))

def interleave (access : Access Agent Input Shared Place) (schedule : List (Agent × Input))
    (s : State Agent Shared Place) : State Agent Shared Place :=
  schedule.foldl (dispatch access) s

/-- What every single dispatch preserves holds after every finite schedule. -/
theorem interleave_preserves (access : Access Agent Input Shared Place)
    (Invariant : State Agent Shared Place → Prop)
    (preserved : ∀ s, Invariant s → ∀ chosen, Invariant (dispatch access s chosen))
    (s : State Agent Shared Place) (valid : Invariant s) (schedule : List (Agent × Input)) :
    Invariant (interleave access schedule s) :=
  List.foldlRecOn schedule (dispatch access) valid
    fun t holds chosen _ => preserved t holds chosen

theorem interleave_append (access : Access Agent Input Shared Place) (first second : List (Agent × Input))
    (s : State Agent Shared Place) :
    interleave access (first ++ second) s = interleave access second (interleave access first s) :=
  List.foldl_append

/-- One agent's accesses in a row, with the store. -/
def alone (access : Access Agent Input Shared Place) (agent : Agent) (inputs : List Input)
    (start : Shared × Place) : Shared × Place :=
  inputs.foldl (fun now input => access agent input now.1 now.2) start

theorem install_install (s : State Agent Shared Place) (agent : Agent) (first second : Shared × Place) :
    install (install s agent first) agent second = install s agent second := by
  simp [install]

theorem install_self (s : State Agent Shared Place) (agent : Agent) :
    install s agent (s.shared, s.pc agent) = s := by
  simp [install]

/-- A schedule of one agent is that agent running alone. -/
theorem interleave_alone (access : Access Agent Input Shared Place) (agent : Agent) (inputs : List Input) :
    (s : State Agent Shared Place) → interleave access (inputs.map (agent, ·)) s =
      install s agent (alone access agent inputs (s.shared, s.pc agent)) := by
  induction inputs with
  | nil => exact fun s => (install_self s agent).symm
  | cons input inputs ih =>
    intro s
    refine (ih (dispatch access s (agent, input))).trans ?_
    rw [dispatch,install_install,install_shared,install_same]
    rfl

/-- An agent that each of its accesses brings nearer to being done comes to be done after as
many accesses of its own, whatever the others do in between. -/
theorem done_within (access : Access Agent Input Shared Place) (agent : Agent) (inside done : Place → Prop)
    (rank : Place → Nat) (last : ∀ place, inside place → rank place = 0 → done place)
    (falls : ∀ shared place input, inside place → ¬done place →
      inside (access agent input shared place).2 ∧ rank (access agent input shared place).2 < rank place)
    (schedule : List (Agent × Input)) : (s : State Agent Shared Place) → inside (s.pc agent) →
    rank (s.pc agent) ≤ schedule.countP (·.1 = agent) →
    ∃ front, front <+: schedule ∧ done ((interleave access front s).pc agent) := by
  induction schedule with
  | nil => exact fun s here low => ⟨[],List.prefix_refl _,last _ here (Nat.le_zero.mp low)⟩
  | cons chosen schedule ih =>
    intro s here low
    by_cases finished : done (s.pc agent)
    · exact ⟨[],List.nil_prefix,finished⟩
    · have next : inside ((dispatch access s chosen).pc agent) ∧
          rank ((dispatch access s chosen).pc agent) ≤ schedule.countP (·.1 = agent) := by
        rw [List.countP_cons] at low
        by_cases own : chosen.1 = agent
        · subst own
          have nearer := falls s.shared (s.pc chosen.1) chosen.2 here finished
          rw [dispatch,install_same]
          simp only [decide_true,↓reduceIte] at low
          exact ⟨nearer.1,by omega⟩
        · rw [dispatch,install_other _ _ (Ne.symm own)]
          exact ⟨here,by simpa [own] using low⟩
      obtain ⟨front,isFront,done⟩ := ih _ next.1 next.2
      exact ⟨chosen :: front,List.cons_prefix_cons.mpr ⟨rfl,isFront⟩,done⟩

section Refinement

variable {Input' Place' : Type} (access : Access Agent Input Shared Place)
  (access' : Access Agent Input' Shared Place') (abstract : Place → Place') (Keeps : Place → Prop)

def State.abstracted (s : State Agent Shared Place) : State Agent Shared Place' := ⟨s.shared, abstract ∘ s.pc⟩

theorem abstracted_install (s : State Agent Shared Place) (agent : Agent) (result : Shared × Place) :
    (install s agent result).abstracted abstract =
      install (s.abstracted abstract) agent (result.1, abstract result.2) := by
  simp only [State.abstracted,install,State.mk.injEq,true_and]
  exact Function.comp_update ..

/-- Where each access shows on the abstract places as one access or as none, so does a schedule. -/
theorem interleave_refines (simulated : ∀ agent input shared place, Keeps place →
      Keeps (access agent input shared place).2 ∧
      ((access agent input shared place).1 = shared ∧
          abstract (access agent input shared place).2 = abstract place ∨
        ∃ input', access' agent input' shared (abstract place) =
          ((access agent input shared place).1, abstract (access agent input shared place).2)))
    (schedule : List (Agent × Input)) : (s : State Agent Shared Place) → (∀ a, Keeps (s.pc a)) →
    (∀ a, Keeps ((interleave access schedule s).pc a)) ∧
      ∃ schedule', (interleave access schedule s).abstracted abstract =
        interleave access' schedule' (s.abstracted abstract) := by
  induction schedule with
  | nil => exact fun s keeps => ⟨keeps,[],rfl⟩
  | cons chosen schedule ih =>
    intro s keeps
    obtain ⟨agent,input⟩ := chosen
    obtain ⟨kept,shown⟩ := simulated agent input s.shared (s.pc agent) (keeps agent)
    obtain ⟨keeps,schedule',rest⟩ := ih (dispatch access s (agent, input))
      (install_all (P := fun _ place => Keeps place) kept fun a _ => keeps a)
    refine ⟨keeps,?_⟩
    rw [dispatch,abstracted_install] at rest
    rcases shown with ⟨store,place⟩ | ⟨input',same⟩
    · have still := install_self (s.abstracted abstract) agent
      refine ⟨schedule',rest.trans ?_⟩
      rw [store,place]
      exact congrArg _ still
    · refine ⟨(agent, input') :: schedule',rest.trans ?_⟩
      rw [← same]
      rfl

end Refinement

end

section Count

variable {Agent Shared Place : Type} [Fintype Agent]

def count (here : Place → Bool) (s : State Agent Shared Place) : Nat :=
  (Finset.univ.filter fun agent => here (s.pc agent)).card

theorem count_lt (here : Place → Bool) (s : State Agent Shared Place) (agent : Agent)
    (elsewhere : here (s.pc agent) = false) : count here s < Fintype.card Agent :=
  Finset.card_lt_univ_of_notMem (x := agent) (by simp [elsewhere])

theorem count_pos (here : Place → Bool) (s : State Agent Shared Place) (agent : Agent)
    (at_agent : here (s.pc agent) = true) : 0 < count here s :=
  Finset.card_pos.mpr ⟨agent, by simp [at_agent]⟩

theorem count_eq_zero (here : Place → Bool) (s : State Agent Shared Place) :
    count here s = 0 ↔ ∀ agent, here (s.pc agent) = false := by
  simp [count,Finset.filter_eq_empty_iff]

/-- Only the dispatched agent's own place can change a count. -/
theorem count_install [DecidableEq Agent] (here : Place → Bool) (s : State Agent Shared Place)
    (agent : Agent) (result : Shared × Place) :
    count here (install s agent result) + (here (s.pc agent)).toNat =
      count here s + (here result.2).toNat := by
  have split (t : State Agent Shared Place) : count here t =
      ((Finset.univ.erase agent).filter fun other => here (t.pc other)).card +
        (here (t.pc agent)).toNat := by
    rw [count,← Finset.insert_erase (Finset.mem_univ agent),Finset.filter_insert]
    cases here (t.pc agent) <;> simp
  have rest : ((Finset.univ.erase agent).filter fun other =>
      here ((install s agent result).pc other)) =
      (Finset.univ.erase agent).filter fun other => here (s.pc other) := by
    apply Finset.filter_congr
    intro other member
    rw [install_other s result (Finset.ne_of_mem_erase member)]
  rw [split (install s agent result),split s,rest,install_same]
  omega

end Count

end Kernal.Interleaving
