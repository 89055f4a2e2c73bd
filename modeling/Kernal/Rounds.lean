import Kernal.Interleaving

/-! Progress under fair schedules. A schedule that comes in rounds gives every agent an access
in each of them; what the agent's own accesses bring nearer is reached after as many rounds,
unless what is waited for happens before. -/
namespace Kernal.Interleaving

section

variable {Agent Input Shared Place : Type} [DecidableEq Agent] (access : Access Agent Input Shared Place)

/-- Somewhere along the schedule the goal is met. -/
def Meets (schedule : List (Agent × Input)) (Goal : State Agent Shared Place → Prop)
    (s : State Agent Shared Place) : Prop :=
  ∃ front, front <+: schedule ∧ Goal (interleave access front s)

def Covers (round : List (Agent × Input)) : Prop := ∀ a, 0 < round.countP (·.1 = a)

variable {access} {s : State Agent Shared Place} {Goal : State Agent Shared Place → Prop}

theorem meets_now (schedule : List (Agent × Input)) (goal : Goal s) : Meets access schedule Goal s :=
  ⟨[],List.nil_prefix,goal⟩

theorem Meets.append_left {first : List (Agent × Input)} (meets : Meets access first Goal s)
    (second : List (Agent × Input)) : Meets access (first ++ second) Goal s := by
  obtain ⟨front,isFront,goal⟩ := meets
  exact ⟨front,isFront.trans (List.prefix_append first second),goal⟩

theorem Meets.append_right (first : List (Agent × Input)) {second : List (Agent × Input)}
    (meets : Meets access second Goal (interleave access first s)) : Meets access (first ++ second) Goal s := by
  obtain ⟨front,isFront,goal⟩ := meets
  refine ⟨first ++ front,(List.prefix_append_right_inj first).mpr isFront,?_⟩
  rw [interleave_append]
  exact goal

theorem meets_append_iff (first second : List (Agent × Input)) : Meets access (first ++ second) Goal s ↔
    Meets access first Goal s ∨ Meets access second Goal (interleave access first s) := by
  constructor
  · rintro ⟨front,⟨rest,same⟩,goal⟩
    rcases List.append_eq_append_iff.mp same with ⟨more,rfl,_⟩ | ⟨more,rfl,rfl⟩
    · exact .inl ⟨front,List.prefix_append front more,goal⟩
    · rw [interleave_append] at goal
      exact .inr ⟨more,List.prefix_append more rest,goal⟩
  · rintro (meets | meets)
    · exact meets.append_left second
    · exact meets.append_right first

theorem count_rounds {rounds : List (List (Agent × Input))} (covers : ∀ round ∈ rounds, Covers round)
    (a : Agent) : rounds.length ≤ rounds.flatten.countP (·.1 = a) := by
  induction rounds with
  | nil => exact Nat.le_refl 0
  | cons round rounds ih =>
    have rest := ih fun r mem => covers r (List.mem_cons_of_mem _ mem)
    have here := covers round List.mem_cons_self a
    rw [List.flatten_cons,List.countP_append,List.length_cons]
    omega

section Stages

variable (access) in
/-- Only the goal ends the stage. -/
def Lasts (Allowed : Input → Prop) (Goal Stage : State Agent Shared Place → Prop) : Prop :=
  ∀ s, Stage s → ∀ chosen : Agent × Input, Allowed chosen.2 →
    Goal (dispatch access s chosen) ∨ Stage (dispatch access s chosen)

variable {Allowed : Input → Prop} {Stage : State Agent Shared Place → Prop}
  (next : Lasts access Allowed Goal Stage)
include next

/-- A stage that only the goal ends, with a rank that the accesses of one agent lower. -/
theorem rank_falls (agent : Agent) (rank : Place → Nat)
    (own : ∀ s, Stage s → ∀ input, Allowed input → Goal (dispatch access s (agent, input)) ∨
      rank (access agent input s.shared (s.pc agent)).2 ≤ rank (s.pc agent) - 1)
    (schedule : List (Agent × Input)) : (∀ chosen ∈ schedule, Allowed chosen.2) → (s : State Agent Shared Place) →
    Stage s → Meets access schedule Goal s ∨ (Stage (interleave access schedule s) ∧
      rank ((interleave access schedule s).pc agent) ≤ rank (s.pc agent) - schedule.countP (·.1 = agent)) := by
  induction schedule with
  | nil => exact fun _ s stage => .inr ⟨stage,Nat.le_refl _⟩
  | cons chosen schedule ih =>
    intro allowed s stage
    have here := allowed chosen List.mem_cons_self
    by_cases goal : Goal (dispatch access s chosen)
    · exact .inl ⟨[chosen],List.cons_prefix_cons.mpr ⟨rfl,List.nil_prefix⟩,goal⟩
    · have stage' := (next s stage chosen here).resolve_left goal
      have lower : rank ((dispatch access s chosen).pc agent) ≤
          rank (s.pc agent) - [chosen].countP (·.1 = agent) := by
        by_cases same : chosen.1 = agent
        · subst same
          have once := (own s stage chosen.2 here).resolve_left goal
          simp only [List.countP_cons,List.countP_nil,decide_true,↓reduceIte]
          rw [dispatch,install_same]
          exact once
        · rw [dispatch,install_other _ _ (Ne.symm same)]
          simp [same]
      rcases ih (fun c mem => allowed c (List.mem_cons_of_mem _ mem)) _ stage' with meets | ⟨last,rest⟩
      · exact .inl (meets.append_right [chosen])
      · refine .inr ⟨last,?_⟩
        have split : (chosen :: schedule).countP (·.1 = agent) =
            [chosen].countP (·.1 = agent) + schedule.countP (·.1 = agent) := by
          rw [← List.countP_append,List.singleton_append]
        change rank ((interleave access schedule (dispatch access s chosen)).pc agent) ≤ _
        omega

theorem stage_lasts (schedule : List (Agent × Input)) (allowed : ∀ chosen ∈ schedule, Allowed chosen.2)
    (stage : Stage s) : Meets access schedule Goal s ∨ Stage (interleave access schedule s) := by
  induction schedule generalizing s with
  | nil => exact .inr stage
  | cons chosen schedule ih =>
    rcases next s stage chosen (allowed chosen List.mem_cons_self) with goal | stage'
    · exact .inl ⟨[chosen],List.cons_prefix_cons.mpr ⟨rfl,List.nil_prefix⟩,goal⟩
    · rcases ih (fun c mem => allowed c (List.mem_cons_of_mem _ mem)) stage' with meets | last
      · exact .inl (meets.append_right [chosen])
      · exact .inr last

/-- Once the stage is reached it lasts to the end of the schedule. -/
theorem Meets.lasts {schedule : List (Agent × Input)} (meets : Meets access schedule (fun s => Goal s ∨ Stage s) s)
    (allowed : ∀ chosen ∈ schedule, Allowed chosen.2) :
    Meets access schedule Goal s ∨ Stage (interleave access schedule s) := by
  obtain ⟨front,⟨rest,rfl⟩,goal | stage⟩ := meets
  · exact .inl ⟨front,List.prefix_append front rest,goal⟩
  · rcases stage_lasts next rest (fun c mem => allowed c (List.mem_append_right _ mem)) stage with meets | last
    · exact .inl (meets.append_right front)
    · rw [interleave_append]
      exact .inr last

end Stages

/-- Where nobody can come while the store is shut, an agent that is there at the end was there
all the time and has not moved. -/
theorem unmoved_of_shut (agent : Agent) (here : Place → Prop) (Shut : State Agent Shared Place → Prop)
    (closed : ∀ s input, Shut s → ¬here (access agent input s.shared (s.pc agent)).2)
    (schedule : List (Agent × Input)) : (s : State Agent Shared Place) →
    (∀ front, front <+: schedule → Shut (interleave access front s)) →
    here ((interleave access schedule s).pc agent) → here (s.pc agent) ∧ ∀ chosen ∈ schedule, chosen.1 ≠ agent := by
  induction schedule with
  | nil => exact fun s _ last => ⟨last,fun _ mem => absurd mem List.not_mem_nil⟩
  | cons chosen schedule ih =>
    intro s shut last
    obtain ⟨there,unmoved⟩ := ih (dispatch access s chosen) (fun front isFront =>
      shut (chosen :: front) (List.cons_prefix_cons.mpr ⟨rfl,isFront⟩)) last
    by_cases own : chosen.1 = agent
    · subst own
      rw [dispatch,install_same] at there
      exact absurd there (closed s chosen.2 (shut [] List.nil_prefix))
    · rw [dispatch,install_other _ _ (Ne.symm own)] at there
      refine ⟨there,fun c mem => ?_⟩
      rcases List.mem_cons.mp mem with rfl | mem
      · exact own
      · exact unmoved c mem

end

end Kernal.Interleaving
