/-! Runs of a labelled step relation, and when a property holds all along a run. -/
namespace Kernal.Runs

/-- A run from a state in `init`. It remembers the states it has left, each with the
label of the step taken there. -/
inductive Run (init : σ → Prop) (step : σ → α → σ → Prop) : List (σ × α) → σ → Prop where
  | start {s : σ} : init s → Run init step [] s
  | next {past : List (σ × α)} {s s' : σ} {a : α} : Run init step past s → step s a s' →
      Run init step (past ++ [(s, a)]) s'

/-- The property holds in every state of the run. -/
def Always (P : σ → Prop) (past : List (σ × α)) (s : σ) : Prop := (∀ e ∈ past, P e.1) ∧ P s

/-- Every step of the run is taken where the condition allows it. -/
def Throughout (C : σ → α → Prop) (past : List (σ × α)) : Prop := ∀ e ∈ past, C e.1 e.2

theorem Throughout.append {C : σ → α → Prop} {past : List (σ × α)} {s : σ} {a : α} :
    Throughout C (past ++ [(s, a)]) ↔ Throughout C past ∧ C s a := by
  simp [Throughout,or_imp,forall_and]

theorem Always.append {P : σ → Prop} {past : List (σ × α)} {s s' : σ} {a : α} :
    Always P (past ++ [(s, a)]) s' ↔ Always P past s ∧ P s' := by
  simp [Always,or_imp,forall_and]

theorem Always.mono {P Q : σ → Prop} {past : List (σ × α)} {s : σ} (weaker : ∀ s, P s → Q s)
    (always : Always P past s) : Always Q past s :=
  ⟨fun e member => weaker e.1 (always.1 e member),weaker s always.2⟩

namespace Run

variable {init : σ → Prop} {step : σ → α → σ → Prop} {I P : σ → Prop} {C : σ → α → Prop}

theorem invariant (start : ∀ s, init s → I s) (keeps : ∀ s a s', I s → step s a s' → I s')
    (run : Run init step past s) : I s := by
  induction run with
  | start first => exact start _ first
  | next _ taken ih => exact keeps _ _ _ ih taken

/-- A property that a step keeps where `C` allows it holds all along a run that keeps to
`C`. -/
theorem always_of (start : ∀ s, init s → P s) (keeps : ∀ s a s', P s → C s a → step s a s' → P s')
    (run : Run init step past s) (kept : Throughout C past) : Always P past s := by
  induction run with
  | start first => exact ⟨by simp,start _ first⟩
  | @next past s s' a before taken ih =>
    obtain ⟨kept,allowed⟩ := Throughout.append.1 kept
    have always := ih kept
    exact Always.append.2 ⟨always,keeps s a s' always.2 allowed taken⟩

/-- A property that a step keeps exactly where `C` allows it holds all along exactly the
runs that keep to `C`. -/
theorem always_iff (start : ∀ s, init s → I s ∧ P s)
    (keeps : ∀ s a s', I s → step s a s' → I s')
    (exactly : ∀ s a s', I s → P s → step s a s' → (P s' ↔ C s a))
    (run : Run init step past s) : Always P past s ↔ Throughout C past := by
  induction run with
  | start first => simp [Always,Throughout,(start _ first).2]
  | @next past s s' a before taken ih =>
    have inv := before.invariant (fun s first => (start s first).1) keeps
    rw [Always.append,Throughout.append,← ih]
    refine and_congr_right fun always => ?_
    exact exactly s a s' inv always.2 taken

end Run

end Kernal.Runs
