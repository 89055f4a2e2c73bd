import Kernal.Linearize

/-! Sections that are run under a lock. The accesses of the lock and the steps of the sections are
interleaved freely; where the lock keeps two holders apart, what is done under it is as if whole
sections ran one after the other, in the order in which they end. -/
namespace Kernal.Critical

open Interleaving Linearize

/-- An agent rests, is in a section or waits for the lock before it, or gives the lock back. -/
inductive Task (Op Frame : Type) where
  | rest
  | inside (op : Op) (frame : Frame)
  | leaving
  deriving DecidableEq, Repr

structure Spot (Place Op Frame Result : Type) where
  place : Place
  task : Task Op Frame
  /-- The sections that the agent has been through. -/
  past : List (Op × Result)

/-- A lock and the sections that are run at its place `held`. Which ones an agent may enter
depends on those it has been through. -/
structure Guarded (Agent Input Word Place Op Data Frame Result : Type) where
  lock : Access Agent Input Word Place
  idle : Place
  held : Place
  enter : Op → Frame
  step : Data → Frame → Data × Frame
  result : Frame → Option Result
  permits : List (Op × Result) → Op → Bool

variable {Agent Input Word Place Op Data Frame Result : Type}

namespace Guarded

variable (G : Guarded Agent Input Word Place Op Data Frame Result) [DecidableEq Agent] [DecidableEq Place]

/-- One access of the lock, or one step of the section by the holder. -/
def access : Access Agent (Op × Input) (Word × Data) (Spot Place Op Frame Result) := fun agent input shared spot =>
  let (word, place) := G.lock agent input.2 shared.1 spot.place
  match spot.task with
  | .rest =>
    if G.permits spot.past input.1 then
      ((word, shared.2), ⟨place, .inside input.1 (G.enter input.1), spot.past⟩)
    else (shared, spot)
  | .inside op frame =>
    if spot.place = G.held then
      match G.result frame with
      | none =>
        let (data, frame) := G.step shared.2 frame
        ((shared.1, data), ⟨spot.place, .inside op frame, spot.past⟩)
      | some r => ((word, shared.2), ⟨place, .leaving, spot.past ++ [(op, r)]⟩)
    else ((word, shared.2), ⟨place, .inside op frame, spot.past⟩)
  | .leaving => ((word, shared.2), ⟨place, if place = G.idle then .rest else .leaving, spot.past⟩)

abbrev System (_ : Guarded Agent Input Word Place Op Data Frame Result) :=
  State Agent (Word × Data) (Spot Place Op Frame Result)

def locked (s : G.System) : State Agent Word Place := ⟨s.shared.1, fun a => (s.pc a).place⟩

def Works (s : G.System) (a : Agent) : Prop :=
  ∃ op frame, (s.pc a).task = .inside op frame ∧ (s.pc a).place = G.held

/-- The section that the next access of the agent ends. -/
def ended (s : G.System) (agent : Agent) : List (Agent × Op × Result) :=
  match (s.pc agent).task with
  | .inside op frame =>
    if (s.pc agent).place = G.held then ((G.result frame).map fun r => (agent, op, r)).toList else []
  | _ => []

/-- The sections in the order in which they end. -/
def history : List (Agent × Op × Input) → G.System → List (Agent × Op × Result)
  | [], _ => []
  | chosen :: schedule, s => G.ended s chosen.1 ++ history schedule (dispatch G.access s chosen)

/-- How far a section has come that was begun on data `d` and that nobody disturbs. -/
inductive Midway (op : Op) (d : Data) : Data → Frame → Prop where
  | begin : Midway op d d (G.enter op)
  | next {d' : Data} {frame : Frame} : Midway op d d' frame → G.result frame = none →
      Midway op d (G.step d' frame).1 (G.step d' frame).2

/-- A whole section that nobody disturbs. -/
def Alone (op : Op) (d : Data) (r : Result) (d' : Data) : Prop :=
  ∃ frame, G.Midway op d d' frame ∧ G.result frame = some r

/-- A section that comes to its end in `n` steps, if nobody disturbs it. -/
inductive Finishes (r : Result) (d' : Data) : Nat → Data → Frame → Prop where
  | done {frame : Frame} : G.result frame = some r → Finishes r d' 0 d' frame
  | step {n : Nat} {d : Data} {frame : Frame} : G.result frame = none →
      Finishes r d' n (G.step d frame).1 (G.step d frame).2 → Finishes r d' (n + 1) d frame

omit [DecidableEq Agent] [DecidableEq Place] in
theorem Midway.finishes {G : Guarded Agent Input Word Place Op Data Frame Result} {d d' d'' : Data} {frame : Frame}
    {r : Result} (midway : G.Midway op d d' frame) (finishes : G.Finishes r d'' n d' frame) : G.Alone op d r d'' := by
  induction finishes with
  | done result => exact ⟨_,midway,result⟩
  | step unfinished _ ih => exact ih (midway.next unfinished)

/-- Whole sections one after the other, each of them permitted to its agent by those that the
agent has been through. -/
def Serial : List (Agent × Op × Result) → Data → List (Agent × Op × Result) → Data → Prop
  | _, d, [], d' => d' = d
  | before, d, (a, op, r) :: rest, d' => G.permits (mine a before) op = true ∧
      ∃ next, G.Alone op d r next ∧ Serial (before ++ [(a, op, r)]) next rest d'

omit [DecidableEq Place] in
theorem Serial.append {G : Guarded Agent Input Word Place Op Data Frame Result}
    {before first second : List (Agent × Op × Result)} {d d' d'' : Data} (begins : G.Serial before d first d')
    (ends : G.Serial (before ++ first) d' second d'') : G.Serial before d (first ++ second) d'' := by
  induction first generalizing before d with
  | nil =>
    obtain rfl : d' = d := begins
    rwa [List.append_nil] at ends
  | cons e first ih =>
    obtain ⟨permitted,next,alone,rest⟩ := begins
    refine ⟨permitted,next,alone,ih rest ?_⟩
    rwa [List.append_assoc,List.singleton_append]

/-- The lock keeps two holders apart, in whatever its agents do with it. -/
structure Exclusive (Inv : State Agent Word Place → Prop) : Prop where
  keeps : ∀ s, Inv s → ∀ chosen, Inv (dispatch G.lock s chosen)
  apart : ∀ s, Inv s → ∀ a b, s.pc a = G.held → s.pc b = G.held → a = b

/-- An agent in a section was permitted to enter it, and has done nothing before it has the lock. -/
def Fit (spot : Spot Place Op Frame Result) : Prop := ∀ op frame, spot.task = .inside op frame →
  G.permits spot.past op = true ∧ (spot.place ≠ G.held → frame = G.enter op)

/-- What whole sections have left is there while nobody works on it, and whoever does has begun
with it and is not disturbed. -/
structure Kept (Inv : State Agent Word Place → Prop) (d : Data) (s : G.System) : Prop where
  lock : Inv (G.locked s)
  fit : ∀ a, G.Fit (s.pc a)
  works : ∀ a op frame, (s.pc a).task = .inside op frame → (s.pc a).place = G.held →
    G.Midway op d s.shared.2 frame
  quiet : (∀ a, ¬G.Works s a) → s.shared.2 = d

end Guarded

section Step

variable [DecidableEq Agent] {G : Guarded Agent Input Word Place Op Data Frame Result}
  {Inv : State Agent Word Place → Prop} {s : G.System} {agent : Agent} {d : Data}

theorem locked_install (s : G.System) (agent : Agent) (word : Word) (data : Data) (spot : Spot Place Op Frame Result) :
    G.locked (install s agent ((word, data), spot)) = install (G.locked s) agent (word, spot.place) := by
  unfold Guarded.locked install
  congr 1
  funext a
  by_cases same : a = agent
  · subst same
    simp only [Function.update_self]
  · simp only [Function.update_of_ne same]

/-- An access of the lock shows as one access of the lock alone. -/
theorem Guarded.Exclusive.moved (exclusive : G.Exclusive Inv) (inv : Inv (G.locked s)) (agent : Agent) (input : Input)
    (data : Data) (task : Task Op Frame) (past : List (Op × Result)) :
    let lock := G.lock agent input s.shared.1 (s.pc agent).place
    Inv (G.locked (install s agent ((lock.1, data), ⟨lock.2, task, past⟩))) := by
  intro lock
  rw [locked_install]
  exact exclusive.keeps _ inv (agent, input)

/-- A step of a section leaves the lock as it is. -/
theorem locked_unmoved (s : G.System) (agent : Agent) (data : Data) (task : Task Op Frame) (past : List (Op × Result)) :
    G.locked (install s agent ((s.shared.1, data), ⟨(s.pc agent).place, task, past⟩)) = G.locked s := by
  rw [locked_install]
  exact install_self (G.locked s) agent

omit [DecidableEq Agent] in
theorem not_works (out : ∀ op frame, (s.pc agent).task ≠ .inside op frame) : ¬G.Works s agent := by
  rintro ⟨op,frame,inside,_⟩
  exact out op frame inside

theorem works_other {result : (Word × Data) × Spot Place Op Frame Result} (other : a ≠ agent) :
    G.Works (install s agent result) a ↔ G.Works s a := by
  unfold Guarded.Works
  rw [install_other s result other]

/-- An agent that does not work on the data comes to a place of the lock, to begin a section there. -/
theorem Guarded.Kept.entering (exclusive : G.Exclusive Inv) (kept : G.Kept Inv d s) (idle : ¬G.Works s agent)
    (input : Input) (op : Op) (permitted : G.permits (s.pc agent).past op = true) :
    let lock := G.lock agent input s.shared.1 (s.pc agent).place
    G.Kept Inv d (install s agent ((lock.1, s.shared.2), ⟨lock.2, .inside op (G.enter op), (s.pc agent).past⟩)) := by
  intro lock
  have inv := exclusive.moved kept.lock agent input s.shared.2 (.inside op (G.enter op)) (s.pc agent).past
  refine ⟨inv,install_all (P := fun _ spot => G.Fit spot) ?_ fun a _ => kept.fit a,?_,fun quiet => ?_⟩
  · rintro _ _ ⟨⟩
    exact ⟨permitted,fun _ => rfl⟩
  · intro a op' frame task place
    by_cases same : a = agent
    · subst same
      rw [install_same] at task
      obtain ⟨rfl,rfl⟩ := Task.inside.inj task
      -- The lock lets nobody else be in a section now, so nobody was before.
      have calm : s.shared.2 = d := by
        refine kept.quiet fun b works => ?_
        by_cases own : b = a
        · exact idle (own ▸ works)
        · obtain ⟨_,_,_,there⟩ := works
          rw [← install_other s ((lock.1, s.shared.2), ⟨lock.2, .inside op (G.enter op), (s.pc a).past⟩) own] at there
          exact own (exclusive.apart _ inv b a there place)
      rw [install_shared,calm]
      exact .begin
    · rw [install_other _ _ same] at task place
      exact kept.works a op' frame task place
  · refine kept.quiet fun b works => ?_
    by_cases own : b = agent
    · exact idle (own ▸ works)
    · exact quiet b ((works_other own).mpr works)

/-- An access of an agent that is in no section afterwards. -/
theorem Guarded.Kept.outside {d' : Data} (exclusive : G.Exclusive Inv) (kept : G.Kept Inv d s) (input : Input)
    (task : Task Op Frame) (past : List (Op × Result)) (out : ∀ op frame, task ≠ .inside op frame)
    (same : (∀ a, a ≠ agent → ¬G.Works s a) → s.shared.2 = d')
    (others : ∀ a, a ≠ agent → G.Works s a → d' = d) :
    let lock := G.lock agent input s.shared.1 (s.pc agent).place
    G.Kept Inv d' (install s agent ((lock.1, s.shared.2), ⟨lock.2, task, past⟩)) := by
  intro lock
  have inv := exclusive.moved kept.lock agent input s.shared.2 task past
  refine ⟨inv,install_all (P := fun _ spot => G.Fit spot) ?_ fun a _ => kept.fit a,?_,fun quiet => ?_⟩
  · exact fun op frame inside => absurd inside (out op frame)
  · intro a op frame inside place
    by_cases own : a = agent
    · subst own
      rw [install_same] at inside
      exact absurd inside (out op frame)
    · rw [install_other _ _ own] at inside place
      rw [others a own ⟨op,frame,inside,place⟩]
      exact kept.works a op frame inside place
  · refine same fun a own works => ?_
    exact quiet a ((works_other own).mpr works)

/-- One access ends at most one section, that of the agent, which ran as if alone. -/
theorem dispatch_kept [DecidableEq Place] (exclusive : G.Exclusive Inv) (kept : G.Kept Inv d s) (agent : Agent)
    (input : Op × Input) (before : List (Agent × Op × Result)) (past : (s.pc agent).past = mine agent before) :
    ∃ d', G.Serial before d (G.ended s agent) d' ∧ G.Kept Inv d' (dispatch G.access s (agent, input)) ∧
      ((dispatch G.access s (agent, input)).pc agent).past = mine agent (before ++ G.ended s agent) := by
  have lonely (works : G.Works s agent) (a : Agent) (other : a ≠ agent) : ¬G.Works s a := by
    rintro ⟨_,_,_,place⟩
    obtain ⟨_,_,_,here⟩ := works
    exact other (exclusive.apart _ kept.lock a agent place here)
  rw [mine_append,← past,dispatch,install_same]
  unfold Guarded.ended Guarded.access
  cases task : (s.pc agent).task with
  | rest =>
    have idle : ¬G.Works s agent := not_works (by simp [task])
    refine ⟨d,rfl,?_⟩
    simp only
    split
    next permitted => exact ⟨kept.entering exclusive idle input.2 input.1 permitted,(List.append_nil _).symm⟩
    next =>
      rw [install_self]
      exact ⟨kept,(List.append_nil _).symm⟩
  | leaving =>
    refine ⟨d,rfl,?_,(List.append_nil _).symm⟩
    simp only
    apply kept.outside exclusive
    · intro op frame
      split <;> simp
    · intro others
      refine kept.quiet fun a works => ?_
      by_cases own : a = agent
      · subst own
        exact absurd works (not_works (by simp [task]))
      · exact others a own works
    · exact fun _ _ _ => rfl
  | inside op frame =>
    obtain ⟨permitted,waits⟩ := kept.fit agent op frame task
    simp only
    by_cases place : (s.pc agent).place = G.held
    · simp only [if_pos place]
      have works : G.Works s agent := ⟨op,frame,task,place⟩
      have midway := kept.works agent op frame task place
      cases done : G.result frame with
      | some r =>
        refine ⟨s.shared.2,⟨past ▸ permitted,_,⟨frame,midway,done⟩,rfl⟩,?_,?_⟩
        · refine kept.outside exclusive input.2 .leaving _ (by rintro _ _ ⟨⟩) (fun _ => rfl) ?_
          exact fun a other worked => absurd worked (lonely works a other)
        · simp [mine]
      | none =>
        refine ⟨d,rfl,?_,(List.append_nil _).symm⟩
        have still := locked_unmoved s agent (G.step s.shared.2 frame).1
          (.inside op (G.step s.shared.2 frame).2) (s.pc agent).past
        refine ⟨still ▸ kept.lock,install_all (P := fun _ spot => G.Fit spot) ?_ fun a _ => kept.fit a,?_,
          fun quiet => ?_⟩
        · rintro _ _ ⟨⟩
          exact ⟨permitted,absurd place⟩
        · intro a op' frame' inside there
          by_cases own : a = agent
          · subst own
            rw [install_same] at inside
            obtain ⟨rfl,rfl⟩ := Task.inside.inj inside
            exact midway.next done
          · rw [install_other _ _ own] at inside there
            exact absurd ⟨op',frame',inside,there⟩ (lonely works a own)
        · refine absurd ?_ (quiet agent)
          unfold Guarded.Works
          rw [install_same]
          exact ⟨op,_,rfl,place⟩
    · simp only [if_neg place]
      refine ⟨d,rfl,?_,(List.append_nil _).symm⟩
      obtain rfl := waits place
      apply kept.entering exclusive _ input.2 op permitted
      rintro ⟨_,_,_,here⟩
      exact place here

end Step

section Run

variable [DecidableEq Agent] [DecidableEq Place] {G : Guarded Agent Input Word Place Op Data Frame Result}
  {Inv : State Agent Word Place → Prop}

theorem mine_ended (s : G.System) (other : agent ≠ a) : mine a (G.ended s agent) = [] := by
  unfold Guarded.ended
  split
  · split
    · rename_i op frame _ _
      cases G.result frame with
      | none => rfl
      | some r => exact List.filterMap_cons_none (if_neg other)
    · rfl
  · rfl

/-- However the accesses are interleaved, what has been done under the lock is the work of whole
sections one after the other; an agent in a section has done its first steps on what they left. -/
theorem interleaved_serial (exclusive : G.Exclusive Inv) (schedule : List (Agent × Op × Input)) :
    (s : G.System) → (d : Data) → (before : List (Agent × Op × Result)) → G.Kept Inv d s →
    (∀ a, (s.pc a).past = mine a before) →
    let t := interleave G.access schedule s
    ∃ d', G.Serial before d (G.history schedule s) d' ∧ G.Kept Inv d' t ∧
      ∀ a, (t.pc a).past = mine a (before ++ G.history schedule s) := by
  induction schedule with
  | nil =>
    intro s d before kept past
    refine ⟨d,rfl,kept,fun a => ?_⟩
    rw [Guarded.history,List.append_nil]
    exact past a
  | cons chosen schedule ih =>
    intro s d before kept past
    obtain ⟨agent,input⟩ := chosen
    obtain ⟨middle,first,next,own⟩ := dispatch_kept exclusive kept agent input before (past agent)
    obtain ⟨d',rest,last,pasts⟩ := ih (dispatch G.access s (agent, input)) middle (before ++ G.ended s agent) next <| by
      intro a
      by_cases same : a = agent
      · subst same
        exact own
      · rw [dispatch,install_other _ _ same,mine_append,mine_ended s (Ne.symm same),List.append_nil]
        exact past a
    refine ⟨d',first.append rest,last,fun a => ?_⟩
    rw [Guarded.history,← List.append_assoc]
    exact pasts a

end Run

section Progress

variable [DecidableEq Agent] [DecidableEq Place] {G : Guarded Agent Input Word Place Op Data Frame Result}
  {Inv : State Agent Word Place → Prop}

end Progress

end Kernal.Critical
