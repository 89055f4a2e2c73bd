import Mathlib.Data.List.Basic
import Mathlib.Data.List.Chain

/-! A `for` loop whose body leaves the loop variable alone. It gets a number of rounds that it
may take, so that its end is something to prove. -/
namespace Kernal.Loops

variable {α β : Type*} {test : α → Bool} {next : α → α} {pos last : α} {xs : List α}

structure Walk (α : Type*) where
  rounds : List α
  ended : Bool
  deriving DecidableEq, Repr

def forLoop (test : α → Bool) (next : α → α) : Nat → α → Walk α
  | 0, pos => ⟨[], !test pos⟩
  | fuel + 1, pos =>
    if test pos then
      let rest := forLoop test next fuel (next pos)
      ⟨pos :: rest.rounds, rest.ended⟩
    else ⟨[], true⟩

/-- The loop ends after one round for each of these. -/
def Visits (loop : Nat → Walk α) (xs : List α) : Prop :=
  ∀ fuel, loop fuel = ⟨xs.take fuel, decide (xs.length ≤ fuel)⟩

theorem Visits.unique {loop : Nat → Walk α} {ys : List α} (visits : Visits loop xs) (visits' : Visits loop ys) :
    xs = ys := by
  have same := congrArg Walk.rounds ((visits (xs.length + ys.length)).symm.trans (visits' _))
  dsimp only at same
  rwa [List.take_of_length_le (Nat.le_add_right ..),List.take_of_length_le (Nat.le_add_left ..)] at same

/-- From `pos` the loop variable runs through `xs` and comes to `last`. -/
def Path (next : α → α) : α → List α → α → Prop
  | pos, [], last => pos = last
  | pos, x :: xs, last => pos = x ∧ Path next (next x) xs last

theorem Path.map {f : α → β} {next' : β → β} (commutes : ∀ x, next' (f x) = f (next x)) (path : Path next pos xs last) :
    Path next' (f pos) (xs.map f) (f last) := by
  induction xs generalizing pos with
  | nil => exact congrArg f path
  | cons x xs ih =>
    obtain ⟨rfl,rest⟩ := path
    refine ⟨rfl,?_⟩
    rw [commutes]
    exact ih rest

/-- A chain of which each element is computed from the one before. -/
theorem chain_path (chain : (pos :: (xs ++ [last])).IsChain (next · = ·)) : Path next (next pos) xs last := by
  induction xs generalizing pos with
  | nil => exact (List.isChain_cons_cons.mp chain).1
  | cons x xs ih =>
    obtain ⟨step,rest⟩ := List.isChain_cons_cons.mp chain
    exact ⟨step,ih rest⟩

/-- As far as the path passes the test, the loop follows it. -/
theorem forLoop_path (path : Path next pos xs last) (passes : ∀ x ∈ xs, test x = true) (fuel : Nat) :
    forLoop test next (xs.length + fuel) pos =
      ⟨xs ++ (forLoop test next fuel last).rounds, (forLoop test next fuel last).ended⟩ := by
  induction xs generalizing pos with
  | nil =>
    obtain rfl : pos = last := path
    rw [List.length_nil,Nat.zero_add,List.nil_append]
  | cons x xs ih =>
    obtain ⟨rfl,rest⟩ := path
    obtain ⟨first,others⟩ := List.forall_mem_cons.mp passes
    rw [List.length_cons,Nat.add_right_comm,forLoop,if_pos first,ih rest others]
    rfl

/-- The loop visits a path if it passes the test and its end does not. -/
theorem visits_iff (path : Path next pos xs last) :
    Visits (forLoop test next · pos) xs ↔ (∀ x ∈ xs, test x = true) ∧ test last = false := by
  induction xs generalizing pos with
  | nil =>
    obtain rfl : pos = last := path
    constructor
    · intro visits
      have stopped : (!test pos) = true := congrArg Walk.ended (visits 0)
      exact ⟨by simp,by simpa using stopped⟩
    · rintro ⟨_,stop⟩ fuel
      cases fuel <;> simp [forLoop,stop]
  | cons x xs ih =>
    obtain ⟨rfl,rest⟩ := path
    rw [List.forall_mem_cons,and_assoc,← ih rest]
    constructor
    · intro visits
      have passes : test pos = true := by
        by_contra stops
        have started := congrArg Walk.rounds (visits 1)
        simp [forLoop,stops] at started
      refine ⟨passes,fun fuel => ?_⟩
      have later := visits (fuel + 1)
      simp only [forLoop,passes,if_true,List.take_succ_cons,List.length_cons,Nat.add_le_add_iff_right,
        Walk.mk.injEq,List.cons.injEq,true_and] at later
      dsimp only
      rw [← later.1,← later.2]
    · rintro ⟨passes,visits⟩ fuel
      cases fuel with
      | zero => simp [forLoop,passes]
      | succ fuel =>
        have later := visits fuel
        dsimp only at later ⊢
        rw [forLoop,if_pos passes,later]
        simp

end Kernal.Loops
