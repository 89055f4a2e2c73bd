import Mathlib.Data.Set.Lattice
import Mathlib.Order.CompletePartialOrder

/-! An allocator seen from outside: what is free, and the parts that have been handed out.
Nothing is said about how it finds a part. -/
namespace Kernal.Owners

structure Pool (α : Type) where
  free : Set α
  held : List (Set α)

variable {α : Type}

def Pool.out (p : Pool α) : Set α := {x | ∃ b ∈ p.held, x ∈ b}

/-- Nothing is handed out twice, and nothing handed out is free. -/
structure Apart (p : Pool α) : Prop where
  parts : p.held.Pairwise Disjoint
  free : ∀ b ∈ p.held, Disjoint b p.free

/-- A part is taken out of what is free or given back, or something new becomes free; whose
part it is does not matter. The first argument is what is new. -/
inductive Step : Set α → Pool α → Pool α → Prop where
  | take {free b : Set α} {held : List (Set α)} : b ⊆ free → Step ∅ ⟨free, held⟩ ⟨free \ b, b :: held⟩
  | give {free b : Set α} {held held' : List (Set α)} : held.Perm (b :: held') →
      Step ∅ ⟨free, held⟩ ⟨free ∪ b, held'⟩
  | grow {free b : Set α} {held : List (Set α)} : Disjoint b free → (∀ c ∈ held, Disjoint b c) →
      Step b ⟨free, held⟩ ⟨free ∪ b, held⟩
  | permute {free : Set α} {held held' : List (Set α)} : held.Perm held' → Step ∅ ⟨free, held⟩ ⟨free, held'⟩
  | stay {p : Pool α} : Step ∅ p p

theorem Step.apart {new : Set α} {p q : Pool α} (step : Step new p q) (apart : Apart p) : Apart q := by
  obtain ⟨parts,free⟩ := apart
  cases step with
  | take inside =>
    refine ⟨List.pairwise_cons.mpr ⟨fun c mem => ?_,parts⟩,fun c mem => ?_⟩
    · exact ((free c mem).mono_right inside).symm
    · rcases List.mem_cons.mp mem with rfl | mem
      · exact Set.disjoint_sdiff_right
      · exact (free c mem).mono_right Set.sdiff_subset
  | give perm =>
    have rest := (perm.pairwise_iff fun {_ _} h => Disjoint.symm h).mp parts
    obtain ⟨own,others⟩ := List.pairwise_cons.mp rest
    refine ⟨others,fun c mem => Set.disjoint_union_right.mpr ⟨?_,(own c mem).symm⟩⟩
    exact free c (perm.mem_iff.mpr (List.mem_cons_of_mem _ mem))
  | grow outside apart =>
    exact ⟨parts,fun c mem => Set.disjoint_union_right.mpr ⟨free c mem,(apart c mem).symm⟩⟩
  | permute perm =>
    refine ⟨(perm.pairwise_iff fun {_ _} h => Disjoint.symm h).mp parts,fun c mem => ?_⟩
    exact free c (perm.mem_iff.mpr mem)
  | stay => exact ⟨parts,free⟩

/-- Nothing is lost, and only what is new is added. -/
theorem Step.total {new : Set α} {p q : Pool α} (step : Step new p q) :
    q.free ∪ q.out = p.free ∪ p.out ∪ new := by
  ext x
  cases step with
  | @take free b held inside =>
    have inside := @inside x
    simp only [Pool.out,Set.mem_union,Set.mem_sdiff,Set.mem_ofPred_eq,List.mem_cons,exists_eq_or_imp,
      Set.mem_empty_iff_false,or_false]
    tauto
  | give perm =>
    simp only [Pool.out,Set.mem_union,Set.mem_ofPred_eq,perm.mem_iff,List.mem_cons,exists_eq_or_imp,
      Set.mem_empty_iff_false,or_false]
    exact or_assoc
  | grow =>
    simp only [Set.mem_union]
    tauto
  | permute perm =>
    simp only [Pool.out,Set.mem_union,Set.mem_ofPred_eq,perm.mem_iff,Set.mem_empty_iff_false,or_false]
  | stay => simp only [Set.mem_union,Set.mem_empty_iff_false,or_false]

end Kernal.Owners
