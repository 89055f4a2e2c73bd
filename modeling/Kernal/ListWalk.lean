import Kernal.ListHead
import Mathlib.Algebra.Group.Nat.Defs
import Mathlib.Data.Fintype.Card

/-! Loops over the lists of `list.h`. A loop gets a number of rounds it may take, so that its
end is something to prove. `list_reverse` is read with a loop that stores `pos->next` in `temp`
before each round: every round takes the node under the cursor to the front. -/
namespace Kernal.ListHead

open Rings

/-- `list_for_each` with a body that may return from the function around it. -/
def listForEach (m : Memory) (head : Ptr) (body : σ → Ptr → Except ρ σ) :
    Nat → Ptr → σ → Option (Except ρ σ)
  | 0, pos, s => if pos = head then some (.ok s) else none
  | fuel + 1, pos, s =>
    if pos = head then some (.ok s)
    else match body s pos with
      | .error r => some (.error r)
      | .ok s => listForEach m head body fuel (m.next pos) s

def listCountNodes (m : Memory) (head : Ptr) (fuel : Nat) : Option (BitVec 64) :=
  (listForEach m head (fun count _ => .ok (count + 1)) fuel (m.next head) 0).map
    fun result => match result with
      | .error (early : BitVec 64) => early
      | .ok count => count

def listContains (m : Memory) (head node : Ptr) (fuel : Nat) : Option Bool :=
  (listForEach m head (fun (_ : Unit) pos => if pos = node then .error true else .ok ()) fuel
    (m.next head) ()).map
    fun result => match result with
      | .error found => found
      | .ok _ => false

/-- `none` inside is the null pointer of an index out of bounds. -/
def listGetNth (m : Memory) (head : Ptr) (n : BitVec 64) (fuel : Nat) : Option (Option Ptr) :=
  (listForEach m head (fun i pos => if i = n then .error pos else .ok (i + 1)) fuel (m.next head) 0).map
    fun result => match result with
      | .error pos => some pos
      | .ok _ => none

/-- The loop of `list_reverse` with the number of rounds so far. -/
def reverseLoop (head : Ptr) : Nat → Memory → Ptr → Nat → Option (Memory × Nat)
  | 0, m, pos, rounds => if pos = head then some (m, rounds) else none
  | fuel + 1, m, pos, rounds =>
    if pos = head then some (m, rounds)
    else
      let temp := m.next pos
      reverseLoop head fuel (listMove m pos head) temp (rounds + 1)

def listReverse (m : Memory) (head : Ptr) (fuel : Nat) : Option (Memory × Nat) :=
  reverseLoop head fuel m (m.next head) 0

/-- There are no more nodes than addresses. -/
theorem nodup_length {xs : List Ptr} (once : xs.Nodup) : xs.length ≤ 2^64 := by
  have fins : (xs.map BitVec.toFin).Nodup := once.map fun _ _ => BitVec.eq_of_toFin_eq
  simpa using fins.length_le_card

section Walk

variable {m : Memory} {lists : Lists}

theorem listForEach_eq (family : Family m lists) (body : σ → Ptr → Except ρ σ) (rest : List Ptr) :
    {front : List Ptr} → {pos : Ptr} → {fuel : Nat} → (s : σ) → lists head = some (front ++ rest) →
    (rest ++ [head]).head? = some pos → rest.length ≤ fuel →
    listForEach m head body fuel pos s = some (rest.foldlM body s) := by
  induction rest with
  | nil =>
    intro front pos fuel s _ cursor _
    obtain rfl : head = pos := Option.some.inj cursor
    cases fuel <;> simp [listForEach] <;> rfl
  | cons x rest ih =>
    intro front pos fuel s here cursor enough
    obtain rfl : x = pos := Option.some.inj cursor
    obtain ⟨other,next⟩ := family.cursor here
    obtain ⟨fuel,rfl⟩ := Nat.exists_eq_succ_of_ne_zero (Nat.ne_zero_of_lt enough)
    have split : lists head = some ((front ++ [x]) ++ rest) := by simpa using here
    rw [listForEach,if_neg other,List.foldlM_cons]
    cases result : body s x with
    | error r => rfl
    | ok s => exact ih s split next (Nat.le_of_succ_le_succ enough)

variable (family : Family m lists) (here : lists head = some xs) {fuel : Nat} (enough : xs.length ≤ fuel)
include family here enough

theorem listForEach_all (body : σ → Ptr → Except ρ σ) (s : σ) :
    listForEach m head body fuel (m.next head) s = some (xs.foldlM body s) := by
  have split : lists head = some ([] ++ xs) := here
  exact listForEach_eq family body xs s split (family.circle here).next enough

theorem listCountNodes_eq : listCountNodes m head fuel = some (BitVec.ofNat 64 xs.length) := by
  have counted (count : BitVec 64) : xs.foldlM (fun c _ => Except.ok (ε := BitVec 64) (c + 1)) count =
      .ok (count + BitVec.ofNat 64 xs.length) := by
    clear here enough
    induction xs generalizing count with
    | nil => exact congrArg Except.ok (BitVec.add_zero count).symm
    | cons x xs ih =>
      refine (ih (count + 1)).trans (congrArg Except.ok ?_)
      rw [List.length_cons]
      bv_omega
  rw [listCountNodes,listForEach_all family here enough,counted]
  simp

theorem listContains_eq (node : Ptr) : listContains m head node fuel = some (decide (node ∈ xs)) := by
  have found : xs.foldlM (fun (_ : Unit) pos => if pos = node then Except.error true else .ok ()) () =
      if node ∈ xs then .error true else .ok () := by
    clear here enough
    induction xs with
    | nil => rfl
    | cons x xs ih =>
      rw [List.foldlM_cons]
      by_cases same : x = node
      · rw [if_pos same,if_pos (by simp [same])]
        rfl
      · rw [if_neg same]
        refine ih.trans ?_
        simp [Ne.symm same]
  rw [listContains,listForEach_all family here enough,found]
  by_cases member : node ∈ xs <;> simp [member]

theorem listGetNth_eq (n : BitVec 64) : listGetNth m head n fuel = some (xs[n.toNat]?) := by
  have found (i : BitVec 64) (before : i.toNat ≤ n.toNat) (room : i.toNat + xs.length < 2^64) :
      xs.foldlM (fun i pos => if i = n then Except.error pos else .ok (i + 1)) i =
        match xs[n.toNat - i.toNat]? with
        | some pos => .error pos
        | none => .ok (i + BitVec.ofNat 64 xs.length) := by
    clear here enough
    induction xs generalizing i with
    | nil => exact congrArg Except.ok (BitVec.add_zero i).symm
    | cons x xs ih =>
      rw [List.length_cons] at room
      rw [List.foldlM_cons]
      by_cases same : i = n
      · rw [if_pos same,same,Nat.sub_self]
        rfl
      · have later : (i + 1).toNat = i.toNat + 1 := by bv_omega
        have other : i.toNat ≠ n.toNat := fun eq => same (BitVec.eq_of_toNat_eq eq)
        have behind : n.toNat - i.toNat = (n.toNat - (i + 1).toNat) + 1 := by omega
        rw [if_neg same,behind,List.getElem?_cons_succ]
        refine (ih (i + 1) (by omega) (by omega)).trans ?_
        have step : i + 1 + BitVec.ofNat 64 xs.length = i + BitVec.ofNat 64 (x :: xs).length := by
          rw [List.length_cons]
          bv_omega
        rw [step]
  have room : xs.length < 2^64 := nodup_length (family.once here)
  rw [listGetNth,listForEach_all family here enough,found 0 (by simp) (by simpa using room)]
  cases place : xs[n.toNat]? <;> simp [place]

end Walk

/-- The nodes up to `pos` are reversed, the rest is still to come. -/
theorem reverseLoop_eq (rest : List Ptr) : {m : Memory} → {lists : Lists} → {front : List Ptr} → {pos : Ptr} →
    Family m lists → lists head = some (front ++ rest) → (rest ++ [head]).head? = some pos →
    ∃ m', Family m' (Function.update lists head (some (rest.reverse ++ front))) ∧
      ∀ fuel rounds, reverseLoop head fuel m pos rounds =
        if rest.length ≤ fuel then some (m', rounds + rest.length) else none := by
  induction rest with
  | nil =>
    intro m lists front pos family here cursor
    obtain rfl : head = pos := Option.some.inj cursor
    refine ⟨m,?_,fun fuel rounds => by cases fuel <;> simp [reverseLoop]⟩
    rw [List.append_nil] at here
    rw [List.reverse_nil,List.nil_append,← here,Function.update_eq_self]
    exact family
  | cons x rest ih =>
    intro m lists front pos family here cursor
    obtain rfl : x = pos := Option.some.inj cursor
    obtain ⟨other,next⟩ := family.cursor here
    have moved := family_listMove family here (Function.update_self ..)
    rw [Function.update_idem] at moved
    have start : Function.update lists head (some (x :: (front ++ rest))) head = some ((x :: front) ++ rest) :=
      Function.update_self ..
    obtain ⟨m',family',loop⟩ := ih moved start next
    rw [Function.update_idem] at family'
    refine ⟨m',by simpa using family',fun fuel rounds => ?_⟩
    cases fuel with
    | zero => simp [reverseLoop,other]
    | succ fuel =>
      rw [reverseLoop,if_neg other,loop]
      simp only [List.length_cons,Nat.add_le_add_iff_right,Nat.add_assoc,Nat.add_comm 1]

/-- `list_reverse` ends after as many rounds as there are nodes, reverses the list and leaves
all others as they are. -/
theorem listReverse_reverses {m : Memory} {lists : Lists} {head : Ptr} {xs : List Ptr}
    (family : Family m lists) (here : lists head = some xs) :
    ∃ m', Family m' (Function.update lists head (some xs.reverse)) ∧
      ∀ fuel, listReverse m head fuel = if xs.length ≤ fuel then some (m', xs.length) else none := by
  have split : lists head = some ([] ++ xs) := here
  obtain ⟨m',family',loop⟩ := reverseLoop_eq xs family split (family.circle here).next
  refine ⟨m',by simpa using family',fun fuel => ?_⟩
  rw [listReverse,loop,Nat.zero_add]

/-- A list of two nodes. -/
theorem listReverse_reverses_two :
    let m := listAddTail (listAddTail (initListHead ⟨fun _ => 0, fun _ => 0⟩ 0x1000) 0x10 0x1000) 0x20 0x1000
    let after := (listReverse m 0x1000 5).map fun result => (result.1.next 0x1000, result.1.prev 0x1000, result.2)
    after = some (0x20, 0x10, 2) ∧
    ∃ m', Family m' (only 0x1000 [0x20, 0x10]) ∧ listReverse m 0x1000 2 = some (m', 2) := by
  intro m after
  have fresh : (0x10 : Ptr) ∉ [0x1000] := by decide
  have one := only_listAddTail (initListHead_family ⟨fun _ => 0, fun _ => 0⟩ 0x1000) fresh
  have two : Family m (only 0x1000 [0x10, 0x20]) := only_listAddTail one (by decide)
  obtain ⟨m',family',loop⟩ := listReverse_reverses two (only_self ..)
  rw [only_set] at family'
  exact ⟨rfl,m',family',loop 2⟩

end Kernal.ListHead
