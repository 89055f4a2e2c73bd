import Kernal.Backlinks
import Kernal.Runs

/-! The hash lists of `list.h`. `pprev` is read as a pointer to the cell that points at the
node, and `next` is the first field of a node, so that `&n->next` is the address of `n`.
A function that may write through a null pointer returns `none` where it does. -/
namespace Kernal.Hlist

open Backlinks Runs

abbrev Ptr := BitVec 64
abbrev Memory := Backlinks.Memory Ptr
abbrev Lists := Backlinks.Lists Ptr

/-- How `n->pprev->next` in `hlist_add_behind` is read: the pointer `pprev` taken for one to a
node, or the node it designates. -/
inductive Reading where
  | pointer
  | node
  deriving DecidableEq, Repr

section Operations

variable (m : Memory)

/-- `*p = v`. -/
def writeThrough (p : Option (Cell Ptr)) (v : Option Ptr) : Option Memory := p.map fun c => m.setCell c v

def hlistUnhashed (n : Ptr) : Bool := (m.pprev n).isNone

def hlistEmpty (h : Ptr) : Bool := (m.content (.first h)).isNone

def initHlistNode (h : Ptr) : Memory := (m.setCell (.next h) none).setPprev h none

/-- `__hlist_del`. -/
def hlistUnlink (n : Ptr) : Option Memory :=
  let next := m.content (.next n)
  let pprev := m.pprev n
  (writeThrough m pprev next).map fun m =>
    match next with
    | some next => m.setPprev next pprev
    | none => m

def hlistDel (n : Ptr) : Option Memory :=
  if !hlistUnhashed m n then
    (hlistUnlink m n).map fun m => (m.setCell (.next n) (some 0x100)).setPprev n (some (.next 0x200))
  else some m

def hlistDelInit (n : Ptr) : Option Memory :=
  if !hlistUnhashed m n then (hlistUnlink m n).map fun m => initHlistNode m n else some m

def hlistAddHead (n h : Ptr) : Memory :=
  let first := m.content (.first h)
  let m := m.setCell (.next n) first
  let m := match first with
    | some first => m.setPprev first (some (.next n))
    | none => m
  let m := m.setCell (.first h) (some n)
  m.setPprev n (some (.first h))

def hlistAddBefore (n next : Ptr) : Option Memory :=
  let m := m.setCell (.next n) (some next)
  let m := m.setPprev n (m.pprev next)
  (writeThrough m (m.pprev next) (some n)).map fun m => m.setPprev next (some (.next n))

def hlistAddBehind (reading : Reading) (n prev : Ptr) : Option Memory :=
  let m := m.setCell (.next n) (m.content (.next prev))
  let m := m.setCell (.next prev) (some n)
  let m := m.setPprev n (some (.next prev))
  if (m.content (.next n)).isSome then
    match reading with
    | .pointer => writeThrough m (m.pprev n) (some n)
    | .node => (m.pprev n).bind fun c => (m.content c).map fun x => m.setCell (.next x) (some n)
  else some m

def hlistMoveList (old new : Ptr) : Memory :=
  if !hlistEmpty m old then
    let m := m.setCell (.first new) (m.content (.first old))
    let m := match m.content (.first new) with
      | some first => m.setPprev first (some (.first new))
      | none => m
    m.setCell (.first old) none
  else m

end Operations

inductive Op where
  | addHead (n h : Ptr)
  | addBefore (n next : Ptr)
  | addBehind (n prev : Ptr)
  | del (n : Ptr)
  | delInit (n : Ptr)
  | moveList (old new : Ptr)
  deriving DecidableEq, Repr

def Op.exec (reading : Reading) (m : Memory) : Op → Option Memory
  | addHead n h => some (hlistAddHead m n h)
  | addBefore n next => hlistAddBefore m n next
  | addBehind n prev => hlistAddBehind m reading n prev
  | del n => hlistDel m n
  | delInit n => hlistDelInit m n
  | moveList old new => some (hlistMoveList m old new)

/-- What a call is to do to the sequences. A node that is added is in no list; one that is
deleted is in a list or unhashed. -/
inductive Effect (m : Memory) (lists : Lists) : Op → Lists → Prop where
  | addHead : lists h = some xs → Absent lists n →
      Effect m lists (.addHead n h) (Function.update lists h (some (n :: xs)))
  | addBefore : lists h = some (xs ++ next :: ys) → Absent lists n →
      Effect m lists (.addBefore n next) (Function.update lists h (some (xs ++ n :: next :: ys)))
  | addBehind : lists h = some (xs ++ prev :: ys) → Absent lists n →
      Effect m lists (.addBehind n prev) (Function.update lists h (some (xs ++ prev :: n :: ys)))
  | del : lists h = some (xs ++ n :: ys) → Effect m lists (.del n) (Function.update lists h (some (xs ++ ys)))
  | delInit : lists h = some (xs ++ n :: ys) →
      Effect m lists (.delInit n) (Function.update lists h (some (xs ++ ys)))
  | delFresh : Absent lists n → hlistUnhashed m n = true → Effect m lists (.del n) lists
  | delInitFresh : Absent lists n → hlistUnhashed m n = true → Effect m lists (.delInit n) lists
  | moveList : lists old = some xs → old ≠ new →
      Effect m lists (.moveList old new) (Function.update (Function.update lists old (some [])) new (some xs))

/-- Memory, `none` after a write through a null pointer, and the sequences it should hold. -/
structure State where
  memory : Option Memory
  lists : Lists

inductive Step (reading : Reading) : State → Op → State → Prop where
  | call {m : Memory} : Effect m lists op after →
      Step reading ⟨some m, lists⟩ op ⟨op.exec reading m, after⟩

def Consistent (s : State) : Prop := ∃ m, s.memory = some m ∧ Family m s.lists

/-- A node is added behind the last one only, and an empty list is moved onto an empty one
only. -/
def Allowed (s : State) (op : Op) : Prop := ∀ m, s.memory = some m →
  match op with
  | .addBehind _ prev => m.content (.next prev) = none
  | .moveList old new => hlistEmpty m old = true → hlistEmpty m new = true
  | _ => True

section Specifications

variable {m : Memory} {lists : Lists} {xs ys : List Ptr}

theorem hlistAddHead_eq (m : Memory) (n h : Ptr) :
    hlistAddHead m n h = (m.point (.next n) (m.content (.first h))).link (.first h) n := by
  rw [hlistAddHead]
  cases m.content (.first h) <;> rfl

theorem hlistAddBefore_eq (other : n ≠ next) (back : m.pprev next = some c) :
    hlistAddBefore m n next = some ((m.link (.next n) next).link c n) := by
  have kept : ((m.setCell (.next n) (some next)).setPprev n (some c)).pprev next = some c :=
    (Function.update_of_ne other.symm _ _).trans back
  have same : (m.setCell (.next n) (some next)).pprev next = some c := back
  simp only [hlistAddBefore,same,kept,writeThrough,Option.map_some,Option.some.injEq]
  simp only [Memory.link,Memory.setCell,Memory.setPprev,Memory.mk.injEq,true_and]
  exact Function.update_comm other _ _ _

theorem hlistUnlink_eq (back : m.pprev n = some c) :
    hlistUnlink m n = some (m.point c (m.content (.next n))) := by
  rw [hlistUnlink,back]
  cases m.content (.next n) <;> rfl

theorem hlistMoveList_eq (filled : hlistEmpty m old = false) :
    hlistMoveList m old new = (m.point (.first new) (m.content (.first old))).setCell (.first old) none := by
  have self (v : Option Ptr) : (m.setCell (.first new) v).content (.first new) = v := Function.update_self ..
  rw [hlistMoveList,filled]
  cases m.content (.first old) <;> simp [self,Memory.point,Memory.link]

/-- All that `hlist_add_behind` does before it looks at what follows. -/
def addedBehind (m : Memory) (n prev : Ptr) : Memory :=
  (m.setCell (.next n) (m.content (.next prev))).link (.next prev) n

theorem addedBehind_next (other : n ≠ prev) : (addedBehind m n prev).content (.next n) = m.content (.next prev) := by
  have cell : Cell.next n ≠ Cell.next prev := fun same => other (Cell.next.inj same)
  exact (Function.update_of_ne cell _ _).trans (Function.update_self ..)

theorem hlistAddBehind_last (reading : Reading) (other : n ≠ prev) (last : m.content (.next prev) = none) :
    hlistAddBehind m reading n prev = some (addedBehind m n prev) := by
  have stop : (addedBehind m n prev).content (.next n) = none := (addedBehind_next other).trans last
  change (if ((addedBehind m n prev).content (.next n)).isSome then _ else _) = _
  rw [stop]
  rfl

/-- In the middle of a list the last write goes to the cell that points at the new node, or to
the new node's own cell. -/
theorem hlistAddBehind_inner (reading : Reading) (other : n ≠ prev) (next : m.content (.next prev) = some y) :
    hlistAddBehind m reading n prev = some ((addedBehind m n prev).setCell
      (match reading with | .pointer => .next prev | .node => .next n) (some n)) := by
  have more : (addedBehind m n prev).content (.next n) = some y := (addedBehind_next other).trans next
  have own : (addedBehind m n prev).pprev n = some (.next prev) := Function.update_self ..
  have points : (addedBehind m n prev).content (.next prev) = some n := Function.update_self ..
  cases reading with
  | pointer =>
    change (if ((addedBehind m n prev).content (.next n)).isSome then
      writeThrough (addedBehind m n prev) ((addedBehind m n prev).pprev n) (some n) else _) = _
    rw [more,own]
    rfl
  | node =>
    change (if ((addedBehind m n prev).content (.next n)).isSome then
      ((addedBehind m n prev).pprev n).bind fun c =>
        ((addedBehind m n prev).content c).map fun x => (addedBehind m n prev).setCell (.next x) (some n)
      else _) = _
    rw [more,own,Option.bind_some,points]
    rfl

/-- The node behind the new one does not get its back link, or the new node loses it. -/
theorem hlistAddBehind_unlinked (reading : Reading) (other : n ≠ prev) (apart : n ≠ y)
    (next : m.content (.next prev) = some y) (back : m.pprev y = some (.next prev))
    (result : hlistAddBehind m reading n prev = some m') :
    ¬(m'.content (.next n) = some y ∧ m'.pprev y = some (.next n)) := by
  rw [hlistAddBehind_inner reading other next,Option.some.injEq] at result
  subst result
  rintro ⟨content,pprev⟩
  cases reading with
  | pointer =>
    have kept : (addedBehind m n prev).pprev y = some (.next prev) :=
      (Function.update_of_ne apart.symm _ _).trans back
    exact other (Cell.next.inj (Option.some.inj (pprev.symm.trans kept)))
  | node =>
    have self : ((addedBehind m n prev).setCell (.next n) (some n)).content (.next n) = some n :=
      Function.update_self ..
    exact apart (Option.some.inj (self.symm.trans content))

theorem cells_last (c : Cell Ptr) (xs : List Ptr) (x : Ptr) : (cells c (xs ++ [x])).getLast? = some (.next x) := by
  rw [cells_append]
  exact List.getLast?_concat

variable (family : Family m lists)
include family

theorem consistent_addHead (here : lists h = some xs) (absent : Absent lists n) :
    Family (hlistAddHead m n h) (Function.update lists h (some (n :: xs))) := by
  have split : lists h = some ([] ++ xs) := here
  rw [hlistAddHead_eq]
  exact family.insert split absent rfl

theorem consistent_addBefore (here : lists h = some (xs ++ next :: ys)) (absent : Absent lists n) :
    ∃ m', hlistAddBefore m n next = some m' ∧
      Family m' (Function.update lists h (some (xs ++ n :: next :: ys))) := by
  obtain ⟨c,last⟩ := exists_last (.first h) xs
  obtain ⟨⟨_,rest⟩,_⟩ := family.split here last
  have link := (holds_cons.mp rest).1
  have other : n ≠ next := fun same => absent h _ here (by simp [same])
  have inserted := family.insert here absent last
  rw [link.1] at inserted
  exact ⟨_,hlistAddBefore_eq other link.2,inserted⟩

/-- What is behind a node of a list. -/
theorem family_behind (here : lists h = some (xs ++ prev :: ys)) : Holds m (.next prev) ys := by
  have split : lists h = some ((xs ++ [prev]) ++ ys) := by simpa using here
  exact (family.split split (cells_last ..)).1.2

theorem consistent_unlink (here : lists h = some (xs ++ n :: ys)) :
    hlistUnhashed m n = false ∧ ∃ m', hlistUnlink m n = some m' ∧
      Family m' (Function.update lists h (some (xs ++ ys))) ∧ Absent (Function.update lists h (some (xs ++ ys))) n := by
  obtain ⟨c,last⟩ := exists_last (.first h) xs
  obtain ⟨back,removed,absent⟩ := family.remove here last
  exact ⟨by simp [hlistUnhashed,back],_,hlistUnlink_eq back,removed,absent⟩

theorem consistent_addBehind_iff (reading : Reading) (here : lists h = some (xs ++ prev :: ys))
    (absent : Absent lists n) :
    (∃ m', hlistAddBehind m reading n prev = some m' ∧
      Family m' (Function.update lists h (some (xs ++ prev :: n :: ys)))) ↔ m.content (.next prev) = none := by
  have rest := family_behind family here
  have other : n ≠ prev := fun same => absent h _ here (by simp [same])
  constructor
  · rintro ⟨m',result,after⟩
    cases ys with
    | nil => exact rest.content
    | cons y ys =>
      have link := (holds_cons.mp rest).1
      have apart : n ≠ y := fun same => absent h _ here (by simp [same])
      have split : Function.update lists h (some (xs ++ prev :: n :: y :: ys)) h =
          some ((xs ++ [prev]) ++ n :: y :: ys) := by simp
      have new := (holds_cons.mp (family_behind after split)).1
      exact absurd new (hlistAddBehind_unlinked reading other apart link.1 link.2 result)
  · intro last
    have split : lists h = some ((xs ++ [prev]) ++ ys) := by simpa using here
    have inserted := family.insert split absent (cells_last ..)
    refine ⟨_,hlistAddBehind_last reading other last,?_⟩
    rw [List.append_assoc,last] at inserted
    rw [addedBehind,last]
    exact inserted

theorem consistent_moveList_iff (here : lists old = some xs) (other : old ≠ new) :
    Family (hlistMoveList m old new) (Function.update (Function.update lists old (some [])) new (some xs)) ↔
      (hlistEmpty m old = true → hlistEmpty m new = true) := by
  cases empty : hlistEmpty m old with
  | false =>
    rw [hlistMoveList_eq empty]
    simp only [Bool.false_eq_true,false_imp_iff,iff_true]
    exact family.move here other
  | true =>
    have kept : hlistMoveList m old new = m := by simp [hlistMoveList,empty]
    have null : m.content (.first old) = none := Option.isNone_iff_eq_none.mp empty
    have first := (family.holds here).content
    obtain rfl : xs = [] := List.head?_eq_none_iff.mp (first.symm.trans null)
    rw [kept,← here,Function.update_eq_self,here]
    refine ⟨fun after _ => ?_,fun target => ?_⟩
    · have holds := after.holds (Function.update_self ..)
      exact Option.isNone_iff_eq_none.mpr holds.content
    · have null : m.content (.first new) = none := Option.isNone_iff_eq_none.mp (target rfl)
      have same : m.setCell (.first new) none = m := by rw [Memory.setCell,← null,Function.update_eq_self]
      have emptied := family.empty new
      rwa [same] at emptied

end Specifications

/-- Deleting a node that is in a list, whatever is written to it afterwards. -/
theorem consistent_delete {m : Memory} (family : Family m lists) (here : lists h = some (xs ++ n :: ys))
    (v : Option Ptr) (c : Option (Cell Ptr)) :
    hlistUnhashed m n = false ∧
    ∃ m', (hlistUnlink m n).map (fun m => (m.setCell (.next n) v).setPprev n c) = some m' ∧
      Family m' (Function.update lists h (some (xs ++ ys))) := by
  obtain ⟨hashed,m',result,removed,absent⟩ := consistent_unlink family here
  have written : Outside m' ((m'.setCell (.next n) v).setPprev n c) (· = .next n) :=
    (Outside.setCell m' (by rfl) v).trans (.setPprev _ (by rfl) c)
  exact ⟨hashed,_,by rw [result]; rfl,removed.outside written absent⟩

/-- A call keeps the lists consistent exactly where it is allowed. -/
theorem Effect.consistent_iff {m : Memory} (family : Family m lists) (effect : Effect m lists op after)
    (reading : Reading) : Consistent ⟨op.exec reading m, after⟩ ↔ Allowed ⟨some m, lists⟩ op := by
  have always (kept : Consistent ⟨op.exec reading m, after⟩) (free : Allowed ⟨some m, lists⟩ op) :
      Consistent ⟨op.exec reading m, after⟩ ↔ Allowed ⟨some m, lists⟩ op := ⟨fun _ => free,fun _ => kept⟩
  cases effect with
  | addHead here absent => exact always ⟨_,rfl,consistent_addHead family here absent⟩ fun _ _ => trivial
  | addBefore here absent => exact always (consistent_addBefore family here absent) fun _ _ => trivial
  | addBehind here absent =>
    refine (consistent_addBehind_iff family reading here absent).trans ⟨?_,fun allowed => allowed m rfl⟩
    rintro last _ ⟨⟩
    exact last
  | del here =>
    obtain ⟨hashed,deleted⟩ := consistent_delete family here (some 0x100) (some (.next 0x200))
    refine always ?_ fun _ _ => trivial
    simpa only [Consistent,Op.exec,hlistDel,hashed,Bool.not_false,if_true] using deleted
  | delInit here =>
    obtain ⟨hashed,deleted⟩ := consistent_delete family here none none
    refine always ?_ fun _ _ => trivial
    simpa only [Consistent,Op.exec,hlistDelInit,initHlistNode,hashed,Bool.not_false,if_true] using deleted
  | delFresh absent unhashed =>
    refine always ⟨m,?_,family⟩ fun _ _ => trivial
    simp [Op.exec,hlistDel,unhashed]
  | delInitFresh absent unhashed =>
    refine always ⟨m,?_,family⟩ fun _ _ => trivial
    simp [Op.exec,hlistDelInit,unhashed]
  | moveList here other =>
    have moved := consistent_moveList_iff family here other
    constructor
    · rintro ⟨_,⟨⟩,after⟩ _ ⟨⟩
      exact moved.mp after
    · exact fun allowed => ⟨_,rfl,moved.mpr (allowed m rfl)⟩

/-- In any run of calls the lists stay well formed and hold the expected sequences exactly as
long as no node is added behind one that has a successor and no empty list is moved onto one
that is not. -/
theorem hlist_consistent_iff {reading : Reading} {past : List (State × Op)} {s : State}
    (run : Run Consistent (Step reading) past s) : Always Consistent past s ↔ Throughout Allowed past := by
  refine run.always_iff (I := fun _ => True) (fun s start => ⟨trivial,start⟩) (fun _ _ _ _ _ => trivial) ?_
  rintro s op s' _ consistent step
  obtain ⟨m,memory,family⟩ := consistent
  cases step with
  | @call lists _ after m' effect =>
    obtain rfl : m' = m := Option.some.inj memory
    exact effect.consistent_iff family reading

def alone (h : Ptr) (xs : List Ptr) : Lists := Function.update (fun _ => none) h (some xs)

theorem alone_self (h : Ptr) (xs : List Ptr) : alone h xs h = some xs := Function.update_self ..

theorem alone_set (h : Ptr) (xs ys : List Ptr) : Function.update (alone h xs) h (some ys) = alone h ys :=
  Function.update_idem ..

theorem alone_absent (fresh : x ∉ xs) : Absent (alone h xs) x := by
  intro g ys here
  by_cases same : g = h
  · subst same
    rwa [← Option.some.inj ((alone_self g xs).symm.trans here)]
  · simp [alone,same] at here

def blank : Memory := ⟨fun _ => none, fun _ => none⟩

theorem blank_family (h : Ptr) : Family blank (alone h []) := by
  have nothing : Family blank (fun _ => none) := ⟨by simp,by simp,by simp⟩
  have emptied := nothing.empty h
  have same : blank.setCell (.first h) none = blank :=
    congrArg (fun f => (⟨f, blank.pprev⟩ : Memory)) (Function.update_eq_self _ _)
  rwa [same] at emptied

theorem alone_addHead {m : Memory} (family : Family m (alone h xs)) (fresh : n ∉ xs) :
    Family (hlistAddHead m n h) (alone h (n :: xs)) := by
  have added := consistent_addHead family (alone_self h xs) (alone_absent fresh)
  rwa [alone_set] at added

/-- The list of 0x1000 with the nodes 0x10 and 0x20. -/
def twoNodes : Memory := hlistAddHead (hlistAddHead blank 0x20 0x1000) 0x10 0x1000

theorem twoNodes_family : Family twoNodes (alone 0x1000 [0x10, 0x20]) :=
  alone_addHead (alone_addHead (blank_family 0x1000) (by simp)) (by decide)

/-- A call that is not allowed, as a run of its own. -/
theorem run_not_consistent {m : Memory} (family : Family m lists) (effect : Effect m lists op after)
    (reading : Reading) (refused : ¬Allowed ⟨some m, lists⟩ op) :
    ∃ s, Run Consistent (Step reading) [(⟨some m, lists⟩, op)] s ∧ ¬Consistent s := by
  have start : Run Consistent (Step reading) [] ⟨some m, lists⟩ := .start ⟨m,rfl,family⟩
  exact ⟨_,start.next (.call effect),fun kept => refused ((effect.consistent_iff family reading).mp kept)⟩

/-- A node is added behind the first of the two, under either reading, and an empty list is
moved onto them. -/
theorem hlist_not_consistent :
    let apart := twoNodes.setCell (.first 0x2000) none
    let lists := Function.update (alone 0x1000 [0x10, 0x20]) 0x2000 (some [])
    (∃ s, Run Consistent (Step .pointer) [(⟨some twoNodes, alone 0x1000 [0x10, 0x20]⟩, .addBehind 0x30 0x10)] s ∧
      ¬Consistent s) ∧
    (∃ s, Run Consistent (Step .node) [(⟨some twoNodes, alone 0x1000 [0x10, 0x20]⟩, .addBehind 0x30 0x10)] s ∧
      ¬Consistent s) ∧
    ∃ s, Run Consistent (Step .pointer) [(⟨some apart, lists⟩, .moveList 0x2000 0x1000)] s ∧ ¬Consistent s := by
  intro apart lists
  have split : alone 0x1000 [0x10, 0x20] 0x1000 = some ([] ++ 0x10 :: [0x20]) := alone_self ..
  have added := Effect.addBehind (m := twoNodes) split (alone_absent (x := 0x30) (by decide))
  have behind : ¬Allowed ⟨some twoNodes, alone 0x1000 [0x10, 0x20]⟩ (.addBehind 0x30 0x10) :=
    fun allowed => absurd (allowed twoNodes rfl) (by decide)
  have empty : lists 0x2000 = some [] := Function.update_self ..
  have moved := Effect.moveList (m := apart) empty (show 0x2000 ≠ 0x1000 by decide)
  have onto : ¬Allowed ⟨some apart, lists⟩ (.moveList 0x2000 0x1000) :=
    fun allowed => absurd (allowed apart rfl) (by decide)
  exact ⟨run_not_consistent twoNodes_family added .pointer behind,
    run_not_consistent twoNodes_family added .node behind,
    run_not_consistent (twoNodes_family.empty 0x2000) moved .pointer onto⟩

/-- A node is added behind the second one and the first is deleted. -/
theorem hlist_consistent_two :
    ∃ past s, Run Consistent (Step .pointer) past s ∧ past.map (·.2) = [.addBehind 0x30 0x20, .del 0x10] ∧
      s.lists = alone 0x1000 [0x20, 0x30] ∧ Always Consistent past s := by
  have added : Effect twoNodes (alone 0x1000 [0x10, 0x20]) (.addBehind 0x30 0x20)
      (alone 0x1000 [0x10, 0x20, 0x30]) := by
    have split : alone 0x1000 [0x10, 0x20] 0x1000 = some ([0x10] ++ 0x20 :: []) := alone_self ..
    have effect := Effect.addBehind (m := twoNodes) split (alone_absent (x := 0x30) (by decide))
    rwa [alone_set] at effect
  obtain ⟨m,result⟩ : ∃ m, hlistAddBehind twoNodes .pointer 0x30 0x20 = some m := ⟨_,rfl⟩
  have deleted : Effect m (alone 0x1000 [0x10, 0x20, 0x30]) (.del 0x10) (alone 0x1000 [0x20, 0x30]) := by
    have split : alone 0x1000 [0x10, 0x20, 0x30] 0x1000 = some ([] ++ 0x10 :: [0x20, 0x30]) := alone_self ..
    have effect := Effect.del (m := m) split
    rwa [alone_set] at effect
  have start : Run Consistent (Step .pointer) [] ⟨some twoNodes, alone 0x1000 [0x10, 0x20]⟩ :=
    .start ⟨_,rfl,twoNodes_family⟩
  have first := start.next (.call added)
  rw [Op.exec,result] at first
  have run := first.next (.call deleted)
  refine ⟨_,_,run,rfl,rfl,(hlist_consistent_iff run).mpr ?_⟩
  rintro e member
  simp only [List.nil_append,List.cons_append,List.mem_cons,List.not_mem_nil,or_false] at member
  rcases member with rfl | rfl
  · rintro _ ⟨⟩
    rfl
  · exact fun _ _ => trivial

end Kernal.Hlist
