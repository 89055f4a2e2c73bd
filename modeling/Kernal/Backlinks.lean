import Kernal.Rings

/-! Lists that end in a null pointer and whose nodes point back at the cell that points at them:
the first one at a cell of the head, any other at a cell of its predecessor. A node goes with
the cell that it holds, so that a list is a chain of cells. -/
namespace Kernal.Backlinks

variable {α : Type*}

inductive Cell (α : Type*) where
  | first (head : α)
  | next (node : α)
  deriving DecidableEq, Repr

/-- What the cells hold, null as `none`, and the back links of the nodes. -/
structure Memory (α : Type*) where
  content : Cell α → Option α
  pprev : α → Option (Cell α)

/-- `d` is the cell of a node that `c` points at and that points back. -/
def Follows (m : Memory α) (c d : Cell α) : Prop := ∃ x, d = .next x ∧ m.content c = some x ∧ m.pprev x = some c

def cells (c : Cell α) (xs : List α) : List (Cell α) := c :: xs.map .next

/-- From the cell `c` on come the nodes `xs`, then a null pointer. -/
structure Holds (m : Memory α) (c : Cell α) (xs : List α) : Prop where
  chain : (cells c xs).IsChain (Follows m)
  null : ∀ d ∈ (cells c xs).getLast?, m.content d = none

structure Outside (m m' : Memory α) (part : Cell α → Prop) : Prop where
  content : ∀ c, ¬part c → m'.content c = m.content c
  pprev : ∀ x, ¬part (.next x) → m'.pprev x = m.pprev x

abbrev Lists (α : Type*) := α → Option (List α)

structure Family (m : Memory α) (lists : Lists α) : Prop where
  holds : ∀ {h xs}, lists h = some xs → Holds m (.first h) xs
  once : ∀ {h xs}, lists h = some xs → xs.Nodup
  apart : ∀ {h h' xs ys x}, lists h = some xs → lists h' = some ys → x ∈ xs → x ∈ ys → h = h'

def Absent (lists : Lists α) (x : α) : Prop := ∀ h xs, lists h = some xs → x ∉ xs

/-- No list but those of `g` and `h` has this cell. -/
def Within (lists : Lists α) (g h : α) (c : Cell α) : Prop :=
  ∀ f zs, lists f = some zs → c ∈ cells (.first f) zs → f = g ∨ f = h

variable {m m' : Memory α} {lists : Lists α} {c d : Cell α} {g h n x y : α} {xs ys front back : List α}

theorem Outside.trans {m'' : Memory α} {part : Cell α → Prop} (first : Outside m m' part)
    (second : Outside m' m'' part) : Outside m m'' part :=
  ⟨fun c out => (second.content c out).trans (first.content c out),
    fun x out => (second.pprev x out).trans (first.pprev x out)⟩

section Cells

theorem cells_append (c : Cell α) (front back : List α) :
    cells c (front ++ back) = cells c front ++ back.map .next := by simp [cells]

theorem mem_cells_first : Cell.next x ∈ cells (.first h) xs ↔ x ∈ xs := by simp [cells]

theorem cells_nodup (once : xs.Nodup) : (cells (.first h) xs).Nodup := by
  refine List.nodup_cons.mpr ⟨by simp,once.map fun _ _ same => ?_⟩
  exact Cell.next.inj same

theorem Family.cell_apart (family : Family m lists) (here : lists g = some xs) (there : lists h = some ys)
    (left : c ∈ cells (.first g) xs) (right : c ∈ cells (.first h) ys) : g = h := by
  cases c with
  | first f =>
    simp only [cells,List.mem_cons,Cell.first.injEq,List.mem_map,reduceCtorEq,and_false,exists_false,
      or_false] at left right
    exact left.symm.trans right
  | next x => exact family.apart here there (mem_cells_first.mp left) (mem_cells_first.mp right)

/-- The cell that the nodes `xs` end in. -/
theorem exists_last (c : Cell α) (xs : List α) : ∃ d, (cells c xs).getLast? = some d :=
  Option.isSome_iff_exists.mp (by simp [cells])

end Cells

section Holds

theorem Follows.outside {part : Cell α → Prop} (follows : Follows m c d) (same : Outside m m' part)
    (left : ¬part c) (right : ¬part d) : Follows m' c d := by
  obtain ⟨x,rfl,points,back⟩ := follows
  exact ⟨x,rfl,(same.content c left).trans points,(same.pprev x right).trans back⟩

theorem Holds.outside {part : Cell α → Prop} (holds : Holds m c xs) (same : Outside m m' part)
    (out : ∀ d ∈ cells c xs, ¬part d) : Holds m' c xs := by
  refine ⟨holds.chain.imp_of_mem_imp fun a b ha hb follows => ?_,fun d last => ?_⟩
  · exact follows.outside same (out a ha) (out b hb)
  · exact (same.content d (out d (List.mem_of_getLast? last))).trans (holds.null d last)

theorem holds_nil : Holds m c [] ↔ m.content c = none :=
  ⟨fun holds => holds.null c rfl,fun null => ⟨.singleton c,by rintro _ ⟨⟩; exact null⟩⟩

theorem holds_cons : Holds m c (x :: xs) ↔ (m.content c = some x ∧ m.pprev x = some c) ∧ Holds m (.next x) xs := by
  have chain : (cells c (x :: xs)).IsChain (Follows m) ↔
      Follows m c (.next x) ∧ (cells (.next x) xs).IsChain (Follows m) := List.isChain_cons_cons
  have last : (cells c (x :: xs)).getLast? = (cells (.next x) xs).getLast? := List.getLast?_cons_cons
  constructor
  · rintro ⟨links,null⟩
    obtain ⟨⟨_,⟨⟩,link⟩,rest⟩ := chain.mp links
    exact ⟨link,rest,last ▸ null⟩
  · rintro ⟨link,rest⟩
    exact ⟨chain.mpr ⟨⟨x,rfl,link⟩,rest.chain⟩,last ▸ rest.null⟩

theorem Holds.content (holds : Holds m c xs) : m.content c = xs.head? := by
  cases xs with
  | nil => exact holds_nil.mp holds
  | cons x xs => exact (holds_cons.mp holds).1.1

/-- A list in two parts, with `d` the cell between them. -/
theorem holds_append (front : List α) : {c : Cell α} → (cells c front).getLast? = some d →
    (Holds m c (front ++ back) ↔ (cells c front).IsChain (Follows m) ∧ Holds m d back) := by
  induction front with
  | nil =>
    intro c last
    obtain rfl : c = d := Option.some.inj last
    exact ⟨fun holds => ⟨.singleton c,holds⟩,fun parts => parts.2⟩
  | cons x front ih =>
    intro c last
    have last : (cells (.next x) front).getLast? = some d := List.getLast?_cons_cons.symm.trans last
    rw [List.cons_append,holds_cons,ih last,← and_assoc]
    refine and_congr_left fun _ => ?_
    refine (and_congr_left fun _ => ?_).trans List.isChain_cons_cons.symm
    exact ⟨fun link => ⟨x,rfl,link⟩,by rintro ⟨_,⟨⟩,link⟩; exact link⟩

end Holds

section Within

theorem Family.within (family : Family m lists) (here : lists h = some xs) (own : c ∈ cells (.first h) xs)
    (g : α) : Within lists g h c ∧ Within lists h g c :=
  ⟨fun _ _ there member => .inr (family.cell_apart there here member own),
    fun _ _ there member => .inl (family.cell_apart there here member own)⟩

theorem within_first (lists : Lists α) (g h : α) : Within lists g h (.first h) := by
  intro f zs _ member
  simp only [cells,List.mem_cons,Cell.first.injEq,List.mem_map,reduceCtorEq,and_false,exists_false,
    or_false] at member
  exact .inr member.symm

theorem Absent.within (absent : Absent lists x) (g h : α) : Within lists g h (.next x) :=
  fun f zs there member => absurd (mem_cells_first.mp member) (absent f zs there)

/-- A node in no list may be written at will. -/
theorem Family.outside (family : Family m lists) (outside : Outside m m' (· = .next x)) (absent : Absent lists x) :
    Family m' lists := by
  refine ⟨fun here => (family.holds here).outside outside fun d member same => ?_,family.once,family.apart⟩
  subst same
  exact absent _ _ here (mem_cells_first.mp member)

/-- The parts of a list around a place, and the cell `c` at it. -/
theorem Family.split (family : Family m lists) (here : lists h = some (front ++ back))
    (last : (cells (.first h) front).getLast? = some c) :
    ((cells (.first h) front).IsChain (Follows m) ∧ Holds m c back) ∧
      (cells (.first h) front).Nodup ∧ ∀ x ∈ back, .next x ∉ cells (.first h) front := by
  obtain ⟨once,_,apart⟩ := List.nodup_append.mp (family.once here)
  refine ⟨(holds_append front last).mp (family.holds here),cells_nodup once,fun x member there => ?_⟩
  exact apart x (mem_cells_first.mp there) x member rfl

theorem Holds.head_mem (holds : Holds m c xs) : ∀ x ∈ m.content c, x ∈ xs := by
  rw [holds.content]
  exact fun x member => List.mem_of_head? member

end Within

variable [DecidableEq α]

namespace Memory

def setCell (m : Memory α) (c : Cell α) (v : Option α) : Memory α :=
  { m with content := Function.update m.content c v }

def setPprev (m : Memory α) (x : α) (c : Option (Cell α)) : Memory α :=
  { m with pprev := Function.update m.pprev x c }

def link (m : Memory α) (c : Cell α) (x : α) : Memory α := (m.setCell c (some x)).setPprev x (some c)

/-- `c` points at what may be a node, and the node back. -/
def point (m : Memory α) (c : Cell α) : Option α → Memory α
  | some x => m.link c x
  | none => m.setCell c none

end Memory

section Edits

theorem Outside.setCell {part : Cell α → Prop} (m : Memory α) (inside : part c) (v : Option α) :
    Outside m (m.setCell c v) part := by
  refine ⟨fun d out => ?_,fun _ _ => rfl⟩
  have other : d ≠ c := fun same => out (same ▸ inside)
  exact Function.update_of_ne other _ _

theorem Outside.setPprev {part : Cell α → Prop} (m : Memory α) (inside : part (.next x)) (v : Option (Cell α)) :
    Outside m (m.setPprev x v) part := by
  refine ⟨fun _ _ => rfl,fun y out => ?_⟩
  have other : y ≠ x := fun same => out (same ▸ inside)
  exact Function.update_of_ne other _ _

theorem Outside.link {part : Cell α → Prop} (m : Memory α) (left : part c) (right : part (.next x)) :
    Outside m (m.link c x) part :=
  (Outside.setCell m left (some x)).trans (.setPprev _ right (some c))

theorem Outside.point {part : Cell α → Prop} (m : Memory α) (left : part c) {v : Option α}
    (right : ∀ x ∈ v, part (.next x)) : Outside m (m.point c v) part := by
  cases v with
  | none => exact .setCell m left none
  | some x => exact .link m left (right x rfl)

/-- A chain up to the cell that is set at most, to which the node does not belong. -/
theorem chain_point {v : Option α} {cs : List (Cell α)} (chain : cs.IsChain (Follows m)) (nodup : cs.Nodup)
    (last : c ∈ cs → cs.getLast? = some c) (away : ∀ x ∈ v, .next x ∉ cs) :
    cs.IsChain (Follows (m.point c v)) := by
  refine Rings.chain_inner chain nodup fun a _ follows left right notLast _ => ?_
  obtain ⟨y,rfl,points,back⟩ := follows
  have other : a ≠ c := by
    rintro rfl
    exact notLast (last left)
  cases v with
  | none => exact ⟨y,rfl,(Function.update_of_ne other _ _).trans points,back⟩
  | some x =>
    have apart : y ≠ x := fun same => away x rfl (same ▸ right)
    exact ⟨y,rfl,(Function.update_of_ne other _ _).trans points,(Function.update_of_ne apart _ _).trans back⟩

/-- A cell is put in front of a node and what follows it. -/
theorem holds_link (rest : Holds m (.next x) xs) (once : (cells (.next x) xs).Nodup)
    (away : c ∉ cells (.next x) xs) : Holds (m.link c x) c (x :: xs) := by
  refine holds_cons.mpr ⟨⟨Function.update_self ..,Function.update_self ..⟩,?_,fun d last => ?_⟩
  · refine Rings.chain_inner rest.chain once fun a _ follows left _ _ notFirst => ?_
    obtain ⟨y,rfl,points,back⟩ := follows
    have other : a ≠ c := fun same => away (same ▸ left)
    have apart : y ≠ x := fun same => notFirst (same ▸ rfl)
    exact ⟨y,rfl,(Function.update_of_ne other _ _).trans points,(Function.update_of_ne apart _ _).trans back⟩
  · have other : d ≠ c := fun same => away (same ▸ List.mem_of_getLast? last)
    exact (Function.update_of_ne other _ _).trans (rest.null d last)

/-- Another cell takes over what comes behind `c`. -/
theorem holds_point (holds : Holds m c xs) (once : xs.Nodup) (away : ∀ x ∈ xs, d ≠ .next x) :
    Holds (m.point d (m.content c)) d xs := by
  rw [holds.content]
  cases xs with
  | nil => exact holds_nil.mpr (Function.update_self ..)
  | cons x xs =>
    have nodup : ((x :: xs).map Cell.next).Nodup := once.map fun _ _ same => Cell.next.inj same
    refine holds_link (holds_cons.mp holds).2 nodup fun member => ?_
    have member : d ∈ (x :: xs).map Cell.next := member
    obtain ⟨y,member,same⟩ := List.mem_map.mp member
    exact away y member same.symm

end Edits

section Change

theorem change_cases {f : α} {zs : List α}
    (there : Function.update (Function.update lists g none) h (some ys) f = some zs) :
    (f = h ∧ zs = ys) ∨ (¬(f = g ∨ f = h) ∧ lists f = some zs) := by
  by_cases same : f = h
  · subst same
    rw [Function.update_self] at there
    exact .inl ⟨rfl,(Option.some.inj there).symm⟩
  · rw [Function.update_of_ne same] at there
    by_cases given : f = g
    · subst given
      simp at there
    · rw [Function.update_of_ne given] at there
      exact .inr ⟨by simp [same,given],there⟩

/-- The list of `g` is given up and `h` gets the sequence `ys`. -/
theorem Family.change (family : Family m lists) (outside : Outside m m' (Within lists g h))
    (holds : Holds m' (.first h) ys) (once : ys.Nodup) (inside : ∀ x ∈ ys, Within lists g h (.next x)) :
    Family m' (Function.update (Function.update lists g none) h (some ys)) := by
  constructor
  · intro f zs there
    rcases change_cases there with ⟨rfl,rfl⟩ | ⟨other,old⟩
    · exact holds
    · exact (family.holds old).outside outside fun d member within => other (within f zs old member)
  · intro f zs there
    rcases change_cases there with ⟨rfl,rfl⟩ | ⟨_,old⟩
    · exact once
    · exact family.once old
  · intro f f' zs zs' x there there' left right
    rcases change_cases there with ⟨rfl,rfl⟩ | ⟨other,old⟩
    · rcases change_cases there' with ⟨rfl,_⟩ | ⟨other,old⟩
      · rfl
      · exact absurd (inside x left f' zs' old (mem_cells_first.mpr right)) other
    · rcases change_cases there' with ⟨rfl,rfl⟩ | ⟨_,old'⟩
      · exact absurd (inside x right f zs old (mem_cells_first.mpr left)) other
      · exact family.apart old old' left right

theorem Family.edit (family : Family m lists) (outside : Outside m m' (Within lists h h))
    (holds : Holds m' (.first h) ys) (once : ys.Nodup) (inside : ∀ x ∈ ys, Within lists h h (.next x)) :
    Family m' (Function.update lists h (some ys)) := by
  have changed := family.change outside holds once inside
  rwa [Function.update_idem] at changed

theorem Family.empty (family : Family m lists) (h : α) :
    Family (m.setCell (.first h) none) (Function.update lists h (some [])) :=
  family.edit (.setCell m (within_first lists h h) none) (holds_nil.mpr (Function.update_self ..))
    List.nodup_nil (by simp)

/-- A new node comes behind `front`, where `c` is the cell to point at it. -/
theorem Family.insert (family : Family m lists) (here : lists h = some (front ++ back)) (absent : Absent lists n)
    (last : (cells (.first h) front).getLast? = some c) :
    Family ((m.point (.next n) (m.content c)).link c n)
      (Function.update lists h (some (front ++ n :: back))) := by
  obtain ⟨⟨chain,rest⟩,nodup,apart⟩ := family.split here last
  have fresh := absent h _ here
  have once : (front ++ n :: back).Nodup :=
    List.perm_middle.nodup_iff.mpr (List.nodup_cons.mpr ⟨fresh,family.once here⟩)
  have onceBack : (n :: back).Nodup := (List.nodup_append.mp once).2.1
  have place := List.mem_of_getLast? last
  have out : .next n ∉ cells (.first h) front := fun member =>
    fresh (List.mem_append_left back (mem_cells_first.mp member))
  have holds : Holds ((m.point (.next n) (m.content c)).link c n) (.first h) (front ++ n :: back) := by
    refine (holds_append front last).mpr ⟨?_,?_⟩
    · have first := chain_point chain nodup (fun member => absurd member out)
        fun x member => apart x (rest.head_mem x member)
      exact chain_point (v := some n) first nodup (fun _ => last) (by rintro x ⟨⟩; exact out)
    · have behind : Holds (m.point (.next n) (m.content c)) (.next n) back := by
        refine holds_point rest (List.nodup_cons.mp onceBack).2 fun x member same => ?_
        exact (List.nodup_cons.mp onceBack).1 (Cell.next.inj same ▸ member)
      refine holds_link behind (onceBack.map fun _ _ same => Cell.next.inj same) fun member => ?_
      obtain ⟨x,member,same⟩ : ∃ x ∈ n :: back, Cell.next x = c := List.mem_map.mp member
      rcases List.mem_cons.mp member with rfl | behind
      · exact out (same ▸ place)
      · exact apart x behind (same ▸ place)
  have own {d : Cell α} (member : d ∈ cells (.first h) (front ++ back)) : Within lists h h d :=
    (family.within here member h).1
  have node {x : α} (member : x ∈ front ++ back) : Within lists h h (.next x) :=
    own (mem_cells_first.mpr member)
  have new : Within lists h h (.next n) := absent.within h h
  refine family.edit ?_ holds once fun x member => ?_
  · refine (Outside.point m new fun x member => ?_).trans (.link _ (own ?_) new)
    · exact node (List.mem_append_right front (rest.head_mem x member))
    · rw [cells_append]
      exact List.mem_append_left _ place
  · rcases List.mem_cons.mp (List.perm_middle.mem_iff.mp member) with rfl | old
    · exact new
    · exact node old

/-- The node behind `front` goes, where `c` is the cell that points at it. -/
theorem Family.remove (family : Family m lists) (here : lists h = some (front ++ n :: back))
    (last : (cells (.first h) front).getLast? = some c) :
    m.pprev n = some c ∧ Family (m.point c (m.content (.next n))) (Function.update lists h (some (front ++ back))) ∧
      Absent (Function.update lists h (some (front ++ back))) n := by
  obtain ⟨⟨chain,rest⟩,nodup,apart⟩ := family.split here last
  obtain ⟨link,behind⟩ := holds_cons.mp rest
  have once := family.once here
  obtain ⟨gone,kept⟩ := List.nodup_cons.mp (List.perm_middle.nodup_iff.mp once)
  have place := List.mem_of_getLast? last
  have out {x : α} (member : x ∈ back) : .next x ∉ cells (.first h) front :=
    apart x (List.mem_cons_of_mem n member)
  have own {d : Cell α} (member : d ∈ cells (.first h) (front ++ n :: back)) : Within lists h h d :=
    (family.within here member h).1
  have holds : Holds (m.point c (m.content (.next n))) (.first h) (front ++ back) := by
    refine (holds_append front last).mpr ⟨?_,?_⟩
    · exact chain_point chain nodup (fun _ => last) fun x member => out (behind.head_mem x member)
    · refine holds_point behind (List.nodup_append.mp kept).2.1 fun x member same => ?_
      exact out member (same ▸ place)
  refine ⟨link.2,?_,?_⟩
  · refine family.edit ?_ holds kept fun x member => ?_
    · refine .point m (own ?_) fun x member => own (mem_cells_first.mpr ?_)
      · rw [cells_append]
        exact List.mem_append_left _ place
      · exact List.mem_append_right front (List.mem_cons_of_mem n (behind.head_mem x member))
    · exact own (mem_cells_first.mpr (List.perm_middle.mem_iff.mpr (List.mem_cons_of_mem n member)))
  · intro f zs there
    by_cases same : f = h
    · subst same
      rw [Function.update_self] at there
      rwa [← Option.some.inj there]
    · rw [Function.update_of_ne same] at there
      exact fun member => same (family.apart there here member (by simp))

/-- `g` takes over the list of `h`. What `g` held before is in no list then. -/
theorem Family.move (family : Family m lists) (here : lists h = some xs) (other : h ≠ g) :
    Family ((m.point (.first g) (m.content (.first h))).setCell (.first h) none)
      (Function.update (Function.update lists h (some [])) g (some xs)) := by
  have holds := family.holds here
  have taken : Holds (m.point (.first g) (m.content (.first h))) (.first g) xs :=
    holds_point holds (family.once here) fun _ _ => by simp
  have own {x : α} (member : x ∈ xs) : Within lists h g (.next x) :=
    (family.within here (mem_cells_first.mpr member) g).2
  have moved := family.change (.point m (within_first lists h g) fun x member => own (holds.head_mem x member))
    taken (family.once here) fun x member => own member
  have emptied := moved.empty h
  rwa [Function.update_comm other.symm,Function.update_idem] at emptied

end Change

end Kernal.Backlinks
