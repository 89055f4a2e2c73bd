import Mathlib.Data.List.Chain
import Mathlib.Data.List.Nodup
import Mathlib.Logic.Function.Basic

/-! Circular doubly linked lists. A circle is a sequence in which each node and the one after
it point at each other, the last and the first included; where it is cut open does not matter.
All edits are made of one step, `join`, that puts one node right behind another. -/
namespace Kernal.Rings

variable {α : Type*}

structure Links (α : Type*) where
  next : α → α
  prev : α → α

def Linked (m : Links α) (a b : α) : Prop := m.next a = b ∧ m.prev b = a

structure Circle (m : Links α) (c : List α) : Prop where
  chain : c.IsChain (Linked m)
  closed : ∀ l ∈ c.getLast?, ∀ f ∈ c.head?, Linked m l f

theorem Circle.rotate (circle : Circle m (a ++ b)) : Circle m (b ++ a) := by
  by_cases left : a = []
  · simpa [left] using circle
  by_cases right : b = []
  · simpa [right] using circle
  obtain ⟨front,back,seam⟩ := List.isChain_append.mp circle.chain
  have closed := circle.closed
  rw [List.getLast?_append_of_ne_nil a right,List.head?_append_of_ne_nil a left] at closed
  refine ⟨List.isChain_append.mpr ⟨back,front,closed⟩,?_⟩
  rwa [List.getLast?_append_of_ne_nil b left,List.head?_append_of_ne_nil b right]

theorem Circle.next (circle : Circle m (x :: rest)) : (rest ++ [x]).head? = some (m.next x) := by
  cases rest with
  | nil => exact congrArg some (circle.closed x rfl x rfl).1.symm
  | cons y rest => exact congrArg some (List.isChain_cons_cons.mp circle.chain).1.1.symm

theorem Circle.prev (circle : Circle m (x :: rest)) : (x :: rest).getLast? = some (m.prev x) := by
  obtain ⟨l,last⟩ : ∃ l, (x :: rest).getLast? = some l := Option.isSome_iff_exists.mp (by simp)
  rw [last,(circle.closed l last x rfl).2]

/-- What a node of a larger circle points at. -/
theorem Circle.neighbours (circle : Circle m (x :: rest)) (filled : rest ≠ []) :
    rest.head? = some (m.next x) ∧ rest.getLast? = some (m.prev x) := by
  rw [← circle.next,← circle.prev,List.head?_append_of_ne_nil rest filled]
  obtain ⟨y,rest,rfl⟩ := List.exists_cons_of_ne_nil filled
  exact ⟨rfl,List.getLast?_cons_cons.symm⟩

/-- The links read the other way around. -/
def Links.mirror (m : Links α) : Links α := ⟨m.prev, m.next⟩

theorem Circle.mirror (circle : Circle m (x :: rest)) : Circle m.mirror (x :: rest.reverse) := by
  have turned : Circle m (rest ++ [x]) := Circle.rotate (a := [x]) circle
  rw [← List.reverse_concat]
  refine ⟨List.isChain_reverse.mpr (turned.chain.imp fun _ _ linked => ⟨linked.2,linked.1⟩),?_⟩
  intro l last f first
  rw [List.getLast?_reverse] at last
  rw [List.head?_reverse] at first
  have linked := turned.closed f first l last
  exact ⟨linked.2,linked.1⟩

variable {m m' : Links α} {a b p n x h : α} {c xs : List α} {lists : α → Option (List α)}

/-- A link of a chain leads neither out of its end nor to its beginning. -/
theorem chain_inner {R S : α → α → Prop} (chain : xs.IsChain R) (nodup : xs.Nodup)
    (keep : ∀ a b, R a b → a ∈ xs → b ∈ xs → xs.getLast? ≠ some a → xs.head? ≠ some b → S a b) :
    xs.IsChain S := by
  rw [List.isChain_iff_forall_rel_of_append_cons_cons] at chain ⊢
  intro a b front back split
  refine keep a b (chain split) (by simp [split]) (by simp [split]) (fun last => ?_) fun first => ?_
  · rw [split,List.getLast?_append_cons,List.getLast?_cons_cons] at last
    have again := List.mem_of_getLast? last
    rw [split] at nodup
    exact (List.nodup_cons.mp (List.nodup_append.mp nodup).2.1).1 again
  · rw [split] at first nodup
    cases front with
    | nil =>
      obtain rfl : a = b := Option.some.inj first
      simp at nodup
    | cons f front =>
      obtain rfl : f = b := Option.some.inj first
      simp at nodup

def Outside (m m' : Links α) (part : α → Prop) : Prop :=
  ∀ x, ¬part x → m'.next x = m.next x ∧ m'.prev x = m.prev x

theorem Outside.trans {m'' : Links α} {part : α → Prop} (first : Outside m m' part)
    (second : Outside m' m'' part) : Outside m m'' part := fun x out =>
  ⟨(second x out).1.trans (first x out).1,(second x out).2.trans (first x out).2⟩

theorem Linked.congr (linked : Linked m a b) (next : m'.next a = m.next a)
    (prev : m'.prev b = m.prev b) : Linked m' a b := ⟨next.trans linked.1,prev.trans linked.2⟩

theorem Circle.outside {part : α → Prop} (circle : Circle m c)
    (same : Outside m m' part) (out : ∀ x ∈ c, ¬part x) : Circle m' c := by
  have link {a b : α} (ha : a ∈ c) (hb : b ∈ c) (linked : Linked m a b) : Linked m' a b :=
    linked.congr (same a (out a ha)).1 (same b (out b hb)).2
  refine ⟨circle.chain.imp_of_mem_imp fun a b ha hb => link ha hb,fun l last f first => ?_⟩
  exact link (List.mem_of_getLast? last) (List.mem_of_head? first) (circle.closed l last f first)

/-- Circles without common nodes, each given by its head and the nodes behind it. -/
structure Family (m : Links α) (lists : α → Option (List α)) : Prop where
  circle : ∀ {h xs}, lists h = some xs → Circle m (h :: xs)
  once : ∀ {h xs}, lists h = some xs → (h :: xs).Nodup
  apart : ∀ {h h' xs ys x}, lists h = some xs → lists h' = some ys → x ∈ h :: xs → x ∈ h' :: ys → h = h'

/-- The node is in no list, but for one that it heads. -/
def Loose (lists : α → Option (List α)) (x : α) : Prop := ∀ {h xs}, lists h = some xs → x ∈ h :: xs → h = x

/-- The node is in no list, but for an empty one of its own. -/
structure Free (lists : α → Option (List α)) (x : α) : Prop where
  loose : Loose lists x
  empty : ∀ {xs}, lists x = some xs → xs = []

def Absent (lists : α → Option (List α)) (x : α) : Prop := ∀ {h xs}, lists h = some xs → x ∉ h :: xs

theorem Absent.free (absent : Absent lists x) : Free lists x :=
  ⟨fun here member => absurd member (absent here),fun here => absurd List.mem_cons_self (absent here)⟩

def Own (lists : α → Option (List α)) (a x : α) : Prop := x = a ∨ ∃ xs, lists a = some xs ∧ x ∈ xs

theorem Family.loose (family : Family m lists) (here : lists h = some xs) : Loose lists h :=
  fun there member => family.apart there here member List.mem_cons_self

theorem Own.list (here : lists h = some xs) (member : x ∈ h :: xs) : Own lists h x := by
  rcases List.mem_cons.mp member with same | behind
  · exact .inl same
  · exact .inr ⟨xs,here,behind⟩

theorem Family.not_own (family : Family m lists) (loose : Loose lists a) {g : α} {zs : List α}
    (there : lists g = some zs) (other : g ≠ a) (member : x ∈ g :: zs) : ¬Own lists a x := by
  rintro (rfl | ⟨xs,here,behind⟩)
  · exact other (loose there member)
  · exact other (family.apart there here member (List.mem_cons_of_mem _ behind))

theorem perm_around (front back : List α) (h : α) : (back ++ h :: front).Perm (h :: (front ++ back)) := by
  rw [← List.cons_append]
  exact List.perm_append_comm

/-- The chain from behind a place in the list all around to that place. -/
theorem Family.around {front back : List α} (family : Family m lists) (here : lists h = some (front ++ back)) :
    Circle m (back ++ h :: front) ∧ (back ++ h :: front).Nodup := by
  have circle := family.circle here
  rw [← List.cons_append] at circle
  exact ⟨circle.rotate,(perm_around front back h).nodup_iff.mpr (family.once here)⟩

theorem head_around (front back : List α) (h : α) :
    (back ++ h :: front).head? = (back ++ [h]).head? := by
  cases back <;> rfl

theorem last_around (front back : List α) (h : α) :
    (back ++ h :: front).getLast? = (h :: front).getLast? :=
  List.getLast?_append_of_ne_nil back (List.cons_ne_nil h front)

/-- What comes behind a node of a list. -/
theorem Family.cursor {front rest : List α} (family : Family m lists) (here : lists h = some (front ++ x :: rest)) :
    x ≠ h ∧ (rest ++ [h]).head? = some (m.next x) := by
  obtain ⟨circle,once⟩ := family.around here
  have circle : Circle m (x :: (rest ++ h :: front)) := circle
  refine ⟨fun same => ?_,?_⟩
  · have fresh : x ∉ rest ++ h :: front := (List.nodup_cons.mp once).1
    exact fresh (by simp [same])
  · rw [← head_around front]
    exact (circle.neighbours (by simp)).1

theorem Own.around {front back : List α} (here : lists h = some (front ++ back))
    (member : x ∈ back ++ h :: front) : Own lists h x :=
  .list here ((perm_around front back h).mem_iff.mp member)

theorem Family.outside (family : Family m lists) (outside : Outside m m' (· = x)) (absent : Absent lists x) :
    Family m' lists := by
  refine ⟨fun here => (family.circle here).outside outside fun y member same => ?_,family.once,family.apart⟩
  exact absent here (same ▸ member)

variable [DecidableEq α]

namespace Links

def setNext (m : Links α) (a b : α) : Links α := { m with next := Function.update m.next a b }

def setPrev (m : Links α) (a b : α) : Links α := { m with prev := Function.update m.prev a b }

def join (m : Links α) (a b : α) : Links α := (m.setNext a b).setPrev b a

end Links

theorem Outside.setNext {part : α → Prop} (m : Links α) (inside : part a) (b : α) :
    Outside m (m.setNext a b) part := by
  intro x out
  have other : x ≠ a := fun same => out (same ▸ inside)
  exact ⟨Function.update_of_ne other _ _,rfl⟩

theorem Outside.setPrev {part : α → Prop} (m : Links α) (inside : part a) (b : α) :
    Outside m (m.setPrev a b) part := by
  intro x out
  have other : x ≠ a := fun same => out (same ▸ inside)
  exact ⟨rfl,Function.update_of_ne other _ _⟩

theorem Outside.join {part : α → Prop} (m : Links α) (left : part a) (right : part b) :
    Outside m (m.join a b) part :=
  (Outside.setNext m left b).trans (.setPrev _ right a)

theorem linked_join (m : Links α) (a b : α) : Linked (m.join a b) a b :=
  ⟨Function.update_self ..,Function.update_self ..⟩

theorem Linked.join (linked : Linked m a b) (left : a ≠ p) (right : b ≠ n) : Linked (m.join p n) a b :=
  linked.congr (Function.update_of_ne left _ _) (Function.update_of_ne right _ _)

/-- A chain survives when what is joined is its end or its beginning at most. -/
theorem chain_join (chain : xs.IsChain (Linked m)) (nodup : xs.Nodup)
    (left : p ∈ xs → xs.getLast? = some p) (right : n ∈ xs → xs.head? = some n) :
    xs.IsChain (Linked (m.join p n)) := by
  refine chain_inner chain nodup fun a b linked ha hb notLast notFirst => linked.join ?_ ?_
  · rintro rfl
    exact notLast (left ha)
  · rintro rfl
    exact notFirst (right hb)

/-- Joining the ends closes a chain. -/
theorem circle_of_chain (chain : xs.IsChain (Linked m)) (nodup : xs.Nodup) (first : xs.head? = some n)
    (last : xs.getLast? = some p) : Circle (m.join p n) xs := by
  refine ⟨chain_join chain nodup (fun _ => last) (fun _ => first),fun l last' f first' => ?_⟩
  obtain rfl : p = l := Option.some.inj (last.symm.trans last')
  obtain rfl : n = f := Option.some.inj (first.symm.trans first')
  exact linked_join m p n

/-- Joining the ends of two chains crosswise makes one circle of them. -/
theorem circle_of_chains {ys : List α} {f l : α} (left : xs.IsChain (Linked m)) (right : ys.IsChain (Linked m))
    (nodup : (xs ++ ys).Nodup) (first : xs.head? = some f) (last : xs.getLast? = some l)
    (next : ys.head? = some n) (prev : ys.getLast? = some p) :
    Circle ((m.join p f).join l n) (xs ++ ys) := by
  obtain ⟨once,once',apart⟩ := List.nodup_append.mp nodup
  have hf := List.mem_of_head? first
  have hl := List.mem_of_getLast? last
  have hn := List.mem_of_head? next
  have hp := List.mem_of_getLast? prev
  have front : xs.IsChain (Linked ((m.join p f).join l n)) := by
    refine chain_join (chain_join left once ?_ fun _ => first) once (fun _ => last) ?_
    · exact fun here => absurd rfl (apart p here p hp)
    · exact fun here => absurd rfl (apart n here n hn)
  have back : ys.IsChain (Linked ((m.join p f).join l n)) := by
    refine chain_join (chain_join right once' (fun _ => prev) ?_) once' ?_ fun _ => next
    · exact fun here => absurd rfl (apart f hf f here)
    · exact fun here => absurd rfl (apart l hl l here)
  refine ⟨List.isChain_append.mpr ⟨front,back,fun x last' y next' => ?_⟩,fun x last' y first' => ?_⟩
  · obtain rfl : l = x := Option.some.inj (last.symm.trans last')
    obtain rfl : n = y := Option.some.inj (next.symm.trans next')
    exact linked_join _ l n
  · rw [List.getLast?_append_of_ne_nil xs (List.ne_nil_of_mem hp),prev] at last'
    rw [List.head?_append_of_ne_nil xs (List.ne_nil_of_mem hf),first] at first'
    obtain rfl : p = x := Option.some.inj last'
    obtain rfl : f = y := Option.some.inj first'
    exact (linked_join m p f).join (apart l hl p hp).symm (apart f hf n hn)

theorem join_comm {d : α} (m : Links α) (heads : a ≠ p) (tails : b ≠ d) :
    (m.join a b).join p d = (m.join p d).join a b := by
  simp only [Links.join,Links.setNext,Links.setPrev,Links.mk.injEq]
  exact ⟨Function.update_comm heads _ _ _,Function.update_comm tails _ _ _⟩

/-- The nodes up to `l` are taken off the circle and closed behind the fresh node `x`. -/
theorem circles_cut {front back : List α} {f l : α} (circle : Circle m (h :: (front ++ back)))
    (once : (h :: (front ++ back)).Nodup) (fresh : x ∉ h :: (front ++ back)) (first : front.head? = some f)
    (last : front.getLast? = some l) (next : (back ++ [h]).head? = some n) :
    Circle (((m.join x f).join l x).join h n) (x :: front) ∧
      Circle (((m.join x f).join l x).join h n) (h :: back) := by
  have hf := List.mem_of_head? first
  have hl := List.mem_of_getLast? last
  have hn := List.mem_of_head? next
  have around : Circle m (front ++ (back ++ [h])) := by
    rw [← List.append_assoc]
    exact circle.rotate (a := [h])
  have perm : (front ++ (back ++ [h])).Perm (h :: (front ++ back)) := by
    rw [← List.append_assoc]
    exact List.perm_append_comm
  have all : (x :: front ++ (back ++ [h])).Nodup :=
    List.nodup_cons.mpr ⟨fun member => fresh (perm.mem_iff.mp member),perm.nodup_iff.mpr once⟩
  obtain ⟨onceFront,onceBack,apart⟩ := List.nodup_append.mp all
  obtain ⟨chainFront,chainBack,_⟩ := List.isChain_append.mp around.chain
  have hh : h ∈ back ++ [h] := by simp
  have hx : x ∈ x :: front := List.mem_cons_self
  have hf' := List.mem_cons_of_mem x hf
  have hl' := List.mem_cons_of_mem x hl
  have own : x ∉ front := (List.nodup_cons.mp onceFront).1
  have heads : x ≠ l := fun same => own (same ▸ hl)
  have tails : f ≠ x := fun same => own (same ▸ hf)
  constructor
  · have closed := circle_of_chains (.singleton x) chainFront onceFront rfl rfl first last
    have frame : Outside _ (((m.join l x).join x f).join h n) (· ∈ back ++ [h]) := .join _ hh hn
    rw [join_comm m heads tails]
    exact closed.outside frame fun y here there => apart y here y there rfl
  · have closed := circle_of_chain chainBack onceBack next List.getLast?_concat
    have frame : Outside (m.join h n) (((m.join h n).join x f).join l x) (· ∈ x :: front) :=
      .trans (.join _ hx hf') (.join _ hl' hx)
    rw [join_comm _ (apart l hl' h hh) (apart x hx n hn),join_comm m (apart x hx h hh) (apart f hf' n hn)]
    exact (closed.outside frame fun y here there => apart y there y here rfl).rotate

theorem Absent.update_none (absent : Absent lists x) : Function.update lists x none = lists := by
  cases here : lists x with
  | none => rw [← here,Function.update_eq_self]
  | some xs => exact absurd List.mem_cons_self (absent here)

section Change

variable {ys : List α} (family : Family m lists) (giver : Loose lists a) (taker : Loose lists h)
include family giver taker

/-- Where the list of `a` is given up and `h` gets the sequence `ys`. -/
theorem Family.change_cases {g : α} {zs : List α}
    (there : Function.update (Function.update lists a none) h (some ys) g = some zs) :
    (g = h ∧ zs = ys) ∨ (lists g = some zs ∧ ∀ x ∈ g :: zs, ¬(Own lists a x ∨ Own lists h x)) := by
  by_cases same : g = h
  · subst same
    rw [Function.update_self] at there
    exact .inl ⟨rfl,(Option.some.inj there).symm⟩
  · rw [Function.update_of_ne same] at there
    by_cases given : g = a
    · subst given
      simp at there
    · rw [Function.update_of_ne given] at there
      refine .inr ⟨there,fun x member own => ?_⟩
      rcases own with own | own
      · exact family.not_own giver there given member own
      · exact family.not_own taker there same member own

/-- Nothing may be written outside these two lists. -/
theorem Family.change (outside : Outside m m' fun x => Own lists a x ∨ Own lists h x)
    (circle : Circle m' (h :: ys)) (once : (h :: ys).Nodup)
    (inside : ∀ x ∈ ys, Own lists a x ∨ Own lists h x) :
    Family m' (Function.update (Function.update lists a none) h (some ys)) := by
  have inside' : ∀ x ∈ h :: ys, Own lists a x ∨ Own lists h x :=
    List.forall_mem_cons.mpr ⟨.inr (.inl rfl),inside⟩
  constructor
  · intro g zs there
    rcases family.change_cases giver taker there with ⟨rfl,rfl⟩ | ⟨old,out⟩
    · exact circle
    · exact (family.circle old).outside outside out
  · intro g zs there
    rcases family.change_cases giver taker there with ⟨rfl,rfl⟩ | ⟨old,_⟩
    · exact once
    · exact family.once old
  · intro g g' zs zs' x there there' left right
    rcases family.change_cases giver taker there with ⟨rfl,rfl⟩ | ⟨old,out⟩
    · rcases family.change_cases giver taker there' with ⟨rfl,_⟩ | ⟨_,out⟩
      · rfl
      · exact absurd (inside' x left) (out x right)
    · rcases family.change_cases giver taker there' with ⟨rfl,rfl⟩ | ⟨old',_⟩
      · exact absurd (inside' x right) (out x left)
      · exact family.apart old old' left right

theorem Family.change_absent (own : Own lists a x ∨ Own lists h x) (left : x ∉ h :: ys) :
    Absent (Function.update (Function.update lists a none) h (some ys)) x := by
  intro g zs there member
  rcases family.change_cases giver taker there with ⟨rfl,rfl⟩ | ⟨_,out⟩
  · exact left member
  · exact out x member own

end Change

section Edits

variable {front back zs : List α}

/-- A list need not be kept track of. -/
theorem Family.forget (family : Family m lists) (a : α) : Family m (Function.update lists a none) := by
  have kept {g : α} {xs : List α} (there : Function.update lists a none g = some xs) : lists g = some xs := by
    by_cases same : g = a
    · simp [same] at there
    · rwa [Function.update_of_ne same] at there
  exact ⟨fun there => family.circle (kept there),fun there => family.once (kept there),
    fun there there' => family.apart (kept there) (kept there')⟩

theorem Family.init (family : Family m lists) (free : Free lists x) :
    Family (m.join x x) (Function.update lists x (some [])) := by
  have circle : Circle (m.join x x) [x] := circle_of_chain (.singleton x) (by simp) rfl rfl
  have changed := family.change free.loose free.loose (.join m (.inl (.inl rfl)) (.inl (.inl rfl)))
    circle (by simp) (by simp)
  rwa [Function.update_idem] at changed

/-- A free node is put between two neighbours. -/
theorem Family.insert (family : Family m lists) (here : lists h = some (front ++ back)) (free : Free lists x)
    (other : x ≠ h) (prev : (h :: front).getLast? = some p) (next : (back ++ [h]).head? = some n) :
    Family ((m.join x n).join p x)
      (Function.update (Function.update lists x none) h (some (front ++ x :: back))) := by
  obtain ⟨circle,once⟩ := family.around here
  rw [← head_around front] at next
  rw [← last_around front back] at prev
  have hn := List.mem_of_head? next
  have hp := List.mem_of_getLast? prev
  have fresh : x ∉ back ++ h :: front := fun member =>
    other (free.loose here ((perm_around front back h).mem_iff.mp member)).symm
  have all : (x :: (back ++ h :: front)).Nodup := List.nodup_cons.mpr ⟨fresh,once⟩
  have closed : Circle ((m.join p x).join x n) ([x] ++ (back ++ h :: front)) :=
    circle_of_chains (.singleton x) circle.chain all rfl rfl next prev
  have heads : x ≠ p := fun same => fresh (same ▸ hp)
  have tails : n ≠ x := fun same => fresh (same ▸ hn)
  rw [← join_comm m heads tails] at closed
  have rotated : Circle _ ((h :: front) ++ x :: back) := Circle.rotate (a := x :: back) closed
  refine family.change free.loose (family.loose here) ?_ rotated ?_ ?_
  · refine (Outside.join m (.inl (.inl rfl)) (.inr (.around here hn))).trans ?_
    exact .join _ (.inr (.around here hp)) (.inl (.inl rfl))
  · exact (perm_around front (x :: back) h).nodup_iff.mp all
  · intro y member
    rcases List.mem_cons.mp (List.perm_middle.mem_iff.mp member) with rfl | old
    · exact .inl (.inl rfl)
    · exact .inr (.list here (List.mem_cons_of_mem h old))

/-- Joining its neighbours takes a node out. -/
theorem Family.remove (family : Family m lists) (here : lists h = some (front ++ x :: back)) :
    Family (m.join (m.prev x) (m.next x)) (Function.update lists h (some (front ++ back))) ∧
    Absent (Function.update lists h (some (front ++ back))) x := by
  obtain ⟨circle,once⟩ := family.around here
  have circle : Circle m (x :: (back ++ h :: front)) := circle
  obtain ⟨fresh,rest⟩ : x ∉ back ++ h :: front ∧ (back ++ h :: front).Nodup := List.nodup_cons.mp once
  obtain ⟨first,last⟩ := circle.neighbours (by simp)
  have own {y : α} (member : y ∈ back ++ h :: front) : Own lists h y :=
    .around here (List.mem_cons_of_mem x member)
  have closed := circle_of_chain circle.chain.tail rest first last
  have left : x ∉ h :: (front ++ back) := fun member =>
    fresh ((perm_around front back h).mem_iff.mpr member)
  have idem : Function.update (Function.update lists h none) h (some (front ++ back)) =
    Function.update lists h (some (front ++ back)) := Function.update_idem ..
  rw [← idem]
  constructor
  · refine family.change (family.loose here) (family.loose here) ?_ closed.rotate ?_ ?_
    · exact .join m (.inr (own (List.mem_of_getLast? last))) (.inr (own (List.mem_of_head? first)))
    · exact (perm_around front back h).nodup_iff.mp rest
    · intro y member
      exact .inr (own ((perm_around front back h).mem_iff.mpr (List.mem_cons_of_mem h member)))
  · exact family.change_absent (family.loose here) (family.loose here) (.inr (.list here (by simp))) left

/-- The list of `a` goes in between two neighbours. -/
theorem Family.splice (family : Family m lists) (source : lists a = some zs) (filled : zs ≠ [])
    (here : lists h = some (front ++ back)) (other : a ≠ h) (prev : (h :: front).getLast? = some p)
    (next : (back ++ [h]).head? = some n) :
    Family ((m.join p (m.next a)).join (m.prev a) n)
      (Function.update (Function.update lists a none) h (some (front ++ zs ++ back))) ∧
    Absent (Function.update (Function.update lists a none) h (some (front ++ zs ++ back))) a := by
  obtain ⟨circle,once⟩ := family.around here
  rw [← head_around front] at next
  rw [← last_around front back] at prev
  obtain ⟨first,last⟩ := (family.circle source).neighbours filled
  obtain ⟨fresh,once'⟩ := List.nodup_cons.mp (family.once source)
  have apart : ∀ x ∈ a :: zs, x ∉ back ++ h :: front := fun x left right =>
    other (family.apart source here left ((perm_around front back h).mem_iff.mp right))
  have all : (zs ++ (back ++ h :: front)).Nodup := by
    refine List.nodup_append.mpr ⟨once',once,fun x left y right same => ?_⟩
    exact apart x (List.mem_cons_of_mem a left) (same ▸ right)
  have closed := circle_of_chains (family.circle source).chain.tail circle.chain all first last next prev
  rw [List.tail_cons,← List.append_assoc] at closed
  have rotated := closed.rotate
  have perm : (h :: (front ++ zs ++ back)).Perm (zs ++ (back ++ h :: front)) := by
    rw [← List.append_assoc,List.append_assoc front]
    exact (perm_around front (zs ++ back) h).symm
  have own {x : α} (member : x ∈ zs) : Own lists a x := .list source (List.mem_cons_of_mem a member)
  constructor
  · refine family.change (family.loose source) (family.loose here) ?_ ?_ (perm.nodup_iff.mpr all) ?_
    · refine (Outside.join m (.inr (.around here (List.mem_of_getLast? prev)))
        (.inl (own (List.mem_of_head? first)))).trans ?_
      exact .join _ (.inl (own (List.mem_of_getLast? last))) (.inr (.around here (List.mem_of_head? next)))
    · rw [List.append_assoc]
      exact rotated
    · intro x member
      rcases List.mem_append.mp (perm.mem_iff.mp (List.mem_cons_of_mem h member)) with source | old
      · exact .inl (own source)
      · exact .inr (.around here old)
  · refine family.change_absent (family.loose source) (family.loose here) (.inl (.inl rfl)) fun member => ?_
    rcases List.mem_append.mp (perm.mem_iff.mp member) with source | old
    · exact fresh source
    · exact apart a List.mem_cons_self old

/-- `x` takes the place of `o`, where `o` has neighbours. -/
theorem circle_replace {o : α} {rest : List α} (circle : Circle m (o :: rest)) (once : (o :: rest).Nodup)
    (filled : rest ≠ []) (fresh : x ∉ o :: rest) :
    Circle ((m.join x (m.next o)).join ((m.join x (m.next o)).prev o) x) (x :: rest) := by
  obtain ⟨first,last⟩ := circle.neighbours filled
  obtain ⟨own,once'⟩ := List.nodup_cons.mp once
  have outside : x ∉ rest := fun member => fresh (List.mem_cons_of_mem o member)
  have hn := List.mem_of_head? first
  have hp := List.mem_of_getLast? last
  have apart : o ≠ m.next o := fun same => own (by rw [same]; exact hn)
  have kept : (m.join x (m.next o)).prev o = m.prev o := Function.update_of_ne apart _ _
  have closed := circle_of_chains (.singleton x) circle.chain.tail (List.nodup_cons.mpr ⟨outside,once'⟩)
    rfl rfl first last
  have heads : x ≠ m.prev o := fun same => outside (by rw [same]; exact hp)
  have tails : m.next o ≠ x := fun same => outside (by rw [← same]; exact hn)
  rw [kept,join_comm m heads tails]
  exact closed

theorem outside_replace {o : α} {part : α → Prop} (m : Links α) (new : part x) (next : part (m.next o))
    (prev : part (m.prev o)) :
    Outside m ((m.join x (m.next o)).join ((m.join x (m.next o)).prev o) x) part := by
  refine (Outside.join m new next).trans (.join _ ?_ new)
  by_cases alone : o = m.next o
  · have back : (m.join x o).prev o = x := Function.update_self ..
    rw [← alone,back]
    exact new
  · have kept : (m.join x (m.next o)).prev o = m.prev o := Function.update_of_ne alone _ _
    rw [kept]
    exact prev

/-- A free node replaces one behind a head. -/
theorem Family.replace {o : α} (family : Family m lists) (here : lists h = some (front ++ o :: back))
    (free : Free lists x) (other : x ≠ h) (fresh : x ≠ o) :
    Family ((m.join x (m.next o)).join ((m.join x (m.next o)).prev o) x)
      (Function.update (Function.update lists x none) h (some (front ++ x :: back))) ∧
    Absent (Function.update (Function.update lists x none) h (some (front ++ x :: back))) o := by
  obtain ⟨around,once⟩ := family.around here
  have around : Circle m (o :: (back ++ h :: front)) := around
  obtain ⟨first,last⟩ := around.neighbours (by simp)
  have own {y : α} (member : y ∈ back ++ h :: front) : Own lists h y :=
    .around here (List.mem_cons_of_mem o member)
  have away : x ∉ o :: (back ++ h :: front) := fun member =>
    other (free.loose here ((perm_around front (o :: back) h).mem_iff.mp member)).symm
  have circle : Circle _ (x :: back ++ h :: front) := circle_replace around once (by simp) away
  obtain ⟨gone,rest⟩ : o ∉ back ++ h :: front ∧ (back ++ h :: front).Nodup := List.nodup_cons.mp once
  have all : (x :: (back ++ h :: front)).Nodup :=
    List.nodup_cons.mpr ⟨fun member => away (List.mem_cons_of_mem o member),rest⟩
  constructor
  · refine family.change free.loose (family.loose here) ?_ circle.rotate ?_ ?_
    · exact outside_replace m (.inl (.inl rfl)) (.inr (own (List.mem_of_head? first)))
        (.inr (own (List.mem_of_getLast? last)))
    · exact (perm_around front (x :: back) h).nodup_iff.mp all
    · intro y member
      rcases List.mem_cons.mp (List.perm_middle.mem_iff.mp member) with rfl | old
      · exact .inl (.inl rfl)
      · exact .inr (own ((perm_around front back h).mem_iff.mpr (List.mem_cons_of_mem h old)))
  · refine family.change_absent free.loose (family.loose here) (.inr (.list here (by simp))) fun member => ?_
    rcases List.mem_cons.mp ((perm_around front (x :: back) h).mem_iff.mpr member) with same | old
    · exact fresh same.symm
    · exact gone old

/-- A free node becomes the head of a list. -/
theorem Family.rehead {o : α} (family : Family m lists) (here : lists o = some xs) (free : Free lists x)
    (fresh : x ≠ o) :
    Family ((m.join x (m.next o)).join ((m.join x (m.next o)).prev o) x)
      (Function.update (Function.update lists o none) x (some xs)) ∧
    Absent (Function.update (Function.update lists o none) x (some xs)) o := by
  have away : x ∉ o :: xs := fun member => fresh (free.loose here member).symm
  have circle : Circle ((m.join x (m.next o)).join ((m.join x (m.next o)).prev o) x) (x :: xs) := by
    cases xs with
    | nil =>
      have alone : m.next o = o := ((family.circle here).closed o rfl o rfl).1
      have back : (m.join x o).prev o = x := Function.update_self ..
      rw [alone,back]
      exact circle_of_chain (.singleton x) (by simp) rfl rfl
    | cons y ys => exact circle_replace (family.circle here) (family.once here) (by simp) away
  obtain ⟨gone,once⟩ := List.nodup_cons.mp (family.once here)
  have ends : m.next o ∈ o :: xs ∧ m.prev o ∈ o :: xs := by
    cases xs with
    | nil =>
      obtain ⟨next,prev⟩ := (family.circle here).closed o rfl o rfl
      simp [next,prev]
    | cons y ys =>
      obtain ⟨first,last⟩ := (family.circle here).neighbours (by simp)
      exact ⟨List.mem_cons_of_mem o (List.mem_of_head? first),List.mem_cons_of_mem o (List.mem_of_getLast? last)⟩
  constructor
  · refine family.change (family.loose here) free.loose ?_ circle ?_ ?_
    · exact outside_replace m (.inr (.inl rfl)) (.inl (.list here ends.1)) (.inl (.list here ends.2))
    · exact List.nodup_cons.mpr ⟨fun member => away (List.mem_cons_of_mem o member),once⟩
    · exact fun y member => .inl (.list here (List.mem_cons_of_mem o member))
  · refine family.change_absent (family.loose here) free.loose (.inl (.inl rfl)) fun member => ?_
    rcases List.mem_cons.mp member with same | old
    · exact fresh same.symm
    · exact gone old

end Edits

end Kernal.Rings
