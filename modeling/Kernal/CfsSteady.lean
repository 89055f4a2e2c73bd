import Kernal.CfsShape

/-! A run queue whose tree is in order with the marks: what waits in it is queued, each
entity once, and the current entity waits elsewhere. Which further property the waiting
entities share is left open. -/
namespace Kernal.Cfs

namespace Shape

variable (awake : Nat → Prop)

/-- What waits in the tree is queued and awake, and the current entity is not in it. -/
structure Steady (m : Shape) : Prop extends Plain m where
  once : m.timeline.Nodup
  apart : ∀ e, m.current = some e → e ∉ m.timeline
  listed : ∀ e ∈ m.timeline, m.onRq e = true ∧ awake e

structure Ready (m : Shape) (prev : Option Nat) : Prop extends Steady awake m where
  outside : ∀ p, prev = some p → p ∉ m.timeline
  mayQueue : ∀ p, prev = some p → m.onRq p = true → awake p
  place : ∀ p, prev = some p → m.onRq p = true → m.current = some p ∨ m.timeline = []

variable {awake}

/-- Nothing depends on the counters, and on marks and current only as far as they touch
the tree. -/
theorem Steady.edit (steady : Steady awake m) {onRq : Nat → Bool} {current : Option Nat}
    (marked : ∀ e ∈ m.timeline, onRq e = true) (apart : ∀ e, current = some e → e ∉ m.timeline)
    (nr hNr total : Nat) : Steady awake { m with onRq, current, nr, hNr, total } where
  leftmost := steady.leftmost
  buddies := steady.buddies
  once := steady.once
  apart := apart
  listed e member := ⟨marked e member,(steady.listed e member).2⟩

theorem Steady.inserted (steady : Steady awake m) (inserted : m.Inserted p m')
    (absent : p ∉ m.timeline) (elsewhere : m.current ≠ some p) (on : m.onRq p = true) (up : awake p) :
    Steady awake m' := by
  have plain := steady.toPlain.inserted inserted
  have perm := inserted.perm
  obtain ⟨front,back,_,rfl⟩ := inserted
  have origin {e : Nat} (member : e ∈ front ++ p :: back) : e = p ∨ e ∈ m.timeline :=
    List.mem_cons.mp (perm.mem_iff.mp member)
  refine ⟨plain,?_,fun e current member => ?_,fun e member => ?_⟩
  · exact perm.nodup_iff.mpr (List.nodup_cons.mpr ⟨absent,steady.once⟩)
  · rcases origin member with rfl | old
    · exact elsewhere current
    · exact steady.apart e current old
  · rcases origin member with rfl | old
    · exact ⟨on,up⟩
    · exact steady.listed e old

theorem Steady.off_absent (steady : Steady awake m) (off : m.onRq p = false) : p ∉ m.timeline := by
  intro member
  rw [(steady.listed p member).1] at off
  contradiction

theorem Steady.enqueued (steady : Steady awake m) (queued : m.Queued p m') (off : m.onRq p = false)
    (up : awake p) (nr hNr total : Nat) :
    Steady awake { m' with onRq := Function.update m'.onRq p true, nr, hNr, total } := by
  have absent := steady.off_absent off
  have marked (e : Nat) (member : e ∈ m.timeline) : Function.update m.onRq p true e = true := by
    have different : e ≠ p := fun same => absent (same ▸ member)
    rw [Function.update_of_ne different]
    exact (steady.listed e member).1
  have next := steady.edit marked steady.apart nr hNr total
  unfold Shape.Queued at queued
  split at queued
  · subst queued
    exact next
  next elsewhere =>
    obtain ⟨front,back,old,rfl⟩ := queued
    exact next.inserted ⟨front,back,old,rfl⟩ absent elsewhere (Function.update_self ..) up

theorem Steady.erased (steady : Steady awake m) (p : Nat) : Steady awake (m.erase p) where
  leftmost := rfl
  buddies := steady.buddies
  once := steady.once.erase p
  apart e current member := steady.apart e current (List.mem_of_mem_erase member)
  listed e member := steady.listed e (List.mem_of_mem_erase member)

theorem Steady.dequeued (steady : Steady awake m) (p nr hNr total : Nat) :
    let m' := if m.current = some p then m else m.erase p
    Steady awake { m' with onRq := Function.update m'.onRq p false, nr, hNr, total } := by
  -- Neither way is `p` in the tree any more, so that its mark may go.
  have unmark {m' : Shape} (steady : Steady awake m') (gone : p ∉ m'.timeline) :
      Steady awake { m' with onRq := Function.update m'.onRq p false, nr, hNr, total } := by
    refine steady.edit (fun e member => ?_) steady.apart nr hNr total
    have different : e ≠ p := fun same => gone (same ▸ member)
    rw [Function.update_of_ne different]
    exact (steady.listed e member).1
  dsimp only
  split
  next here => exact unmark steady (steady.apart p here)
  next => exact unmark (steady.erased p) (steady.once.not_mem_erase)

theorem Steady.pickFirst (steady : Steady awake m) :
    m.pickFirst = (none,m) ∧ m.timeline = [] ∨
    ∃ e m', m.pickFirst = (some e,m') ∧ awake e ∧ Steady awake m' ∧ m'.current = some e := by
  have once := steady.once
  have listed := steady.listed
  unfold Shape.pickFirst
  cases sequence : m.timeline with
  | nil => exact .inl ⟨rfl,rfl⟩
  | cons e rest =>
    rw [sequence] at once listed
    obtain ⟨fresh,once⟩ := List.nodup_cons.mp once
    refine .inr ⟨e,_,rfl,(listed e List.mem_cons_self).2,⟨⟨rfl,steady.buddies⟩,once,?_,?_⟩,rfl⟩
    · rintro f ⟨⟩
      exact fresh
    · exact fun f member => listed f (List.mem_cons_of_mem _ member)

/-- Putting an entity back that is not in the tree, if it is still queued. -/
theorem Steady.put (steady : Steady awake m) (absent : p ∉ m.timeline)
    (up : m.onRq p = true → awake p) (moved : if m.onRq p = true then m.Inserted p m' else m' = m) :
    Steady awake { m' with current := none } := by
  have free : Steady awake { m with current := none } :=
    steady.edit (fun e member => (steady.listed e member).1) (fun e none => by contradiction) ..
  split at moved
  next on =>
    obtain ⟨front,back,old,rfl⟩ := moved
    exact free.inserted ⟨front,back,old,rfl⟩ absent (Option.some_ne_none p).symm on (up on)
  next => subst moved; exact free

/-- Without an answer the class may be asked again; an answer is awake. -/
theorem Ready.picked (ready : Ready awake m prev) (picked : m.Picked prev (choice,m')) :
    (choice = none → Ready awake m' prev) ∧
    ∀ e, choice = some e → awake e ∧ Steady awake m' ∧ m'.current = some e := by
  generalize answer : (choice,m') = result at picked
  cases picked with
  | nothing =>
    cases answer
    exact ⟨fun _ => ready,fun _ none => by contradiction⟩
  | first =>
    rcases ready.toSteady.pickFirst with ⟨eq,_⟩ | ⟨e,m₁,eq,good⟩
    · cases answer.trans eq
      exact ⟨fun _ => ready,fun _ none => by contradiction⟩
    · cases answer.trans eq
      refine ⟨fun some => by contradiction,?_⟩
      rintro _ ⟨⟩
      exact good
  | kept _ on nonempty =>
    cases answer
    refine ⟨fun some => by contradiction,?_⟩
    rintro _ ⟨⟩
    exact ⟨ready.mayQueue _ rfl on,ready.toSteady,(ready.place _ rfl on).resolve_right nonempty⟩
  | @put p m₁ _ moved =>
    have steady := ready.toSteady.put (ready.outside p rfl) (ready.mayQueue p rfl) moved
    rcases steady.pickFirst with ⟨eq,empty⟩ | ⟨e,m₂,eq,good⟩
    · cases answer.trans eq
      have same : m₁ = m := by
        split at moved
        · obtain ⟨front,back,_,rfl⟩ := moved
          exact absurd empty (by simp [setTimeline])
        · exact moved
      subst same
      exact ⟨fun _ => ⟨steady,ready.outside,ready.mayQueue,fun _ _ _ => .inr empty⟩,
        fun _ none => by contradiction⟩
    · cases answer.trans eq
      refine ⟨fun some => by contradiction,?_⟩
      rintro _ ⟨⟩
      exact good

end Shape

end Kernal.Cfs
