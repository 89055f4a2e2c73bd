import Kernal.TaskHints

/-! The shortcut of `pick_next_task_fair` that lets the previous task run on. It compares two
keys; putting the task back and picking again also weighs the hints. The clock is read at one
moment `now` throughout. -/
namespace Kernal.Cfs

open SearchTree

section Charge

variable (env : Platform) (s : Sched)

/-- What is charged once is not charged again at the same reading. -/
theorem updateCurr_again (q : Nat) (now : U64) :
    updateCurr env (updateCurr env s q now) q now = updateCurr env s q now := by
  cases current : (s.cfs q).curr with
  | none =>
    have same : updateCurr env s q now = s := by simp only [updateCurr,current]
    rw [same,same]
  | some e =>
    by_cases early : toS64 (now - (s.entity e).execStart) ≤ 0
    · have same : updateCurr env s q now = s := by simp only [updateCurr,current,early,if_true]
      rw [same,same]
    · have here : ((updateCurr env s q now).cfs q).curr = some e := by
        simp [updateCurr,current,early,updateMinVruntime,Sched.setCfs,Sched.setEntity]
      have started : ((updateCurr env s q now).entity e).execStart = now := by
        simp [updateCurr,current,early,entity_updateMinVruntime,Sched.setEntity]
      generalize updateCurr env s q now = s₁ at here started
      have zero : toS64 (now - now) ≤ 0 := by simp [toS64]
      simp only [updateCurr,here,started,zero,if_true]

variable {env s}

theorem putPrevEntity_charged (on : (s.entity p).onRq = true) (now : U64) :
    putPrevEntity env (updateCurr env s root now) root p now = putPrevEntity env s root p now := by
  have kept : ((updateCurr env s root now).entity p).onRq = true :=
    (congrFun (congrArg Shape.onRq (shape_updateCurr env s now)) p).trans on
  simp only [putPrevEntity,on,kept,if_true,updateCurr_again]

theorem pickFirst_fst (now : U64) : (pickFirst env s now).1 = (pickNextEntity env s root none).1 := by
  unfold pickFirst
  split
  next answer => rw [answer]
  next answer => rw [answer]

end Charge

structure Resumable (s : Sched) (p : Nat) : Prop where
  onRq : (s.entity p).onRq = true
  counted : (s.cfs root).nrRunning ≠ 0
  cached : (s.cfs root).rbLeftmost = (inorder (s.cfs root).tasksTimeline).head?

section Hints

variable (env : Platform) (s : Sched) (p first : Nat)

/-- `p` has a smaller key than `entry`, so `__enqueue_entity` turns left there. -/
def keyBefore (entry : Nat) : Bool := decide (entityKey s root p < entityKey s root entry)

/-- The entity in front of the tree with `p` in its place, where `first` is in front of the
others. -/
def newFirst : Nat := if leftmost (keyBefore s p) (s.cfs root).tasksTimeline then p else first

/-- The entity right behind it. -/
def newSecond : Option Nat :=
  following (newFirst s p first) (inorder (link p (keyBefore s p) (s.cfs root).tasksTimeline))

def Near (e : Nat) : Prop := env.wakeupPreemptEntity (s.entity e) (s.entity (newFirst s p first)) < 1

def Level (e : Nat) : Prop := (s.entity e).vruntime = (s.entity p).vruntime

/-- No hint favours an entity with another virtual time than `p`: `next` counts first, then
`last`, then `skip`. -/
def HintsLevel : Prop :=
  let buddies := s.buddies root
  (∀ e, buddies.next = some e → Near env s p first e → Level s p e) ∧
  ((∀ e, buddies.next = some e → ¬Near env s p first e) →
    (∀ e, buddies.last = some e → Near env s p first e → Level s p e) ∧
    ((∀ e, buddies.last = some e → ¬Near env s p first e) →
      (buddies.skip = some (newFirst s p first) →
        ∀ e, newSecond s p first = some e → Near env s p first e → Level s p e) ∧
      ((buddies.skip = some (newFirst s p first) →
        ∀ e, newSecond s p first = some e → ¬Near env s p first e) → Level s p (newFirst s p first))))

end Hints

theorem not_leftmost {s : Sched} (front : (inorder (s.cfs root).tasksTimeline).head? = some first)
    (least : ¬entityKey s root p < entityKey s root first) :
    ¬leftmost (keyBefore s p) (s.cfs root).tasksTimeline = true := by
  intro turned
  have before : keyBefore s p first = true := leftmost_head turned front
  exact least (of_decide_eq_true before)

/-- In a tree sorted by key `p` goes in front when its key is the smallest, and otherwise
behind those with the same key. -/
theorem newSecond_sorted {s : Sched}
    (sorted : (inorder (s.cfs root).tasksTimeline).Pairwise fun a b => entityKey s root a ≤ entityKey s root b)
    (front : (inorder (s.cfs root).tasksTimeline).head? = some first) :
    newFirst s p first = (if entityKey s root p < entityKey s root first then p else first) ∧
    newSecond s p first = some (if entityKey s root p < entityKey s root first then first
      else match following first (inorder (s.cfs root).tasksTimeline) with
        | none => p
        | some n => if entityKey s root p < entityKey s root n then p else n) := by
  have upward : (inorder (s.cfs root).tasksTimeline).Pairwise
      fun a b => keyBefore s p a = true → keyBefore s p b = true :=
    sorted.imp fun order less => decide_eq_true (lt_of_lt_of_le (of_decide_eq_true less) order)
  have head := link_head p (keyBefore s p) (s.cfs root).tasksTimeline
  obtain ⟨ahead,behind,old,new,low,high⟩ := link_split_at p (keyBefore s p) upward
  unfold newSecond newFirst
  rw [new,front] at head
  rw [new,old]
  rw [old] at front
  cases ahead with
  | nil =>
    -- `p` is in front.
    have less : entityKey s root p < entityKey s root first :=
      of_decide_eq_true (high first (List.mem_of_head? front))
    have turned : leftmost (keyBefore s p) (s.cfs root).tasksTimeline = true := by
      by_contra turned
      rw [if_neg turned] at head
      exact absurd less (by rw [Option.some.inj head]; exact lt_irrefl _)
    simp only [turned,less,if_true,List.nil_append,following,true_and]
    exact front
  | cons l ahead =>
    -- `first` stays in front, and behind it are those that `p` is not before.
    obtain rfl : l = first := Option.some.inj front
    have least : ¬entityKey s root p < entityKey s root l := of_decide_eq_false (low l List.mem_cons_self)
    have turned := not_leftmost (by rw [old]; rfl) least
    simp only [turned,least,if_false,List.cons_append,following,if_true,true_and,Bool.false_eq_true]
    cases ahead with
    | nil =>
      cases behind with
      | nil => rfl
      | cons n behind =>
        have later : entityKey s root p < entityKey s root n := of_decide_eq_true (high n List.mem_cons_self)
        simp [later]
    | cons n ahead =>
      have earlier : ¬entityKey s root p < entityKey s root n := of_decide_eq_false (low n (by simp))
      simp [earlier]

section Put

variable (env : Platform) {s : Sched}

/-- What `pick_next_entity` finds once `p` is put back. -/
theorem putPrevEntity_front (on : (s.entity p).onRq = true)
    (left : ((updateCurr env s root now).cfs root).rbLeftmost = some first) :
    (putPrevEntity env s root p now).entity = (updateCurr env s root now).entity ∧
    (putPrevEntity env s root p now).buddies = (updateCurr env s root now).buddies ∧
    ((putPrevEntity env s root p now).cfs root).rbLeftmost =
      some (newFirst (updateCurr env s root now) p first) ∧
    following (newFirst (updateCurr env s root now) p first)
      (inorder ((putPrevEntity env s root p now).cfs root).tasksTimeline) =
      newSecond (updateCurr env s root now) p first := by
  simp only [putPrevEntity,on,if_true,treeEnqueueEntity,Sched.setCfs,Function.update_self,
    env.rb.inorder_insertColor,left,true_and]
  refine ⟨?_,rfl⟩
  unfold newFirst keyBefore
  split
  · rfl
  · rfl

theorem preferBuddy_iff (P : Option Nat → Prop) (left : Nat) (candidate se : Option Nat) :
    P (preferBuddy env s (some left) candidate se) ↔
      (∀ e, candidate = some e → env.wakeupPreemptEntity (s.entity e) (s.entity left) < 1 → P (some e)) ∧
      ((∀ e, candidate = some e → ¬env.wakeupPreemptEntity (s.entity e) (s.entity left) < 1) → P se) := by
  cases candidate with
  | none => simp [preferBuddy]
  | some b =>
    simp only [preferBuddy]
    split
    next near =>
      refine ⟨fun holds => ⟨fun e here _ => here ▸ holds,fun far => absurd near (far b rfl)⟩,?_⟩
      exact fun both => both.1 b rfl near
    next far =>
      refine ⟨fun holds => ⟨fun e here near => ?_,fun _ => holds⟩,fun both => both.2 fun e here near => ?_⟩
      · exact absurd (Option.some.inj here ▸ near) far
      · exact far (Option.some.inj here ▸ near)

/-- What holds of the entity that `pick_next_entity` answers with no current one. -/
theorem pickNextEntity_iff (P : Option Nat → Prop) (left : (s.cfs root).rbLeftmost = some l)
    (second : following l (inorder (s.cfs root).tasksTimeline) = n) :
    P (pickNextEntity env s root none).1 ↔
      let near e := env.wakeupPreemptEntity (s.entity e) (s.entity l) < 1
      (∀ e, (s.buddies root).next = some e → near e → P (some e)) ∧
      ((∀ e, (s.buddies root).next = some e → ¬near e) →
        (∀ e, (s.buddies root).last = some e → near e → P (some e)) ∧
        ((∀ e, (s.buddies root).last = some e → ¬near e) →
          ((s.buddies root).skip = some l → ∀ e, n = some e → near e → P (some e)) ∧
          (((s.buddies root).skip = some l → ∀ e, n = some e → ¬near e) → P (some l)))) := by
  have first : leftEntity env s none = some l := by simp only [leftEntity,left]
  have behind : secondEntity env s root none (some l) = n := by
    simp only [secondEntity,Option.bind_some,second,reduceCtorEq,if_false]
    cases n <;> rfl
  rw [pickNextEntity_fst,first]
  dsimp only
  rw [preferBuddy_iff env P,preferBuddy_iff env P,behind]
  refine and_congr_right fun _ => imp_congr_right fun _ => and_congr_right fun _ => imp_congr_right fun _ => ?_
  by_cases skipped : (s.buddies root).skip = some l
  · rw [if_pos skipped,preferBuddy_iff env P]
    simp only [skipped,forall_const]
  · simp [skipped]

theorem keepsPrev_iff (on : (s.entity p).onRq = true) : keepsPrev flat s p = true ↔
    ∃ l, (s.cfs root).rbLeftmost = some l ∧ entityKey s root p ≤ entityKey s root l := by
  cases left : (s.cfs root).rbLeftmost with
  | none => simp [keepsPrev,left]
  | some l => simp [keepsPrev,left,on,flat]

/-- The shortcut aside, both ways are one. -/
theorem pickNextTaskFair_fst (state : Resumable (updateCurr env s root now) p) :
    (pickNextTaskFair env flat s (some p) fun _ => now).1 =
      if keepsPrev flat (updateCurr env s root now) p then some p
      else (pickNextEntity env (putPrevEntity env s root p now) root none).1 := by
  have same := shape_updateCurr env s now
  have counted : (s.cfs root).nrRunning ≠ 0 := by
    rw [show (s.cfs root).nrRunning = _ from (congrArg Shape.nr same).symm]
    exact state.counted
  have on : (s.entity p).onRq = true := (congrFun (congrArg Shape.onRq same) p).symm.trans state.onRq
  simp only [pickNextTaskFair,counted,if_false,putPrevEntity_charged on]
  split
  · rfl
  · exact pickFirst_fst now

end Put

/-- Whether the shortcut selects as `put_prev_entity` and `pick_next_entity` would, up to
entities with the same virtual time. -/
def Agrees (env : Platform) (s : Sched) (p : Nat) (now : U64) : Prop :=
  let vruntime e := ((updateCurr env s root now).entity e).vruntime
  (pickNextTaskFair env flat s (some p) fun _ => now).1.map vruntime =
    (pickNextEntity env (putPrevEntity env s root p now) root none).1.map vruntime

/-- The task is kept only where no hint speaks against it. -/
def KeepsLevel (env : Platform) (s : Sched) (p : Nat) : Prop :=
  ∀ first, (s.cfs root).rbLeftmost = some first → entityKey s root p ≤ entityKey s root first →
    HintsLevel env s p first

theorem agrees_iff (env : Platform) {s : Sched} {now : U64}
    (state : Resumable (updateCurr env s root now) p) :
    Agrees env s p now ↔ KeepsLevel env (updateCurr env s root now) p := by
  have on : (s.entity p).onRq = true :=
    (congrFun (congrArg Shape.onRq (shape_updateCurr env s now)) p).symm.trans state.onRq
  unfold Agrees
  dsimp only
  rw [pickNextTaskFair_fst env state]
  by_cases keeps : keepsPrev flat (updateCurr env s root now) p = true
  · obtain ⟨first,left,least⟩ := (keepsPrev_iff state.onRq).mp keeps
    obtain ⟨entities,buddies,front,second⟩ := putPrevEntity_front env on left
    have level : KeepsLevel env (updateCurr env s root now) p ↔
        HintsLevel env (updateCurr env s root now) p first := by
      refine ⟨fun holds => holds first left least,fun holds l left' _ => ?_⟩
      rwa [Option.some.inj (left'.symm.trans left)]
    rw [if_pos keeps,level,eq_comm]
    rw [pickNextEntity_iff env (fun choice => choice.map _ = _) front second]
    simp only [entities,buddies,Option.map_some,Option.some.injEq]
    rfl
  · have vacuous : KeepsLevel env (updateCurr env s root now) p := fun first left least =>
      absurd ((keepsPrev_iff state.onRq).mpr ⟨first,left,least⟩) keeps
    simp [keeps,vacuous]

end Kernal.Cfs

namespace Kernal.Task

open Cfs (Buddies Sched Shape U64 root flat updateCurr entityKey Resumable Agrees KeepsLevel)
open SearchTree

section Keep

variable {env : Platform} (helpers : HintHelpers env)
include helpers

/-- After a yield the task that stands behind another one gives way. -/
theorem yieldTaskFair_gives_way {k k' : Kernel} (running : k.sched.curr = some p)
    (busy : k.sched.nrRunning ≠ 1) (done : yieldTaskFair env flat k t = .ok k')
    (state : Resumable (updateCurr env.cfs k'.sched root now) p)
    (left : ((updateCurr env.cfs k'.sched root now).cfs root).rbLeftmost = some first)
    (behind : entityKey (updateCurr env.cfs k'.sched root now) root first <
      entityKey (updateCurr env.cfs k'.sched root now) root p) :
    (Cfs.pickNextTaskFair env.cfs flat k'.sched (some p) fun _ => now).1 ≠ some p := by
  have hints : k'.sched.buddies root = { (k.sched.buddies root).clear (some p) with skip := some p } :=
    congrArg Shape.buddies (shape_yieldTaskFair helpers running busy done)
  have same := Cfs.shape_updateCurr env.cfs k'.sched now
  have on : (k'.sched.entity p).onRq = true := (congrFun (congrArg Shape.onRq same) p).symm.trans state.onRq
  have leaves : ¬Cfs.keepsPrev flat (updateCurr env.cfs k'.sched root now) p = true := by
    intro keeps
    obtain ⟨l,left',least⟩ := (Cfs.keepsPrev_iff state.onRq).mp keeps
    rw [Option.some.inj (left'.symm.trans left)] at least
    exact absurd behind (not_lt.mpr least)
  rw [Cfs.pickNextTaskFair_fst env.cfs state,if_neg leaves]
  obtain ⟨_,buddies,front,second⟩ := Cfs.putPrevEntity_front env.cfs on left
  have other : p ≠ first := fun same => absurd behind (by rw [same]; exact lt_irrefl _)
  have stays : Cfs.newFirst (updateCurr env.cfs k'.sched root now) p first = first :=
    if_neg (Cfs.not_leftmost (state.cached.symm.trans left) (not_lt.mpr behind.le))
  rw [stays] at front second
  have kept : (Cfs.putPrevEntity env.cfs k'.sched root p now).buddies root =
      { (k.sched.buddies root).clear (some p) with skip := some p } := by
    rw [buddies]
    exact (congrArg Shape.buddies same).trans hints
  refine (Cfs.pickNextEntity_iff env.cfs (· ≠ some p) front second).mpr ⟨?_,fun _ => ⟨?_,fun _ => ⟨?_,?_⟩⟩⟩
  · intro e next _ here
    rw [kept] at next
    exact (Buddies.clear_names (.inl next)).2 here.symm
  · intro e last _ here
    rw [kept] at last
    exact (Buddies.clear_names (.inr (.inl last))).2 here.symm
  · intro skip
    rw [kept] at skip
    exact absurd (Option.some.inj skip) other
  · exact fun _ here => other (Option.some.inj here).symm

/-- The shortcut of `pick_next_task_fair` agrees with putting the task back exactly where no
hint speaks against the task it keeps. After a yield it keeps the task unless another one is
in front. -/
theorem keeping_agrees_iff :
    (∀ s p now, Resumable (updateCurr env.cfs s root now) p →
      (Agrees env.cfs s p now ↔ KeepsLevel env.cfs (updateCurr env.cfs s root now) p)) ∧
    ∀ k k' p t now, k.sched.curr = some p → k.sched.nrRunning ≠ 1 → yieldTaskFair env flat k t = .ok k' →
      Resumable (updateCurr env.cfs k'.sched root now) p →
      (∃ e ∈ inorder ((updateCurr env.cfs k'.sched root now).cfs root).tasksTimeline,
        env.cfs.wakeupPreemptEntity ((updateCurr env.cfs k'.sched root now).entity e)
          ((updateCurr env.cfs k'.sched root now).entity p) < 1) →
      ((Cfs.pickNextTaskFair env.cfs flat k'.sched (some p) fun _ => now).1 ≠ some p ↔
        ∀ first, ((updateCurr env.cfs k'.sched root now).cfs root).rbLeftmost = some first →
          entityKey (updateCurr env.cfs k'.sched root now) root first <
            entityKey (updateCurr env.cfs k'.sched root now) root p) := by
  refine ⟨fun s p now => Cfs.agrees_iff env.cfs,fun k k' p t now running busy done state other => ?_⟩
  constructor
  · intro leaves first left
    by_contra ahead
    have keeps := (Cfs.keepsPrev_iff state.onRq).mpr ⟨first,left,not_lt.mp ahead⟩
    exact leaves (by rw [Cfs.pickNextTaskFair_fst env.cfs state,if_pos keeps])
  · intro behind
    obtain ⟨e,member,_⟩ := other
    obtain ⟨first,left⟩ : ∃ first, ((updateCurr env.cfs k'.sched root now).cfs root).rbLeftmost = some first := by
      rw [state.cached]
      exact Option.isSome_iff_exists.mp (by simp [List.ne_nil_of_mem member])
    exact yieldTaskFair_gives_way helpers running busy done state left (behind first left)

end Keep

def secondLate (early late : U64) : Kernel :=
  (firstRuns.setEntity 1 fun se => { se with vruntime := early }).setEntity 2
    fun se => { se with vruntime := late }

def lateYields (early late : U64) : Kernel :=
  (yieldTaskFair hintPlatform flat (secondLate early late) 0).toOption.getD (secondLate early late)

theorem resumable_single (on : (s.entity p).onRq = true) (counted : (s.cfs root).nrRunning = n + 1)
    (first : (s.cfs root).rbLeftmost = some e) (others : (s.cfs root).tasksTimeline = .node e .nil .nil) :
    Resumable s p := by
  refine ⟨on,by rw [counted]; exact Nat.succ_ne_zero n,?_⟩
  rw [first,others]
  rfl

/-- Nothing speaks against a task that is in front, and a task that yields behind another one
gives way. -/
theorem keeping_agrees_iff_two : Agrees hintPlatform.cfs (secondLate 0 10).sched 1 0 ∧
    (Cfs.pickNextTaskFair hintPlatform.cfs flat (lateYields 10 0).sched (some 1) fun _ => 0).1 ≠ some 1 := by
  obtain ⟨agrees,gives⟩ := keeping_agrees_iff hintPlatform_helpers
  constructor
  · apply (agrees (secondLate 0 10).sched 1 0 (resumable_single rfl rfl rfl rfl)).mpr
    intro first left _
    obtain rfl : 2 = first := Option.some.inj left
    refine ⟨fun e next => ?_,fun _ => ⟨fun e last => ?_,fun _ => ⟨fun skip => ?_,fun _ => rfl⟩⟩⟩
    · contradiction
    · contradiction
    · contradiction
  · refine (gives (secondLate 10 0) (lateYields 10 0) 1 0 0 rfl (by decide) rfl
      (resumable_single rfl rfl rfl rfl) ⟨2,List.mem_singleton.mpr rfl,by decide⟩).mpr ?_
    intro first left
    obtain rfl : 2 = first := Option.some.inj left
    decide

/-- The task that yields is in front: it is kept, although the other one is within the
granularity and would be picked had the first one been put back. -/
theorem yielding_task_kept :
    yieldTaskFair hintPlatform flat (secondLate 0 10) 0 = .ok (lateYields 0 10) ∧
    ((lateYields 0 10).sched.cfs root).curr = some 1 ∧
    inorder ((lateYields 0 10).sched.cfs root).tasksTimeline = [2] ∧
    Resumable (updateCurr hintPlatform.cfs (lateYields 0 10).sched root 0) 1 ∧
    (lateYields 0 10).sched.buddies root = ⟨none,none,some 1⟩ ∧
    hintPlatform.cfs.wakeupPreemptEntity ((lateYields 0 10).sched.entity 2)
      ((lateYields 0 10).sched.entity 1) = 0 ∧
    (Cfs.pickNextTaskFair hintPlatform.cfs flat (lateYields 0 10).sched (some 1) fun _ => 0).1 = some 1 ∧
    (Cfs.pickNextEntity hintPlatform.cfs (Cfs.putPrevEntity hintPlatform.cfs (lateYields 0 10).sched root 1 0)
      root none).1 = some 2 ∧
    ¬Agrees hintPlatform.cfs (lateYields 0 10).sched 1 0 := by
  refine ⟨rfl,rfl,rfl,resumable_single rfl rfl rfl rfl,rfl,rfl,rfl,rfl,?_⟩
  intro agrees
  have same : some (0 : U64) = some 10 := agrees
  simp at same

end Kernal.Task
