import Kernal.CfsTally

/-! What the flat run queue holds, without the virtual times: which entities are
queued, the sequence of the tree, the current entity and the counters. Virtual times
only decide where in the sequence an entity is inserted. -/
namespace Kernal.Cfs

open SearchTree

structure Shape where
  onRq : Nat → Bool
  timeline : List Nat
  leftmost : Option Nat
  current : Option Nat
  nr : Nat
  hNr : Nat
  total : Nat
  buddies : Buddies
  running : Option Nat
  nullDeref : Bool

def Sched.shape (s : Sched) : Shape where
  onRq e := (s.entity e).onRq
  timeline := inorder (s.cfs root).tasksTimeline
  leftmost := (s.cfs root).rbLeftmost
  current := (s.cfs root).curr
  nr := (s.cfs root).nrRunning
  hNr := (s.cfs root).hNrRunning
  total := s.nrRunning
  buddies := s.buddies root
  running := s.curr
  nullDeref := s.nullDeref

namespace Shape

structure Plain (m : Shape) : Prop where
  leftmost : m.leftmost = m.timeline.head?
  buddies : m.buddies = ⟨none,none,none⟩

def setTimeline (m : Shape) (timeline : List Nat) : Shape :=
  { m with timeline, leftmost := timeline.head? }

/-- `m'` has `e` somewhere in its sequence and is `m` otherwise. -/
def Inserted (m : Shape) (e : Nat) (m' : Shape) : Prop :=
  ∃ front back, m.timeline = front ++ back ∧ m' = m.setTimeline (front ++ e :: back)

def erase (m : Shape) (e : Nat) : Shape := m.setTimeline (m.timeline.erase e)

theorem Inserted.perm (inserted : Inserted m e m') : m'.timeline.Perm (e :: m.timeline) := by
  obtain ⟨front,back,old,rfl⟩ := inserted
  rw [old]
  exact List.perm_middle

end Shape

section Frame

variable (env : Platform) (s : Sched)

theorem shape_setEntity (e : Nat) (edit : SchedEntity → SchedEntity)
    (onRq : ∀ se, (edit se).onRq = se.onRq) : (s.setEntity e edit).shape = s.shape := by
  simp only [Sched.shape,Sched.setEntity,Shape.mk.injEq,and_true]
  funext x
  by_cases same : x = e <;> simp [same,onRq]

@[simp] theorem shape_updateMinVruntime : (updateMinVruntime env s root).shape = s.shape := by
  simp [updateMinVruntime,Sched.shape,Sched.setCfs]

@[simp] theorem shape_updateCurr (now : U64) : (updateCurr env s root now).shape = s.shape := by
  unfold updateCurr
  split
  · rfl
  · dsimp only
    split
    · rfl
    · rw [shape_updateMinVruntime]
      exact shape_setEntity s _ _ fun se => (calcDeltaFair_weight env _ se).2

@[simp] theorem shape_placeEntity (e : Nat) (initial : Bool) :
    (placeEntity env s root e initial).shape = s.shape := by
  unfold placeEntity
  apply shape_setEntity
  exact fun _ => rfl

@[simp] theorem shape_setVruntime (e : Nat) (f : U64 → U64) :
    (s.setEntity e fun se => { se with vruntime := f se.vruntime }).shape = s.shape :=
  shape_setEntity s e _ fun _ => rfl

theorem shape_setOnRq (e : Nat) (value : Bool) :
    (s.setEntity e fun se => { se with onRq := value }).shape =
      { s.shape with onRq := Function.update s.shape.onRq e value } := by
  simp only [Sched.shape,Sched.setEntity,Shape.mk.injEq,and_true]
  funext x
  by_cases same : x = e <;> simp [same]

theorem shape_setCurr (o : Option Nat) :
    (s.setCfs root fun c => { c with curr := o }).shape = { s.shape with current := o } := by
  simp [Sched.shape,Sched.setCfs]

theorem shape_accountEntityEnqueue (e : Nat) :
    (accountEntityEnqueue env s root e).shape = { s.shape with nr := s.shape.nr + 1 } := by
  simp [accountEntityEnqueue,Sched.shape,Sched.setCfs]

theorem shape_accountEntityDequeue (e : Nat) :
    (accountEntityDequeue env s root e).shape = { s.shape with nr := s.shape.nr - 1 } := by
  simp [accountEntityDequeue,Sched.shape,Sched.setCfs]

variable {s}

theorem shape_clearBuddies (plain : s.shape.Plain) (se : Option Nat) :
    (clearBuddies env s root se).shape = s.shape := by
  have null : s.buddies root = ⟨none,none,none⟩ := plain.buddies
  simp only [clearBuddies,Sched.shape,env.clearBuddies_null _ _ _ null,null]

theorem shape_treeEnqueueEntity (plain : s.shape.Plain) (e : Nat) :
    s.shape.Inserted e (treeEnqueueEntity env s root e).shape := by
  let before entry := decide (entityKey s root e < entityKey s root entry)
  obtain ⟨front,back,old,new,first⟩ := link_split e before (s.cfs root).tasksTimeline
  have head := link_head e before (s.cfs root).tasksTimeline
  have cached : (s.cfs root).rbLeftmost = (inorder (s.cfs root).tasksTimeline).head? := plain.leftmost
  refine ⟨front,back,old,?_⟩
  simp only [treeEnqueueEntity,Sched.shape,Sched.setCfs,Shape.setTimeline,Function.update_self,
    env.rb.inorder_insertColor,Shape.mk.injEq,and_true,true_and]
  refine ⟨new,?_⟩
  rw [← new,head,cached]

theorem shape_treeDequeueEntity (plain : s.shape.Plain) (member : e ∈ s.shape.timeline) :
    (treeDequeueEntity env s root e).shape = s.shape.erase e := by
  have cached : (s.cfs root).rbLeftmost = (inorder (s.cfs root).tasksTimeline).head? := plain.leftmost
  have head := erase_head e (inorder (s.cfs root).tasksTimeline)
  simp only [treeDequeueEntity,Sched.shape,Sched.setCfs,Shape.erase,Shape.setTimeline,
    Function.update_self,env.rb.inorder_erase e _ member,Shape.mk.injEq,and_true,true_and]
  rw [head,cached]

end Frame

section Task

variable (env : Platform) {s : Sched}

/-- The sequence after an entity other than the current one is inserted. -/
def Shape.Queued (m : Shape) (e : Nat) (m' : Shape) : Prop :=
  if m.current = some e then m' = m else m.Inserted e m'

theorem Shape.Queued.frame (queued : Shape.Queued m e m') :
    m'.onRq = m.onRq ∧ m'.current = m.current ∧ m'.running = m.running := by
  unfold Shape.Queued at queued
  split at queued
  · subst queued; exact ⟨rfl,rfl,rfl⟩
  · obtain ⟨_,_,_,rfl⟩ := queued; exact ⟨rfl,rfl,rfl⟩

theorem shape_ite (c : Prop) [Decidable c] {a b : Sched} (ha : a.shape = s.shape)
    (hb : b.shape = s.shape) : (if c then a else b).shape = s.shape := by
  split
  · exact ha
  · exact hb

/-- Virtual times other than those of the current entity stand still. -/
theorem vruntime_updateCurr (other : s.shape.current ≠ some x) (now : U64) :
    ((updateCurr env s root now).entity x).vruntime = (s.entity x).vruntime := by
  unfold updateCurr
  split
  · rfl
  next e here =>
    have different : x ≠ e := fun same => other (same ▸ here)
    dsimp only
    split
    · rfl
    · simp [updateMinVruntime,Sched.setCfs,Sched.setEntity,different]

theorem entity_updateMinVruntime (env : Platform) (s : Sched) (q : Nat) :
    (updateMinVruntime env s q).entity = s.entity := rfl

theorem entity_accountEntityDequeue (env : Platform) (s : Sched) (q e : Nat) :
    (accountEntityDequeue env s q e).entity = s.entity := rfl

theorem vruntime_setEntity (other : x ≠ e) (edit : SchedEntity → SchedEntity) :
    ((s.setEntity e edit).entity x).vruntime = (s.entity x).vruntime := by
  simp [Sched.setEntity,other]

/-- `enqueue_entity` brings times and counters up to date before it touches the tree. -/
theorem enqueueEntity_prepared (env : Platform) (s : Sched) (e : Nat) (flags : EnqueueFlags) (now : U64) :
    ∃ s', s'.shape = { s.shape with nr := s.shape.nr + 1 } ∧
      (∀ x, x ≠ e → s.shape.current ≠ some x → (s'.entity x).vruntime = (s.entity x).vruntime) ∧
      enqueueEntity env s root e flags now =
        (if s.shape.current = some e then s' else treeEnqueueEntity env s' root e).setEntity e
          fun se => { se with onRq := true } := by
  unfold enqueueEntity
  dsimp only
  generalize first : (if (!flags.wakeup || flags.waking) = true then
    s.setEntity e fun se => { se with vruntime := se.vruntime + (s.cfs root).minVruntime } else s) = s₁
  have same₁ : s₁.shape = s.shape := by
    rw [← first]
    exact shape_ite _ (shape_setVruntime s e (· + (s.cfs root).minVruntime)) rfl
  generalize second : accountEntityEnqueue env (updateCurr env s₁ root now) root e = s₂
  have counted : s₂.shape = { s.shape with nr := s.shape.nr + 1 } := by
    rw [← second,shape_accountEntityEnqueue,shape_updateCurr,same₁]
  generalize third : (if flags.wakeup = true then placeEntity env s₂ root e false else s₂) = s₃
  have placed : s₃.shape = { s.shape with nr := s.shape.nr + 1 } := by
    rw [← third,shape_ite _ (shape_placeEntity env s₂ e false) rfl,counted]
  refine ⟨s₃,placed,fun x other elsewhere => ?_,?_⟩
  · calc (s₃.entity x).vruntime = (s₂.entity x).vruntime := by
          rw [← third]
          split
          · unfold placeEntity
            exact vruntime_setEntity other _
          · rfl
      _ = ((updateCurr env s₁ root now).entity x).vruntime := by rw [← second]; rfl
      _ = (s₁.entity x).vruntime := vruntime_updateCurr env (by rw [same₁]; exact elsewhere) now
      _ = (s.entity x).vruntime := by
          rw [← first]
          split
          · exact vruntime_setEntity other _
          · rfl
  · have current : (s₃.cfs root).curr = s.shape.current := congrArg Shape.current placed
    rw [current]

theorem shape_enqueueEntity (plain : s.shape.Plain) (e : Nat) (flags : EnqueueFlags) (now : U64) :
    ∃ m, s.shape.Queued e m ∧ (enqueueEntity env s root e flags now).shape =
      { m with onRq := Function.update m.onRq e true, nr := m.nr + 1 } := by
  obtain ⟨s',placed,_,eq⟩ := enqueueEntity_prepared env s e flags now
  rw [eq,shape_setOnRq]
  by_cases here : s.shape.current = some e
  · refine ⟨s.shape,by simp [Shape.Queued,here],?_⟩
    rw [if_pos here,placed]
  · obtain ⟨front,back,old,new⟩ := shape_treeEnqueueEntity env (s := s')
      (by rw [placed]; exact ⟨plain.leftmost,plain.buddies⟩) e
    rw [placed] at old
    refine ⟨s.shape.setTimeline (front ++ e :: back),?_,?_⟩
    · rw [Shape.Queued,if_neg here]
      exact ⟨front,back,old,rfl⟩
    · rw [if_neg here,new,placed]
      rfl

theorem shape_dequeueEntity (plain : s.shape.Plain)
    (member : s.shape.current ≠ some e → e ∈ s.shape.timeline) (sleep : Bool) (now : U64) :
    (dequeueEntity env s root e sleep now).shape =
      let m := if s.shape.current = some e then s.shape else s.shape.erase e
      { m with onRq := Function.update m.onRq e false, nr := m.nr - 1 } := by
  unfold dequeueEntity
  dsimp only
  generalize first : clearBuddies env (updateCurr env s root now) root (some e) = s₁
  have same₁ : s₁.shape = s.shape := by
    rw [← first,shape_clearBuddies env (by rw [shape_updateCurr]; exact plain),shape_updateCurr]
  have current : (s₁.cfs root).curr = s.shape.current := congrArg Shape.current same₁
  rw [shape_updateMinVruntime,shape_ite _ rfl (shape_setVruntime _ e (· - _)),
    shape_accountEntityDequeue,shape_setOnRq,current]
  split
  · rw [same₁]
  next here =>
    rw [shape_treeDequeueEntity env (by rw [same₁]; exact plain) (by rw [same₁]; exact member here),same₁]

theorem vruntime_dequeueEntity (other : x ≠ e) (elsewhere : s.shape.current ≠ some x) (sleep : Bool)
    (now : U64) : ((dequeueEntity env s root e sleep now).entity x).vruntime = (s.entity x).vruntime := by
  have charged := vruntime_updateCurr env elsewhere now
  unfold dequeueEntity
  dsimp only
  rw [entity_updateMinVruntime]
  split
  · rw [entity_accountEntityDequeue,vruntime_setEntity other]
    split <;> exact charged
  · rw [vruntime_setEntity other,entity_accountEntityDequeue,vruntime_setEntity other]
    split <;> exact charged

def Sched.addHNr (s : Sched) (f : Nat → Nat) : Sched :=
  s.setCfs root fun c => { c with hNrRunning := f c.hNrRunning }

/-- What both operations on a task count once its entity is done. -/
theorem shape_counted (s : Sched) (f g : Nat → Nat) :
    Sched.shape (let s' := s.addHNr f; { s' with nrRunning := g s'.nrRunning }) =
      { s.shape with hNr := f s.shape.hNr, total := g s.shape.total } := by
  simp [Sched.shape,Sched.addHNr,Sched.setCfs]

/-- On the flat queue both walks consist of one entity. -/
theorem enqueueTaskFair_flat (off : (s.entity p).onRq = false) (flags : EnqueueFlags)
    (clock : Nat → U64) : enqueueTaskFair env flat s p flags clock =
      let s' := (enqueueEntity env s root p flags (clock root)).addHNr (· + 1)
      { s' with nrRunning := s'.nrRunning + 1 } := by
  simp [enqueueTaskFair,enqueueLoop,countLoop,flat,off,Sched.addHNr]

theorem dequeueTaskFair_flat (p : Nat) (sleep : Bool) (clock : Nat → U64) :
    dequeueTaskFair env flat s p sleep clock =
      let s' := (dequeueEntity env s root p sleep (clock root)).addHNr (· - 1)
      { s' with nrRunning := s'.nrRunning - 1 } := by
  simp only [dequeueTaskFair,dequeueLoop,flat,Bool.false_eq_true,if_false]
  split <;> simp [countLoop,Sched.addHNr]

theorem shape_enqueueTaskFair (plain : s.shape.Plain) (off : s.shape.onRq p = false)
    (flags : EnqueueFlags) (clock : Nat → U64) :
    ∃ m, s.shape.Queued p m ∧ (enqueueTaskFair env flat s p flags clock).shape =
      { m with
        onRq := Function.update m.onRq p true
        nr := m.nr + 1
        hNr := m.hNr + 1
        total := m.total + 1 } := by
  obtain ⟨m,queued,eq⟩ := shape_enqueueEntity env plain p flags (clock root)
  refine ⟨m,queued,?_⟩
  rw [enqueueTaskFair_flat env off]
  exact (shape_counted _ (· + 1) (· + 1)).trans (by rw [eq])

theorem onRq_enqueueTaskFair (plain : s.shape.Plain) (off : s.shape.onRq p = false)
    (flags : EnqueueFlags) (clock : Nat → U64) :
    (enqueueTaskFair env flat s p flags clock).shape.onRq = Function.update s.shape.onRq p true := by
  obtain ⟨m,queued,eq⟩ := shape_enqueueTaskFair env plain off flags clock
  rw [eq,← queued.frame.1]

theorem shape_dequeueTaskFair (plain : s.shape.Plain)
    (member : s.shape.current ≠ some p → p ∈ s.shape.timeline) (sleep : Bool) (clock : Nat → U64) :
    (dequeueTaskFair env flat s p sleep clock).shape =
      let m := if s.shape.current = some p then s.shape else s.shape.erase p
      { m with
        onRq := Function.update m.onRq p false
        nr := m.nr - 1
        hNr := m.hNr - 1
        total := m.total - 1 } := by
  have eq := shape_dequeueEntity env plain member sleep (clock root)
  rw [dequeueTaskFair_flat]
  exact (shape_counted _ (· - 1) (· - 1)).trans (by rw [eq])

end Task

section Pick

variable (env : Platform) {s : Sched}

/-- A hint is to be compared with the first entity of an empty tree. -/
def Shape.followsNull (m : Shape) : Bool := m.leftmost.isNone && (m.buddies.last.isSome || m.buddies.next.isSome)

/-- Without a current entity nothing but the hints is compared with a null pointer. -/
theorem pickNextEntity_snd (s : Sched) : (pickNextEntity env s root none).2 =
    clearBuddies env { s with nullDeref := s.nullDeref || s.shape.followsNull } root
      (pickNextEntity env s root none).1 := by
  unfold pickNextEntity Shape.followsNull Sched.shape
  dsimp only
  cases left : (s.cfs root).rbLeftmost with
  | none => simp [secondEntity,left]
  | some l => rfl

/-- Without buddies the first entity of the tree is picked. -/
theorem pickNextEntity_plain (plain : s.shape.Plain) :
    (pickNextEntity env s root none).1 = s.shape.leftmost ∧
    (pickNextEntity env s root none).2.shape = s.shape := by
  have null : s.buddies root = ⟨none,none,none⟩ := plain.buddies
  have first : (pickNextEntity env s root none).1 = s.shape.leftmost := by
    simp only [pickNextEntity,null,preferBuddy]
    cases left : (s.cfs root).rbLeftmost with
    | none => simp [secondEntity,left,Sched.shape]
    | some l => simp [left,Sched.shape]
  have followed : { s with nullDeref := s.nullDeref || s.shape.followsNull } = s := by
    simp [Shape.followsNull,plain.buddies]
  refine ⟨first,?_⟩
  rw [pickNextEntity_snd,followed]
  exact shape_clearBuddies env plain _

/-- `set_next_entity` takes an entity that is queued out of the tree. -/
theorem setNextEntity_shape (s : Sched) (e : Nat) (now : U64) : (setNextEntity env s root e now).shape =
    { (if s.shape.onRq e = true then treeDequeueEntity env s root e else s).shape with current := some e } := by
  unfold setNextEntity
  refine (shape_setEntity _ e _ ?_).trans (shape_setCurr _ _)
  exact fun _ => rfl

theorem shape_setNextEntity (plain : s.shape.Plain) (member : e ∈ s.shape.timeline)
    (on : s.shape.onRq e = true) (now : U64) :
    (setNextEntity env s root e now).shape = { s.shape.erase e with current := some e } := by
  rw [setNextEntity_shape,if_pos on,shape_treeDequeueEntity env plain member]

/-- Taking the first entity of the tree, if there is one. -/
def Shape.pickFirst (m : Shape) : Option Nat × Shape :=
  match m.timeline with
  | [] => (none,m)
  | e :: rest => (some e,{ m.setTimeline rest with current := some e })

theorem shape_pickFirst (plain : s.shape.Plain) (queued : ∀ e ∈ s.shape.timeline, s.shape.onRq e = true)
    (now : U64) : ((pickFirst env s now).1,(pickFirst env s now).2.shape) = s.shape.pickFirst := by
  obtain ⟨picked,same⟩ := pickNextEntity_plain env plain
  rw [plain.leftmost] at picked
  unfold pickFirst Shape.pickFirst
  generalize pickNextEntity env s root none = result at picked same
  obtain ⟨choice,s'⟩ := result
  dsimp only at picked same
  cases sequence : s.shape.timeline with
  | nil =>
    rw [sequence] at picked
    subst picked
    simp [same]
  | cons e rest =>
    rw [sequence] at picked
    subst picked
    have member : e ∈ s'.shape.timeline := by rw [same,sequence]; exact List.mem_cons_self
    have next := shape_setNextEntity env (by rw [same]; exact plain) member
      (by rw [same]; exact queued e (by rw [sequence]; exact List.mem_cons_self)) now
    simp only [List.head?_cons,next,same,Shape.erase,sequence,List.erase_cons_head]

theorem shape_putPrevEntity (plain : s.shape.Plain) (p : Nat) (now : U64) :
    ∃ m, (if s.shape.onRq p = true then s.shape.Inserted p m else m = s.shape) ∧
      (putPrevEntity env s root p now).shape = { m with current := none } := by
  simp only [putPrevEntity,shape_setCurr]
  rw [show s.shape.onRq p = (s.entity p).onRq from rfl]
  split
  · have inserted := shape_treeEnqueueEntity env (s := updateCurr env s root now)
      (by rw [shape_updateCurr]; exact plain) p
    rw [shape_updateCurr] at inserted
    exact ⟨_,inserted,rfl⟩
  · exact ⟨_,rfl,rfl⟩

/-- Putting an entity back keeps the marks, and afterwards it waits with the others. -/
theorem Shape.put_collects (moved : if m.onRq p = true then Shape.Inserted m p m' else m' = m) :
    m'.onRq = m.onRq ∧ (∀ f ∈ m.timeline, f ∈ m'.timeline) ∧ (m.onRq p = true → p ∈ m'.timeline) := by
  split at moved
  next =>
    have perm := moved.perm
    obtain ⟨_,_,_,rfl⟩ := moved
    exact ⟨rfl,fun f member => perm.mem_iff.mpr (List.mem_cons_of_mem _ member),
      fun _ => perm.mem_iff.mpr List.mem_cons_self⟩
  next off =>
    subst moved
    exact ⟨rfl,fun _ member => member,fun on => absurd on off⟩

theorem Shape.Plain.inserted (plain : m.Plain) (inserted : Shape.Inserted m e m') : m'.Plain := by
  obtain ⟨front,back,_,rfl⟩ := inserted
  exact ⟨rfl,plain.buddies⟩

/-- The ways `pick_next_task_fair` can end. -/
inductive Shape.Picked (m : Shape) : Option Nat → Option Nat × Shape → Prop where
  | nothing : m.nr = 0 → Picked m prev (none,m)
  | first : m.nr ≠ 0 → Picked m none m.pickFirst
  | kept : m.nr ≠ 0 → m.onRq p = true → m.timeline ≠ [] → Picked m (some p) (some p,m)
  | put : m.nr ≠ 0 → (if m.onRq p = true then m.Inserted p m' else m' = m) →
      Picked m (some p) { m' with current := none }.pickFirst

theorem shape_pickNextTaskFair (plain : s.shape.Plain)
    (queued : ∀ e ∈ s.shape.timeline, s.shape.onRq e = true) (h : Hierarchy) (prev : Option Nat)
    (clock : Nat → U64) : s.shape.Picked prev ((pickNextTaskFair env h s prev clock).1,
      (pickNextTaskFair env h s prev clock).2.shape) := by
  unfold pickNextTaskFair
  by_cases idle : (s.cfs root).nrRunning = 0
  · rw [if_pos idle]
    exact .nothing idle
  · rw [if_neg idle]
    cases prev with
    | none =>
      simp only [shape_pickFirst env plain queued]
      exact .first idle
    | some p =>
      have same := shape_updateCurr env s (clock 0)
      dsimp only
      generalize updateCurr env s root (clock 0) = s₁ at same
      rw [← same] at plain queued ⊢
      have busy : s₁.shape.nr ≠ 0 := by rw [same]; exact idle
      split
      next keeps =>
        simp only [keepsPrev,Bool.and_eq_true] at keeps
        refine .kept busy keeps.1.1 ?_
        intro empty
        have first : (s₁.cfs root).rbLeftmost = none := by
          rw [show (s₁.cfs root).rbLeftmost = _ from plain.leftmost,empty]; rfl
        simp [first] at keeps
      next =>
        obtain ⟨m,moved,eq⟩ := shape_putPrevEntity env plain p (clock 1)
        have plain' : { m with current := none }.Plain := by
          split at moved
          · exact ⟨(plain.inserted moved).leftmost,(plain.inserted moved).buddies⟩
          · subst moved; exact ⟨plain.leftmost,plain.buddies⟩
        have queued' : ∀ e ∈ m.timeline, m.onRq e = true := by
          split at moved
          next on =>
            intro e member
            have same : m.onRq = s₁.shape.onRq := by obtain ⟨_,_,_,rfl⟩ := moved; rfl
            rw [same]
            rcases List.mem_cons.mp (moved.perm.mem_iff.mp member) with rfl | old
            · exact on
            · exact queued e old
          · subst moved; exact queued
        rw [shape_pickFirst env (by rw [eq]; exact plain') (by rw [eq]; exact queued'),eq]
        exact .put busy moved

end Pick

end Kernal.Cfs
