import Kernal.CfsMembership
import Kernal.Wraparound

/-! The order of the tree. Virtual times have 64 bits, the keys of the tree only 32.
While no key of a queued entity loses bits, every operation leaves the tree sorted by
virtual time, and its first entity is the one furthest behind. -/
namespace Kernal.Cfs

open SearchTree Wraparound

def Sched.lag (s : Sched) (e : Nat) : U64 := (s.entity e).vruntime - (s.cfs root).minVruntime

/-- The virtual time of `b`, read as a signed distance from that of `a`, is not negative. -/
def NotAhead (s : Sched) (a b : Nat) : Prop := 0 ≤ ((s.entity b).vruntime - (s.entity a).vruntime).toInt

/-- No key of a queued entity loses bits. -/
def Narrow (s : Sched) : Prop := ∀ e, (s.entity e).onRq = true → Fits 31 (s.lag e)

section Order

variable {env : Platform} {s s' s'' : Sched}

theorem entityKey_lag (fits : Fits 31 (s.lag e)) : entityKey s root e = (s.lag e).toInt :=
  fits.toInt_setWidth (by decide)

theorem notAhead_iff (ha : Fits 31 (s.lag a)) (hb : Fits 31 (s.lag b)) :
    NotAhead s a b ↔ (s.lag a).toInt ≤ (s.lag b).toInt :=
  ha.sub_nonneg_iff hb (by decide)

theorem notAhead_self (s : Sched) (e : Nat) : NotAhead s e e := by simp [NotAhead]

structure SameTimes (s s' : Sched) : Prop where
  vruntime : ∀ e, (s'.entity e).vruntime = (s.entity e).vruntime
  minVruntime : (s'.cfs root).minVruntime = (s.cfs root).minVruntime

theorem SameTimes.trans (first : SameTimes s s') (second : SameTimes s' s'') : SameTimes s s'' where
  vruntime e := (second.vruntime e).trans (first.vruntime e)
  minVruntime := second.minVruntime.trans first.minVruntime

theorem SameTimes.lag (same : SameTimes s s') (e : Nat) : s'.lag e = s.lag e := by
  rw [Sched.lag,same.vruntime,same.minVruntime,Sched.lag]

theorem SameTimes.notAhead (same : SameTimes s s') : NotAhead s' = NotAhead s := by
  funext a b
  rw [NotAhead,same.vruntime,same.vruntime,NotAhead]

theorem sameTimes_treeEnqueueEntity (env : Platform) (s : Sched) (e : Nat) :
    SameTimes s (treeEnqueueEntity env s root e) where
  vruntime _ := rfl
  minVruntime := by simp [treeEnqueueEntity,Sched.setCfs]

/-- What `enqueue_task_fair` does once the entity is in the tree. -/
theorem sameTimes_marked (s : Sched) (p total : Nat) :
    SameTimes s { (s.setEntity p fun se => { se with onRq := true }).addHNr (· + 1) with
      nrRunning := total } where
  vruntime e := by by_cases same : e = p <;> simp [Sched.setEntity,Sched.addHNr,Sched.setCfs,same]
  minVruntime := by simp [Sched.setEntity,Sched.addHNr,Sched.setCfs]

theorem timeline_marked (s : Sched) (p total : Nat) :
    (Sched.shape { (s.setEntity p fun se => { se with onRq := true }).addHNr (· + 1) with
      nrRunning := total }).timeline = s.shape.timeline := by
  simp [Sched.shape,Sched.setEntity,Sched.addHNr,Sched.setCfs]

theorem sameTimes_setCurr (s : Sched) (o : Option Nat) :
    SameTimes s (s.setCfs root fun c => { c with curr := o }) where
  vruntime _ := rfl
  minVruntime := by simp [Sched.setCfs]

theorem sameTimes_setNextEntity (env : Platform) (s : Sched) (e : Nat) (now : U64) :
    SameTimes s (setNextEntity env s root e now) where
  vruntime x := by
    by_cases same : x = e <;> by_cases on : (s.entity e).onRq = true <;>
      simp [setNextEntity,treeDequeueEntity,Sched.setEntity,Sched.setCfs,same,on]
  minVruntime := by
    by_cases on : (s.entity e).onRq = true <;>
      simp [setNextEntity,treeDequeueEntity,Sched.setEntity,Sched.setCfs,on]

theorem sameTimes_pickFirst (env : Platform) (s : Sched) (now : U64) :
    SameTimes s (pickFirst env s now).2 := by
  have cleared : SameTimes s (pickNextEntity env s root none).2 := ⟨fun _ => rfl,rfl⟩
  unfold pickFirst
  split
  next answer =>
    rw [answer] at cleared
    exact cleared
  next e _ answer =>
    rw [answer] at cleared
    exact cleared.trans (sameTimes_setNextEntity env _ e now)

theorem onRq_pickFirst (env : Platform) (s : Sched) (now : U64) :
    (pickFirst env s now).2.shape.onRq = s.shape.onRq := by
  have marked (t : Sched) (e : Nat) : (setNextEntity env t root e now).shape.onRq = t.shape.onRq := by
    funext x
    by_cases same : x = e <;> by_cases on : (t.entity e).onRq = true <;>
      simp [setNextEntity,treeDequeueEntity,Sched.shape,Sched.setEntity,Sched.setCfs,same,on]
  have cleared : (pickNextEntity env s root none).2.shape.onRq = s.shape.onRq := rfl
  unfold pickFirst
  split
  next answer =>
    rw [answer] at cleared
    exact cleared
  next e _ answer =>
    rw [answer] at cleared
    exact (marked _ e).trans cleared

theorem SameTimes.narrow_iff (same : SameTimes s s') (marks : s'.shape.onRq = s.shape.onRq) :
    Narrow s' ↔ Narrow s := by
  have marks (e : Nat) : (s'.entity e).onRq = (s.entity e).onRq := congrFun marks e
  unfold Narrow
  simp only [same.lag,marks]

theorem sorted_congr {l : List Nat} (sorted : l.Pairwise (NotAhead s))
    (same : ∀ e ∈ l, (s'.entity e).vruntime = (s.entity e).vruntime) : l.Pairwise (NotAhead s') := by
  refine sorted.imp_of_mem fun ha hb ahead => ?_
  unfold NotAhead
  rw [same _ ha,same _ hb]
  exact ahead

/-- The place found by comparing keys is right when the keys are. -/
theorem sorted_treeEnqueueEntity (sorted : s.shape.timeline.Pairwise (NotAhead s))
    (fits : ∀ x, x = e ∨ x ∈ s.shape.timeline → Fits 31 (s.lag x)) :
    (treeEnqueueEntity env s root e).shape.timeline.Pairwise (NotAhead s) := by
  let before entry := decide (entityKey s root e < entityKey s root entry)
  have sequence : (treeEnqueueEntity env s root e).shape.timeline =
      inorder (link e before (s.cfs root).tasksTimeline) := by
    simp [treeEnqueueEntity,Sched.shape,Sched.setCfs,env.rb.inorder_insertColor,before]
  have keys : (inorder (s.cfs root).tasksTimeline).Pairwise fun a b => (s.lag a).toInt ≤ (s.lag b).toInt :=
    sorted.imp_of_mem fun ha hb => (notAhead_iff (fits _ (.inr ha)) (fits _ (.inr hb))).mp
  have agrees : ∀ y ∈ inorder (s.cfs root).tasksTimeline,
      before y = true ↔ (s.lag e).toInt < (s.lag y).toInt := by
    intro y member
    simp only [before,decide_eq_true_eq,entityKey_lag (fits e (.inl rfl)),
      entityKey_lag (fits y (.inr member))]
  have members {x : Nat} (member : x ∈ inorder (link e before (s.cfs root).tasksTimeline)) :
      Fits 31 (s.lag x) :=
    fits x (List.mem_cons.mp ((link_perm e before _).mem_iff.mp member))
  rw [sequence]
  exact (link_sorted _ before keys agrees).imp_of_mem fun ha hb =>
    (notAhead_iff (members ha) (members hb)).mpr

end Order

structure InOrder (s : Sched) : Prop where
  steady : s.shape.Steady fun _ => True
  sorted : s.shape.timeline.Pairwise (NotAhead s)

section Steps

variable (env : Platform) {s : Sched}

theorem InOrder.outside_current (order : InOrder s) (member : e ∈ s.shape.timeline) :
    s.shape.current ≠ some e :=
  fun here => order.steady.apart e here member

theorem InOrder.charged (order : InOrder s) (now : U64) : InOrder (updateCurr env s root now) where
  steady := by
    rw [shape_updateCurr]
    exact order.steady
  sorted := by
    rw [shape_updateCurr]
    exact sorted_congr order.sorted fun e member => vruntime_updateCurr env (order.outside_current member) now

theorem InOrder.enqueue (order : InOrder s) (off : (s.entity p).onRq = false) (flags : EnqueueFlags)
    (clock : Nat → U64) (narrow : Narrow (enqueueTaskFair env flat s p flags clock)) :
    InOrder (enqueueTaskFair env flat s p flags clock) := by
  have absent := order.steady.off_absent off
  obtain ⟨m,queued,shape⟩ := shape_enqueueTaskFair env order.steady.toPlain off flags clock
  refine ⟨by rw [shape]; exact order.steady.enqueued queued off trivial ..,?_⟩
  obtain ⟨s₁,placed,frame,eq⟩ := enqueueEntity_prepared env s p flags (clock root)
  have sorted₁ : s₁.shape.timeline.Pairwise (NotAhead s₁) := by
    rw [placed]
    exact sorted_congr order.sorted fun e member =>
      frame e (fun same => absent (same ▸ member)) (order.outside_current member)
  have final := enqueueTaskFair_flat env off flags clock
  rw [eq] at final
  have marked {x : Nat} (inside : x = p ∨ x ∈ s₁.shape.timeline) :
      ((enqueueTaskFair env flat s p flags clock).entity x).onRq = true := by
    change (enqueueTaskFair env flat s p flags clock).shape.onRq x = true
    rw [shape,queued.frame.1]
    by_cases same : x = p
    · simp [same]
    · have old := inside.resolve_left same
      rw [placed] at old
      simpa [same] using (order.steady.listed x old).1
  split at final
  next here =>
    rw [final,timeline_marked,(sameTimes_marked ..).notAhead]
    exact sorted₁
  next elsewhere =>
    have fits (x : Nat) (inside : x = p ∨ x ∈ s₁.shape.timeline) : Fits 31 (s₁.lag x) := by
      have key := narrow x (marked inside)
      rw [final,(sameTimes_marked ..).lag,(sameTimes_treeEnqueueEntity ..).lag] at key
      exact key
    rw [final,timeline_marked,(sameTimes_marked ..).notAhead,(sameTimes_treeEnqueueEntity ..).notAhead]
    exact sorted_treeEnqueueEntity sorted₁ fits

theorem InOrder.dequeue (order : InOrder s)
    (member : s.shape.current ≠ some p → p ∈ s.shape.timeline) (sleep : Bool) (clock : Nat → U64) :
    InOrder (dequeueTaskFair env flat s p sleep clock) := by
  have shape := shape_dequeueTaskFair env order.steady.toPlain member sleep clock
  refine ⟨by rw [shape]; exact order.steady.dequeued p ..,?_⟩
  have left : (dequeueTaskFair env flat s p sleep clock).shape.timeline.Sublist s.shape.timeline ∧
      p ∉ (dequeueTaskFair env flat s p sleep clock).shape.timeline := by
    rw [shape]
    dsimp only
    split
    next here => exact ⟨.refl _,order.steady.apart p here⟩
    next => exact ⟨List.erase_sublist,order.steady.once.not_mem_erase⟩
  refine sorted_congr (order.sorted.sublist left.1) fun e inside => ?_
  have other : e ≠ p := by
    rintro rfl
    exact left.2 inside
  rw [dequeueTaskFair_flat]
  exact vruntime_dequeueEntity env other (order.outside_current (left.1.mem inside)) sleep _

theorem InOrder.put (order : InOrder s) (absent : p ∉ s.shape.timeline) (now : U64)
    (narrow : Narrow (putPrevEntity env s root p now)) : InOrder (putPrevEntity env s root p now) := by
  obtain ⟨m,moved,shape⟩ := shape_putPrevEntity env order.steady.toPlain p now
  refine ⟨by rw [shape]; exact order.steady.put absent (fun _ => trivial) moved,?_⟩
  have charged := order.charged env now
  unfold putPrevEntity at narrow ⊢
  dsimp only at narrow ⊢
  rw [(sameTimes_setCurr ..).notAhead,shape_setCurr]
  split at narrow
  next on =>
    have fits (x : Nat) (inside : x = p ∨ x ∈ (updateCurr env s root now).shape.timeline) :
        Fits 31 ((updateCurr env s root now).lag x) := by
      have marked : (updateCurr env s root now).shape.onRq x = true := by
        rcases inside with rfl | inside
        · rw [shape_updateCurr]; exact on
        · exact (charged.steady.listed x inside).1
      have key := narrow x marked
      rw [(sameTimes_setCurr ..).lag,(sameTimes_treeEnqueueEntity ..).lag] at key
      exact key
    rw [if_pos on,(sameTimes_treeEnqueueEntity ..).notAhead]
    exact sorted_treeEnqueueEntity charged.sorted fits
  next off =>
    rw [if_neg off]
    exact order.sorted

/-- Everything queued is in the tree, apart from the previous task. -/
def Collected (s : Sched) (prev : Option Nat) : Prop :=
  ∀ f, s.shape.onRq f = true → f ∈ s.shape.timeline ∨ prev = some f

def Behind (s : Sched) (e : Nat) : Prop := ∀ f, (s.entity f).onRq = true → NotAhead s e f

/-- The first entity of the tree is furthest behind. -/
theorem InOrder.first (order : InOrder s) (now : U64) :
    InOrder (pickFirst env s now).2 ∧
    (Collected s none → ∀ e, (pickFirst env s now).1 = some e → Behind (pickFirst env s now).2 e) := by
  have eq := shape_pickFirst env order.steady.toPlain
    (fun e member => (order.steady.listed e member).1) now
  have same := sameTimes_pickFirst env s now
  have marks := onRq_pickFirst env s now
  generalize pickFirst env s now = result at eq same marks ⊢
  obtain ⟨choice,s'⟩ := result
  dsimp only at eq same marks ⊢
  have sorted := order.sorted
  have steady := order.steady.pickFirst
  rw [← eq] at steady
  unfold Shape.pickFirst at eq
  split at eq
  next =>
    obtain ⟨rfl,shape⟩ := Prod.mk.inj eq
    refine ⟨⟨by rw [shape]; exact order.steady,?_⟩,fun _ e none => by contradiction⟩
    rw [shape,same.notAhead]
    exact sorted
  next e rest sequence =>
    obtain ⟨rfl,shape⟩ := Prod.mk.inj eq
    rw [sequence] at sorted
    obtain ⟨least,sorted⟩ := List.pairwise_cons.mp sorted
    refine ⟨⟨?_,?_⟩,?_⟩
    · rcases steady with ⟨none,_⟩ | ⟨_,_,some,_,steady,_⟩
      · cases none
      · cases some; exact steady
    · rw [shape,same.notAhead]
      exact sorted
    · rintro collected _ ⟨⟩ f on
      have member := (collected f ((congrFun marks f).symm.trans on)).resolve_right
        (Option.some_ne_none f).symm
      rw [sequence] at member
      rw [same.notAhead]
      rcases List.mem_cons.mp member with rfl | member
      · exact notAhead_self s f
      · exact least f member

/-- Putting the previous entity back and then taking the first one. -/
theorem InOrder.exchange (order : InOrder s) (absent : p ∉ s.shape.timeline) (charge now : U64)
    (narrow : Narrow (pickFirst env (putPrevEntity env s root p charge) now).2) :
    InOrder (pickFirst env (putPrevEntity env s root p charge) now).2 ∧
    (Collected s (some p) → ∀ e, (pickFirst env (putPrevEntity env s root p charge) now).1 = some e →
      Behind (pickFirst env (putPrevEntity env s root p charge) now).2 e) := by
  obtain ⟨m,moved,put⟩ := shape_putPrevEntity env order.steady.toPlain p charge
  have next := order.put env absent charge
  generalize putPrevEntity env s root p charge = s' at put next narrow ⊢
  have fits := ((sameTimes_pickFirst env s' now).narrow_iff (onRq_pickFirst env s' now)).mp narrow
  obtain ⟨final,least⟩ := (next fits).first env now
  refine ⟨final,fun collected => least fun f on => .inl ?_⟩
  obtain ⟨kept,others,itself⟩ := Shape.put_collects moved
  rw [put] at on ⊢
  dsimp only at on
  rw [kept] at on
  rcases collected f on with inside | same
  · exact others f inside
  · obtain rfl := Option.some.inj same
    exact itself on

def PrevCurrent (s : Sched) (prev : Option Nat) : Prop :=
  ∀ p, prev = some p → (s.entity p).onRq = true → (s.cfs root).curr = some p

def CurrentPrev (s : Sched) (prev : Option Nat) : Prop :=
  ∀ p, (s.cfs root).curr = some p → (s.entity p).onRq = true → prev = some p

/-- The comparison that lets the previous task run on. -/
theorem InOrder.kept (order : InOrder s) (narrow : Narrow s) (keeps : keepsPrev flat s p = true)
    (collected : Collected s (some p)) : Behind s p := by
  simp only [keepsPrev,Bool.and_eq_true] at keeps
  obtain ⟨⟨on,_⟩,compared⟩ := keeps
  have fits {x : Nat} (member : x ∈ s.shape.timeline) : Fits 31 (s.lag x) :=
    narrow x (order.steady.listed x member).1
  have cached : (s.cfs root).rbLeftmost = s.shape.timeline.head? := order.steady.leftmost
  have sorted := order.sorted
  intro f queued
  rcases collected f queued with member | same
  case inr =>
    obtain rfl := Option.some.inj same
    exact notAhead_self s p
  rw [cached] at compared
  cases sequence : s.shape.timeline with
  | nil => rw [sequence] at member; contradiction
  | cons l rest =>
    have first : l ∈ s.shape.timeline := by rw [sequence]; exact List.mem_cons_self
    have below : (s.lag p).toInt ≤ (s.lag l).toInt := by
      rw [sequence] at compared
      simpa [entityKey_lag (narrow p on),entityKey_lag (fits first)] using compared
    have least : (s.lag l).toInt ≤ (s.lag f).toInt := by
      rw [sequence] at member sorted
      rcases List.mem_cons.mp member with rfl | later
      · exact le_refl _
      · have behind := (List.pairwise_cons.mp sorted).1 f later
        rw [← sequence] at member
        exact (notAhead_iff (fits first) (fits member)).mp behind
    exact (notAhead_iff (narrow p on) (fits member)).mpr (below.trans least)

/-- The choice of `pick_next_task_fair` from a tree in order: the tree stays in order, and
when nothing queued is elsewhere the choice is furthest behind. -/
theorem InOrder.pick (order : InOrder s) (prevCurrent : PrevCurrent s prev) (clock : Nat → U64)
    (narrow : Narrow (pickNextTaskFair env flat s prev clock).2) :
    InOrder (pickNextTaskFair env flat s prev clock).2 ∧
    (Collected s prev → ∀ e, (pickNextTaskFair env flat s prev clock).1 = some e →
      Behind (pickNextTaskFair env flat s prev clock).2 e) := by
  unfold pickNextTaskFair at narrow ⊢
  split
  · exact ⟨order,fun _ e none => by contradiction⟩
  next busy =>
    rw [if_neg busy] at narrow
    cases prev with
    | none => exact order.first env (clock 2)
    | some p =>
      have shape := shape_updateCurr env s (clock 0)
      have charged := order.charged env (clock 0)
      dsimp only at narrow ⊢
      generalize updateCurr env s root (clock 0) = s₁ at shape charged narrow ⊢
      have collected₁ (collected : Collected s (some p)) : Collected s₁ (some p) := by
        unfold Collected
        rw [shape]
        exact collected
      split
      next keeps =>
        rw [if_pos keeps] at narrow
        refine ⟨charged,fun collected => ?_⟩
        rintro _ ⟨⟩
        exact charged.kept narrow keeps (collected₁ collected)
      next leaves =>
        rw [if_neg leaves] at narrow
        have absent : p ∉ s₁.shape.timeline := by
          rw [shape]
          cases on : (s.entity p).onRq with
          | false => exact order.steady.off_absent on
          | true => exact order.steady.apart p (prevCurrent p rfl on)
        obtain ⟨final,least⟩ := charged.exchange env absent (clock 1) (clock 2) narrow
        exact ⟨final,fun collected => least (collected₁ collected)⟩

theorem Member.collected (member : Member s) (currentPrev : CurrentPrev s prev) : Collected s prev := by
  intro f on
  rcases (member.queued f).mp on with inside | ⟨here,on⟩
  · exact .inl inside
  · exact .inr (currentPrev f here on)

end Steps

end Kernal.Cfs
