import Kernal.CfsOrder
import Kernal.CfsRequeue
import Kernal.FairShare

/-! Rows of `schedule` calls while the same tasks stay queued. Whoever is furthest behind runs
and is charged for it, so that a bound on the charges is a bound on how far virtual times
come apart, and nobody waits forever. -/
namespace Kernal.Cfs

open SearchTree Wraparound FairShare

def Shape.queued (m : Shape) : Finset Nat :=
  m.timeline.toFinset ∪ (m.current.filter fun e => m.onRq e).toFinset

/-- `entity_key` with all its bits. -/
def Sched.key (s : Sched) (e : Nat) : Int := (s.lag e).toInt

section Charge

variable (env : Platform) (s : Sched)

def spent (p : Nat) (now : U64) : Nat :=
  (((updateCurr env s root now).entity p).vruntime - (s.entity p).vruntime).toNat

def turnCharge (clock : Nat → U64) : Nat :=
  match s.curr with
  | none => 0
  | some p =>
    let s₁ := updateCurr env s root (clock 0)
    spent env s p (clock 0) + if keepsPrev flat s₁ p then 0 else spent env s₁ p (clock 1)

def turns (clocks : List (Nat → U64)) : Sched := clocks.foldl (schedule env flat) s

end Charge

theorem Shape.Consistent.mem_queued {m : Shape} (c : m.Consistent) : e ∈ m.queued ↔ m.onRq e = true := by
  rw [queued,Finset.mem_union,List.mem_toFinset,Option.mem_toFinset,Option.mem_filter_iff]
  constructor
  · rintro (member | ⟨_,on⟩)
    · exact (c.listed e member).1
    · exact on
  · intro on
    exact (c.on_listed e on).imp_right fun here => ⟨here,on⟩

theorem Shape.Consistent.card_queued {m : Shape} (c : m.Consistent) : m.queued.card = m.nr := by
  have apart : Disjoint m.timeline.toFinset (m.current.filter fun e => m.onRq e).toFinset := by
    rw [Finset.disjoint_left]
    intro e listed current
    rw [Option.mem_toFinset,Option.mem_filter_iff] at current
    exact c.apart e current.1 (List.mem_toFinset.mp listed)
  have current : (m.current.filter fun e => m.onRq e).toFinset.card = m.currentCount := by
    unfold currentCount
    cases m.current with
    | none => rfl
    | some e => cases on : m.onRq e <;> simp [Option.filter_some,on]
  rw [queued,Finset.card_union_of_disjoint apart,List.toFinset_card_of_nodup c.once,current,c.count]

section Update

variable {env : Platform} {s : Sched} {p : Nat}

/-- `update_curr` does nothing, or charges the current entity and moves `min_vruntime`. -/
theorem updateCurr_charged (env : Platform) (here : s.shape.current = some p) (now : U64) :
    updateCurr env s root now = s ∨ ∃ edit : SchedEntity → SchedEntity, (∀ se, (edit se).onRq = se.onRq) ∧
      updateCurr env s root now = updateMinVruntime env (s.setEntity p edit) root := by
  unfold updateCurr
  rw [show (s.cfs root).curr = some p from here]
  dsimp only
  split
  · exact .inl rfl
  · refine .inr ⟨_,?_,rfl⟩
    exact fun se => (calcDeltaFair_weight env _ se).2

theorem Sched.key_sub {x y : Nat} (hx : Fits 31 (s.lag x)) (hy : Fits 31 (s.lag y)) :
    ((s.entity y).vruntime - (s.entity x).vruntime).toInt = s.key y - s.key x := by
  obtain ⟨lowX,highX⟩ := hx
  obtain ⟨lowY,highY⟩ := hy
  rw [← sub_sub_sub_cancel_right _ _ (s.cfs root).minVruntime]
  exact toInt_sub_of_small (n := 33) (by decide) (by unfold Sched.lag at *; omega) (by unfold Sched.lag at *; omega)

/-- `update_min_vruntime` moves to the entity that is furthest behind. -/
theorem updateMinVruntime_follows (order : BySign env) (consistent : s.shape.Consistent)
    (sorted : s.shape.timeline.Pairwise (NotAhead s)) (here : s.shape.current = some p)
    (on : (s.entity p).onRq = true) (keys : ∀ e ∈ s.shape.queued, 0 ≤ s.key e ∧ s.key e < 2^31) :
    ∃ q ∈ s.shape.queued, ((updateMinVruntime env s root).cfs root).minVruntime = (s.entity q).vruntime ∧
      ∀ e ∈ s.shape.queued, s.key q ≤ s.key e := by
  have current : (s.cfs root).curr.filter (fun e => (s.entity e).onRq) = some p := by
    rw [show (s.cfs root).curr = some p from here,Option.filter_some,if_pos on]
  have cached : (s.cfs root).rbLeftmost = s.shape.timeline.head? := consistent.leftmost
  have self : p ∈ s.shape.queued := consistent.mem_queued.mpr on
  have fits {e : Nat} (member : e ∈ s.shape.queued) : Fits 31 (s.lag e) := by
    have key := keys e member
    exact ⟨by unfold Sched.key at key; omega,key.2⟩
  have place {e : Nat} (member : e ∈ s.shape.queued) : e = p ∨ e ∈ s.shape.timeline := by
    rcases consistent.on_listed e (consistent.mem_queued.mp member) with listed | same
    · exact .inr listed
    · exact .inl (Option.some.inj (same.symm.trans here))
  -- Nobody is behind `min_vruntime`, so that any candidate is taken.
  have taken {q : Nat} (member : q ∈ s.shape.queued) :
      env.maxVruntime (s.cfs root).minVruntime (s.entity q).vruntime = (s.entity q).vruntime := by
    rw [order.greatest]
    split
    · rfl
    next behind =>
      have zero : s.lag q = 0 := by
        apply BitVec.eq_of_toInt_eq
        exact Int.le_antisymm (Int.not_lt.mp behind) (keys q member).1
      exact (sub_eq_zero.mp zero).symm
  simp only [updateMinVruntime,Sched.setCfs,Function.update_self,current]
  rw [cached]
  cases sequence : s.shape.timeline with
  | nil =>
    refine ⟨p,self,taken self,fun e member => ?_⟩
    rcases place member with rfl | listed
    · exact Int.le_refl _
    · rw [sequence] at listed
      contradiction
  | cons l rest =>
    have first : l ∈ s.shape.queued := by
      apply consistent.mem_queued.mpr
      apply (consistent.listed l _).1
      rw [sequence]
      exact List.mem_cons_self
    have before {e : Nat} (member : e ∈ s.shape.queued) (listed : e ∈ s.shape.timeline) : s.key l ≤ s.key e := by
      rw [sequence] at sorted listed
      rcases List.mem_cons.mp listed with rfl | later
      · exact Int.le_refl _
      · exact (notAhead_iff (fits first) (fits member)).mp ((List.pairwise_cons.mp sorted).1 e later)
    simp only [List.head?_cons]
    rw [order.least,Sched.key_sub (fits self) (fits first)]
    by_cases earlier : s.key l - s.key p < 0
    · rw [if_pos earlier]
      refine ⟨l,first,taken first,fun e member => ?_⟩
      rcases place member with rfl | listed
      · omega
      · exact before member listed
    · rw [if_neg earlier]
      refine ⟨p,self,taken self,fun e member => ?_⟩
      rcases place member with rfl | listed
      · exact Int.le_refl _
      · have := before member listed
        omega

theorem advance_updateCurr (order : BySign env) (consistent : s.shape.Consistent)
    (sorted : s.shape.timeline.Pairwise (NotAhead s)) (here : s.shape.current = some p)
    (on : (s.entity p).onRq = true) (now : U64) (keys : ∀ e ∈ s.shape.queued, 0 ≤ s.key e ∧ s.key e < 2^31)
    (own : s.key p + spent env s p now < 2^31) :
    Advance s.shape.queued p s.key (spent env s p now) (updateCurr env s root now).key := by
  have self : p ∈ s.shape.queued := consistent.mem_queued.mpr on
  rcases updateCurr_charged env here now with same | ⟨edit,marks,moved⟩
  · have free : spent env s p now = 0 := by
      rw [spent,same,BitVec.sub_self]
      rfl
    rw [same,free]
    refine ⟨⟨0,Int.le_refl 0,fun e _ => ?_,.inl ⟨rfl,rfl⟩⟩,fun e member => (keys e member).1⟩
    simp only [Int.natCast_zero,Int.add_zero,ite_self]
  have paid : spent env s p now = (((s.setEntity p edit).entity p).vruntime - (s.entity p).vruntime).toNat := by
    rw [spent,moved,entity_updateMinVruntime]
  have shape := shape_setEntity s p edit marks
  have minimum : ((s.setEntity p edit).cfs root).minVruntime = (s.cfs root).minVruntime := rfl
  have others {e : Nat} (other : e ≠ p) : (s.setEntity p edit).key e = s.key e := by
    rw [Sched.key,Sched.lag,vruntime_setEntity other,minimum,Sched.key,Sched.lag]
  have itself : (s.setEntity p edit).key p = s.key p + spent env s p now := by
    have low := (keys p self).1
    have sum : (s.setEntity p edit).lag p =
        s.lag p + (((s.setEntity p edit).entity p).vruntime - (s.entity p).vruntime) := by
      rw [Sched.lag,Sched.lag,minimum]
      exact (sub_add_sub_cancel' _ _ _).symm
    have small : (((s.setEntity p edit).entity p).vruntime - (s.entity p).vruntime).toInt = spent env s p now := by
      rw [paid]
      apply BitVec.toInt_eq_toNat_of_lt
      omega
    rw [Sched.key,sum,← small]
    apply toInt_add_of_small (n := 31) (by decide)
    · rw [small]
      unfold Sched.key at low
      omega
    · rw [small]
      exact own
  have waits : ∀ e ∈ s.shape.timeline, e ≠ p := by
    rintro e listed rfl
    exact consistent.apart e here listed
  have still : (s.setEntity p edit).shape.timeline.Pairwise (NotAhead (s.setEntity p edit)) := by
    rw [shape]
    exact sorted_congr sorted fun e listed => vruntime_setEntity (waits e listed) edit
  have onward : ((s.setEntity p edit).entity p).onRq = true := by
    change (s.setEntity p edit).shape.onRq p = true
    rw [shape]
    exact on
  have charged : ∀ e ∈ s.shape.queued, (s.setEntity p edit).key e =
      if e = p then s.key e + spent env s p now else s.key e := by
    intro e _
    by_cases same : e = p
    · rw [if_pos same,same,itself]
    · rw [if_neg same,others same]
  rw [moved]
  rw [← shape] at keys self here consistent ⊢
  generalize s.setEntity p edit = s₁ at *
  have bounds : ∀ e ∈ s₁.shape.queued, 0 ≤ s₁.key e ∧ s₁.key e < 2^31 := by
    intro e member
    have key := keys e member
    rw [charged e (by rw [← shape]; exact member)]
    split
    next same =>
      subst same
      omega
    · exact key
  obtain ⟨q,member,base,least⟩ := updateMinVruntime_follows order consistent still here onward bounds
  have fits {e : Nat} (member : e ∈ s₁.shape.queued) : Fits 31 (s₁.lag e) := by
    have key := bounds e member
    exact ⟨by unfold Sched.key at key; omega,key.2⟩
  have final {e : Nat} (inside : e ∈ s₁.shape.queued) :
      (updateMinVruntime env s₁ root).key e = s₁.key e - s₁.key q := by
    rw [Sched.key,Sched.lag,base,entity_updateMinVruntime]
    exact Sched.key_sub (fits member) (fits inside)
  refine ⟨⟨s₁.key q,(bounds q member).1,fun e inside => ?_,.inr ⟨q,member,?_⟩⟩,fun e inside => ?_⟩
  · rw [final inside,Int.sub_add_cancel]
    exact charged e (by rw [← shape]; exact inside)
  · rw [final member,Int.sub_self]
  · rw [final inside]
    have behind := least e inside
    omega

end Update

section Turn

/-- The running task is furthest behind and at most `d` ahead of `min_vruntime`, and the others
are at most `d` ahead of it. -/
structure Even (d : Nat) (s : Sched) (p : Nat) : Prop where
  consistent : s.shape.Consistent
  sorted : s.shape.timeline.Pairwise (NotAhead s)
  running : s.curr = some p
  on : (s.entity p).onRq = true
  close : ∀ e, (s.entity e).onRq = true → 0 ≤ ((s.entity e).vruntime - (s.entity p).vruntime).toInt ∧
    ((s.entity e).vruntime - (s.entity p).vruntime).toInt ≤ d
  based : 0 ≤ s.key p ∧ s.key p ≤ d

variable {env : Platform} {s : Sched} {p d : Nat}

theorem Even.level (even : Even d s p) (narrow : 2 * d < 2^31) : Together s.shape.queued d s.key p := by
  have key {e : Nat} (member : e ∈ s.shape.queued) :
      s.key e = s.key p + ((s.entity e).vruntime - (s.entity p).vruntime).toInt := by
    have close := even.close e (even.consistent.mem_queued.mp member)
    have based := even.based
    have sum : s.lag e = s.lag p + ((s.entity e).vruntime - (s.entity p).vruntime) := by
      rw [Sched.lag,Sched.lag,add_comm]
      exact (sub_add_sub_cancel _ _ _).symm
    unfold Sched.key at based ⊢
    rw [sum]
    exact toInt_add_of_small (n := 31) (by decide) (by omega) (by omega)
  refine ⟨even.consistent.mem_queued.mpr even.on,fun e member => ?_,fun e member => ?_,even.based⟩
  · have close := even.close e (even.consistent.mem_queued.mp member)
    rw [key member]
    omega
  · have close := even.close e (even.consistent.mem_queued.mp member)
    rw [key member]
    omega

theorem Even.bounds (even : Even d s p) (narrow : 2 * d < 2^31) :
    ∀ e ∈ s.shape.queued, 0 ≤ s.key e ∧ s.key e < 2^31 := by
  have level := even.level narrow
  have based := level.based
  intro e member
  have least := level.least e member
  have spread := level.spread e member
  omega

theorem SameTimes.key {s s' : Sched} (same : SameTimes s s') : s'.key = s.key := by
  funext e
  rw [Sched.key,same.lag,Sched.key]

/-- The exchange of tasks moves nobody but the one that ran. -/
theorem Even.advance (order : BySign env) (narrow : 2 * d < 2^31) (even : Even d s p) (clock : Nat → U64)
    (most : turnCharge env s clock ≤ d) :
    let s' := (pickNextTaskFair env flat s s.curr clock).2
    Advance s.shape.queued p s.key (turnCharge env s clock) s'.key ∧ s'.shape.onRq = s.shape.onRq := by
  have level := even.level narrow
  have here : s.shape.current = some p := even.consistent.running p even.running
  have busy : (s.cfs root).nrRunning ≠ 0 := even.consistent.some_queued even.on
  have same := shape_updateCurr env s (clock 0)
  unfold turnCharge at most ⊢
  unfold pickNextTaskFair
  rw [even.running] at most ⊢
  rw [if_neg busy]
  dsimp only at most ⊢
  have own : s.key p + spent env s p (clock 0) < 2^31 := by
    have based := level.based
    omega
  have first := advance_updateCurr order even.consistent even.sorted here even.on (clock 0)
    (even.bounds narrow) own
  have still := (InOrder.charged env ⟨even.consistent.toSteady,even.sorted⟩ (clock 0)).sorted
  generalize spent env s p (clock 0) = c at most own first
  generalize updateCurr env s root (clock 0) = s₁ at most first same still ⊢
  split
  next keeps =>
    exact ⟨first,congrArg Shape.onRq same⟩
  next leaves =>
    rw [if_neg leaves] at most
    have on : (s₁.entity p).onRq = true := (congrFun (congrArg Shape.onRq same) p).trans even.on
    have times : SameTimes (updateCurr env s₁ root (clock 1))
        (pickFirst env (putPrevEntity env s₁ root p (clock 1)) (clock 2)).2 := by
      refine SameTimes.trans ?_ (sameTimes_pickFirst ..)
      unfold putPrevEntity
      rw [if_pos on]
      exact (sameTimes_treeEnqueueEntity ..).trans (sameTimes_setCurr ..)
    have limits : ∀ e ∈ s.shape.queued, 0 ≤ s₁.key e ∧ s₁.key e < 2^31 := by
      intro e member
      have bounded := level.bounded first (by omega) e member
      exact ⟨first.nonneg e member,by omega⟩
    have below : s₁.key p + spent env s₁ p (clock 1) < 2^31 := by
      obtain ⟨base,forward,moved,_⟩ := first.times
      have paid := moved p level.member
      have based := level.based
      rw [if_pos rfl] at paid
      omega
    rw [← same] at limits first ⊢
    have second := advance_updateCurr order (by rw [same]; exact even.consistent) still
      (by rw [same]; exact here) on (clock 1) limits below
    refine ⟨?_,?_⟩
    · rw [times.key,Int.natCast_add]
      exact first.trans second
    · obtain ⟨m,put,shape⟩ := shape_putPrevEntity env (by rw [same]; exact even.consistent.toPlain) p (clock 1)
      rw [onRq_pickFirst,shape]
      exact (Shape.put_collects put).1

/-- `schedule` on a flat queue with a queued entity. -/
theorem schedule_picked (env : Platform) (consistent : s.shape.Consistent) (busy : s.shape.nr ≠ 0) (clock : Nat → U64) :
    ∃ e, (pickNextTaskFair env flat s s.curr clock).1 = some e ∧
      schedule env flat s clock = { (pickNextTaskFair env flat s s.curr clock).2 with curr := some e } := by
  have agree : s.nrRunning = (s.cfs root).hNrRunning := consistent.total.trans consistent.hNr.symm
  have picked := shape_pickNextTaskFair env consistent.toPlain (fun e member => (consistent.listed e member).1)
    flat s.curr clock
  obtain ⟨e,chosen,_⟩ := consistent.picked busy picked
  refine ⟨e,chosen,?_⟩
  simp only [schedule,pickNextTask,if_pos agree]
  generalize pickNextTaskFair env flat s s.curr clock = result at chosen ⊢
  obtain ⟨choice,s'⟩ := result
  dsimp only at chosen ⊢
  subst chosen
  rfl

/-- The choice is a queued task. -/
theorem Even.picks_queued (even : Even d s p) (clock : Nat → U64)
    (chosen : (pickNextTaskFair env flat s s.curr clock).1 = some e) : (s.entity e).onRq = true := by
  have consistent := even.consistent
  have listed (e : Nat) (member : e ∈ s.shape.timeline) := (consistent.listed e member).1
  have ready : Shape.Ready (fun e => s.shape.onRq e = true) s.shape s.curr :=
    { leftmost := consistent.leftmost
      buddies := consistent.buddies
      once := consistent.once
      apart := consistent.apart
      listed := fun e member => ⟨listed e member,listed e member⟩
      outside := fun p prev => consistent.apart p (consistent.running p prev)
      mayQueue := fun _ _ on => on
      place := fun p prev _ => .inl (consistent.running p prev) }
  exact ((ready.picked (shape_pickNextTaskFair env consistent.toPlain listed flat s.curr clock)).2 e chosen).1

/-- A call of `schedule`. -/
theorem Even.schedule (order : BySign env) (narrow : 2 * d < 2^31) (even : Even d s p) (clock : Nat → U64)
    (most : turnCharge env s clock ≤ d) : ∃ p', Even d (schedule env flat s clock) p' ∧
      (Cfs.schedule env flat s clock).shape.onRq = s.shape.onRq ∧
      Advance s.shape.queued p s.key (turnCharge env s clock) (Cfs.schedule env flat s clock).key := by
  have level := even.level narrow
  have queued {e : Nat} := even.consistent.mem_queued (e := e)
  obtain ⟨advance,marks⟩ := even.advance order narrow clock most
  obtain ⟨next,_⟩ := schedule_consistent env even.consistent clock
  obtain ⟨p',chosen,eq⟩ := schedule_picked env even.consistent (even.consistent.some_queued even.on) clock
  have on : p' ∈ s.shape.queued := queued.mpr (even.picks_queued clock chosen)
  have limits (e : Nat) (member : e ∈ s.shape.queued) :=
    And.intro (advance.nonneg e member) (level.bounded advance (by omega) e member)
  have prevCurrent : PrevCurrent s s.curr := fun p prev _ => even.consistent.running p prev
  have collected : Collected s s.curr := fun f on =>
    (even.consistent.on_listed f on).imp_right fun here => even.consistent.owner f here on
  have order' : InOrder s := ⟨even.consistent.toSteady,even.sorted⟩
  have pick := order'.pick env prevCurrent clock
  rw [eq] at next ⊢
  generalize (pickNextTaskFair env flat s s.curr clock).2 = s' at advance marks next limits pick ⊢
  have fits {e : Nat} (member : e ∈ s.shape.queued) : Fits 31 (s'.lag e) := by
    have limit := limits e member
    unfold Sched.key at limit
    exact ⟨by omega,by omega⟩
  have marked {e : Nat} (on : (s'.entity e).onRq = true) : e ∈ s.shape.queued :=
    queued.mpr ((congrFun marks e).symm.trans on)
  obtain ⟨final,behind⟩ := pick fun e on => fits (marked on)
  have least : ∀ e ∈ s.shape.queued, s'.key p' ≤ s'.key e := by
    intro e member
    apply (notAhead_iff (fits on) (fits member)).mp
    exact behind collected p' chosen e ((congrFun marks e).trans (queued.mp member))
  have level' := level.next advance (Int.natCast_nonneg _) (by omega) on least
  have running := (congrFun marks p').trans (queued.mp on)
  refine ⟨p',⟨next,final.sorted,rfl,running,fun e marks => ?_,level'.based⟩,marks,advance⟩
  have spread := level'.spread e (marked marks)
  have behind := least e (marked marks)
  rw [Sched.key_sub (fits on) (fits (marked marks))]
  omega

def Charges (env : Platform) (low high : Nat) : Sched → List (Nat → U64) → Prop
  | _, [] => True
  | s, clock :: clocks => low ≤ turnCharge env s clock ∧ turnCharge env s clock ≤ high ∧
      Charges env low high (schedule env flat s clock) clocks

theorem Even.turns (order : BySign env) (narrow : 2 * d < 2^31) (even : Even d s p) {low : Nat}
    (clocks : List (Nat → U64)) (charges : Charges env low d s clocks) :
    ∃ p', Even d (turns env s clocks) p' ∧ (Cfs.turns env s clocks).shape.onRq = s.shape.onRq := by
  induction clocks generalizing s p with
  | nil => exact ⟨p,even,rfl⟩
  | cons clock clocks ih =>
    obtain ⟨_,most,rest⟩ := charges
    obtain ⟨p₁,even₁,marks₁,_⟩ := even.schedule order narrow clock most
    obtain ⟨p',even',marks⟩ := ih even₁ rest
    exact ⟨p',even',marks.trans marks₁⟩

/-- However often `schedule` is called, virtual times come apart no further than one turn may
cost, and the task that is furthest behind runs. -/
theorem spread_bounded (order : BySign env) (narrow : 2 * d < 2^31) (even : Even d s p)
    (clocks : List (Nat → U64)) (charges : Charges env 0 d s clocks) :
    let s' := turns env s clocks
    ∃ p', s'.curr = some p' ∧ Behind s' p' ∧ ∀ e f, (s'.entity e).onRq = true → (s'.entity f).onRq = true →
      ((s'.entity e).vruntime - (s'.entity f).vruntime).toInt ≤ d ∧
        -d ≤ ((s'.entity e).vruntime - (s'.entity f).vruntime).toInt := by
  obtain ⟨p',even',_⟩ := even.turns order narrow clocks charges
  refine ⟨p',even'.running,fun f on => (even'.close f on).1,fun e f onE onF => ?_⟩
  have level := even'.level narrow
  have queued {e : Nat} := even'.consistent.mem_queued (e := e)
  have fits {e : Nat} (on : ((turns env s clocks).entity e).onRq = true) : Fits 31 ((turns env s clocks).lag e) := by
    have bounds := even'.bounds narrow e (queued.mpr on)
    unfold Sched.key at bounds
    exact ⟨by omega,bounds.2⟩
  have leastE := level.least e (queued.mpr onE)
  have leastF := level.least f (queued.mpr onF)
  have spreadE := level.spread e (queued.mpr onE)
  have spreadF := level.spread f (queued.mpr onF)
  rw [Sched.key_sub (fits onF) (fits onE)]
  omega

def pairRunning : Sched :=
  schedule basePlatform flat (enqueueTaskFair basePlatform flat
    (enqueueTaskFair basePlatform flat (emptySched fun _ => 1024) 1 ⟨false,false⟩ fun _ => 0) 2 ⟨false,false⟩
    fun _ => 0) fun _ => 0

theorem pairRunning_even : Even 5 pairRunning 1 := by
  have run : FlatRun basePlatform NotStale pairRunning :=
    .schedule _ (.enqueue _ _ (.enqueue _ _ (.start rfl) rfl (by decide)) (by decide) (by decide))
  have consistent := run.consistent
  have waiting : pairRunning.shape.timeline = [2] := by decide
  refine ⟨consistent,waiting ▸ List.pairwise_singleton _ 2,by decide,by decide,fun e on => ?_,by decide⟩
  have member := consistent.mem_queued.mpr on
  rw [show pairRunning.shape.queued = {1,2} by decide,Finset.mem_insert,Finset.mem_singleton] at member
  rcases member with rfl | rfl <;> decide

theorem pairRunning_charges :
    Charges basePlatform 5 5 pairRunning [fun _ => 5,fun _ => 10] :=
  ⟨by decide,by decide,by decide,by decide,trivial⟩

theorem spread_bounded_pair :
    let s' := turns basePlatform pairRunning [fun _ => 5,fun _ => 10]
    ∃ p', s'.curr = some p' ∧ Behind s' p' ∧ ∀ e f, (s'.entity e).onRq = true → (s'.entity f).onRq = true →
      ((s'.entity e).vruntime - (s'.entity f).vruntime).toInt ≤ 5 ∧
        -5 ≤ ((s'.entity e).vruntime - (s'.entity f).vruntime).toInt :=
  spread_bounded ⟨fun _ _ => rfl,fun _ _ => rfl⟩ (by decide) pairRunning_even _
    ⟨by decide,by decide,by decide,by decide,trivial⟩

theorem Even.served (order : BySign env) (narrow : 2 * d < 2^31) (even : Even d s p) {least : Nat}
    (positive : 0 < least) (on : (s.entity f).onRq = true) (clocks : List (Nat → U64))
    (charges : Charges env least d s clocks) (enough : waits least s.shape.queued s.key f ≤ clocks.length) :
    ∃ front, front <+: clocks ∧ (Cfs.turns env s front).curr = some f := by
  induction clocks generalizing s p with
  | nil =>
    by_cases here : p = f
    · exact ⟨[],List.nil_prefix,here ▸ even.running⟩
    · have waiting : 0 < waits least s.shape.queued s.key f :=
        waits_pos (even.level narrow) here (even.consistent.mem_queued.mpr on)
      rw [List.length_nil] at enough
      omega
  | cons clock clocks ih =>
    by_cases here : p = f
    · exact ⟨[],List.nil_prefix,here ▸ even.running⟩
    · obtain ⟨charged,most,rest⟩ := charges
      have member := even.consistent.mem_queued.mpr on
      obtain ⟨p',even',marks,advance⟩ := even.schedule order narrow clock most
      have falls := waits_falls positive (even.level narrow) advance (by exact_mod_cast charged) here member
      have same : (Cfs.schedule env flat s clock).shape.queued = s.shape.queued := by
        ext e
        rw [even'.consistent.mem_queued,even.consistent.mem_queued,marks]
      rw [List.length_cons] at enough
      obtain ⟨front,isFront,served⟩ := ih even' ((congrFun marks f).trans on) rest (by rw [same]; omega)
      exact ⟨clock :: front,List.prefix_cons_inj clock |>.mpr isFront,served⟩

/-- Every queued task gets its turn: each of the others is served at most once more than its
lead and the least charge allow. -/
theorem nobody_starves (order : BySign env) (narrow : 2 * d < 2^31) (even : Even d s p) {least : Nat}
    (positive : 0 < least) (clocks : List (Nat → U64)) (charges : Charges env least d s clocks)
    (enough : ((s.cfs root).nrRunning - 1) * (d / least + 1) ≤ clocks.length) (f : Nat)
    (on : (s.entity f).onRq = true) :
    ∃ front, front <+: clocks ∧ (turns env s front).curr = some f := by
  apply even.served order narrow positive on clocks charges
  have bound : waits least s.shape.queued s.key f ≤ _ :=
    waits_le (even.level narrow) (even.consistent.mem_queued.mpr on)
  rw [even.consistent.card_queued] at bound
  exact Nat.le_trans bound enough

theorem nobody_starves_pair :
    ∃ front, front <+: [fun _ => 5,fun _ => 10] ∧ (turns basePlatform pairRunning front).curr = some 2 :=
  nobody_starves ⟨fun _ _ => rfl,fun _ _ => rfl⟩ (by decide) pairRunning_even (by decide) _ pairRunning_charges
    (by decide) 2 (by decide)

end Turn

end Kernal.Cfs
