import Kernal.CfsHints
import Kernal.CfsMembership

/-! What the operations keep of hints, tree and marks. Whatever takes an entity off the queue
clears the hints that name it. The tree holds queued entities only, as long as every node
taken out of it was in it. -/
namespace Kernal.Cfs

open SearchTree

namespace Shape

theorem HintsQueued.enqueued (queued : HintsQueued m) (enqueued : Enqueued m p m') : HintsQueued m' := by
  intro e named
  rw [enqueued.buddies] at named
  rw [enqueued.onRq]
  by_cases here : e = p
  · simp [here]
  · simp [here,queued e named]

theorem HintsQueued.dequeued (queued : HintsQueued m) (dequeued : Dequeued rb m p m') : HintsQueued m' := by
  intro e named
  rw [dequeued.buddies] at named
  obtain ⟨named,other⟩ := Buddies.clear_names named
  have different : e ≠ p := fun same => other (same ▸ rfl)
  rw [dequeued.onRq,Function.update_of_ne different]
  exact queued e named

theorem HintsQueued.clear (queued : HintsQueued m) (onRq : m'.onRq = m.onRq)
    (buddies : m'.buddies = m.buddies.clear se) : HintsQueued m' := by
  intro e named
  rw [buddies] at named
  rw [onRq]
  exact queued e (Buddies.clear_names named).1

theorem HintsQueued.takesFirst (queued : HintsQueued m) (takes : TakesFirst rb m result) :
    HintsQueued result.2 := by
  cases takes with
  | empty => exact queued.clear rfl rfl
  | taken taken => exact queued.clear taken.onRq taken.buddies

theorem HintsQueued.put (queued : HintsQueued m) (put : Put m p m') : HintsQueued m' := by
  intro e named
  rw [put.buddies] at named
  rw [put.onRq]
  exact queued e named

theorem HintsQueued.picks (queued : HintsQueued m) (picks : Picks rb m prev result) :
    HintsQueued result.2 := by
  cases picks with
  | nothing | kept => exact queued
  | first takes => exact queued.takesFirst takes
  | put put takes => exact (queued.put put).takesFirst takes

/-- What waits in the tree is queued and awake, and `rq->curr` is the current entity. -/
structure Settled (awake : Nat → Prop) (m : Shape) : Prop where
  lists : m.Lists fun e => m.Waiting e ∧ awake e
  running : ∀ e, m.running = some e → m.current = some e

/-- Counters and hints do not matter. -/
theorem Settled.congr {awake' : Nat → Prop} (settled : Settled awake m) {hNr total : Nat} {buddies : Buddies}
    (still : ∀ e ∈ m.timeline, awake e → awake' e) : Settled awake' { m with hNr, total, buddies } :=
  ⟨(settled.lists.mono fun e member found => ⟨found.1,still e member found.2⟩).same ⟨rfl,rfl⟩,settled.running⟩

theorem Settled.enqueued (settled : Settled awake m) (off : m.onRq p = false) (up : awake p)
    (enqueued : Enqueued m p m') : Settled awake m' := by
  have lists : m'.Lists fun e => e = p ∧ m.current ≠ some p ∨ m.Waiting e ∧ awake e := by
    have tree := enqueued.tree
    split at tree
    · exact (settled.lists.same tree).mono fun e _ waiting => .inr waiting
    next other =>
      have fresh : p ∉ m.timeline := fun member => by
        simpa [off] using (settled.lists.listed p member).1.1
      exact (settled.lists.linked tree fresh).mono fun e _ found => found.imp_left fun same => ⟨same,other⟩
  refine ⟨lists.mono fun e _ found => ?_,?_⟩
  · rw [Waiting,enqueued.onRq,enqueued.current]
    rcases found with ⟨rfl,other⟩ | ⟨⟨on,other⟩,up⟩
    · exact ⟨⟨by simp,other⟩,up⟩
    · refine ⟨⟨?_,other⟩,up⟩
      have different : e ≠ p := fun same => by simp [same,off] at on
      rw [Function.update_of_ne different]
      exact on
  · rw [enqueued.running,enqueued.current]
    exact settled.running

theorem Settled.dequeued (settled : Settled awake m) (member : m.current ≠ some p → p ∈ m.timeline)
    (dequeued : Dequeued rb m p m') : Settled awake m' := by
  have lists : m'.Lists fun e => e ≠ p ∧ m.Waiting e ∧ awake e := by
    have tree := dequeued.tree
    split at tree
    next here =>
      exact (settled.lists.same tree).mono fun e _ waiting =>
        ⟨fun same => waiting.1.2 (same ▸ here),waiting⟩
    next other => exact settled.lists.unlinked (member other) tree
  refine ⟨lists.mono fun e _ found => ?_,?_⟩
  · obtain ⟨different,⟨on,other⟩,up⟩ := found
    rw [Waiting,dequeued.onRq,dequeued.current,Function.update_of_ne different]
    exact ⟨⟨on,other⟩,up⟩
  · rw [dequeued.running,dequeued.current]
    exact settled.running

/-- What a pick needs: a task that is put back is the current entity and may wait, and the hints
that it may follow are in the tree then. -/
structure Pickable (awake : Nat → Prop) (m : Shape) (prev : Option Nat) : Prop where
  lists : m.Lists fun e => m.Waiting e ∧ awake e
  own : ∀ p, prev = some p → m.onRq p = true → m.current = some p ∧ awake p
  hinted : ∀ e, m.buddies.Suggests e → e ∈ m.timeline ∨ prev = some e ∧ m.onRq e = true

/-- What it gives: the queue stays in order once the answer runs, the answer was queued and awake,
and no null pointer is followed. -/
structure Answers (awake : Nat → Prop) (m : Shape) (result : Option Nat × Shape) : Prop where
  settled : Settled awake { result.2 with running := result.1 }
  chosen : ∀ e, result.1 = some e → m.onRq e = true ∧ awake e
  nullDeref : result.2.nullDeref = m.nullDeref

/-- With every hint in the tree a pick takes a node of it. -/
theorem Lists.takesFirst (lists : m.Lists fun e => m.Waiting e ∧ awake e)
    (hinted : ∀ e, m.buddies.Suggests e → e ∈ m.timeline) (takes : TakesFirst rb m result) :
    Answers awake m result := by
  have followed : m.followsNull = false := by
    refine Bool.eq_false_iff.mpr fun follows => ?_
    simp only [followsNull,Bool.and_eq_true,Bool.or_eq_true,Option.isNone_iff_eq_none,
      Option.isSome_iff_exists] at follows
    obtain ⟨none,⟨e,last⟩ | ⟨e,next⟩⟩ := follows
    · have member := hinted e (.inr last)
      rw [lists.cached,List.head?_eq_none_iff] at none
      simp [none] at member
    · have member := hinted e (.inl next)
      rw [lists.cached,List.head?_eq_none_iff] at none
      simp [none] at member
  cases takes with
  | empty =>
    refine ⟨⟨lists.same ⟨rfl,rfl⟩,fun e none => ?_⟩,fun e none => ?_,by simp [followed]⟩
    · contradiction
    · contradiction
  | @taken e m' taken =>
    have member : e ∈ m.timeline := taken.found.elim lists.found (hinted e)
    obtain ⟨⟨on,_⟩,up⟩ := lists.listed e member
    have tree := taken.tree
    rw [if_pos on] at tree
    have others : m'.Lists fun x => m'.Waiting x ∧ awake x := by
      refine (lists.unlinked member tree).mono fun x _ waiting => ?_
      obtain ⟨different,⟨on,_⟩,up⟩ := waiting
      rw [Waiting,taken.onRq,taken.current]
      exact ⟨⟨on,fun same => different (Option.some.inj same).symm⟩,up⟩
    refine ⟨⟨others.same ⟨rfl,rfl⟩,fun x here => ?_⟩,?_,?_⟩
    · exact taken.current.trans here
    · rintro x ⟨⟩
      exact ⟨on,up⟩
    · simp [taken.nullDeref,followed]

/-- Once the previous task is put back, all that may be picked is in the tree. -/
theorem Pickable.put (pickable : Pickable awake m (some p)) (put : Put m p m') :
    (m'.Lists fun e => m'.Waiting e ∧ awake e) ∧ ∀ e, m'.buddies.Suggests e → e ∈ m'.timeline := by
  have tree := put.tree
  have hinted (e : Nat) (suggested : m'.buddies.Suggests e) := pickable.hinted e (put.buddies ▸ suggested)
  have free (x : Nat) (on : m.onRq x = true) : m'.Waiting x := by
    rw [Waiting,put.onRq,put.current]
    exact ⟨on,by simp⟩
  split at tree
  next on =>
    obtain ⟨here,up⟩ := pickable.own p rfl on
    have fresh : p ∉ m.timeline := fun member => (pickable.lists.listed p member).1.2 here
    refine ⟨(pickable.lists.linked tree fresh).mono fun x _ found => ?_,fun e suggested => ?_⟩
    · rcases found with rfl | ⟨waiting,up⟩
      · exact ⟨free x on,up⟩
      · exact ⟨free x waiting.1,up⟩
    · rcases hinted e suggested with member | ⟨same,_⟩
      · exact tree.1.mem_iff.mpr (List.mem_cons_of_mem _ member)
      · exact tree.1.mem_iff.mpr (by simp [Option.some.inj same])
  next off =>
    refine ⟨(pickable.lists.same tree).mono fun x _ found => ⟨free x found.1.1,found.2⟩,fun e suggested => ?_⟩
    rw [tree.1]
    exact (hinted e suggested).resolve_right fun ⟨same,on⟩ => off (Option.some.inj same ▸ on)

theorem Pickable.picks (pickable : Pickable awake m prev) (picks : Picks rb m prev result) :
    Answers awake m result := by
  cases picks with
  | nothing => exact ⟨⟨pickable.lists.same ⟨rfl,rfl⟩,fun e none => by contradiction⟩,fun e none => by contradiction,rfl⟩
  | first takes =>
    exact pickable.lists.takesFirst (fun e suggested => (pickable.hinted e suggested).resolve_right (by simp)) takes
  | @kept p on =>
    obtain ⟨here,up⟩ := pickable.own p rfl on
    refine ⟨⟨pickable.lists.same ⟨rfl,rfl⟩,?_⟩,?_,rfl⟩
    · rintro e ⟨⟩
      exact here
    · rintro e ⟨⟩
      exact ⟨on,up⟩
  | put put takes =>
    obtain ⟨lists,hinted⟩ := pickable.put put
    obtain ⟨settled,chosen,nullDeref⟩ := lists.takesFirst hinted takes
    exact ⟨settled,fun e here => put.onRq ▸ chosen e here,nullDeref.trans put.nullDeref⟩

/-- Where the class had no answer it may be asked once more. -/
theorem Pickable.again (pickable : Pickable awake m prev) (picks : Picks rb m prev (none,m')) :
    Pickable awake m' prev ∧ m'.onRq = m.onRq := by
  cases picks with
  | nothing => exact ⟨pickable,rfl⟩
  | first takes =>
    cases takes with
    | empty => exact ⟨⟨pickable.lists.same ⟨rfl,rfl⟩,pickable.own,fun e suggested =>
        pickable.hinted e (Buddies.clear_suggests suggested)⟩,rfl⟩
  | @put p m₁ _ put takes =>
    obtain ⟨lists,hinted⟩ := pickable.put put
    cases takes with
    | empty nothing =>
      -- The tree is empty behind the put, so the previous task was not queued.
      have bare : m₁.timeline = [] := List.head?_eq_none_iff.mp (lists.cached.symm.trans nothing)
      have off : ¬m.onRq p = true := by
        intro on
        have tree := put.tree
        rw [if_pos on] at tree
        have member : p ∈ m₁.timeline := tree.1.mem_iff.mpr List.mem_cons_self
        simp [bare] at member
      refine ⟨⟨lists.same ⟨rfl,rfl⟩,fun q same on => ?_,fun e suggested => ?_⟩,put.onRq⟩
      · obtain rfl := Option.some.inj same
        exact absurd (put.onRq ▸ on) off
      · exact .inl (hinted e (Buddies.clear_suggests suggested))

theorem currentCount_congr {m m' : Shape} (onRq : m'.onRq = m.onRq) (current : m'.current = m.current) :
    m'.currentCount = m.currentCount := by
  rw [currentCount,currentCount,onRq,current]

theorem currentCount_off {m : Shape} (off : ∀ e, m.current = some e → m.onRq e = false) :
    m.currentCount = 0 := by
  unfold currentCount
  split
  · rfl
  next e here => rw [off e here]; rfl

theorem currentCount_on {m : Shape} (here : m.current = some e) (on : m.onRq e = true) :
    m.currentCount = 1 := by
  simp [currentCount,here,on]

/-- Every queued entity is in the tree or is the current one, whose task then runs. -/
structure Located (m : Shape) : Prop extends Settled (fun _ => True) m where
  placed : ∀ e, m.onRq e = true → e ∈ m.timeline ∨ m.current = some e
  owner : ∀ e, m.current = some e → m.onRq e = true → m.running = some e
  count : m.nr = m.timeline.length + m.currentCount

structure Gathered (m : Shape) : Prop where
  lists : m.Lists fun e => m.Waiting e ∧ True
  placed : ∀ e, m.onRq e = true → e ∈ m.timeline
  idle : ∀ e, m.current = some e → m.onRq e = false
  count : m.nr = m.timeline.length

theorem Located.enqueued (located : Located m) (off : m.onRq p = false)
    (fresh : m.current = some p → m.running = some p) (enqueued : Enqueued m p m') : Located m' := by
  have tree := enqueued.tree
  refine ⟨located.toSettled.enqueued off trivial enqueued,fun e on => ?_,fun e here on => ?_,?_⟩
  · rw [enqueued.current]
    by_cases same : e = p
    · subst same
      split at tree
      next here => exact .inr here
      next => exact .inl (tree.1.mem_iff.mpr List.mem_cons_self)
    · rw [enqueued.onRq,Function.update_of_ne same] at on
      refine (located.placed e on).imp_left fun member => ?_
      split at tree
      · rwa [tree.1]
      · exact tree.1.mem_iff.mpr (List.mem_cons_of_mem _ member)
  · rw [enqueued.current] at here
    rw [enqueued.running]
    by_cases same : e = p
    · subst same
      exact fresh here
    · rw [enqueued.onRq,Function.update_of_ne same] at on
      exact located.owner e here on
  · rw [enqueued.nr,located.count]
    split at tree
    next here =>
      have zero : m.currentCount = 0 := by simp [currentCount,here,off]
      rw [tree.1,zero,currentCount_on (enqueued.current.trans here) (by simp [enqueued.onRq])]
    next other =>
      have same : m'.currentCount = m.currentCount := by
        rw [← currentCount_other other true]
        exact currentCount_congr enqueued.onRq enqueued.current
      rw [tree.1.length_eq,same,List.length_cons]
      omega

theorem Located.dequeued (located : Located m) (on : m.onRq p = true) (dequeued : Dequeued rb m p m') :
    Located m' := by
  have member (other : m.current ≠ some p) : p ∈ m.timeline := (located.placed p on).resolve_right other
  have tree := dequeued.tree
  have left (e : Nat) (on : m'.onRq e = true) : e ≠ p ∧ m.onRq e = true := by
    rw [dequeued.onRq] at on
    by_cases same : e = p
    · simp [same] at on
    · exact ⟨same,by rwa [Function.update_of_ne same] at on⟩
  refine ⟨located.toSettled.dequeued member dequeued,fun e on => ?_,
    fun e here on => ?_,?_⟩
  · obtain ⟨other,on⟩ := left e on
    rw [dequeued.current]
    refine (located.placed e on).imp_left fun listed => ?_
    split at tree
    · rwa [tree.1]
    next away =>
      rw [Unlinked.erased tree (member away)]
      exact (List.mem_erase_of_ne other).mpr listed
  · rw [dequeued.current] at here
    rw [dequeued.running]
    exact located.owner e here (left e on).2
  · rw [dequeued.nr,located.count]
    split at tree
    next here =>
      have zero : m'.currentCount = 0 := by simp [currentCount,dequeued.current,here,dequeued.onRq]
      rw [tree.1,zero,currentCount_on here on]
      rfl
    next away =>
      have same : m'.currentCount = m.currentCount := by
        rw [← currentCount_other away false]
        exact currentCount_congr dequeued.onRq dequeued.current
      have positive := List.length_pos_of_mem (member away)
      rw [Unlinked.erased tree (member away),same,List.length_erase_of_mem (member away)]
      omega

/-- Without a task on the processor nothing is queued outside the tree. -/
theorem Located.gathered (located : Located m) (idle : m.running = none) : Gathered m := by
  have off (e : Nat) (here : m.current = some e) : m.onRq e = false := by
    refine Bool.eq_false_iff.mpr fun on => ?_
    have runs := located.owner e here on
    rw [idle] at runs
    contradiction
  refine ⟨located.lists,fun e on => ?_,off,?_⟩
  · refine (located.placed e on).resolve_right fun here => ?_
    rw [off e here] at on
    contradiction
  · rw [located.count,currentCount_off off,Nat.add_zero]

/-- As long as hints are queued, the running task may be put back and another one picked. -/
theorem Located.pickable (located : Located m) (queued : HintsQueued m) :
    Pickable (fun _ => True) m m.running where
  lists := located.lists
  own p runs _ := ⟨located.running p runs,trivial⟩
  hinted e suggested := by
    have on := queued e suggested.names
    exact (located.placed e on).imp_right fun here => ⟨located.owner e here on,on⟩

theorem Located.put (located : Located m) (queued : HintsQueued m) (own : m.running = some p)
    (put : Put m p m') : Gathered m' := by
  have here := located.running p own
  have pickable := located.pickable queued
  rw [own] at pickable
  refine ⟨(pickable.put put).1,fun e on => ?_,fun e current => ?_,?_⟩
  · rw [put.onRq] at on
    have tree := put.tree
    rcases located.placed e on with member | current
    · split at tree
      · exact tree.1.mem_iff.mpr (List.mem_cons_of_mem _ member)
      · rwa [tree.1]
    · obtain rfl : p = e := Option.some.inj (here.symm.trans current)
      rw [if_pos on] at tree
      exact tree.1.mem_iff.mpr List.mem_cons_self
  · rw [put.current] at current
    contradiction
  · rw [put.nr,located.count]
    have tree := put.tree
    split at tree
    next on =>
      rw [tree.1.length_eq,currentCount_on here on,List.length_cons]
    next off =>
      have zero : m.currentCount = 0 := by simp [currentCount,here,off]
      rw [tree.1,zero,Nat.add_zero]

theorem Gathered.takesFirst (gathered : Gathered m) (queued : HintsQueued m) (takes : TakesFirst rb m result) :
    Located { result.2 with running := result.1 } := by
  have settled := (gathered.lists.takesFirst (fun e suggested => gathered.placed e (queued e suggested.names))
    takes).settled
  cases takes with
  | empty =>
    refine ⟨settled,fun e on => .inl (gathered.placed e on),fun e here on => ?_,?_⟩
    · exact absurd on (Bool.eq_false_iff.mp (gathered.idle e here))
    · exact gathered.count.trans (congrArg (m.timeline.length + ·) (currentCount_off gathered.idle).symm)
  | @taken e m' taken =>
    have on : m.onRq e = true := by
      rcases taken.found with listed | suggested
      · exact (gathered.lists.listed e (gathered.lists.found listed)).1.1
      · exact queued e suggested.names
    have tree := taken.tree
    rw [if_pos on] at tree
    have erased : m'.timeline = m.timeline.erase e := Unlinked.erased tree (gathered.placed e on)
    refine ⟨settled,fun x on => ?_,fun x here _ => ?_,?_⟩
    · by_cases same : x = e
      · exact .inr (same ▸ taken.current)
      · refine .inl ?_
        change x ∈ m'.timeline
        rw [erased]
        exact (List.mem_erase_of_ne same).mpr (gathered.placed x (taken.onRq ▸ on))
    · exact taken.current.symm.trans here
    · have one : currentCount { m' with running := some e } = 1 :=
        currentCount_on taken.current (taken.onRq ▸ on)
      have positive := List.length_pos_of_mem (gathered.placed e on)
      change m'.nr = m'.timeline.length + _
      rw [one,taken.nr,gathered.count,erased,List.length_erase_of_mem (gathered.placed e on)]
      omega

theorem Located.picks (located : Located m) (queued : HintsQueued m) (picks : Picks rb m m.running result) :
    Located { result.2 with running := result.1 } := by
  generalize ran : m.running = prev at picks
  cases picks with
  | nothing none =>
    -- With nothing counted the current entity is not queued, so nobody has to own it.
    refine ⟨⟨located.lists.same ⟨rfl,rfl⟩,fun e here => by contradiction⟩,located.placed,fun e here on => ?_,
      located.count⟩
    have one : m.currentCount = 1 := currentCount_on (show m.current = some e from here) on
    have count := located.count
    omega
  | first takes => exact (located.gathered ran).takesFirst queued takes
  | kept on => exact ran ▸ located
  | put put takes => exact (located.put queued ran put).takesFirst (queued.put put) takes

end Shape

theorem pickNextTask_answers {env : Platform} (clears : Clears env) {s : Sched} {awake : Nat → Prop}
    (pickable : s.shape.Pickable awake prev) (h : Hierarchy) (clock : Nat → U64) :
    s.shape.Answers awake ((pickNextTask env h s prev clock).1,(pickNextTask env h s prev clock).2.shape) := by
  -- One call of the fair class, which the two places of `pick_next_task` share.
  have call (s : Sched) := picks_pickNextTaskFair env s clears h prev
  dsimp only [pickNextTask]
  split
  next e s' fast =>
    split at fast
    · have answers := pickable.picks (call s clock)
      rwa [fast] at answers
    · cases fast
  next s' fast =>
    split at fast
    · have picks := call s clock
      rw [fast] at picks
      obtain ⟨again,onRq⟩ := pickable.again picks
      have answers := again.picks (call s' fun i => clock (i + 3))
      refine ⟨answers.settled,fun e chosen => ?_,answers.nullDeref.trans (pickable.picks picks).nullDeref⟩
      rw [← onRq]
      exact answers.chosen e chosen
    · cases fast
      exact pickable.picks (call s _)

end Kernal.Cfs
