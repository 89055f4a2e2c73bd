import Kernal.CfsShape

/-! The hints `next`, `last` and `skip` of a queue, and what the operations of the fair class
do to them and to the tree when hints are set. -/
namespace Kernal.Cfs

open SearchTree

def Buddies.Names (b : Buddies) (e : Nat) : Prop := b.next = some e ∨ b.last = some e ∨ b.skip = some e

/-- One of the two hints that may be picked is `e`. -/
def Buddies.Suggests (b : Buddies) (e : Nat) : Prop := b.next = some e ∨ b.last = some e

theorem Buddies.Suggests.names {b : Buddies} (suggested : b.Suggests e) : b.Names e :=
  suggested.imp_right .inl

def Buddies.clear (b : Buddies) (se : Option Nat) : Buddies where
  next := if b.next = se then none else b.next
  last := if b.last = se then none else b.last
  skip := if b.skip = se then none else b.skip

theorem Buddies.clear_names {b : Buddies} (named : (b.clear se).Names e) : b.Names e ∧ se ≠ some e := by
  have kept {hint : Option Nat} (named : (if hint = se then none else hint) = some e) :
      hint = some e ∧ se ≠ some e := by
    split at named
    · contradiction
    next other => exact ⟨named,fun same => other (named.trans same.symm)⟩
  rcases named with next | last | skip
  · exact ⟨.inl (kept next).1,(kept next).2⟩
  · exact ⟨.inr (.inl (kept last).1),(kept last).2⟩
  · exact ⟨.inr (.inr (kept skip).1),(kept skip).2⟩

theorem Buddies.clear_suggests {b : Buddies} (suggested : (b.clear se).Suggests e) : b.Suggests e := by
  have kept {hint : Option Nat} (named : (if hint = se then none else hint) = some e) : hint = some e := by
    split at named
    · contradiction
    · exact named
  exact suggested.imp kept kept

namespace Shape

def HintsQueued (m : Shape) : Prop := ∀ e, m.buddies.Names e → m.onRq e = true

/-- `__pick_first_entity` and `__pick_next_entity` can come across `e`. -/
def Listed (m : Shape) (e : Nat) : Prop := e ∈ m.timeline ∨ m.leftmost = some e

structure Lists (m : Shape) (good : Nat → Prop) : Prop where
  once : m.timeline.Nodup
  cached : m.leftmost = m.timeline.head?
  listed : ∀ e ∈ m.timeline, good e

/-- `__enqueue_entity` as far as the tree of `m'` goes. -/
def Linked (m : Shape) (e : Nat) (m' : Shape) : Prop :=
  m'.timeline.Perm (e :: m.timeline) ∧
    (m.leftmost = m.timeline.head? → m'.leftmost = m'.timeline.head?)

/-- `__dequeue_entity` as far as the tree of `m'` goes. -/
def Unlinked (rb : Balancer Nat) (m : Shape) (e : Nat) (m' : Shape) : Prop :=
  (∃ t, inorder t = m.timeline ∧ inorder (rb.erase e t) = m'.timeline) ∧
    m'.leftmost = if m.leftmost = some e then following e m.timeline else m.leftmost

def SameTree (m m' : Shape) : Prop := m'.timeline = m.timeline ∧ m'.leftmost = m.leftmost

end Shape

namespace Shape

variable {good good' : Nat → Prop} {m m' : Shape}

theorem Lists.mono (lists : Lists m good) (weaker : ∀ e ∈ m.timeline, good e → good' e) : Lists m good' :=
  ⟨lists.once,lists.cached,fun e member => weaker e member (lists.listed e member)⟩

theorem Lists.same (lists : Lists m good) (same : SameTree m m') : Lists m' good := by
  refine ⟨?_,?_,fun e member => lists.listed e (same.1 ▸ member)⟩
  · rw [same.1]
    exact lists.once
  · rw [same.1,same.2]
    exact lists.cached

theorem Lists.found (lists : Lists m good) (listed : m.Listed e) : e ∈ m.timeline := by
  refine listed.elim id fun first => ?_
  rw [lists.cached] at first
  exact List.mem_of_head? first

theorem Lists.linked (lists : Lists m good) (linked : Linked m e m') (fresh : e ∉ m.timeline) :
    Lists m' fun x => x = e ∨ good x := by
  obtain ⟨perm,cached⟩ := linked
  refine ⟨perm.nodup_iff.mpr (List.nodup_cons.mpr ⟨fresh,lists.once⟩),cached lists.cached,fun x member => ?_⟩
  exact (List.mem_cons.mp (perm.mem_iff.mp member)).imp_right (lists.listed x)

theorem Unlinked.erased {rb : Balancer Nat} (unlinked : Unlinked rb m e m') (member : e ∈ m.timeline) :
    m'.timeline = m.timeline.erase e := by
  obtain ⟨⟨t,old,new⟩,-⟩ := unlinked
  rw [← new,← old]
  exact rb.inorder_erase e t (old ▸ member)

theorem Lists.unlinked {rb : Balancer Nat} (lists : Lists m good) (member : e ∈ m.timeline)
    (unlinked : Unlinked rb m e m') : Lists m' fun x => x ≠ e ∧ good x := by
  have erased := unlinked.erased member
  refine ⟨?_,?_,fun x left => ?_⟩
  · rw [erased]
    exact lists.once.erase e
  · rw [unlinked.2,erased,lists.cached,erase_head]
  · rw [erased] at left
    exact ⟨fun same => lists.once.not_mem_erase (same ▸ left),lists.listed x (List.mem_of_mem_erase left)⟩

def Waiting (m : Shape) (e : Nat) : Prop := m.onRq e = true ∧ m.current ≠ some e

end Shape

section Choice

variable (env : Platform) {s : Sched}

theorem preferBuddy_choice {left candidate se : Option Nat}
    (chosen : preferBuddy env s left candidate se = some e) : candidate = some e ∨ se = some e := by
  unfold preferBuddy at chosen
  split at chosen
  · split at chosen
    · exact .inl chosen
    · exact .inr chosen
  · exact .inr chosen

theorem secondEntity_choice {curr se : Option Nat} (chosen : secondEntity env s root curr se = some e) :
    s.shape.Listed e ∨ curr = some e := by
  unfold secondEntity at chosen
  split at chosen
  · exact .inl (.inr chosen)
  · dsimp only at chosen
    generalize second : (se.bind fun e => following e (inorder (s.cfs root).tasksTimeline)) = next at chosen
    split at chosen
    · exact .inr chosen
    · split at chosen
      · exact .inr chosen
      · obtain ⟨x,_,next⟩ := Option.bind_eq_some_iff.mp second
        exact .inl (.inl (Option.some.inj chosen ▸ following_mem next))
    · obtain ⟨x,_,next⟩ := Option.bind_eq_some_iff.mp second
      exact .inl (.inl (Option.some.inj chosen ▸ following_mem next))

/-- `left` of `pick_next_entity`. -/
def leftEntity (s : Sched) (curr : Option Nat) : Option Nat :=
  match (s.cfs root).rbLeftmost, curr with
  | none, _ => curr
  | some l, some c => if env.entityBefore (s.entity c) (s.entity l) then curr else some l
  | some l, none => some l

theorem leftEntity_choice {curr : Option Nat} (chosen : leftEntity env s curr = some e) :
    s.shape.Listed e ∨ curr = some e := by
  unfold leftEntity at chosen
  split at chosen
  · exact .inr chosen
  next l c first =>
    split at chosen
    · exact .inr chosen
    · exact .inl (.inr (first.trans chosen))
  next l first => exact .inl (.inr (first.trans chosen))

theorem pickNextEntity_fst (curr : Option Nat) : (pickNextEntity env s root curr).1 =
    let left := leftEntity env s curr
    preferBuddy env s left (s.buddies root).next <| preferBuddy env s left (s.buddies root).last <|
      if (s.buddies root).skip = left then preferBuddy env s left (secondEntity env s root curr left) left
      else left := by
  have skips (left : Option Nat) : preferBuddy env s left
      (if (s.buddies root).skip = left then secondEntity env s root curr left else none) left =
      if (s.buddies root).skip = left then preferBuddy env s left (secondEntity env s root curr left) left
      else left := by
    split
    · rfl
    · simp only [preferBuddy]
  exact congrArg (fun se => preferBuddy env s _ _ (preferBuddy env s _ _ se)) (skips _)

/-- `pick_next_entity` answers with an entity of the tree, the current one or a hint. -/
theorem pickNextEntity_choice {curr : Option Nat} (chosen : (pickNextEntity env s root curr).1 = some e) :
    s.shape.Listed e ∨ curr = some e ∨ s.shape.buddies.Suggests e := by
  rw [pickNextEntity_fst] at chosen
  rcases preferBuddy_choice env chosen with next | chosen
  · exact .inr (.inr (.inl next))
  rcases preferBuddy_choice env chosen with last | chosen
  · exact .inr (.inr (.inr last))
  have plain : s.shape.Listed e ∨ curr = some e := by
    split at chosen
    · rcases preferBuddy_choice env chosen with second | left
      · exact secondEntity_choice env second
      · exact leftEntity_choice env left
    · exact leftEntity_choice env chosen
  exact plain.imp_right .inl

/-- It answers with null only where there is neither a tree nor a current entity. -/
theorem pickNextEntity_none {curr : Option Nat} (nothing : (pickNextEntity env s root curr).1 = none) :
    (s.cfs root).rbLeftmost = none := by
  have prefers {left candidate se : Option Nat} (nothing : preferBuddy env s left candidate se = none) :
      se = none := by
    unfold preferBuddy at nothing
    split at nothing
    · split at nothing
      · contradiction
      · exact nothing
    · exact nothing
  rw [pickNextEntity_fst] at nothing
  have first : leftEntity env s curr = none := by
    have plain := prefers (prefers nothing)
    split at plain
    · exact prefers plain
    · exact plain
  unfold leftEntity at first
  split at first
  · assumption
  · split at first
    · contradiction
    · contradiction
  · contradiction

end Choice

def Clears (env : Platform) : Prop :=
  ∀ buddies se, env.clearBuddies buddies root se root = (buddies root).clear se

namespace Shape

structure Enqueued (m : Shape) (p : Nat) (m' : Shape) : Prop where
  onRq : m'.onRq = Function.update m.onRq p true
  current : m'.current = m.current
  running : m'.running = m.running
  nullDeref : m'.nullDeref = m.nullDeref
  nr : m'.nr = m.nr + 1
  buddies : m'.buddies = m.buddies
  tree : if m.current = some p then SameTree m m' else Linked m p m'

structure Dequeued (rb : Balancer Nat) (m : Shape) (p : Nat) (m' : Shape) : Prop where
  onRq : m'.onRq = Function.update m.onRq p false
  current : m'.current = m.current
  running : m'.running = m.running
  nullDeref : m'.nullDeref = m.nullDeref
  nr : m'.nr = m.nr - 1
  buddies : m'.buddies = m.buddies.clear (some p)
  tree : if m.current = some p then SameTree m m' else Unlinked rb m p m'

/-- `put_prev_entity`. -/
structure Put (m : Shape) (p : Nat) (m' : Shape) : Prop where
  onRq : m'.onRq = m.onRq
  current : m'.current = none
  running : m'.running = m.running
  nullDeref : m'.nullDeref = m.nullDeref
  nr : m'.nr = m.nr
  buddies : m'.buddies = m.buddies
  tree : if m.onRq p = true then Linked m p m' else SameTree m m'

/-- `pick_next_entity` and then `set_next_entity` of what it has found. -/
structure Taken (rb : Balancer Nat) (m : Shape) (e : Nat) (m' : Shape) : Prop where
  found : m.Listed e ∨ m.buddies.Suggests e
  onRq : m'.onRq = m.onRq
  current : m'.current = some e
  running : m'.running = m.running
  nullDeref : m'.nullDeref = (m.nullDeref || m.followsNull)
  nr : m'.nr = m.nr
  buddies : m'.buddies = m.buddies.clear (some e)
  tree : if m.onRq e = true then Unlinked rb m e m' else SameTree m m'

/-- The ways the end of `pick_next_task_fair` can go. -/
inductive TakesFirst (rb : Balancer Nat) (m : Shape) : Option Nat × Shape → Prop where
  | empty : m.leftmost = none → TakesFirst rb m (none,{ m with
      buddies := m.buddies.clear none
      nullDeref := m.nullDeref || m.followsNull })
  | taken : Taken rb m e m' → TakesFirst rb m (some e,m')

/-- The ways `pick_next_task_fair` can go. -/
inductive Picks (rb : Balancer Nat) (m : Shape) : Option Nat → Option Nat × Shape → Prop where
  | nothing : m.nr = 0 → Picks rb m prev (none,m)
  | first : TakesFirst rb m result → Picks rb m none result
  | kept : m.onRq p = true → Picks rb m (some p) (some p,m)
  | put : Put m p m' → TakesFirst rb m' result → Picks rb m (some p) result

end Shape

section Effect

variable (env : Platform) (s : Sched)

theorem linked_treeEnqueueEntity (e : Nat) : s.shape.Linked e (treeEnqueueEntity env s root e).shape := by
  constructor
  · simp only [Sched.shape,treeEnqueueEntity,Sched.setCfs,Function.update_self,env.rb.inorder_insertColor]
    exact link_perm _ _ _
  · intro cached
    have head := link_head e (fun entry => decide (entityKey s root e < entityKey s root entry))
      (s.cfs root).tasksTimeline
    have first : (s.cfs root).rbLeftmost = (inorder (s.cfs root).tasksTimeline).head? := cached
    simp only [Sched.shape,treeEnqueueEntity,Sched.setCfs,Function.update_self,env.rb.inorder_insertColor]
    rw [head,first]

theorem unlinked_treeDequeueEntity (e : Nat) :
    s.shape.Unlinked env.rb e (treeDequeueEntity env s root e).shape := by
  constructor
  · exact ⟨(s.cfs root).tasksTimeline,rfl,by simp [Sched.shape,treeDequeueEntity,Sched.setCfs]⟩
  · by_cases first : (s.cfs root).rbLeftmost = some e <;>
      simp [Sched.shape,treeDequeueEntity,Sched.setCfs,first]

theorem frame_treeEnqueueEntity (e : Nat) : (treeEnqueueEntity env s root e).shape =
    { s.shape with
      timeline := (treeEnqueueEntity env s root e).shape.timeline
      leftmost := (treeEnqueueEntity env s root e).shape.leftmost } := by
  simp [Sched.shape,treeEnqueueEntity,Sched.setCfs]

theorem frame_treeDequeueEntity (e : Nat) : (treeDequeueEntity env s root e).shape =
    { s.shape with
      timeline := (treeDequeueEntity env s root e).shape.timeline
      leftmost := (treeDequeueEntity env s root e).shape.leftmost } := by
  simp [Sched.shape,treeDequeueEntity,Sched.setCfs]

variable {env s} in
theorem shape_clears (clears : Clears env) (se : Option Nat) : (clearBuddies env s root se).shape =
    { s.shape with buddies := s.shape.buddies.clear se } := by
  simp only [clearBuddies,Sched.shape,clears s.buddies se]

theorem enqueued_enqueueTaskFair (off : s.shape.onRq p = false) (flags : EnqueueFlags) (clock : Nat → U64) :
    s.shape.Enqueued p (enqueueTaskFair env flat s p flags clock).shape := by
  obtain ⟨s',placed,_,eq⟩ := enqueueEntity_prepared env s p flags (clock root)
  have entity : s.shape.Enqueued p (enqueueEntity env s root p flags (clock root)).shape := by
    rw [eq,shape_setOnRq]
    by_cases here : s.shape.current = some p
    · rw [if_pos here,placed]
      exact ⟨rfl,rfl,rfl,rfl,rfl,rfl,by rw [if_pos here]; exact ⟨rfl,rfl⟩⟩
    · have linked := linked_treeEnqueueEntity env s' p
      rw [if_neg here,frame_treeEnqueueEntity]
      rw [placed] at linked ⊢
      exact ⟨rfl,rfl,rfl,rfl,rfl,rfl,by rw [if_neg here]; exact linked⟩
  rw [enqueueTaskFair_flat env off,shape_counted _ (· + 1) (· + 1)]
  exact ⟨entity.onRq,entity.current,entity.running,entity.nullDeref,entity.nr,entity.buddies,entity.tree⟩

theorem dequeued_dequeueTaskFair (clears : Clears env) (p : Nat) (sleep : Bool) (clock : Nat → U64) :
    s.shape.Dequeued env.rb p (dequeueTaskFair env flat s p sleep clock).shape := by
  have entity : s.shape.Dequeued env.rb p (dequeueEntity env s root p sleep (clock root)).shape := by
    unfold dequeueEntity
    dsimp only
    generalize first : clearBuddies env (updateCurr env s root (clock root)) root (some p) = s₁
    have cleared : s₁.shape = { s.shape with buddies := s.shape.buddies.clear (some p) } := by
      rw [← first,shape_clears clears,shape_updateCurr]
    have current : (s₁.cfs root).curr = s.shape.current := congrArg Shape.current cleared
    rw [shape_updateMinVruntime,shape_ite _ rfl (shape_setVruntime _ p (· - _)),
      shape_accountEntityDequeue,shape_setOnRq,current]
    by_cases here : s.shape.current = some p
    · rw [if_pos here,cleared]
      exact ⟨rfl,rfl,rfl,rfl,rfl,rfl,by rw [if_pos here]; exact ⟨rfl,rfl⟩⟩
    · have unlinked := unlinked_treeDequeueEntity env s₁ p
      rw [if_neg here,frame_treeDequeueEntity]
      rw [cleared] at unlinked ⊢
      exact ⟨rfl,rfl,rfl,rfl,rfl,rfl,by rw [if_neg here]; exact unlinked⟩
  rw [dequeueTaskFair_flat,shape_counted _ (· - 1) (· - 1)]
  exact ⟨entity.onRq,entity.current,entity.running,entity.nullDeref,entity.nr,entity.buddies,entity.tree⟩

theorem put_putPrevEntity (p : Nat) (now : U64) : s.shape.Put p (putPrevEntity env s root p now).shape := by
  simp only [putPrevEntity,shape_setCurr]
  by_cases on : s.shape.onRq p = true
  · have linked := linked_treeEnqueueEntity env (updateCurr env s root now) p
    rw [if_pos (show (s.entity p).onRq = true from on),frame_treeEnqueueEntity]
    rw [shape_updateCurr] at linked ⊢
    exact ⟨rfl,rfl,rfl,rfl,rfl,rfl,by rw [if_pos on]; exact linked⟩
  · rw [if_neg (show ¬(s.entity p).onRq = true from on)]
    exact ⟨rfl,rfl,rfl,rfl,rfl,rfl,by rw [if_neg on]; exact ⟨rfl,rfl⟩⟩

theorem takesFirst_pickFirst (clears : Clears env) (now : U64) :
    s.shape.TakesFirst env.rb ((pickFirst env s now).1,(pickFirst env s now).2.shape) := by
  have cleared : (pickNextEntity env s root none).2.shape = { s.shape with
      buddies := s.shape.buddies.clear (pickNextEntity env s root none).1
      nullDeref := s.nullDeref || s.shape.followsNull } := by
    rw [pickNextEntity_snd]
    exact shape_clears clears _
  have choice : ∀ e, (pickNextEntity env s root none).1 = some e →
      s.shape.Listed e ∨ none = some e ∨ s.shape.buddies.Suggests e := fun _ => pickNextEntity_choice env
  have nothing : (pickNextEntity env s root none).1 = none → (s.cfs root).rbLeftmost = none :=
    pickNextEntity_none env
  unfold pickFirst
  generalize pickNextEntity env s root none = result at cleared choice nothing
  obtain ⟨chosen,s₁⟩ := result
  cases chosen with
  | none =>
    dsimp only at cleared ⊢
    rw [cleared]
    exact .empty (nothing rfl)
  | some e =>
    dsimp only at cleared choice ⊢
    have found : s.shape.Listed e ∨ s.shape.buddies.Suggests e := by
      rcases choice e rfl with listed | current | named
      · exact .inl listed
      · contradiction
      · exact .inr named
    have marks : s₁.shape.onRq = s.shape.onRq := by rw [cleared]
    rw [setNextEntity_shape,marks]
    by_cases on : s.shape.onRq e = true
    · have unlinked := unlinked_treeDequeueEntity env s₁ e
      rw [if_pos on,frame_treeDequeueEntity]
      rw [cleared] at unlinked ⊢
      exact .taken ⟨found,rfl,rfl,rfl,rfl,rfl,rfl,by rw [if_pos on]; exact unlinked⟩
    · rw [if_neg on,cleared]
      exact .taken ⟨found,rfl,rfl,rfl,rfl,rfl,rfl,by rw [if_neg on]; exact ⟨rfl,rfl⟩⟩

theorem picks_pickNextTaskFair (clears : Clears env) (h : Hierarchy) (prev : Option Nat) (clock : Nat → U64) :
    s.shape.Picks env.rb prev ((pickNextTaskFair env h s prev clock).1,
      (pickNextTaskFair env h s prev clock).2.shape) := by
  unfold pickNextTaskFair
  split
  next idle => exact .nothing idle
  next => cases prev with
    | none => exact .first (takesFirst_pickFirst env s clears _)
    | some p =>
      have same := shape_updateCurr env s (clock 0)
      dsimp only
      generalize updateCurr env s root (clock 0) = s₁ at same
      rw [← same]
      split
      next keeps =>
        simp only [keepsPrev,Bool.and_eq_true] at keeps
        exact .kept keeps.1.1
      next => exact .put (put_putPrevEntity env s₁ p _) (takesFirst_pickFirst env _ clears _)

end Effect

end Kernal.Cfs
