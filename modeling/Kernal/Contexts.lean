import Kernal.Interleaving

/-! Interrupts on top of an interleaved routine. Each agent runs a task that calls the routine
again and again, and at times a handler in front of the task that calls it too. A task that
masks its interrupts around the routine is never inside it when a handler comes, so that the
agent shows to the others as one that runs the routine alone. -/
namespace Kernal.Contexts

open Interleaving

/-- The flags of a processor with one that lets interrupts in, and the form in which a task
keeps them. -/
structure Flagging (Flags Saved : Type) where
  isOn : Flags → Bool
  mask : Flags → Flags
  unmask : Flags → Flags
  keep : Flags → Saved
  back : Saved → Flags
  isOn_mask : ∀ f, isOn (mask f) = false
  isOn_unmask : ∀ f, isOn (unmask f) = true
  isOn_back : ∀ f, isOn (back (keep f)) = isOn f

/-- What a task does to its interrupts around the routine: nothing, mask them before and unmask
them after, or mask them before and put back what was there. -/
inductive Guard where
  | none
  | mask
  | save
  deriving DecidableEq, Repr

inductive Task (Pc : Type) where
  | running
  | save
  | disable
  | inside (pc : Pc)
  | restore
  deriving DecidableEq, Repr

structure Place (Pc Flags Saved : Type) where
  task : Task Pc
  flags : Flags
  saved : Saved
  /-- The handler's place in the routine and the flags it returns to. -/
  handler : Option (Pc × Flags)

structure Choice (Call : Type) where
  interrupt : Bool
  call : Call

variable {Agent Call Shared Pc Flags Saved : Type} [DecidableEq Pc]
  (ops : Flagging Flags Saved) (routine : Access Agent Call Shared Pc) (idle : Pc) (guard : Guard)

/-- A task inside the routine, or behind it when the routine is over. -/
def ended (pc : Pc) : Task Pc :=
  if pc = idle then (match guard with | .none => .running | .mask | .save => .restore) else .inside pc

def enter (agent : Agent) (call : Call) (shared : Shared) (p : Place Pc Flags Saved) :
    Shared × Place Pc Flags Saved :=
  let r := routine agent call shared idle
  (r.1, { p with task := ended idle guard r.2 })

def taskAccess (agent : Agent) (call : Call) (shared : Shared) (p : Place Pc Flags Saved) :
    Shared × Place Pc Flags Saved :=
  match p.task with
  | .running => match guard with
    | .none => enter routine idle guard agent call shared p
    | .mask => (shared, { p with task := .disable })
    | .save => (shared, { p with task := .save })
  | .save => (shared, { p with saved := ops.keep p.flags, task := .disable })
  | .disable => enter routine idle guard agent call shared { p with flags := ops.mask p.flags }
  | .inside pc =>
    let r := routine agent call shared pc
    (r.1, { p with task := ended idle guard r.2 })
  | .restore => match guard with
    | .none => (shared, { p with task := .running })
    | .mask => (shared, { p with flags := ops.unmask p.flags, task := .running })
    | .save => (shared, { p with flags := ops.back p.saved, task := .running })

/-- A handler comes only where the flags let it in, is through with the routine when that is
over, and returns to the flags of the task. -/
def access : Access Agent (Choice Call) Shared (Place Pc Flags Saved) := fun agent choice shared p =>
  match p.handler with
  | some (pc, flags) =>
    if pc = idle then (shared, { p with flags := flags, handler := none })
    else
      let r := routine agent choice.call shared pc
      (r.1, { p with handler := some (r.2, flags) })
  | none =>
    if choice.interrupt = true ∧ ops.isOn p.flags = true then
      let r := routine agent choice.call shared idle
      (r.1, { p with flags := ops.mask p.flags, handler := some (r.2, p.flags) })
    else taskAccess ops routine idle guard agent choice.call shared p

namespace Place

def current (p : Place Pc Flags Saved) : Pc :=
  match p.handler with
  | some (pc, _) => pc
  | none => match p.task with
    | .inside pc => pc
    | _ => idle

/-- A task inside the routine lets no interrupt in and has no handler in front of it. -/
def Masked (p : Place Pc Flags Saved) : Prop :=
  ∀ pc, p.task = .inside pc → ops.isOn p.flags = false ∧ p.handler = none

end Place

variable {ops routine idle guard}

theorem ended_current (p : Place Pc Flags Saved) (pc : Pc) (free : p.handler = none) :
    Place.current idle { p with task := ended idle guard pc } = pc := by
  simp only [Place.current,free,ended]
  by_cases finished : pc = idle
  · rw [if_pos finished,finished]
    cases guard <;> rfl
  · rw [if_neg finished]

/-- The task's next access shows as at most one access of the routine. -/
theorem taskAccess_simulated (guarded : guard ≠ .none) (agent : Agent) (call : Call) (shared : Shared)
    (p : Place Pc Flags Saved) (masked : p.Masked ops) (free : p.handler = none) :
    let r := taskAccess ops routine idle guard agent call shared p
    r.2.Masked ops ∧ (r.1 = shared ∧ r.2.current idle = p.current idle ∨
      ∃ call', routine agent call' shared (p.current idle) = (r.1, r.2.current idle)) := by
  cases task : p.task with
  | running =>
    cases guard with
    | none => contradiction
    | mask | save =>
      simp only [taskAccess,task]
      refine ⟨fun pc inside => ?_,.inl ⟨trivial,?_⟩⟩
      · contradiction
      · simp only [Place.current,free,task]
  | save =>
    simp only [taskAccess,task]
    refine ⟨fun pc inside => ?_,.inl ⟨trivial,?_⟩⟩
    · contradiction
    · simp only [Place.current,free,task]
  | restore =>
    cases guard with
    | none => contradiction
    | mask | save =>
      simp only [taskAccess,task]
      refine ⟨fun pc inside => ?_,.inl ⟨trivial,?_⟩⟩
      · contradiction
      · simp only [Place.current,free,task]
  | disable =>
    have before : p.current idle = idle := by simp only [Place.current,free,task]
    simp only [taskAccess,task,enter]
    refine ⟨fun _ _ => ⟨ops.isOn_mask _,free⟩,.inr ⟨call,?_⟩⟩
    rw [before,ended_current { p with flags := ops.mask p.flags } _ free]
  | inside pc =>
    obtain ⟨off,_⟩ := masked pc task
    have before : p.current idle = pc := by simp only [Place.current,free,task]
    simp only [taskAccess,task]
    refine ⟨fun _ _ => ⟨off,free⟩,.inr ⟨call,?_⟩⟩
    rw [before,ended_current _ _ free]

theorem access_simulated (guarded : guard ≠ .none) (agent : Agent) (choice : Choice Call) (shared : Shared)
    (p : Place Pc Flags Saved) (masked : p.Masked ops) :
    let r := access ops routine idle guard agent choice shared p
    r.2.Masked ops ∧ (r.1 = shared ∧ r.2.current idle = p.current idle ∨
      ∃ call', routine agent call' shared (p.current idle) = (r.1, r.2.current idle)) := by
  cases handler : p.handler with
  | some front =>
    obtain ⟨pc,flags⟩ := front
    -- The task behind a handler is outside the routine.
    have outside (pc : Pc) : p.task ≠ .inside pc := by
      intro inside
      have none := (masked pc inside).2
      rw [handler] at none
      contradiction
    have before : p.current idle = pc := by simp only [Place.current,handler]
    by_cases finished : pc = idle
    · simp only [access,handler,if_pos finished]
      refine ⟨fun pc inside => absurd inside (outside pc),.inl ⟨trivial,?_⟩⟩
      rw [before,finished]
      cases task : p.task with
      | inside pc => exact absurd task (outside pc)
      | running | save | disable | restore => simp only [Place.current]
    · simp only [access,handler,if_neg finished]
      refine ⟨fun pc inside => absurd inside (outside pc),.inr ⟨choice.call,?_⟩⟩
      rw [before]
      rfl
  | none =>
    by_cases arrives : choice.interrupt = true ∧ ops.isOn p.flags = true
    · have outside (pc : Pc) : p.task ≠ .inside pc := by
        intro inside
        have off := (masked pc inside).1
        rw [arrives.2] at off
        contradiction
      have before : p.current idle = idle := by
        cases task : p.task with
        | inside pc => exact absurd task (outside pc)
        | running | save | disable | restore => simp only [Place.current,handler,task]
      simp only [access,handler,if_pos arrives]
      refine ⟨fun pc inside => absurd inside (outside pc),.inr ⟨choice.call,?_⟩⟩
      rw [before]
      rfl
    · simp only [access,handler,if_neg arrives]
      exact taskAccess_simulated guarded agent choice.call shared p masked handler

/-- The flags of the task, kept for it while a handler runs. -/
def Place.effective (p : Place Pc Flags Saved) : Flags :=
  match p.handler with
  | some (_, flags) => flags
  | none => p.flags

/-- The task has its interrupts as they were in the beginning, or will have them so again. -/
def Place.Sound (ops : Flagging Flags Saved) (guard : Guard) (on : Bool) (p : Place Pc Flags Saved) : Prop :=
  match p.task with
  | .running => ops.isOn p.effective = on
  | .save => guard = .save ∧ ops.isOn p.effective = on
  | .disable => guard ≠ .none ∧ ops.isOn p.effective = on ∧ (guard = .save → ops.isOn (ops.back p.saved) = on)
  | .inside _ | .restore =>
    (guard = .none → ops.isOn p.effective = on) ∧ (guard = .save → ops.isOn (ops.back p.saved) = on)

theorem ended_sound {on : Bool} {p : Place Pc Flags Saved} (none : guard = .none → ops.isOn p.effective = on)
    (save : guard = .save → ops.isOn (ops.back p.saved) = on) (pc : Pc) :
    Place.Sound ops guard on { p with task := ended idle guard pc } := by
  unfold ended
  split
  · cases guard with
    | none => exact none rfl
    | mask | save => exact ⟨none,save⟩
  · exact ⟨none,save⟩

theorem taskAccess_sound {on : Bool} (unmasks : guard = .mask → on = true) (agent : Agent) (call : Call)
    (shared : Shared) (p : Place Pc Flags Saved) (sound : p.Sound ops guard on) (free : p.handler = none) :
    (taskAccess ops routine idle guard agent call shared p).2.Sound ops guard on := by
  have effective : p.effective = p.flags := by simp only [Place.effective,free]
  cases task : p.task with
  | running =>
    simp only [Place.Sound,task] at sound
    cases guard with
    | none =>
      simp only [taskAccess,task,enter]
      exact ended_sound (fun _ => sound) (fun save => Guard.noConfusion save) _
    | mask =>
      simp only [taskAccess,task]
      exact ⟨fun none => Guard.noConfusion none,sound,fun save => Guard.noConfusion save⟩
    | save =>
      simp only [taskAccess,task]
      exact ⟨rfl,sound⟩
  | save =>
    simp only [Place.Sound,task] at sound
    simp only [taskAccess,task]
    obtain ⟨rfl,sound⟩ := sound
    refine ⟨fun none => Guard.noConfusion none,sound,fun _ => (ops.isOn_back p.flags).trans ?_⟩
    rw [← effective]
    exact sound
  | disable =>
    simp only [Place.Sound,task] at sound
    simp only [taskAccess,task,enter]
    exact ended_sound (p := { p with flags := ops.mask p.flags }) (fun none => absurd none sound.1) sound.2.2 _
  | inside pc =>
    simp only [Place.Sound,task] at sound
    simp only [taskAccess,task]
    exact ended_sound sound.1 sound.2 _
  | restore =>
    simp only [Place.Sound,task] at sound
    cases guard with
    | none =>
      simp only [taskAccess,task]
      exact sound.1 rfl
    | mask =>
      simp only [taskAccess,task,Place.Sound,Place.effective,free]
      exact (ops.isOn_unmask _).trans (unmasks rfl).symm
    | save =>
      simp only [taskAccess,task,Place.Sound,Place.effective,free]
      exact sound.2 rfl

theorem access_sound {on : Bool} (unmasks : guard = .mask → on = true) (agent : Agent) (choice : Choice Call)
    (shared : Shared) (p : Place Pc Flags Saved) (sound : p.Sound ops guard on) :
    (access ops routine idle guard agent choice shared p).2.Sound ops guard on := by
  -- A handler neither moves the task nor touches what is kept for it.
  have same (p' : Place Pc Flags Saved) (task : p'.task = p.task) (saved : p'.saved = p.saved)
      (effective : p'.effective = p.effective) : p'.Sound ops guard on := by
    simpa only [Place.Sound,task,saved,effective] using sound
  cases handler : p.handler with
  | some front =>
    obtain ⟨pc,flags⟩ := front
    have effective : p.effective = flags := by simp only [Place.effective,handler]
    simp only [access,handler]
    split
    all_goals exact same _ rfl rfl effective.symm
  | none =>
    have effective : p.effective = p.flags := by simp only [Place.effective,handler]
    simp only [access,handler]
    split
    · exact same _ rfl rfl effective.symm
    · exact taskAccess_sound unmasks agent choice.call shared p sound handler

def Place.start (flags : Flags) (saved : Saved) : Place Pc Flags Saved := ⟨.running, flags, saved, none⟩

variable [DecidableEq Agent]

/-- Around the routine masked tasks show to each other as agents that run nothing else. -/
theorem interleave_shown (guarded : guard ≠ .none) (schedule : List (Agent × Choice Call)) (shared : Shared)
    (flags : Agent → Flags) (saved : Saved) :
    let s := interleave (access ops routine idle guard) schedule ⟨shared, fun a => .start (flags a) saved⟩
    (∀ a, (s.pc a).Masked ops) ∧ ∃ schedule', s.abstracted (Place.current idle) =
      interleave routine schedule' ⟨shared, fun _ => idle⟩ := by
  refine interleave_refines _ _ _ _ (access_simulated guarded) schedule _ fun a pc inside => ?_
  contradiction

/-- Whenever a task is outside the routine with no handler in front of it, its interrupts are as
they were, unless it unmasks what was masked before. -/
theorem interleave_restored (schedule : List (Agent × Choice Call)) (shared : Shared) (flags : Agent → Flags)
    (saved : Saved) (a : Agent) (unmasks : guard = .mask → ops.isOn (flags a) = true) :
    let s := interleave (access ops routine idle guard) schedule ⟨shared, fun a => .start (flags a) saved⟩
    (s.pc a).task = .running → (s.pc a).handler = none → ops.isOn (s.pc a).flags = ops.isOn (flags a) := by
  intro s running free
  have sound := interleave_preserves (access ops routine idle guard)
    (fun s => (s.pc a).Sound ops guard (ops.isOn (flags a)))
    (fun s sound chosen => by
      by_cases own : a = chosen.1
      · subst own
        rw [dispatch,install_same]
        exact access_sound unmasks _ _ _ _ sound
      · rw [dispatch,install_other _ _ own]
        exact sound)
    ⟨shared, fun a => .start (flags a) saved⟩ rfl schedule
  change (s.pc a).Sound ops guard _ at sound
  simpa only [Place.Sound,running,Place.effective,free] using sound

end Kernal.Contexts
