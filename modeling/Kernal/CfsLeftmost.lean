import Kernal.Cfs
import Kernal.Runs
import Mathlib.Data.Finset.Erase
import Mathlib.Data.Finset.Insert

/-! `rb_leftmost` caches the first entity of the tree. `__enqueue_entity` sets it when its
descent never went right and `__dequeue_entity` moves it on to the successor, whatever the
keys are at that moment. -/
namespace Kernal.Cfs

open SearchTree Runs

/-- A scheduler with the entities inserted into the tree and not removed since. -/
structure Timeline where
  sched : Sched
  held : Finset Nat

inductive TreeCall where
  | enqueue (e : Nat)
  | dequeue (e : Nat)
  | setMinVruntime (v : U64)
  | setVruntime (e : Nat) (v : U64)

/-- The steps on queue `q`. Times change freely, but not those of an entity in the tree. -/
inductive TreeStep (env : Platform) (q : Nat) (t : Timeline) : TreeCall → Timeline → Prop where
  | enqueue : e ∉ t.held →
      TreeStep env q t (.enqueue e) ⟨treeEnqueueEntity env t.sched q e, insert e t.held⟩
  | dequeue : e ∈ t.held →
      TreeStep env q t (.dequeue e) ⟨treeDequeueEntity env t.sched q e, t.held.erase e⟩
  | setMinVruntime :
      TreeStep env q t (.setMinVruntime v) ⟨t.sched.setCfs q fun c => { c with minVruntime := v }, t.held⟩
  | setVruntime : e ∉ t.held →
      TreeStep env q t (.setVruntime e v) ⟨t.sched.setEntity e fun se => { se with vruntime := v }, t.held⟩

namespace Timeline

def Start (q : Nat) (t : Timeline) : Prop :=
  (t.sched.cfs q).tasksTimeline = .nil ∧ (t.sched.cfs q).rbLeftmost = none ∧ t.held = ∅

structure Cached (q : Nat) (t : Timeline) : Prop where
  first : (t.sched.cfs q).rbLeftmost = (inorder (t.sched.cfs q).tasksTimeline).head?
  once : (inorder (t.sched.cfs q).tasksTimeline).Nodup
  held : ∀ e, e ∈ inorder (t.sched.cfs q).tasksTimeline ↔ e ∈ t.held

end Timeline

section Step

variable {env : Platform} {q : Nat} {t : Timeline}

theorem cached_enqueue (cached : t.Cached q) (fresh : e ∉ t.held) :
    Timeline.Cached q ⟨treeEnqueueEntity env t.sched q e, insert e t.held⟩ := by
  let before entry := decide (entityKey t.sched q e < entityKey t.sched q entry)
  have head := link_head e before (t.sched.cfs q).tasksTimeline
  have perm := link_perm e before (t.sched.cfs q).tasksTimeline
  constructor <;> simp only [treeEnqueueEntity,Sched.setCfs,Function.update_self,env.rb.inorder_insertColor]
  · exact (cached.first ▸ head).symm
  · apply perm.nodup_iff.mpr
    exact List.nodup_cons.mpr ⟨fun member => fresh ((cached.held e).mp member),cached.once⟩
  · intro x
    rw [Finset.mem_insert,← cached.held,← List.mem_cons]
    exact perm.mem_iff

theorem cached_dequeue (cached : t.Cached q) (member : e ∈ t.held) :
    Timeline.Cached q ⟨treeDequeueEntity env t.sched q e, t.held.erase e⟩ := by
  have erased := env.rb.inorder_erase e _ ((cached.held e).mpr member)
  constructor <;> simp only [treeDequeueEntity,Sched.setCfs,Function.update_self,erased]
  · rw [cached.first,erase_head]
  · exact cached.once.erase e
  · intro x
    rw [cached.once.mem_erase_iff,Finset.mem_erase,cached.held]

theorem cached_step (cached : t.Cached q) (step : TreeStep env q t c t') : t'.Cached q := by
  cases step with
  | enqueue fresh => exact cached_enqueue cached fresh
  | dequeue member => exact cached_dequeue cached member
  | setMinVruntime =>
    constructor <;> simp only [Sched.setCfs,Function.update_self]
    · exact cached.first
    · exact cached.once
    · exact cached.held
  | setVruntime => exact ⟨cached.first,cached.once,cached.held⟩

end Step

/-- All along every run the cache names the first entity of the tree, and the tree holds what
was inserted and not removed, each entity once. -/
theorem leftmost_cached {env : Platform} {q : Nat} {past : List (Timeline × TreeCall)} {t : Timeline}
    (run : Run (Timeline.Start q) (TreeStep env q) past t) :
    Always (fun t => let c := t.sched.cfs q
      (c.rbLeftmost = none ↔ c.tasksTimeline = .nil) ∧
      c.rbLeftmost = (inorder c.tasksTimeline).head? ∧
      (inorder c.tasksTimeline).Nodup ∧ ∀ e, e ∈ inorder c.tasksTimeline ↔ e ∈ t.held) past t := by
  have cached : Always (Timeline.Cached q) past t := by
    apply run.always_of (C := fun _ _ => True)
    · rintro t ⟨empty,unset,none⟩
      constructor <;> simp [empty,unset,none,inorder]
    · exact fun t c t' cached _ step => cached_step cached step
    · exact fun _ _ => trivial
  refine cached.mono fun t cached => ⟨?_,cached.first,cached.once,cached.held⟩
  rw [cached.first,List.head?_eq_none_iff,inorder_eq_nil]

/-- Two entities are inserted while `min_vruntime` moves, and the first one is removed. -/
theorem leftmost_cached_two :
    let s₁ := treeEnqueueEntity basePlatform (emptySched fun _ => 1024) root 1
    let s₂ := s₁.setCfs root fun c => { c with minVruntime := 5 }
    let s₃ := treeEnqueueEntity basePlatform s₂ root 2
    let s₄ := treeDequeueEntity basePlatform s₃ root 1
    (s₃.cfs root).rbLeftmost = some 1 ∧ (s₄.cfs root).rbLeftmost = some 2 ∧
    (s₄.cfs root).rbLeftmost = (inorder (s₄.cfs root).tasksTimeline).head? := by
  intro s₁ s₂ s₃ s₄
  have start : Run (Timeline.Start root) (TreeStep basePlatform root) []
      ⟨emptySched fun _ => 1024, ∅⟩ := .start ⟨rfl,rfl,rfl⟩
  have first := start.next (.enqueue (e := 1) (by simp))
  have second := first.next (.setMinVruntime (v := 5))
  have third := second.next (.enqueue (e := 2) (by simp))
  have fourth := third.next (.dequeue (e := 1) (by simp))
  exact ⟨by decide,by decide,(leftmost_cached fourth).2.2.1⟩

end Kernal.Cfs
