import Kernal.Buddy
import Mathlib.Algebra.BigOperators.Group.Finset.Basic
import Mathlib.Tactic.Ring

/-! What a zone's lists, page flags and counters say about each other. `Sound` is
kept by every list operation on its own; only `Inv` adds that no two buddies are
left unjoined, which is the clause merging has to restore. -/
namespace Kernal.Buddy

open Blocks

/-- A listed block: its head is on one of the lists of its order. -/
def Zone.Free (z : Zone) (b : Block) : Prop :=
  b.order < MAX_ORDER ∧ ∃ m < MIGRATE_TYPES, b.base ∈ z.freeList b.order m

def Zone.freeBlocks (z : Zone) : Set Block := {b | z.Free b}

def Zone.span (z : Zone) : Set Nat := Set.Ico z.zoneStartPfn z.zoneEndPfn

def Zone.Allocated (z : Zone) (b : Block) : Prop :=
  ∀ c, z.Free c → ∀ f, f ∈ b.frames → f ∉ c.frames

/-- The last three fields say where the page array lies: the frames of the zone have
32-bit numbers and one `page_zone_id`, and no block reaches outside the zone. -/
structure Sound (z : Zone) : Prop where
  head : ∀ b, z.Free b → b.Aligned ∧ (z.page b.base).pageBuddy = true ∧
    (z.page b.base).pagePrivate = b.order
  once : ∀ o < MAX_ORDER, ∀ m < MIGRATE_TYPES, (z.freeList o m).Nodup
  single : ∀ o < MAX_ORDER, ∀ m < MIGRATE_TYPES, ∀ o' < MAX_ORDER, ∀ m' < MIGRATE_TYPES, ∀ p,
    p ∈ z.freeList o m → p ∈ z.freeList o' m' → o = o' ∧ m = m'
  disjoint : ∀ a, z.Free a → ∀ b, z.Free b → ∀ f, f ∈ a.frames → f ∈ b.frames → a = b
  flagged : ∀ p, (z.page p).pageBuddy = true → ∃ o, z.Free ⟨p,o⟩
  nrFree : ∀ o < MAX_ORDER,
    z.nrFree o = ∑ m ∈ Finset.range MIGRATE_TYPES, (z.freeList o m).length
  freePages : z.freePages = BitVec.ofNat 32 (∑ o ∈ Finset.range MAX_ORDER, z.nrFree o * 2^o)
  inside : ∀ b, z.Free b → b.frames ⊆ z.span
  extent : z.zoneEndPfn ≤ 2^32
  zoneId : ∀ p ∈ z.span, ∀ q ∈ z.span, (z.page p).zoneId = (z.page q).zoneId

structure Inv (z : Zone) : Prop extends Sound z where
  joined : ∀ b, z.Free b → b.order < MAX_ORDER - 1 → ¬z.Free b.buddy

theorem Inv.coalesced {z : Zone} (inv : Inv z) : Coalesced (MAX_ORDER - 1) z.freeBlocks where
  admissible b free := ⟨(inv.head b free).1,Nat.le_sub_one_of_lt free.1⟩
  disjoint := inv.disjoint
  joined := inv.joined

/-- A single changed summand moves a sum by exactly its own change. -/
theorem sum_change [AddCommMonoid M] {s : Finset Nat} {f g : Nat → M} (member : i ∈ s)
    (others : ∀ j ∈ s, j ≠ i → g j = f j) : ∑ j ∈ s, g j + f i = ∑ j ∈ s, f j + g i := by
  rw [← Finset.add_sum_erase s f member,← Finset.add_sum_erase s g member]
  have rest : ∑ j ∈ s.erase i, g j = ∑ j ∈ s.erase i, f j :=
    Finset.sum_congr rfl fun j h => others j (Finset.mem_of_mem_erase h) (Finset.ne_of_mem_erase h)
  rw [rest,add_right_comm,add_comm (g i),add_right_comm]

/-- Changing the number of blocks of one order moves the number of pages accordingly. -/
theorem pages_update (n : Nat → Nat) (bound : order < MAX_ORDER) (blocks : Nat) :
    ∑ o ∈ Finset.range MAX_ORDER, Function.update n order blocks o * 2^o + n order * 2^order =
      ∑ o ∈ Finset.range MAX_ORDER, n o * 2^o + blocks * 2^order := by
  have change := sum_change (f := fun o => n o * 2^o)
    (g := fun o => Function.update n order blocks o * 2^o) (Finset.mem_range.mpr bound) (by
      intro j _ different
      simp only [Function.update_of_ne different])
  simpa only [Function.update_self] using change

section Frame

/-- Agreement on everything the invariant reads; the recorded order of an unmarked
page is not part of it. -/
structure Agree (z z' : Zone) : Prop where
  freeList : z'.freeList = z.freeList
  nrFree : z'.nrFree = z.nrFree
  freePages : z'.freePages = z.freePages
  span : z'.zoneStartPfn = z.zoneStartPfn ∧ z'.spannedPages = z.spannedPages
  page : ∀ p, (z'.page p).pageBuddy = (z.page p).pageBuddy ∧
    (z'.page p).zoneId = (z.page p).zoneId ∧
    ((z.page p).pageBuddy = true → (z'.page p).pagePrivate = (z.page p).pagePrivate)

theorem Agree.free (agree : Agree z z') : z'.Free b ↔ z.Free b := by
  simp only [Zone.Free,agree.freeList]

theorem Agree.sound (agree : Agree z z') (sound : Sound z) : Sound z' := by
  have zoneEnd : z'.zoneEndPfn = z.zoneEndPfn := by simp only [Zone.zoneEndPfn,agree.span]
  have span : z'.span = z.span := by simp only [Zone.span,zoneEnd,agree.span]
  refine ⟨?_,?_,?_,?_,?_,?_,?_,?_,?_,?_⟩
  · intro b free
    have head := sound.head b (agree.free.mp free)
    rw [(agree.page _).1,(agree.page _).2.2 head.2.1]
    exact head
  · rw [agree.freeList]; exact sound.once
  · rw [agree.freeList]; exact sound.single
  · intro a ha b hb
    exact sound.disjoint a (agree.free.mp ha) b (agree.free.mp hb)
  · intro p flagged
    rw [(agree.page p).1] at flagged
    obtain ⟨o,free⟩ := sound.flagged p flagged
    exact ⟨o,agree.free.mpr free⟩
  · rw [agree.nrFree,agree.freeList]; exact sound.nrFree
  · rw [agree.freePages,agree.nrFree]; exact sound.freePages
  · intro b free
    rw [span]
    exact sound.inside b (agree.free.mp free)
  · rw [zoneEnd]; exact sound.extent
  · rw [span]
    intro p hp q hq
    rw [(agree.page p).2.1,(agree.page q).2.1]
    exact sound.zoneId p hp q hq

end Frame

section Remove

variable {z : Zone} {page order : Nat}

@[simp] theorem del_freeList (o m : Nat) :
    (delPageFromFreeList z page order).freeList o m = (z.freeList o m).erase page := rfl

theorem del_page_other (h : p ≠ page) : (delPageFromFreeList z page order).page p = z.page p := by
  simp [delPageFromFreeList,Zone.setPage,h]

theorem del_page_zoneId (p : Nat) :
    ((delPageFromFreeList z page order).page p).zoneId = (z.page p).zoneId := by
  by_cases same : p = page <;> simp [delPageFromFreeList,Zone.setPage,same]

@[simp] theorem del_span : (delPageFromFreeList z page order).span = z.span := rfl

/-- The order under which a head is listed is the one its page records. -/
theorem Sound.order_unique (sound : Sound z) (a : z.Free ⟨p,o⟩) (b : z.Free ⟨p,o'⟩) : o = o' :=
  (sound.head _ a).2.2.symm.trans (sound.head _ b).2.2

theorem del_free (sound : Sound z) (listed : z.Free ⟨page,order⟩) :
    (delPageFromFreeList z page order).Free b ↔ z.Free b ∧ b ≠ ⟨page,order⟩ := by
  constructor
  · rintro ⟨bound,m,hm,member⟩
    rw [del_freeList,(sound.once _ bound m hm).mem_erase_iff] at member
    refine ⟨⟨bound,m,hm,member.2⟩,?_⟩
    rintro rfl
    exact member.1 rfl
  · rintro ⟨⟨bound,m,hm,member⟩,different⟩
    refine ⟨bound,m,hm,?_⟩
    rw [del_freeList,(sound.once _ bound m hm).mem_erase_iff]
    refine ⟨?_,member⟩
    intro same
    apply different
    obtain ⟨base,o⟩ := b
    dsimp only at same
    subst same
    rw [sound.order_unique ⟨bound,m,hm,member⟩ listed]

theorem del_lengths (sound : Sound z) (listed : z.Free ⟨page,order⟩) :
    ∑ m ∈ Finset.range MIGRATE_TYPES, ((delPageFromFreeList z page order).freeList order m).length + 1 =
      ∑ m ∈ Finset.range MIGRATE_TYPES, (z.freeList order m).length := by
  obtain ⟨bound,m,hm,member⟩ := listed
  dsimp only at bound member
  have change := sum_change (f := fun m => (z.freeList order m).length)
    (g := fun m => ((delPageFromFreeList z page order).freeList order m).length)
    (Finset.mem_range.mpr hm) (by
      intro j hj different
      have absent : page ∉ z.freeList order j := fun other =>
        different (sound.single order bound j (Finset.mem_range.mp hj) order bound m hm page other member).2
      simp only [del_freeList,List.erase_of_not_mem absent])
  have shorter : (((z.freeList order m)).erase page).length + 1 = (z.freeList order m).length := by
    have positive := List.length_pos_of_mem member
    rw [List.length_erase_of_mem member]
    omega
  simp only [del_freeList] at change ⊢
  omega

theorem del_other_order (sound : Sound z) (listed : z.Free ⟨page,order⟩) (bound : o < MAX_ORDER)
    (different : o ≠ order) (m : Nat) (hm : m < MIGRATE_TYPES) :
    (delPageFromFreeList z page order).freeList o m = z.freeList o m := by
  rw [del_freeList]
  apply List.erase_of_not_mem
  intro member
  exact different (sound.order_unique ⟨bound,m,hm,member⟩ listed)

/-- Taking a listed block off its list keeps everything else as it was. -/
theorem del_sound (sound : Sound z) (listed : z.Free ⟨page,order⟩) :
    Sound (delPageFromFreeList z page order) := by
  have subset {b : Block} (free : (delPageFromFreeList z page order).Free b) : z.Free b :=
    ((del_free sound listed).mp free).1
  have apart {b : Block} (free : (delPageFromFreeList z page order).Free b) : b.base ≠ page := by
    intro same
    obtain ⟨old,different⟩ := (del_free sound listed).mp free
    apply different
    obtain ⟨base,o⟩ := b
    dsimp only at same
    subst same
    rw [sound.order_unique old listed]
  have lengths := del_lengths sound listed
  have count := sound.nrFree order listed.1
  constructor
  case head =>
    intro b free
    rw [del_page_other (apart free)]
    exact sound.head b (subset free)
  case once =>
    intro o bound m hm
    exact (sound.once o bound m hm).erase page
  case single =>
    intro o ho m hm o' ho' m' hm' p hp hp'
    exact sound.single o ho m hm o' ho' m' hm' p (List.mem_of_mem_erase hp) (List.mem_of_mem_erase hp')
  case disjoint =>
    intro a ha b hb
    exact sound.disjoint a (subset ha) b (subset hb)
  case flagged =>
    intro p flagged
    have different : p ≠ page := by
      rintro rfl
      simp [delPageFromFreeList,Zone.setPage] at flagged
    rw [del_page_other different] at flagged
    obtain ⟨o,free⟩ := sound.flagged p flagged
    refine ⟨o,(del_free sound listed).mpr ⟨free,?_⟩⟩
    simp [different]
  case nrFree =>
    intro o bound
    by_cases same : o = order
    · subst o
      change Function.update z.nrFree order (z.nrFree order - 1) order = _
      rw [Function.update_self]
      omega
    · change Function.update z.nrFree order (z.nrFree order - 1) o = _
      rw [Function.update_of_ne same,sound.nrFree o bound]
      apply Finset.sum_congr rfl
      intro m hm
      rw [del_other_order sound listed bound same m (Finset.mem_range.mp hm)]
  case freePages =>
    have bound : order < MAX_ORDER := listed.1
    have pages := pages_update z.nrFree bound (z.nrFree order - 1)
    have smaller : z.nrFree order * 2^order = (z.nrFree order - 1) * 2^order + 2^order := by
      obtain ⟨rest,count⟩ : ∃ rest, z.nrFree order = rest + 1 := ⟨z.nrFree order - 1,by omega⟩
      rw [count,Nat.add_sub_cancel,Nat.add_mul,Nat.one_mul]
    have total : ∑ o ∈ Finset.range MAX_ORDER, z.nrFree o * 2^o = ∑ o ∈ Finset.range MAX_ORDER,
        Function.update z.nrFree order (z.nrFree order - 1) o * 2^o + 2^order := by omega
    change z.freePages - pageCount order = BitVec.ofNat 32
      (∑ o ∈ Finset.range MAX_ORDER, Function.update z.nrFree order (z.nrFree order - 1) o * 2^o)
    rw [sound.freePages,total,BitVec.ofNat_add,pageCount,BitVec.add_sub_cancel]
  case inside =>
    intro b free
    exact sound.inside b (subset free)
  case extent => exact sound.extent
  case zoneId =>
    intro p hp q hq
    rw [del_page_zoneId,del_page_zoneId]
    exact sound.zoneId p hp q hq

end Remove

section Insert

variable {z : Zone} {page order migratetype : Nat}

theorem add_freeList_same :
    (addPageToFreeList z page order migratetype).freeList order migratetype =
      page :: z.freeList order migratetype := by
  simp [addPageToFreeList,Zone.setFreeList,Zone.setPage]

theorem add_freeList_other (h : o ≠ order ∨ m ≠ migratetype) :
    (addPageToFreeList z page order migratetype).freeList o m = z.freeList o m := by
  simp only [addPageToFreeList,Zone.setFreeList,Zone.setPage]
  by_cases same : o = order
  · subst o
    rw [Function.update_self,Function.update_of_ne (h.resolve_left (· rfl))]
  · rw [Function.update_of_ne same]

theorem add_mem_freeList : p ∈ (addPageToFreeList z page order migratetype).freeList o m ↔
    (o = order ∧ m = migratetype ∧ p = page) ∨ p ∈ z.freeList o m := by
  by_cases same : o = order ∧ m = migratetype
  · obtain ⟨rfl,rfl⟩ := same
    simp [add_freeList_same]
  · rw [add_freeList_other (by tauto)]
    simp only [iff_or_self]
    exact fun h => absurd ⟨h.1,h.2.1⟩ same

theorem add_page_same : ((addPageToFreeList z page order migratetype).page page) =
    { z.page page with pageBuddy := true, pagePrivate := order } := by
  simp [addPageToFreeList,Zone.setFreeList,Zone.setPage]

theorem add_page_other (h : p ≠ page) :
    (addPageToFreeList z page order migratetype).page p = z.page p := by
  simp [addPageToFreeList,Zone.setFreeList,Zone.setPage,h]

theorem add_page_zoneId (p : Nat) :
    ((addPageToFreeList z page order migratetype).page p).zoneId = (z.page p).zoneId := by
  by_cases same : p = page
  · subst p; rw [add_page_same]
  · rw [add_page_other same]

theorem add_nrFree (o : Nat) : (addPageToFreeList z page order migratetype).nrFree o =
    Function.update z.nrFree order (z.nrFree order + 1) o := rfl

theorem add_freePages : (addPageToFreeList z page order migratetype).freePages =
    z.freePages + pageCount order := rfl

theorem add_free (bound : order < MAX_ORDER) (valid : migratetype < MIGRATE_TYPES) :
    (addPageToFreeList z page order migratetype).Free b ↔ b = ⟨page,order⟩ ∨ z.Free b := by
  obtain ⟨base,o⟩ := b
  simp only [Zone.Free,add_mem_freeList,Block.mk.injEq]
  constructor
  · rintro ⟨ho,m,hm,⟨rfl,rfl,rfl⟩ | member⟩
    · exact .inl ⟨rfl,rfl⟩
    · exact .inr ⟨ho,m,hm,member⟩
  · rintro (⟨rfl,rfl⟩ | ⟨ho,m,hm,member⟩)
    · exact ⟨bound,migratetype,valid,.inl ⟨rfl,rfl,rfl⟩⟩
    · exact ⟨ho,m,hm,.inr member⟩

/-- The lists of the order have one entry more. -/
theorem add_lengths (valid : migratetype < MIGRATE_TYPES) :
    ∑ m ∈ Finset.range MIGRATE_TYPES, ((addPageToFreeList z page order migratetype).freeList order m).length =
      ∑ m ∈ Finset.range MIGRATE_TYPES, (z.freeList order m).length + 1 := by
  have change := sum_change (f := fun m => (z.freeList order m).length)
    (g := fun m => ((addPageToFreeList z page order migratetype).freeList order m).length)
    (Finset.mem_range.mpr valid) (by
      intro j _ different
      simp only [add_freeList_other (.inr different)])
  simp only [add_freeList_same,List.length_cons] at change
  omega

/-- Listing an aligned block of the zone that no free block overlaps. -/
theorem add_sound (sound : Sound z) (bound : order < MAX_ORDER)
    (valid : migratetype < MIGRATE_TYPES) (aligned : (⟨page,order⟩ : Block).Aligned)
    (inside : (⟨page,order⟩ : Block).frames ⊆ z.span) (apart : z.Allocated ⟨page,order⟩) :
    Sound (addPageToFreeList z page order migratetype) := by
  have fresh {o : Nat} : ¬z.Free ⟨page,o⟩ := fun free =>
    apart _ free page (Block.base_mem ⟨page,order⟩) (Block.base_mem ⟨page,o⟩)
  have unlisted {o m : Nat} (ho : o < MAX_ORDER) (hm : m < MIGRATE_TYPES) :
      page ∉ z.freeList o m := fun member => fresh (o := o) ⟨ho,m,hm,member⟩
  have other {b : Block} (free : z.Free b) : b.base ≠ page := by
    intro same
    obtain ⟨base,o⟩ := b
    dsimp only at same
    subst same
    exact fresh free
  constructor
  case head =>
    intro b free
    rcases (add_free bound valid).mp free with rfl | free
    · exact ⟨aligned,by simp [add_page_same],by simp [add_page_same]⟩
    · rw [add_page_other (other free)]
      exact sound.head b free
  case once =>
    intro o ho m hm
    by_cases same : o = order ∧ m = migratetype
    · obtain ⟨rfl,rfl⟩ := same
      rw [add_freeList_same]
      exact List.nodup_cons.mpr ⟨unlisted ho hm,sound.once o ho m hm⟩
    · rw [add_freeList_other (by tauto)]
      exact sound.once o ho m hm
  case single =>
    intro o ho m hm o' ho' m' hm' p hp hp'
    rw [add_mem_freeList] at hp hp'
    rcases hp with ⟨rfl,rfl,rfl⟩ | hp <;> rcases hp' with ⟨rfl,rfl,eq⟩ | hp'
    · exact ⟨rfl,rfl⟩
    · exact absurd hp' (unlisted ho' hm')
    · subst eq; exact absurd hp (unlisted ho hm)
    · exact sound.single o ho m hm o' ho' m' hm' p hp hp'
  case disjoint =>
    intro a ha b hb f fa fb
    rcases (add_free bound valid).mp ha with rfl | ha <;>
      rcases (add_free bound valid).mp hb with rfl | hb
    · rfl
    · exact absurd fb (apart b hb f fa)
    · exact absurd fa (apart a ha f fb)
    · exact sound.disjoint a ha b hb f fa fb
  case flagged =>
    intro p flagged
    by_cases same : p = page
    · subst p; exact ⟨order,(add_free bound valid).mpr (.inl rfl)⟩
    · rw [add_page_other same] at flagged
      obtain ⟨o,free⟩ := sound.flagged p flagged
      exact ⟨o,(add_free bound valid).mpr (.inr free)⟩
  case nrFree =>
    intro o ho
    rw [add_nrFree]
    by_cases same : o = order
    · subst o
      rw [Function.update_self,add_lengths valid,sound.nrFree order bound]
    · rw [Function.update_of_ne same,sound.nrFree o ho]
      apply Finset.sum_congr rfl
      intro m _
      rw [add_freeList_other (.inl same)]
  case freePages =>
    have pages := pages_update z.nrFree bound (z.nrFree order + 1)
    rw [Nat.add_mul,Nat.one_mul] at pages
    have total : ∑ o ∈ Finset.range MAX_ORDER, z.nrFree o * 2^o + 2^order =
        ∑ o ∈ Finset.range MAX_ORDER, Function.update z.nrFree order (z.nrFree order + 1) o * 2^o := by omega
    simp only [add_freePages,sound.freePages,add_nrFree,pageCount,← BitVec.ofNat_add,total]
  case inside =>
    intro b free
    rcases (add_free bound valid).mp free with rfl | free
    · exact inside
    · exact sound.inside b free
  case extent => exact sound.extent
  case zoneId =>
    intro p hp q hq
    rw [add_page_zoneId,add_page_zoneId]
    exact sound.zoneId p hp q hq

end Insert

end Kernal.Buddy
