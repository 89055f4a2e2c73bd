import Kernal.Paging

/-! The page tables that `boot.S` sets up. `rep stosq` runs with the direction flag clear. Its
count clears 1024 words, two tables of the three: `boot_pdt` keeps what it held, but for its
first entry. -/
namespace Kernal.BootPaging

open X86 Paging

structure Layout where
  pml4 : Word
  aligned : pml4.toNat % 4096 = 0
  low : pml4.toNat + 3 * 4096 ≤ 2^21

namespace Layout

def pdpt (L : Layout) : Word := L.pml4 + 4096
def pdt (L : Layout) : Word := L.pml4 + 8192

end Layout

/-- The instructions of the routine that the registers are not saved with. -/
inductive BootInstr where
  | plain (i : Instr)
  | or (imm : Word) (dst : Reg)
  | repStosq
  deriving DecidableEq, Repr

def orFlags (flags d : Word) : Word :=
  withStatus flags false (evenParity d) (flags.getLsbD 4) (d == 0) d.msb false

def stosq (m : Machine) : Machine :=
  { m.set .rdi (m.reg .rdi + 8) with mem := store m.mem (m.reg .rdi) (m.reg .rax) }

/-- `stosq` and the count of `rep`, as often as is still to do. -/
def stosLoop : Nat → Machine → Machine
  | 0, m => m
  | n + 1, m => stosLoop n ((stosq m).set .rcx (m.reg .rcx - 1))

def step (m : Machine) : BootInstr → Machine
  | .plain i => m.step i
  | .or imm dst =>
    let d := m.reg dst ||| imm
    { m.set dst d with rflags := orFlags m.rflags d }
  | .repStosq => stosLoop (m.reg .rcx).toNat m

def exec (m : Machine) (code : List BootInstr) : Machine := code.foldl step m

def setupPageTables (L : Layout) : List BootInstr := [
  .plain (.movImm L.pml4 .rdi), .plain (.movImm 0 .rax), .plain (.movImm 1024 .rcx), .repStosq,
  -- PML4
  .plain (.movImm L.pml4 .rdi), .plain (.movImm L.pdpt .rax), .or 0x003 .rax, .plain (.store .rax 0 .rdi),
  -- PDPT
  .plain (.movImm L.pdpt .rdi), .plain (.movImm L.pdt .rax), .or 0x003 .rax, .plain (.store .rax 0 .rdi),
  -- PDT, for the first 2 MB
  .plain (.movImm L.pdt .rdi), .plain (.movImm 0x000000 .rax), .or 0x083 .rax, .plain (.store .rax 0 .rdi),
  -- entry 256 of PML4, for 0xFFFF800000000000
  .plain (.movImm L.pml4 .rdi), .plain (.add (256 * 8) .rdi), .plain (.movImm L.pdpt .rax), .or 0x003 .rax,
  .plain (.store .rax 0 .rdi),
  .plain .ret]

section Memory

theorem stosLoop_mem (n : Nat) : {m : Machine} → 8 * n ≤ 2^64 → m.reg .rax = 0 → (x : Word) →
    (stosLoop n m).mem x = if (x - m.reg .rdi).toNat < 8 * n then 0 else m.mem x := by
  induction n with
  | zero => exact fun _ _ _ => rfl
  | succ n ih =>
    intro m room zero x
    have rax : ((stosq m).set .rcx (m.reg .rcx - 1)).reg .rax = 0 := zero
    have rdi : ((stosq m).set .rcx (m.reg .rcx - 1)).reg .rdi = m.reg .rdi + 8 := rfl
    have mem : ((stosq m).set .rcx (m.reg .rcx - 1)).mem x = if (x - m.reg .rdi).toNat < 8 then 0 else m.mem x := by
      change store m.mem (m.reg .rdi) (m.reg .rax) x = _
      rw [zero,store]
      simp
    rw [stosLoop,ih (by omega) rax x,rdi,mem]
    have later : (x - (m.reg .rdi + 8)).toNat = ((x - m.reg .rdi).toNat + (2^64 - 8)) % 2^64 := by bv_omega
    have bound := (x - m.reg .rdi).isLt
    have either : ((x - (m.reg .rdi + 8)).toNat < 8 * n ∨ (x - m.reg .rdi).toNat < 8) ↔
        (x - m.reg .rdi).toNat < 8 * (n + 1) := by
      rw [later]
      omega
    rw [← ite_or]
    exact if_congr either rfl rfl

def cleared (L : Layout) (mem : Mem) : Mem := fun x => if (x - L.pml4).toNat < 8192 then 0 else mem x

def tables (L : Layout) (mem : Mem) : Mem :=
  store (store (store (store (cleared L mem) L.pml4 (L.pdpt ||| 3)) L.pdpt (L.pdt ||| 3)) L.pdt 0x83)
    (L.pml4 + 2048) (L.pdpt ||| 3)

theorem clear_mem (L : Layout) (m : Machine) : (exec m ((setupPageTables L).take 4)).mem = cleared L m.mem := by
  generalize start : ((m.step (.movImm L.pml4 .rdi)).step (.movImm 0 .rax)).step (.movImm 1024 .rcx) = k
  have rcx : (k.reg .rcx).toNat = 1024 := by rw [← start]; rfl
  have rax : k.reg .rax = 0 := by rw [← start]; rfl
  have rdi : k.reg .rdi = L.pml4 := by rw [← start]; rfl
  have mem : k.mem = m.mem := by rw [← start]; rfl
  have run : exec m ((setupPageTables L).take 4) = stosLoop 1024 k := by
    simp only [setupPageTables,List.take_succ_cons,List.take_zero,exec,List.foldl_cons,List.foldl_nil,step,start,rcx]
  funext x
  rw [run,stosLoop_mem 1024 (by decide) rax x,rdi,mem]
  rfl

theorem setupPageTables_mem (L : Layout) (m : Machine) : (exec m (setupPageTables L)).mem = tables L m.mem := by
  have split : exec m (setupPageTables L) =
      exec (exec m ((setupPageTables L).take 4)) ((setupPageTables L).drop 4) := by
    rw [exec,exec,exec,← List.foldl_append,List.take_append_drop]
  have cleared := clear_mem L m
  rw [split,tables]
  generalize exec m ((setupPageTables L).take 4) = k at cleared ⊢
  rw [← cleared]
  simp [setupPageTables,exec,step,Machine.step,Machine.set,Machine.popped]

end Memory

section Words

variable (L : Layout) (mem : Mem)

def Layout.word (L : Layout) (j : Nat) : Word := L.pml4 + BitVec.ofNat 64 (8 * j)

theorem entry_pml4 (i : Nat) : entry mem L.pml4 i = load mem (L.word i) := rfl

theorem entry_pdpt (i : Nat) : entry mem L.pdpt i = load mem (L.word (512 + i)) := by
  have same : L.pdpt + BitVec.ofNat 64 (8 * i) = L.word (512 + i) := by
    rw [Layout.pdpt,Layout.word]
    bv_omega
  rw [entry,same]

theorem entry_pdt (i : Nat) : entry mem L.pdt i = load mem (L.word (1024 + i)) := by
  have same : L.pdt + BitVec.ofNat 64 (8 * i) = L.word (1024 + i) := by
    rw [Layout.pdt,Layout.word]
    bv_omega
  rw [entry,same]

theorem word_disjoint (other : i ≠ j) (left : i < 1536) (right : j < 1536) :
    Disjoint (span (L.word i) 8) (span (L.word j) 8) := by
  have back (i j : Nat) : L.word j - L.word i = BitVec.ofNat 64 (8 * j) - BitVec.ofNat 64 (8 * i) := by
    rw [Layout.word,Layout.word]
    bv_omega
  refine span_disjoint ?_ ?_ <;> rw [back] <;> bv_omega

theorem load_word (v : Word) (left : i < 1536) (right : j < 1536) :
    load (store mem (L.word i) v) (L.word j) = if j = i then v else load mem (L.word j) := by
  by_cases same : j = i
  · rw [same,if_pos rfl,load_store]
  · rw [if_neg same,load_store_disjoint (word_disjoint L (Ne.symm same) left right)]

theorem word_bytes (near : x ∈ span (L.word j) 8) (small : j < 1536) :
    8 * j ≤ (x - L.pml4).toNat ∧ (x - L.pml4).toNat < 8 * j + 8 := by
  change (x - (L.pml4 + BitVec.ofNat 64 (8 * j))).toNat < 8 at near
  bv_omega

theorem cleared_word (small : j < 1536) :
    load (cleared L mem) (L.word j) = if j < 1024 then 0 else load mem (L.word j) := by
  by_cases first : j < 1024
  · rw [if_pos first]
    have zero : load (fun _ => 0) (L.word j) = 0 := by
      simp only [load]
      decide
    refine (load_congr fun x near => ?_ : _ = load (fun _ => 0) (L.word j)).trans zero
    have bytes := word_bytes L near small
    exact if_pos (by omega)
  · rw [if_neg first]
    refine load_congr fun x near => ?_
    have bytes := word_bytes L near small
    exact if_neg (by omega)

theorem tables_eq : tables L mem = store (store (store (store (cleared L mem) (L.word 0) (L.pdpt ||| 3))
    (L.word 512) (L.pdt ||| 3)) (L.word 1024) 0x83) (L.word 256) (L.pdpt ||| 3) := by
  have pml4 : L.word 0 = L.pml4 := by simp [Layout.word]
  rw [pml4]
  rfl

/-- What the tables hold. -/
theorem tables_word (small : j < 1536) : load (tables L mem) (L.word j) =
    if j = 256 then L.pdpt ||| 3
    else if j = 1024 then 0x83
    else if j = 512 then L.pdt ||| 3
    else if j = 0 then L.pdpt ||| 3
    else if j < 1024 then 0
    else load mem (L.word j) := by
  rw [tables_eq,load_word _ _ _ (by decide) small,load_word _ _ _ (by decide) small,
    load_word _ _ _ (by decide) small,load_word _ _ _ (by decide) small,cleared_word L mem small]

theorem tables_outside (outside : 3 * 4096 ≤ (x - L.pml4).toNat) : tables L mem x = mem x := by
  have away (j : Nat) (small : j < 1536) : 8 ≤ (x - L.word j).toNat := by
    refine Nat.not_lt.mp fun near => ?_
    have bytes := word_bytes L near small
    omega
  have plain : cleared L mem x = mem x := if_neg (by omega)
  rw [tables_eq,store_outside (away 256 (by decide)),store_outside (away 1024 (by decide)),
    store_outside (away 512 (by decide)),store_outside (away 0 (by decide)),plain]

end Words

/-- The walk maps the first 2 MB, at their own addresses and in the upper half, and nothing else. -/
structure MapsExactly (mem : Mem) (cr3 : Word) : Prop where
  low : ∀ v : Word, v.toNat < 2^21 → walk mem cr3 v = some ⟨v, true⟩
  high : ∀ v : Word, v.toNat < 2^21 → walk mem cr3 (0xFFFF800000000000 + v) = some ⟨v, true⟩
  other : ∀ v, Canonical v → ¬v.toNat < 2^21 → (∀ w : Word, w.toNat < 2^21 → v ≠ 0xFFFF800000000000 + w) →
    walk mem cr3 v = none

/-- An entry of `boot_pdt` through which no address is mapped: it is not present, or it names a
table without a present entry, which none of the three is. -/
def MapsNothing (L : Layout) (mem : Mem) (e : Word) : Prop :=
  present e = false ∨ (large e = false ∧ field e 12 ∉ [L.pml4, L.pdpt, L.pdt] ∧
    ∀ j, j < 512 → present (entry mem (field e 12) j) = false)

section Walk

variable {L : Layout} {mem : Mem} {v : Word}

theorem index_lt (v : Word) (shift : Nat) : index v shift < 512 := Nat.mod_lt _ (by decide)

theorem tables_pml4 (small : i < 512) :
    entry (tables L mem) L.pml4 i = if i = 0 ∨ i = 256 then L.pdpt ||| 3 else 0 := by
  have notPdt : i ≠ 1024 := by omega
  have notPdpt : i ≠ 512 := by omega
  have first : i < 1024 := by omega
  rw [entry_pml4,tables_word L mem (by omega),if_neg notPdt,if_neg notPdpt,if_pos first]
  by_cases upper : i = 256
  · rw [if_pos upper,if_pos (.inr upper)]
  · simp only [upper,if_false,or_false]

theorem tables_pdpt (small : i < 512) :
    entry (tables L mem) L.pdpt i = if i = 0 then L.pdt ||| 3 else 0 := by
  have notHigh : 512 + i ≠ 256 := by omega
  have notPdt : 512 + i ≠ 1024 := by omega
  have notLow : 512 + i ≠ 0 := by omega
  have first : 512 + i < 1024 := by omega
  have zero : 512 + i = 512 ↔ i = 0 := by omega
  rw [entry_pdpt,tables_word L mem (by omega),if_neg notHigh,if_neg notPdt,if_neg notLow,if_pos first]
  exact if_congr zero rfl rfl

theorem tables_pdt (small : i < 512) :
    entry (tables L mem) L.pdt i = if i = 0 then 0x83 else entry mem L.pdt i := by
  have notHigh : 1024 + i ≠ 256 := by omega
  have notPdpt : 1024 + i ≠ 512 := by omega
  have notLow : 1024 + i ≠ 0 := by omega
  have kept : ¬1024 + i < 1024 := by omega
  have zero : 1024 + i = 1024 ↔ i = 0 := by omega
  rw [entry_pdt,tables_word L mem (by omega),if_neg notHigh,if_neg notPdpt,if_neg notLow,if_neg kept,entry_pdt]
  exact if_congr zero rfl rfl

theorem Layout.aligned_pml4 (L : Layout) : Aligned L.pml4 := by
  have aligned := L.aligned
  have low := L.low
  exact ⟨by omega,by omega⟩

theorem Layout.pdpt_toNat (L : Layout) : L.pdpt.toNat = L.pml4.toNat + 4096 := by
  have low := L.low
  rw [Layout.pdpt]
  bv_omega

theorem Layout.pdt_toNat (L : Layout) : L.pdt.toNat = L.pml4.toNat + 8192 := by
  have low := L.low
  rw [Layout.pdt]
  bv_omega

theorem Layout.aligned_pdpt (L : Layout) : Aligned L.pdpt := by
  have aligned := L.aligned
  have low := L.low
  have place := L.pdpt_toNat
  exact ⟨by omega,by omega⟩

theorem Layout.aligned_pdt (L : Layout) : Aligned L.pdt := by
  have aligned := L.aligned
  have low := L.low
  have place := L.pdt_toNat
  exact ⟨by omega,by omega⟩

/-- Two entries of the first table and one of the second lead to the third. -/
theorem walk_upper (v : Word) : walk (tables L mem) L.pml4 v =
    if (index v 39 = 0 ∨ index v 39 = 256) ∧ index v 30 = 0 then walkPd (tables L mem) L.pdt v true
    else none := by
  have absent : present 0 = false := rfl
  rw [walk,field_aligned L.aligned_pml4,tables_pml4 (index_lt v 39)]
  by_cases top : index v 39 = 0 ∨ index v 39 = 256
  · rw [if_pos top]
    simp only [present_pointer,if_true,field_pointer L.aligned_pdpt,writable_pointer,top,true_and,walkPdpt]
    rw [tables_pdpt (index_lt v 30)]
    by_cases middle : index v 30 = 0
    · rw [if_pos middle,if_pos middle,present_pointer,large_pointer L.aligned_pdt,field_pointer L.aligned_pdt,
        writable_pointer]
      rfl
    · simp [middle,present]
  · simp [top,present]

/-- The large page. -/
theorem walkPd_first (first : index v 21 = 0) : walkPd (tables L mem) L.pdt v true = some ⟨offset v 21, true⟩ := by
  have zero : field 0x83 21 = 0#64 := by decide
  rw [walkPd,tables_pdt (index_lt v 21),if_pos first]
  have page : some (Page.mk (field 0x83 21 ||| offset v 21) (true && writable 0x83)) =
      some ⟨offset v 21, true⟩ := by
    rw [zero,BitVec.zero_or]
    rfl
  exact page

/-- All addresses that use entry `i` of `boot_pdt`. -/
theorem walkPd_other (other : index v 21 ≠ 0) : walkPd (tables L mem) L.pdt v true =
    let e := entry mem L.pdt (index v 21)
    if !present e then none
    else if large e then some ⟨field e 21 ||| offset v 21, writable e⟩
    else walkPt (tables L mem) (field e 12) v (writable e) := by
  rw [walkPd,tables_pdt (index_lt v 21),if_neg other]
  rfl

/-- A table other than the three is what it was. -/
theorem tables_entry (mem : Mem) (aligned : Aligned t) (other : t ∉ [L.pml4, L.pdpt, L.pdt])
    (small : j < 512) : entry (tables L mem) t j = entry mem t j := by
  have low := aligned.low
  have high := aligned.high
  have base := L.aligned
  have room := L.low
  simp only [List.mem_cons,List.not_mem_nil,or_false,not_or,← BitVec.toNat_inj,L.pdpt_toNat,L.pdt_toNat] at other
  refine load_congr fun x near => tables_outside L mem ?_
  have inside : t.toNat ≤ x.toNat ∧ x.toNat < t.toNat + 4096 := by
    change (x - (t + BitVec.ofNat 64 (8 * j))).toNat < 8 at near
    bv_omega
  rw [BitVec.toNat_sub]
  omega

/-- An address in the first 2 MB above `base`, where the tables lead to the large page. -/
theorem walk_large {base : Nat} (place : a.toNat = base + v.toNat) (low : v.toNat < 2^21) (page : base % 2^39 = 0)
    (top : base / 2^39 % 512 = 0 ∨ base / 2^39 % 512 = 256) : walk (tables L mem) L.pml4 a = some ⟨v, true⟩ := by
  have upper : index a 39 = base / 2^39 % 512 := by rw [index,place]; omega
  have middle : index a 30 = 0 := by rw [index,place]; omega
  have first : index a 21 = 0 := by rw [index,place]; omega
  have same : offset a 21 = v := BitVec.eq_of_toNat_eq (by rw [offset_toNat a (by decide),place]; omega)
  rw [← upper] at top
  rw [walk_upper,if_pos ⟨top,middle⟩,walkPd_first first,same]

theorem walk_low (v : Word) (low : v.toNat < 2^21) : walk (tables L mem) L.pml4 v = some ⟨v, true⟩ :=
  walk_large (Nat.zero_add _).symm low (by decide) (by decide)

theorem walk_high (v : Word) (low : v.toNat < 2^21) :
    walk (tables L mem) L.pml4 (0xFFFF800000000000 + v) = some ⟨v, true⟩ := by
  have place : (0xFFFF800000000000 + v).toNat = 0xFFFF800000000000 + v.toNat := by bv_omega
  exact walk_large place low (by decide) (by decide)

/-- An address that reaches the large page is one of those to be mapped. -/
theorem first_cases (canonical : Canonical v) (top : index v 39 = 0 ∨ index v 39 = 256) (middle : index v 30 = 0)
    (first : index v 21 = 0) :
    v.toNat < 2^21 ∨ ∃ w : Word, w.toNat < 2^21 ∧ v = 0xFFFF800000000000 + w := by
  rw [index] at top middle first
  rcases canonical with lower | upper
  · exact .inl (by omega)
  · refine .inr ⟨v - 0xFFFF800000000000,?_,?_⟩
    · bv_omega
    · bv_omega

theorem walk_other (nothing : ∀ i, 0 < i → i < 512 → MapsNothing L mem (entry mem L.pdt i))
    (canonical : Canonical v) (notLow : ¬v.toNat < 2^21)
    (notHigh : ∀ w : Word, w.toNat < 2^21 → v ≠ 0xFFFF800000000000 + w) : walk (tables L mem) L.pml4 v = none := by
  rw [walk_upper]
  by_cases reached : (index v 39 = 0 ∨ index v 39 = 256) ∧ index v 30 = 0
  · rw [if_pos reached]
    by_cases first : index v 21 = 0
    · rcases first_cases canonical reached.1 reached.2 first with low | ⟨w,low,same⟩
      · exact absurd low notLow
      · exact absurd same (notHigh w low)
    · rw [walkPd_other first]
      rcases nothing _ (Nat.pos_of_ne_zero first) (index_lt v 21) with absent | ⟨small,other,empty⟩
      · simp [absent]
      · have kept := tables_entry mem (aligned_field _) other (index_lt v 12)
        simp [small,walkPt,kept,empty _ (index_lt v 12)]
  · rw [if_neg reached]

/-- An address with these indices in the lower two tables. -/
def probe (i j : Nat) : Word := BitVec.ofNat 64 (i * 2^21 + j * 2^12)

theorem probe_toNat (left : i < 512) (right : j < 512) : (probe i j).toNat = i * 2^21 + j * 2^12 := by
  rw [probe,BitVec.toNat_ofNat]
  omega

/-- What the entries behind `boot_pdt` must be for the probes not to be mapped. -/
theorem walk_probe (positive : 0 < i) (left : i < 512) (right : j < 512)
    (unmapped : walk (tables L mem) L.pml4 (probe i j) = none) (there : present (entry mem L.pdt i) = true) :
    large (entry mem L.pdt i) = false ∧ present (entry (tables L mem) (field (entry mem L.pdt i) 12) j) = false := by
  have place := probe_toNat left right
  have top : index (probe i j) 39 = 0 := by rw [index,place]; omega
  have middle : index (probe i j) 30 = 0 := by rw [index,place]; omega
  have lower : index (probe i j) 21 = i := by rw [index,place]; omega
  have lowest : index (probe i j) 12 = j := by rw [index,place]; omega
  have other : index (probe i j) 21 ≠ 0 := by omega
  rw [walk_upper,if_pos ⟨.inl top,middle⟩,walkPd_other other,lower] at unmapped
  cases size : large (entry mem L.pdt i) with
  | true => simp [there,size] at unmapped
  | false => simpa [there,size,walkPt,lowest] using unmapped

theorem mapsNothing_of_exact (exact : MapsExactly (tables L mem) L.pml4) (positive : 0 < i) (small : i < 512) :
    MapsNothing L mem (entry mem L.pdt i) := by
  cases there : present (entry mem L.pdt i) with
  | false => exact .inl there
  | true =>
    have unmapped (j : Nat) (inside : j < 512) : walk (tables L mem) L.pml4 (probe i j) = none := by
      have place := probe_toNat small inside
      refine exact.other _ (.inl (by omega)) (by omega) fun w low same => ?_
      rw [same] at place
      bv_omega
    have probes (j : Nat) (inside : j < 512) := walk_probe positive small inside (unmapped j inside) there
    have filled (t : Word) (first : present (entry (tables L mem) t 0) = true) : field (entry mem L.pdt i) 12 ≠ t := by
      rintro rfl
      exact Bool.false_ne_true ((probes 0 (by decide)).2.symm.trans first)
    have other : field (entry mem L.pdt i) 12 ∉ [L.pml4, L.pdpt, L.pdt] := by
      simp only [List.mem_cons,List.not_mem_nil,or_false,not_or]
      refine ⟨filled _ ?_,filled _ ?_,filled _ ?_⟩
      · rw [tables_pml4 (by decide),if_pos (.inl rfl),present_pointer]
      · rw [tables_pdpt (by decide),if_pos rfl,present_pointer]
      · rw [tables_pdt (by decide),if_pos rfl]
        rfl
    refine .inr ⟨(probes 0 (by decide)).1,other,fun j inside => ?_⟩
    rw [← tables_entry mem (aligned_field _) other inside]
    exact (probes j inside).2

/-- The tables map what they should and nothing else exactly if no entry of `boot_pdt` but the
first mapped anything before. -/
theorem boot_tables_exact_iff (L : Layout) (m : Machine) :
    MapsExactly (exec m (setupPageTables L)).mem L.pml4 ↔
      ∀ i, 0 < i → i < 512 → MapsNothing L m.mem (entry m.mem L.pdt i) := by
  rw [setupPageTables_mem]
  exact ⟨fun exact _ => mapsNothing_of_exact exact,
    fun nothing => ⟨walk_low,walk_high,fun _ => walk_other nothing⟩⟩

end Walk

/-- A large page left over in the second entry of `boot_pdt` stays mapped. -/
theorem boot_tables_not_exact :
    let L : Layout := ⟨0x100000, by decide, by decide⟩
    let m : Machine := ⟨fun _ => 0, 0, 2, store (fun _ => 0) (L.word 1025) 0x200083⟩
    ¬MapsExactly (exec m (setupPageTables L)).mem L.pml4 := by
  intro L m
  rw [setupPageTables_mem]
  intro exact
  have stray : entry m.mem L.pdt 1 = 0x200083 := by rw [entry_pdt]; exact load_store ..
  have nothing := mapsNothing_of_exact exact (i := 1) (by decide) (by decide)
  rw [stray] at nothing
  rcases nothing with absent | ⟨small,_⟩
  · exact absurd absent (by decide)
  · exact absurd small (by decide)

end Kernal.BootPaging
