import Mathlib.Algebra.Group.Nat.Defs
import Mathlib.Data.Nat.Find
import Mathlib.Data.List.TakeWhile

/-! Output on the serial port. `printk` formats into a buffer of 1024 bytes and passes on the
length that `vsnprintf` returns: the length of the whole text, as an `int` that becomes the
`size_t` bound of the loop in `console_write`. -/
namespace Kernal.Console

abbrev Byte := BitVec 8

/-- The bytes from the start of a buffer on, those behind its end included. -/
abbrev Buffer := Nat → Byte

def bufferSize : Nat := 1024

/-- The port `SERIAL_PORT`, with its line status register at each reading. The transmitter
always becomes empty some time. -/
structure Uart where
  status : Nat → Byte
  ready : ∀ n, ∃ k, status (n + k) &&& 0x20 ≠ 0

/-- What has happened at the port, and which indices `console_write` has read. -/
structure Port where
  polls : Nat
  sent : List Byte
  reads : List Nat

section Output

variable (u : Uart)

/-- The loop ends at the first reading with bit 5 set. -/
def serialPutc (s : Port) (c : Byte) : Port :=
  { s with polls := s.polls + Nat.find (u.ready s.polls) + 1, sent := s.sent ++ [c] }

def consoleWrite (buffer : Buffer) (len : BitVec 64) (s : Port) : Port :=
  (List.range len.toNat).foldl (fun s i => serialPutc u { s with reads := s.reads ++ [i] } (buffer i)) s

end Output

def cString (b : Buffer) : List Byte := ((List.range bufferSize).map b).takeWhile (· ≠ 0)

/-- `vsnprintf`, with the text that a format and its arguments stand for. Among the lists of
arguments are those of one pointer to a buffer. -/
structure Vsnprintf where
  Args : Type
  text : List Byte → Args → List Byte
  call : Buffer → Nat → List Byte → Args → Buffer × BitVec 32
  string : Buffer → Args

def panicStart : List Byte :=
  ['K', 'E', 'R', 'N', 'E', 'L', ' ', 'P', 'A', 'N', 'I', 'C', ':', ' '].map fun c => BitVec.ofNat 8 c.toNat

def panicEnd : List Byte := ['\n'].map fun c => BitVec.ofNat 8 c.toNat

def panicFormat : List Byte := panicStart ++ (['%', 's'].map fun c => BitVec.ofNat 8 c.toNat) ++ panicEnd

section Kernel

variable (v : Vsnprintf) (u : Uart)

/-- `stack` is what the buffer and the memory behind it hold at entry. -/
def printk (stack : Buffer) (fmt : List Byte) (args : v.Args) (s : Port) : Port × BitVec 32 :=
  let (buffer, len) := v.call stack bufferSize fmt args
  (consoleWrite u buffer (len.signExtend 64) s, len)

/-- Up to the point where `panic` halts. `stack` and `inner` are the buffers of `panic` and of
the `printk` that it calls. -/
def panic (stack inner : Buffer) (fmt : List Byte) (args : v.Args) (s : Port) : Port :=
  let (buffer, _) := v.call stack bufferSize fmt args
  (printk v u inner panicFormat (v.string buffer) s).1

end Kernel

/-- What is documented of `vsnprintf`: it writes at most `n - 1` characters and a terminating
zero, and it returns the full length, or a negative number where that is no `int`. -/
structure Documented (v : Vsnprintf) : Prop where
  written : ∀ b n fmt args, 0 < n → ∀ i, i < min (v.text fmt args).length (n - 1) →
    some ((v.call b n fmt args).1 i) = (v.text fmt args)[i]?
  terminated : ∀ b n fmt args, 0 < n → (v.call b n fmt args).1 (min (v.text fmt args).length (n - 1)) = 0
  returns : ∀ b n fmt args, (v.text fmt args).length < 2^31 →
    (v.call b n fmt args).2.toInt = (v.text fmt args).length
  fails : ∀ b n fmt args, 2^31 ≤ (v.text fmt args).length → (v.call b n fmt args).2.toInt < 0
  string : ∀ b, (∃ i, i < bufferSize ∧ b i = 0) →
    v.text panicFormat (v.string b) = panicStart ++ cString b ++ panicEnd

/-- The characters sent are the first 1023 of the text, or all of it, and no byte behind the
buffer is read. -/
def Exact (text : List Byte) (before after : Port) : Prop :=
  after.sent = before.sent ++ text.take (bufferSize - 1) ∧
    ∃ indices, after.reads = before.reads ++ indices ∧ ∀ i ∈ indices, i < bufferSize

theorem consoleWrite_eq (u : Uart) (buffer : Buffer) (len : BitVec 64) (s : Port) :
    (consoleWrite u buffer len s).sent = s.sent ++ (List.range len.toNat).map buffer ∧
      (consoleWrite u buffer len s).reads = s.reads ++ List.range len.toNat := by
  rw [consoleWrite]
  induction len.toNat with
  | zero => simp
  | succ n ih =>
    rw [List.range_succ,List.foldl_append,List.map_append,← List.append_assoc,← List.append_assoc,← ih.1,← ih.2]
    exact ⟨rfl,rfl⟩

/-- A length that is an `int` is the bound of the loop. -/
theorem signExtend_length {len : BitVec 32} {n : Nat} (fits : len.toInt = n) : (len.signExtend 64).toNat = n := by
  have same : (len.signExtend 64).toInt = n := (BitVec.toInt_signExtend_of_le (by decide)).trans fits
  rw [BitVec.toInt_eq_toNat_cond] at same
  split at same <;> omega

theorem signExtend_negative {len : BitVec 32} (negative : len.toInt < 0) : 2^63 ≤ (len.signExtend 64).toNat := by
  have same : (len.signExtend 64).toInt < 0 := by rwa [BitVec.toInt_signExtend_of_le (by decide)]
  rw [BitVec.toInt_eq_toNat_cond] at same
  split at same <;> omega

theorem takeWhile_stop {p : α → Bool} {a rest : List α} (stops : p x = false) :
    (a ++ x :: rest).takeWhile p = a.takeWhile p := by
  induction a with
  | nil => simp [stops]
  | cons y a ih => simp only [List.cons_append,List.takeWhile_cons,ih]

theorem map_range_eq_take {buffer : Buffer} {text : List Byte} (k : Nat)
    (holds : ∀ i, i < k → some (buffer i) = text[i]?) : (List.range k).map buffer = text.take k := by
  refine List.ext_getElem? fun i => ?_
  by_cases inside : i < k
  · rw [List.getElem?_map,List.getElem?_range inside,Option.map_some,holds i inside,
      List.getElem?_take_of_lt inside]
  · have outside := Nat.not_lt.mp inside
    rw [List.getElem?_eq_none (by simpa using outside),List.getElem?_eq_none (by rw [List.length_take]; omega)]

/-- What `console_write` sends is exact where its bound is the length of a text that starts the
buffer and leaves room for its end. -/
theorem consoleWrite_exact_iff {u : Uart} {buffer : Buffer} {len : BitVec 64} {text : List Byte} {s : Port}
    (bound : len.toNat = text.length ∨ (bufferSize ≤ len.toNat ∧ bufferSize ≤ text.length))
    (holds : ∀ i, i < min text.length (bufferSize - 1) → some (buffer i) = text[i]?) :
    Exact text s (consoleWrite u buffer len s) ↔ text.length ≤ bufferSize - 1 := by
  obtain ⟨sent,reads⟩ := consoleWrite_eq u buffer len s
  constructor
  · rintro ⟨exact,_⟩
    have same := congrArg List.length (List.append_cancel_left (sent.symm.trans exact))
    simp only [List.length_map,List.length_range,List.length_take,bufferSize] at same bound ⊢
    omega
  · intro short
    have whole : len.toNat = text.length := by
      simp only [bufferSize] at bound short
      omega
    refine ⟨?_,_,reads,fun i member => ?_⟩
    · rw [sent,whole,map_range_eq_take text.length fun i inside => holds i (by omega),
        List.take_of_length_le short,List.take_length]
    · have small := List.mem_range.mp member
      simp only [bufferSize] at short ⊢
      omega

section Calls

variable {v : Vsnprintf} (documented : Documented v)
include documented

theorem printk_exact_iff (u : Uart) (stack : Buffer) (fmt : List Byte) (args : v.Args) (s : Port) :
    Exact (v.text fmt args) s (printk v u stack fmt args s).1 ↔ (v.text fmt args).length ≤ bufferSize - 1 := by
  refine consoleWrite_exact_iff ?_ (documented.written stack bufferSize fmt args (by decide))
  by_cases fits : (v.text fmt args).length < 2^31
  · exact .inl (signExtend_length (documented.returns stack bufferSize fmt args fits))
  · have large := signExtend_negative (documented.fails stack bufferSize fmt args (Nat.not_lt.mp fits))
    exact .inr ⟨Nat.le_trans (by decide) large,Nat.le_trans (by decide) (Nat.not_lt.mp fits)⟩

/-- The string that `panic` wraps is its message, cut to the buffer and at a zero character. -/
theorem cString_call (stack : Buffer) (fmt : List Byte) (args : v.Args) :
    cString (v.call stack bufferSize fmt args).1 =
      ((v.text fmt args).take (bufferSize - 1)).takeWhile (· ≠ 0) := by
  have written := documented.written stack bufferSize fmt args (by decide)
  have terminated := documented.terminated stack bufferSize fmt args (by decide)
  generalize (v.call stack bufferSize fmt args).1 = buffer at written terminated ⊢
  generalize v.text fmt args = text at written terminated ⊢
  generalize place : min text.length (bufferSize - 1) = k at written terminated
  have below : k ≤ bufferSize - 1 := by omega
  have size : bufferSize = k + (bufferSize - 1 - k + 1) := by simp only [bufferSize] at *; omega
  have taken : text.take k = text.take (bufferSize - 1) := List.take_eq_take_iff.mpr (by omega)
  obtain ⟨rest,split⟩ : ∃ rest, (List.range bufferSize).map buffer = text.take k ++ 0 :: rest := by
    rw [size,List.range_add,List.map_append,map_range_eq_take k written,List.range_succ_eq_map,List.map_cons,
      List.map_cons,Nat.add_zero,terminated]
    exact ⟨_,rfl⟩
  have stops : (fun x : Byte => decide (x ≠ 0)) 0 = false := by decide
  rw [cString,split,taken]
  exact takeWhile_stop stops

/-- A panic is sent whole exactly if the wrapped message fits, that is, has at most 1008
characters. -/
theorem panic_exact_iff (u : Uart) (stack inner : Buffer) (fmt : List Byte) (args : v.Args) (s : Port) :
    let message := ((v.text fmt args).take (bufferSize - 1)).takeWhile (· ≠ 0)
    Exact (panicStart ++ message ++ panicEnd) s (panic v u stack inner fmt args s) ↔ message.length ≤ 1008 := by
  intro message
  have ended : ∃ i, i < bufferSize ∧ (v.call stack bufferSize fmt args).1 i = 0 := by
    refine ⟨_,?_,documented.terminated stack bufferSize fmt args (by decide)⟩
    simp only [bufferSize]
    omega
  have text : v.text panicFormat (v.string (v.call stack bufferSize fmt args).1) =
      panicStart ++ message ++ panicEnd := by
    rw [documented.string _ ended,cString_call documented]
  have exact := printk_exact_iff documented u inner panicFormat
    (v.string (v.call stack bufferSize fmt args).1) s
  rw [text] at exact
  have first : panicStart.length = 14 := rfl
  have last : panicEnd.length = 1 := rfl
  refine exact.trans ?_
  rw [List.length_append,List.length_append,first,last,bufferSize]
  omega

/-- The console gets the text that it should, and no byte behind a buffer, exactly for texts of
at most 1023 characters and panic messages of at most 1008. -/
theorem console_exact_iff (u : Uart) (stack inner : Buffer) (fmt : List Byte) (args : v.Args) (s : Port) :
    let message := ((v.text fmt args).take (bufferSize - 1)).takeWhile (· ≠ 0)
    (Exact (v.text fmt args) s (printk v u stack fmt args s).1 ↔ (v.text fmt args).length ≤ 1023) ∧
      (Exact (panicStart ++ message ++ panicEnd) s (panic v u stack inner fmt args s) ↔ message.length ≤ 1008) :=
  ⟨printk_exact_iff documented u stack fmt args s,panic_exact_iff documented u stack inner fmt args s⟩

end Calls

/-- A text is put into a buffer of `n` bytes, cut where it does not fit. -/
def putText (text : List Byte) (b : Buffer) (n : Nat) : Buffer × BitVec 32 :=
  (fun i =>
    if i < min text.length (n - 1) then text.getD i 0
    else if i = min text.length (n - 1) then 0
    else b i,
    if text.length < 2^31 then BitVec.ofNat 32 text.length else -1)

theorem putText_written (text : List Byte) (b : Buffer) (inside : i < min text.length (n - 1)) :
    some ((putText text b n).1 i) = text[i]? := by
  have short : i < text.length := by omega
  have value : (putText text b n).1 i = text.getD i 0 := if_pos inside
  rw [value,List.getD_eq_getElem?_getD,List.getElem?_eq_getElem short,Option.getD_some]

theorem putText_terminated (text : List Byte) (b : Buffer) (n : Nat) :
    (putText text b n).1 (min text.length (n - 1)) = 0 :=
  (if_neg (Nat.lt_irrefl _)).trans (if_pos rfl)

theorem putText_returns (text : List Byte) (b : Buffer) (n : Nat) (fits : text.length < 2^31) :
    (putText text b n).2.toInt = text.length := by
  have small : (BitVec.ofNat 32 text.length).toNat = text.length := by
    rw [BitVec.toNat_ofNat,Nat.mod_eq_of_lt (by omega)]
  have result : (putText text b n).2 = BitVec.ofNat 32 text.length := if_pos fits
  rw [result,BitVec.toInt_eq_toNat_of_lt (by omega),small]

theorem putText_fails (text : List Byte) (b : Buffer) (n : Nat) (large : 2^31 ≤ text.length) :
    (putText text b n).2.toInt < 0 := by
  have result : (putText text b n).2 = -1 := if_neg (Nat.not_lt.mpr large)
  rw [result]
  decide

/-- Conversions of strings, and characters that stand for themselves. -/
def format : List Byte → List (List Byte) → List Byte
  | 0x25#8 :: 0x73#8 :: fmt, a :: args => a ++ format fmt args
  | c :: fmt, args => c :: format fmt args
  | [], _ => []

def plain : Vsnprintf where
  Args := List (List Byte)
  text := format
  call b n fmt args := putText (format fmt args) b n
  string b := [cString b]

theorem plain_documented : Documented plain where
  written b n fmt args _ _ inside := putText_written (format fmt args) b inside
  terminated b n fmt args _ := putText_terminated (format fmt args) b n
  returns b n fmt args fits := putText_returns (format fmt args) b n fits
  fails b n fmt args large := putText_fails (format fmt args) b n large
  string b _ := by
    generalize string : cString b = text
    change format panicFormat [cString b] = _
    rw [string]
    simp [panicFormat,panicStart,panicEnd,format]

theorem format_literal {fmt : List Byte} (literal : ∀ c ∈ fmt, c ≠ 0x25#8) (args : List (List Byte)) :
    format fmt args = fmt := by
  induction fmt with
  | nil => rw [format]
  | cons c fmt ih =>
    obtain ⟨first,rest⟩ := List.forall_mem_cons.mp literal
    rw [format,ih rest]
    exact fun _ _ _ _ same => absurd same first

def idle : Uart := ⟨fun _ => 0x20, fun _ => ⟨0,by decide⟩⟩

def letters (n : Nat) : List Byte := List.replicate n 0x61

theorem format_letters (n : Nat) : format (letters n) [] = letters n :=
  format_literal (fun c member => by rw [List.eq_of_mem_replicate member]; decide) []

theorem letters_length (n : Nat) : (letters n).length = n := List.length_replicate

theorem letters_string (short : n ≤ bufferSize - 1) :
    ((letters n).take (bufferSize - 1)).takeWhile (· ≠ 0) = letters n := by
  rw [List.take_of_length_le (by rwa [letters_length])]
  refine List.takeWhile_eq_self_iff.mpr fun c member => ?_
  rw [List.eq_of_mem_replicate member]
  decide

/-- A text of 1024 characters, and a panic message of 1009. -/
theorem console_not_exact :
    let blank : Buffer := fun _ => 0
    let s : Port := ⟨0, [], []⟩
    ¬Exact (letters 1024) s (printk plain idle blank (letters 1024) [] s).1 ∧
    ¬Exact (panicStart ++ letters 1009 ++ panicEnd) s (panic plain idle blank blank (letters 1009) [] s) := by
  intro blank s
  constructor
  · have exact := printk_exact_iff plain_documented idle blank (letters 1024) [] s
    have text : plain.text (letters 1024) [] = letters 1024 := format_letters 1024
    rw [text,letters_length] at exact
    exact mt exact.mp (by decide)
  · have exact := panic_exact_iff plain_documented idle blank blank (letters 1009) [] s
    have text : plain.text (letters 1009) [] = letters 1009 := format_letters 1009
    rw [text,letters_string (by decide)] at exact
    exact mt exact.mp (by rw [letters_length]; decide)

/-- A short text. -/
theorem console_exact_short :
    let blank : Buffer := fun _ => 0
    let s : Port := ⟨0, [], []⟩
    Exact (letters 3) s (printk plain idle blank (letters 3) [] s).1 ∧
    Exact (panicStart ++ letters 3 ++ panicEnd) s (panic plain idle blank blank (letters 3) [] s) := by
  intro blank s
  have both := console_exact_iff plain_documented idle blank blank (letters 3) ([] : List (List Byte)) s
  exact ⟨both.1.mpr (by decide),both.2.mpr (by decide)⟩

end Kernal.Console
