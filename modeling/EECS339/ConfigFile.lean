import EECS339.Lib.Decimals
import EECS339.DiskArray

/-!
# The configuration file

`WriteConfig` and `ReadConfig` of `disksystem.cc`. The reader goes through a buffer
of 80 bytes, so that a long line reaches it in several parts.
-/
namespace BTreeLab
open Decimals

/-- A character stands for a byte. -/
abbrev Text := List Char

namespace ConfigFile

/-- What a `char *` shows of an array: what comes before the first NUL. -/
def cString (l : Text) : Text := l.takeWhile fun c => c ≠ '\x00'

/-! ## Writing -/

def printUnsigned (n : SizeT) : Text := Nat.toDigits 10 n.toNat

/-- What `%lf` shows of a number, in millionths and without the sign. -/
def millionths (q : ℚ) : Nat := (roundEven (q * 10 ^ 6)).natAbs

def printDouble (q : ℚ) : Text := (if q < 0 then ['-'] else []) ++ fixed 6 (millionths q)

def printLines : List Text → Text
  | [] => []
  | l :: ls => l ++ '\n' :: printLines ls

/-- What `WriteConfig` writes behind the file stem. -/
def fieldLines (c : DiskConfig) : List Text :=
  ["# offset".toList, printUnsigned c.offset,
    "# numblocks".toList, printUnsigned c.numblocks,
    "# blocksize".toList, printUnsigned c.blocksize,
    "# numheads".toList, printUnsigned c.numheads,
    "# blockspertrack".toList, printUnsigned c.blockspertrack,
    "# numtracks".toList, printUnsigned c.numtracks,
    "# averageseeklatency".toList, printDouble c.averageseeklatency,
    "# trackseeklatency".toList, printDouble c.trackseeklatency,
    "# rotationalatency".toList, printDouble c.rotationallatency]

def writeConfig (diskfilestem : Text) (c : DiskConfig) : Text :=
  printLines ("# disksystem config file version 0.9".toList :: "# filestem".toList ::
    cString diskfilestem :: fieldLines c)

/-! ## Reading -/

/-- The part of a file that `fgets` takes with room for `k` bytes, and the rest. -/
def takeLine : Nat → Text → Text × Text
  | 0, l => ([], l)
  | _ + 1, [] => ([], [])
  | k + 1, c :: l =>
      if c = '\n' then ([c], l) else (c :: (takeLine k l).1, (takeLine k l).2)

theorem takeLine_append (k : Nat) (l : Text) : (takeLine k l).1 ++ (takeLine k l).2 = l := by
  induction k generalizing l with
  | zero => rfl
  | succ k ih =>
      cases l with
      | nil => rfl
      | cons c l =>
          rw [takeLine]
          split_ifs
          · rfl
          · rw [List.cons_append, ih]

theorem takeLine_shrinks (k : Nat) (c : Char) (l : Text) :
    (takeLine (k + 1) (c :: l)).2.length < (c :: l).length := by
  rw [takeLine]
  split_ifs
  · exact Nat.lt_succ_self _
  · have whole := congrArg List.length (takeLine_append k l)
    rw [List.length_append] at whole
    have fewer : (takeLine k l).2.length ≤ l.length := by omega
    exact Nat.lt_succ_of_le fewer

/-- The buffer, as a C string, and what is left of the file. -/
abbrev Reader := Text × Text

/-- `GETNEXTVAL`. At the end of the file the buffer stays as it is; if it holds a
comment then, the loop never ends. -/
def getNextVal : Reader → Option Reader
  | (buf, []) => if buf.head? = some '#' then none else some (buf, [])
  | (_, c :: file) =>
      let line := takeLine 79 (c :: file)
      if (cString line.1).head? = some '#' then getNextVal (cString line.1, line.2)
      else some (cString line.1, line.2)
termination_by s => s.2.length
decreasing_by exact takeLine_shrinks 78 c file

/-- An empty buffer, which only a NUL at the start of a line leaves, stays empty. -/
def stripNewline (buf : Text) : Text := if buf.getLast? = some '\n' then buf.dropLast else buf

def isSpace (c : Char) : Bool := c ∈ [' ', '\t', '\n', '\x0b', '\x0c', '\r']

def takeSign : Text → Bool × Text
  | '-' :: l => (true, l)
  | '+' :: l => (false, l)
  | l => (false, l)

/-- `%u`: the number is a 64-bit one, the largest if there are too many digits, and
loses its upper half in the variable. -/
def scanUnsigned (buf : Text) : Option SizeT :=
  let (negative, l) := takeSign (buf.dropWhile isSpace)
  let digits := (takeDigits l).1
  if digits = [] then none
  else if 2 ^ 64 ≤ value digits then some (BitVec.ofInt 32 (2 ^ 64 - 1))
  else some (BitVec.ofInt 32 (if negative then -value digits else value digits))

def takeDecimals : Text → Text × Text
  | '.' :: l => takeDigits l
  | l => ([], l)

def exponent : Text → Int
  | [] => 0
  | c :: l =>
      if c = 'e' ∨ c = 'E' then
        let (negative, l) := takeSign l
        let n := value (takeDigits l).1
        if negative then -n else n
      else 0

/-- `%lf` on decimal numbers; hexadecimal ones, `inf` and `nan` are left out. -/
def scanDouble (buf : Text) : Option ℚ :=
  let (negative, l) := takeSign (buf.dropWhile isSpace)
  let (whole, l) := takeDigits l
  let (decimals, l) := takeDecimals l
  if whole = [] ∧ decimals = [] then none
  else
    let x : ℚ := value (whole ++ decimals) / 10 ^ decimals.length * 10 ^ exponent l
    some (if negative then -x else x)

/-- A variable keeps its value `x` when nothing matches. -/
def readField {α : Type} (scan : Text → Option α) (x : α) (s : Reader) : Option (α × Reader) := do
  let s ← getNextVal s
  return ((scan s.1).getD x, s)

/-- What `ReadConfig` reads behind the file stem; the fields were those of `old`. -/
def readFields (old : DiskConfig) (s : Reader) : Option DiskConfig := do
  let (offset, s) ← readField scanUnsigned old.offset s
  let (numblocks, s) ← readField scanUnsigned old.numblocks s
  let (blocksize, s) ← readField scanUnsigned old.blocksize s
  let (numheads, s) ← readField scanUnsigned old.numheads s
  let (blockspertrack, s) ← readField scanUnsigned old.blockspertrack s
  let (numtracks, s) ← readField scanUnsigned old.numtracks s
  let (averageseeklatency, s) ← readField scanDouble old.averageseeklatency s
  let (trackseeklatency, s) ← readField scanDouble old.trackseeklatency s
  let (rotationallatency, _) ← readField scanDouble old.rotationallatency s
  return ⟨offset, numblocks, blocksize, numheads, blockspertrack, numtracks, averageseeklatency,
    trackseeklatency, rotationallatency⟩

/-- `none`: the call never returns. Nothing initializes the buffer. -/
def readConfig (buf file : Text) (old : DiskConfig) : Option (Text × DiskConfig) := do
  let (buf, file) ← getNextVal (buf, file)
  let diskfilestem := stripNewline buf
  let c ← readFields old (diskfilestem, file)
  return (diskfilestem, c)

/-! ## Lines -/

variable {buf l rest name : Text} {ls : List Text} {k : Nat}

theorem takeLine_short (rest : Text) (free : '\n' ∉ l) (short : l.length < k) :
    takeLine k (l ++ '\n' :: rest) = (l ++ ['\n'], rest) := by
  induction l generalizing k with
  | nil =>
      obtain ⟨k, rfl⟩ := Nat.exists_eq_add_of_lt short
      simp [takeLine]
  | cons c l ih =>
      obtain ⟨ne, free⟩ := List.ne_and_not_mem_of_not_mem_cons free
      cases k with
      | zero => exact absurd short (Nat.not_lt_zero _)
      | succ k =>
          have inner := ih free (Nat.lt_of_succ_lt_succ short)
          rw [List.cons_append, takeLine, if_neg (Ne.symm ne), inner]
          rfl

theorem takeLine_long (rest : Text) (free : '\n' ∉ l) (long : k ≤ l.length) :
    takeLine k (l ++ rest) = (l.take k, l.drop k ++ rest) := by
  induction l generalizing k with
  | nil =>
      cases k with
      | zero => rfl
      | succ k => exact absurd long (Nat.not_succ_le_zero k)
  | cons c l ih =>
      obtain ⟨ne, free⟩ := List.ne_and_not_mem_of_not_mem_cons free
      cases k with
      | zero => rfl
      | succ k =>
          have inner := ih free (Nat.le_of_succ_le_succ long)
          rw [List.cons_append, takeLine, if_neg (Ne.symm ne), inner]
          rfl

/-- No newline and no NUL. -/
def Plain (l : Text) : Prop := '\n' ∉ l ∧ '\x00' ∉ l

instance (l : Text) : Decidable (Plain l) := inferInstanceAs (Decidable (_ ∧ _))

/-- A comment that fits the buffer. -/
def Comment (l : Text) : Prop := Plain l ∧ l.head? = some '#' ∧ l.length < 79

instance (l : Text) : Decidable (Comment l) := inferInstanceAs (Decidable (_ ∧ _))

theorem cString_plain (free : '\x00' ∉ l) : cString l = l := by
  apply List.takeWhile_eq_self_iff.mpr
  intro c m
  exact decide_eq_true fun same => free (same ▸ m)

theorem getNextVal_comment (comment : Comment name) :
    getNextVal (buf, printLines (name :: ls)) = getNextVal (name ++ ['\n'], printLines ls) := by
  obtain ⟨⟨line, nul⟩, start, short⟩ := comment
  have whole : cString (name ++ ['\n']) = name ++ ['\n'] := cString_plain (by simp [nul])
  have head : (name ++ ['\n']).head? = some '#' := by rw [List.head?_append, start]; rfl
  have took := takeLine_short (printLines ls) line short
  obtain ⟨c, file, file_eq⟩ : ∃ c file, printLines (name :: ls) = c :: file := by
    cases name with
    | nil => cases start
    | cons c name => exact ⟨c, _, rfl⟩
  rw [printLines] at file_eq
  rw [printLines, file_eq, getNextVal, ← file_eq, took, whole, if_pos head]

theorem getNextVal_value (plain : Plain l) (start : l.head? ≠ some '#') (short : l.length < 79) :
    getNextVal (buf, l ++ '\n' :: rest) = some (l ++ ['\n'], rest) := by
  obtain ⟨line, nul⟩ := plain
  have whole : cString (l ++ ['\n']) = l ++ ['\n'] := cString_plain (by simp [nul])
  have head : (l ++ ['\n']).head? ≠ some '#' := by
    cases l with
    | nil => decide
    | cons c l => exact start
  have took := takeLine_short rest line short
  obtain ⟨c, file, file_eq⟩ : ∃ c file, l ++ '\n' :: rest = c :: file := by
    cases l with
    | nil => exact ⟨_, _, rfl⟩
    | cons c l => exact ⟨c, _, rfl⟩
  rw [file_eq, getNextVal, ← file_eq, took, whole, if_neg head]

theorem getNextVal_long (plain : Plain l) (start : l.head? ≠ some '#') (long : 79 ≤ l.length) :
    getNextVal (buf, l ++ rest) = some (l.take 79, l.drop 79 ++ rest) := by
  obtain ⟨line, nul⟩ := plain
  have whole : cString (l.take 79) = l.take 79 := cString_plain fun m => nul (List.mem_of_mem_take m)
  have took := takeLine_long rest line long
  cases l with
  | nil => exact absurd long (by decide)
  | cons c l =>
      have head : ((c :: l).take 79).head? ≠ some '#' := start
      rw [List.cons_append, getNextVal, ← List.cons_append, took, whole, if_neg head]

/-! ## Numbers -/

theorem ne_of_isDigit {c d : Char} (digit : c.isDigit = true) (other : d.isDigit = false) : c ≠ d := by
  rintro rfl
  rw [digit] at other
  cases other

/-- Nothing is skipped in front of a digit or a point. -/
theorem skip_none {c : Char} (start : l.head? = some c) (numeric : c.isDigit = true ∨ c = '.') :
    takeSign (l.dropWhile isSpace) = (false, l) := by
  cases l with
  | nil => cases start
  | cons b l =>
      cases start
      have space : isSpace c = false ∧ c ≠ '-' ∧ c ≠ '+' := by
        rcases numeric with digit | rfl
        · refine ⟨?_, ne_of_isDigit digit rfl, ne_of_isDigit digit rfl⟩
          simp only [isSpace, List.mem_cons, List.not_mem_nil, or_false, decide_eq_false_iff_not, not_or]
          exact ⟨ne_of_isDigit digit rfl, ne_of_isDigit digit rfl, ne_of_isDigit digit rfl,
            ne_of_isDigit digit rfl, ne_of_isDigit digit rfl, ne_of_isDigit digit rfl⟩
        · decide
      rw [List.dropWhile_cons_of_neg (by simp [space.1])]
      unfold takeSign
      split
      · rename_i same
        cases same
        exact absurd rfl space.2.1
      · rename_i same
        cases same
        exact absurd rfl space.2.2
      · rfl

theorem head_digit {u : Text} (digits : Digits u) (nonempty : u ≠ []) (rest : Text) :
    ∃ c, (u ++ rest).head? = some c ∧ (c.isDigit = true ∨ c = '.') := by
  cases u with
  | nil => exact absurd rfl nonempty
  | cons c u => exact ⟨c, rfl, Or.inl (digits c List.mem_cons_self)⟩

theorem scanUnsigned_print (n : SizeT) : scanUnsigned (printUnsigned n ++ ['\n']) = some n := by
  obtain ⟨c, start, numeric⟩ := head_digit (digits_toDigits n.toNat) Nat.toDigits_ne_nil ['\n']
  have small : ¬ 2 ^ 64 ≤ n.toNat := by
    have := n.isLt
    omega
  simp only [scanUnsigned, printUnsigned, skip_none start numeric,
    takeDigits_stop (digits_toDigits n.toNat) (rfl : Char.isDigit '\n' = false), Nat.toDigits_ne_nil,
    if_false, value_toDigits,
    if_neg small, Bool.false_eq_true]
  rw [BitVec.ofInt_natCast, BitVec.ofNat_toNat, BitVec.setWidth_eq]

/-- The ways in which the text of a number may end in the buffer. -/
def Ending (tail : Text) : Prop := tail = [] ∨ tail = ['\n']

variable {w f tail : Text}

theorem takeDigits_ending (digits : Digits w) (ending : Ending tail) :
    takeDigits (w ++ tail) = (w, tail) := by
  rcases ending with rfl | rfl
  · rw [List.append_nil, takeDigits_all digits]
  · exact takeDigits_stop digits (by decide)

theorem scanDouble_whole (digits : Digits w) (nonempty : w ≠ []) (ending : Ending tail) :
    scanDouble (w ++ tail) = some (value w : ℚ) := by
  obtain ⟨c, start, numeric⟩ := head_digit digits nonempty tail
  have none : takeDecimals tail = ([], tail) ∧ exponent tail = 0 := by
    rcases ending with rfl | rfl <;> decide
  simp only [scanDouble, skip_none start numeric, takeDigits_ending digits ending, none, nonempty,
    false_and, if_false, Bool.false_eq_true, List.append_nil, List.length_nil, pow_zero, div_one,
    zpow_zero, mul_one]

theorem scanDouble_point (digits : Digits w) (decimals : Digits f) (nonempty : w ≠ [] ∨ f ≠ [])
    (ending : Ending tail) :
    scanDouble (w ++ '.' :: (f ++ tail)) = some ((value (w ++ f) : ℚ) / 10 ^ f.length) := by
  have start : ∃ c, (w ++ '.' :: (f ++ tail)).head? = some c ∧ (c.isDigit = true ∨ c = '.') := by
    by_cases empty : w = []
    · exact ⟨'.', by rw [empty]; rfl, Or.inr rfl⟩
    · exact head_digit digits empty _
  obtain ⟨c, start, numeric⟩ := start
  have none : exponent tail = 0 := by rcases ending with rfl | rfl <;> decide
  have some : ¬ (w = [] ∧ f = []) := by tauto
  simp only [scanDouble, skip_none start numeric, takeDigits_stop digits (rfl : Char.isDigit '.' = false),
    takeDecimals, takeDigits_ending decimals ending, some, if_false, none, zpow_zero, mul_one,
    Bool.false_eq_true]

theorem scanDouble_fixed (n : Nat) (ending : Ending tail) :
    scanDouble (fixed 6 n ++ tail) = some ((n : ℚ) / 10 ^ 6) := by
  have read := scanDouble_point (digits_toDigits (n / 10 ^ 6)) (digits_padded 6 n)
    (Or.inl Nat.toDigits_ne_nil) ending
  rw [value_fixed, length_padded] at read
  rwa [fixed, List.append_assoc, List.cons_append]

/-- Only digits and points. -/
def Numeric (l : Text) : Prop := ∀ c ∈ l, c.isDigit = true ∨ c = '.'

theorem Numeric.plain (h : Numeric l) : Plain l := by
  have free : ∀ d, d.isDigit = false → d ≠ '.' → d ∉ l := by
    intro d other point m
    rcases h d m with digit | same
    · rw [digit] at other
      cases other
    · exact point same
  exact ⟨free _ rfl (by decide), free _ rfl (by decide)⟩

theorem Numeric.start (h : Numeric l) : l.head? ≠ some '#' := by
  intro start
  rcases h '#' (List.mem_of_mem_head? start) with digit | same
  · exact absurd digit (by decide)
  · exact absurd same (by decide)

theorem numeric_unsigned (n : SizeT) : Numeric (printUnsigned n) :=
  fun c m => Or.inl (digits_toDigits n.toNat c m)

theorem numeric_fixed (k n : Nat) : Numeric (fixed k n) := by
  intro c m
  rcases List.mem_append.mp m with whole | rest
  · exact Or.inl (digits_toDigits _ c whole)
  · rcases List.mem_cons.mp rest with point | decimal
    · exact Or.inr point
    · exact Or.inl (digits_padded k n c decimal)

/-! ## Fields -/

section Fields

variable {α : Type} {scan : Text → Option α} {x : α}

theorem field_value (comment : Comment name) (numeric : Numeric l) (short : l.length < 79) :
    readField scan x (buf, printLines (name :: l :: ls)) =
      some ((scan (l ++ ['\n'])).getD x, (l ++ ['\n'], printLines ls)) := by
  rw [readField, getNextVal_comment comment, printLines,
    getNextVal_value numeric.plain numeric.start short]
  rfl

theorem field_long (comment : Comment name) (numeric : Numeric l) (long : 79 ≤ l.length) :
    readField scan x (buf, printLines (name :: l :: ls)) =
      some ((scan (l.take 79)).getD x, (l.take 79, l.drop 79 ++ '\n' :: printLines ls)) := by
  rw [readField, getNextVal_comment comment, printLines,
    getNextVal_long numeric.plain numeric.start long]
  rfl

theorem field_next (numeric : Numeric l) (short : l.length < 79) :
    readField scan x (buf, l ++ '\n' :: rest) =
      some ((scan (l ++ ['\n'])).getD x, (l ++ ['\n'], rest)) := by
  rw [readField, getNextVal_value numeric.plain numeric.start short]
  rfl

end Fields

theorem length_unsigned (n : SizeT) : (printUnsigned n).length < 79 := by
  have := n.isLt
  refine Nat.lt_succ_of_le ((Nat.length_toDigits_le_iff (by decide) (by decide)).mpr ?_)
  exact lt_trans this (by norm_num)

theorem unsigned_field {x : SizeT} (n : SizeT) (comment : Comment name) :
    readField scanUnsigned x (buf, printLines (name :: printUnsigned n :: ls)) =
      some (n, (printUnsigned n ++ ['\n'], printLines ls)) := by
  rw [field_value comment (numeric_unsigned n) (length_unsigned n), scanUnsigned_print]
  rfl

theorem double_field {x : ℚ} (n : Nat) (comment : Comment name) (short : (fixed 6 n).length < 79) :
    readField scanDouble x (buf, printLines (name :: fixed 6 n :: ls)) =
      some ((n : ℚ) / 10 ^ 6, (fixed 6 n ++ ['\n'], printLines ls)) := by
  rw [field_value comment (numeric_fixed 6 n) short, scanDouble_fixed n (Or.inr rfl)]
  rfl

/-! ## Texts that the buffer cuts -/

/-- For some `i`, at most `i` characters of the text do not fit the buffer, and the
decimals among them are zeros. -/
def Fits (n : Nat) : Prop := ∃ i ≤ 7, 10 ^ min i 6 ∣ n ∧ n < 10 ^ (78 + i)

variable {n : Nat}

theorem length_whole_le {m : Nat} (positive : 0 < m) :
    (Nat.toDigits 10 (n / 10 ^ 6)).length ≤ m ↔ n < 10 ^ (m + 6) := length_toDigits_le positive

/-- With `a` digits lost and `e` decimals left the number is the same only if the
digits lost were decimals and zero. -/
theorem cut_eq_iff {a e : Nat} (positive : 0 < n) (lost : 6 ≤ e + a) :
    ((n / 10 ^ a : Nat) : ℚ) / 10 ^ e = (n : ℚ) / 10 ^ 6 ↔ e + a = 6 ∧ 10 ^ a ∣ n := by
  have cross : ((n / 10 ^ a : Nat) : ℚ) / 10 ^ e = (n : ℚ) / 10 ^ 6 ↔
      n / 10 ^ a * 10 ^ 6 = n * 10 ^ e := by
    rw [div_eq_div_iff (by positivity) (by positivity)]
    exact_mod_cast Iff.rfl
  rw [cross]
  constructor
  · intro same
    have exact : e + a = 6 := by
      by_contra other
      have more : 10 ^ 6 < 10 ^ (e + a) := Nat.pow_lt_pow_right (by decide) (by omega)
      have front : 0 < n / 10 ^ a := by
        rcases Nat.eq_zero_or_pos (n / 10 ^ a) with zero | front
        · rw [zero, zero_mul] at same
          have := Nat.mul_pos positive (Nat.pow_pos (n := e) (by decide : 0 < 10))
          omega
        · exact front
      have le : n / 10 ^ a * 10 ^ a * 10 ^ e ≤ n * 10 ^ e :=
        Nat.mul_le_mul_right _ (Nat.div_mul_le_self n (10 ^ a))
      rw [← same, mul_assoc, ← pow_add, add_comm a e] at le
      exact absurd (Nat.le_of_mul_le_mul_left le front) (not_le.mpr more)
    refine ⟨exact, ⟨n / 10 ^ a, ?_⟩⟩
    rw [← exact, pow_add, mul_comm (10 ^ e), ← mul_assoc] at same
    have := Nat.eq_of_mul_eq_mul_right (Nat.pow_pos (by decide)) same
    rw [mul_comm]
    exact this.symm
  · rintro ⟨exact, divides⟩
    rw [← exact, pow_add, mul_comm (10 ^ e), ← mul_assoc, Nat.div_mul_cancel divides]

/-- How the buffer cuts a number whose point still fits. -/
theorem cut_decimals (point : (Nat.toDigits 10 (n / 10 ^ 6)).length ≤ 78) :
    let j := 78 - (Nat.toDigits 10 (n / 10 ^ 6)).length
    (fixed 6 n).take 79 = Nat.toDigits 10 (n / 10 ^ 6) ++ '.' :: (padded 6 n).take j ∧
      (fixed 6 n).drop 79 = (padded 6 n).drop j := by
  intro j
  have split : 79 = (Nat.toDigits 10 (n / 10 ^ 6)).length + (j + 1) := by omega
  rw [fixed, split, List.take_length_add_append, List.drop_length_add_append]
  exact ⟨rfl, rfl⟩

/-- How it cuts one whose point does not fit. -/
theorem cut_whole (point : 79 ≤ (Nat.toDigits 10 (n / 10 ^ 6)).length) :
    (fixed 6 n).take 79 = (Nat.toDigits 10 (n / 10 ^ 6)).take 79 ∧
      (fixed 6 n).drop 79 = (Nat.toDigits 10 (n / 10 ^ 6)).drop 79 ++ '.' :: padded 6 n := by
  rw [fixed, List.take_append_of_le_length point, List.drop_append_of_le_length point]
  exact ⟨rfl, rfl⟩

/-- The digits in front of those cut off, and these themselves. -/
theorem value_cut {u v : Text} (n : Nat) (digits : Digits v)
    (whole : u ++ v = Nat.toDigits 10 (n / 10 ^ 6) ++ padded 6 n) :
    value u = n / 10 ^ v.length ∧ value v = n % 10 ^ v.length :=
  ⟨by rw [value_front digits, whole, value_fixed], by rw [value_back digits, whole, value_fixed]⟩

theorem fits_decimals (point : (Nat.toDigits 10 (n / 10 ^ 6)).length ≤ 78) :
    Fits n ↔ 10 ^ (6 - (78 - (Nat.toDigits 10 (n / 10 ^ 6)).length)) ∣ n := by
  generalize hj : 78 - (Nat.toDigits 10 (n / 10 ^ 6)).length = j
  constructor
  · rintro ⟨i, le, divides, small⟩
    have short := (length_whole_le (n := n) (m := 72 + i) (by omega)).mpr
      (by rwa [show 72 + i + 6 = 78 + i by omega])
    exact (Nat.pow_dvd_pow 10 (by omega)).trans divides
  · intro divides
    refine ⟨6 - j, by omega, by rwa [min_eq_left (by omega)], ?_⟩
    have small := (length_whole_le (n := n) (m := 72 + (6 - j)) (by omega)).mp (by omega)
    rwa [show 72 + (6 - j) + 6 = 78 + (6 - j) by omega] at small

theorem fits_whole (point : 79 ≤ (Nat.toDigits 10 (n / 10 ^ 6)).length) :
    Fits n ↔ (Nat.toDigits 10 (n / 10 ^ 6)).length = 79 ∧ 10 ^ 6 ∣ n := by
  constructor
  · rintro ⟨i, le, divides, small⟩
    have short := (length_whole_le (n := n) (m := 72 + i) (by omega)).mpr
      (by rwa [show 72 + i + 6 = 78 + i by omega])
    have seven : i = 7 := by omega
    subst seven
    exact ⟨by omega, divides⟩
  · rintro ⟨same, divides⟩
    exact ⟨7, le_rfl, divides, (length_whole_le (n := n) (m := 79) (by omega)).mp same.le⟩

theorem scan_cut_decimals (point : (Nat.toDigits 10 (n / 10 ^ 6)).length ≤ 78) :
    let j := 78 - (Nat.toDigits 10 (n / 10 ^ 6)).length
    scanDouble ((fixed 6 n).take 79) = some (((n / 10 ^ (6 - j) : Nat) : ℚ) / 10 ^ min j 6) := by
  intro j
  have decimals := digits_padded 6 n
  have read := scanDouble_point (digits_toDigits (n / 10 ^ 6)) (decimals.take j)
    (Or.inl Nat.toDigits_ne_nil) (Or.inl rfl : Ending [])
  obtain ⟨front, -⟩ := value_cut (u := Nat.toDigits 10 (n / 10 ^ 6) ++ (padded 6 n).take j) n
    (decimals.drop j) (by rw [List.append_assoc, List.take_append_drop])
  rw [List.length_drop, length_padded] at front
  rwa [List.append_nil, front, List.length_take, length_padded, ← (cut_decimals point).1] at read

theorem scan_cut_whole (point : 79 ≤ (Nat.toDigits 10 (n / 10 ^ 6)).length) :
    scanDouble ((fixed 6 n).take 79) =
      some ((n / 10 ^ ((Nat.toDigits 10 (n / 10 ^ 6)).length - 79 + 6) : Nat) : ℚ) := by
  have digits := digits_toDigits (n / 10 ^ 6)
  have nonempty : (Nat.toDigits 10 (n / 10 ^ 6)).take 79 ≠ [] := by
    rw [← List.length_pos_iff, List.length_take]
    omega
  have read := scanDouble_whole (digits.take 79) nonempty (Or.inl rfl : Ending [])
  obtain ⟨front, -⟩ := value_cut (u := (Nat.toDigits 10 (n / 10 ^ 6)).take 79) n
    ((digits.drop 79).append (digits_padded 6 n)) (by rw [← List.append_assoc, List.take_append_drop])
  rw [List.length_append, List.length_drop, length_padded] at front
  rwa [List.append_nil, front, ← (cut_whole point).1] at read

/-- A number survives the buffer exactly when it fits. -/
theorem scanDouble_cut (positive : 0 < n) :
    scanDouble ((fixed 6 n).take 79) = some ((n : ℚ) / 10 ^ 6) ↔ Fits n := by
  rcases Nat.lt_or_ge (Nat.toDigits 10 (n / 10 ^ 6)).length 79 with point | point
  · rw [scan_cut_decimals (by omega), Option.some.injEq, cut_eq_iff positive (by omega),
      fits_decimals (by omega)]
    exact and_iff_right (by omega)
  · have same := cut_eq_iff (a := (Nat.toDigits 10 (n / 10 ^ 6)).length - 79 + 6) (e := 0) positive
      (by omega)
    rw [pow_zero, div_one] at same
    rw [scan_cut_whole point, Option.some.injEq, same, fits_whole point]
    constructor
    · rintro ⟨exact, divides⟩
      exact ⟨by omega, by rwa [show (Nat.toDigits 10 (n / 10 ^ 6)).length - 79 + 6 = 6 by omega] at divides⟩
    · rintro ⟨exact, divides⟩
      exact ⟨by omega, by rwa [exact]⟩

/-- What is left of a number that fits shows no value or zero, and is taken for the
next line. -/
theorem field_rest (buf rest : Text) (fits : Fits n) (long : 79 ≤ (fixed 6 n).length) :
    ∃ s, readField scanDouble 0 (buf, (fixed 6 n).drop 79 ++ '\n' :: rest) = some (0, s) := by
  have numeric : Numeric ((fixed 6 n).drop 79) := fun c m => numeric_fixed 6 n c (List.mem_of_mem_drop m)
  have digits := digits_toDigits (n / 10 ^ 6)
  have decimals := digits_padded 6 n
  have length := length_fixed 6 n
  suffices zero : (scanDouble ((fixed 6 n).drop 79 ++ ['\n'])).getD 0 = 0 ∧
      ((fixed 6 n).drop 79).length < 79 by
    rw [field_next numeric zero.2, zero.1]
    exact ⟨_, rfl⟩
  rcases Nat.lt_or_ge (Nat.toDigits 10 (n / 10 ^ 6)).length 79 with point | point
  · refine ⟨?_, by rw [List.length_drop]; omega⟩
    rw [(cut_decimals (by omega)).2]
    generalize hj : 78 - (Nat.toDigits 10 (n / 10 ^ 6)).length = j
    by_cases empty : (padded 6 n).drop j = []
    · rw [empty]
      decide
    · obtain ⟨-, back⟩ := value_cut (u := Nat.toDigits 10 (n / 10 ^ 6) ++ (padded 6 n).take j) n
        (decimals.drop j) (by rw [List.append_assoc, List.take_append_drop])
      have divides := (fits_decimals (by omega)).mp fits
      rw [List.length_drop, length_padded, ← hj, Nat.mod_eq_zero_of_dvd divides] at back
      rw [hj] at back
      rw [scanDouble_whole (decimals.drop j) empty (Or.inr rfl), back]
      rfl
  · obtain ⟨same, divides⟩ := (fits_whole point).mp fits
    refine ⟨?_, by rw [List.length_drop]; omega⟩
    have none : (Nat.toDigits 10 (n / 10 ^ 6)).drop 79 = [] := List.drop_eq_nil_of_le same.le
    have read := scanDouble_point (w := []) (fun c m => absurd m List.not_mem_nil) decimals
      (Or.inr (by rw [← List.length_pos_iff, length_padded]; decide)) (Or.inr rfl : Ending ['\n'])
    rw [List.nil_append, List.nil_append, value_padded, Nat.mod_eq_zero_of_dvd divides, Nat.cast_zero,
      zero_div] at read
    rw [(cut_whole point).2, none, List.nil_append, List.cons_append, read]
    rfl

/-! ## The round trip -/

/-- What the buffer can hold after a read. -/
structure Buffered (buf : Text) : Prop where
  short : buf.length ≤ 79
  nul : '\x00' ∉ buf
  line : '\n' ∉ buf.dropLast

theorem takeLine_line (k : Nat) (l : Text) :
    (takeLine k l).1.length ≤ k ∧ '\n' ∉ (takeLine k l).1.dropLast := by
  induction k generalizing l with
  | zero => exact ⟨le_rfl, List.not_mem_nil⟩
  | succ k ih =>
      cases l with
      | nil => exact ⟨Nat.zero_le _, List.not_mem_nil⟩
      | cons c l =>
          obtain ⟨short, free⟩ := ih l
          rw [takeLine]
          split_ifs with newline
          · exact ⟨Nat.succ_le_succ (Nat.zero_le k), List.not_mem_nil⟩
          · refine ⟨Nat.succ_le_succ short, ?_⟩
            cases front : (takeLine k l).1 with
            | nil => exact List.not_mem_nil
            | cons d front' =>
                rw [List.dropLast_cons_of_ne_nil (List.cons_ne_nil d front'), ← front]
                exact List.not_mem_cons_of_ne_of_not_mem (Ne.symm newline) free

theorem buffered_cString {l : Text} (short : l.length ≤ 79) (line : '\n' ∉ l.dropLast) :
    Buffered (cString l) := by
  have start : cString l <+: l := List.takeWhile_prefix _
  refine ⟨start.length_le.trans short, fun nul => ?_, fun newline => ?_⟩
  · exact absurd (List.mem_takeWhile_imp nul) (by decide)
  · obtain ⟨rest, whole⟩ := start
    rcases List.eq_nil_or_concat' (cString l) with empty | ⟨front, d, split⟩
    · rw [empty] at newline
      exact absurd newline List.not_mem_nil
    · rw [split, List.dropLast_concat] at newline
      rw [split, List.append_assoc] at whole
      rw [← whole, List.dropLast_append_of_ne_nil (by simp)] at line
      exact line (List.mem_append_left _ newline)

theorem getNextVal_buffered {s r : Reader} (h : Buffered s.1 ∨ s.2 ≠ []) (ran : getNextVal s = some r) :
    Buffered r.1 ∧ r.1.head? ≠ some '#' := by
  induction s using getNextVal.induct with
  | case1 buf start => simp [getNextVal, start] at ran
  | case2 buf start =>
      rw [getNextVal, if_neg start] at ran
      cases ran
      exact ⟨h.resolve_right fun ne => ne rfl, start⟩
  | case3 buf c file line start ih =>
      obtain ⟨short, free⟩ := takeLine_line 79 (c :: file)
      rw [getNextVal, if_pos start] at ran
      exact ih (Or.inl (buffered_cString short free)) ran
  | case4 buf c file line start =>
      obtain ⟨short, free⟩ := takeLine_line 79 (c :: file)
      rw [getNextVal, if_neg start] at ran
      cases ran
      exact ⟨buffered_cString short free, start⟩

theorem stripNewline_free (free : '\n' ∉ buf.dropLast) : '\n' ∉ stripNewline buf := by
  unfold stripNewline
  split_ifs with last
  · exact free
  · intro m
    obtain ⟨front, d, rfl⟩ := List.eq_nil_or_concat' buf |>.resolve_left (List.ne_nil_of_mem m)
    rw [List.dropLast_concat] at free
    rcases List.mem_append.mp m with m | m
    · exact free m
    · rw [List.mem_singleton.mp m, List.getLast?_concat] at last
      exact last rfl

/-- The fields of a disk before it reads the file, unless its creator says otherwise. -/
def byDefault : DiskConfig := ⟨0, 0, 0, 0, 0, 0, 0, 0, 0⟩

/-- Positive latencies to six decimals. -/
def rounded (c : DiskConfig) : DiskConfig :=
  { c with
    averageseeklatency := millionths c.averageseeklatency / 10 ^ 6
    trackseeklatency := millionths c.trackseeklatency / 10 ^ 6
    rotationallatency := millionths c.rotationallatency / 10 ^ 6 }

def Reread (buf : Text) (old : DiskConfig) (stem : Text) (c : DiskConfig) : Prop :=
  readConfig buf (writeConfig stem c) old = some (stem, rounded c) ∧
    sanityCheckConfig (rounded c) = .noError

section Latencies

variable {q : ℚ}

theorem printDouble_pos (positive : 0 < q) : printDouble q = fixed 6 (millionths q) := by
  rw [printDouble, if_neg (not_lt.mpr positive.le), List.nil_append]

theorem millionths_eq (positive : 0 < q) : (millionths q : ℤ) = roundEven (q * 10 ^ 6) := by
  refine Int.natAbs_of_nonneg (not_lt.mp fun negative => ?_)
  have below := (roundEven_lt (m := 0) Even.zero).mp negative
  have : 0 < q * 10 ^ 6 := by positivity
  push_cast at below
  linarith

theorem millionths_pos (positive : 0 < q) : 0 < millionths q ↔ 1 / 2 < q * 10 ^ 6 := by
  have above := lt_roundEven (q := q * 10 ^ 6) (m := 0) Even.zero
  rw [← millionths_eq positive, Int.cast_zero, zero_add] at above
  rw [← above]
  exact Int.natCast_pos.symm

/-- The texts that fit the buffer with their newline. -/
theorem short_iff (positive : 0 < q) :
    (fixed 6 (millionths q)).length < 79 ↔ q * 10 ^ 6 < 10 ^ 77 - 1 / 2 := by
  have below := roundEven_lt (q := q * 10 ^ 6) (m := 10 ^ 77) (by decide)
  rw [← millionths_eq positive, Int.cast_pow, Int.cast_ofNat] at below
  have whole := length_whole_le (n := millionths q) (m := 71) (by decide)
  rw [← below, length_fixed]
  constructor
  · intro short
    exact_mod_cast whole.mp (by omega)
  · intro small
    have := whole.mpr (by exact_mod_cast small)
    omega

theorem fits_of_short (short : (fixed 6 k).length < 79) : Fits k := by
  rw [length_fixed] at short
  exact ⟨0, by decide, one_dvd k, lt_trans ((length_whole_le (m := 71) (by decide)).mp (by omega))
    (by norm_num)⟩

end Latencies

variable {c old r : DiskConfig} {stem : Text}

/-- The lines behind the whole numbers. -/
def latencyLines (c : DiskConfig) : List Text :=
  ["# averageseeklatency".toList, fixed 6 (millionths c.averageseeklatency),
    "# trackseeklatency".toList, fixed 6 (millionths c.trackseeklatency),
    "# rotationalatency".toList, fixed 6 (millionths c.rotationallatency)]

/-- What is read from them when the whole numbers are those of `c`. -/
def readLatencies (c old : DiskConfig) (s : Reader) : Option DiskConfig := do
  let (averageseeklatency, s) ← readField scanDouble old.averageseeklatency s
  let (trackseeklatency, s) ← readField scanDouble old.trackseeklatency s
  let (rotationallatency, _) ← readField scanDouble old.rotationallatency s
  return { c with averageseeklatency, trackseeklatency, rotationallatency }

/-- The whole numbers are read as written. -/
theorem readFields_eq
    (positive : 0 < c.averageseeklatency ∧ 0 < c.trackseeklatency ∧ 0 < c.rotationallatency) :
    readFields old (buf, printLines (fieldLines c)) =
      readLatencies c old (printUnsigned c.numtracks ++ ['\n'], printLines (latencyLines c)) := by
  simp (disch := decide) only [readFields, fieldLines, unsigned_field, Option.bind_eq_bind,
    Option.bind_some, printDouble_pos positive.1, printDouble_pos positive.2.1,
    printDouble_pos positive.2.2]
  rfl

/-- The latencies are read as written. -/
theorem readFields_ok
    (positive : 0 < c.averageseeklatency ∧ 0 < c.trackseeklatency ∧ 0 < c.rotationallatency)
    (average : (fixed 6 (millionths c.averageseeklatency)).length < 79)
    (track : (fixed 6 (millionths c.trackseeklatency)).length < 79)
    (shown : 0 < millionths c.rotationallatency) (fits : Fits (millionths c.rotationallatency)) :
    readFields old (buf, printLines (fieldLines c)) = some (rounded c) := by
  have comment : Comment "# rotationalatency".toList := by decide
  obtain ⟨s, last⟩ : ∃ s, readField scanDouble old.rotationallatency
      (fixed 6 (millionths c.trackseeklatency) ++ ['\n'],
        printLines ["# rotationalatency".toList, fixed 6 (millionths c.rotationallatency)]) =
      some ((millionths c.rotationallatency : ℚ) / 10 ^ 6, s) := by
    rcases Nat.lt_or_ge (fixed 6 (millionths c.rotationallatency)).length 79 with short | long
    · exact ⟨_, double_field _ comment short⟩
    · rw [field_long comment (numeric_fixed 6 _) long, (scanDouble_cut shown).mpr fits]
      exact ⟨_, rfl⟩
  rw [readFields_eq positive, readLatencies, latencyLines, double_field _ (by decide) average]
  simp only [Option.bind_eq_bind, Option.bind_some]
  rw [double_field _ (by decide) track, Option.bind_some, last]
  rfl

theorem fits_of_read {n : Nat} (shown : 0 < n)
    (read : (scanDouble ((fixed 6 n).take 79)).getD 0 = (n : ℚ) / 10 ^ 6) : Fits n := by
  have positive : 0 < (n : ℚ) / 10 ^ 6 := by positivity
  cases scan : scanDouble ((fixed 6 n).take 79) with
  | none =>
      rw [scan, Option.getD_none] at read
      exact absurd read.symm positive.ne'
  | some x =>
      rw [scan, Option.getD_some] at read
      rw [read] at scan
      exact (scanDouble_cut shown).mp scan

/-- Behind a line that is too long the next latency comes out as zero. -/
theorem short_of_next {n : Nat} {s s' : Reader} {y : ℚ} (shown : 0 < n) (comment : Comment name)
    (first :
      readField scanDouble 0 (buf, printLines (name :: fixed 6 n :: ls)) = some ((n : ℚ) / 10 ^ 6, s))
    (next : readField scanDouble 0 s = some (y, s')) (positive : 0 < y) : (fixed 6 n).length < 79 := by
  by_contra long
  rw [field_long comment (numeric_fixed 6 n) (not_lt.mp long), Option.some.injEq, Prod.mk.injEq] at first
  obtain ⟨read, rfl⟩ := first
  obtain ⟨s, rest⟩ := field_rest ((fixed 6 n).take 79) (printLines ls) (fits_of_read shown read)
    (not_lt.mp long)
  rw [rest] at next
  cases next
  exact lt_irrefl _ positive

theorem readFields_short
    (positive : 0 < c.averageseeklatency ∧ 0 < c.trackseeklatency ∧ 0 < c.rotationallatency)
    (shown : 0 < millionths c.averageseeklatency ∧ 0 < millionths c.trackseeklatency ∧
      0 < millionths c.rotationallatency)
    (h : readFields byDefault (buf, printLines (fieldLines c)) = some (rounded c)) :
    (fixed 6 (millionths c.averageseeklatency)).length < 79 ∧
      (fixed 6 (millionths c.trackseeklatency)).length < 79 ∧ Fits (millionths c.rotationallatency) := by
  rw [readFields_eq positive, readLatencies, latencyLines] at h
  obtain ⟨⟨a, s1⟩, average, h⟩ := Option.bind_eq_some_iff.mp h
  obtain ⟨⟨t, s2⟩, track, h⟩ := Option.bind_eq_some_iff.mp h
  obtain ⟨⟨ro, s3⟩, rotational, h⟩ := Option.bind_eq_some_iff.mp h
  simp only [Option.pure_def, Option.some.injEq, rounded, DiskConfig.mk.injEq, true_and] at h
  obtain ⟨rfl, rfl, rfl⟩ := h
  have commentT : Comment "# trackseeklatency".toList := by decide
  have commentR : Comment "# rotationalatency".toList := by decide
  have shortA := short_of_next shown.1 (by decide) average track (by have := shown.2.1; positivity)
  rw [double_field _ (by decide) shortA] at average
  cases average
  have shortT := short_of_next shown.2.1 commentT track rotational (by have := shown.2.2; positivity)
  rw [double_field _ commentT shortT] at track
  cases track
  refine ⟨shortA, shortT, ?_⟩
  rcases Nat.lt_or_ge (fixed 6 (millionths c.rotationallatency)).length 79 with short | long
  · exact fits_of_short short
  · rw [field_long commentR (numeric_fixed 6 _) long, Option.some.injEq, Prod.mk.injEq] at rotational
    exact fits_of_read shown.2.2 rotational.1

/-- When the newline of the stem is left for the next line, every number moves on by
one field, and all of them are zero. -/
theorem readFields_shifted (h : readFields byDefault (buf, '\n' :: printLines (fieldLines c)) =
    some (rounded c)) :
    (rounded c).averageseeklatency = 0 := by
  have newline : readField scanUnsigned 0 (buf, '\n' :: printLines (fieldLines c)) =
      some (0, (['\n'], printLines (fieldLines c))) :=
    field_next (l := []) (fun c m => absurd m List.not_mem_nil) (by decide)
  have zero : byDefault.offset = 0 := rfl
  rw [readFields, zero, newline] at h
  simp (disch := decide) only [fieldLines, unsigned_field, Option.bind_eq_bind, Option.bind_some] at h
  rw [field_value (by decide) (numeric_unsigned _) (length_unsigned _), printUnsigned,
    scanDouble_whole (digits_toDigits _) Nat.toDigits_ne_nil (Or.inr rfl), value_toDigits,
    Option.getD_some, Option.bind_some] at h
  obtain ⟨⟨t, s1⟩, -, h⟩ := Option.bind_eq_some_iff.mp h
  obtain ⟨⟨ro, s2⟩, -, h⟩ := Option.bind_eq_some_iff.mp h
  simp only [Option.pure_def, Option.some.injEq, rounded, DiskConfig.mk.injEq] at h
  obtain ⟨offset, numblocks, blocksize, numheads, blockspertrack, numtracks, average, -⟩ := h
  rw [← numtracks, ← blockspertrack, ← numheads, ← blocksize, ← numblocks, ← offset] at average
  exact average.symm

/-- The stems and latencies that come back. -/
structure Rereadable (stem : Text) (c : DiskConfig) : Prop where
  plain : Plain stem
  start : stem.head? ≠ some '#'
  short : stem.length < 79
  average : 1 / 2 < c.averageseeklatency * 10 ^ 6 ∧ c.averageseeklatency * 10 ^ 6 < 10 ^ 77 - 1 / 2
  track : 1 / 2 < c.trackseeklatency * 10 ^ 6 ∧ c.trackseeklatency * 10 ^ 6 < 10 ^ 77 - 1 / 2
  rotational : 1 / 2 < c.rotationallatency * 10 ^ 6 ∧ Fits (millionths c.rotationallatency)

theorem rounded_accepted (accepted : sanityCheckConfig c = .noError) :
    sanityCheckConfig (rounded c) = .noError ↔ 0 < millionths c.averageseeklatency ∧
      0 < millionths c.trackseeklatency ∧ 0 < millionths c.rotationallatency := by
  have scaled : ∀ n : Nat, 0 < (n : ℚ) / 10 ^ 6 ↔ 0 < n := by
    intro n
    rw [div_pos_iff_of_pos_right (by positivity), Nat.cast_pos]
  rw [sanityCheckConfig_ok]
  simp only [rounded, scaled]
  exact and_iff_left (sanityCheckConfig_ok.mp accepted).2

theorem getNextVal_header : getNextVal (buf, writeConfig stem c) =
    getNextVal ("# filestem".toList ++ ['\n'], cString stem ++ '\n' :: printLines (fieldLines c)) := by
  rw [writeConfig, getNextVal_comment (by decide), getNextVal_comment (by decide)]
  rfl

theorem reread_of_rereadable (accepted : sanityCheckConfig c = .noError) (h : Rereadable stem c)
    (buf : Text) (old : DiskConfig) : Reread buf old stem c := by
  have positive := (sanityCheckConfig_ok.mp accepted).1
  have strip : stripNewline (stem ++ ['\n']) = stem := by
    rw [stripNewline, List.getLast?_concat, if_pos rfl, List.dropLast_concat]
  have shown := (millionths_pos positive.2.2).mpr h.rotational.1
  constructor
  · rw [readConfig, getNextVal_header, cString_plain h.plain.2, getNextVal_value h.plain h.start h.short]
    simp only [Option.bind_eq_bind, Option.bind_some, strip]
    rw [readFields_ok positive ((short_iff positive.1).mpr h.average.2)
      ((short_iff positive.2.1).mpr h.track.2) shown h.rotational.2]
    rfl
  · exact (rounded_accepted accepted).mpr ⟨(millionths_pos positive.1).mpr h.average.1,
      (millionths_pos positive.2.1).mpr h.track.1, shown⟩

theorem stripNewline_plain (h : Buffered buf) (start : buf.head? ≠ some '#') :
    Plain (stripNewline buf) ∧ (stripNewline buf).head? ≠ some '#' ∧ (stripNewline buf).length ≤ 79 := by
  have front : stripNewline buf <+: buf := by
    unfold stripNewline
    split_ifs
    · exact List.dropLast_prefix buf
    · exact List.prefix_rfl
  refine ⟨⟨stripNewline_free h.line, fun nul => h.nul (front.subset nul)⟩, fun comment => ?_,
    front.length_le.trans h.short⟩
  obtain ⟨rest, whole⟩ := front
  rw [← whole, List.head?_append, comment] at start
  exact start rfl

theorem rereadable_of_reread (accepted : sanityCheckConfig c = .noError)
    (h : Reread buf byDefault stem c) :
    Rereadable stem c := by
  obtain ⟨ran, again⟩ := h
  have positive := (sanityCheckConfig_ok.mp accepted).1
  have shown := (rounded_accepted accepted).mp again
  obtain ⟨⟨b, file⟩, first, ran⟩ := Option.bind_eq_some_iff.mp ran
  obtain ⟨r, fields, ran⟩ := Option.bind_eq_some_iff.mp ran
  rw [Option.pure_def, Option.some.injEq, Prod.mk.injEq] at ran
  obtain ⟨same, rfl⟩ := ran
  have written : writeConfig stem c ≠ [] := by rw [writeConfig, printLines]; simp
  obtain ⟨buffered, start⟩ := getNextVal_buffered (s := (buf, _)) (Or.inr written) first
  obtain ⟨plain, unmarked, length⟩ := stripNewline_plain buffered start
  rw [same] at plain unmarked length
  rw [getNextVal_header, cString_plain plain.2] at first
  rcases Nat.lt_or_ge stem.length 79 with short | long
  · rw [getNextVal_value plain unmarked short] at first
    cases first
    obtain ⟨average, track, fits⟩ := readFields_short positive shown fields
    exact ⟨plain, unmarked, short, ⟨(millionths_pos positive.1).mp shown.1,
      (short_iff positive.1).mp average⟩,
      ⟨(millionths_pos positive.2.1).mp shown.2.1, (short_iff positive.2.1).mp track⟩,
      (millionths_pos positive.2.2).mp shown.2.2, fits⟩
  · rw [getNextVal_long plain unmarked long, List.drop_eq_nil_of_le length] at first
    cases first
    have zero := readFields_shifted fields
    have nonzero := (sanityCheckConfig_ok.mp again).1.1
    rw [zero] at nonzero
    exact absurd nonzero (lt_irrefl _)

/-- A disk that was accepted can be reopened exactly when its stem and latencies come
back; then the fields before the call do not matter. -/
theorem configFile_iff (stem : Text) (c : DiskConfig) (accepted : sanityCheckConfig c = .noError)
    (buf : Text) : (Reread buf byDefault stem c ↔ Rereadable stem c) ∧
      (Rereadable stem c → ∀ old, Reread buf old stem c) :=
  ⟨⟨rereadable_of_reread accepted, fun h => reread_of_rereadable accepted h buf byDefault⟩,
    fun h old => reread_of_rereadable accepted h buf old⟩

open DiskSystem (smallConfig smallConfig_accepted)

theorem configFile_iff_small : Reread [] byDefault "disk".toList smallConfig := by
  have positive := (sanityCheckConfig_ok.mp smallConfig_accepted).1
  refine (configFile_iff _ _ smallConfig_accepted []).1.mpr
    ⟨by decide, by decide, by decide, ?_, ?_, ?_, fits_of_short ((short_iff positive.2.2).mpr ?_)⟩
  all_goals norm_num [smallConfig]

/-- A stem that looks like a comment is skipped; a latency that six decimals show as
zero is not accepted again. -/
theorem created_disks_not_reread : ¬ Reread [] byDefault "#disk".toList smallConfig ∧
    sanityCheckConfig { smallConfig with rotationallatency := 1 / 10 ^ 7 } = .noError ∧
    ¬ Reread [] byDefault "disk".toList { smallConfig with rotationallatency := 1 / 10 ^ 7 } := by
  have fast : sanityCheckConfig { smallConfig with rotationallatency := 1 / 10 ^ 7 } = .noError := by
    norm_num [sanityCheckConfig, smallConfig]
  refine ⟨fun h => ?_, fast, fun h => ?_⟩
  · exact (rereadable_of_reread smallConfig_accepted h).start (by decide)
  · have shown := (rereadable_of_reread fast h).rotational.1
    norm_num at shown

end ConfigFile
end BTreeLab
