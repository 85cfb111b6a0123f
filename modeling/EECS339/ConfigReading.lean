import EECS339.ConfigFile

/-!
# Where reading the configuration never ends

`ReadConfig` with single calls of `fgets`. At the end of the file `fgets` leaves the
buffer alone, and `GETNEXTVAL` looks at nothing but the buffer.
-/
namespace BTreeLab
namespace ConfigFile

def fgets : Reader → Reader
  | (buf, []) => (buf, [])
  | (_, c :: file) => (cString (takeLine 79 (c :: file)).1, (takeLine 79 (c :: file)).2)

/-- `GETNEXTVAL` with at most `calls` calls of `fgets`. -/
def getNextValWithin : Nat → Reader → Option Reader
  | 0, _ => none
  | calls + 1, s =>
      let s := fgets s
      if s.1.head? = some '#' then getNextValWithin calls s else some s

def readFieldBy {α : Type} (next : Reader → Option Reader) (scan : Text → Option α) (x : α)
    (s : Reader) : Option (α × Reader) := do
  let s ← next s
  return ((scan s.1).getD x, s)

/-- `readFields` where `next` stands for `GETNEXTVAL`. -/
def readFieldsBy (next : Reader → Option Reader) (old : DiskConfig) (s : Reader) : Option DiskConfig := do
  let (offset, s) ← readFieldBy next scanUnsigned old.offset s
  let (numblocks, s) ← readFieldBy next scanUnsigned old.numblocks s
  let (blocksize, s) ← readFieldBy next scanUnsigned old.blocksize s
  let (numheads, s) ← readFieldBy next scanUnsigned old.numheads s
  let (blockspertrack, s) ← readFieldBy next scanUnsigned old.blockspertrack s
  let (numtracks, s) ← readFieldBy next scanUnsigned old.numtracks s
  let (averageseeklatency, s) ← readFieldBy next scanDouble old.averageseeklatency s
  let (trackseeklatency, s) ← readFieldBy next scanDouble old.trackseeklatency s
  let (rotationallatency, _) ← readFieldBy next scanDouble old.rotationallatency s
  return ⟨offset, numblocks, blocksize, numheads, blockspertrack, numtracks, averageseeklatency,
    trackseeklatency, rotationallatency⟩

def readConfigBy (next : Reader → Option Reader) (buf file : Text) (old : DiskConfig) :
    Option (Text × DiskConfig) := do
  let (buf, file) ← next (buf, file)
  let diskfilestem := stripNewline buf
  let c ← readFieldsBy next old (diskfilestem, file)
  return (diskfilestem, c)

theorem readConfigBy_getNextVal (buf file : Text) (old : DiskConfig) :
    readConfigBy getNextVal buf file old = readConfig buf file old := rfl

/-- The call returns, with a bounded number of `fgets` in each loop. -/
def Returns (buf file : Text) (old : DiskConfig) : Prop :=
  ∃ calls r, readConfigBy (getNextValWithin calls) buf file old = some r

/-- What `fgets` puts into the buffer, call by call, until the end of the file. -/
def chunks : Text → List Text
  | [] => []
  | c :: file => cString (takeLine 79 (c :: file)).1 :: chunks (takeLine 79 (c :: file)).2
termination_by file => file.length
decreasing_by exact takeLine_shrinks 78 c file

/-- Not a comment. -/
def IsValue (buf : Text) : Prop := buf.head? ≠ some '#'

instance : DecidablePred IsValue := fun _ => inferInstanceAs (Decidable (¬ _))

/-- What the buffer holds behind the last line. -/
def lastChunk (s : Reader) : Text := (chunks s.2).getLast?.getD s.1

def valuesLeft (s : Reader) : Nat := (chunks s.2).countP IsValue

/-! ## The loop -/

variable {buf file : Text} {s r : Reader} {calls n : Nat} {old : DiskConfig}
  {next next' : Reader → Option Reader}

theorem getNextVal_fgets (s : Reader) : getNextVal s =
    if (fgets s).1.head? = some '#' then (if s.2 = [] then none else getNextVal (fgets s))
    else some (fgets s) := by
  obtain ⟨buf, file⟩ := s
  cases file with
  | nil => simp only [getNextVal, fgets, if_pos]
  | cons c file => simp only [getNextVal, fgets, reduceCtorEq, if_false]

theorem fgets_shrinks (more : s.2 ≠ []) : (fgets s).2.length < s.2.length := by
  obtain ⟨buf, file⟩ := s
  cases file with
  | nil => exact absurd rfl more
  | cons c file => exact takeLine_shrinks 78 c file

theorem fgets_length (s : Reader) : (fgets s).2.length ≤ s.2.length := by
  by_cases more : s.2 = []
  · obtain ⟨buf, file⟩ := s
    cases more
    exact le_rfl
  · exact (fgets_shrinks more).le

theorem getNextVal_of_within (ended : getNextValWithin calls s = some r) : getNextVal s = some r := by
  induction calls generalizing s with
  | zero => cases ended
  | succ calls ih =>
      rw [getNextValWithin] at ended
      rw [getNextVal_fgets]
      by_cases comment : (fgets s).1.head? = some '#'
      · rw [if_pos comment] at ended ⊢
        have rest := ih ended
        by_cases last : s.2 = []
        · obtain ⟨buf, file⟩ := s
          cases last
          have comment : buf.head? = some '#' := comment
          rw [fgets, getNextVal, if_pos comment] at rest
          cases rest
        · rw [if_neg last]
          exact rest
      · rw [if_neg comment] at ended ⊢
        exact ended

/-- One call for each byte and one more are enough if the loop ends at all. -/
theorem getNextValWithin_enough (enough : s.2.length < calls) (ended : getNextVal s = some r) :
    getNextValWithin calls s = some r ∧ r.2.length < calls := by
  induction calls generalizing s with
  | zero => exact absurd enough (Nat.not_lt_zero _)
  | succ calls ih =>
      rw [getNextVal_fgets] at ended
      rw [getNextValWithin]
      by_cases comment : (fgets s).1.head? = some '#'
      · rw [if_pos comment] at ended ⊢
        split_ifs at ended with last
        have fewer := fgets_shrinks last
        obtain ⟨same, less⟩ := ih (by omega) ended
        exact ⟨same, less.trans (Nat.lt_succ_self _)⟩
      · rw [if_neg comment] at ended ⊢
        cases ended
        exact ⟨rfl, (fgets_length s).trans_lt enough⟩

/-! ## Ten loops in a row -/

/-- `n` more calls of `next` return. -/
def Calls (next : Reader → Option Reader) : Nat → Reader → Prop
  | 0, _ => True
  | n + 1, s => ∃ r, next s = some r ∧ Calls next n r

theorem readFieldBy_bind {α β : Type} {scan : Text → Option α} {x : α}
    {f : α × Reader → Option β} : (∃ y, (readFieldBy next scan x s >>= f) = some y) ↔
      ∃ r, next s = some r ∧ ∃ y, f ((scan r.1).getD x, r) = some y := by
  cases h : next s with
  | none => simp [readFieldBy, h]
  | some r => simp [readFieldBy, h]

theorem readFieldsBy_iff : (∃ c, readFieldsBy next old s = some c) ↔ Calls next 9 s := by
  unfold readFieldsBy
  simp only [readFieldBy_bind]
  simp [Calls]

theorem readConfigBy_iff : (∃ y, readConfigBy next buf file old = some y) ↔
    ∃ r, next (buf, file) = some r ∧ Calls next 9 (stripNewline r.1, r.2) := by
  cases first : next (buf, file) with
  | none => simp [readConfigBy, first]
  | some r =>
      have fields : (∃ c, readFieldsBy next old (stripNewline r.1, r.2) = some c) ↔
          Calls next 9 (stripNewline r.1, r.2) := readFieldsBy_iff
      simp only [Option.some.injEq, exists_eq_left']
      rw [← fields]
      cases ran : readFieldsBy next old (stripNewline r.1, r.2) with
      | none => simp [readConfigBy, first, ran]
      | some c => simp [readConfigBy, first, ran]

theorem Calls.mono (I : Reader → Prop) (step : ∀ s r, I s → next s = some r → next' s = some r ∧ I r)
    (inside : I s) (calls : Calls next n s) : Calls next' n s := by
  induction n generalizing s with
  | zero => trivial
  | succ n ih =>
      obtain ⟨r, ran, rest⟩ := calls
      obtain ⟨same, inside⟩ := step s r inside ran
      exact ⟨r, same, ih inside rest⟩

/-- Where the loops end is what the buffer decides, not the number of calls. -/
theorem returns_iff : Returns buf file old ↔ ∃ r, readConfig buf file old = some r := by
  constructor
  · rintro ⟨calls, ran⟩
    obtain ⟨r, first, rest⟩ := readConfigBy_iff.mp ran
    rw [← readConfigBy_getNextVal]
    exact readConfigBy_iff.mpr ⟨r, getNextVal_of_within first,
      rest.mono (fun _ => True) (fun s r _ ran => ⟨getNextVal_of_within ran, trivial⟩) trivial⟩
  · intro ran
    rw [← readConfigBy_getNextVal] at ran
    obtain ⟨r, first, rest⟩ := readConfigBy_iff.mp ran
    obtain ⟨same, fewer⟩ := getNextValWithin_enough (Nat.lt_succ_self file.length) first
    exact ⟨file.length + 1, readConfigBy_iff.mpr ⟨r, same,
      rest.mono (fun s => s.2.length < file.length + 1) (fun s r enough => getNextValWithin_enough enough)
        fewer⟩⟩

/-! ## Values and comments -/

theorem chunks_nil : chunks [] = [] := by rw [chunks]

theorem chunks_fgets (more : s.2 ≠ []) : chunks s.2 = (fgets s).1 :: chunks (fgets s).2 := by
  obtain ⟨buf, file⟩ := s
  cases file with
  | nil => exact absurd rfl more
  | cons c file => rw [chunks, fgets]

theorem lastChunk_fgets (more : s.2 ≠ []) : lastChunk s = lastChunk (fgets s) := by
  rw [lastChunk, chunks_fgets more, List.getLast?_cons, Option.getD_some, lastChunk]

/-- At the end of the file a call changes nothing. -/
theorem calls_end : Calls getNextVal (n + 1) (buf, []) ↔ IsValue buf := by
  induction n with
  | zero => simp [Calls, getNextVal, IsValue]
  | succ n ih =>
      rw [Calls]
      by_cases comment : buf.head? = some '#'
      · simp [getNextVal, comment, IsValue]
      · rw [getNextVal, if_neg comment]
        simp [ih]

theorem valuesLeft_fgets (more : s.2 ≠ []) :
    valuesLeft s = valuesLeft (fgets s) + if IsValue (fgets s).1 then 1 else 0 := by
  rw [valuesLeft, chunks_fgets more, List.countP_cons, valuesLeft]
  simp only [decide_eq_true_eq]

/-- A comment is passed over, a value ends one of the calls. -/
theorem calls_fgets (more : s.2 ≠ []) : Calls getNextVal (n + 1) s ↔
    if IsValue (fgets s).1 then Calls getNextVal n (fgets s) else Calls getNextVal (n + 1) (fgets s) := by
  by_cases comment : (fgets s).1.head? = some '#'
  · have passed : ¬ IsValue (fgets s).1 := not_not_intro comment
    rw [if_neg passed, Calls, getNextVal_fgets, if_pos comment, if_neg more, Calls]
  · have value : IsValue (fgets s).1 := comment
    rw [if_pos value, Calls, getNextVal_fgets, if_neg comment]
    simp only [Option.some.injEq, exists_eq_left']

theorem calls_iff : Calls getNextVal n s ↔ n ≤ valuesLeft s ∨ IsValue (lastChunk s) := by
  induction hlen : s.2.length using Nat.strong_induction_on generalizing n s with
  | _ len ih =>
      cases n with
      | zero => exact iff_of_true trivial (Or.inl (Nat.zero_le _))
      | succ n =>
          by_cases more : s.2 = []
          · obtain ⟨buf, file⟩ := s
            cases more
            have none_left : valuesLeft (buf, []) = 0 := by rw [valuesLeft, chunks_nil, List.countP_nil]
            have last : lastChunk (buf, []) = buf := by rw [lastChunk, chunks_nil]; rfl
            rw [calls_end, none_left, last]
            exact (or_iff_right (Nat.not_succ_le_zero n)).symm
          · have shorter : (fgets s).2.length < len := hlen ▸ fgets_shrinks more
            rw [calls_fgets more, valuesLeft_fgets more, lastChunk_fgets more]
            split_ifs with value
            · rw [ih _ shorter rfl, Nat.succ_le_succ_iff]
            · exact ih _ shorter rfl

/-- Only whether the buffer holds a comment is of interest. -/
theorem calls_buffer {buf' : Text} (value : IsValue buf) (value' : IsValue buf') :
    Calls getNextVal n (buf, file) ↔ Calls getNextVal n (buf', file) := by
  rw [calls_iff, calls_iff]
  refine or_congr Iff.rfl ?_
  unfold lastChunk
  cases (chunks file).getLast? with
  | none => exact iff_of_true value value'
  | some l => rfl

theorem getNextVal_isValue (ran : getNextVal s = some r) : IsValue r.1 := by
  induction s using getNextVal.induct with
  | case1 buf start => simp [getNextVal, start] at ran
  | case2 buf start =>
      rw [getNextVal, if_neg start] at ran
      cases ran
      exact start
  | case3 buf c file line start ih =>
      rw [getNextVal, if_pos start] at ran
      exact ih ran
  | case4 buf c file line start =>
      rw [getNextVal, if_neg start] at ran
      cases ran
      exact start

theorem stripNewline_isValue (value : IsValue buf) : IsValue (stripNewline buf) := by
  unfold stripNewline
  split_ifs
  · cases buf with
    | nil => exact value
    | cons c l =>
        cases l with
        | nil => simp [IsValue]
        | cons d l => exact value
  · exact value

theorem readConfig_iff : (∃ y, readConfig buf file old = some y) ↔ Calls getNextVal 10 (buf, file) := by
  rw [← readConfigBy_getNextVal, readConfigBy_iff, Calls]
  refine exists_congr fun r => and_congr_right fun first => ?_
  have value := getNextVal_isValue first
  exact calls_buffer (stripNewline_isValue value) value

/-! ## The whole file -/

/-- `ReadConfig` returns exactly if ten of the parts that `fgets` sees are no comments, or
the last one is none; of an empty file the uninitialized buffer is all there is. -/
theorem configReading_iff (buf file : Text) (old : DiskConfig) :
    Returns buf file old ↔
      10 ≤ (chunks file).countP IsValue ∨ IsValue ((chunks file).getLast?.getD buf) := by
  rw [returns_iff, readConfig_iff]
  exact calls_iff

/-- A file with nothing but a comment. -/
theorem comment_never_returns : ¬ Returns [] "# offset\n".toList byDefault := by
  rw [returns_iff, readConfig_iff]
  rintro ⟨r, first, -⟩
  have unending : getNextVal ([], "# offset\n".toList) = none := by
    have line : "# offset\n".toList = printLines ["# offset".toList] := by decide
    rw [line, getNextVal_comment (by decide), printLines, getNextVal, if_pos (by decide)]
  rw [unending] at first
  cases first

end ConfigFile
end BTreeLab
