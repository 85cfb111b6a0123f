import EECS339.Lib.Draws
import EECS339.CompareCounts

/-!
# The generator of request sequences

`gen_test_sequence.pl` keeps a map of its own and notes behind each request what the
reference has to answer. The order in which `keys` lists a hash is that of the model, as
every choice from it is drawn at random.
-/
namespace BTreeLab
namespace Generator
open Draws Tokens
open RefImpl (get put refLine)

def keybytes : Line := text "abcdefghijklmnopqrstuvwxyz0123456789"

def valuebytes : Line := text "abcdefghijklmnopqrstuvwxyz0123456789"

inductive Note where
  | succeed
  | fail
  | succeedAndReturn (value : Line)
  | alwaysSucceed

def Note.text : Note → Line
  | .succeed => BTreeLab.text "should succeed"
  | .fail => BTreeLab.text "should fail"
  | .succeedAndReturn value => BTreeLab.text "should succeed and return " ++ value
  | .alwaysSucceed => BTreeLab.text "should always succeed"

/-- What a `gen_` function returns: a request and the comment behind it. -/
structure Noted where
  request : Line
  note : Note

def Noted.line (r : Noted) : Line := r.request ++ (text "  # " ++ r.note.text)

/-! ## Keys and values -/

def makeKey (keysize : Nat) : Draw Line := times keysize (pick keybytes)

def makeNonExistentKey (tries keysize : Nat) (content : Content) : Draw Line :=
  doWhile tries (makeKey keysize) fun key => (get content key).isSome

def makeExistentKey (content : Content) : Draw Line := pick (content.map Prod.fst)

def makeValue (valuesize : Nat) : Draw Line := times valuesize (pick valuebytes)

/-! ## Requests -/

/-- The arguments of the tool, and a bound on the turns of each loop that draws again. -/
structure Sizes where
  keysize : Nat
  valuesize : Nat
  tries : Nat

/-- A request with a key and a new value, which is stored if the request should succeed. -/
def genStore (op : String) (makeKey : Draw Line) (succeeds : Bool) (z : Sizes) (content : Content) :
    Draw (Noted × Content) := do
  let key ← makeKey
  let value ← makeValue z.valuesize
  let request := text op ++ (key ++ (text " " ++ value))
  return if succeeds then (⟨request, .succeed⟩, put content key (some value))
    else (⟨request, .fail⟩, content)

def genInsertNew (z : Sizes) (content : Content) : Draw (Noted × Content) :=
  genStore "INSERT " (makeNonExistentKey z.tries z.keysize content) true z content

def genInsertExists (z : Sizes) (content : Content) : Draw (Noted × Content) :=
  genStore "INSERT " (makeExistentKey content) false z content

def genUpdateNew (z : Sizes) (content : Content) : Draw (Noted × Content) :=
  genStore "UPDATE " (makeNonExistentKey z.tries z.keysize content) false z content

def genUpdateExists (z : Sizes) (content : Content) : Draw (Noted × Content) :=
  genStore "UPDATE " (makeExistentKey content) true z content

def genLookupNew (z : Sizes) (content : Content) : Draw (Noted × Content) := do
  let key ← makeNonExistentKey z.tries z.keysize content
  return (⟨text "LOOKUP " ++ key, .fail⟩, content)

def genLookupExists (content : Content) : Draw (Noted × Content) := do
  let key ← makeExistentKey content
  return (⟨text "LOOKUP " ++ key, .succeedAndReturn ((get content key).getD [])⟩, content)

def genDisplay (content : Content) : Draw (Noted × Content) :=
  return (⟨text "DISPLAY", .alwaysSucceed⟩, content)

/-- The keys of `%ops`. -/
inductive OpName where
  | insertNew
  | insertExists
  | updateNew
  | updateExists
  | lookupNew
  | lookupExists
  | display
  deriving DecidableEq, Inhabited

def opnames : List OpName :=
  [.insertNew, .insertExists, .updateNew, .updateExists, .lookupNew, .lookupExists, .display]

/-- `/EXISTS/`. -/
def OpName.namesExisting : OpName → Bool
  | .insertExists | .updateExists | .lookupExists => true
  | _ => false

def OpName.gen (z : Sizes) (content : Content) : OpName → Draw (Noted × Content)
  | .insertNew => genInsertNew z content
  | .insertExists => genInsertExists z content
  | .updateNew => genUpdateNew z content
  | .updateExists => genUpdateExists z content
  | .lookupNew => genLookupNew z content
  | .lookupExists => genLookupExists content
  | .display => genDisplay content

def chooseOp (z : Sizes) (content : Content) : Draw OpName :=
  doWhile z.tries (pick opnames) fun op => op.namesExisting && decide (content.length < 1)

/-- The requests with the content behind each of them. -/
def genLoop (z : Sizes) : Nat → Content → Draw (List (Noted × Content))
  | 0, _ => return []
  | n + 1, content => do
      let op ← chooseOp z content
      let (r, content) ← op.gen z content
      let rest ← genLoop z n content
      return (r, content) :: rest

/-- The main loop starts at 1. -/
def generate (z : Sizes) (num : Nat) : Draw (List (Noted × Content)) := genLoop z (num - 1) []

def decimal (n : Nat) : Line := (Nat.toDigits 10 n).map fun c => BitVec.ofNat 8 c.toNat

def printed (z : Sizes) (steps : List (Noted × Content)) : List ByteT :=
  text "INIT " ++ decimal z.keysize ++ text " " ++ decimal z.valuesize ++ text "\n" ++
    (steps.flatMap fun s => s.1.line ++ text "\n") ++ text "DEINIT\n"

/-! ## What the reference has to answer -/

/-- What the reference prints for each line, with bug probability 0. -/
def answers (s : RefImpl) : List Line → List (List ByteT)
  | [] => []
  | line :: lines => (refLine s line).1 :: answers (refLine s line).2 lines

theorem refLineBug_false (s : RefImpl) (line : Line) :
    RefImpl.refLineBug false s line = refLine s line := by
  cases s with
  | running content groups => rw [RefImpl.refLineBug, if_neg fun bug => Bool.false_ne_true bug.1]
  | start => rfl
  | stopped => rfl

theorem answers_flatten (s : RefImpl) (lines : List Line) :
    RefImpl.refOut (fun _ => false) s lines = (answers s lines).flatten := by
  induction lines generalizing s with
  | nil => rfl
  | cons line lines ih =>
      rw [RefImpl.refOut, refLineBug_false, answers, List.flatten_cons]
      exact congrArg ((refLine s line).1 ++ ·) (ih _)

/-- The answer is the noted one; a display shows the content of the generator by
increasing keys. -/
def Answered (s : Noted × Content) (answer : List ByteT) : Prop :=
  match s.1.note with
  | .succeed => answer = text "OK\n"
  | .fail => answer = text "FAIL\n"
  | .succeedAndReturn value => answer = text "OK " ++ value ++ text "\n"
  | .alwaysSucceed => ∃ shown : List (Line × Line),
      answer = text "OK BEGIN DISPLAY\n" ++ (shown.flatMap fun p => Compare.pairLine p ++ text "\n") ++
        text "OK END DISPLAY\n" ∧
      (shown.map fun p => (p.1, some p.2)).Perm s.2 ∧ Compare.Increasing shown

/-! ## How the reference reads a request -/

variable {op key value tail : Line} {groups : Line × Line} {content : Content}

theorem matchLine_request (word : IsToken isSpace op) (first : IsToken isSpace key) (line : 10 ∉ tail) :
    RefImpl.matchLine groups (op ++ 32 :: (key ++ 32 :: tail) ++ [10]) = (op, key ++ 32 :: tail) := by
  obtain ⟨taken, dropped⟩ := takeWhile_append_stop (key ++ 32 :: tail ++ [10]) (p := fun b => !isSpace b)
    (w := op) (s := 32) (fun b m => by simp [word.2 b m]) (by decide)
  obtain ⟨b, w, rfl, start⟩ := Compare.token_cons first
  have skip : (32 :: (b :: w ++ 32 :: tail ++ [10])).dropWhile isSpace = (b :: w ++ 32 :: tail) ++
    10 :: [] := by
    rw [List.dropWhile_cons_of_pos (by decide), List.cons_append, List.cons_append,
      List.dropWhile_cons_of_neg (by simp [start])]
  have stop := takeWhile_append_stop [] (p := fun b => decide (b ≠ 10)) (w := b :: w ++ 32 :: tail) (s := 10)
    (fun c m => decide_eq_true ?_) (by decide)
  · rw [RefImpl.matchLine, List.append_assoc, List.cons_append]
    simp only [taken, dropped, word.1, false_or, reduceCtorEq, if_false, skip, stop.1]
  · rcases List.mem_append.mp m with m | m
    · exact fun same => Compare.not_newline first (same ▸ m)
    · rcases List.mem_cons.mp m with rfl | m
      · decide
      · exact fun same => line (same ▸ m)

theorem token_skip (l : Line) : token isSpace (32 :: l) = token isSpace l := by
  rw [token, token, List.dropWhile_cons_of_pos (by decide)]

theorem splitRest_key (first : IsToken isSpace key) : (RefImpl.splitRest (key ++ 32 :: tail)).1 = key := by
  rw [RefImpl.splitRest, token_append first (by decide)]

theorem splitRest_both (first : IsToken isSpace key) (second : IsToken isSpace value) :
    RefImpl.splitRest (key ++ 32 :: (value ++ 32 :: tail)) = (key, some value) := by
  rw [RefImpl.splitRest, token_append first (by decide)]
  dsimp only
  rw [if_neg (List.cons_ne_nil _ _), token_skip, token_append second (by decide)]

/-! ## One request -/

variable {note : Note}

/-- What stands behind the arguments. -/
def comment (note : Note) : Line := 32 :: 35 :: 32 :: note.text

theorem line_comment (request : Line) (note : Note) :
    (⟨request, note⟩ : Noted).line = request ++ 32 :: comment note := rfl

theorem comment_line (line : 10 ∉ note.text) : 10 ∉ comment note := by
  simp only [comment, List.mem_cons, not_or]
  exact ⟨by decide, by decide, by decide, line⟩

theorem matchLine_two (word : IsToken isSpace op) (first : IsToken isSpace key)
    (second : IsToken isSpace value) (line : 10 ∉ note.text) :
    RefImpl.matchLine groups
        ((⟨op ++ [32] ++ (key ++ (text " " ++ value)), note⟩ : Noted).line ++ [10]) =
      (op, key ++ 32 :: (value ++ 32 :: comment note)) := by
  have space : text " " = [32] := by decide
  have free : 10 ∉ value ++ 32 :: comment note := by
    rw [List.mem_append, List.mem_cons, not_or, not_or]
    exact ⟨Compare.not_newline second, by decide, comment_line line⟩
  have parts : (⟨op ++ [32] ++ (key ++ (text " " ++ value)), note⟩ : Noted).line ++ [10] =
      op ++ 32 :: (key ++ 32 :: (value ++ 32 :: comment note)) ++ [10] := by
    rw [line_comment, space]
    simp only [List.append_assoc, List.cons_append, List.nil_append]
  rw [parts, matchLine_request word first free]

theorem matchLine_one (word : IsToken isSpace op) (first : IsToken isSpace key) (line : 10 ∉ note.text) :
    RefImpl.matchLine groups ((⟨op ++ [32] ++ key, note⟩ : Noted).line ++ [10]) =
      (op, key ++ 32 :: comment note) := by
  have parts : (⟨op ++ [32] ++ key, note⟩ : Noted).line ++ [10] =
      op ++ 32 :: (key ++ 32 :: comment note) ++ [10] := by
    rw [line_comment]
    simp only [List.append_assoc, List.cons_append, List.nil_append]
  rw [parts, matchLine_request word first (comment_line line)]

/-- An insertion succeeds for a key that is not there, an update for one that is. -/
theorem refLine_insert (succeeds : Bool) (note : Note) (groups : Line × Line)
    (first : IsToken isSpace key) (second : IsToken isSpace value) (line : 10 ∉ note.text)
    (there : (get content key).isSome = !succeeds) : ∃ groups', refLine (.running content groups)
        ((⟨text "INSERT " ++ (key ++ (text " " ++ value)), note⟩ : Noted).line ++ [10]) =
      if succeeds then (text "OK\n", .running (put content key (some value)) groups')
      else (text "FAIL\n", .running content groups') := by
  have word : IsToken isSpace (text "INSERT") := .of_all (by decide) rfl
  have op : text "INSERT " = text "INSERT" ++ [32] := by decide
  have action : Action.ofWord (text "INSERT") = .insert := by decide
  rw [op, refLine]
  simp only [matchLine_two word first second line, splitRest_both first second, action, there]
  cases succeeds <;> exact ⟨_, rfl⟩

theorem refLine_update (succeeds : Bool) (note : Note) (groups : Line × Line)
    (first : IsToken isSpace key) (second : IsToken isSpace value) (line : 10 ∉ note.text)
    (there : (get content key).isSome = succeeds) : ∃ groups', refLine (.running content groups)
        ((⟨text "UPDATE " ++ (key ++ (text " " ++ value)), note⟩ : Noted).line ++ [10]) =
      if succeeds then (text "OK\n", .running (put content key (some value)) groups')
      else (text "FAIL\n", .running content groups') := by
  have word : IsToken isSpace (text "UPDATE") := .of_all (by decide) rfl
  have op : text "UPDATE " = text "UPDATE" ++ [32] := by decide
  have action : Action.ofWord (text "UPDATE") = .update := by decide
  have absent : (get content key).isNone = !succeeds := by rw [← Option.not_isSome, there]
  rw [op, refLine]
  simp only [matchLine_two word first second line, splitRest_both first second, action, absent]
  cases succeeds <;> exact ⟨_, rfl⟩

theorem refLine_lookup (content : Content) (groups : Line × Line) (note : Note)
    (first : IsToken isSpace key) (line : 10 ∉ note.text) :
    ∃ groups', refLine (.running content groups)
        ((⟨text "LOOKUP " ++ key, note⟩ : Noted).line ++ [10]) =
      (match get content key with
        | none => text "FAIL\n"
        | some value => text "OK " ++ value ++ text "\n", .running content groups') := by
  have word : IsToken isSpace (text "LOOKUP") := .of_all (by decide) rfl
  have op : text "LOOKUP " = text "LOOKUP" ++ [32] := by decide
  have action : Action.ofWord (text "LOOKUP") = .lookup := by decide
  have same : (RefImpl.splitRest (key ++ 32 :: comment note)).1 = key := splitRest_key first
  rw [op, refLine]
  simp only [matchLine_one word first line, action, same]
  cases RefImpl.get content key <;> exact ⟨_, rfl⟩

theorem refLine_display (content : Content) (groups : Line × Line) :
    ∃ groups', refLine (.running content groups)
      ((⟨text "DISPLAY", .alwaysSucceed⟩ : Noted).line ++ [10]) =
    (text "OK BEGIN DISPLAY\n" ++ RefImpl.displayLines content ++ text "OK END DISPLAY\n",
      .running content groups') := by
  have read : RefImpl.matchLine groups ((⟨text "DISPLAY", .alwaysSucceed⟩ : Noted).line ++ [10]) =
      (text "DISPLAY", text "# should always succeed") := rfl
  have action : Action.ofWord (text "DISPLAY") = .display := by decide
  rw [refLine]
  simp only [read, action]
  exact ⟨_, rfl⟩

/-! ## One turn of the generator -/

/-- A word of the letters that keys and values are made of. -/
structure IsWord (w : Line) : Prop where
  nonempty : w ≠ []
  letters : ∀ b ∈ w, b ∈ keybytes

theorem IsWord.token (h : IsWord key) : IsToken isSpace key := by
  have letters : IsToken isSpace keybytes := .of_all (by decide) rfl
  exact ⟨h.nonempty, fun b m => letters.2 b (h.letters b m)⟩

theorem IsWord.not_commaLed (h : IsWord value) : ¬ Compare.CommaLed value := by
  rintro ⟨b, rest, rfl⟩
  have comma : (44 : ByteT) ∉ keybytes := by decide
  exact comma (h.letters 44 List.mem_cons_self)

theorem gives_word {n : Nat} (pos : 1 ≤ n) : Gives (times n (pick keybytes)) IsWord := by
  refine (gives_times (gives_pick (by decide)) n).mono fun w h => ⟨?_, h.2⟩
  rw [← List.length_pos_iff, h.1]
  exact pos

theorem gives_nonExistent {n : Nat} (pos : 1 ≤ n) (tries : Nat) (content : Content) :
    Gives (makeNonExistentKey tries n content) fun key =>
      IsToken isSpace key ∧ (get content key).isSome = false :=
  (gives_doWhile (gives_word pos) tries _).mono fun _ h => ⟨h.1.token, h.2⟩

theorem gives_value {n : Nat} (pos : 1 ≤ n) : Gives (makeValue n) IsWord := gives_word pos

/-- The values of the keys are defined, and can be printed. -/
theorem clean_get (h : Compare.Clean content) (m : key ∈ content.map Prod.fst) :
    ∃ value, get content key = some value ∧ Compare.PlainPair (key, value) := by
  obtain ⟨e, he, rfl⟩ := List.mem_map.mp m
  cases found : content.lookup e.1 with
  | none => exact absurd (List.lookup_eq_none_iff.mp found e he) (by simp)
  | some x =>
      obtain ⟨before, behind, split, -⟩ := List.lookup_eq_some_iff.mp found
      have mem : (e.1, x) ∈ content := split ▸ List.mem_append_right before List.mem_cons_self
      obtain ⟨v, rfl, plain⟩ := h.plain (e.1, x) mem
      exact ⟨v, by rw [RefImpl.get, found, Option.join_some], plain⟩

theorem gives_existent (h : Compare.Clean content) (nonempty : content ≠ []) :
    Gives (makeExistentKey content) fun key =>
      ∃ value, get content key = some value ∧ Compare.PlainPair (key, value) :=
  (gives_pick (by simpa using nonempty)).mono fun _ m => clean_get h m

theorem gives_there (h : Compare.Clean content) (nonempty : content ≠ []) :
    Gives (makeExistentKey content) fun key => IsToken isSpace key ∧ (get content key).isSome = true :=
  (gives_existent h nonempty).mono fun _ ⟨_, found, plain⟩ =>
    ⟨plain.1, Option.isSome_of_eq_some found⟩

/-- The reference answers the request as noted, and has the same content then. -/
structure Agrees (content : Content) (s : Noted × Content) : Prop where
  clean : Compare.Clean s.2
  line : 10 ∉ s.1.line
  answered : ∀ groups, ∃ answer groups', refLine (.running content groups) (s.1.line ++ [10]) =
    (answer, .running s.2 groups') ∧ Answered s answer

theorem line_free {request : Line} (free : 10 ∉ request) (line : 10 ∉ note.text) :
    10 ∉ (⟨request, note⟩ : Noted).line := by
  rw [line_comment, List.mem_append, List.mem_cons, not_or, not_or]
  exact ⟨free, by decide, comment_line line⟩

theorem two_free (free : 10 ∉ op) (first : IsToken isSpace key) (second : IsToken isSpace value) :
    10 ∉ op ++ (key ++ (text " " ++ value)) := by
  simp only [List.mem_append, not_or]
  exact ⟨free, Compare.not_newline first, by decide, Compare.not_newline second⟩

theorem gives_display (clean : Compare.Clean content) : Gives (genDisplay content) (Agrees content) := by
  have line : 10 ∉ (⟨text "DISPLAY", .alwaysSucceed⟩ : Noted).line := by decide
  refine gives_return ⟨clean, line, fun groups => ?_⟩
  obtain ⟨groups', answer⟩ := refLine_display content groups
  refine ⟨_, groups', answer, ?_⟩
  obtain ⟨shown, sorted, increasing, -⟩ := Compare.clean_sorted clean
  refine ⟨shown, ?_, ?_, increasing⟩
  · rw [Compare.displayLines_sorted sorted, text_newline]
  · rw [← sorted]
    exact List.mergeSort_perm _ _

section Requests

variable {z : Sizes} (hkey : 1 ≤ z.keysize) (hvalue : 1 ≤ z.valuesize) (clean : Compare.Clean content)
include clean

include hkey in
theorem gives_lookupNew : Gives (genLookupNew z content) (Agrees content) := by
  refine (gives_nonExistent hkey z.tries content).bind fun key ⟨word, absent⟩ => gives_return ?_
  have free : 10 ∉ text "LOOKUP " ++ key := by
    rw [List.mem_append, not_or]
    exact ⟨by decide, Compare.not_newline word⟩
  refine ⟨clean, line_free free (by decide), fun groups => ?_⟩
  obtain ⟨groups', answer⟩ := refLine_lookup content groups .fail word (by decide)
  rw [Option.isSome_eq_false_iff, Option.isNone_iff_eq_none] at absent
  rw [absent] at answer
  exact ⟨_, groups', answer, rfl⟩

theorem gives_lookupExists (nonempty : content ≠ []) : Gives (genLookupExists content) (Agrees content) := by
  refine (gives_existent clean nonempty).bind fun key ⟨value, found, plain⟩ => gives_return ?_
  have free : 10 ∉ text "LOOKUP " ++ key := by
    rw [List.mem_append, not_or]
    exact ⟨by decide, Compare.not_newline plain.1⟩
  have line : 10 ∉ (Note.succeedAndReturn ((get content key).getD [])).text := by
    rw [found, Option.getD_some, Note.text, List.mem_append, not_or]
    exact ⟨by decide, Compare.not_newline plain.2.1⟩
  refine ⟨clean, line_free free line, fun groups => ?_⟩
  obtain ⟨groups', answer⟩ := refLine_lookup content groups _ plain.1 line
  refine ⟨_, groups', answer, ?_⟩
  simp only [Answered, found, Option.getD_some]

include hvalue

theorem gives_store {op : String} {makeKey : Draw Line} {there succeeds : Bool} (free : 10 ∉ text op)
    (keys : Gives makeKey fun key => IsToken isSpace key ∧ (get content key).isSome = there)
    (answer : ∀ {key value : Line} (note : Note) (groups : Line × Line), IsToken isSpace key →
      IsToken isSpace value → 10 ∉ note.text → (get content key).isSome = there →
        ∃ groups', refLine (.running content groups)
            ((⟨text op ++ (key ++ (text " " ++ value)), note⟩ : Noted).line ++ [10]) =
          if succeeds then (text "OK\n", .running (put content key (some value)) groups')
          else (text "FAIL\n", .running content groups')) :
    Gives (genStore op makeKey succeeds z content) (Agrees content) := by
  refine keys.bind fun key ⟨first, here⟩ => ?_
  refine (gives_value hvalue).bind fun value word => gives_return ?_
  have request := two_free free first word.token
  cases succeeds with
  | true =>
      refine ⟨Compare.clean_put clean ⟨first, word.token, word.not_commaLed⟩,
        line_free request (by decide), fun groups => ?_⟩
      obtain ⟨groups', reply⟩ := answer .succeed groups first word.token (by decide) here
      exact ⟨_, groups', reply, rfl⟩
  | false =>
      refine ⟨clean, line_free request (by decide), fun groups => ?_⟩
      obtain ⟨groups', reply⟩ := answer .fail groups first word.token (by decide) here
      exact ⟨_, groups', reply, rfl⟩

theorem gives_insertExists (nonempty : content ≠ []) :
    Gives (genInsertExists z content) (Agrees content) :=
  gives_store hvalue clean (by decide) (gives_there clean nonempty) (refLine_insert false)

theorem gives_updateExists (nonempty : content ≠ []) :
    Gives (genUpdateExists z content) (Agrees content) :=
  gives_store hvalue clean (by decide) (gives_there clean nonempty) (refLine_update true)

include hkey

theorem gives_insertNew : Gives (genInsertNew z content) (Agrees content) :=
  gives_store hvalue clean (by decide) (gives_nonExistent hkey z.tries content)
    (refLine_insert true)

theorem gives_updateNew : Gives (genUpdateNew z content) (Agrees content) :=
  gives_store hvalue clean (by decide) (gives_nonExistent hkey z.tries content)
    (refLine_update false)

/-- Every generator notes what the reference will answer. -/
theorem gives_gen (op : OpName) (some_ : op.namesExisting = true → content ≠ []) :
    Gives (op.gen z content) (Agrees content) := by
  cases op with
  | insertNew => exact gives_insertNew hkey hvalue clean
  | insertExists => exact gives_insertExists hvalue clean (some_ rfl)
  | updateNew => exact gives_updateNew hkey hvalue clean
  | updateExists => exact gives_updateExists hvalue clean (some_ rfl)
  | lookupNew => exact gives_lookupNew hkey clean
  | lookupExists => exact gives_lookupExists clean (some_ rfl)
  | display => exact gives_display clean

end Requests

/-- Requests for keys that exist are drawn only if there are some. -/
theorem gives_chooseOp (z : Sizes) (content : Content) :
    Gives (chooseOp z content) fun op => op.namesExisting = true → content ≠ [] := by
  refine (gives_doWhile (gives_pick (by decide)) z.tries _).mono fun op h existing => ?_
  have drawn := h.2
  rw [existing, Bool.true_and, decide_eq_false_iff_not, not_lt] at drawn
  exact List.length_pos_iff.mp drawn

/-! ## The whole sequence -/

/-- Line by line, the reference follows the content of the generator. -/
def Follows : Content → List (Noted × Content) → Prop
  | _, [] => True
  | content, s :: steps => Agrees content s ∧ Follows s.2 steps

theorem gives_genLoop {z : Sizes} (hkey : 1 ≤ z.keysize) (hvalue : 1 ≤ z.valuesize) (n : Nat)
    (clean : Compare.Clean content) : Gives (genLoop z n content) (Follows content) := by
  induction n generalizing content with
  | zero => exact gives_return trivial
  | succ n ih =>
      refine (gives_chooseOp z content).bind fun op existing => ?_
      refine (gives_gen hkey hvalue clean op existing).bind fun s agrees => ?_
      exact (ih agrees.clean).bind fun rest follows => gives_return ⟨agrees, follows⟩

/-- The lines of the requests, and the last line. -/
theorem rawLines_steps {steps : List (Noted × Content)} (follows : Follows content steps) :
    Lines.rawLines 10 ((steps.flatMap fun s => s.1.line ++ text "\n") ++ text "DEINIT\n") =
      (steps.map fun s => s.1.line ++ [10]) ++ [text "DEINIT\n"] := by
  induction steps generalizing content with
  | nil => decide
  | cons s steps ih =>
      rw [List.flatMap_cons, text_newline, List.append_assoc, List.append_assoc, List.singleton_append,
        Lines.rawLines_line follows.1.line, ← text_newline, ih follows.2]
      rfl

theorem answers_steps {steps : List (Noted × Content)} (follows : Follows content steps)
    (groups : Line × Line) :
    ∃ replies, answers (.running content groups)
      ((steps.map fun s => s.1.line ++ [10]) ++ [text "DEINIT\n"]) =
      replies ++ [text "OK\n"] ∧ List.Forall₂ Answered steps replies := by
  induction steps generalizing content groups with
  | nil => exact ⟨[], rfl, .nil⟩
  | cons s steps ih =>
      obtain ⟨answer, groups', reply, answered⟩ := follows.1.answered groups
      obtain ⟨replies, same, all⟩ := ih follows.2 groups'
      refine ⟨answer :: replies, ?_, .cons answered all⟩
      rw [List.map_cons, List.cons_append, answers, reply, same]
      rfl

theorem decimal_line (n : Nat) : 10 ∉ decimal n := by
  intro m
  obtain ⟨c, digit, same⟩ := List.mem_map.mp m
  have numeric := Nat.isDigit_of_mem_toDigits (by decide) (by decide) digit
  simp only [Char.isDigit, ge_iff_le, Bool.and_eq_true, decide_eq_true_eq, UInt32.le_iff_toNat_le] at numeric
  obtain ⟨low, high⟩ := numeric
  have value := congrArg BitVec.toNat same
  rw [BitVec.toNat_ofNat] at value
  change 48 ≤ c.toNat at low
  change c.toNat ≤ 57 at high
  change c.toNat % 2 ^ 8 = 10 at value
  omega

/-- The first line, which the reference takes for `INIT`. -/
theorem answers_init (z : Sizes) (body : List ByteT) :
    answers .start (Lines.rawLines 10
        (text "INIT " ++ decimal z.keysize ++ text " " ++ decimal z.valuesize ++ text "\n" ++ body)) =
      text "OK\n" :: answers (.running [] ([], [])) (Lines.rawLines 10 body) := by
  have init : text "INIT " = text "INIT" ++ [32] := by decide
  let arguments := decimal z.keysize ++ text " " ++ decimal z.valuesize
  have free : 10 ∉ text "INIT" ++ 32 :: arguments := by
    simp only [arguments, List.mem_append, List.mem_cons, not_or]
    exact ⟨by decide, by decide, ⟨decimal_line _, by decide⟩, decimal_line _⟩
  have whole : text "INIT " ++ decimal z.keysize ++ text " " ++ decimal z.valuesize ++ text "\n" ++ body =
      (text "INIT" ++ 32 :: arguments) ++ 10 :: body := by
    simp only [arguments, init, text_newline, List.append_assoc, List.cons_append, List.nil_append]
  have op : (text "INIT" ++ 32 :: arguments ++ [10]).takeWhile (fun b => !isSpace b) = text "INIT" := by
    rw [List.append_assoc, List.cons_append]
    exact (takeWhile_append_stop _ (by decide) (by decide)).1
  have first : refLine .start (text "INIT" ++ 32 :: arguments ++ [10]) =
      (text "OK\n", .running [] ([], [])) := by
    rw [refLine, op]
    rfl
  rw [whole, Lines.rawLines_line free, answers, first]

/-- Whatever the generator draws, the reference answers what the comments say. -/
theorem generator_agrees (z : Sizes) (hkey : 1 ≤ z.keysize) (hvalue : 1 ≤ z.valuesize) (num : Nat)
    (draws : List Nat) (steps : List (Noted × Content)) (left : List Nat)
    (ran : generate z num draws = some (steps, left)) :
    ∃ replies, answers .start (Lines.rawLines 10 (printed z steps)) =
        text "OK\n" :: (replies ++ [text "OK\n"]) ∧
      List.Forall₂ Answered steps replies ∧
      RefImpl.refOut (fun _ => false) .start (Lines.rawLines 10 (printed z steps)) =
        text "OK\n" ++ (replies.flatten ++ text "OK\n") := by
  have empty : Compare.Clean [] := ⟨List.nodup_nil, fun e m => (List.not_mem_nil m).elim⟩
  have follows := gives_genLoop hkey hvalue (num - 1) empty draws steps left ran
  obtain ⟨replies, same, all⟩ := answers_steps follows ([], [])
  have whole : answers .start (Lines.rawLines 10 (printed z steps)) =
      text "OK\n" :: (replies ++ [text "OK\n"]) := by
    rw [printed, List.append_assoc, answers_init, rawLines_steps follows, same]
  refine ⟨replies, whole, all, ?_⟩
  rw [answers_flatten, whole, List.flatten_cons, List.flatten_append, List.flatten_singleton]

theorem generator_agrees_small : ∃ steps left replies,
    generate ⟨1, 1, 1⟩ 4 [0, 0, 1, 5, 0, 6] = some (steps, left) ∧ steps.length = 3 ∧
      List.Forall₂ Answered steps replies := by
  obtain ⟨replies, -, all, -⟩ := generator_agrees ⟨1, 1, 1⟩ le_rfl le_rfl 4 [0, 0, 1, 5, 0, 6] _ _ rfl
  exact ⟨_, _, replies, rfl, rfl, all⟩

end Generator
end BTreeLab
