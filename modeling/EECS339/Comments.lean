import EECS339.TestMe

/-!
# Requests without comments

`gen_test_sequence_nocomments.pl` draws as its sibling does and leaves the comments away. None of
the programs behind it sees a difference.
-/
namespace BTreeLab
namespace Generator
open Draws Tokens Compare
open RefImpl (get put matchLine splitRest refLine refLineBug refOut)

/-- What is printed without comments. -/
def printedPlain (z : Sizes) (steps : List (Noted × Content)) : List ByteT :=
  text "INIT " ++ decimal z.keysize ++ text " " ++ decimal z.valuesize ++ text "\n" ++
    (steps.flatMap fun s => s.1.request ++ text "\n") ++ text "DEINIT\n"

/-! ## Lines that are read alike -/

/-- The two lines of one request; the first one may have more behind it. -/
structure Alike (l l' : Line) : Prop where
  line : 10 ∉ l
  line' : 10 ∉ l'
  display : text "DISPLAY" <:+: l ↔ text "DISPLAY" <:+: l'
  ref : ∀ (bug : Bool) (content : Content) (groups groups' : Line × Line), ∃ out content' groups1 groups1',
    refLineBug bug (.running content groups) (l ++ [10]) = (out, .running content' groups1) ∧
      refLineBug bug (.running content groups') (l' ++ [10]) = (out, .running content' groups1')
  action : Sim.actionOf (l ++ [10]) = Sim.actionOf (l' ++ [10])
  sim : ∀ (u : Memory) (fuel : Nat) (s : Sim), (l ++ [10]).length < 1024 →
    Sim.simLine u fuel s (l ++ [10]) = Sim.simLine u fuel s (l' ++ [10])

variable {op key value rest rest' tail l l' : Line} {groups : Line × Line} {content : Content} {note : Note}
  {s : Noted × Content} {steps : List (Noted × Content)} {z : Sizes}

/-- What the reference takes from the arguments of a request. -/
def SameArguments (a : Action) (rest rest' : Line) : Prop :=
  match a with
  | .insert | .update => splitRest rest = splitRest rest'
  | .lookup => (splitRest rest).1 = (splitRest rest').1
  | .display => True
  | _ => False

theorem refLineBug_alike (read : ∀ groups, matchLine groups (l ++ [10]) = (op, rest))
    (read' : ∀ groups, matchLine groups (l' ++ [10]) = (op, rest'))
    (same : SameArguments (Action.ofWord op) rest rest') (bug : Bool) (content : Content)
    (groups groups' : Line × Line) : ∃ out content' groups1 groups1',
      refLineBug bug (.running content groups) (l ++ [10]) = (out, .running content' groups1) ∧
        refLineBug bug (.running content groups') (l' ++ [10]) = (out, .running content' groups1') := by
  simp only [refLineBug, refLine, read, read']
  by_cases fails : bug ∧ RefImpl.Buggy (Action.ofWord op)
  · simp only [if_pos fails]
    exact ⟨_, _, _, _, rfl, rfl⟩
  simp only [if_neg fails]
  generalize Action.ofWord op = a at same
  cases a with
  | insert =>
      simp only [show splitRest rest = splitRest rest' from same]
      split_ifs
      all_goals exact ⟨_, _, _, _, rfl, rfl⟩
  | update =>
      simp only [show splitRest rest = splitRest rest' from same]
      split_ifs
      all_goals exact ⟨_, _, _, _, rfl, rfl⟩
  | lookup =>
      simp only [show (splitRest rest).1 = (splitRest rest').1 from same]
      cases get content (splitRest rest').1
      all_goals exact ⟨_, _, _, _, rfl, rfl⟩
  | display => exact ⟨_, _, _, _, rfl, rfl⟩
  | _ => exact same.elim

/-- What `sim` takes from the words of a line. -/
theorem simLine_alike (u : Memory) (fuel : Nat) (sim : Sim) (short : (l ++ [10]).length < 1024)
    (short' : (l' ++ [10]).length < 1024) (action : (Sim.parse (l ++ [10])).1 = (Sim.parse (l' ++ [10])).1)
    (same : match Action.ofWord (Sim.parse (l ++ [10])).1 with
      | .insert | .update => (Sim.parse (l ++ [10])).2 = (Sim.parse (l' ++ [10])).2
      | .lookup => (Sim.parse (l ++ [10])).2.1 = (Sim.parse (l' ++ [10])).2.1
      | .display => True
      | _ => False) :
    Sim.simLine u fuel sim (l ++ [10]) = Sim.simLine u fuel sim (l' ++ [10]) := by
  rw [Sim.simLine, Sim.simLine, Sim.fgets_short short, Sim.fgets_short short']
  simp only [Runs.ok_bind]
  rcases read : Sim.parse (l ++ [10]) with ⟨op, key, value⟩
  rcases read' : Sim.parse (l' ++ [10]) with ⟨op', key', value'⟩
  rw [read, read'] at action same
  change op = op' at action
  subst action
  simp only at same ⊢
  generalize Action.ofWord op = a at same
  cases a with
  | insert =>
      cases same
      rfl
  | update =>
      cases same
      rfl
  | lookup =>
      cases same
      rfl
  | display => rfl
  | _ => exact same.elim

/-! ## Requests with something behind them -/

theorem matchLine_rest (word : IsToken isSpace op) (first : ∀ b ∈ rest.head?, isSpace b = false)
    (nonempty : rest ≠ []) (line : 10 ∉ rest) : matchLine groups (op ++ 32 :: rest ++ [10]) = (op, rest) := by
  obtain ⟨b, w, rfl⟩ := List.exists_cons_of_ne_nil nonempty
  have start : isSpace b = false := first b rfl
  obtain ⟨taken, dropped⟩ := takeWhile_append_stop (b :: w ++ [10]) (p := fun b => !isSpace b)
    (w := op) (s := 32) (fun b m => by simp [word.2 b m]) (by decide)
  have skip : (32 :: (b :: w ++ [10])).dropWhile isSpace = (b :: w) ++ 10 :: [] := by
    rw [List.dropWhile_cons_of_pos (by decide), List.cons_append,
      List.dropWhile_cons_of_neg (by simp [start])]
  have stop := takeWhile_append_stop [] (p := fun b => decide (b ≠ 10)) (w := b :: w) (s := 10)
    (fun c m => decide_eq_true fun same => line (same ▸ m)) (by decide)
  rw [matchLine, List.append_assoc, List.cons_append]
  simp only [taken, dropped, word.1, false_or, reduceCtorEq, if_false, skip, stop.1]

/-- What may stand behind a request: nothing, or a comment. -/
structure Tail (tail : Line) : Prop where
  ends : ∀ b ∈ tail.head?, isSpace b = true
  line : 10 ∉ tail
  zero : 0 ∉ tail

theorem Tail.newline (h : Tail tail) : ∀ b ∈ (tail ++ [10]).head?, isSpace b = true := by
  intro b m
  cases tail with
  | nil =>
      cases m
      decide
  | cons c w => exact h.ends b m

theorem tail_nil : Tail [] := by
  refine ⟨fun b m => ?_, List.not_mem_nil, List.not_mem_nil⟩
  cases m

/-- A comment stays on its line and has no `Y` in it. -/
structure Remark (note : Note) : Prop where
  line : 10 ∉ note.text
  zero : 0 ∉ note.text
  quiet : 89 ∉ note.text

theorem tail_comment (remark : Remark note) : Tail (32 :: comment note) := by
  refine ⟨fun b m => ?_, List.not_mem_cons_of_ne_of_not_mem (by decide) (comment_line remark.line), ?_⟩
  · cases m
    decide
  · simp only [comment, List.mem_cons, not_or]
    exact ⟨by decide, by decide, by decide, by decide, remark.zero⟩

theorem IsWord.free (h : IsWord key) {b : ByteT} (other : b ∉ keybytes) : b ∉ key :=
    fun m => other (h.letters b m)

theorem IsWord.first (h : IsWord key) : ∀ b ∈ (key ++ rest).head?, isSpace b = false := by
  intro b m
  obtain ⟨c, w, rfl⟩ := List.exists_cons_of_ne_nil h.nonempty
  have same : c = b := Option.some.inj m
  exact h.token.2 b (same ▸ List.mem_cons_self)

theorem parse_free (free : 0 ∉ l) : Sim.parse l =
    ((token isSpace l).1, (token isSpace (token isSpace l).2).1,
      (token isSpace (token isSpace (token isSpace l).2).2).1) := by
  have whole : l.takeWhile (fun b => b ≠ 0) = l :=
    List.takeWhile_eq_self_iff.mpr fun b m => decide_eq_true fun same => free (same ▸ m)
  rw [Sim.parse, whole]

theorem remark_succeed : Remark .succeed := ⟨by decide, by decide, by decide⟩

theorem remark_fail : Remark .fail := ⟨by decide, by decide, by decide⟩

theorem remark_value (second : IsWord value) : Remark (.succeedAndReturn value) := by
  have free {b : ByteT} (other : b ∉ keybytes) (fixed : b ∉ text "should succeed and return ") :
      b ∉ (Note.succeedAndReturn value).text :=
        List.mem_append.not.mpr (not_or.mpr ⟨fixed, second.free other⟩)
  exact ⟨free (by decide) (by decide), free (by decide) (by decide), free (by decide) (by decide)⟩

/-- A word that begins a request, other than `DISPLAY`. -/
structure Verb (op : Line) : Prop where
  token : IsToken isSpace op
  zero : 0 ∉ op
  quiet : 89 ∉ op

section Words

variable (verb : Verb op) (first : IsWord key) (behind : Tail tail)
include verb first behind

theorem one_line : 10 ∉ op ++ 32 :: (key ++ tail) := by
  simp only [List.mem_append, List.mem_cons, not_or]
  exact ⟨Compare.not_newline verb.token, by decide, Compare.not_newline first.token, behind.line⟩

theorem two_line (second : IsWord value) : 10 ∉ op ++ 32 :: (key ++ 32 :: (value ++ tail)) := by
  simp only [List.mem_append, List.mem_cons, not_or]
  exact ⟨Compare.not_newline verb.token, by decide, Compare.not_newline first.token, by decide,
    Compare.not_newline second.token, behind.line⟩

/-- `LOOKUP` and a key. -/
theorem one_read : (∀ groups, matchLine groups (op ++ 32 :: (key ++ tail) ++ [10]) = (op, key ++ tail)) ∧
    (splitRest (key ++ tail)).1 = key ∧ (Sim.parse (op ++ 32 :: (key ++ tail) ++ [10])).1 = op ∧
      (Sim.parse (op ++ 32 :: (key ++ tail) ++ [10])).2.1 = key := by
  have free : 0 ∉ op ++ 32 :: (key ++ tail) ++ [10] := by
    simp only [List.mem_append, List.mem_cons, List.not_mem_nil, not_or]
    exact ⟨⟨verb.zero, by decide, first.free (by decide), behind.zero⟩, by decide, not_false⟩
  have words : token isSpace (op ++ 32 :: (key ++ tail) ++ [10]) = (op, 32 :: (key ++ (tail ++ [10]))) := by
    rw [List.append_assoc, List.cons_append, token_append verb.token (by decide), List.append_assoc]
  refine ⟨fun groups => ?_, ?_, ?_, ?_⟩
  · refine matchLine_rest verb.token first.first (List.append_ne_nil_of_left_ne_nil first.nonempty _) ?_
    exact List.mem_append.not.mpr (not_or.mpr ⟨Compare.not_newline first.token, behind.line⟩)
  · rw [splitRest, token_tail first.token behind.ends]
  · rw [parse_free free, words]
  · rw [parse_free free, words, token_skip, token_tail first.token behind.newline]

/-- `INSERT` or `UPDATE`, a key and a value. -/
theorem two_read (second : IsWord value) :
    (∀ groups, matchLine groups (op ++ 32 :: (key ++ 32 :: (value ++ tail)) ++ [10]) =
      (op, key ++ 32 :: (value ++ tail))) ∧
    splitRest (key ++ 32 :: (value ++ tail)) = (key, some value) ∧
      Sim.parse (op ++ 32 :: (key ++ 32 :: (value ++ tail)) ++ [10]) = (op, key, value) := by
  have free : 0 ∉ op ++ 32 :: (key ++ 32 :: (value ++ tail)) ++ [10] := by
    simp only [List.mem_append, List.mem_cons, List.not_mem_nil, not_or]
    exact ⟨⟨verb.zero, by decide, first.free (by decide), by decide, second.free (by decide), behind.zero⟩,
      by decide, not_false⟩
  refine ⟨fun groups => ?_, ?_, ?_⟩
  · refine matchLine_rest verb.token first.first (List.append_ne_nil_of_left_ne_nil first.nonempty _) ?_
    simp only [List.mem_append, List.mem_cons, not_or]
    exact ⟨Compare.not_newline first.token, by decide, Compare.not_newline second.token, behind.line⟩
  · rw [splitRest, token_append first.token (by decide)]
    dsimp only
    rw [if_neg (List.cons_ne_nil _ _), token_skip, token_tail second.token behind.ends]
  · have words : token isSpace (op ++ 32 :: (key ++ 32 :: (value ++ tail)) ++ [10]) =
        (op, 32 :: (key ++ 32 :: (value ++ (tail ++ [10])))) := by
      rw [List.append_assoc, List.cons_append, token_append verb.token (by decide),
        List.append_assoc, List.cons_append,
        List.append_assoc]
    rw [parse_free free, words, token_skip, token_append first.token (by decide)]
    dsimp only
    rw [token_skip, token_tail second.token behind.newline]

end Words

/-! ## With and without comments -/

section Lines

variable (verb : Verb op) (remark : Remark note)
include verb remark

theorem alike_two (action : Action.ofWord op = .insert ∨ Action.ofWord op = .update) (first : IsWord key)
    (second : IsWord value) : Alike (⟨op ++ [32] ++ (key ++ (text " " ++ value)), note⟩ : Noted).line
      (op ++ [32] ++ (key ++ (text " " ++ value))) := by
  have space : text " " = [32] := by decide
  have quiet : 89 ∉ op ++ [32] := List.mem_append.not.mpr (not_or.mpr ⟨verb.quiet, by decide⟩)
  have free := store_free (op ++ [32]) quiet first second
  have display := iff_of_false (no_display (noted_free free remark.quiet)) (no_display free)
  have plain : op ++ [32] ++ (key ++ (text " " ++ value)) = op ++ 32 :: (key ++ 32 :: value) := by
    simp only [space, List.append_assoc, List.cons_append, List.nil_append]
  have commented : (⟨op ++ [32] ++ (key ++ (text " " ++ value)), note⟩ : Noted).line =
      op ++ 32 :: (key ++ 32 :: (value ++ 32 :: comment note)) := by
    rw [line_comment, plain]
    simp only [List.append_assoc, List.cons_append]
  rw [commented, plain] at display ⊢
  obtain ⟨read, split, parsed⟩ := two_read verb first (tail_comment remark) second
  obtain ⟨read', split', parsed'⟩ := two_read verb first tail_nil second
  have line := two_line verb first (tail_comment remark) second
  have line' := two_line verb first tail_nil second
  rw [List.append_nil] at read' split' parsed' line'
  refine ⟨line, line', display, refLineBug_alike read read' ?_, ?_, fun u fuel s short => ?_⟩
  · rcases action with same | same
    · rw [same]
      exact split.trans split'.symm
    · rw [same]
      exact split.trans split'.symm
  · rw [Sim.actionOf, Sim.actionOf, parsed, parsed']
  · have short' : (op ++ 32 :: (key ++ 32 :: value) ++ [10]).length < 1024 := by
      simp only [List.length_append, List.length_cons] at short ⊢
      omega
    refine simLine_alike u fuel s short short' (by rw [parsed, parsed']) ?_
    rw [parsed, parsed']
    rcases action with same | same
    · rw [same]
    · rw [same]

theorem alike_one (action : Action.ofWord op = .lookup) (first : IsWord key) :
    Alike (⟨op ++ [32] ++ key, note⟩ : Noted).line (op ++ [32] ++ key) := by
  have free : 89 ∉ op ++ [32] ++ key := by
    simp only [List.mem_append, not_or]
    exact ⟨⟨verb.quiet, by decide⟩, first.small⟩
  have display := iff_of_false (no_display (noted_free free remark.quiet)) (no_display free)
  have plain : op ++ [32] ++ key = op ++ 32 :: key := by
    simp only [List.append_assoc, List.cons_append, List.nil_append]
  have commented : (⟨op ++ [32] ++ key, note⟩ : Noted).line = op ++ 32 :: (key ++ 32 :: comment note) := by
    rw [line_comment, plain]
    simp only [List.append_assoc, List.cons_append]
  rw [commented, plain] at display ⊢
  obtain ⟨read, split, parsed, parsedKey⟩ := one_read verb first (tail_comment remark)
  obtain ⟨read', split', parsed', parsedKey'⟩ := one_read verb first tail_nil
  have line := one_line verb first (tail_comment remark)
  have line' := one_line verb first tail_nil
  rw [List.append_nil] at read' split' parsed' parsedKey' line'
  refine ⟨line, line', display, refLineBug_alike read read' ?_, ?_, fun u fuel s short => ?_⟩
  · rw [action]
    exact split.trans split'.symm
  · rw [Sim.actionOf, Sim.actionOf, parsed, parsed']
  · have short' : (op ++ 32 :: key ++ [10]).length < 1024 := by
      simp only [List.length_append, List.length_cons] at short ⊢
      omega
    refine simLine_alike u fuel s short short' (by rw [parsed, parsed']) ?_
    rw [parsed, action]
    exact parsedKey.trans parsedKey'.symm

end Lines

theorem alike_display : Alike (⟨text "DISPLAY", .alwaysSucceed⟩ : Noted).line (text "DISPLAY") := by
  have action : Action.ofWord (text "DISPLAY") = .display := by decide
  have read (groups : Line × Line) : matchLine groups
    ((⟨text "DISPLAY", .alwaysSucceed⟩ : Noted).line ++ [10]) =
      (text "DISPLAY", text "# should always succeed") := rfl
  have read' (groups : Line × Line) : matchLine groups (text "DISPLAY" ++ [10]) = (text "DISPLAY", []) := rfl
  refine ⟨by decide, by decide, by decide, refLineBug_alike read read' ?_, by decide,
    fun u fuel s short => ?_⟩
  · rw [action]
    trivial
  · have parsed : (Sim.parse ((⟨text "DISPLAY", .alwaysSucceed⟩ : Noted).line ++ [10])).1 =
      text "DISPLAY" := by
      decide
    refine simLine_alike u fuel s short (by decide) (parsed.trans (by decide)) ?_
    rw [parsed, action]
    trivial

theorem Made.alike (made : Made content s) : Alike s.1.line s.1.request := by
  have insert : text "INSERT " = text "INSERT" ++ [32] := by decide
  have update : text "UPDATE " = text "UPDATE" ++ [32] := by decide
  have lookup : text "LOOKUP " = text "LOOKUP" ++ [32] := by decide
  have inserts : Action.ofWord (text "INSERT") = .insert := by decide
  have updates : Action.ofWord (text "UPDATE") = .update := by decide
  have looks : Action.ofWord (text "LOOKUP") = .lookup := by decide
  have inserting : Verb (text "INSERT") := ⟨.of_all (by decide) rfl, by decide, by decide⟩
  have updating : Verb (text "UPDATE") := ⟨.of_all (by decide) rfl, by decide, by decide⟩
  have looking : Verb (text "LOOKUP") := ⟨.of_all (by decide) rfl, by decide, by decide⟩
  cases made with
  | insert succeeds first second there =>
      rw [insert]
      cases succeeds with
      | true => exact alike_two inserting remark_succeed (Or.inl inserts) first second
      | false => exact alike_two inserting remark_fail (Or.inl inserts) first second
  | update succeeds first second there =>
      rw [update]
      cases succeeds with
      | true => exact alike_two updating remark_succeed (Or.inr updates) first second
      | false => exact alike_two updating remark_fail (Or.inr updates) first second
  | lookupNew first absent =>
      rw [lookup]
      exact alike_one looking remark_fail looks first
  | lookupExists first second found =>
      rw [lookup]
      exact alike_one looking (remark_value second) looks first
  | display => exact alike_display

/-! ## Whole files -/

theorem alike_steps (made : MadeFrom content steps) : ∀ s ∈ steps, Alike s.1.line s.1.request := by
  induction steps generalizing content with
  | nil => exact fun _ m => absurd m List.not_mem_nil
  | cons s steps ih => exact List.forall_mem_cons.mpr ⟨made.1.alike, ih made.2⟩

/-- A file of requests, printed in one of the two ways. -/
def fileOf (z : Sizes) (requests : List Line) : List ByteT :=
  initRequest z ++ 10 :: ((requests.flatMap fun l => l ++ [10]) ++ text "DEINIT\n")

theorem printed_fileOf (z : Sizes) (steps : List (Noted × Content)) :
    printed z steps = fileOf z (steps.map fun s => s.1.line) ∧
      printedPlain z steps = fileOf z (steps.map fun s => s.1.request) := by
  constructor
  · rw [printed, fileOf, List.flatMap_map, text_newline, List.append_assoc, List.append_assoc,
      List.singleton_append]
    rfl
  · rw [printedPlain, fileOf, List.flatMap_map, text_newline, List.append_assoc, List.append_assoc,
      List.singleton_append]
    rfl

theorem rawLines_fileOf (z : Sizes) {requests : List Line} (lines : ∀ l ∈ requests, 10 ∉ l) :
    Lines.rawLines 10 (fileOf z requests) =
      (initRequest z ++ [10]) :: ((requests.map fun l => l ++ [10]) ++ [text "DEINIT\n"]) := by
  have rest : Lines.rawLines 10 ((requests.flatMap fun l => l ++ [10]) ++ text "DEINIT\n") =
      (requests.map fun l => l ++ [10]) ++ [text "DEINIT\n"] := by
    induction requests with
    | nil => decide
    | cons l requests ih =>
        obtain ⟨first, others⟩ := List.forall_mem_cons.mp lines
        rw [List.flatMap_cons, List.append_assoc, List.append_assoc, List.singleton_append,
          Lines.rawLines_line first, ih others]
        rfl
  rw [fileOf, Lines.rawLines_line (initRequest_free z (by decide) (by decide) (by decide)), rest]

theorem fileLines_fileOf (z : Sizes) {requests : List Line} (lines : ∀ l ∈ requests, 10 ∉ l) :
    fileLines (fileOf z requests) = initRequest z :: (requests ++ [text "DEINIT"]) := by
  have last : Lines.chomp 10 (text "DEINIT\n") = text "DEINIT" := by decide
  have chomped : (Lines.chomp 10) ∘ (fun l : Line => l ++ [10]) = id :=
    funext fun l => Lines.chomp_append_newline
  rw [fileLines, Lines.lines, rawLines_fileOf z lines, List.map_cons, Lines.chomp_append_newline,
    List.map_append, List.map_map, chomped, List.map_id, List.map_singleton, last]

theorem refOut_alike (alike : ∀ s ∈ steps, Alike s.1.line s.1.request) (bug : Nat → Bool) (content : Content)
    (groups groups' : Line × Line) :
    refOut bug (.running content groups) ((steps.map fun s => s.1.line ++ [10]) ++ [text "DEINIT\n"]) =
      refOut bug (.running content groups')
        ((steps.map fun s => s.1.request ++ [10]) ++ [text "DEINIT\n"]) := by
  induction steps generalizing bug content groups groups' with
  | nil =>
      have action : Action.ofWord (text "DEINIT") = .deinit := by decide
      have read (groups : Line × Line) : matchLine groups (text "DEINIT\n") = (text "DEINIT", []) := rfl
      simp only [List.map_nil, List.nil_append, refOut, refLineBug, refLine, read, action]
  | cons s steps ih =>
      obtain ⟨first, others⟩ := List.forall_mem_cons.mp alike
      obtain ⟨out, content', groups1, groups1', reply, reply'⟩ := first.ref (bug 0) content groups groups'
      simp only [List.map_cons, List.cons_append, refOut, reply, reply']
      rw [ih others]

/-- Behind its first line the reference waits for another one or has stopped. -/
theorem start_left (bug : Bool) (line : Line) : (refLineBug bug .start line).2 ≠ .start := by
  rw [refLineBug, refLine]
  · split_ifs
    all_goals
      intro same
      cases same
  · intro _ _ same
    cases same

theorem compareFrom_alike {cmds cmds' : List Line}
    (alike : List.Forall₂ (fun l l' => text "DISPLAY" <:+: l ↔ text "DISPLAY" <:+: l') cmds cmds')
    (maxerrs numerr i : Nat) (refs tests : List Line) :
    compareFrom maxerrs numerr i cmds refs tests = compareFrom maxerrs numerr i cmds' refs tests := by
  induction alike generalizing numerr i refs tests with
  | nil => rfl
  | cons first _ ih =>
      cases refs with
      | nil => rfl
      | cons ref refs =>
          cases tests with
          | nil => rfl
          | cons test tests => simp only [compareFrom, first, ih]

/-- A run that is killed has replied to the same requests. -/
theorem replies_both {u : Memory} {fuel : Nat} {lines lines' : List Line}
    (same : List.Forall₂ (fun o o' => Sim.actionOf o = Sim.actionOf o' ∧
      ∀ s, Sim.simLine u fuel s o = Sim.simLine u fuel s o') lines lines') (sim : Sim) :
    Sim.replies u fuel sim lines' = Sim.replies u fuel sim lines := by
  induction same generalizing sim with
  | nil => rfl
  | cons here _ ih =>
      rw [Sim.replies, Sim.replies, here.1, here.2 sim]
      split
      · rfl
      · rw [ih]

section Files

variable (z : Sizes) (alike : ∀ s ∈ steps, Alike s.1.line s.1.request)
include alike

theorem rawLines_both :
    Lines.rawLines 10 (printed z steps) =
        (initRequest z ++ [10]) :: ((steps.map fun s => s.1.line ++ [10]) ++ [text "DEINIT\n"]) ∧
      Lines.rawLines 10 (printedPlain z steps) =
        (initRequest z ++ [10]) :: ((steps.map fun s => s.1.request ++ [10]) ++ [text "DEINIT\n"]) := by
  obtain ⟨commented, plain⟩ := printed_fileOf z steps
  rw [commented, plain, rawLines_fileOf z (List.forall_mem_map.mpr fun s m => (alike s m).line),
    rawLines_fileOf z (List.forall_mem_map.mpr fun s m => (alike s m).line'), List.map_map, List.map_map]
  exact ⟨rfl, rfl⟩

theorem refOut_both (bug : Nat → Bool) : refOut bug .start (Lines.rawLines 10 (printedPlain z steps)) =
    refOut bug .start (Lines.rawLines 10 (printed z steps)) := by
  obtain ⟨raw, raw'⟩ := rawLines_both z alike
  rw [raw, raw', refOut, refOut]
  have left := start_left (bug 0) (initRequest z ++ [10])
  cases first : refLineBug (bug 0) .start (initRequest z ++ [10]) with
  | mk out s =>
      rw [first] at left
      cases s with
      | running content groups =>
          exact congrArg (out ++ ·) (refOut_alike alike (fun n => bug (n + 1)) content groups groups).symm
      | stopped => simp only [refOut_stopped]
      | start => exact absurd rfl left

theorem lines_both (short : ∀ line ∈ Lines.rawLines 10 (printed z steps), line.length < 1024) (u : Memory)
    (fuel : Nat) : List.Forall₂ (fun o o' => Sim.actionOf o = Sim.actionOf o' ∧
        ∀ s, Sim.simLine u fuel s o = Sim.simLine u fuel s o')
      (Lines.rawLines 10 (printed z steps)) (Lines.rawLines 10 (printedPlain z steps)) := by
  obtain ⟨raw, raw'⟩ := rawLines_both z alike
  rw [raw] at short
  rw [raw, raw']
  refine .cons ⟨rfl, fun _ => rfl⟩ (List.rel_append ?_ (.cons ⟨rfl, fun _ => rfl⟩ .nil))
  rw [List.forall₂_map_left_iff, List.forall₂_map_right_iff, List.forall₂_same]
  refine fun s m => ⟨(alike s m).action, fun sim =>
    (alike s m).sim u fuel sim (short _ (List.mem_cons_of_mem _ ?_))⟩
  exact List.mem_append_left _ (List.mem_map_of_mem m)

theorem sim_both (short : ∀ line ∈ Lines.rawLines 10 (printed z steps), line.length < 1024) (u : Memory)
    (fuel : Nat) (cachesize : SizeT) (d : DiskSystem) :
    Sim.main u fuel cachesize (printedPlain z steps) d = Sim.main u fuel cachesize (printed z steps) d := by
  have same := (lines_both z alike short u fuel).imp fun _ _ h => h.2
  rw [Sim.main, Sim.main, Runs.run_congr same]

theorem output_both (short : ∀ line ∈ Lines.rawLines 10 (printed z steps), line.length < 1024) (stem : Text)
    (cachesize : SizeT) (w : Uninitialized) (u : Memory) (fuel bufsiz : Nat) :
    Sim.output stem cachesize w u fuel bufsiz (printedPlain z steps) =
      Sim.output stem cachesize w u fuel bufsiz (printed z steps) := by
  have main : Sim.main u fuel cachesize (printedPlain z steps) =
    Sim.main u fuel cachesize (printed z steps) :=
    funext fun d => sim_both z alike short u fuel cachesize d
  have flushed : Sim.flushed u fuel bufsiz cachesize (printedPlain z steps) =
      Sim.flushed u fuel bufsiz cachesize (printed z steps) := by
    funext d
    rw [Sim.flushed, Sim.flushed, replies_both (lines_both z alike short u fuel)]
  funext f
  rw [Sim.output, Sim.output, main, flushed]

theorem compare_both (maxerrs : Nat) (refout yourout : List ByteT) :
    Compare.compare maxerrs (printedPlain z steps) refout yourout =
      Compare.compare maxerrs (printed z steps) refout yourout := by
  obtain ⟨commented, plain⟩ := printed_fileOf z steps
  rw [Compare.compare, Compare.compare, commented, plain,
    fileLines_fileOf z (List.forall_mem_map.mpr fun s m => (alike s m).line),
    fileLines_fileOf z (List.forall_mem_map.mpr fun s m => (alike s m).line')]
  refine (compareFrom_alike (.cons Iff.rfl (List.rel_append ?_ (.cons Iff.rfl .nil))) _ _ _ _ _).symm
  rw [List.forall₂_map_left_iff, List.forall₂_map_right_iff, List.forall₂_same]
  exact fun s m => (alike s m).display

end Files

/-- The reference, `sim` and the comparison take the two files of a run of the generator for the same,
and so does the test. -/
theorem comments_are_invisible (z : Sizes) (hkey : 1 ≤ z.keysize) (hvalue : 1 ≤ z.valuesize) (num : Nat)
    (draws left : List Nat) (steps : List (Noted × Content)) (ran : generate z num draws = some (steps, left))
    (short : ∀ line ∈ Lines.rawLines 10 (printed z steps), line.length < 1024) :
    (∀ bug, refOut bug .start (Lines.rawLines 10 (printedPlain z steps)) =
      refOut bug .start (Lines.rawLines 10 (printed z steps))) ∧
    (∀ u fuel cachesize d, Sim.main u fuel cachesize (printedPlain z steps) d =
      Sim.main u fuel cachesize (printed z steps) d) ∧
    (∀ maxerrs refout yourout, Compare.compare maxerrs (printedPlain z steps) refout yourout =
      Compare.compare maxerrs (printed z steps) refout yourout) ∧
    ∀ stem c cachesize maxerrs u u' m fuel bufsiz,
      testMe stem c cachesize maxerrs u u' m fuel bufsiz (printedPlain z steps) =
        testMe stem c cachesize maxerrs u u' m fuel bufsiz (printed z steps) := by
  have alike := alike_steps (gives_turns hkey hvalue (num - 1) worded_empty draws steps left ran)
  refine ⟨refOut_both z alike, sim_both z alike short, compare_both z alike,
    fun stem c cachesize maxerrs u u' m fuel bufsiz => ?_⟩
  simp only [testMe, refOut_both z alike, output_both z alike short, compare_both z alike]

theorem comments_are_invisible_small : ∃ steps left,
    generate ⟨1, 1, 1⟩ 4 [0, 0, 1, 5, 0, 6] = some (steps, left) ∧
      printedPlain ⟨1, 1, 1⟩ steps ≠ printed ⟨1, 1, 1⟩ steps ∧
      ∀ bug, refOut bug .start (Lines.rawLines 10 (printedPlain ⟨1, 1, 1⟩ steps)) =
        refOut bug .start (Lines.rawLines 10 (printed ⟨1, 1, 1⟩ steps)) := by
  obtain ⟨same, -⟩ := comments_are_invisible ⟨1, 1, 1⟩ le_rfl le_rfl 4 [0, 0, 1, 5, 0, 6] _ _ rfl (by decide)
  exact ⟨_, _, rfl, by decide, same⟩

end Generator
end BTreeLab
