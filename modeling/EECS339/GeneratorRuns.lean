import EECS339.CompareCounts
import EECS339.Generator

/-!
# Generated requests under test

What each turn of the generator can be, and what the comparison of the reference with a program
that has stored nothing makes of a generated sequence.
-/
namespace BTreeLab
namespace Generator
open Draws Tokens Compare
open RefImpl (get put)

/-! ## The turns of the generator -/

/-- Keys and values are words that the generator has made. -/
structure Worded (content : Content) : Prop where
  clean : Clean content
  words : ∀ e ∈ content, IsWord e.1 ∧ ∃ v, e.2 = some v ∧ IsWord v

/-- One turn: the request with its note, and the content behind it. -/
inductive Made (content : Content) : Noted × Content → Prop
  | insert {key value : Line} (succeeds : Bool) (first : IsWord key) (second : IsWord value)
      (there : (get content key).isSome = !succeeds) :
      Made content
        (if succeeds then (⟨text "INSERT " ++ (key ++ (text " " ++ value)), .succeed⟩,
          put content key (some value))
          else (⟨text "INSERT " ++ (key ++ (text " " ++ value)), .fail⟩, content))
  | update {key value : Line} (succeeds : Bool) (first : IsWord key) (second : IsWord value)
      (there : (get content key).isSome = succeeds) :
      Made content
        (if succeeds then (⟨text "UPDATE " ++ (key ++ (text " " ++ value)), .succeed⟩,
          put content key (some value))
          else (⟨text "UPDATE " ++ (key ++ (text " " ++ value)), .fail⟩, content))
  | lookupNew {key : Line} (first : IsWord key) (absent : get content key = none) :
      Made content (⟨text "LOOKUP " ++ key, .fail⟩, content)
  | lookupExists {key value : Line} (first : IsWord key) (second : IsWord value)
      (found : get content key = some value) :
      Made content (⟨text "LOOKUP " ++ key, .succeedAndReturn value⟩, content)
  | display : Made content (⟨text "DISPLAY", .alwaysSucceed⟩, content)

variable {content : Content} {key value : Line} {s : Noted × Content}

theorem worded_get (h : Worded content) (found : get content key = some value) :
    IsWord key ∧ IsWord value := by
  obtain ⟨first, v, same, second⟩ := h.words _ (get_mem found)
  cases same
  exact ⟨first, second⟩

theorem worded_put (h : Worded content) (first : IsWord key) (second : IsWord value) :
    Worded (put content key (some value)) := by
  refine ⟨clean_put h.clean ⟨first.token, second.token, second.not_commaLed⟩, fun e m => ?_⟩
  rcases mem_put m with rfl | m
  · exact ⟨first, value, rfl, second⟩
  · exact h.words e m

theorem Made.worded (made : Made content s) (h : Worded content) : Worded s.2 := by
  cases made with
  | insert succeeds first second there =>
      cases succeeds with
      | true => exact worded_put h first second
      | false => exact h
  | update succeeds first second there =>
      cases succeeds with
      | true => exact worded_put h first second
      | false => exact h
  | _ => exact h

theorem gives_newWord {n : Nat} (pos : 1 ≤ n) (tries : Nat) (content : Content) :
    Gives (makeNonExistentKey tries n content) fun key => IsWord key ∧ (get content key).isSome = false :=
  gives_doWhile (gives_word pos) tries _

theorem gives_oldWord (h : Worded content) (nonempty : content ≠ []) :
    Gives (makeExistentKey content) fun key => ∃ value, get content key = some value ∧ IsWord key ∧
    IsWord value :=
  (gives_existent h.clean nonempty).mono fun _ ⟨value, found, _⟩ => ⟨value, found, worded_get h found⟩

theorem gives_oldKey (h : Worded content) (nonempty : content ≠ []) :
    Gives (makeExistentKey content) fun key => IsWord key ∧ (get content key).isSome = true :=
  (gives_oldWord h nonempty).mono fun _ ⟨_, found, first, _⟩ => ⟨first, Option.isSome_of_eq_some found⟩

/-- A request that stores is one of the two kinds, with a key of the kind that is asked for. -/
theorem gives_stored {op : String} {makeKey : Draw Line} {there succeeds : Bool} {z : Sizes}
    (pos : 1 ≤ z.valuesize)
    (keys : Gives makeKey fun key => IsWord key ∧ (get content key).isSome = there)
    (made : ∀ key value, IsWord key → IsWord value → (get content key).isSome = there → Made content
      (if succeeds then (⟨text op ++ (key ++ (text " " ++ value)), .succeed⟩, put content key (some value))
        else (⟨text op ++ (key ++ (text " " ++ value)), .fail⟩, content))) :
    Gives (genStore op makeKey succeeds z content) (Made content) :=
  keys.bind fun _ ⟨first, here⟩ => (gives_value pos).bind fun _ second =>
    gives_return (made _ _ first second here)

theorem gives_turn {z : Sizes} (hkey : 1 ≤ z.keysize) (hvalue : 1 ≤ z.valuesize)
    (h : Worded content) (op : OpName)
    (some_ : op.namesExisting = true → content ≠ []) : Gives (op.gen z content) (Made content) := by
  cases op with
  | insertNew =>
      exact gives_stored hvalue (gives_newWord hkey z.tries content) fun _ _ => Made.insert true
  | insertExists =>
      exact gives_stored hvalue (gives_oldKey h (some_ rfl)) fun _ _ => Made.insert false
  | updateNew =>
      exact gives_stored hvalue (gives_newWord hkey z.tries content) fun _ _ => Made.update false
  | updateExists =>
      exact gives_stored hvalue (gives_oldKey h (some_ rfl)) fun _ _ => Made.update true
  | lookupNew =>
      refine (gives_newWord hkey z.tries content).bind fun key ⟨first, absent⟩ => gives_return ?_
      exact .lookupNew first (Option.not_isSome_iff_eq_none.mp (by rw [absent]; exact Bool.false_ne_true))
  | lookupExists =>
      refine (gives_oldWord h (some_ rfl)).bind fun key ⟨value, found, first, second⟩ => gives_return ?_
      rw [found]
      exact .lookupExists first second found
  | display => exact gives_return .display

/-- Turn after turn. -/
def MadeFrom : Content → List (Noted × Content) → Prop
  | _, [] => True
  | content, s :: steps => Made content s ∧ MadeFrom s.2 steps

theorem gives_turns {z : Sizes} (hkey : 1 ≤ z.keysize) (hvalue : 1 ≤ z.valuesize) (n : Nat)
    (h : Worded content) :
    Gives (genLoop z n content) (MadeFrom content) := by
  induction n generalizing content with
  | zero => exact gives_return trivial
  | succ n ih =>
      refine (gives_chooseOp z content).bind fun op existing => ?_
      refine (gives_turn hkey hvalue h op existing).bind fun s made => ?_
      exact (ih (made.worded h)).bind fun rest others => gives_return ⟨made, others⟩

/-! ## The lines of the file -/

theorem no_display {l : Line} (free : 89 ∉ l) : ¬ text "DISPLAY" <:+: l :=
  fun found => free (found.subset (by decide))

theorem IsWord.small (h : IsWord key) : 89 ∉ key := fun m => absurd (h.letters 89 m) (by decide)

theorem noted_free {request : Line} {note : Note} (free : 89 ∉ request) (free' : 89 ∉ note.text) :
    89 ∉ (⟨request, note⟩ : Noted).line := by
  simp only [Noted.line, List.mem_append, not_or]
  exact ⟨free, by decide, free'⟩

theorem store_free (op : Line) (free : 89 ∉ op) (first : IsWord key) (second : IsWord value) :
    89 ∉ op ++ (key ++ (text " " ++ value)) := by
  simp only [List.mem_append, not_or]
  exact ⟨free, first.small, by decide, second.small⟩

/-- Only the request for a display has its word in it. -/
theorem Made.display_iff (made : Made content s) :
    text "DISPLAY" <:+: s.1.line ↔ s.1.note = .alwaysSucceed := by
  have other {request : Line} {note : Note} (free : 89 ∉ request) (free' : 89 ∉ note.text)
      (ne : note ≠ .alwaysSucceed) :
      text "DISPLAY" <:+: (⟨request, note⟩ : Noted).line ↔ note = .alwaysSucceed :=
    iff_of_false (no_display (noted_free free free')) ne
  cases made with
  | insert succeeds first second there =>
      have free := store_free (text "INSERT ") (by decide) first second
      cases succeeds with
      | true => exact other free (by decide) nofun
      | false => exact other free (by decide) nofun
  | update succeeds first second there =>
      have free := store_free (text "UPDATE ") (by decide) first second
      cases succeeds with
      | true => exact other free (by decide) nofun
      | false => exact other free (by decide) nofun
  | lookupNew first absent =>
      exact other (List.mem_append.not.mpr (not_or.mpr ⟨by decide, first.small⟩)) (by decide) nofun
  | lookupExists first second found =>
      refine other (List.mem_append.not.mpr (not_or.mpr ⟨by decide, first.small⟩)) ?_ nofun
      exact List.mem_append.not.mpr (not_or.mpr ⟨by decide, second.small⟩)
  | display =>
      have shown : text "DISPLAY" <:+: (⟨text "DISPLAY", .alwaysSucceed⟩ : Noted).line := by decide
      exact iff_of_true shown rfl

theorem decimal_digit {n : Nat} {b : ByteT} (m : b ∈ decimal n) : 48 ≤ b.toNat ∧ b.toNat ≤ 57 := by
  obtain ⟨c, digit, rfl⟩ := List.mem_map.mp m
  have numeric := Nat.isDigit_of_mem_toDigits (by decide) (by decide) digit
  simp only [Char.isDigit, ge_iff_le, Bool.and_eq_true, decide_eq_true_eq, UInt32.le_iff_toNat_le] at numeric
  obtain ⟨low, high⟩ := numeric
  change 48 ≤ c.toNat at low
  change c.toNat ≤ 57 at high
  rw [BitVec.toNat_ofNat]
  omega

def initRequest (z : Sizes) : Line := text "INIT " ++ decimal z.keysize ++ text " " ++ decimal z.valuesize

/-- Nothing but digits stands between the word and the end of the line. -/
theorem initRequest_free (z : Sizes) {b : ByteT} (fixed : b ∉ text "INIT ") (space : b ∉ text " ")
    (other : b.toNat < 48 ∨ 57 < b.toNat) : b ∉ initRequest z := by
  have digits (n : Nat) : b ∉ decimal n := by
    intro m
    have := decimal_digit m
    omega
  simp only [initRequest, List.mem_append, not_or]
  exact ⟨⟨⟨fixed, digits _⟩, space⟩, digits _⟩

variable {steps : List (Noted × Content)} {z : Sizes}

theorem rawLines_printed (z : Sizes) (follows : Follows content steps) :
    Lines.rawLines 10 (printed z steps) =
      (initRequest z ++ [10]) :: ((steps.map fun s => s.1.line ++ [10]) ++ [text "DEINIT\n"]) := by
  have whole : printed z steps =
      initRequest z ++ 10 :: ((steps.flatMap fun s => s.1.line ++ text "\n") ++ text "DEINIT\n") := by
    rw [printed, text_newline, List.append_assoc, List.append_assoc, List.singleton_append]
    rfl
  rw [whole, Lines.rawLines_line (initRequest_free z (by decide) (by decide) (by decide)),
    rawLines_steps follows]

theorem fileLines_printed (z : Sizes) (follows : Follows content steps) :
    fileLines (printed z steps) = initRequest z :: ((steps.map fun s => s.1.line) ++ [text "DEINIT"]) := by
  have last : Lines.chomp 10 (text "DEINIT\n") = text "DEINIT" := by decide
  have lines : (Lines.chomp 10) ∘ (fun s : Noted × Content => s.1.line ++ [10]) = fun s => s.1.line :=
    funext fun s => Lines.chomp_append_newline
  rw [fileLines, Lines.lines, rawLines_printed z follows, List.map_cons, Lines.chomp_append_newline,
    List.map_append, List.map_map, lines, List.map_singleton, last]

/-! ## Against a program that stores nothing -/

def emptyReply (s : Noted × Content) : Reply :=
  match s.1.note with
  | .alwaysSucceed => .display []
  | _ => .single (text "FAIL")

def displays (s : Noted × Content) : Bool :=
  match s.1.note with
  | .alwaysSucceed => true
  | _ => false

theorem emptyReply_displays {s : Noted × Content} (shown : displays s = true) :
    emptyReply s = .display [] := by
  obtain ⟨⟨request, note⟩, after⟩ := s
  cases note <;> first | rfl | cases shown

/-- The reference answers otherwise: with a success, or with a display of something. -/
def differs (s : Noted × Content) : Bool :=
  match s.1.note with
  | .fail => false
  | .alwaysSucceed => decide (s.2 ≠ [])
  | _ => true

/-- The value in a note is a word. -/
theorem Made.returned (made : Made content s) (note : s.1.note = .succeedAndReturn value) : IsWord value := by
  cases made with
  | insert succeeds first second there => cases succeeds <;> cases note
  | update succeeds first second there => cases succeeds <;> cases note
  | lookupNew first absent => cases note
  | lookupExists first second found =>
      cases note
      exact second
  | display => cases note

theorem shown_plain {shown : List (Line × Line)} (h : Worded content)
    (perm : (shown.map fun p => (p.1, some p.2)).Perm content) : ∀ p ∈ shown, PlainPair p := by
  intro p m
  obtain ⟨v, same, plain⟩ := h.clean.plain _ (perm.subset (List.mem_map_of_mem m))
  cases same
  exact plain

theorem replied_turn {answer : List ByteT} (made : Made content s) (h : Worded content)
    (answered : Answered s answer) :
    ∃ r : Reply, answer = r.bytes ∧ decide (r ≠ emptyReply s) = differs s ∧
      ∀ {cmds rs rs'}, Replied cmds rs rs' → Replied (s.1.line :: cmds) (r :: rs) (emptyReply s :: rs') := by
  have ok : text "OK\n" = (Reply.single (text "OK")).bytes := by decide
  have fail : text "FAIL\n" = (Reply.single (text "FAIL")).bytes := by decide
  have named := made.display_iff
  have worded := made.worded h
  have returned {value : Line} : s.1.note = .succeedAndReturn value → IsWord value := made.returned
  obtain ⟨⟨request, note⟩, after⟩ := s
  cases note with
  | succeed =>
      have ne : Reply.single (text "OK") ≠ .single (text "FAIL") := by decide
      exact ⟨.single (text "OK"), answered.trans ok, decide_eq_true ne,
        .single (mt named.mp nofun) singleReply_ok singleReply_fail⟩
  | fail =>
      exact ⟨.single (text "FAIL"), answered.trans fail, decide_eq_false (not_not.mpr rfl),
        .single (mt named.mp nofun) singleReply_fail singleReply_fail⟩
  | succeedAndReturn value =>
      have ne : Reply.single (text "OK " ++ value) ≠ .single (text "FAIL") := by
        intro same
        have parts : text "OK " = [79, 75, 32] ∧ text "FAIL" = [70, 65, 73, 76] := by decide
        rw [Reply.single.injEq, parts.1, parts.2] at same
        exact absurd (List.cons.inj same).1 (by decide)
      refine ⟨.single (text "OK " ++ value), ?_, decide_eq_true ne,
        .single (mt named.mp nofun) (singleReply_value (not_newline (returned rfl).token)) singleReply_fail⟩
      rw [bytes_single, ← text_newline]
      exact answered
  | alwaysSucceed =>
      obtain ⟨shown, printed, perm, increasing⟩ := answered
      have same : Reply.display shown ≠ .display [] ↔ after ≠ [] := by
        rw [ne_eq, Reply.display.injEq, ← List.map_eq_nil_iff (f := fun p : Line × Line => (p.1, some p.2))]
        exact not_congr ⟨fun none => (none ▸ perm).nil_eq.symm, fun none => (none ▸ perm).eq_nil⟩
      refine ⟨.display shown, ?_, decide_eq_decide.mpr same, .display (named.mpr rfl) increasing .nil
        (shown_plain worded perm) (fun _ m => absurd m List.not_mem_nil)⟩
      rw [printed, bytes_display, text_newline]

theorem replied_turns {replies : List (List ByteT)} (made : MadeFrom content steps) (h : Worded content)
    (answered : List.Forall₂ Answered steps replies) :
    ∃ rs : List Reply, replies = rs.map Reply.bytes ∧
      List.zipWith (fun r r' => decide (r ≠ r')) rs (steps.map emptyReply) = steps.map differs ∧
      ∀ {cmds rs1 rs1'}, Replied cmds rs1 rs1' → Replied ((steps.map fun s => s.1.line) ++ cmds) (rs ++ rs1)
        (steps.map emptyReply ++ rs1') := by
  induction answered generalizing content with
  | nil => exact ⟨[], rfl, rfl, fun replied => replied⟩
  | cons first _ ih =>
      obtain ⟨made, others⟩ := made
      obtain ⟨r, rfl, differ, here⟩ := replied_turn made h first
      obtain ⟨rs, rfl, differ', there⟩ := ih others (made.worded h)
      refine ⟨r :: rs, rfl, ?_, fun replied => here (there replied)⟩
      rw [List.map_cons, List.zipWith_cons_cons, differ, differ', List.map_cons]

/-! ## The whole sequence -/

/-- What a program that has stored nothing prints for a generated sequence. -/
def emptyOutput (steps : List (Noted × Content)) : List ByteT :=
  text "OK\n" ++ ((steps.map fun s => (emptyReply s).bytes).flatten ++ text "OK\n")

/-- The requests that the reference answers otherwise, `INIT` and `DEINIT` included. -/
def differing (steps : List (Noted × Content)) : List Bool := false :: (steps.map differs ++ [false])

theorem worded_empty : Worded [] := ⟨⟨List.nodup_nil, fun _ m => absurd m List.not_mem_nil⟩,
  fun _ m => absurd m List.not_mem_nil⟩

theorem refOut_printed (z : Sizes) (follows : Follows [] steps) :
    ∃ replies, List.Forall₂ Answered steps replies ∧
      RefImpl.refOut (fun _ => false) .start (Lines.rawLines 10 (printed z steps)) =
        text "OK\n" ++ (replies.flatten ++ text "OK\n") := by
  obtain ⟨replies, same, all⟩ := answers_steps follows ([], [])
  refine ⟨replies, all, ?_⟩
  rw [answers_flatten, printed, List.append_assoc, answers_init, rawLines_steps follows, same,
    List.flatten_cons,
    List.flatten_append, List.flatten_singleton]

/-- The reply of `INIT` and `DEINIT` around others. -/
def framed (rs : List Reply) : List Reply := .single (text "OK") :: (rs ++ [.single (text "OK")])

/-- What the reference replies to a generated sequence, next to what a program that has stored
nothing does. -/
theorem replied_printed (hkey : 1 ≤ z.keysize) (hvalue : 1 ≤ z.valuesize) {num : Nat} {draws left : List Nat}
    (ran : generate z num draws = some (steps, left)) :
    ∃ rs, Replied (fileLines (printed z steps)) (framed rs) (framed (steps.map emptyReply)) ∧
      RefImpl.refOut (fun _ => false) .start (Lines.rawLines 10 (printed z steps)) =
        ((framed rs).map Reply.bytes).flatten ∧
      rs.length = (steps.map emptyReply).length ∧
      List.zipWith (fun r r' => decide (r ≠ r')) rs (steps.map emptyReply) = steps.map differs := by
  have follows := gives_genLoop hkey hvalue (num - 1) worded_empty.clean draws steps left ran
  have made := gives_turns hkey hvalue (num - 1) worded_empty draws steps left ran
  obtain ⟨replies, all, out⟩ := refOut_printed z follows
  obtain ⟨rs, rfl, differ, replied⟩ := replied_turns made worded_empty all
  have ok : text "OK\n" = (Reply.single (text "OK")).bytes := by decide
  have first : ¬ text "DISPLAY" <:+: initRequest z :=
    no_display (initRequest_free z (by decide) (by decide) (by decide))
  have last : Replied [text "DEINIT"] [.single (text "OK")] [.single (text "OK")] :=
    .single (by decide) singleReply_ok singleReply_ok (.done [])
  have whole := Replied.single first singleReply_ok singleReply_ok (replied last)
  rw [← fileLines_printed z follows] at whole
  refine ⟨rs, whole, ?_, ?_, differ⟩
  · rw [out, ok, framed, List.map_cons, List.map_append, List.flatten_cons, List.flatten_append]
    rfl
  · have lengths := all.length_eq
    rw [List.length_map] at lengths ⊢
    exact lengths.symm

/-- The comparison of the reference with a program that stores nothing counts the requests that
should succeed and the displays of something. -/
theorem compare_empty (hkey : 1 ≤ z.keysize) (hvalue : 1 ≤ z.valuesize) {num : Nat} {draws left : List Nat}
    (ran : generate z num draws = some (steps, left)) (maxerrs : Nat) :
    compare maxerrs (printed z steps)
        (RefImpl.refOut (fun _ => false) .start (Lines.rawLines 10 (printed z steps))) (emptyOutput steps) =
      some (counted maxerrs 0 0 (differing steps)) := by
  obtain ⟨rs, whole, out, same, differ⟩ := replied_printed hkey hvalue ran
  have ok : text "OK\n" = (Reply.single (text "OK")).bytes := by decide
  have errors : List.zipWith (fun r r' => decide (r ≠ r')) (framed rs) (framed (steps.map emptyReply)) =
      differing steps := by
    rw [framed, framed, List.zipWith_cons_cons, List.zipWith_append same, differ]
    rfl
  have output : emptyOutput steps = ((framed (steps.map emptyReply)).map Reply.bytes).flatten := by
    rw [emptyOutput, ok, framed, List.map_cons, List.map_append, List.map_map, List.flatten_cons,
      List.flatten_append]
    rfl
  rw [out, output, compare_replied maxerrs whole, ← whole.differ_bytes, errors]

/-- As long as nothing is stored, the first difference is an insertion. -/
theorem Made.differs_iff (made : Made [] s) : differs s = false ↔ s.2 = [] := by
  cases made with
  | insert succeeds first second there =>
      cases succeeds with
      | true => exact iff_of_false Bool.noConfusion (List.cons_ne_nil _ _)
      | false => cases there
  | update succeeds first second there =>
      cases succeeds with
      | true => cases there
      | false => exact iff_of_true rfl rfl
  | lookupNew first absent => exact iff_of_true rfl rfl
  | lookupExists first second found => cases found
  | display => exact iff_of_true rfl rfl

theorem none_differ_iff (made : MadeFrom [] steps) :
    (∀ s ∈ steps, differs s = false) ↔ ∀ s ∈ steps, s.2 = [] := by
  induction steps with
  | nil => exact iff_of_true (fun _ m => absurd m List.not_mem_nil) fun _ m => absurd m List.not_mem_nil
  | cons s steps ih =>
      obtain ⟨made, others⟩ := made
      rw [List.forall_mem_cons, List.forall_mem_cons, made.differs_iff]
      exact and_congr_right fun empty => ih (empty ▸ others)

/-- The turns in front of the first insertion, and the insertion. -/
theorem first_stored (made : MadeFrom [] steps) (stores : ∃ s ∈ steps, s.2 ≠ []) :
    ∃ before s after, steps = before ++ s :: after ∧ before = steps.takeWhile (fun s => s.2 = []) ∧
      MadeFrom [] before ∧ (∀ s ∈ before, s.2 = []) ∧ Made [] s ∧ s.2 ≠ [] := by
  induction steps with
  | nil => exact absurd stores (by simp)
  | cons s steps ih =>
      obtain ⟨first, others⟩ := made
      by_cases empty : s.2 = []
      · have later : ∃ s ∈ steps, s.2 ≠ [] := by
          obtain ⟨s', m, stored⟩ := stores
          rcases List.mem_cons.mp m with rfl | m
          · exact absurd empty stored
          · exact ⟨s', m, stored⟩
        obtain ⟨before, s', after, split, front, made', quiet, insertion⟩ := ih (empty ▸ others) later
        refine ⟨s :: before, s', after, by rw [split, List.cons_append], ?_, ⟨first, empty.symm ▸ made'⟩,
          List.forall_mem_cons.mpr ⟨empty, quiet⟩, insertion⟩
        rw [List.takeWhile_cons, if_pos (decide_eq_true empty), ← front]
      · refine ⟨[], s, steps, rfl, ?_, trivial, fun _ m => absurd m List.not_mem_nil, first, empty⟩
        rw [List.takeWhile_cons, if_neg (by simpa using empty)]

/-- The replies of the reference that do not differ. -/
theorem replies_same {rs : List Reply} {before after : List (Noted × Content)}
    (differ : List.zipWith (fun r r' => decide (r ≠ r')) rs ((before ++ after).map emptyReply) =
      (before ++ after).map differs) (same : ∀ s ∈ before, differs s = false) :
    ∃ rs', rs = before.map emptyReply ++ rs' := by
  induction before generalizing rs with
  | nil => exact ⟨rs, rfl⟩
  | cons s before ih =>
      obtain ⟨first, others⟩ := List.forall_mem_cons.mp same
      cases rs with
      | nil => cases differ
      | cons r rs =>
          obtain ⟨here, there⟩ := List.cons.inj differ
          obtain ⟨rs', rfl⟩ := ih there others
          have alike : r = emptyReply s := not_not.mp (of_decide_eq_false (here.trans first))
          exact ⟨rs', by rw [alike]; rfl⟩

/-- The comparison finds no error in what has been printed before the first insertion. -/
theorem compare_start (hkey : 1 ≤ z.keysize) (hvalue : 1 ≤ z.valuesize) {num : Nat} {draws left : List Nat}
    {maxerrs : Nat} (pos : 1 ≤ maxerrs) {before after : List (Noted × Content)}
    (ran : generate z num draws = some (before ++ after, left)) (same : ∀ s ∈ before, differs s = false) :
    compare maxerrs (printed z (before ++ after))
        (RefImpl.refOut (fun _ => false) .start (Lines.rawLines 10 (printed z (before ++ after))))
        (text "OK\n" ++ (before.map fun s => (emptyReply s).bytes).flatten) =
          some (0, before.length + 1) := by
  obtain ⟨rs, whole, out, -, differ⟩ := replied_printed hkey hvalue ran
  obtain ⟨rs', rfl⟩ := replies_same differ same
  let first : List Reply := .single (text "OK") :: before.map emptyReply
  have split : framed (before.map emptyReply ++ rs') = first ++ (rs' ++ [.single (text "OK")]) := by
    rw [framed, List.append_assoc]
    rfl
  have output : text "OK\n" ++ (before.map fun s => (emptyReply s).bytes).flatten =
      (first.map Reply.bytes).flatten := by
    have ok : text "OK\n" = (Reply.single (text "OK")).bytes := by decide
    rw [ok, List.map_cons, List.map_map, List.flatten_cons]
    rfl
  rw [split] at whole out
  have lined := whole.lined
  have passed := compareFrom_start pos whole 0
  rw [Compare.compare, out, output, fileLines_replies lined,
    fileLines_replies fun r m => lined r (List.mem_append_left _ m), passed, List.length_cons,
      List.length_map,
    Nat.zero_add]

/-- No error is counted just in case nothing is ever stored. -/
theorem counted_none_iff (made : MadeFrom [] steps) {maxerrs : Nat} (pos : 1 ≤ maxerrs) :
    (counted maxerrs 0 0 (differing steps)).1 = 0 ↔ ∀ s ∈ steps, s.2 = [] := by
  have sound : (differing steps).count true = 0 ↔ ∀ s ∈ steps, differs s = false := by
    rw [List.count_eq_zero, differing]
    simp only [List.mem_cons, List.mem_append, List.mem_map, List.not_mem_nil, or_false, Bool.true_eq_false,
      false_or, not_exists, not_and, Bool.not_eq_true]
  rw [← none_differ_iff made, ← sound, counted_errors (Nat.zero_le _), Nat.zero_add]
  omega

end Generator
end BTreeLab
