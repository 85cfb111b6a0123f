import EECS339.Compare

/-!
# What a passed comparison says

A comparison without errors finds the replies of the reference at the start of the
output under test when that output has a line for every request and its displays are
complete, well formed and in the order of the keys. Where the comparison understands
the replies of the reference it finds them only then.
-/
namespace BTreeLab
namespace Compare
open Tokens
open RefImpl (get put matchLine splitRest displayLines refLine refLineBug refOut)

variable {p : Line × Line} {line v : Line} {content : Content} {pairs : List (Line × Line)}

/-! ## What the reference stores -/

/-- The request that the reference takes a line for. -/
def request (groups : Line × Line) (line : Line) : Action := Action.ofWord (matchLine groups line).1

theorem not_newline (token : IsToken isSpace v) : (10 : ByteT) ∉ v :=
  not_mem_of_all token.2 (by decide)

/-- What is stored fits on a line. -/
def OnLines (content : Content) : Prop := ∀ e ∈ content, 10 ∉ e.1 ∧ 10 ∉ e.2.getD []

/-- The reply to a request other than `DISPLAY`. -/
structure SingleReply (l : Line) : Prop where
  line : 10 ∉ l
  noPair : l.head? ≠ some 40

theorem singleReply_ok : SingleReply (text "OK") := ⟨by decide, by decide⟩

theorem singleReply_fail : SingleReply (text "FAIL") := ⟨by decide, by decide⟩

theorem singleReply_value (line : 10 ∉ v) : SingleReply (text "OK " ++ v) := by
  have parts : text "OK " = [79, 75, 32] := by decide
  rw [parts]
  refine ⟨fun m => ?_, by simp⟩
  rcases List.mem_append.mp m with m | m
  · exact absurd m (by decide)
  · exact line m

variable {bug : Nat → Bool} {cmd : Line} {cmds tests : List Line} {b : Bool} {groups : Line × Line}

/-- What a request other than `DISPLAY` leaves, with the pairs as they have to be. -/
def Next (P : Content → Prop) (groups : Line × Line) (cmd : Line) (s : RefImpl) : Prop :=
  (request groups cmd = .deinit ∧ s = .stopped) ∨
    (request groups cmd ≠ .deinit ∧ ∃ content, s = .running content (matchLine groups cmd) ∧ P content)

/-- A reply to a request that is not the last. -/
theorem reply_running {P : Content → Prop} {now : Line × Line} {action : Action} {l : Line}
    (other : action ≠ .deinit) (single : SingleReply l) (h : P content) :
    ∃ l' s, (l ++ [10], RefImpl.running content now) = (l' ++ [10], s) ∧ SingleReply l' ∧
      ((action = .deinit ∧ s = .stopped) ∨
        (action ≠ .deinit ∧ ∃ content, s = .running content now ∧ P content)) :=
  ⟨l, _, rfl, single, Or.inr ⟨other, content, rfl, h⟩⟩

/-- The pairs stay as they have to be if removing some and storing the new one keep them so. -/
theorem reply_keeps {P : Content → Prop} (lines : OnLines content) (h : P content)
    (removed : ∀ keep : Line × Option Line → Bool, P (content.filter keep))
    (stored : request groups cmd = .insert ∨ request groups cmd = .update →
      ∀ key value, splitRest (matchLine groups cmd).2 = (key, value) → P (put content key value))
    (other : request groups cmd ≠ .display) :
    ∃ l s, refLineBug b (.running content groups) cmd = (l ++ [10], s) ∧ SingleReply l ∧
      Next P groups cmd s := by
  have ok : text "OK\n" = text "OK" ++ [10] := by decide
  have fail : text "FAIL\n" = text "FAIL" ++ [10] := by decide
  unfold request at stored other
  unfold Next request refLineBug refLine
  simp only [ok, fail, text_newline]
  generalize matchLine groups cmd = now at stored other ⊢
  rcases hsplit : splitRest now.2 with ⟨key, given⟩
  simp only
  generalize Action.ofWord now.1 = action at stored other ⊢
  by_cases bug : b = true ∧ RefImpl.Buggy action
  · rw [if_pos bug]
    refine reply_running ?_ singleReply_fail h
    rintro rfl
    exact absurd bug.2 (by decide)
  · rw [if_neg bug]
    cases action with
    | insert =>
        by_cases defined : (get content key).isSome = true
        · simp only [if_pos defined]
          exact reply_running (by decide) singleReply_fail h
        · simp only [if_neg defined]
          exact reply_running (by decide) singleReply_ok (stored (Or.inl rfl) key given hsplit)
    | update =>
        by_cases undefined : (get content key).isNone = true
        · simp only [if_pos undefined]
          exact reply_running (by decide) singleReply_fail h
        · simp only [if_neg undefined]
          exact reply_running (by decide) singleReply_ok (stored (Or.inr rfl) key given hsplit)
    | delete =>
        by_cases undefined : (get content key).isNone = true
        · simp only [if_pos undefined]
          exact reply_running (by decide) singleReply_fail h
        · simp only [if_neg undefined]
          exact reply_running (by decide) singleReply_ok (removed _)
    | lookup =>
        cases found : get content key with
        | none => exact reply_running (by decide) singleReply_fail h
        | some v => exact reply_running (by decide) (singleReply_value (lines _ (get_mem found)).2) h
    | display => exact absurd rfl other
    | deinit => exact ⟨_, _, rfl, singleReply_ok, Or.inl ⟨rfl, rfl⟩⟩
    | init => exact reply_running (by decide) singleReply_fail h
    | unknown => exact reply_running (by decide) singleReply_fail h

theorem reply_display (display : request groups cmd = .display) :
    refLineBug b (.running content groups) cmd =
      (text "OK BEGIN DISPLAY\n" ++ displayLines content ++ text "OK END DISPLAY\n",
        .running content (matchLine groups cmd)) := by
  unfold request at display
  unfold refLineBug refLine
  simp only [display]
  exact if_neg fun bug => absurd bug.2 (by decide)

theorem pairLine_line (key : 10 ∉ p.1) (value : 10 ∉ p.2) : 10 ∉ pairLine p := by
  rw [pairLine_eq]
  intro m
  simp only [List.nil_append, List.mem_cons, List.mem_append, List.not_mem_nil, or_false] at m
  rcases m with m | m | m | m | m | m
  · exact absurd m (by decide)
  · exact key m
  · exact absurd m (by decide)
  · exact absurd m (by decide)
  · exact value m
  · exact absurd m (by decide)

theorem fileLines_line {l rest : List ByteT} (free : 10 ∉ l) :
    fileLines (l ++ 10 :: rest) = l :: fileLines rest := Lines.lines_line free

theorem fileLines_flatMap {ls : List Line} (free : ∀ l ∈ ls, 10 ∉ l) (rest : List ByteT) :
    fileLines ((ls.flatMap fun l => l ++ [10]) ++ rest) = ls ++ fileLines rest := by
  induction ls with
  | nil => rfl
  | cons l ls ih =>
      obtain ⟨first, others⟩ := List.forall_mem_cons.mp free
      rw [List.flatMap_cons, List.append_assoc, List.append_assoc, List.singleton_append,
        fileLines_line first, ih others]
      rfl

def beginDisplay : Line := text "OK BEGIN DISPLAY"

def endDisplay : Line := text "OK END DISPLAY"

theorem refOut_stopped (bug : Nat → Bool) (cmds : List Line) : refOut bug .stopped cmds = [] := by
  induction cmds generalizing bug with
  | nil => rfl
  | cons cmd cmds ih =>
      have none : refLineBug (bug 0) .stopped cmd = ([], .stopped) := rfl
      rw [refOut, none]
      exact ih _

variable {refs rs answers : List Line} {r test : Line}

variable {maxerrs numerr i j : Nat}

theorem shows_of_reads {block : List Line} (reads : List.Forall₂ Reads block pairs) :
    List.Forall₂ Shows pairs block := by
  have shows_ : List.Forall₂ (fun disp p => Shows p disp) block pairs := reads.imp fun _ _ h => h.2
  exact shows_.flip

theorem shows_inner {block : List Line} (shows_ : List.Forall₂ Shows pairs block) :
    ∀ disp ∈ block, ¬ text "END DISPLAY" <:+: disp := by
  induction shows_ with
  | nil => exact fun disp m => absurd m List.not_mem_nil
  | cons first _ ih => exact List.forall_mem_cons.mpr ⟨shows_not_end first, ih⟩

/-- The first line is an `INIT` for the reference. -/
def IsInit (line : Line) : Prop := Action.ofWord (line.takeWhile fun b => !isSpace b) = .init

instance (line : Line) : Decidable (IsInit line) := inferInstanceAs (Decidable (_ = _))

def smallInput : List ByteT := text "INIT 1 1\nINSERT k v\nDISPLAY\nDEINIT\n"

/-- The output of the reference for the small input. -/
def smallRef : List ByteT := refOut (fun _ => false) .start (Lines.rawLines 10 smallInput)

end Compare
end BTreeLab
