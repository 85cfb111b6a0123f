import EECS339.Compare

/-!
# Where the comparison never ends

Each loop over a display reads until it finds the end marker. Behind the end of a file a
read gives an undefined line, in which there is no marker.
-/
namespace BTreeLab
namespace Compare

/-- A display loop that may read `reads` times. -/
def displayWithin : Nat → Display → List Line → Option (Content × List Line)
  | 0, _, _ => none
  | reads + 1, d, lines =>
      let disp := lines.head?.getD []
      if text "END DISPLAY" <:+: disp then some (d.content, lines.tail)
      else displayWithin reads (storeLine d disp) lines.tail

/-- The main loop, where `read` stands for the display loops. -/
def compareBy (read : Display → List Line → Option (Content × List Line)) (maxerrs numerr i : Nat) :
    List Line → List Line → List Line → Option (Nat × Nat)
  | cmd :: cmds, ref :: refs, test :: tests =>
      if numerr < maxerrs then
        if text "DISPLAY" <:+: cmd then do
          let (refcontent, refs) ← read .start refs
          let (testcontent, tests) ← read .start tests
          compareBy read maxerrs (numerr + (sawerror refcontent testcontent).toNat) (i + 1) cmds refs tests
        else compareBy read maxerrs (numerr + (decide (ref ≠ test)).toNat) (i + 1) cmds refs tests
      else some (numerr, i)
  | _, _, _ => some (numerr, i)

theorem compareBy_readDisplay (maxerrs numerr i : Nat) (cmds refs tests : List Line) :
    compareBy readDisplay maxerrs numerr i cmds refs tests =
      compareFrom maxerrs numerr i cmds refs tests := by
  induction cmds generalizing numerr i refs tests with
  | nil => rfl
  | cons cmd cmds ih =>
      cases refs with
      | nil => rfl
      | cons ref refs =>
          cases tests with
          | nil => rfl
          | cons test tests => simp only [compareBy, compareFrom, ih]

/-- What the main loop finds when it comes to its condition. -/
structure Point where
  numerr : Nat
  i : Nat
  cmds : List Line
  refs : List Line
  tests : List Line

/-- From one turn of the main loop to the next. -/
inductive Turn (maxerrs : Nat) : Point → Point → Prop
  | single {numerr i : Nat} {cmd ref test : Line} {cmds refs tests : List Line} (more : numerr < maxerrs)
      (other : ¬ text "DISPLAY" <:+: cmd) :
      Turn maxerrs ⟨numerr, i, cmd :: cmds, ref :: refs, test :: tests⟩
        ⟨numerr + (decide (ref ≠ test)).toNat, i + 1, cmds, refs, tests⟩
  | display {numerr i : Nat} {cmd ref test : Line} {cmds refs tests refs' tests' : List Line}
      {refcontent testcontent : Content} (more : numerr < maxerrs) (display : text "DISPLAY" <:+: cmd)
      (ended : readDisplay .start refs = some (refcontent, refs'))
      (ended' : readDisplay .start tests = some (testcontent, tests')) :
      Turn maxerrs ⟨numerr, i, cmd :: cmds, ref :: refs, test :: tests⟩
        ⟨numerr + (sawerror refcontent testcontent).toNat, i + 1, cmds, refs', tests'⟩

/-- The end marker is still to come. -/
def Ends (lines : List Line) : Prop := ∃ disp ∈ lines, text "END DISPLAY" <:+: disp

/-- If a `DISPLAY` is next, both outputs have an end of a display ahead. -/
def Point.Closed (maxerrs : Nat) (p : Point) : Prop :=
  ∀ cmd cmds ref refs test tests, p.cmds = cmd :: cmds → p.refs = ref :: refs → p.tests = test :: tests →
    p.numerr < maxerrs → text "DISPLAY" <:+: cmd → Ends refs ∧ Ends tests

/-! ## One display -/

variable {d : Display} {lines rest cmds refs tests : List Line} {content : Content}
  {r : Content × List Line} {reads maxerrs numerr i : Nat} {summary : Nat × Nat}

theorem readDisplay_iff : (∃ r, readDisplay d lines = some r) ↔ Ends lines := by
  induction lines generalizing d with
  | nil =>
      refine iff_of_false (by simp [readDisplay]) ?_
      rintro ⟨disp, m, -⟩
      exact List.not_mem_nil m
  | cons disp lines ih =>
      rw [readDisplay]
      by_cases marked : text "END DISPLAY" <:+: disp
      · rw [if_pos marked]
        exact iff_of_true ⟨_, rfl⟩ ⟨disp, List.mem_cons_self, marked⟩
      · rw [if_neg marked, ih]
        constructor
        · rintro ⟨disp', m, ends⟩
          exact ⟨disp', List.mem_cons_of_mem _ m, ends⟩
        · rintro ⟨disp', m, ends⟩
          rcases List.mem_cons.mp m with rfl | m
          · exact absurd ends marked
          · exact ⟨disp', m, ends⟩

theorem readDisplay_shrinks (ended : readDisplay d lines = some (content, rest)) :
    rest.length ≤ lines.length := by
  induction lines generalizing d with
  | nil => cases ended
  | cons disp lines ih =>
      rw [readDisplay] at ended
      split_ifs at ended with marked
      · cases ended
        exact Nat.le_succ _
      · exact (ih ended).trans (Nat.le_succ _)

theorem displayWithin_cons {disp : Line} : displayWithin (reads + 1) d (disp :: lines) =
    if text "END DISPLAY" <:+: disp then some (d.content, lines)
    else displayWithin reads (storeLine d disp) lines := rfl

/-- As many reads as there are lines are enough if the loop ends at all. -/
theorem displayWithin_enough (ended : readDisplay d lines = some r) (enough : lines.length ≤ reads) :
    displayWithin reads d lines = some r := by
  induction lines generalizing d reads with
  | nil => cases ended
  | cons disp lines ih =>
      obtain ⟨reads, rfl⟩ := Nat.exists_eq_add_of_le' ((Nat.succ_pos lines.length).trans_le enough)
      rw [readDisplay] at ended
      rw [displayWithin_cons]
      by_cases marked : text "END DISPLAY" <:+: disp
      · rw [if_pos marked] at ended ⊢
        exact ended
      · rw [if_neg marked] at ended ⊢
        exact ih ended (Nat.le_of_succ_le_succ enough)

/-- Reads behind the end of the file do not help. -/
theorem readDisplay_of_within (ended : displayWithin reads d lines = some r) :
    readDisplay d lines = some r := by
  induction reads generalizing d lines with
  | zero => cases ended
  | succ reads ih =>
      cases lines with
      | nil =>
          have unmarked : ¬ text "END DISPLAY" <:+: ([] : Line) := by decide
          rw [displayWithin, List.head?_nil, Option.getD_none, if_neg unmarked] at ended
          cases ih ended
      | cons disp lines =>
          rw [displayWithin_cons] at ended
          rw [readDisplay]
          by_cases marked : text "END DISPLAY" <:+: disp
          · rw [if_pos marked] at ended ⊢
            exact ended
          · rw [if_neg marked] at ended ⊢
            exact ih ended

/-! ## The main loop -/

/-- Display loops that end with the same result, on lines of which `I` holds, make no
difference to the main loop. -/
theorem compareBy_mono {read read' : Display → List Line → Option (Content × List Line)}
    (I : List Line → Prop) (tail : ∀ l lines, I (l :: lines) → I lines)
    (same : ∀ lines r, I lines → read .start lines = some r → read' .start lines = some r ∧ I r.2)
    (hrefs : I refs) (htests : I tests)
    (ended : compareBy read maxerrs numerr i cmds refs tests = some summary) :
    compareBy read' maxerrs numerr i cmds refs tests = some summary := by
  induction cmds generalizing numerr i refs tests with
  | nil => exact ended
  | cons cmd cmds ih =>
      cases refs with
      | nil => exact ended
      | cons ref refs =>
          cases tests with
          | nil => exact ended
          | cons test tests =>
              have hrefs := tail ref refs hrefs
              have htests := tail test tests htests
              rw [compareBy] at ended ⊢
              by_cases more : numerr < maxerrs
              · rw [if_pos more] at ended ⊢
                by_cases display : text "DISPLAY" <:+: cmd
                · rw [if_pos display] at ended ⊢
                  obtain ⟨⟨refcontent, refs'⟩, readRef, ended⟩ := Option.bind_eq_some_iff.mp ended
                  obtain ⟨⟨testcontent, tests'⟩, readTest, ended⟩ := Option.bind_eq_some_iff.mp ended
                  obtain ⟨readRef, hrefs⟩ := same refs _ hrefs readRef
                  obtain ⟨readTest, htests⟩ := same tests _ htests readTest
                  refine Option.bind_eq_some_iff.mpr ⟨_, readRef, ?_⟩
                  exact Option.bind_eq_some_iff.mpr ⟨_, readTest, ih hrefs htests ended⟩
                · rw [if_neg display] at ended ⊢
                  exact ih hrefs htests ended
              · rw [if_neg more] at ended ⊢
                exact ended

theorem compareFrom_of_within
    (ended : compareBy (displayWithin reads) maxerrs numerr i cmds refs tests = some summary) :
    compareFrom maxerrs numerr i cmds refs tests = some summary := by
  rw [← compareBy_readDisplay]
  exact compareBy_mono (fun _ => True) (fun _ _ _ => trivial)
    (fun _ _ _ ran => ⟨readDisplay_of_within ran, trivial⟩) trivial trivial ended

theorem within_iff :
    (∃ reads summary, compareBy (displayWithin reads) maxerrs numerr i cmds refs tests = some summary) ↔
      ∃ summary, compareFrom maxerrs numerr i cmds refs tests = some summary := by
  constructor
  · rintro ⟨reads, summary, ended⟩
    exact ⟨summary, compareFrom_of_within ended⟩
  · rintro ⟨summary, ended⟩
    rw [← compareBy_readDisplay] at ended
    let reads := max refs.length tests.length
    refine ⟨reads, summary, compareBy_mono (fun lines => lines.length ≤ reads) ?_ ?_
      (le_max_left _ _) (le_max_right _ _) ended⟩
    · exact fun l lines fits => (Nat.le_succ _).trans fits
    · exact fun lines r fits ran => ⟨displayWithin_enough ran fits, (readDisplay_shrinks ran).trans fits⟩

/-- The loop has no further turn. -/
theorem Turn.closed_of_stop {p q : Point} (stop : ∀ q, ¬ Turn maxerrs p q)
    (closed : p.Closed maxerrs) (path : Relation.ReflTransGen (Turn maxerrs) p q) :
    q.Closed maxerrs := by
  rcases Relation.ReflTransGen.cases_head path with rfl | ⟨next, turn, -⟩
  · exact closed
  · exact absurd turn (stop next)

/-- If the first turn leads to `q`, only the turns from there are left. -/
theorem Turn.closed_iff {p q : Point} (turn : Turn maxerrs p q) (only : ∀ q', Turn maxerrs p q' → q' = q)
    (closed : p.Closed maxerrs) :
    (∀ r, Relation.ReflTransGen (Turn maxerrs) p r → r.Closed maxerrs) ↔
      ∀ r, Relation.ReflTransGen (Turn maxerrs) q r → r.Closed maxerrs := by
  constructor
  · exact fun all r path => all r (.head turn path)
  · intro all r path
    rcases Relation.ReflTransGen.cases_head path with rfl | ⟨next, turn', path⟩
    · exact closed
    · rw [only next turn'] at path
      exact all r path

/-- Every display that is compared is closed in both outputs. -/
def Closes (maxerrs : Nat) (p : Point) : Prop :=
  ∀ q, Relation.ReflTransGen (Turn maxerrs) p q → q.Closed maxerrs

theorem closes_of_end {p : Point}
    (done : p.cmds = [] ∨ p.refs = [] ∨ p.tests = [] ∨ ¬ p.numerr < maxerrs) : Closes maxerrs p := by
  intro q path
  refine Turn.closed_of_stop (p := p) ?_ ?_ path
  · intro q turn
    cases turn with
    | single more => simp [more] at done
    | display more => simp [more] at done
  · intro cmd cmds ref refs test tests hcmds hrefs htests more
    simp [hcmds, hrefs, htests, more] at done

/-- The turn over a display, with `cmds` behind it. -/
theorem display_iff {cmd ref test : Line} (more : numerr < maxerrs) (display : text "DISPLAY" <:+: cmd)
    (ih : ∀ {refs tests : List Line} {numerr i : Nat},
      (∃ summary, compareFrom maxerrs numerr i cmds refs tests = some summary) ↔
        Closes maxerrs ⟨numerr, i, cmds, refs, tests⟩) :
    (∃ summary, (do
      let (refcontent, refs) ← readDisplay .start refs
      let (testcontent, tests) ← readDisplay .start tests
      compareFrom maxerrs (numerr + (sawerror refcontent testcontent).toNat) (i + 1) cmds refs tests) =
        some summary) ↔ Closes maxerrs ⟨numerr, i, cmd :: cmds, ref :: refs, test :: tests⟩ := by
  by_cases ends : Ends refs ∧ Ends tests
  · obtain ⟨⟨refcontent, refs'⟩, hrefs⟩ := (readDisplay_iff (d := .start)).mpr ends.1
    obtain ⟨⟨testcontent, tests'⟩, htests⟩ := (readDisplay_iff (d := .start)).mpr ends.2
    simp only [hrefs, htests, Option.bind_eq_bind, Option.bind_some]
    rw [ih]
    refine (Turn.closed_iff (.display more display hrefs htests) ?_ ?_).symm
    · intro q turn
      cases turn with
      | single _ other => exact absurd display other
      | display _ _ hrefs' htests' =>
          rw [hrefs] at hrefs'
          rw [htests] at htests'
          cases hrefs'
          cases htests'
          rfl
    · intro cmd' cmds' ref' refs' test' tests' hcmds hrefs' htests' _ _
      cases hrefs'
      cases htests'
      exact ends
  · refine iff_of_false ?_ ?_
    · rintro ⟨summary, ended⟩
      obtain ⟨⟨refcontent, refs'⟩, hrefs, ended⟩ := Option.bind_eq_some_iff.mp ended
      obtain ⟨⟨testcontent, tests'⟩, htests, -⟩ := Option.bind_eq_some_iff.mp ended
      exact ends ⟨readDisplay_iff.mp ⟨_, hrefs⟩, readDisplay_iff.mp ⟨_, htests⟩⟩
    · intro closes
      exact ends (closes _ .refl _ _ _ _ _ _ rfl rfl rfl more display)

theorem compareFrom_iff : (∃ summary, compareFrom maxerrs numerr i cmds refs tests = some summary) ↔
    Closes maxerrs ⟨numerr, i, cmds, refs, tests⟩ := by
  induction cmds generalizing numerr i refs tests with
  | nil => exact iff_of_true ⟨_, rfl⟩ (closes_of_end (.inl rfl))
  | cons cmd cmds ih =>
      cases refs with
      | nil => exact iff_of_true ⟨_, rfl⟩ (closes_of_end (.inr (.inl rfl)))
      | cons ref refs =>
          cases tests with
          | nil => exact iff_of_true ⟨_, rfl⟩ (closes_of_end (.inr (.inr (.inl rfl))))
          | cons test tests =>
              rw [compareFrom]
              by_cases more : numerr < maxerrs
              · rw [if_pos more]
                by_cases display : text "DISPLAY" <:+: cmd
                · rw [if_pos display]
                  exact display_iff more display ih
                · rw [if_neg display, ih]
                  refine (Turn.closed_iff (.single more display) ?_ ?_).symm
                  · intro q turn
                    cases turn with
                    | single => rfl
                    | display _ display' => exact absurd display' display
                  · intro cmd' cmds' ref' refs' test' tests' hcmds _ _ _ display'
                    cases hcmds
                    exact absurd display' display
              · rw [if_neg more]
                exact iff_of_true ⟨_, rfl⟩ (closes_of_end (.inr (.inr (.inr more))))

/-! ## The tool -/

/-- The summary is reached with a bounded number of reads in each display loop. -/
def Terminates (maxerrs : Nat) (cmdin refout yourout : List ByteT) : Prop :=
  ∃ reads summary, compareBy (displayWithin reads) maxerrs 0 0 (fileLines cmdin) (fileLines refout)
    (fileLines yourout) = some summary

def Point.start (cmdin refout yourout : List ByteT) : Point :=
  ⟨0, 0, fileLines cmdin, fileLines refout, fileLines yourout⟩

/-- The tool comes to an end exactly if no output is cut off inside a display that it
compares. -/
theorem terminates_iff (maxerrs : Nat) (cmdin refout yourout : List ByteT) :
    Terminates maxerrs cmdin refout yourout ↔ Closes maxerrs (.start cmdin refout yourout) := by
  rw [Terminates, within_iff]
  exact compareFrom_iff

/-- The output under test stops behind the first line of the display. -/
theorem cut_display_never_ends : ¬ Terminates 10 (text "DISPLAY\n")
    (text "OK BEGIN DISPLAY\nOK END DISPLAY\n") (text "OK BEGIN DISPLAY\n") := by
  have endless : compareFrom 10 0 0 (fileLines (text "DISPLAY\n"))
      (fileLines (text "OK BEGIN DISPLAY\nOK END DISPLAY\n"))
      (fileLines (text "OK BEGIN DISPLAY\n")) = none := by decide +kernel
  rintro ⟨reads, summary, ended⟩
  rw [compareFrom_of_within ended] at endless
  cases endless

end Compare
end BTreeLab
