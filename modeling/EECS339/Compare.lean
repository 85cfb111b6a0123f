import EECS339.Lib.Lines
import EECS339.RefImpl

/-!
# The comparison tool

`compare.pl` on the request file, the output of the reference and the output under
test. Files are taken line by line, without the newlines.
-/
namespace BTreeLab
open Tokens

def fileLines (bytes : List ByteT) : List Line := Lines.lines 10 bytes

namespace RefImpl

/-- The requests for which `Bug()` is asked. -/
def Buggy (a : Action) : Prop := a = .insert ∨ a = .update ∨ a = .delete ∨ a = .lookup

instance (a : Action) : Decidable (Buggy a) := inferInstanceAs (Decidable (_ ∨ _))

/-- A line with the answer of `Bug()`, which turns a success into a failure. -/
def refLineBug (bug : Bool) : RefImpl → Line → List ByteT × RefImpl
  | .running content groups, line =>
      if bug ∧ Buggy (Action.ofWord (matchLine groups line).1) then
        (text "FAIL\n", .running content (matchLine groups line))
      else refLine (.running content groups) line
  | s, line => refLine s line

/-- What is printed for the lines, with the answers that `Bug()` gives. -/
def refOut (bug : Nat → Bool) (s : RefImpl) : List Line → List ByteT
  | [] => []
  | line :: lines =>
      let (out, s) := refLineBug (bug 0) s line
      out ++ refOut (fun n => bug (n + 1)) s lines

end RefImpl

namespace Compare
open RefImpl (get put)

/-! ## Pairs -/

/-- The end of the pattern: `\)`. -/
def close (l : Line) : Option Unit := if l.head? = some 41 then some () else none

/-- `\s*(\S+)\)`. -/
def valuePart (l : Line) : Option Line := (word isSpace close (l.dropWhile isSpace)).map Prod.fst

/-- `\s*,\s*(\S+)\)`. -/
def keyPart (l : Line) : Option Line :=
  match l.dropWhile isSpace with
  | 44 :: l => valuePart l
  | _ => none

/-- The groups of `/\((\S+)\s*,\s*(\S+)\)/`. -/
def parsePair : Line → Option (Line × Line)
  | [] => none
  | b :: l =>
      match if b = 40 then word isSpace keyPart l else none with
      | some p => some p
      | none => parsePair l

/-! ## The comparison -/

/-- The hash that is filled, and `$1` and `$2` if a line has matched. -/
structure Display where
  content : Content
  groups : Option (Line × Line)

/-- The last match was `/DISPLAY/`, which has no groups. -/
def Display.start : Display := ⟨[], none⟩

/-- A line that does not match leaves `$1` and `$2` of the lines before. -/
def storeLine (d : Display) (disp : Line) : Display :=
  match (parsePair disp).or d.groups with
  | some (key, value) => ⟨put d.content key (some value), some (key, value)⟩
  | none => ⟨put d.content [] none, none⟩

/-- `none`: behind the end of the file the loop never ends. -/
def readDisplay (d : Display) : List Line → Option (Content × List Line)
  | [] => none
  | disp :: rest =>
      if text "END DISPLAY" <:+: disp then some (d.content, rest)
      else readDisplay (storeLine d disp) rest

/-- Whether the hashes differ in size, or in the value of a key of the first. -/
def sawerror (ref test : Content) : Bool :=
  ref.length ≠ test.length || ref.any fun e =>
    match get test e.1 with
    | none => true
    | some value => value ≠ e.2.getD []

/-- The main loop, with `numerr` errors in `i` operations so far. -/
def compareFrom (maxerrs numerr i : Nat) : List Line → List Line → List Line → Option (Nat × Nat)
  | cmd :: cmds, ref :: refs, test :: tests =>
      if numerr < maxerrs then
        if text "DISPLAY" <:+: cmd then do
          let (refcontent, refs) ← readDisplay .start refs
          let (testcontent, tests) ← readDisplay .start tests
          compareFrom maxerrs (numerr + (sawerror refcontent testcontent).toNat) (i + 1) cmds refs tests
        else compareFrom maxerrs (numerr + (decide (ref ≠ test)).toNat) (i + 1) cmds refs tests
      else some (numerr, i)
  | _, _, _ => some (numerr, i)

/-- The numbers of the summary. -/
def compare (maxerrs : Nat) (cmdin refout yourout : List ByteT) : Option (Nat × Nat) :=
  compareFrom maxerrs 0 0 (fileLines cmdin) (fileLines refout) (fileLines yourout)

/-! ## Lines that show a pair -/

/-- `(key,value)`, with white space around the comma. -/
def Shows (p : Line × Line) (line : Line) : Prop :=
  ∃ before behind, (∀ b ∈ before, isSpace b = true) ∧ (∀ b ∈ behind, isSpace b = true) ∧
    IsToken isSpace p.1 ∧ IsToken isSpace p.2 ∧
    line = 40 :: (p.1 ++ (before ++ 44 :: (behind ++ (p.2 ++ [41]))))

variable {p : Line × Line} {line l k v x y : Line}

theorem dropWhile_spaces {s : ByteT} (spaces : ∀ b ∈ x, isSpace b = true) (stop : isSpace s = false) :
    (x ++ s :: l).dropWhile isSpace = s :: l :=
  (takeWhile_append_stop l spaces stop).2

theorem token_cons (token : IsToken isSpace v) : ∃ b w, v = b :: w ∧ isSpace b = false := by
  obtain ⟨nonempty, all⟩ := token
  cases v with
  | nil => exact absurd rfl nonempty
  | cons b w => exact ⟨b, w, rfl, all b List.mem_cons_self⟩

/-- The nonspace characters at the start reach behind a token. -/
theorem token_reach (token : IsToken isSpace v) (rest : Line) :
    1 ≤ v.length ∧ v.length ≤ ((v ++ rest).takeWhile fun b => !isSpace b).length := by
  have all : ∀ b ∈ v, (!isSpace b) = true := fun b m => by simp [token.2 b m]
  refine ⟨List.length_pos_iff.mpr token.1, ?_⟩
  rw [List.takeWhile_append_of_pos all, List.length_append]
  exact Nat.le_add_right _ _

theorem valuePart_token (token : IsToken isSpace v) (spaces : ∀ b ∈ x, isSpace b = true) :
    valuePart (x ++ (v ++ [41])) = some v := by
  obtain ⟨b, w, rfl, start⟩ := token_cons token
  obtain ⟨pos, reach⟩ := token_reach token [41]
  have closes : close ((b :: w ++ [41]).drop (b :: w).length) = some () := by rw [List.drop_left]; rfl
  obtain ⟨m, u, ge, le, found, next⟩ := longest_of_match pos reach closes
  have all : ((b :: w ++ [41]).takeWhile fun c => !isSpace c).length ≤ (b :: w).length + 1 := by
    exact (List.takeWhile_prefix _).length_le.trans (by simp)
  have exact : m = (b :: w).length := by
    rcases Nat.lt_or_ge (b :: w).length m with more | fewer
    · rw [List.drop_eq_nil_of_le (by simp at more ⊢; omega)] at next
      cases next
    · omega
  subst exact
  rw [valuePart, List.cons_append, dropWhile_spaces spaces start, word, ← List.cons_append, found,
    List.take_left]
  rfl

theorem keyPart_comma {before behind : Line} (hbefore : ∀ b ∈ before, isSpace b = true)
    (hbehind : ∀ b ∈ behind, isSpace b = true) (token : IsToken isSpace v) :
    keyPart (before ++ 44 :: (behind ++ (v ++ [41]))) = some v := by
  rw [keyPart, dropWhile_spaces hbefore (by decide)]
  exact valuePart_token token hbehind

/-- A key with a continuation is found, or a longer one. -/
theorem parsePair_word (key : IsToken isSpace k) (next : keyPart l = some v) :
    ∃ m u, parsePair (40 :: (k ++ l)) = some ((k ++ l).take m, u) ∧ k.length ≤ m ∧
      m ≤ ((k ++ l).takeWhile fun b => !isSpace b).length ∧ keyPart ((k ++ l).drop m) = some u := by
  obtain ⟨pos, reach⟩ := token_reach key l
  have follows : keyPart ((k ++ l).drop k.length) = some v := by rw [List.drop_left]; exact next
  obtain ⟨m, u, ge, le, found, rest⟩ := longest_of_match pos reach follows
  refine ⟨m, u, ?_, ge, le, rest⟩
  rw [parsePair, if_pos rfl, word, found]

/-- A value that starts with a comma and goes on can be taken for a part of the key. -/
def CommaLed (v : Line) : Prop := ∃ b rest, v = 44 :: b :: rest

def PlainPair (p : Line × Line) : Prop :=
  IsToken isSpace p.1 ∧ IsToken isSpace p.2 ∧ ¬ CommaLed p.2

/-- How the reference displays a pair. -/
def pairLine (p : Line × Line) : Line := text "(" ++ p.1 ++ text ", " ++ p.2 ++ text ")"

theorem pairLine_eq (p : Line × Line) :
    pairLine p = 40 :: (p.1 ++ ([] ++ 44 :: ([32] ++ (p.2 ++ [41])))) := by
  have parts : text "(" = [40] ∧ text ", " = [44, 32] ∧ text ")" = [41] := by decide
  simp only [pairLine, parts, List.append_assoc, List.nil_append, List.cons_append]

theorem shows_pairLine (h : PlainPair p) : Shows p (pairLine p) :=
  ⟨[], [32], by simp, by decide, h.1, h.2.1, pairLine_eq p⟩

/-- What the tool reads is what the line shows. -/
def Reads (line : Line) (p : Line × Line) : Prop := parsePair line = some p ∧ Shows p line

theorem keyPart_value (value : IsToken isSpace v) (plain : ¬ CommaLed v) :
    keyPart (32 :: (v ++ [41])) = none := by
  obtain ⟨b, w, rfl, start⟩ := token_cons value
  have skipped := dropWhile_spaces (x := [32]) (l := w ++ [41]) (by decide) start
  rw [List.singleton_append] at skipped
  rw [keyPart, List.cons_append, skipped]
  split
  · rename_i rest same
    obtain ⟨rfl, rfl⟩ := List.cons.inj same
    cases w with
    | nil => decide
    | cons c w => exact absurd ⟨c, w, rfl⟩ plain
  · rfl

theorem reads_pairLine (h : PlainPair p) : Reads (pairLine p) p := by
  refine ⟨?_, shows_pairLine h⟩
  obtain ⟨key, value, plain⟩ := h
  have comma : keyPart ([] ++ 44 :: ([32] ++ (p.2 ++ [41]))) = some p.2 :=
    keyPart_comma (by simp) (by decide) value
  obtain ⟨m, u, found, ge, le, next⟩ := parsePair_word key comma
  rw [List.nil_append, List.singleton_append] at *
  have split : p.1 ++ 44 :: 32 :: (p.2 ++ [41]) = (p.1 ++ [44]) ++ 32 :: (p.2 ++ [41]) := by simp
  have all : ∀ b ∈ p.1 ++ [44], (!isSpace b) = true := by
    intro b mem
    rcases List.mem_append.mp mem with mem | mem
    · simp [key.2 b mem]
    · rw [List.mem_singleton.mp mem]
      decide
  rw [split, (takeWhile_append_stop _ all (by decide)).1, List.length_append,
    List.length_singleton] at le
  have exact : m = p.1.length := by
    rcases Nat.lt_or_ge p.1.length m with more | fewer
    · have last : m = (p.1 ++ [44]).length := by
        rw [List.length_append, List.length_singleton]
        omega
      rw [split, last, List.drop_left, keyPart_value value plain] at next
      cases next
    · omega
  subst exact
  rw [List.drop_left, comma] at next
  cases next
  rw [pairLine_eq, List.nil_append, List.singleton_append, found, List.take_left]

/-! ## Where a display ends -/

/-- A part without `s` lies in front of an occurrence of `s`. -/
theorem skip_part {s : ByteT} {u w : Line} (free : s ∉ u) (same : x ++ s :: y = u ++ w) :
    ∃ x', x = u ++ x' ∧ x' ++ s :: y = w := by
  rcases List.append_eq_append_iff.mp same with ⟨c, whole, rest⟩ | ⟨c, whole, rest⟩
  · cases c with
    | nil => exact ⟨[], by simpa using whole.symm, by simpa using rest⟩
    | cons b c =>
        obtain ⟨rfl, rest⟩ := List.cons.inj rest
        exact absurd (whole ▸ List.mem_append_right x List.mem_cons_self) free
  · exact ⟨c, whole, rest.symm⟩

theorem endDisplay_eq (h : text "END DISPLAY" <:+: line) :
    ∃ x y, (x ++ [68]) ++ 32 :: 68 :: y = line := by
  obtain ⟨x, y, rfl⟩ := h
  have parts : text "END DISPLAY" = [69, 78] ++ ([68] ++ 32 :: 68 :: text "ISPLAY") := by decide
  exact ⟨x ++ [69, 78], text "ISPLAY" ++ y, by rw [parts]; simp⟩

/-- The white space of a line that shows a pair follows the key or a comma. -/
theorem shows_not_end (h : Shows p line) : ¬ text "END DISPLAY" <:+: line := by
  intro found
  obtain ⟨before, behind, hbefore, hbehind, key, value, rfl⟩ := h
  obtain ⟨x, y, same⟩ := endDisplay_eq found
  have space : isSpace 32 ≠ false := by decide
  have letter : isSpace 68 ≠ true := by decide
  have noSpace : (32 : ByteT) ∉ 40 :: p.1 := by
    rw [List.mem_cons, not_or]
    exact ⟨by decide, not_mem_of_all key.2 space⟩
  rw [← List.cons_append] at same
  obtain ⟨x1, hx, same⟩ := skip_part noSpace same
  rcases List.eq_nil_or_concat' x1 with rfl | ⟨x2, d, rfl⟩
  · -- The space would follow the key, with a letter behind it.
    cases before with
    | nil => cases same
    | cons b before =>
        obtain ⟨-, same⟩ := List.cons.inj same
        cases before with
        | nil => cases same
        | cons c before =>
            obtain ⟨rfl, -⟩ := List.cons.inj same
            exact not_mem_of_all hbefore letter (by simp)
  · -- It would follow a letter behind the white space in front of the comma.
    rw [← List.append_assoc] at hx
    obtain ⟨-, last⟩ := List.append_inj' hx rfl
    cases last
    rw [List.append_assoc, List.singleton_append] at same
    obtain ⟨x3, rfl, comma⟩ := skip_part (not_mem_of_all hbefore letter) same
    cases x3 with
    | nil => cases comma
    | cons c x3 =>
        obtain ⟨-, after⟩ := List.cons.inj comma
        obtain ⟨x4, rfl, tail⟩ := skip_part (not_mem_of_all hbehind letter) after
        have inside : (32 : ByteT) ∈ p.2 ++ [41] := by rw [← tail]; simp
        rcases List.mem_append.mp inside with m | m
        · exact not_mem_of_all value.2 space m
        · exact absurd (List.mem_singleton.mp m) (by decide)

/-! ## One display -/

variable {block rest : List Line} {content : Content} {d : Display} {pairs shown : List (Line × Line)}

theorem readDisplay_block (inner : ∀ disp ∈ block, ¬ text "END DISPLAY" <:+: disp) {last : Line}
    (ends : text "END DISPLAY" <:+: last) :
    readDisplay d (block ++ last :: rest) = some ((block.foldl storeLine d).content, rest) := by
  induction block generalizing d with
  | nil => rw [List.nil_append, readDisplay, if_pos ends, List.foldl_nil]
  | cons disp block ih =>
      obtain ⟨first, others⟩ := List.forall_mem_cons.mp inner
      rw [List.cons_append, readDisplay, if_neg first, ih others, List.foldl_cons]

theorem mem_put {key : Line} {value : Option Line} {e : Line × Option Line}
    (m : e ∈ put content key value) : e = (key, value) ∨ e ∈ content := by
  rcases List.mem_cons.mp m with same | m
  · exact Or.inl same
  · exact Or.inr (List.mem_of_mem_filter m)

theorem get_mem {key value : Line} (found : get content key = some value) :
    (key, some value) ∈ content := by
  obtain ⟨before, behind, split, -⟩ := List.lookup_eq_some_iff.mp (Option.join_eq_some_iff.mp found)
  rw [split]
  exact List.mem_append_right before List.mem_cons_self

/-- All pairs that are stored or could be stored again are in `S`. -/
def Display.Within (S : Line × Line → Prop) (d : Display) : Prop :=
  (∀ key value, (key, some value) ∈ d.content → S (key, value)) ∧ ∀ q, d.groups = some q → S q

theorem storeLine_within {S : Line × Line → Prop} (h : d.Within S) {disp : Line}
    (parsed : ∀ q, parsePair disp = some q → S q) : (storeLine d disp).Within S := by
  unfold storeLine
  cases groups : (parsePair disp).or d.groups with
  | none =>
      refine ⟨fun key value m => ?_, fun q same => by cases same⟩
      rcases mem_put m with same | m
      · cases same
      · exact h.1 key value m
  | some q =>
      have inside : S q := by
        rcases Option.or_eq_some_iff.mp groups with found | ⟨-, kept⟩
        · exact parsed q found
        · exact h.2 q kept
      refine ⟨fun key value m => ?_, fun q' same => by cases same; exact inside⟩
      rcases mem_put m with same | m
      · cases same
        exact inside
      · exact h.1 key value m

theorem foldl_within {S : Line × Line → Prop} (h : d.Within S)
    (parsed : ∀ disp ∈ block, ∀ q, parsePair disp = some q → S q) :
    (block.foldl storeLine d).Within S := by
  induction block generalizing d with
  | nil => exact h
  | cons disp block ih =>
      obtain ⟨first, others⟩ := List.forall_mem_cons.mp parsed
      exact ih (storeLine_within h first) others

def Parses (disp : Line) (q : Line × Line) : Prop := parsePair disp = some q

def stored (pairs : List (Line × Line)) : Content := (pairs.map fun p => (p.1, some p.2)).reverse

/-- Lines with keys of their own add their pairs. -/
theorem foldl_parses (parses : List.Forall₂ Parses block pairs) (distinct : (pairs.map Prod.fst).Nodup)
    (new : ∀ e ∈ d.content, e.1 ∉ pairs.map Prod.fst) :
    (block.foldl storeLine d).content = stored pairs ++ d.content := by
  induction parses generalizing d with
  | nil => rfl
  | @cons disp q block pairs first _ ih =>
      rw [List.map_cons, List.nodup_cons] at distinct
      have kept : put d.content q.1 (some q.2) = (q.1, some q.2) :: d.content := by
        rw [put, List.filter_eq_self.mpr]
        refine fun e m => decide_eq_true fun same => new e m ?_
        rw [same]
        exact List.mem_cons_self
      have step : storeLine d disp = ⟨(q.1, some q.2) :: d.content, some q⟩ := by
        rw [storeLine, first, Option.some_or]
        exact congrArg (Display.mk · (some q)) kept
      rw [List.foldl_cons, step, ih distinct.2 ?_, stored, stored, List.map_cons, List.reverse_cons,
        List.append_assoc]
      · rfl
      · intro e m
        rcases List.mem_cons.mp m with rfl | m
        · exact distinct.1
        · exact fun inner => new e m (List.mem_cons_of_mem _ inner)

/-- The hash behind the lines of a display. -/
def displayed (block : List Line) : Content := (block.foldl storeLine .start).content

theorem displayed_parses (parses : List.Forall₂ Parses block pairs)
    (distinct : (pairs.map Prod.fst).Nodup) : displayed block = stored pairs := by
  rw [displayed, foldl_parses parses distinct (fun e m => by cases m)]
  exact List.append_nil _

theorem displayed_get {key value : Line} (found : get (displayed block) key = some value) :
    ∃ disp ∈ block, parsePair disp = some (key, value) := by
  have start : Display.start.Within fun q => ∃ disp ∈ block, parsePair disp = some q :=
    ⟨fun key value m => (List.not_mem_nil m).elim, fun q same => by cases same⟩
  exact (foldl_within start fun disp m q parsed => ⟨disp, m, parsed⟩).1 key value (get_mem found)

theorem sawerror_false {ref test : Content} (none : sawerror ref test = false) :
    ref.length = test.length ∧ ∀ e ∈ ref, ∃ value, get test e.1 = some value ∧ value = e.2.getD [] := by
  simp only [sawerror, Bool.or_eq_false_iff, decide_eq_false_iff_not, ne_eq, not_not] at none
  refine ⟨none.1, ?_⟩
  intro e m
  have fine := List.any_eq_false.mp none.2 e m
  cases found : get test e.1 with
  | none => simp [found] at fine
  | some value => exact ⟨value, rfl, by simpa [found] using fine⟩

/-- Keys in strictly increasing order. -/
def Increasing (pairs : List (Line × Line)) : Prop := (pairs.map Prod.fst).Pairwise (· < ·)

theorem Increasing.nodup (h : Increasing pairs) : (pairs.map Prod.fst).Nodup :=
  h.imp fun lt => ne_of_lt lt

theorem Increasing.eq (h : Increasing pairs) (h' : Increasing shown) (perm : pairs.Perm shown) :
    pairs = shown := by
  refine List.Perm.eq_of_pairwise ?_ (List.pairwise_map.mp h) (List.pairwise_map.mp h') perm
  exact fun a b _ _ lt gt => absurd (lt.trans gt) (lt_irrefl _)

theorem parses_of_reads (reads : List.Forall₂ Reads block pairs) : List.Forall₂ Parses block pairs :=
  reads.imp fun _ _ h => h.1

/-- Where no error is seen every pair of the reference is parsed from some line. -/
theorem parsed_of_noerror {ref : List Line} (reads : List.Forall₂ Reads ref pairs)
    (increasing : Increasing pairs) (none : sawerror (displayed ref) (displayed block) = false) :
    ∀ p ∈ pairs, ∃ disp ∈ block, parsePair disp = some p := by
  intro p m
  rw [displayed_parses (parses_of_reads reads) increasing.nodup] at none
  obtain ⟨value, found, same⟩ := (sawerror_false none).2 (p.1, some p.2)
    (List.mem_reverse.mpr (List.mem_map_of_mem m))
  rw [Option.getD_some] at same
  rw [same] at found
  exact displayed_get found

theorem parsed_subset (parses : List.Forall₂ Parses block shown)
    (parsed : ∀ p ∈ pairs, ∃ disp ∈ block, parsePair disp = some p) : pairs ⊆ shown := by
  intro p m
  obtain ⟨disp, hdisp, found⟩ := parsed p m
  clear parsed m
  induction parses with
  | nil => cases hdisp
  | cons first _ ih =>
      rcases List.mem_cons.mp hdisp with rfl | hdisp
      · rw [Parses, found, Option.some.injEq] at first
        rw [first]
        exact List.mem_cons_self
      · exact List.mem_cons_of_mem _ (ih hdisp)

/-- The key of `q` is longer, or the pairs are the same. -/
def Extends (p q : Line × Line) : Prop :=
  p.1.length ≤ q.1.length ∧ (q.1.length = p.1.length → q = p)

theorem eq_of_noerror {ref : List Line} (reads : List.Forall₂ Reads ref pairs)
    (increasing : Increasing pairs) (reads' : List.Forall₂ Reads block shown)
    (increasing' : Increasing shown)
    (none : sawerror (displayed ref) (displayed block) = false) : pairs = shown := by
  have length := (sawerror_false none).1
  rw [displayed_parses (parses_of_reads reads) increasing.nodup,
    displayed_parses (parses_of_reads reads') increasing'.nodup, stored, stored, List.length_reverse,
    List.length_map, List.length_reverse, List.length_map] at length
  have subset := parsed_subset (parses_of_reads reads') (parsed_of_noerror reads increasing none)
  have subperm := List.subperm_of_subset (List.Nodup.of_map Prod.fst increasing.nodup) subset
  exact increasing.eq increasing' (subperm.perm_of_length_le length.ge)

end Compare
end BTreeLab
