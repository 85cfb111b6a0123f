import EECS339.CompareReplies

/-!
# What the comparison counts

Two outputs that reply to the same requests are compared reply by reply: the summary has the
number of different replies, up to the limit.
-/
namespace BTreeLab
namespace Compare
open Tokens
open RefImpl (get put matchLine splitRest displayLines refLineBug refOut)

variable {pairs pairs' : List (Line × Line)} {content : Content} {cmds : List Line} {cmd : Line}
  {groups : Line × Line}

/-! ## Plain requests -/

structure Clean (content : Content) : Prop where
  distinct : (content.map Prod.fst).Nodup
  plain : ∀ e ∈ content, ∃ v, e.2 = some v ∧ PlainPair (e.1, v)

/-- An `INSERT` or `UPDATE` brings a value that cannot be taken for a part of the key,
and the word `DISPLAY` is in no other request. -/
structure PlainRequest (groups : Line × Line) (line : Line) : Prop where
  value : request groups line = .insert ∨ request groups line = .update →
    ∃ v, (splitRest (matchLine groups line).2).2 = some v ∧ v ≠ [] ∧ ¬ CommaLed v
  display : text "DISPLAY" <:+: Lines.chomp 10 line ↔ request groups line = .display

theorem clean_put {key : Line} {value : Line} (h : Clean content) (plain : PlainPair (key, value)) :
    Clean (put content key (some value)) := by
  refine ⟨?_, fun e m => ?_⟩
  · rw [put, List.map_cons, List.nodup_cons]
    refine ⟨fun m => ?_, (List.filter_sublist.map Prod.fst).nodup h.distinct⟩
    obtain ⟨e, he, same⟩ := List.mem_map.mp m
    exact of_decide_eq_true (List.mem_filter.mp he).2 same
  · rcases mem_put m with rfl | m
    · exact ⟨value, rfl, plain⟩
    · exact h.plain e m

theorem clean_filter (h : Clean content) (keep : Line × Option Line → Bool) :
    Clean (content.filter keep) :=
  ⟨(List.filter_sublist.map Prod.fst).nodup h.distinct, fun e m => h.plain e (List.mem_of_mem_filter m)⟩

theorem splitRest_plain {line key : Line} {value : Option Line} {v : Line}
    (split : splitRest line = (key, value))
    (some_ : value = some v) (nonempty : v ≠ []) (plain : ¬ CommaLed v) : PlainPair (key, v) := by
  simp only [splitRest, Prod.mk.injEq] at split
  obtain ⟨rfl, split⟩ := split
  rw [some_] at split
  split_ifs at split with empty
  cases split
  exact ⟨token_isToken fun none => empty (token_nil none), token_isToken nonempty, plain⟩

/-- A display lists the pairs by increasing keys. -/
theorem clean_sorted (h : Clean content) : ∃ pairs : List (Line × Line),
    content.mergeSort (fun a b => a.1 ≤ b.1) = pairs.map (fun p => (p.1, some p.2)) ∧
      Increasing pairs ∧ ∀ p ∈ pairs, PlainPair p := by
  have perm := List.mergeSort_perm content fun a b => a.1 ≤ b.1
  have sorted : (content.mergeSort fun a b => a.1 ≤ b.1).Pairwise fun a b => decide (a.1 ≤ b.1) :=
    List.pairwise_mergeSort (fun a b c => by simpa using le_trans)
      (fun a b => by simpa using le_total a.1 b.1) content
  have nodup : ((content.mergeSort fun a b => a.1 ≤ b.1).map Prod.fst).Nodup :=
    (perm.map Prod.fst).nodup_iff.mpr h.distinct
  have plain : ∀ e ∈ content.mergeSort (fun a b => a.1 ≤ b.1), ∃ v, e.2 = some v ∧ PlainPair (e.1, v) :=
    fun e m => h.plain e (perm.mem_iff.mp m)
  generalize content.mergeSort (fun a b => a.1 ≤ b.1) = l at sorted nodup plain
  clear perm
  have strict : (l.map Prod.fst).Pairwise (· < ·) := by
    rw [List.pairwise_map] at *
    exact (sorted.and (List.pairwise_map.mp nodup)).imp fun h => lt_of_le_of_ne (by simpa using h.1) h.2
  refine ⟨l.map fun e => (e.1, e.2.getD []), ?_, ?_, ?_⟩
  · rw [List.map_map]
    refine (List.map_id l).symm.trans (List.map_congr_left fun e m => ?_)
    obtain ⟨v, hv, -⟩ := plain e m
    rw [Function.comp_apply, hv, Option.getD_some, ← hv]
    rfl
  · rw [Increasing, List.map_map]
    exact strict
  · intro p m
    obtain ⟨e, he, rfl⟩ := List.mem_map.mp m
    obtain ⟨v, hv, plain⟩ := plain e he
    rw [hv]
    exact plain

theorem displayLines_sorted
    (sorted : content.mergeSort (fun a b => a.1 ≤ b.1) = pairs.map fun p => (p.1, some p.2)) :
    displayLines content = pairs.flatMap fun p => pairLine p ++ [10] := by
  have behind : text ")\n" = text ")" ++ [10] := by decide
  rw [displayLines, sorted, List.flatMap_map]
  exact List.flatMap_congr fun p _ => by
    simp only [behind, Option.getD_some, pairLine, List.append_assoc]

theorem Clean.onLines (h : Clean content) : OnLines content := by
  intro e m
  obtain ⟨v, hv, plain⟩ := h.plain e m
  rw [hv]
  exact ⟨not_newline plain.1, not_newline plain.2.1⟩

theorem reply_plain {b : Bool} (h : Clean content) (plain : PlainRequest groups cmd)
    (other : request groups cmd ≠ .display) :
    ∃ l s, refLineBug b (.running content groups) cmd = (l ++ [10], s) ∧ SingleReply l ∧
      Next Clean groups cmd s := by
  refine reply_keeps h.onLines h (clean_filter h) (fun stores key value split => ?_) other
  obtain ⟨v, given, nonempty, free⟩ := plain.value stores
  rw [split] at given
  obtain rfl : value = some v := given
  exact clean_put h (splitRest_plain split rfl nonempty free)

/-- Every request up to `DEINIT` is plain. -/
def PlainRequests (groups : Line × Line) : List Line → Prop
  | [] => True
  | cmd :: cmds => PlainRequest groups cmd ∧
      (request groups cmd = .deinit ∨ PlainRequests (matchLine groups cmd) cmds)

def PlainFile : List Line → Prop
  | [] => True
  | first :: cmds => IsInit first →
      ¬ text "DISPLAY" <:+: Lines.chomp 10 first ∧ PlainRequests ([], []) cmds

theorem smallInput_plain : PlainFile (Lines.rawLines 10 smallInput) := by
  have lines : Lines.rawLines 10 smallInput =
      [text "INIT 1 1\n", text "INSERT k v\n", text "DISPLAY\n", text "DEINIT\n"] := by decide
  have plain : ¬ CommaLed (text "v") := by
    have letter : text "v" = [118] := by decide
    rw [letter]
    rintro ⟨b, rest, same⟩
    cases same
  rw [lines]
  refine fun _ => ⟨by decide, ⟨fun _ => ⟨text "v", by decide, by decide, plain⟩, by decide⟩,
    Or.inr ⟨⟨fun stores => ?_, by decide⟩, Or.inr ⟨⟨fun stores => ?_, by decide⟩, Or.inl (by decide)⟩⟩⟩
  · exact absurd stores (by decide)
  · exact absurd stores (by decide)

/-! ## The summary -/

/-- The main loop over the operations, of each of which it is known whether it is an error. -/
def counted (maxerrs numerr i : Nat) : List Bool → Nat × Nat
  | [] => (numerr, i)
  | error :: errors =>
      if numerr < maxerrs then counted maxerrs (numerr + error.toNat) (i + 1) errors else (numerr, i)

variable {maxerrs numerr i : Nat}

theorem counted_errors {errors : List Bool} (le : numerr ≤ maxerrs) :
    (counted maxerrs numerr i errors).1 = min maxerrs (numerr + errors.count true) := by
  induction errors generalizing numerr i with
  | nil => exact (min_eq_right le).symm
  | cons error errors ih =>
      rw [counted]
      by_cases more : numerr < maxerrs
      · have next : numerr + error.toNat ≤ maxerrs := by
          have := error.toNat_le
          omega
        rw [if_pos more, ih next, List.count_cons, Nat.add_assoc]
        cases error <;> simp [Nat.add_comm]
      · rw [if_neg more]
        have : numerr = maxerrs := by omega
        omega

/-! ## Replies -/

/-- The reply to a request: one line, or the pairs of a display. -/
inductive Reply where
  | single (l : Line)
  | display (pairs : List (Line × Line))
  deriving DecidableEq

namespace Reply

def lines : Reply → List Line
  | single l => [l]
  | display pairs => beginDisplay :: (pairs.map pairLine ++ [endDisplay])

def bytes (r : Reply) : List ByteT := r.lines.flatMap fun l => l ++ [10]

end Reply

/-- The requests and the replies to them in two outputs. -/
inductive Replied : List Line → List Reply → List Reply → Prop
  | done (cmds : List Line) : Replied cmds [] []
  | single {cmd l l' : Line} {cmds : List Line} {rs rs' : List Reply} (other : ¬ text "DISPLAY" <:+: cmd)
      (sound : SingleReply l) (sound' : SingleReply l') (rest : Replied cmds rs rs') :
      Replied (cmd :: cmds) (.single l :: rs) (.single l' :: rs')
  | display {cmd : Line} {pairs pairs' : List (Line × Line)} {cmds : List Line} {rs rs' : List Reply}
      (display : text "DISPLAY" <:+: cmd) (increasing : Increasing pairs) (increasing' : Increasing pairs')
      (plain : ∀ p ∈ pairs, PlainPair p) (plain' : ∀ p ∈ pairs', PlainPair p) (rest : Replied cmds rs rs') :
      Replied (cmd :: cmds) (.display pairs :: rs) (.display pairs' :: rs')

variable {rs rs' : List Reply}

theorem get_stored {key value : Line} (distinct : (pairs.map Prod.fst).Nodup) (m : (key, value) ∈ pairs) :
    get (stored pairs) key = some value := by
  have keys : ((stored pairs).map Prod.fst).Nodup := by
    rw [stored, List.map_reverse, List.map_map, List.nodup_reverse]
    exact distinct
  have inside : (key, some value) ∈ stored pairs :=
    List.mem_reverse.mpr (List.mem_map.mpr ⟨(key, value), m, rfl⟩)
  obtain ⟨before, behind, split⟩ := List.append_of_mem inside
  have first : ∀ e ∈ before, (key != e.1) = true := by
    intro e he
    rw [split, List.map_append, List.map_cons, List.nodup_append] at keys
    have apart := keys.2.2 e.1 (List.mem_map_of_mem he) key List.mem_cons_self
    exact bne_iff_ne.mpr apart.symm
  rw [RefImpl.get, split, List.lookup_append, List.lookup_eq_none_iff.mpr first, Option.none_or,
    List.lookup_cons_self]
  rfl

theorem sawerror_self (distinct : (pairs.map Prod.fst).Nodup) :
    sawerror (stored pairs) (stored pairs) = false := by
  simp only [sawerror, ne_eq, not_true, decide_false, Bool.false_or]
  refine List.any_eq_false.mpr fun e m => ?_
  obtain ⟨p, hp, rfl⟩ := List.mem_map.mp (List.mem_reverse.mp m)
  simp [get_stored distinct hp]

theorem reads_pairs (plain : ∀ p ∈ pairs, PlainPair p) : List.Forall₂ Reads (pairs.map pairLine) pairs := by
  rw [List.forall₂_map_left_iff]
  exact List.forall₂_same.mpr fun p m => reads_pairLine (plain p m)

/-- An error is seen just in case the displays differ. -/
theorem sawerror_displays (increasing : Increasing pairs) (increasing' : Increasing pairs')
    (plain : ∀ p ∈ pairs, PlainPair p) (plain' : ∀ p ∈ pairs', PlainPair p) :
    sawerror (displayed (pairs.map pairLine)) (displayed (pairs'.map pairLine)) =
      decide (pairs ≠ pairs') := by
  cases saw : sawerror (displayed (pairs.map pairLine)) (displayed (pairs'.map pairLine)) with
  | false =>
      have same := eq_of_noerror (reads_pairs plain) increasing (reads_pairs plain') increasing' saw
      exact (decide_eq_false (not_not.mpr same)).symm
  | true =>
      refine (decide_eq_true ?_).symm
      rintro rfl
      rw [displayed_parses (parses_of_reads (reads_pairs plain)) increasing.nodup,
        sawerror_self increasing.nodup] at saw
      cases saw

/-- The comparison of two outputs with replies to the same requests. -/
theorem compareFrom_replied (replied : Replied cmds rs rs') (numerr i : Nat) :
    compareFrom maxerrs numerr i cmds (rs.flatMap Reply.lines) (rs'.flatMap Reply.lines) =
      some (counted maxerrs numerr i (List.zipWith (fun r r' => decide (r ≠ r')) rs rs')) := by
  induction replied generalizing numerr i with
  | done cmds => cases cmds <;> rfl
  | single other sound sound' rest ih =>
      rw [List.flatMap_cons, List.flatMap_cons, List.zipWith_cons_cons, counted]
      simp only [Reply.lines, List.singleton_append]
      rw [compareFrom, if_neg other, ih]
      simp only [ne_eq, Reply.single.injEq]
      exact (apply_ite some _ _ _).symm
  | @display cmd pairs pairs' cmds rs rs' display increasing increasing' plain plain' rest ih =>
      have ends : text "END DISPLAY" <:+: endDisplay := by decide
      have inner := shows_inner (shows_of_reads (reads_pairs plain))
      have inner' := shows_inner (shows_of_reads (reads_pairs plain'))
      rw [List.flatMap_cons, List.flatMap_cons, List.zipWith_cons_cons, counted]
      simp only [Reply.lines, List.cons_append, List.append_assoc, List.nil_append]
      rw [compareFrom, if_pos display, readDisplay_block inner ends, readDisplay_block inner' ends]
      simp only [Option.bind_eq_bind, Option.bind_some]
      have saw := sawerror_displays increasing increasing' plain plain'
      rw [displayed, displayed] at saw
      rw [saw, ih]
      simp only [ne_eq, Reply.display.injEq]
      exact (apply_ite some _ _ _).symm

theorem compareFrom_end (maxerrs numerr i : Nat) (cmds refs : List Line) :
    compareFrom maxerrs numerr i cmds refs [] = some (numerr, i) := by
  cases cmds <;> cases refs <;> rfl

/-- An output that breaks off behind some replies passes if these are the same. -/
theorem compareFrom_start {first : List Reply} (pos : 1 ≤ maxerrs)
    (replied : Replied cmds (first ++ rs) rs') (i : Nat) :
    compareFrom maxerrs 0 i cmds ((first ++ rs).flatMap Reply.lines) (first.flatMap Reply.lines) =
      some (0, i + first.length) := by
  induction first generalizing cmds rs' i with
  | nil => exact compareFrom_end maxerrs 0 i cmds _
  | cons r first ih =>
      rw [List.cons_append, List.flatMap_cons, List.flatMap_cons, List.length_cons,
        Nat.add_comm first.length, ← Nat.add_assoc]
      cases replied with
      | single other sound sound' rest =>
          simp only [Reply.lines, List.singleton_append]
          rw [compareFrom, if_pos (Nat.lt_of_succ_le pos), if_neg other, ← ih rest]
          simp only [ne_eq, not_true, decide_false, Bool.toNat_false, Nat.add_zero]
      | display display increasing increasing' plain plain' rest =>
          have ends : text "END DISPLAY" <:+: endDisplay := by decide
          have inner := shows_inner (shows_of_reads (reads_pairs plain))
          simp only [Reply.lines, List.cons_append, List.append_assoc, List.nil_append]
          rw [compareFrom, if_pos (Nat.lt_of_succ_le pos), if_pos display,
            readDisplay_block inner ends, readDisplay_block inner ends]
          simp only [Option.bind_eq_bind, Option.bind_some]
          have saw := sawerror_displays increasing increasing plain plain
          rw [displayed, decide_eq_false (not_not.mpr rfl)] at saw
          rw [saw, ← ih rest, Bool.toNat_false, Nat.add_zero]

/-! ## Two runs of the reference -/

/-- What is printed for each line, up to the one that ends the run. -/
def outputs (bug : Nat → Bool) : RefImpl → List Line → List (List ByteT)
  | .stopped, _ => []
  | _, [] => []
  | s, line :: lines =>
      (refLineBug (bug 0) s line).1 :: outputs (fun n => bug (n + 1)) (refLineBug (bug 0) s line).2 lines

variable {bug bug' : Nat → Bool}

theorem outputs_stopped (bug : Nat → Bool) (cmds : List Line) : outputs bug .stopped cmds = [] := by
  cases cmds <;> rfl

theorem outputs_running : outputs bug (.running content groups) (cmd :: cmds) =
    (refLineBug (bug 0) (.running content groups) cmd).1 ::
      outputs (fun n => bug (n + 1)) (refLineBug (bug 0) (.running content groups) cmd).2 cmds := rfl

theorem refOut_outputs (bug : Nat → Bool) (s : RefImpl) (cmds : List Line) :
    refOut bug s cmds = (outputs bug s cmds).flatten := by
  induction cmds generalizing bug s with
  | nil => cases s <;> rfl
  | cons cmd cmds ih =>
      cases s with
      | stopped => rw [refOut_stopped]; rfl
      | start =>
          rw [refOut, outputs, List.flatten_cons, ← ih]
          intro stopped
          cases stopped
      | running content groups => rw [refOut, outputs_running, List.flatten_cons, ← ih]

/-- The lines of a reply are lines of the output. -/
def Reply.Lined (r : Reply) : Prop := ∀ l ∈ r.lines, 10 ∉ l

theorem lined_single {l : Line} (sound : SingleReply l) : (Reply.single l).Lined :=
  List.forall_mem_singleton.mpr sound.line

theorem lined_display (plain : ∀ p ∈ pairs, PlainPair p) : (Reply.display pairs).Lined := by
  intro l m
  rcases List.mem_cons.mp m with rfl | m
  · decide
  · rcases List.mem_append.mp m with m | m
    · obtain ⟨p, hp, rfl⟩ := List.mem_map.mp m
      exact pairLine_line (not_newline (plain p hp).1) (not_newline (plain p hp).2.1)
    · rw [List.mem_singleton.mp m]
      decide

theorem fileLines_joined {ls : List Line} (free : ∀ l ∈ ls, 10 ∉ l) :
    fileLines (ls.flatMap fun l => l ++ [10]) = ls := by
  rw [← List.append_nil (ls.flatMap fun l => l ++ [10]), fileLines_flatMap free]
  exact List.append_nil ls

theorem fileLines_replies {rs : List Reply} (lined : ∀ r ∈ rs, r.Lined) :
    fileLines (rs.map Reply.bytes).flatten = rs.flatMap Reply.lines := by
  have whole : (rs.map Reply.bytes).flatten = (rs.flatMap Reply.lines).flatMap fun l => l ++ [10] := by
    rw [← List.flatMap_def, List.flatMap_assoc]
    rfl
  rw [whole, fileLines_joined]
  intro l m
  obtain ⟨r, hr, m⟩ := List.mem_flatMap.mp m
  exact lined r hr l m

theorem bytes_lines {r r' : Reply} (lined : r.Lined) (lined' : r'.Lined) (same : r.bytes = r'.bytes) :
    r.lines = r'.lines := by
  rw [← fileLines_joined lined, ← fileLines_joined lined']
  exact congrArg fileLines same

theorem pairLines_inj (plain : ∀ p ∈ pairs, PlainPair p) (plain' : ∀ p ∈ pairs', PlainPair p)
    (same : pairs.map pairLine = pairs'.map pairLine) : pairs = pairs' := by
  have read : ∀ pairs : List (Line × Line), (∀ p ∈ pairs, PlainPair p) →
      (pairs.map pairLine).map parsePair = pairs.map some := by
    intro pairs plain
    rw [List.map_map]
    exact List.map_congr_left fun p m => (reads_pairLine (plain p m)).1
  have parsed := congrArg (List.map parsePair) same
  rw [read pairs plain, read pairs' plain'] at parsed
  exact List.map_injective_iff.mpr (Option.some_injective _) parsed

namespace Replied

theorem symm (h : Replied cmds rs rs') : Replied cmds rs' rs := by
  induction h with
  | done cmds => exact .done cmds
  | single other sound sound' rest ih => exact .single other sound' sound ih
  | display display increasing increasing' plain plain' rest ih =>
      exact .display display increasing' increasing plain' plain ih

theorem lined (h : Replied cmds rs rs') : ∀ r ∈ rs, r.Lined := by
  induction h with
  | done cmds => exact fun _ m => absurd m List.not_mem_nil
  | single other sound sound' rest ih => exact List.forall_mem_cons.mpr ⟨lined_single sound, ih⟩
  | display display increasing increasing' plain plain' rest ih =>
      exact List.forall_mem_cons.mpr ⟨lined_display plain, ih⟩

/-- Replies are the same where their texts are. -/
theorem differ_bytes (h : Replied cmds rs rs') : List.zipWith (fun r r' => decide (r ≠ r')) rs rs' =
    List.zipWith (fun a a' => decide (a ≠ a')) (rs.map Reply.bytes) (rs'.map Reply.bytes) := by
  induction h with
  | done cmds => rfl
  | @single cmd l l' cmds rs rs' other sound sound' rest ih =>
      have same : Reply.single l = .single l' ↔ (Reply.single l).bytes = (Reply.single l').bytes := by
        refine ⟨congrArg Reply.bytes, fun same => ?_⟩
        have lines := bytes_lines (lined_single sound) (lined_single sound') same
        rw [List.singleton_inj.mp lines]
      rw [List.zipWith_cons_cons, List.map_cons, List.map_cons, List.zipWith_cons_cons, ih]
      simp only [ne_eq, same]
  | @display cmd pairs pairs' cmds rs rs' display increasing increasing' plain plain' rest ih =>
      have same : Reply.display pairs = .display pairs' ↔
          (Reply.display pairs).bytes = (Reply.display pairs').bytes := by
        refine ⟨congrArg Reply.bytes, fun same => ?_⟩
        have lines := bytes_lines (lined_display plain) (lined_display plain') same
        rw [pairLines_inj plain plain' (List.append_cancel_right (List.cons.inj lines).2)]
      rw [List.zipWith_cons_cons, List.map_cons, List.map_cons, List.zipWith_cons_cons, ih]
      simp only [ne_eq, same]

end Replied

theorem bytes_single (l : Line) : (Reply.single l).bytes = l ++ [10] := List.flatMap_singleton ..

theorem bytes_display (pairs : List (Line × Line)) : (Reply.display pairs).bytes =
    text "OK BEGIN DISPLAY\n" ++ (pairs.flatMap fun p => pairLine p ++ [10]) ++ text "OK END DISPLAY\n" := by
  have first : text "OK BEGIN DISPLAY\n" = beginDisplay ++ [10] := by decide
  have last : text "OK END DISPLAY\n" = endDisplay ++ [10] := by decide
  rw [first, last, Reply.bytes, Reply.lines, List.flatMap_cons, List.flatMap_append, List.flatMap_map,
    List.flatMap_singleton, List.append_assoc (beginDisplay ++ [10])]

/-- Two runs over the same requests reply to the same ones, whatever each has stored. -/
theorem run_replied (bug bug' : Nat → Bool) {content' : Content} (clean : Clean content)
    (clean' : Clean content')
    (plain : PlainRequests groups cmds) :
    ∃ rs rs', Replied (cmds.map (Lines.chomp 10)) rs rs' ∧
      outputs bug (.running content groups) cmds = rs.map Reply.bytes ∧
      outputs bug' (.running content' groups) cmds = rs'.map Reply.bytes := by
  induction cmds generalizing content content' groups bug bug' with
  | nil => exact ⟨[], [], .done _, rfl, rfl⟩
  | cons cmd cmds ih =>
      obtain ⟨first, others⟩ := plain
      rw [outputs_running, outputs_running]
      by_cases display : request groups cmd = .display
      · obtain ⟨pairs, sorted, increasing, plain⟩ := clean_sorted clean
        obtain ⟨pairs', sorted', increasing', plain'⟩ := clean_sorted clean'
        have running : request groups cmd ≠ .deinit := by
          rw [display]
          decide
        obtain ⟨rs, rs', replied, out, out'⟩ := ih (fun n => bug (n + 1)) (fun n => bug' (n + 1))
          clean clean' (others.resolve_left running)
        refine ⟨.display pairs :: rs, .display pairs' :: rs',
          .display (first.display.mpr display) increasing increasing' plain plain' replied, ?_, ?_⟩
        · rw [reply_display display, out, List.map_cons, bytes_display, displayLines_sorted sorted]
        · rw [reply_display display, out', List.map_cons, bytes_display, displayLines_sorted sorted']
      · obtain ⟨l, s, reply, single, next⟩ := reply_plain (b := bug 0) clean first display
        obtain ⟨l', s', reply', single', next'⟩ := reply_plain (b := bug' 0) clean' first display
        have other := mt first.display.mp display
        rw [reply, reply', ← bytes_single, ← bytes_single]
        rcases next with ⟨deinit, rfl⟩ | ⟨running, stored, rfl, clean⟩
        · rcases next' with ⟨-, rfl⟩ | ⟨running', -⟩
          · exact ⟨[.single l], [.single l'], .single other single single' (.done _),
              by rw [outputs_stopped]; rfl, by rw [outputs_stopped]; rfl⟩
          · exact absurd deinit running'
        · rcases next' with ⟨deinit, -⟩ | ⟨-, stored', rfl, clean'⟩
          · exact absurd deinit running
          · obtain ⟨rs, rs', replied, out, out'⟩ := ih (fun n => bug (n + 1)) (fun n => bug' (n + 1))
              clean clean' (others.resolve_left running)
            exact ⟨.single l :: rs, .single l' :: rs', .single other single single' replied,
              by rw [out]; rfl, by rw [out']; rfl⟩

theorem compare_replied (maxerrs : Nat) {cmdin : List ByteT} (replied : Replied (fileLines cmdin) rs rs') :
    compare maxerrs cmdin (rs.map Reply.bytes).flatten (rs'.map Reply.bytes).flatten =
      some (counted maxerrs 0 0
        (List.zipWith (fun a a' => decide (a ≠ a')) (rs.map Reply.bytes) (rs'.map Reply.bytes))) := by
  rw [compare, fileLines_replies replied.lined, fileLines_replies replied.symm.lined,
    compareFrom_replied replied,
    replied.differ_bytes]

theorem outputs_start {first : Line} (initial : IsInit first) : outputs bug .start (first :: cmds) =
    (Reply.single (text "OK")).bytes :: outputs (fun n => bug (n + 1)) (.running [] ([], [])) cmds := by
  have ok : text "OK\n" = (Reply.single (text "OK")).bytes := by decide
  have reply : refLineBug (bug 0) .start first = (text "OK\n", .running [] ([], [])) := if_pos initial
  rw [outputs, reply, ok]
  exact nofun

/-- Of two outputs of the reference for a file of plain requests, with any bugs, the comparison
counts the requests that are answered differently. -/
theorem compare_counts (cmdin : List ByteT) (bug bug' : Nat → Bool) (maxerrs : Nat)
    (initial : ∀ first ∈ (Lines.rawLines 10 cmdin).head?, IsInit first)
    (plain : PlainFile (Lines.rawLines 10 cmdin)) :
    let file := Lines.rawLines 10 cmdin
    let differ := List.zipWith (fun a a' => decide (a ≠ a')) (outputs bug .start file)
      (outputs bug' .start file)
    compare maxerrs cmdin (refOut bug .start file) (refOut bug' .start file) =
        some (counted maxerrs 0 0 differ) ∧
      (counted maxerrs 0 0 differ).1 = min maxerrs (differ.count true) := by
  intro file differ
  refine ⟨?_, (counted_errors (Nat.zero_le _)).trans (by rw [Nat.zero_add])⟩
  have replied : ∃ rs rs', Replied (fileLines cmdin) rs rs' ∧ outputs bug .start file = rs.map Reply.bytes ∧
      outputs bug' .start file = rs'.map Reply.bytes := by
    rw [fileLines, Lines.lines]
    change ∃ rs rs', Replied (file.map (Lines.chomp 10)) rs rs' ∧ _
    change ∀ first ∈ file.head?, IsInit first at initial
    change PlainFile file at plain
    clear_value differ file
    cases file with
    | nil => exact ⟨[], [], .done _, rfl, rfl⟩
    | cons first cmds =>
        have initial := initial first rfl
        have empty : Clean [] := ⟨List.nodup_nil, fun e m => absurd m List.not_mem_nil⟩
        obtain ⟨other, plain⟩ := plain initial
        obtain ⟨rs, rs', replied, out, out'⟩ := run_replied (fun n => bug (n + 1))
          (fun n => bug' (n + 1)) empty empty plain
        refine ⟨_, _, .single other singleReply_ok singleReply_ok replied, ?_, ?_⟩
        · rw [outputs_start initial, out, List.map_cons]
        · rw [outputs_start initial, out', List.map_cons]
  obtain ⟨rs, rs', replied, out, out'⟩ := replied
  have summary := compare_replied maxerrs replied
  rw [← out, ← out', ← refOut_outputs, ← refOut_outputs] at summary
  exact summary

/-- The first insertion of the small input fails, so its display differs as well. -/
theorem compare_counts_small :
    compare 10 smallInput smallRef (refOut (fun n => decide (n = 1)) .start (Lines.rawLines 10 smallInput)) =
      some (2, 4) :=
  (compare_counts smallInput (fun _ => false) (fun n => decide (n = 1)) 10 (by decide)
    smallInput_plain).1.trans
    (by decide +kernel)

end Compare
end BTreeLab
