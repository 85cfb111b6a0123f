import EECS339.CacheErrors
import EECS339.Lookup
import EECS339.Formatting
import EECS339.Sim

/-!
# `sim` against the reference implementation

Nothing is ever inserted: after `INIT` the tree stays the empty root, lookups and
displays are answered as for an empty map, and the first `INSERT`, which the
reference accepts, ends the process or is refused.
-/
namespace BTreeLab
open Tokens BTreeIndex BufferCache

inductive Request where
  | insert (key value : List ByteT)
  | lookup (key : List ByteT)
  | display

namespace Request

def IsInsert : Request → Prop
  | .insert .. => True
  | _ => False

def op : Request → List ByteT
  | .insert .. => text "INSERT"
  | .lookup .. => text "LOOKUP"
  | .display => text "DISPLAY"

def arguments : Request → List ByteT
  | .insert key value => 32 :: key ++ 32 :: value
  | .lookup key => 32 :: key
  | .display => []

def line (r : Request) : Line := r.op ++ (r.arguments ++ endl)

end Request

def initLine (keysize valuesize : List ByteT) : Line :=
  text "INIT" ++ 32 :: (keysize ++ 32 :: (valuesize ++ endl))

namespace Sim

/-! ## The first word of a line -/

section Words

variable {op rest : List ByteT} {s : ByteT} {groups : Line × Line}

theorem parse_op (word : IsToken isSpace op) (plain : (0 : ByteT) ∉ op) (space : isSpace s = true) :
    (parse (op ++ s :: rest)).1 = op := by
  have nonzero : s ≠ 0 := by
    rintro rfl
    exact absurd space (by decide)
  have line2 : (op ++ s :: rest).takeWhile (fun b => b ≠ 0) =
      op ++ s :: rest.takeWhile (fun b => b ≠ 0) := by
    rw [List.takeWhile_append_of_pos]
    · rw [List.takeWhile_cons, decide_eq_true nonzero, if_pos rfl]
    · intro b m
      exact decide_eq_true fun zero => plain (zero ▸ m)
  simp only [parse, line2, token_append word space]

theorem matchLine_op (word : IsToken isSpace op) (space : isSpace s = true) :
    (RefImpl.matchLine groups (op ++ s :: rest)).1 = op := by
  obtain ⟨taken, dropped⟩ := takeWhile_append_stop rest (p := fun b => !isSpace b) (w := op) (s := s)
    (fun b m => by simp [word.2 b m]) (by simp [space])
  simp only [RefImpl.matchLine, taken, dropped, word.1, false_or, reduceCtorEq, if_false]

end Words

/-- Both programs find the word a request begins with. -/
theorem request_op (groups : Line × Line) (r : Request) :
    (parse r.line).1 = r.op ∧ (RefImpl.matchLine groups r.line).1 = r.op := by
  obtain ⟨word, plain⟩ : IsToken isSpace r.op ∧ (0 : ByteT) ∉ r.op := by
    cases r with
    | insert key value =>
        change IsToken isSpace (text "INSERT") ∧ (0 : ByteT) ∉ text "INSERT"
        exact ⟨.of_all (by decide) rfl, by decide⟩
    | lookup key =>
        change IsToken isSpace (text "LOOKUP") ∧ (0 : ByteT) ∉ text "LOOKUP"
        exact ⟨.of_all (by decide) rfl, by decide⟩
    | display =>
        change IsToken isSpace (text "DISPLAY") ∧ (0 : ByteT) ∉ text "DISPLAY"
        exact ⟨.of_all (by decide) rfl, by decide⟩
  obtain ⟨s, rest, space, line⟩ : ∃ s rest, isSpace s = true ∧ r.line = r.op ++ s :: rest := by
    cases r with
    | insert key value => exact ⟨32, _, rfl, rfl⟩
    | lookup key => exact ⟨32, _, rfl, rfl⟩
    | display => exact ⟨10, [], rfl, rfl⟩
  rw [line]
  exact ⟨parse_op word plain space, matchLine_op word space⟩

/-! ## An empty index -/

/-- The root has no keys, and no error code is the number of a block. -/
structure EmptyIndex (t : BTreeIndex) : Prop where
  valid : t.buffercache.Valid
  few : t.buffercache.disk.numblocks.toNat < 2 ^ 32 - 16
  root : ∃ b, t.buffercache.nodeAt t.superblock.info.rootnode = .ok b ∧ b.info.Interior ∧
    b.info.numkeys = 0

variable {t : BTreeIndex}

theorem EmptyIndex.keeps (h : EmptyIndex t) {c : BufferCache} (valid : c.Valid)
    (k : t.buffercache.Keeps c) (same : c.logical = t.buffercache.logical) :
    EmptyIndex { t with buffercache := c } := by
  refine ⟨valid, ?_, ?_⟩
  · rw [k.config]
    exact h.few
  · rw [nodeAt_congr k same]
    exact h.root

theorem lookup_empty (u : Memory) (fuel : Nat) (h : EmptyIndex t) (key : KeyT) :
    ∃ t', t.lookup u (fuel + 1) key = .ok (.nonexistent, none, t') ∧ EmptyIndex t' := by
  obtain ⟨b, holds, interior, zero⟩ := h.root
  obtain ⟨c', hlookup, h', k, same⟩ :=
    lookupInternal_empty u .lookup key fuel h.valid holds interior zero
  refine ⟨{ t with buffercache := c' }, ?_, h.keeps h' k same⟩
  simp only [lookup, hlookup, Runs.ok_bind, Runs.pure_eq_ok]

theorem display_empty (u : Memory) (fuel : Nat) (h : EmptyIndex t) :
    ∃ t', t.display u (fuel + 1) .sortedKeyval = .ok (.noError, [], t') ∧ EmptyIndex t' := by
  obtain ⟨b, holds, interior, zero⟩ := h.root
  obtain ⟨c1, hread, h1, k1, same1⟩ := unserialize_ok h.valid (BTreeNode.default u.info) holds
  refine ⟨{ t with buffercache := c1 }, ?_, h.keeps h1 k1 same1⟩
  have none : ¬ b.info.numkeys > 0 := by rw [zero]; exact lt_irrefl _
  simp only [display, displayInternal, hread, Runs.ok_bind, printNode, if_pos interior, if_neg none,
    ne_eq, not_true, if_false, if_true, reduceCtorEq, Runs.pure_eq_ok]

/-- The code `ERROR_NONEXISTENT` becomes a block number far past the end of the disk. -/
theorem insert_empty (u : Memory) (fuel : Nat) (h : EmptyIndex t) (key : KeyT) (value : ValueT) :
    (∃ t', t.insert u (fuel + 1) key value = .ok (.noSpace, t')) ∨
      t.insert u (fuel + 1) key value = .error .outOfBounds := by
  obtain ⟨t1, hlookup, h1⟩ := lookup_empty u fuel h key
  have few := h1.few
  have address : (BitVec.ofInt 32 ErrorT.nonexistent.code).toNat = 2 ^ 32 - 9 := by decide
  have outside : ¬ BitVec.ofInt 32 ErrorT.nonexistent.code < t1.buffercache.disk.numblocks := by
    rw [BitVec.lt_def, address]
    omega
  by_cases readable : t1.buffercache.disk.ReadableBit (BitVec.ofInt 32 ErrorT.nonexistent.code)
  · obtain ⟨c2, hread, -⟩ := readBlock_outside h1.valid outside (by decide) readable
    refine Or.inl ⟨{ t1 with buffercache := c2 }, ?_⟩
    simp only [BTreeIndex.insert, hlookup, Runs.ok_bind, BTreeNode.unserialize, hread, ne_eq, reduceCtorEq,
      not_false_eq_true, if_true, Runs.pure_eq_ok]
  · refine Or.inr ?_
    simp only [BTreeIndex.insert, hlookup, Runs.ok_bind, BTreeNode.unserialize,
      readBlock_killed h1.valid readable, Runs.error_bind]

/-! ## One request -/

/-- The reference has stored nothing and the index is empty. -/
def NothingStored (s : Sim) (ref : RefImpl) : Prop :=
  ∃ t groups, s = .index t ∧ EmptyIndex t ∧ ref = .running [] groups

/-- A request the empty index answers as the empty map does: no insertion, on a line
that fits the buffer. -/
def Answerable (r : Request) : Prop := ¬ r.IsInsert ∧ r.line.length < 1024

theorem fgets_short {line : Line} (short : line.length < 1024) : fgets line = .ok line := if_pos short

theorem displayLines_nil : RefImpl.displayLines [] = [] := by
  rw [RefImpl.displayLines, List.mergeSort_nil, List.flatMap_nil]

theorem answerable_same (u : Memory) (fuel : Nat) {s : Sim} {ref : RefImpl} (r : Request)
    (empty : NothingStored s ref) (ok : Answerable r) :
    ∃ s', simLine u (fuel + 1) s r.line = .ok ((RefImpl.refLine ref r.line).1, s') ∧
      NothingStored s' (RefImpl.refLine ref r.line).2 := by
  obtain ⟨t, groups, rfl, h, rfl⟩ := empty
  obtain ⟨simOp, refOp⟩ := request_op groups r
  cases r with
  | insert key value => exact absurd trivial ok.1
  | lookup key =>
      have action : Action.ofWord (Request.lookup key).op = .lookup := by
        change Action.ofWord (text "LOOKUP") = .lookup
        decide
      obtain ⟨t', hlookup, h'⟩ := lookup_empty u fuel h
        (Block.ofBytes (parse (Request.lookup key).line).2.1)
      refine ⟨.index t', ?_, t', RefImpl.matchLine groups (Request.lookup key).line, rfl, h', ?_⟩
      · simp only [simLine, fgets_short ok.2, Runs.ok_bind, simOp, action, getIndex, hlookup, ne_eq,
          reduceCtorEq, not_false_eq_true, if_true, Runs.pure_eq_ok, RefImpl.refLine, refOp,
          RefImpl.get, List.lookup_nil, Option.join_none]
      · simp only [RefImpl.refLine, refOp, action, RefImpl.get, List.lookup_nil, Option.join_none]
  | display =>
      have action : Action.ofWord Request.display.op = .display := by decide
      obtain ⟨t', hdisplay, h'⟩ := display_empty u fuel h
      refine ⟨.index t', ?_, t', RefImpl.matchLine groups Request.display.line, rfl, h', ?_⟩
      · simp only [simLine, fgets_short ok.2, Runs.ok_bind, simOp, action, getIndex, hdisplay,
          Runs.pure_eq_ok, RefImpl.refLine, refOp, displayLines_nil]
      · simp only [RefImpl.refLine, refOp, action]

theorem unanswerable_differ (u : Memory) (fuel : Nat) {s : Sim} {ref : RefImpl} (r : Request)
    (empty : NothingStored s ref) (bad : ¬ Answerable r) (s' : Sim) :
    simLine u (fuel + 1) s r.line ≠ .ok ((RefImpl.refLine ref r.line).1, s') := by
  obtain ⟨t, groups, rfl, h, rfl⟩ := empty
  obtain ⟨simOp, refOp⟩ := request_op groups r
  by_cases short : r.line.length < 1024
  · cases r with
    | insert key value =>
        have action : Action.ofWord (Request.insert key value).op = .insert := by
          change Action.ofWord (text "INSERT") = .insert
          decide
        rcases insert_empty u fuel h (Block.ofBytes (parse (Request.insert key value).line).2.1)
          (Block.ofBytes (parse (Request.insert key value).line).2.2) with ⟨t', hinsert⟩ | killed
        · simp only [simLine, fgets_short short, Runs.ok_bind, simOp, action, getIndex, hinsert,
            Runs.pure_eq_ok, RefImpl.refLine, refOp, RefImpl.get, List.lookup_nil, Option.join_none,
            Option.isSome_none, Bool.false_eq_true, if_false, ne_eq, Except.ok.injEq, Prod.mk.injEq,
            not_and]
          exact fun same => absurd same (by decide)
        · simp only [simLine, fgets_short short, Runs.ok_bind, simOp, action, getIndex, killed,
            Runs.error_bind, ne_eq, reduceCtorEq, not_false_eq_true]
    | lookup key => exact absurd ⟨not_false, short⟩ bad
    | display => exact absurd ⟨not_false, short⟩ bad
  · simp only [simLine, fgets, if_neg short, Runs.error_bind, ne_eq, reduceCtorEq, not_false_eq_true]

theorem requests_answered_iff (u : Memory) (fuel : Nat) {s : Sim} {ref : RefImpl}
    (empty : NothingStored s ref) (requests : List Request) :
    Runs.Answers (simLine u (fuel + 1)) RefImpl.refLine s ref (requests.map Request.line) ↔
      ∀ r ∈ requests, Answerable r := by
  rw [Runs.answers_map]
  refine Runs.answers_iff ?_ ?_ empty
  · intro s ref r empty ok
    exact answerable_same u fuel r empty ok
  · intro s ref r empty bad s'
    exact unanswerable_differ u fuel r empty bad s'

/-! ## The first request -/

theorem parse_initLine (keysize valuesize : List ByteT) :
    (parse (initLine keysize valuesize)).1 = text "INIT" :=
  parse_op ⟨by decide, by decide⟩ (by decide) rfl

theorem refLine_initLine (keysize valuesize : List ByteT) :
    RefImpl.refLine .start (initLine keysize valuesize) = (text "OK\n", .running [] ([], [])) := by
  have taken := (takeWhile_append_stop (keysize ++ 32 :: (valuesize ++ endl))
    (p := fun b => !isSpace b) (w := text "INIT") (s := 32) (by decide) rfl).1
  rw [RefImpl.refLine, initLine, taken, if_pos (by decide)]

structure Ready (d : DiskSystem) : Prop where
  geometry : sanityCheckConfig d.toDiskConfig = .noError
  fits : d.Fits
  three : 3 ≤ d.numblocks.toNat
  room : 28 ≤ d.blocksize.toNat

variable {d : DiskSystem}

theorem Ready.few (h : Ready d) : d.numblocks.toNat < 2 ^ 32 - 16 := by
  have fits := h.fits
  have least : d.numblocks.toNat * 28 ≤ d.numblocks.toNat * d.blocksize.toNat :=
    Nat.mul_le_mul_left _ h.room
  unfold DiskSystem.Fits at fits
  omega

theorem init_ok (u : Memory) (fuel : Nat) (h : Ready d) (cachesize : SizeT)
    {keysize valuesize : List ByteT}
    (short : (initLine keysize valuesize).length < 1024) :
    ∃ s', simLine u fuel (.noIndex (BufferCache.make d cachesize)) (initLine keysize valuesize) =
        .ok (text "OK\n", s') ∧ NothingStored s' (.running [] ([], [])) := by
  obtain ⟨valid, -⟩ := BufferCache.valid_make (h.fits.sound h.geometry) cachesize
  have action : Action.ofWord (parse (initLine keysize valuesize)).1 = .init := by
    rw [parse_initLine]
    decide
  obtain ⟨c', hattach, mounted, config, -, made⟩ := attach_create_ok (u := u)
    (t := BTreeIndex.make u (atoi (parse (initLine keysize valuesize)).2.1)
      (atoi (parse (initLine keysize valuesize)).2.2) (BufferCache.make d cachesize))
    valid h.room h.three
  refine ⟨.index _, ?_, _, _, rfl, ⟨mounted.valid, ?_, _, made.root, Or.inr rfl, rfl⟩, rfl⟩
  · simp only [simLine, fgets_short short, Runs.ok_bind, action, cache, hattach, answer, ne_eq,
      not_true, if_false, Runs.pure_eq_ok]
  · rw [config]
    exact h.few

/-- After `INIT` the replies of `sim` are those of the reference exactly for request
sequences without insertions whose lines fit the line buffer. -/
theorem sim_answers_iff (d : DiskSystem) (ready : Ready d) (cachesize : SizeT) (u : Memory)
    (fuel : Nat) (keysize valuesize : List ByteT) (requests : List Request) :
    Runs.Answers (simLine u (fuel + 1)) RefImpl.refLine (.noIndex (BufferCache.make d cachesize)) .start
        (initLine keysize valuesize :: requests.map Request.line) ↔
      (initLine keysize valuesize).length < 1024 ∧ ∀ r ∈ requests, Answerable r := by
  rw [Runs.answers_cons, refLine_initLine]
  by_cases short : (initLine keysize valuesize).length < 1024
  · obtain ⟨s, hinit, empty⟩ := init_ok u (fuel + 1) ready cachesize short
    rw [← requests_answered_iff u fuel empty, and_iff_right short]
    constructor
    · rintro ⟨s', hinit', answers⟩
      rw [hinit] at hinit'
      cases hinit'
      exact answers
    · exact fun answers => ⟨s, hinit, answers⟩
  · refine iff_of_false ?_ fun ok => short ok.1
    rintro ⟨s', hinit, -⟩
    simp only [simLine, fgets, if_neg short, Runs.error_bind, reduceCtorEq] at hinit

theorem ready_small : Ready (DiskSystem.make .small DiskSystem.smallConfig ByteFile.empty) :=
  ⟨DiskSystem.smallConfig_accepted, by decide, by decide, by decide⟩

theorem sim_answers_iff_small :
    Runs.Answers (simLine zeroMemory 1) RefImpl.refLine
      (.noIndex (BufferCache.make (DiskSystem.make .small DiskSystem.smallConfig ByteFile.empty) 4)) .start
      (initLine (text "2") (text "3") :: [Request.lookup (text "k1"), .display].map Request.line) :=
  (sim_answers_iff _ ready_small 4 zeroMemory 0 (text "2") (text "3")
    [.lookup (text "k1"), .display]).mpr ⟨by decide, by
      rw [List.forall_mem_cons, List.forall_mem_singleton]
      exact ⟨⟨not_false, by decide⟩, not_false, by decide⟩⟩

/-- The first insertion is not answered `OK`. -/
theorem insert_not_answered :
    ¬ Runs.Answers (simLine zeroMemory 1) RefImpl.refLine
      (.noIndex (BufferCache.make (DiskSystem.make .small DiskSystem.smallConfig ByteFile.empty) 4)) .start
      (initLine (text "2") (text "3") :: [Request.insert (text "k1") (text "abc")].map Request.line) := by
  rw [Runs.answers_cons, refLine_initLine]
  rintro ⟨s, hinit, answers⟩
  have short : (initLine (text "2") (text "3")).length < 1024 := by decide
  obtain ⟨s', hinit', empty⟩ := init_ok zeroMemory 1 ready_small 4 short
  rw [hinit] at hinit'
  cases hinit'
  rw [List.map_singleton, Runs.answers_cons] at answers
  obtain ⟨s1, hinsert, -⟩ := answers
  exact unanswerable_differ zeroMemory 0 (.insert (text "k1") (text "abc")) empty
    (fun ok => ok.1 trivial) s1 hinsert

end Sim
end BTreeLab
