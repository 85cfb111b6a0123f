import EECS339.GeneratorRuns
import EECS339.IndexToolRuns
import EECS339.SimReplies

/-!
# Testing the index

`test_me.pl` makes a disk and hands `test.pl` the reference and `sim` on that disk; `test.pl`
generates requests, has both answer them, and compares the outputs, however `sim` has ended.
-/
namespace BTreeLab
open Tokens BTreeIndex BufferCache Tools IndexTools Generator

/-! ## Standard output -/

/-- What is in the file, and what waits in the buffer in front of it. -/
structure Stdout where
  file : List ByteT
  waiting : List ByteT

namespace Stdout

/-- What the buffer cannot take goes to the file by whole buffers. -/
def put (bufsiz : Nat) (o : Stdout) (bytes : List ByteT) : Stdout :=
  let all := o.waiting ++ bytes
  let whole := all.length / bufsiz * bufsiz
  if all.length ≤ bufsiz then ⟨o.file, all⟩ else ⟨o.file ++ all.take whole, all.drop whole⟩

def flush (o : Stdout) : Stdout := ⟨o.file ++ o.waiting, []⟩

/-- The reply of `sim` to a request. `endl` flushes, and so does a message on the standard error, to
which the output is tied: behind a failure, but before that of an `INIT`. -/
def reply (bufsiz : Nat) (o : Stdout) : Action × List ByteT → Stdout
  | (.unknown, _) => o
  | (.display, bytes) => o.put bufsiz bytes
  | (.init, bytes) => (if bytes = text "FAIL\n" then o.flush else o).put bufsiz bytes
  | (_, bytes) => if bytes = text "OK\n" then o.put bufsiz bytes else (o.put bufsiz bytes).flush

end Stdout

/-! ## The programs -/

/-- `main` of `sim`: line after line, and at the end the destructors. -/
def Sim.main (u : Memory) (fuel : Nat) (cachesize : SizeT) (stdin : List ByteT) (d : DiskSystem) :
    Except Fault (List ByteT × DiskSystem) := do
  let (outs, s) ← Runs.run (simLine u fuel) (.noIndex (attached d cachesize)) (Lines.rawLines 10 stdin)
  return (outs.flatten, ← dropCache s.cache)

def Sim.actionOf (line : Line) : Action := Action.ofWord (parse line).1

/-- The requests that `sim` replies to before a fault ends it, and the replies. -/
def Sim.replies (u : Memory) (fuel : Nat) : Sim → List Line → List (Action × List ByteT)
  | _, [] => []
  | s, line :: lines =>
      match simLine u fuel s line with
      | .error _ => []
      | .ok (out, s) => (actionOf line, out) :: replies u fuel s lines

/-- The file of the standard output when a fault has ended `sim`: what waits is lost. -/
def Sim.flushed (u : Memory) (fuel bufsiz : Nat) (cachesize : SizeT) (stdin : List ByteT) (d : DiskSystem) :
    List ByteT :=
  ((replies u fuel (.noIndex (attached d cachesize)) (Lines.rawLines 10 stdin)).foldl (Stdout.reply bufsiz)
    ⟨[], []⟩).file

/-- The process of `sim`, which may be killed. -/
def Sim.output (stem : Text) (cachesize : SizeT) (w : Uninitialized) (u : Memory) (fuel bufsiz : Nat)
    (stdin : List ByteT) (f : Files) : Except Fault (List ByteT) :=
  match process stem false ConfigFile.byDefault w (Sim.main u fuel cachesize stdin) f with
  | .ok (out, _) => .ok out
  | .error .outOfFuel => .error .outOfFuel
  | .error _ =>
      match (DiskFiles.before w.machine f stem ConfigFile.byDefault).construct false w.buf w.bitmap with
      | .error _ => .ok []
      | .ok (_, o) => .ok (flushed u fuel bufsiz cachesize stdin o.onBlocks)

/-- `test_me.pl` on a disk that it makes itself, for requests that have been generated: the numbers
of the summary. -/
def testMe (stem : Text) (c : DiskConfig) (cachesize : SizeT) (maxerrs : Nat) (u u' : Uninitialized)
    (m : Memory) (fuel bufsiz : Nat) (input : List ByteT) : Except Fault (Option (Nat × Nat)) := do
  let (_, f) ← makedisk stem c u ⟨none, none, none⟩
  let refout := RefImpl.refOut (fun _ => false) .start (Lines.rawLines 10 input)
  let yourout ← Sim.output stem cachesize u' m fuel bufsiz input f
  return Compare.compare maxerrs input refout yourout

namespace Sim

variable {m : Machine} {c : DiskConfig} {s : Store} {t : BTreeIndex} {d : DiskSystem} {u : Memory}
  {fuel : Nat}

/-- A mounted index whose root has no keys. -/
structure Fresh (m : Machine) (c : DiskConfig) (s : Store) (t : BTreeIndex) : Prop where
  mounted : t.Mounted
  caches : Caches m c t.buffercache s
  root : ∃ b, t.buffercache.nodeAt t.superblock.info.rootnode = .ok b ∧ b.info.Interior ∧
    b.info.numkeys = 0

theorem Fresh.keeps (h : Fresh m c s t) {cache' : BufferCache} (valid : cache'.Valid)
    (k : t.buffercache.Keeps cache')
    (same : cache'.logical = t.buffercache.logical) : Fresh m c s { t with buffercache := cache' } := by
  have nodes := nodeAt_congr k same
  refine ⟨⟨valid, ?_, h.mounted.index, ?_, h.mounted.kind⟩,
    h.caches.keeps k valid (same.trans h.caches.blocks), ?_⟩
  · rw [k.config]
    exact h.mounted.room
  · rw [nodes]
    exact h.mounted.super
  · rw [nodes]
    exact h.root

theorem lookup_fresh (u : Memory) (fuel : Nat) (h : Fresh m c s t) (key : KeyT) :
    ∃ t', t.lookup u (fuel + 1) key = .ok (.nonexistent, none, t') ∧ Fresh m c s t' := by
  obtain ⟨b, holds, interior, zero⟩ := h.root
  obtain ⟨cache', ran, valid, k, same⟩ :=
    lookupInternal_empty u .lookup key fuel h.mounted.valid holds interior zero
  refine ⟨{ t with buffercache := cache' }, ?_, h.keeps valid k same⟩
  simp only [lookup, ran, Runs.ok_bind, Runs.pure_eq_ok]

theorem display_fresh (u : Memory) (fuel : Nat) (h : Fresh m c s t) :
    ∃ t', t.display u (fuel + 1) .sortedKeyval = .ok (.noError, [], t') ∧ Fresh m c s t' := by
  obtain ⟨b, holds, interior, zero⟩ := h.root
  obtain ⟨cache', read, valid, k, same⟩ := unserialize_ok h.mounted.valid (BTreeNode.default u.info) holds
  refine ⟨{ t with buffercache := cache' }, ?_, h.keeps valid k same⟩
  have none : ¬ b.info.numkeys > 0 := by rw [zero]; exact lt_irrefl _
  simp only [display, displayInternal, read, Runs.ok_bind, printNode, if_pos interior, if_neg none,
    ne_eq, not_true, if_false, if_true, reduceCtorEq, Runs.pure_eq_ok]

/-- The bit of the block that an insertion reads can be read. -/
def FarReadable (m : Machine) (c : DiskConfig) : Prop :=
  (DiskSystem.make m c ByteFile.empty).ReadableBit Volume.farBlock

instance (m : Machine) (c : DiskConfig) : Decidable (FarReadable m c) :=
    inferInstanceAs (Decidable (DiskSystem.ReadableBit _ _))

/-- The code of the lookup is taken for the number of a block, which no disk has. -/
theorem insert_fresh (u : Memory) (fuel : Nat) (room : Roomy c) (readable : FarReadable m c)
    (h : Fresh m c s t)
    (key : KeyT) (value : ValueT) :
    ∃ t', t.insert u (fuel + 1) key value = .ok (.noSpace, t') ∧ Fresh m c s t' := by
  obtain ⟨t1, looked, h1⟩ := lookup_fresh u fuel h key
  obtain ⟨cache', read, valid, k, same⟩ := readBlock_outside h1.mounted.valid (far_outside room h1.caches)
    (by decide) ((readable_of_caches h1.caches _).mpr readable)
  refine ⟨{ t1 with buffercache := cache' }, ?_, h1.keeps valid k same⟩
  simp only [BTreeIndex.insert, looked, Runs.ok_bind]
  rw [show BitVec.ofInt 32 ErrorT.nonexistent.code = Volume.farBlock from rfl]
  simp only [BTreeNode.unserialize, read, Runs.ok_bind, ne_eq, reduceCtorEq, not_false_eq_true, if_true,
    Runs.pure_eq_ok]

/-- Looking at the bit ends the process where there is no memory. -/
theorem insert_fresh_killed (u : Memory) (fuel : Nat) (unreadable : ¬ FarReadable m c) (h : Fresh m c s t)
    (key : KeyT) (value : ValueT) : t.insert u (fuel + 1) key value = .error .outOfBounds := by
  obtain ⟨t1, looked, h1⟩ := lookup_fresh u fuel h key
  have killed : t1.buffercache.readBlock Volume.farBlock = .error .outOfBounds :=
    readBlock_killed h1.mounted.valid (mt (readable_of_caches h1.caches _).mp unreadable)
  simp only [BTreeIndex.insert, looked, Runs.ok_bind]
  rw [show BitVec.ofInt 32 ErrorT.nonexistent.code = Volume.farBlock from rfl]
  simp only [BTreeNode.unserialize, killed, Runs.error_bind]

/-! ## One line -/

variable {op rest : Line}

theorem simLine_fail (u : Memory) (fuel : Nat) (room : Roomy c) (h : Fresh m c s t)
    (short : (op ++ 32 :: rest).length < 1024) (word : IsToken isSpace op) (plain : (0 : ByteT) ∉ op)
    (action : Action.ofWord op = .insert ∧ FarReadable m c ∨ Action.ofWord op = .update ∨
      Action.ofWord op = .lookup) :
    ∃ t', simLine u (fuel + 1) (.index t) (op ++ 32 :: rest) = .ok (text "FAIL\n", .index t') ∧
    Fresh m c s t' := by
  have read : fgets (op ++ 32 :: rest) = .ok (op ++ 32 :: rest) := fgets_short short
  have named : (parse (op ++ 32 :: rest)).1 = op := parse_op word plain rfl
  rcases parsed : parse (op ++ 32 :: rest) with ⟨first, key, value⟩
  rw [parsed] at named
  subst named
  rcases action with ⟨action, readable⟩ | action | action
  · obtain ⟨t', ran, h'⟩ := insert_fresh u fuel room readable h (Block.ofBytes key) (Block.ofBytes value)
    refine ⟨t', ?_, h'⟩
    simp only [simLine, read, Runs.ok_bind, parsed, action, getIndex, ran, answer, ne_eq, reduceCtorEq,
      not_false_eq_true, if_true, Runs.pure_eq_ok]
  · refine ⟨t, ?_, h⟩
    simp only [simLine, read, Runs.ok_bind, parsed, action, getIndex, BTreeIndex.update, answer,
      ne_eq, reduceCtorEq,
      not_false_eq_true, if_true, Runs.pure_eq_ok]
  · obtain ⟨t', ran, h'⟩ := lookup_fresh u fuel h (Block.ofBytes key)
    refine ⟨t', ?_, h'⟩
    simp only [simLine, read, Runs.ok_bind, parsed, action, getIndex, ran, ne_eq, reduceCtorEq,
      not_false_eq_true, if_true, Runs.pure_eq_ok]

theorem simLine_killed (u : Memory) (fuel : Nat) (unreadable : ¬ FarReadable m c) (h : Fresh m c s t)
    (short : (text "INSERT" ++ 32 :: rest).length < 1024) :
    simLine u (fuel + 1) (.index t) (text "INSERT" ++ 32 :: rest) = .error .outOfBounds := by
  have read : fgets (text "INSERT" ++ 32 :: rest) = .ok (text "INSERT" ++ 32 :: rest) := fgets_short short
  have named : (parse (text "INSERT" ++ 32 :: rest)).1 = text "INSERT" :=
    parse_op (.of_all (by decide) rfl) (by decide) rfl
  rcases parsed : parse (text "INSERT" ++ 32 :: rest) with ⟨first, key, value⟩
  rw [parsed] at named
  subst named
  have action : Action.ofWord (text "INSERT") = .insert := by decide
  simp only [simLine, read, Runs.ok_bind, parsed, action, getIndex,
    insert_fresh_killed u fuel unreadable h, Runs.error_bind]

theorem actionOf_word (word : IsToken isSpace op) (plain : (0 : ByteT) ∉ op) :
    actionOf (op ++ 32 :: rest) = Action.ofWord op := by
  rw [actionOf, parse_op word plain rfl]

theorem simLine_display (u : Memory) (fuel : Nat) (h : Fresh m c s t)
    (short : (text "DISPLAY" ++ 32 :: rest).length < 1024) :
    ∃ t', simLine u (fuel + 1) (.index t) (text "DISPLAY" ++ 32 :: rest) =
      .ok (text "OK BEGIN DISPLAY\n" ++ [] ++ text "OK END DISPLAY\n", .index t') ∧ Fresh m c s t' := by
  have read : fgets (text "DISPLAY" ++ 32 :: rest) = .ok (text "DISPLAY" ++ 32 :: rest) := fgets_short short
  have action : Action.ofWord (parse (text "DISPLAY" ++ 32 :: rest)).1 = .display := by
    rw [parse_op (.of_all (by decide) rfl) (by decide) rfl]
    decide
  obtain ⟨t', ran, h'⟩ := display_fresh u fuel h
  refine ⟨t', ?_, h'⟩
  simp only [simLine, read, Runs.ok_bind, action, getIndex, ran, Runs.pure_eq_ok]

variable {content : Content} {st : Noted × Content} {steps : List (Noted × Content)}

theorem line_word (op request : Line) (note : Note) : (⟨op ++ [32] ++ request, note⟩ : Noted).line ++ [10] =
    op ++ 32 :: (request ++ (text "  # " ++ note.text) ++ [10]) := by
  simp only [Noted.line, List.append_assoc, List.cons_append, List.nil_append]

theorem simLine_word (u : Memory) (fuel : Nat) (room : Roomy c) (h : Fresh m c s t) (op : Line)
    (word : IsToken isSpace op) (plain : (0 : ByteT) ∉ op)
    (action : Action.ofWord op = .insert ∧ FarReadable m c ∨ Action.ofWord op = .update ∨
      Action.ofWord op = .lookup)
    (request : Line) (note : Note)
    (short : ((⟨op ++ [32] ++ request, note⟩ : Noted).line ++ [10]).length < 1024) :
    ∃ t', simLine u (fuel + 1) (.index t) ((⟨op ++ [32] ++ request, note⟩ : Noted).line ++ [10]) =
      .ok ((Compare.Reply.single (text "FAIL")).bytes, .index t') ∧ Fresh m c s t' := by
  have fail : text "FAIL\n" = (Compare.Reply.single (text "FAIL")).bytes := by decide
  rw [line_word] at short ⊢
  rw [← fail]
  exact simLine_fail u fuel room h short word plain action

/-- A program that has stored nothing answers a generated request, unless it is killed. -/
theorem simLine_turn (u : Memory) (fuel : Nat) (room : Roomy c) (h : Fresh m c s t) (made : Made content st)
    (alive : FarReadable m c ∨ content = [] ∧ st.2 = []) (short : (st.1.line ++ [10]).length < 1024) :
    ∃ t', simLine u (fuel + 1) (.index t) (st.1.line ++ [10]) = .ok ((emptyReply st).bytes, .index t') ∧
      Fresh m c s t' := by
  have insert : text "INSERT " = text "INSERT" ++ [32] := by decide
  have update : text "UPDATE " = text "UPDATE" ++ [32] := by decide
  have lookup : text "LOOKUP " = text "LOOKUP" ++ [32] := by decide
  have inserts (readable : FarReadable m c) :=
    simLine_word u fuel room h (text "INSERT") (.of_all (by decide) rfl)
    (by decide) (Or.inl ⟨by decide, readable⟩)
  have updates := simLine_word u fuel room h (text "UPDATE") (.of_all (by decide) rfl) (by decide)
    (Or.inr (Or.inl (by decide)))
  have lookups := simLine_word u fuel room h (text "LOOKUP") (.of_all (by decide) rfl) (by decide)
    (Or.inr (Or.inr (by decide)))
  rw [← insert] at inserts
  rw [← update] at updates
  rw [← lookup] at lookups
  cases made with
  | insert succeeds first second there =>
      cases succeeds with
      | true => exact inserts (alive.resolve_right fun h => List.cons_ne_nil _ _ h.2) _ .succeed short
      | false =>
          refine inserts (alive.resolve_right fun h => ?_) _ .fail short
          rw [h.1] at there
          cases there
  | update succeeds first second there =>
      cases succeeds with
      | true => exact updates _ .succeed short
      | false => exact updates _ .fail short
  | lookupNew first absent => exact lookups _ .fail short
  | lookupExists first second found => exact lookups _ (.succeedAndReturn _) short
  | display =>
      have bytes : (Compare.Reply.display []).bytes =
          text "OK BEGIN DISPLAY\n" ++ [] ++ text "OK END DISPLAY\n" := by decide
      obtain ⟨t', ran, h'⟩ := simLine_display u fuel h short
      exact ⟨t', ran.trans (by rw [emptyReply, bytes]), h'⟩

theorem simLine_insertion (u : Memory) (fuel : Nat) (unreadable : ¬ FarReadable m c) (h : Fresh m c s t)
    (made : Made [] st) (stores : st.2 ≠ []) (short : (st.1.line ++ [10]).length < 1024) :
    simLine u (fuel + 1) (.index t) (st.1.line ++ [10]) = .error .outOfBounds := by
  have insert : text "INSERT " = text "INSERT" ++ [32] := by decide
  cases made with
  | insert succeeds first second there =>
      cases succeeds with
      | true =>
          simp only [if_true, insert, line_word] at short ⊢
          exact simLine_killed u fuel unreadable h short
      | false => cases there
  | update succeeds first second there =>
      cases succeeds with
      | true => cases there
      | false => exact absurd rfl stores
  | lookupExists first second found => cases found
  | _ => exact absurd rfl stores

/-- `DEINIT` unmounts the index and empties the cache. -/
theorem simLine_deinit (u : Memory) (fuel : Nat) (h : Fresh m c s t) :
    ∃ cache d s', simLine u fuel (.index t) (text "DEINIT\n") = .ok (text "OK\n", .noIndex cache) ∧
      dropCache cache = .ok d ∧ Carries c d s' := by
  obtain ⟨cache1, cache2, d, s', unmounted, detached, dropped, carries, -⟩ :=
    unmount_ok (u := u) h.mounted h.caches
  have action : Action.ofWord (parse (text "DEINIT\n")).1 = .deinit := by decide
  have read : fgets (text "DEINIT\n") = .ok (text "DEINIT\n") := fgets_short (by decide)
  refine ⟨cache2, d, s', ?_, dropped, carries⟩
  simp only [simLine, read, Runs.ok_bind, action, getIndex, unmounted, detached, ne_eq, not_true, if_false,
    Runs.pure_eq_ok]

/-- `INIT` makes the index. -/
theorem simLine_init (u : Memory) (fuel : Nat) (room : Roomy c) (carries : Carries c d s) (cachesize : SizeT)
    (z : Sizes) (short : (initRequest z ++ [10]).length < 1024) :
    ∃ s' t, simLine u fuel (.noIndex (attached d cachesize)) (initRequest z ++ [10]) =
      .ok (text "OK\n", .index t) ∧
      Fresh d.machine c s' t := by
  have init : text "INIT " = text "INIT" ++ [32] := by decide
  have line : initRequest z ++ [10] =
      text "INIT" ++ 32 :: (decimal z.keysize ++ text " " ++ decimal z.valuesize ++ [10]) := by
    simp only [initRequest, init, List.append_assoc, List.cons_append, List.nil_append]
  have read := fgets_short short
  have action : Action.ofWord (parse (initRequest z ++ [10])).1 = .init := by
    rw [line, parse_op (.of_all (by decide) rfl) (by decide) rfl]
    decide
  rcases parsed : parse (initRequest z ++ [10]) with ⟨first, key, value⟩
  rw [parsed] at action
  obtain ⟨cache1, super, made, mounted, root, formatted, caches⟩ :=
    create_caches u carries room cachesize (atoi key) (atoi value)
  refine ⟨_, ⟨cache1, 0, super⟩, ?_, mounted, caches, _, root ▸ formatted.root, Or.inr rfl, rfl⟩
  simp only [simLine, read, Runs.ok_bind, parsed, action, cache, made, answer, ne_eq, not_true, if_false,
    Runs.pure_eq_ok]

/-! ## The whole input -/

/-- The requests between `INIT` and `DEINIT`. -/
theorem run_turns (u : Memory) (fuel : Nat) (room : Roomy c) (h : Fresh m c s t)
    (made : MadeFrom content steps)
    (alive : FarReadable m c ∨ content = [] ∧ ∀ st ∈ steps, st.2 = [])
    (short : ∀ st ∈ steps, (st.1.line ++ [10]).length < 1024) :
    ∃ t', Runs.run (simLine u (fuel + 1)) (.index t) (steps.map fun st => st.1.line ++ [10]) =
        .ok (steps.map fun st => (emptyReply st).bytes, .index t') ∧
      Fresh m c s t' := by
  induction steps generalizing content t with
  | nil => exact ⟨t, rfl, h⟩
  | cons st steps ih =>
      obtain ⟨first, others⟩ := made
      obtain ⟨here, there⟩ := List.forall_mem_cons.mp short
      obtain ⟨t1, ran, h1⟩ := simLine_turn u fuel room h first
        (alive.imp_right fun ⟨empty, quiet⟩ => ⟨empty, quiet st List.mem_cons_self⟩) here
      obtain ⟨t', rest, h'⟩ := ih h1 others
        (alive.imp_right fun ⟨_, quiet⟩ => List.forall_mem_cons.mp quiet) there
      exact ⟨t', Runs.run_cons ran rest, h'⟩

/-- Unless it is killed `sim` reads a generated sequence to its end, and stores nothing. -/
theorem main_generated (u : Memory) (fuel : Nat) (room : Roomy c) (carries : Carries c d s)
    (cachesize : SizeT) (z : Sizes) (follows : Follows [] steps) (made : MadeFrom [] steps)
    (alive : FarReadable d.machine c ∨ ∀ st ∈ steps, st.2 = [])
    (short : ∀ line ∈ Lines.rawLines 10 (printed z steps), line.length < 1024) :
    ∃ d' s', Sim.main u (fuel + 1) cachesize (printed z steps) d = .ok (emptyOutput steps, d') ∧
    Carries c d' s' := by
  rw [rawLines_printed z follows] at short
  obtain ⟨first, others⟩ := List.forall_mem_cons.mp short
  obtain ⟨s1, t, init, fresh⟩ := simLine_init u (fuel + 1) room carries cachesize z first
  obtain ⟨t', turns, fresh'⟩ := run_turns u fuel room fresh made
    (alive.imp_right fun quiet => ⟨rfl, quiet⟩) fun st m =>
    others _ (List.mem_append_left _ (List.mem_map_of_mem m))
  obtain ⟨cache, d', s', last, dropped, carries'⟩ := simLine_deinit u (fuel + 1) fresh'
  refine ⟨d', s', ?_, carries'⟩
  have whole := Runs.run_cons init (Runs.run_append turns (Runs.run_one last))
  rw [← rawLines_printed z follows] at whole
  simp only [Sim.main, whole, Runs.ok_bind, Sim.cache, dropped, Runs.pure_eq_ok, List.flatten_cons,
    List.flatten_append, List.flatten_nil, List.append_nil, emptyOutput]

/-! ## A run that is killed -/

theorem actionOf_init (z : Sizes) : actionOf (initRequest z ++ [10]) = .init := by
  have init : text "INIT " = text "INIT" ++ [32] := by decide
  have action : Action.ofWord (text "INIT") = .init := by decide
  rw [initRequest, init, List.append_assoc, List.append_assoc, List.append_assoc, List.append_assoc,
    List.singleton_append, actionOf_word (.of_all (by decide) rfl) (by decide), action]

theorem replies_run {sim sim' : Sim} {lines : List Line} {outs : List (List ByteT)}
    (ran : Runs.run (simLine u fuel) sim lines = .ok (outs, sim')) (more : List Line) :
    replies u fuel sim (lines ++ more) =
      (lines.zip outs).map (fun p => (actionOf p.1, p.2)) ++ replies u fuel sim' more := by
  induction lines generalizing sim outs with
  | nil =>
      cases ran
      rfl
  | cons line lines ih =>
      rw [Runs.run] at ran
      split at ran
      · cases ran
      · next out sim1 here =>
          split at ran
          · cases ran
          · next outs1 sim2 there =>
              cases ran
              simp only [List.cons_append, replies, here, ih there, List.zip_cons_cons, List.map_cons]

theorem replies_fault {sim : Sim} {line : Line} {e : Fault} (fault : simLine u fuel sim line = .error e)
    (more : List Line) : replies u fuel sim (line :: more) = [] := by
  simp only [replies, fault]

/-- What `sim` has replied to before the first insertion, which kills it. -/
theorem replies_generated (u : Memory) (fuel : Nat) (room : Roomy c) (carries : Carries c d s)
    (cachesize : SizeT) (z : Sizes) (follows : Follows [] steps) (unreadable : ¬ FarReadable d.machine c)
    {before after : List (Noted × Content)} (split : steps = before ++ st :: after)
    (made : MadeFrom [] before)
    (quiet : ∀ st ∈ before, st.2 = []) (insertion : Made [] st) (stores : st.2 ≠ [])
    (short : ∀ line ∈ Lines.rawLines 10 (printed z steps), line.length < 1024) :
    Sim.main u (fuel + 1) cachesize (printed z steps) d = .error .outOfBounds ∧
      replies u (fuel + 1) (.noIndex (attached d cachesize)) (Lines.rawLines 10 (printed z steps)) =
        (.init, text "OK\n") :: before.map fun st =>
          (actionOf (st.1.line ++ [10]), (emptyReply st).bytes) := by
  have raw := rawLines_printed z follows
  rw [raw] at short
  obtain ⟨first, others⟩ := List.forall_mem_cons.mp short
  obtain ⟨s1, t, init, fresh⟩ := simLine_init u (fuel + 1) room carries cachesize z first
  have each : ∀ st ∈ steps, (st.1.line ++ [10]).length < 1024 := fun st m =>
    others _ (List.mem_append_left _ (List.mem_map_of_mem m))
  rw [split] at each
  obtain ⟨t', turns, fresh'⟩ := run_turns u fuel room fresh made (Or.inr ⟨rfl, quiet⟩) fun st m =>
    each st (List.mem_append_left _ m)
  have killed := simLine_insertion u fuel unreadable fresh' insertion stores
    (each st (List.mem_append_right _ List.mem_cons_self))
  have lines : Lines.rawLines 10 (printed z steps) =
      ((initRequest z ++ [10]) :: before.map fun st => st.1.line ++ [10]) ++
        (st.1.line ++ [10]) :: ((after.map fun st => st.1.line ++ [10]) ++ [text "DEINIT\n"]) := by
    rw [raw, split, List.map_append, List.map_cons, List.append_assoc, List.cons_append, List.cons_append]
  have whole := Runs.run_cons init turns
  constructor
  · rw [Sim.main, lines, Runs.run_faults whole killed]
    rfl
  · rw [lines, replies_run whole, replies_fault killed, List.append_nil, List.zip_cons_cons, List.map_cons,
      List.zip_map', List.map_map, actionOf_init]
    rfl

/-- A failure is flushed, and a display waits. -/
theorem reply_turn (bufsiz : Nat) (o : Stdout) (made : Made [] st) (quiet : st.2 = []) :
    o.reply bufsiz (actionOf (st.1.line ++ [10]), (emptyReply st).bytes) =
      if displays st then o.put bufsiz (emptyReply st).bytes
      else (o.put bufsiz (emptyReply st).bytes).flush := by
  have update : text "UPDATE " = text "UPDATE" ++ [32] := by decide
  have lookup : text "LOOKUP " = text "LOOKUP" ++ [32] := by decide
  have fails : (Compare.Reply.single (text "FAIL")).bytes ≠ text "OK\n" := by decide
  cases made with
  | insert succeeds first second there =>
      cases succeeds with
      | true => exact absurd quiet (List.cons_ne_nil _ _)
      | false => cases there
  | update succeeds first second there =>
      cases succeeds with
      | true => cases there
      | false =>
          have action : Action.ofWord (text "UPDATE") = .update := by decide
          simp only [Bool.false_eq_true, if_false, update, line_word, emptyReply, displays]
          rw [actionOf_word (.of_all (by decide) rfl) (by decide), action]
          simp only [Stdout.reply, fails, if_false]
  | lookupNew first absent =>
      have action : Action.ofWord (text "LOOKUP") = .lookup := by decide
      simp only [lookup, line_word, emptyReply, displays]
      rw [actionOf_word (.of_all (by decide) rfl) (by decide), action]
      rfl
  | lookupExists first second found => cases found
  | display =>
      have action : actionOf ((⟨text "DISPLAY", .alwaysSucceed⟩ : Noted).line ++ [10]) = .display := by decide
      simp only [action]
      rfl

end Sim

namespace Stdout

variable {bufsiz : Nat} {o : Stdout} {bytes : List ByteT}

theorem put_waits (room : o.waiting.length + bytes.length ≤ bufsiz) :
    o.put bufsiz bytes = ⟨o.file, o.waiting ++ bytes⟩ := by
  rw [← List.length_append] at room
  rw [put, if_pos room]

/-- Nothing is lost that is flushed. -/
theorem put_flush (bufsiz : Nat) (o : Stdout) (bytes : List ByteT) :
    (o.put bufsiz bytes).flush = ⟨o.file ++ (o.waiting ++ bytes), []⟩ := by
  rw [put]
  split_ifs
  · rfl
  · rw [flush, List.append_assoc, List.take_append_drop]

/-- Of what has been printed before anything is inserted, the replies up to the last failure have
reached the file, as long as the displays fit the buffer. -/
theorem file_replies {before : List (Noted × Content)} (made : MadeFrom [] before)
    (quiet : ∀ st ∈ before, st.2 = []) (room : o.waiting.length + 32 * before.countP displays ≤ bufsiz) :
    let o' := (before.map fun st => (Sim.actionOf (st.1.line ++ [10]), (emptyReply st).bytes)).foldl
      (reply bufsiz) o
    o'.file = o.file ∨ ∃ first rest, before = first ++ rest ∧
      o'.file = o.file ++ (o.waiting ++ (first.map fun st => (emptyReply st).bytes).flatten) := by
  induction before generalizing o with
  | nil => exact Or.inl rfl
  | cons st before ih =>
      obtain ⟨first, others⟩ := made
      obtain ⟨here, there⟩ := List.forall_mem_cons.mp quiet
      rw [here] at others
      rw [List.countP_cons] at room
      simp only [List.map_cons, List.foldl_cons, Sim.reply_turn bufsiz o first here]
      cases shown : displays st with
      | true =>
          have bytes := emptyReply_displays shown
          have sized : (emptyReply st).bytes.length = 32 := by rw [bytes]; decide
          simp only [shown, if_true] at room ⊢
          rw [put_waits (by omega)]
          have room' : (o.waiting ++ (emptyReply st).bytes).length + 32 * before.countP displays ≤
            bufsiz := by
            rw [List.length_append]
            omega
          rcases ih others there (o := ⟨o.file, o.waiting ++ (emptyReply st).bytes⟩) room' with
            same | ⟨front, rest, split, file⟩
          · exact Or.inl same
          · refine Or.inr ⟨st :: front, rest, by rw [split, List.cons_append], file.trans ?_⟩
            rw [List.map_cons, List.flatten_cons, List.append_assoc o.waiting]
      | false =>
          simp only [shown, Bool.false_eq_true, if_false, Nat.add_zero] at room ⊢
          rw [put_flush]
          have room' : ([] : List ByteT).length + 32 * before.countP displays ≤ bufsiz := by
            rw [List.length_nil]
            omega
          rcases ih others there (o := ⟨o.file ++ (o.waiting ++ (emptyReply st).bytes), []⟩) room' with
            same | ⟨front, rest, split, file⟩
          · exact Or.inr ⟨[st], before, rfl, same.trans (by rw [List.map_singleton, List.flatten_singleton])⟩
          · refine Or.inr ⟨st :: front, rest, by rw [split, List.cons_append], file.trans ?_⟩
            rw [List.map_cons, List.flatten_cons, List.nil_append, List.append_assoc,
              List.append_assoc o.waiting]

end Stdout

namespace Sim

variable {steps : List (Noted × Content)} {z : Sizes} {stem : Text} {f : Files} {w : Uninitialized}
  {bufsiz : Nat}

theorem output_ran (holds : Holds stem c f s) (room : Roomy c) (cachesize : SizeT) (fuel bufsiz : Nat)
    (follows : Follows [] steps)
    (made : MadeFrom [] steps) (alive : FarReadable w.machine c ∨ ∀ st ∈ steps, st.2 = [])
    (short : ∀ line ∈ Lines.rawLines 10 (printed z steps), line.length < 1024) :
    Sim.output stem cachesize w u (fuel + 1) bufsiz (printed z steps) f = .ok (emptyOutput steps) := by
  have sim (d : DiskSystem) (machine : d.machine = w.machine) (carries : Carries c d s) :
      ∃ d' s', Sim.main u (fuel + 1) cachesize (printed z steps) d = .ok (emptyOutput steps, d') ∧
        Carries c d' s' ∧ True := by
    rw [← machine] at alive
    obtain ⟨d', s', ran, carries'⟩ :=
      Sim.main_generated u fuel room carries cachesize z follows made alive short
    exact ⟨d', s', ran, carries', trivial⟩
  obtain ⟨f', s', answered, -⟩ := process_leaves (u := w) (fun _ => True) holds sim
  rw [Sim.output, answered]

/-- What a killed run leaves of its replies. -/
theorem output_killed (holds : Holds stem c f s) (room : Roomy c) (cachesize : SizeT) (fuel : Nat)
    (follows : Follows [] steps)
    (unreadable : ¬ FarReadable w.machine c) {st : Noted × Content} {before after : List (Noted × Content)}
    (split : steps = before ++ st :: after) (made : MadeFrom [] before) (quiet : ∀ st ∈ before, st.2 = [])
    (insertion : Made [] st) (stores : st.2 ≠ [])
    (short : ∀ line ∈ Lines.rawLines 10 (printed z steps), line.length < 1024)
    (waits : 3 + 32 * before.countP displays ≤ bufsiz) :
    ∃ out, Sim.output stem cachesize w u (fuel + 1) bufsiz (printed z steps) f = .ok out ∧
      (out = [] ∨ ∃ first rest, before = first ++ rest ∧
        out = text "OK\n" ++ (first.map fun st => (emptyReply st).bytes).flatten) := by
  have faults : process stem false ConfigFile.byDefault w
    (Sim.main u (fuel + 1) cachesize (printed z steps)) f =
      .error .outOfBounds := by
    refine process_faults holds fun d machine carries => ?_
    rw [← machine] at unreadable
    exact (replies_generated u fuel room carries cachesize z follows unreadable split made quiet
      insertion stores
      short).1
  obtain ⟨bitmapfile, datafile, opens, carries⟩ := holds.files
  obtain ⟨o, constructed, disk, -⟩ := construct_ok (u := w) opens
  obtain ⟨-, replied⟩ := replies_generated u fuel room
    (carries w.machine) cachesize z follows unreadable split made
    quiet insertion stores short
  refine ⟨flushed u (fuel + 1) bufsiz cachesize (printed z steps) o.onBlocks, ?_, ?_⟩
  · rw [Sim.output, faults, constructed]
  · have other : text "OK\n" ≠ text "FAIL\n" := by decide
    have size : (text "OK\n").length = 3 := by decide
    have first : Stdout.reply bufsiz ⟨[], []⟩ (.init, text "OK\n") = ⟨[], text "OK\n"⟩ := by
      simp only [Stdout.reply, other, if_false]
      exact Stdout.put_waits (by rw [size, List.length_nil]; omega)
    rw [flushed, disk, replied, List.foldl_cons, first]
    exact Stdout.file_replies (o := ⟨[], text "OK\n"⟩) made quiet (by rw [size]; exact waits)

end Sim

/-- `test_me.pl` on a new disk counts the requests that should succeed and the displays of something,
up to its limit, if the byte that an insertion looks at can be read. If not, `sim` is killed at the
first insertion, the comparison ends with the replies before it, and no error is found, whatever
the generator has inserted. -/
theorem test_me_counts (stem : Text) (c : DiskConfig) (accepted : sanityCheckConfig c = .noError)
    (rereadable : ConfigFile.Rereadable stem c) (u u' : Uninitialized)
    (fits : (DiskSystem.make u.machine c ByteFile.empty).Fits) (room : Roomy c) (cachesize : SizeT)
    (maxerrs : Nat) (pos : 1 ≤ maxerrs) (m : Memory) (fuel bufsiz : Nat) (z : Sizes)
    (hkey : 1 ≤ z.keysize) (hvalue : 1 ≤ z.valuesize) (num : Nat) (draws left : List Nat)
    (steps : List (Noted × Content))
    (ran : generate z num draws = some (steps, left))
    (short : ∀ line ∈ Lines.rawLines 10 (printed z steps), line.length < 1024)
    (waits : 3 + 32 * (steps.takeWhile fun s => s.2 = []).countP displays ≤ bufsiz) :
    ∃ summary, testMe stem c cachesize maxerrs u u' m (fuel + 1) bufsiz (printed z steps) =
      .ok (some summary) ∧
      (Sim.FarReadable u'.machine c → summary = Compare.counted maxerrs 0 0 (differing steps) ∧
        summary.1 = min maxerrs ((differing steps).count true)) ∧
      (summary.1 = 0 ↔ (Sim.FarReadable u'.machine c → ∀ s ∈ steps, s.2 = [])) := by
  have follows := gives_genLoop hkey hvalue (num - 1) worded_empty.clean draws steps left ran
  have made := gives_turns hkey hvalue (num - 1) worded_empty draws steps left ran
  obtain ⟨f, created, holds⟩ := makedisk_ok (u := u) accepted rereadable none
    (DiskSystem.Fits.sound fits accepted)
  have room' : Roomy (ConfigFile.rounded c) := ⟨room.node, room.three, room.codes⟩
  by_cases alive : Sim.FarReadable u'.machine c ∨ ∀ s ∈ steps, s.2 = []
  · have answered := Sim.output_ran (u := m) (w := u') holds room' cachesize fuel bufsiz follows made
      alive short
    refine ⟨Compare.counted maxerrs 0 0 (differing steps), ?_, fun _ => ⟨rfl,
      (Compare.counted_errors (Nat.zero_le _)).trans (by rw [Nat.zero_add])⟩, ?_⟩
    · rw [testMe, created]
      simp only [Runs.ok_bind, answered, Runs.pure_eq_ok, compare_empty hkey hvalue ran maxerrs]
    · rw [counted_none_iff made pos]
      exact ⟨fun quiet _ => quiet, fun quiet => alive.elim quiet id⟩
  · obtain ⟨unreadable, loud⟩ := not_or.mp alive
    obtain ⟨before, s, after, split, front, made', quiet, insertion, stores⟩ :=
      first_stored made (by simpa using loud)
    rw [← front] at waits
    obtain ⟨out, answered, cut⟩ := Sim.output_killed (u := m) holds room' cachesize fuel
      follows unreadable split made' quiet insertion stores short waits
    have errors : ∃ n, Compare.compare maxerrs (printed z steps)
        (RefImpl.refOut (fun _ => false) .start (Lines.rawLines 10 (printed z steps))) out = some (0, n) := by
      rcases cut with rfl | ⟨first, rest, rfl, rfl⟩
      · exact ⟨0, Compare.compareFrom_end ..⟩
      · have same : ∀ s ∈ first, differs s = false := fun s m =>
          (none_differ_iff made').mpr quiet s (List.mem_append_left _ m)
        rw [List.append_assoc] at split
        subst split
        exact ⟨_, compare_start hkey hvalue pos ran same⟩
    obtain ⟨n, errors⟩ := errors
    refine ⟨(0, n), ?_, fun readable => absurd readable unreadable,
      iff_of_true rfl fun readable => absurd readable unreadable⟩
    rw [testMe, created]
    simp only [Runs.ok_bind, answered, Runs.pure_eq_ok, errors]

/-- The memory of `zeros` on a machine that has a byte wherever an insertion looks. -/
def zerosBehind : Uninitialized := { zeros with machine :=
    { zeros.machine with behindBitmap := fun _ => some 0 } }

/-- With the byte there are three errors in five operations, without it there is none. -/
theorem test_me_counts_small : ∃ steps left n,
    generate ⟨1, 1, 1⟩ 4 [0, 0, 1, 5, 0, 6] = some (steps, left) ∧
      testMe "disk".toList smallDisk 2 10 zeros zerosBehind zeroMemory 1 4096 (printed ⟨1, 1, 1⟩ steps) =
        .ok (some (3, 5)) ∧
      testMe "disk".toList smallDisk 2 10 zeros zeros zeroMemory 1 4096 (printed ⟨1, 1, 1⟩ steps) =
        .ok (some (0, n)) := by
  obtain ⟨summary, ran, counts, -⟩ := test_me_counts "disk".toList smallDisk smallDisk_accepted
    smallDisk_rereadable
    zeros zerosBehind (by decide) ⟨by decide, by decide, by decide⟩ 2 10
      (by decide) zeroMemory 0 4096 ⟨1, 1, 1⟩
    le_rfl le_rfl 4 [0, 0, 1, 5, 0, 6] _ _ rfl (by decide) (by decide)
  obtain ⟨⟨errors, n⟩, ran', -, none⟩ :=
    test_me_counts "disk".toList smallDisk smallDisk_accepted smallDisk_rereadable
    zeros zeros (by decide) ⟨by decide, by decide, by decide⟩ 2 10 (by decide) zeroMemory 0 4096 ⟨1, 1, 1⟩
    le_rfl le_rfl 4 [0, 0, 1, 5, 0, 6] _ _ rfl (by decide) (by decide)
  have unreadable : ¬ Sim.FarReadable zeros.machine smallDisk := by decide
  obtain rfl : errors = 0 := none.mpr fun readable => absurd readable unreadable
  refine ⟨_, _, n, rfl, ran.trans ?_, ran'⟩
  rw [(counts (by decide)).1]
  rfl

end BTreeLab
