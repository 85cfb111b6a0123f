import EECS339.NodeStore

/-!
# The round trip of nodes

Runs of `Serialize` and `Unserialize` over one buffer cache: whatever is evicted
and reloaded in between, a block gives back the node last written to it.
-/
namespace BTreeLab
namespace NodeStore
open BTreeNode

/-- A call on block `n`: `fresh` is the memory that `Serialize` fills, `receiver` the
node that `Unserialize` overwrites, with whatever it holds. -/
inductive Request where
  | serialize (n : SizeT) (node : BTreeNode) (fresh : Nat → ByteT)
  | unserialize (n : SizeT) (receiver : BTreeNode)

/-- The error code and what the receiver holds afterwards. -/
abbrev Reply := ErrorT × Option BTreeNode

def serve (c : BufferCache) : Request → Except Fault (Reply × BufferCache)
  | .serialize n node fresh => (node.serialize fresh c n).map fun r => ((r.1, none), r.2)
  | .unserialize n receiver => (receiver.unserialize c n).map fun r => ((r.1, some r.2.1), r.2.2)

def Request.InRange (cfg : DiskConfig) : Request → Prop
  | .serialize n node _ => n < cfg.numblocks ∧ node.WellSized cfg.blocksize
  | .unserialize n _ => n < cfg.numblocks

/-- The block that is read has been written. -/
def Request.Written (a : SizeT → Option BTreeNode) : Request → Prop
  | .serialize .. => True
  | .unserialize n _ => a n ≠ none

/-- The same calls on a store of nodes; a block is empty until it is written. -/
def serveNodes (a : SizeT → Option BTreeNode) : Request → Reply × (SizeT → Option BTreeNode)
  | .serialize n node _ => ((.noError, none), Function.update a n (some node))
  | .unserialize n _ => ((.noError, (a n).map stored), a)

/-- The node last serialized to each block. -/
def lastSerialized (ops : List Request) : SizeT → Option BTreeNode :=
  (Runs.runSpec serveNodes (fun _ => none) ops).2

/-- `Serialize` succeeds, and so does `Unserialize` on a block that was written,
giving back what `a` has there. -/
def Answered (c : BufferCache) (a : SizeT → Option BTreeNode) : Request → Prop
  | .serialize n node fresh => ∃ c', node.serialize fresh c n = .ok (.noError, c')
  | .unserialize n receiver =>
      ∀ node, a n = some node → ∃ c', receiver.unserialize c n = .ok (.noError, node.stored, c')

/-- The cache holds the nodes that `a` has. -/
structure Holds (cfg : DiskConfig) (a : SizeT → Option BTreeNode) (c : BufferCache) : Prop where
  valid : c.Valid
  config : c.disk.toDiskConfig = cfg
  nodes : ∀ n node, a n = some node → c.nodeAt n = .ok node.stored

variable {cfg : DiskConfig} {a : SizeT → Option BTreeNode} {c c' : BufferCache} {r : Reply}

theorem Holds.serialize (h : Holds cfg a c) (room : 28 ≤ cfg.blocksize.toNat) {n : SizeT}
    {node : BTreeNode} (fresh : Nat → ByteT) (hn : n < cfg.numblocks)
    (sized : node.WellSized cfg.blocksize) :
    ∃ c', node.serialize fresh c n = .ok (.noError, c') ∧
      Holds cfg (Function.update a n (some node)) c' := by
  obtain ⟨valid, rfl, nodes⟩ := h
  obtain ⟨c', hwrite, valid', k, put⟩ := BufferCache.serialize_ok valid room fresh hn sized
  refine ⟨c', hwrite, valid', k.config, ?_⟩
  intro m other there
  rw [put]
  by_cases same : m = n
  · subst same
    rw [Function.update_self] at there ⊢
    rw [Option.some.inj there]
  · rw [Function.update_of_ne same] at there ⊢
    exact nodes m other there

/-- A read that ends leaves the nodes in place, whatever it found. -/
theorem Holds.unserialize (h : Holds cfg a c) {n : SizeT} {receiver node : BTreeNode} {rc : ErrorT}
    (hn : n < cfg.numblocks) (ran : receiver.unserialize c n = .ok (rc, node, c')) :
    Holds cfg a c' := by
  obtain ⟨valid, rfl, nodes⟩ := h
  obtain ⟨block, c1, hread, -, valid', k, same⟩ := BufferCache.readBlock_ok valid hn
  simp only [BTreeNode.unserialize, hread, Runs.ok_bind, ne_eq, not_true, if_false] at ran
  cases found : BTreeNode.ofBytes c1.getBlockSize block.data with
  | error e =>
      rw [found] at ran
      cases ran
  | ok b =>
      rw [found] at ran
      cases ran
      refine ⟨valid', k.config, ?_⟩
      intro m other there
      rw [BufferCache.nodeAt_congr k same]
      exact nodes m other there

theorem Holds.step (h : Holds cfg a c) (room : 28 ≤ cfg.blocksize.toNat) {op : Request}
    (range : op.InRange cfg) (ran : serve c op = .ok (r, c')) : Holds cfg (serveNodes a op).2 c' := by
  cases op with
  | serialize n node fresh =>
      obtain ⟨c1, hwrite, next⟩ := h.serialize room fresh range.1 range.2
      rw [serve, hwrite] at ran
      cases ran
      exact next
  | unserialize n receiver =>
      rw [serve] at ran
      cases done : receiver.unserialize c n with
      | error e =>
          rw [done] at ran
          cases ran
      | ok result =>
          rw [done] at ran
          cases ran
          exact h.unserialize range done

theorem Holds.run (h : Holds cfg a c) (room : 28 ≤ cfg.blocksize.toNat) {ops : List Request}
    (range : ∀ op ∈ ops, op.InRange cfg) {rs : List Reply} (ran : Runs.run serve c ops = .ok (rs, c')) :
    Holds cfg (Runs.runSpec serveNodes a ops).2 c' := by
  induction ops generalizing a c rs with
  | nil =>
      cases ran
      exact h
  | cons op ops ih =>
      obtain ⟨first, others⟩ := List.forall_mem_cons.mp range
      rw [Runs.run] at ran
      split at ran
      · cases ran
      · next r c1 hstep =>
          split at ran
          · cases ran
          · next rs1 c2 hrest =>
              cases ran
              exact ih (h.step room first hstep) others hrest

theorem Holds.answered (h : Holds cfg a c) (room : 28 ≤ cfg.blocksize.toNat) {op : Request}
    (range : op.InRange cfg) : Answered c a op := by
  cases op with
  | serialize n node fresh =>
      obtain ⟨c', hwrite, -⟩ := h.serialize room fresh range.1 range.2
      exact ⟨c', hwrite⟩
  | unserialize n receiver =>
      intro node there
      obtain ⟨c', hread, -⟩ := BufferCache.unserialize_ok h.valid receiver (h.nodes n node there)
      exact ⟨c', hread⟩

theorem holds_make {d : DiskSystem} (geometry : sanityCheckConfig d.toDiskConfig = .noError)
    (fits : d.Fits) (cachesize : SizeT) :
    Holds d.toDiskConfig (fun _ => none) (BufferCache.make d cachesize) :=
  ⟨(BufferCache.valid_make (fits.sound geometry) cachesize).1, rfl, fun n node there => by cases there⟩

/-- A sequence that reads only what it has written is answered as by a store of nodes. -/
theorem serve_refines_nodes (h : Holds cfg a c) (room : 28 ≤ cfg.blocksize.toNat) (ops : List Request)
    (legal : Runs.Legal serveNodes (fun a op => op.InRange cfg ∧ op.Written a) a ops) :
    ∃ c', Runs.run serve c ops = .ok ((Runs.runSpec serveNodes a ops).1, c') ∧
      Holds cfg (Runs.runSpec serveNodes a ops).2 c' := by
  refine Runs.run_simulates (R := fun c a => Holds cfg a c) ?_ h legal
  intro c a op h ok
  cases op with
  | serialize n node fresh =>
      obtain ⟨c', hwrite, next⟩ := h.serialize room fresh ok.1.1 ok.1.2
      exact ⟨c', by simp only [serve, hwrite, Except.map, serveNodes], next⟩
  | unserialize n receiver =>
      obtain ⟨node, there⟩ := Option.ne_none_iff_exists'.mp ok.2
      obtain ⟨c', hread, -⟩ := BufferCache.unserialize_ok h.valid receiver (h.nodes n node there)
      refine ⟨c', ?_, h.unserialize ok.1 hread⟩
      simp only [serve, hread, Except.map, serveNodes, there, Option.map_some]

/-- Whatever the cache size and the calls before it, a call that is reached succeeds,
and `Unserialize` yields the metadata and the data of the node last serialized to the
block, blank types having no data. Only a block that was never written can stop it. -/
theorem serialize_roundTrip (d : DiskSystem)
    (geometry : sanityCheckConfig d.toDiskConfig = .noError) (fits : d.Fits)
    (room : 28 ≤ d.blocksize.toNat) (cachesize : SizeT) (before : List Request) (op : Request)
    (range : ∀ o ∈ before ++ [op], o.InRange d.toDiskConfig) {rs : List Reply} {c : BufferCache}
    (ran : Runs.run serve (BufferCache.make d cachesize) before = .ok (rs, c)) :
    Answered c (lastSerialized before) op := by
  have reached := (holds_make geometry fits cachesize).run room
    (fun o m => range o (List.mem_append_left _ m)) ran
  exact reached.answered room (range op (List.mem_append_right _ (List.mem_singleton_self op)))

/-- A leaf and a blank node that still carries data. -/
def smallLeaf : BTreeNode := BTreeNode.make btreeLeafNode 2 3 1024

def staleBlank : BTreeNode :=
  { smallLeaf with info := { smallLeaf.info with nodetype := 0, freelist := 7 } }

/-- With a cache of one block the leaf has been evicted when it is read again, into a
receiver that holds data of its own. -/
theorem serialize_roundTrip_small :
    ∃ rs c c', Runs.run serve (BufferCache.make
      (DiskSystem.make .small DiskSystem.smallConfig ByteFile.empty) 1)
        [.serialize 3 staleBlank (fun _ => 9), .serialize 3 smallLeaf (fun _ => 9),
          .serialize 5 staleBlank (fun _ => 9), .unserialize 5 smallLeaf] = .ok (rs, c) ∧
      staleBlank.unserialize c 3 = .ok (.noError, smallLeaf, c') := by
  have sized : ∀ node, node = smallLeaf ∨ node = staleBlank → node.WellSized 1024 := by
    rintro node (rfl | rfl)
    · exact wellSized_make _ _ _ _
    · exact ⟨rfl, fun full => absurd (Or.inl rfl) full⟩
  have five : (5 : SizeT) < 64 := by decide
  have three : (3 : SizeT) < 64 := by decide
  have start := holds_make (d := DiskSystem.make .small DiskSystem.smallConfig ByteFile.empty)
    DiskSystem.smallConfig_accepted (by decide) 1
  obtain ⟨c, ran, -⟩ := serve_refines_nodes start (by decide)
    [.serialize 3 staleBlank (fun _ => 9), .serialize 3 smallLeaf (fun _ => 9),
      .serialize 5 staleBlank (fun _ => 9), .unserialize 5 smallLeaf]
    ⟨⟨⟨by decide, sized _ (Or.inr rfl)⟩, trivial⟩, ⟨⟨by decide, sized _ (Or.inl rfl)⟩, trivial⟩,
      ⟨⟨by decide, sized _ (Or.inr rfl)⟩, trivial⟩, ⟨five, by simp [serveNodes, Request.Written]⟩,
      trivial⟩
  obtain ⟨c', answer⟩ := serialize_roundTrip (DiskSystem.make .small DiskSystem.smallConfig ByteFile.empty)
    DiskSystem.smallConfig_accepted (by decide) (by decide) 1 _ (.unserialize 3 staleBlank)
    (by
      intro o m
      simp only [List.cons_append, List.nil_append, List.mem_cons, List.not_mem_nil, or_false] at m
      rcases m with rfl | rfl | rfl | rfl | rfl
      · exact ⟨by decide, sized _ (Or.inr rfl)⟩
      · exact ⟨by decide, sized _ (Or.inl rfl)⟩
      · exact ⟨by decide, sized _ (Or.inr rfl)⟩
      · exact five
      · exact three)
    ran smallLeaf (by simp [lastSerialized, Runs.runSpec, serveNodes])
  exact ⟨_, c, c', ran, answer⟩

end NodeStore
end BTreeLab
