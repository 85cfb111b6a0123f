import EECS339.CacheArray
import EECS339.BTree

/-!
# Nodes in blocks

What `Serialize` writes is what `Unserialize` reads: over the buffer cache the
blocks form a store of nodes.
-/
namespace BTreeLab
open Words

theorem succ_toNat {offset : SizeT} {n : Nat} (h : offset.toNat + (n + 1) < 2 ^ 32) :
    (offset + 1).toNat = offset.toNat + 1 := by
  rw [BitVec.toNat_add, Nat.mod_eq_of_lt (by simp; omega)]
  rfl

namespace BTreeNode

/-- A node for a device with this block size; only a blank one has no data. -/
structure WellSized (blocksize : SizeT) (n : BTreeNode) : Prop where
  blocksize : n.info.blocksize = blocksize
  data : ¬ n.info.Blank → ∃ d, n.data = some d ∧ d.length = n.info.getNumDataBytes.toNat

/-- What is left of a node in its block: blank nodes lose their data. -/
def stored (n : BTreeNode) : BTreeNode := if n.info.Blank then ⟨n.info, none⟩ else n

@[simp] theorem stored_info (n : BTreeNode) : n.stored.info = n.info := by
  unfold stored
  split_ifs <;> rfl

theorem wellSized_make (nodeType : BitVec 32) (keySize valueSize blockSize : SizeT) :
    (make nodeType keySize valueSize blockSize).WellSized blockSize := by
  refine ⟨rfl, fun full => ?_⟩
  simp only [make] at full ⊢
  exact ⟨_, if_neg full, List.length_replicate⟩

theorem getNumDataBytes_toNat {m : NodeMetadata} (room : 28 ≤ m.blocksize.toNat) :
    m.getNumDataBytes.toNat = m.blocksize.toNat - 28 := by
  have := m.blocksize.isLt
  rw [NodeMetadata.getNumDataBytes, BitVec.toNat_sub]
  have : (28 : SizeT).toNat = 28 := rfl
  omega

theorem ofBytes_of_info {info : NodeMetadata} (rest : List ByteT) :
    ofBytes info.blocksize (info.bytes ++ rest) =
      if info.Blank then .ok ⟨info, none⟩
      else (inBounds (bytesAt rest 0 info.getNumDataBytes.toNat)).map fun d => ⟨info, some d⟩ := by
  have tail : bytesAt (info.bytes ++ rest) NodeMetadata.sizeof info.getNumDataBytes.toNat =
      bytesAt rest 0 info.getNumDataBytes.toNat := by
    rw [← NodeMetadata.bytes_length info]
    exact bytesAt_append_right info.bytes rest 0 _
  simp only [ofBytes, NodeMetadata.ofBytes_append, inBounds, Runs.ok_bind, ne_eq, not_true, if_false,
    tail]
  split_ifs
  · rfl
  · cases bytesAt rest 0 info.getNumDataBytes.toNat <;> rfl

/-- A node made of a block fits it, and a blank one has no data. -/
theorem ofBytes_inv {blocksize : SizeT} {bs : List ByteT} {b : BTreeNode}
    (h : ofBytes blocksize bs = .ok b) : b.WellSized blocksize ∧ (b.info.Blank → b.data = none) := by
  simp only [ofBytes] at h
  cases hinfo : NodeMetadata.ofBytes bs with
  | none => simp [hinfo, inBounds] at h
  | some info =>
      simp only [hinfo, inBounds, Runs.ok_bind, Runs.throw_eq_error, Runs.error_bind] at h
      split_ifs at h with mismatch blank
      · cases h
        exact ⟨⟨(not_not.mp mismatch).symm, absurd blank⟩, fun _ => rfl⟩
      · cases hdata : bytesAt bs NodeMetadata.sizeof info.getNumDataBytes.toNat with
        | none => simp [hdata] at h
        | some d =>
            simp only [hdata, Runs.ok_bind, Runs.pure_eq_ok, Except.ok.injEq] at h
            subst h
            exact ⟨⟨(not_not.mp mismatch).symm, fun _ => ⟨d, rfl, bytesAt_length hdata⟩⟩,
              fun free => absurd free blank⟩

theorem ofBytes_data_length {blocksize : SizeT} {bs d : List ByteT} {b : BTreeNode}
    (h : ofBytes blocksize bs = .ok b) (data : b.data = some d) :
    d.length = b.info.getNumDataBytes.toNat := by
  obtain ⟨sized, empty⟩ := ofBytes_inv h
  obtain ⟨e, same, length⟩ := sized.data fun blank => by
    rw [empty blank] at data
    cases data
  rw [data] at same
  cases same
  exact length

/-- The image starts with the metadata; behind it comes the data, or whatever was
in memory. -/
theorem toBlock_ok (fresh : Nat → ByteT) {blocksize : SizeT} {n : BTreeNode}
    (sized : n.WellSized blocksize) (room : 28 ≤ blocksize.toNat) :
    ∃ block, n.toBlock fresh = .ok block ∧ block.length = blocksize.toNat ∧
      ofBytes blocksize block.data = .ok n.stored := by
  obtain ⟨rfl, data⟩ := sized
  have bytes := getNumDataBytes_toNat room
  have size : (28 + n.info.getNumDataBytes).toNat = n.info.blocksize.toNat := by
    rw [BitVec.toNat_add, bytes, Nat.mod_eq_of_lt (by have := n.info.blocksize.isLt; simp; omega)]
    exact Nat.add_sub_cancel' room
  let array := (List.range n.info.blocksize.toNat).map fresh
  have length : array.length = n.info.blocksize.toNat := by simp [array]
  have head : putBytes array 0 n.info.bytes = some (n.info.bytes ++ array.drop NodeMetadata.sizeof) := by
    rw [putBytes_zero (by rw [length, NodeMetadata.bytes_length]; exact room), NodeMetadata.bytes_length]
  by_cases blank : n.info.Blank
  · refine ⟨Block.ofBytes (n.info.bytes ++ array.drop NodeMetadata.sizeof), ?_, ?_, ?_⟩
    · simp only [toBlock, size, Block.ofSize, Block.ofBytes, head, inBounds, Runs.ok_bind, if_pos blank,
        Runs.pure_eq_ok, array]
    · simp only [Block.length, Block.ofBytes, List.length_append, NodeMetadata.bytes_length,
        List.length_drop, length]
      exact Nat.add_sub_cancel' room
    · rw [Block.ofBytes, ofBytes_of_info, if_pos blank, stored, if_pos blank]
  · obtain ⟨d, hd, full⟩ := data blank
    have whole : bytesAt d 0 n.info.getNumDataBytes.toNat = some d := by
      simpa [full] using bytesAt_zero d []
    have tail : putBytes (n.info.bytes ++ array.drop NodeMetadata.sizeof) NodeMetadata.sizeof d =
        some (n.info.bytes ++ d) := by
      have fits : (array.drop NodeMetadata.sizeof).length = d.length := by
        rw [List.length_drop, length, full, bytes]
        rfl
      have put := putBytes_append_right n.info.bytes (array.drop NodeMetadata.sizeof) 0 d
      rw [putBytes_zero fits.ge, List.drop_eq_nil_of_le fits.le, List.append_nil] at put
      exact put
    refine ⟨Block.ofBytes (n.info.bytes ++ d), ?_, ?_, ?_⟩
    · simp only [toBlock, size, Block.ofSize, Block.ofBytes, head, inBounds, Runs.ok_bind, if_neg blank,
        hd, whole, Runs.pure_eq_ok, array, tail]
    · rw [Block.length, Block.ofBytes, List.length_append, NodeMetadata.bytes_length, full, bytes]
      exact Nat.add_sub_cancel' room
    · rw [Block.ofBytes, ofBytes_of_info, if_neg blank, stored, if_neg blank, whole]
      change Except.ok (⟨n.info, some d⟩ : BTreeNode) = .ok n
      rw [← hd]

end BTreeNode

namespace BufferCache
open BTreeNode (WellSized)

/-- The node that a reader of the cache finds in block `n`. -/
def nodeAt (c : BufferCache) (n : SizeT) : Except Fault BTreeNode :=
  BTreeNode.ofBytes c.disk.blocksize (c.logical n)

theorem Valid.lt_of_nodeAt {c : BufferCache} (h : c.Valid) {n : SizeT} {b : BTreeNode}
    (holds : c.nodeAt n = .ok b) : n < c.disk.numblocks := by
  by_contra outside
  rw [nodeAt, h.logical_outside outside] at holds
  cases holds

theorem nodeAt_congr {c c' : BufferCache} (k : c.Keeps c') (same : c'.logical = c.logical) :
    c'.nodeAt = c.nodeAt := by
  funext n
  rw [nodeAt, nodeAt, k.config, same]

/-- What reading a node can do: pass on the error of the read, or decode the block. -/
theorem unserialize_cases {c c' : BufferCache} {node b : BTreeNode} {n : SizeT} {rc : ErrorT}
    (read : node.unserialize c n = .ok (rc, b, c')) :
    (rc ≠ .noError ∧ ∃ block, c.readBlock n = .ok (rc, block, c')) ∨
      (rc = .noError ∧ ∃ bs, BTreeNode.ofBytes c'.getBlockSize bs = .ok b) := by
  rw [BTreeNode.unserialize] at read
  obtain ⟨⟨rc1, block, c1⟩, hread, read⟩ := Runs.bind_eq_ok read
  dsimp only at read
  by_cases failed : rc1 ≠ .noError
  · rw [if_pos failed] at read
    cases read
    exact Or.inl ⟨failed, block, hread⟩
  · rw [if_neg failed] at read
    cases block with
    | none => cases read
    | some block =>
        obtain ⟨b1, image, read⟩ := Runs.bind_eq_ok read
        cases read
        exact Or.inr ⟨rfl, block.data, image⟩

theorem unserialize_ok {c : BufferCache} (h : c.Valid) (node : BTreeNode) {n : SizeT} {b : BTreeNode}
    (holds : c.nodeAt n = .ok b) :
    ∃ c', node.unserialize c n = .ok (.noError, b, c') ∧ c'.Valid ∧ c.Keeps c' ∧
      c'.logical = c.logical := by
  obtain ⟨block, c', hread, bytes, h', k, same⟩ := readBlock_ok h (h.lt_of_nodeAt holds)
  refine ⟨c', ?_, h', k, same⟩
  rw [nodeAt, ← bytes] at holds
  simp only [BTreeNode.unserialize, hread, Runs.ok_bind, ne_eq, not_true, if_false, getBlockSize,
    k.config, holds, Runs.pure_eq_ok]

theorem serialize_eq {c : BufferCache} {n : SizeT} {b : Block} {node : BTreeNode} {fresh : Nat → ByteT}
    (sized : node.WellSized c.disk.blocksize) (image : node.toBlock fresh = .ok b) :
    node.serialize fresh c n = c.writeBlock n b := by
  simp only [BTreeNode.serialize, getBlockSize, sized.blocksize, ne_eq, not_true, if_false, image,
    Runs.ok_bind]

theorem serialize_ok {c : BufferCache} (h : c.Valid) (room : 28 ≤ c.disk.blocksize.toNat)
    (fresh : Nat → ByteT) {n : SizeT} (hn : n < c.disk.numblocks) {b : BTreeNode}
    (sized : b.WellSized c.disk.blocksize) :
    ∃ c', b.serialize fresh c n = .ok (.noError, c') ∧ c'.Valid ∧ c.Keeps c' ∧
      c'.nodeAt = Function.update c.nodeAt n (.ok b.stored) := by
  obtain ⟨block, himage, length, back⟩ := BTreeNode.toBlock_ok fresh sized room
  obtain ⟨c', hwrite, h', k, put⟩ := writeBlock_ok h hn length
  refine ⟨c', (serialize_eq sized himage).trans hwrite, h', k, ?_⟩
  · funext m
    rw [nodeAt, k.config, put]
    by_cases same : m = n
    · subst same
      rw [Function.update_self, Function.update_self, back]
    · rw [Function.update_of_ne same, Function.update_of_ne same]
      rfl

end BufferCache
end BTreeLab
