import EECS339.Lib.LinkedChain
import EECS339.NodeStore

/-!
# Allocating, freeing and formatting

What the functions of the index that touch the superblock and the free blocks do
to the node store and to the allocation bitmap.
-/
namespace BTreeLab
open Words BTreeNode BufferCache

namespace BTreeNode

theorem wellSized_of_ofBytes {blocksize : SizeT} {bs : List ByteT} {b : BTreeNode}
    (h : ofBytes blocksize bs = .ok b) : b.WellSized blocksize ∧ b.stored = b := by
  obtain ⟨sized, empty⟩ := ofBytes_inv h
  refine ⟨sized, ?_⟩
  unfold stored
  split_ifs with blank
  · rw [← empty blank]
  · rfl

end BTreeNode

namespace BufferCache

/-! ## Notifications -/

theorem notifyBlocks_one (change : List ByteT → Nat → List ByteT) {d : DiskSystem} {n : SizeT}
    (hn : n < d.numblocks) :
    d.notifyBlocks change n 1 = (.noError, { d with bitmap := change d.bitmap n.toNat }) := by
  have le : n.toNat + (1 : SizeT).toNat ≤ d.numblocks.toNat := BitVec.lt_def.mp hn
  have bound := d.numblocks.isLt
  have one : (n + 1).toNat - n.toNat = 1 := by
    rw [BitVec.toNat_add, Nat.mod_eq_of_lt (by omega)]
    exact Nat.add_sub_cancel_left _ _
  rw [DiskSystem.notifyBlocks, if_neg (DiskSystem.range_check le), one]
  rfl

/-- The bitmap and the counters play no part in what the cache holds. -/
theorem notify_ok {c : BufferCache} (h : c.Valid) (bitmap : List ByteT) (allocs deallocs : SizeT) :
    let c' := { c with disk := { c.disk with bitmap }, allocs, deallocs }
    c'.Valid ∧ c'.nodeAt = c.nodeAt :=
  ⟨⟨⟨h.sound.geometry, h.sound.apart, h.sound.reach⟩, h.inRange, h.coherent⟩, rfl⟩

theorem notifyAllocateBlock_ok {c : BufferCache} (h : c.Valid) {n : SizeT}
    (hn : n < c.disk.numblocks) :
    ∃ c', c.notifyAllocateBlock n = (.noError, c') ∧ c'.Valid ∧
      c'.disk.toDiskConfig = c.disk.toDiskConfig ∧ c'.disk.machine = c.disk.machine ∧ c'.nodeAt = c.nodeAt ∧
      c'.disk.bitmap = PackedBits.setBit c.disk.bitmap n.toNat := by
  obtain ⟨h', same⟩ := notify_ok h (PackedBits.setBit c.disk.bitmap n.toNat) (c.allocs + 1) c.deallocs
  refine ⟨_, ?_, h', rfl, rfl, same, rfl⟩
  simp only [notifyAllocateBlock, DiskSystem.notifyAllocateBlocks, notifyBlocks_one _ hn]

theorem notifyDeallocateBlock_ok {c : BufferCache} (h : c.Valid) {n : SizeT}
    (hn : n < c.disk.numblocks) :
    ∃ c', c.notifyDeallocateBlock n = (.noError, c') ∧ c'.Valid ∧
      c'.disk.toDiskConfig = c.disk.toDiskConfig ∧ c'.nodeAt = c.nodeAt ∧
      c'.disk.bitmap = PackedBits.clearBit c.disk.bitmap n.toNat := by
  obtain ⟨h', same⟩ := notify_ok h (PackedBits.clearBit c.disk.bitmap n.toNat) c.allocs (c.deallocs + 1)
  refine ⟨_, ?_, h', rfl, same, rfl⟩
  simp only [notifyDeallocateBlock, DiskSystem.notifyDeallocateBlocks, notifyBlocks_one _ hn]

end BufferCache

namespace BTreeIndex

variable {u : Memory} {t : BTreeIndex}

/-- The superblock in memory is the one on the disk, at block 0. -/
structure Mounted (t : BTreeIndex) : Prop where
  valid : t.buffercache.Valid
  room : 28 ≤ t.buffercache.disk.blocksize.toNat
  index : t.superblockIndex = 0
  super : t.buffercache.nodeAt 0 = .ok t.superblock
  kind : t.superblock.info.nodetype = btreeSuperblock

theorem Mounted.super_wellSized (h : t.Mounted) (head : SizeT) :
    let s := t.superblock.withFreelist head
    s.WellSized t.buffercache.disk.blocksize ∧ s.stored = s := by
  obtain ⟨sized, same⟩ := wellSized_of_ofBytes h.super
  have blank : t.superblock.info.Blank := Or.inr h.kind
  have data : t.superblock.data = none := by
    rw [stored, if_pos blank] at same
    rw [← same]
  have blank' : (t.superblock.withFreelist head).info.Blank := blank
  refine ⟨⟨sized.blocksize, fun full => absurd blank' full⟩, ?_⟩
  rw [stored, if_pos blank', withFreelist, data]

/-! ## Allocation -/

theorem allocateNode_empty (empty : t.superblock.info.freelist = 0) :
    t.allocateNode u = .ok (.noSpace, 0, t) := by
  simp only [allocateNode, empty, if_true, Runs.pure_eq_ok]

/-- The head of the list is handed out, and the superblock, in memory and on the disk,
moves on to the block behind it. -/
theorem allocateNode_writes (h : t.buffercache.Valid) (room : 28 ≤ t.buffercache.disk.blocksize.toNat)
    (index : t.superblockIndex = 0) {b super : BTreeNode} (hsuper : t.buffercache.nodeAt 0 = .ok super)
    (nonempty : t.superblock.info.freelist ≠ 0)
    (hb : t.buffercache.nodeAt t.superblock.info.freelist = .ok b)
    (free : b.info.nodetype = btreeUnallocatedBlock)
    (sized : (t.superblock.withFreelist b.info.freelist).WellSized t.buffercache.disk.blocksize) :
    let s := t.superblock.withFreelist b.info.freelist
    ∃ c', t.allocateNode u = .ok (.noError, t.superblock.info.freelist, ⟨c', 0, s⟩) ∧ c'.Valid ∧
      c'.disk.toDiskConfig = t.buffercache.disk.toDiskConfig ∧
      c'.nodeAt = Function.update t.buffercache.nodeAt 0 (.ok s.stored) ∧
      c'.disk.bitmap =
        PackedBits.setBit t.buffercache.disk.bitmap t.superblock.info.freelist.toNat := by
  intro s
  have zero := h.lt_of_nodeAt hsuper
  have inside := h.lt_of_nodeAt hb
  obtain ⟨c1, hread, h1, k1, same1⟩ := unserialize_ok h (BTreeNode.default u.info) hb
  obtain ⟨c2, hwrite, h2, k2, put2⟩ := serialize_ok h1 (by rw [k1.config]; exact room) (u.array 0)
    (n := 0) (by rw [k1.config]; exact zero) (b := s) (by rw [k1.config]; exact sized)
  obtain ⟨c3, hnotify, h3, cfg3, -, nodes3, bits3⟩ := notifyAllocateBlock_ok h2
    (n := t.superblock.info.freelist) (by rw [k2.config, k1.config]; exact inside)
  refine ⟨c3, ?_, h3, cfg3.trans (k2.config.trans k1.config), ?_, ?_⟩
  · simp only [allocateNode, if_neg nonempty, hread, Runs.ok_bind, ne_eq, free, not_true, if_false,
      index, Runs.pure_eq_ok]
    rw [hwrite]
    simp only [Runs.ok_bind, hnotify]
    rfl
  · rw [nodes3, put2, nodeAt_congr k1 same1]
  · rw [bits3, k2.bitmap, k1.bitmap]

/-- An index stays mounted when a block is allocated. -/
theorem allocateNode_ok (h : t.Mounted) {b : BTreeNode} (nonempty : t.superblock.info.freelist ≠ 0)
    (hb : t.buffercache.nodeAt t.superblock.info.freelist = .ok b)
    (free : b.info.nodetype = btreeUnallocatedBlock) :
    let s := t.superblock.withFreelist b.info.freelist
    ∃ c', t.allocateNode u = .ok (.noError, t.superblock.info.freelist, ⟨c', 0, s⟩) ∧
      (⟨c', 0, s⟩ : BTreeIndex).Mounted ∧
      c'.disk.toDiskConfig = t.buffercache.disk.toDiskConfig ∧
      c'.nodeAt = Function.update t.buffercache.nodeAt 0 (.ok s) ∧
      c'.disk.bitmap =
        PackedBits.setBit t.buffercache.disk.bitmap t.superblock.info.freelist.toNat := by
  intro s
  obtain ⟨sized, same⟩ := h.super_wellSized b.info.freelist
  obtain ⟨c', hallocate, valid, cfg, nodes, bits⟩ :=
    allocateNode_writes (u := u) h.valid h.room h.index h.super nonempty hb free sized
  rw [same] at nodes
  refine ⟨c', hallocate, ⟨valid, by rw [cfg]; exact h.room, rfl, ?_, h.kind⟩, cfg, nodes, bits⟩
  rw [nodes, Function.update_self]

def freed (b : BTreeNode) (head : SizeT) : BTreeNode :=
  ⟨{ b.info with nodetype := btreeUnallocatedBlock, freelist := head }, none⟩

theorem deallocateNode_ok (h : t.Mounted) {n : SizeT} {b : BTreeNode}
    (hb : t.buffercache.nodeAt n = .ok b) (used : b.info.nodetype ≠ btreeUnallocatedBlock) :
    let s := t.superblock.withFreelist n
    ∃ c', t.deallocateNode u n = .ok (.noError, ⟨c', 0, s⟩) ∧ (⟨c', 0, s⟩ : BTreeIndex).Mounted ∧
      c'.disk.toDiskConfig = t.buffercache.disk.toDiskConfig ∧
      c'.nodeAt = Function.update (Function.update t.buffercache.nodeAt n
        (.ok (freed b t.superblock.info.freelist))) 0 (.ok s) ∧
      c'.disk.bitmap = PackedBits.clearBit t.buffercache.disk.bitmap n.toNat := by
  intro s
  obtain ⟨sized, same⟩ := h.super_wellSized n
  have zero := h.valid.lt_of_nodeAt h.super
  have inside := h.valid.lt_of_nodeAt hb
  let f : BTreeNode := ⟨{ b.info with nodetype := btreeUnallocatedBlock }, b.data⟩
  have blank : (f.withFreelist t.superblock.info.freelist).info.Blank := Or.inl rfl
  have sizedF : (f.withFreelist t.superblock.info.freelist).WellSized
      t.buffercache.disk.blocksize :=
    ⟨(wellSized_of_ofBytes hb).1.blocksize, fun full => absurd blank full⟩
  have sameF : (f.withFreelist t.superblock.info.freelist).stored =
      freed b t.superblock.info.freelist := if_pos blank
  obtain ⟨c1, hread, h1, k1, same1⟩ := unserialize_ok h.valid (BTreeNode.default u.info) hb
  obtain ⟨c2, hfree, h2, k2, put2⟩ := serialize_ok h1 (by rw [k1.config]; exact h.room) (u.array n)
    (n := n) (by rw [k1.config]; exact inside) (by rw [k1.config]; exact sizedF)
  obtain ⟨c3, hwrite, h3, k3, put3⟩ := serialize_ok h2 (by rw [k2.config, k1.config]; exact h.room)
    (u.array 0) (n := 0) (by rw [k2.config, k1.config]; exact zero) (b := s)
    (by rw [k2.config, k1.config]; exact sized)
  obtain ⟨c4, hnotify, h4, cfg4, nodes4, bits4⟩ := notifyDeallocateBlock_ok h3
    (n := n) (by rw [k3.config, k2.config, k1.config]; exact inside)
  have cfg : c4.disk.toDiskConfig = t.buffercache.disk.toDiskConfig :=
    cfg4.trans (k3.config.trans (k2.config.trans k1.config))
  have nodes : c4.nodeAt = Function.update (Function.update t.buffercache.nodeAt n
      (.ok (freed b t.superblock.info.freelist))) 0 (.ok s) := by
    rw [nodes4, put3, put2, same, sameF, nodeAt_congr k1 same1]
  refine ⟨c4, ?_, ⟨h4, by rw [cfg]; exact h.room, rfl, ?_, h.kind⟩, cfg, nodes, ?_⟩
  · simp only [deallocateNode, hread, Runs.ok_bind, if_neg used, h.index, Runs.pure_eq_ok]
    rw [hfree]
    simp only [Runs.ok_bind]
    rw [hwrite]
    simp only [Runs.ok_bind, hnotify]
    rfl
  · rw [nodes, Function.update_self]
  · rw [bits4, k3.bitmap, k2.bitmap, k1.bitmap]

/-! ## Formatting -/

section

variable {c : BufferCache} (keysize valuesize : SizeT)

theorem newsuperblock_ok : (newsuperblock c 0 keysize valuesize).WellSized c.disk.blocksize ∧
    (newsuperblock c 0 keysize valuesize).stored = newsuperblock c 0 keysize valuesize :=
  ⟨⟨rfl, fun full => absurd (Or.inr rfl) full⟩, rfl⟩

theorem newrootnode_ok : (newrootnode c 0 keysize valuesize).WellSized c.disk.blocksize ∧
    (newrootnode c 0 keysize valuesize).stored = newrootnode c 0 keysize valuesize :=
  ⟨⟨rfl, fun _ => ⟨_, rfl, List.length_replicate⟩⟩, rfl⟩

theorem newfreenode_ok (i : SizeT) :
    (newfreenode c 0 keysize valuesize i).WellSized c.disk.blocksize ∧
      (newfreenode c 0 keysize valuesize i).stored = newfreenode c 0 keysize valuesize i :=
  ⟨⟨rfl, fun full => absurd (Or.inl rfl) full⟩, rfl⟩

theorem newfreenode_congr {c' : BufferCache}
    (cfg : c'.disk.toDiskConfig = c.disk.toDiskConfig) (i : SizeT) :
    newfreenode c' 0 keysize valuesize i = newfreenode c 0 keysize valuesize i := by
  have size : c'.getBlockSize = c.getBlockSize := congrArg DiskConfig.blocksize cfg
  have count : c'.getNumBlocks = c.getNumBlocks := congrArg DiskConfig.numblocks cfg
  rw [newfreenode, newfreenode, size, count]

theorem writeFreeNodes_ok (h : c.Valid) (room : 28 ≤ c.disk.blocksize.toNat) {i : SizeT}
    (count : Nat) (last : i.toNat + count = c.disk.numblocks.toNat) :
    ∃ c', writeFreeNodes u 0 keysize valuesize c i count = .ok (.noError, c') ∧ c'.Valid ∧
      c.Keeps c' ∧ (∀ n < i, c'.nodeAt n = c.nodeAt n) ∧
      ∀ n, i ≤ n → n < c.disk.numblocks → c'.nodeAt n = .ok (newfreenode c 0 keysize valuesize n) := by
  induction count generalizing c i with
  | zero =>
      refine ⟨c, rfl, h, .refl c, fun _ _ => rfl, fun n lo hi => ?_⟩
      rw [BitVec.le_def] at lo
      rw [BitVec.lt_def] at hi
      omega
  | succ count ih =>
      obtain ⟨inside, rest⟩ := DiskSystem.lt_numblocks (d := c.disk) last.le
      have next : (i + 1).toNat = i.toNat + 1 := by
        have := c.disk.numblocks.isLt
        exact succ_toNat (n := count) (by omega)
      obtain ⟨sized, same⟩ := newfreenode_ok (c := c) keysize valuesize i
      obtain ⟨c1, hwrite, h1, k1, put1⟩ := serialize_ok h room (u.array i) inside sized
      obtain ⟨c2, hloop, h2, k2, before, after⟩ := ih h1 (by rw [k1.config]; exact room) (i := i + 1)
        (by rw [k1.config, next]; omega)
      refine ⟨c2, ?_, h2, k1.trans k2, fun n lt => ?_, fun n lo hi => ?_⟩
      · simp only [writeFreeNodes, hwrite, Runs.ok_bind, ne_eq, not_true, if_false, hloop]
      · rw [before n (by rw [BitVec.lt_def] at lt ⊢; omega), put1,
          Function.update_of_ne (ne_of_lt lt)]
      · by_cases first : n = i
        · subst first
          rw [before n (by rw [BitVec.lt_def]; omega), put1, Function.update_self, same]
        · have greater : i + 1 ≤ n := by
            have ne : n.toNat ≠ i.toNat := fun e => first (BitVec.eq_of_toNat_eq e)
            rw [BitVec.le_def] at lo ⊢
            omega
          rw [after n greater (by rw [k1.config]; exact hi), newfreenode_congr _ _ k1.config]

structure Formatted (keysize valuesize : SizeT) (bitmap : List ByteT) (c' : BufferCache) : Prop where
  super : c'.nodeAt 0 = .ok (newsuperblock c' 0 keysize valuesize)
  root : c'.nodeAt 1 = .ok (newrootnode c' 0 keysize valuesize)
  free : ∀ n, 2 ≤ n → n < c'.disk.numblocks →
    c'.nodeAt n = .ok (newfreenode c' 0 keysize valuesize n)
  bits : c'.disk.bitmap = PackedBits.setBit (PackedBits.setBit bitmap 0) 1

theorem create_ok (h : c.Valid) (room : 28 ≤ c.disk.blocksize.toNat)
    (three : 3 ≤ c.disk.numblocks.toNat) :
    ∃ c', create u 0 keysize valuesize c = .ok (.noError, c') ∧ c'.Valid ∧
      c'.disk.toDiskConfig = c.disk.toDiskConfig ∧ c'.disk.machine = c.disk.machine ∧
      Formatted keysize valuesize c.disk.bitmap c' := by
  have zero : (0 : SizeT) < c.disk.numblocks := BitVec.lt_def.mpr (by simp; omega)
  have one : (1 : SizeT) < c.disk.numblocks := BitVec.lt_def.mpr (by simp; omega)
  obtain ⟨c1, hnotify1, h1, cfg1, machine1, nodes1, bits1⟩ := notifyAllocateBlock_ok h zero
  obtain ⟨c2, hsuper, h2, k2, put2⟩ := serialize_ok h1 (by rw [cfg1]; exact room) (u.array 0)
    (n := 0) (by rw [cfg1]; exact zero)
    (newsuperblock_ok (c := c1) keysize valuesize).1
  have cfg2 := k2.config.trans cfg1
  obtain ⟨c3, hnotify3, h3, cfg3, machine3, nodes3, bits3⟩ := notifyAllocateBlock_ok h2 (n := 1)
    (by rw [cfg2]; exact one)
  have cfg3 := cfg3.trans cfg2
  obtain ⟨c4, hroot, h4, k4, put4⟩ := serialize_ok h3 (by rw [cfg3]; exact room) (u.array 1)
    (n := 1) (by rw [cfg3]; exact one)
    (newrootnode_ok (c := c3) keysize valuesize).1
  have cfg4 := k4.config.trans cfg3
  obtain ⟨c5, hloop, h5, k5, before, after⟩ := writeFreeNodes_ok (u := u) keysize
    valuesize h4 (by rw [cfg4]; exact room) (i := 2) (c4.disk.numblocks.toNat - 2)
    (by rw [cfg4]; simp; omega)
  have cfg5 := k5.config.trans cfg4
  have machine : c5.disk.machine = c.disk.machine := by
    rw [k5.machine, k4.machine, machine3, k2.machine, machine1]
  refine ⟨c5, ?_, h5, cfg5, machine, ⟨?_, ?_, ?_, ?_⟩⟩
  · simp only [create, hnotify1]
    rw [show (0 : SizeT) + 1 = 1 from rfl, show (0 : SizeT) + 2 = 2 from rfl]
    simp only [hsuper, Runs.ok_bind, ne_eq, not_true, if_false, hnotify3, hroot]
    exact hloop
  · rw [before 0 (by decide), put4, Function.update_of_ne (by decide), nodes3, put2,
      Function.update_self, (newsuperblock_ok _ _).2]
    simp only [newsuperblock, getBlockSize, cfg5, cfg1]
  · rw [before 1 (by decide), put4, Function.update_self, (newrootnode_ok _ _).2]
    simp only [newrootnode, getBlockSize, cfg5, cfg3]
  · intro n lo hi
    rw [after n lo (by rw [← k5.config]; exact hi), newfreenode_congr _ _ k5.config]
  · rw [k5.bitmap, k4.bitmap, bits3, k2.bitmap, bits1]
    rfl

end

theorem attach_create_ok (h : t.buffercache.Valid) (room : 28 ≤ t.buffercache.disk.blocksize.toNat)
    (three : 3 ≤ t.buffercache.disk.numblocks.toNat) :
    ∃ c', t.attach u 0 true = .ok (.noError, ⟨c', 0, newsuperblock c' 0 t.superblock.info.keysize
        t.superblock.info.valuesize⟩) ∧
      (⟨c', 0, newsuperblock c' 0 t.superblock.info.keysize
        t.superblock.info.valuesize⟩ : BTreeIndex).Mounted ∧
      c'.disk.toDiskConfig = t.buffercache.disk.toDiskConfig ∧
      c'.disk.machine = t.buffercache.disk.machine ∧
      Formatted t.superblock.info.keysize t.superblock.info.valuesize t.buffercache.disk.bitmap c' := by
  obtain ⟨c1, hcreate, h1, cfg1, machine1, made⟩ := create_ok (u := u) t.superblock.info.keysize
    t.superblock.info.valuesize h room three
  obtain ⟨c2, hread, h2, k2, same2⟩ := unserialize_ok h1 t.superblock made.super
  have nodes := nodeAt_congr k2 same2
  have cfg := k2.config.trans cfg1
  have super (n : SizeT) : newfreenode c2 0 t.superblock.info.keysize t.superblock.info.valuesize n =
      newfreenode c1 0 t.superblock.info.keysize t.superblock.info.valuesize n :=
    newfreenode_congr _ _ k2.config n
  have block : newsuperblock c2 0 t.superblock.info.keysize t.superblock.info.valuesize =
      newsuperblock c1 0 t.superblock.info.keysize t.superblock.info.valuesize := by
    simp only [newsuperblock, getBlockSize, k2.config]
  refine ⟨c2, ?_, ⟨h2, by rw [cfg]; exact room, rfl, ?_, rfl⟩, cfg, k2.machine.trans machine1,
    ⟨?_, ?_, ?_, ?_⟩⟩
  · simp only [attach, ne_eq, not_true, if_false, if_true, hcreate, Runs.ok_bind, hread,
      Runs.pure_eq_ok, block]
  · rw [nodes, made.super, block]
  · rw [nodes, made.super, block]
  · rw [nodes, made.root]
    simp only [newrootnode, getBlockSize, k2.config]
  · intro n lo hi
    rw [nodes, made.free n lo (by rw [← k2.config]; exact hi), super]
  · rw [k2.bitmap, made.bits]

/-! ## Unmounting and mounting -/

theorem detach_ok (h : t.Mounted) :
    ∃ c', t.detach u = .ok (.noError, ⟨c', 0, t.superblock⟩) ∧
      (⟨c', 0, t.superblock⟩ : BTreeIndex).Mounted ∧ t.buffercache.Keeps c' ∧
      c'.nodeAt = t.buffercache.nodeAt := by
  obtain ⟨sized, same⟩ := wellSized_of_ofBytes h.super
  obtain ⟨c', hwrite, h', k, put⟩ := serialize_ok h.valid h.room (u.array 0)
    (h.valid.lt_of_nodeAt h.super) sized
  have nodes : c'.nodeAt = t.buffercache.nodeAt := by
    rw [put, same, ← h.super, Function.update_eq_self]
  refine ⟨c', ?_, ⟨h', by rw [k.config]; exact h.room, rfl, by rw [nodes, h.super], h.kind⟩, k, nodes⟩
  simp only [detach, h.index, hwrite, Runs.ok_bind, Runs.pure_eq_ok]

/-- Mounting finds the superblock that a mounted index left in block 0. -/
theorem attach_ok {old : BTreeIndex} (h : old.Mounted) (valid : t.buffercache.Valid)
    (k : old.buffercache.Keeps t.buffercache) (same : t.buffercache.nodeAt = old.buffercache.nodeAt) :
    ∃ c', t.attach u 0 false = .ok (.noError, ⟨c', 0, old.superblock⟩) ∧
      (⟨c', 0, old.superblock⟩ : BTreeIndex).Mounted ∧ old.buffercache.Keeps c' ∧
      c'.nodeAt = old.buffercache.nodeAt := by
  obtain ⟨c', hread, h', k', same'⟩ := unserialize_ok valid t.superblock (n := 0)
    (b := old.superblock) (by rw [same, h.super])
  have nodes : c'.nodeAt = old.buffercache.nodeAt := (nodeAt_congr k' same').trans same
  have keeps := k.trans k'
  refine ⟨c', ?_, ⟨h', by rw [keeps.config]; exact h.room, rfl, by rw [nodes, h.super], h.kind⟩,
    keeps, nodes⟩
  simp only [attach, ne_eq, not_true, if_false, Bool.false_eq_true, Runs.ok_bind, hread,
    Runs.pure_eq_ok]

end BTreeIndex
end BTreeLab
