import EECS339.CacheCapacity
import EECS339.Formatting

/-!
# Formatting the smallest disks

`Attach` writes the superblock and the root without asking whether the disk has these
blocks, and points the superblock at block 2 before the loop that makes the free blocks.
Blocks that do not exist stay in the cache, so nothing fails.
-/
namespace BTreeLab
open Words BTreeNode BufferCache

/-- A configuration that `makedisk` accepts. -/
structure DiskConfig.Made (c : DiskConfig) : Prop where
  offset : c.offset = 0
  geometry : sanityCheckConfig c = .noError

/-- At most the superblock and the root exist. -/
structure DiskConfig.Tiny (c : DiskConfig) : Prop extends c.Made where
  two : c.numblocks.toNat < 3

/-- Only the first two blocks are cached, in full, and reading block 0 yields the bytes. -/
structure Serves (cfg : DiskConfig) (c : BufferCache) (bytes : List ByteT) : Prop where
  config : c.disk.toDiskConfig = cfg
  readable : c.disk.ReadableBit 0
  full : ∀ (n : SizeT) (b : Block), c.blockmap[n]? = some b →
    (n = 0 ∨ n = 1) ∧ b.length = cfg.blocksize.toNat
  entry : ∀ b : Block, c.blockmap[(0 : SizeT)]? = some b → b.dirty = true ∧ b.data = bytes
  stored : c.blockmap[(0 : SizeT)]? = none →
    0 < cfg.numblocks ∧ c.disk.datafile.content 0 cfg.blocksize.toNat = bytes

variable {cfg : DiskConfig} {c c' : BufferCache} {bytes : List ByteT} {n : SizeT} {b : Block}

theorem Serves.congr (h : Serves cfg c bytes) (same : c.SameDisk c')
    (map : c'.blockmap = c.blockmap) (file : c'.disk.datafile = c.disk.datafile) : Serves cfg c' bytes :=
  ⟨same.1.trans h.config, (DiskSystem.readableBit_congr same.1 same.2 0).mpr
    h.readable, by rw [map]; exact h.full,
    by rw [map]; exact h.entry, by rw [map, file]; exact h.stored⟩

theorem blockPos_tiny {d : DiskSystem} (offset : d.offset = 0) :
    (d.blockPos 0).toNat = 0 ∧ (d.blockPos 1).toNat = d.blocksize.toNat := by
  rw [DiskSystem.blockPos, DiskSystem.blockPos, offset, zero_mul, one_mul, zero_add, zero_add]
  exact ⟨rfl, rfl⟩

/-- Dropping an entry is fine if the file has block 0 when that is the entry, and still
has what it had when it is not. -/
theorem Serves.erase (h : Serves cfg c bytes) (same : c.SameDisk c')
    (map : c'.blockmap = c.blockmap.erase n)
    (kept : n ≠ 0 → c'.disk.datafile.content 0 cfg.blocksize.toNat =
      c.disk.datafile.content 0 cfg.blocksize.toNat)
    (saved : n = 0 → 0 < cfg.numblocks ∧ c'.disk.datafile.content 0 cfg.blocksize.toNat = bytes) :
    Serves cfg c' bytes := by
  refine ⟨same.1.trans h.config, (DiskSystem.readableBit_congr same.1 same.2 0).mpr h.readable, ?_, ?_, ?_⟩
  · rw [map]
    exact fun m e he => h.full m e (erase_fewer c n m e he)
  · intro e he
    rw [map] at he
    exact h.entry e (erase_fewer c n 0 e he)
  · intro absent
    rw [map, entry_erase] at absent
    by_cases same : n = 0
    · exact saved same
    · rw [if_neg (Ne.symm same)] at absent
      rw [kept same]
      exact h.stored absent

/-- A block that the disk has is written to its place. -/
theorem Serves.save (tiny : cfg.Tiny) (h : Serves cfg c bytes) (hb : c.blockmap[n]? = some b)
    (dirty : b.dirty = true) (exist : n < c.disk.numblocks) :
    ∃ c', c.removeBlock n b = .ok (.noError, c') ∧ Serves cfg c' bytes := by
  obtain ⟨two, length⟩ := h.full n b hb
  have config := h.config
  have spins := DiskSystem.accepted_spins (config ▸ tiny.geometry) (DiskSystem.numblocks_pos exist)
  obtain ⟨t, d, hwrite, k, file⟩ := DiskSystem.writeOne_eq spins exist (config ▸ length)
  obtain ⟨pos0, pos1⟩ := blockPos_tiny (d := c.disk) (config ▸ tiny.offset)
  refine ⟨{ c with
      disk := d, curtime := d.machine.add c.curtime t, diskwrites := c.diskwrites + 1,
      blockmap := c.blockmap.erase n }, ?_,
    h.erase (.of_keeps k rfl) rfl (fun other => ?_) fun same => ?_⟩
  · simp only [removeBlock, dirty, if_true, writeBack, hwrite, ne_eq, not_true, if_false]
  · rw [file, two.resolve_left other, pos1]
    exact ByteFile.content_write_disjoint (Or.inl (by rw [config]; omega))
  · subst same
    obtain ⟨-, data⟩ := h.entry b hb
    refine ⟨config ▸ exist, ?_⟩
    rw [file, pos0, ← length, ← data]
    exact ByteFile.content_write_same _ _ _

/-- A block that the disk does not have is stuck. -/
theorem Serves.stuck (h : Serves cfg c bytes) (hb : c.blockmap[n]? = some b) (dirty : b.dirty = true)
    (missing : ¬ n < c.disk.numblocks) : c.Stuck n b := by
  have small : n.toNat ≤ 1 := by
    rcases (h.full n b hb).1 with rfl | rfl <;> decide
  refine ⟨dirty, ?_⟩
  rw [not_lt, BitVec.le_def] at missing
  rw [gt_iff_lt, BitVec.lt_def, succ_toNat (n := 0) (by omega)]
  omega

/-- An entry leaves, or stays because the disk does not have its block. -/
theorem Serves.remove (tiny : cfg.Tiny) (h : Serves cfg c bytes) (hb : c.blockmap[n]? = some b) :
    ∃ rc c', c.removeBlock n b = .ok (rc, c') ∧ Serves cfg c' bytes := by
  cases dirty : b.dirty with
  | false =>
      have other : n ≠ 0 := by
        rintro rfl
        rw [(h.entry b hb).1] at dirty
        cases dirty
      refine ⟨.noError, { c with blockmap := c.blockmap.erase n }, ?_,
        h.erase ⟨rfl, rfl⟩ rfl (fun _ => rfl) fun same => absurd same other⟩
      simp only [removeBlock, dirty, Bool.false_eq_true, if_false]
  | true =>
      by_cases exist : n < c.disk.numblocks
      · obtain ⟨c', saved, h'⟩ := h.save tiny hb dirty exist
        exact ⟨.noError, c', saved, h'⟩
      · exact ⟨_, _, removeBlock_stuck (h.stuck hb dirty exist), h.congr ⟨rfl, rfl⟩ rfl rfl⟩

theorem Serves.evict (tiny : cfg.Tiny) (h : Serves cfg c bytes) :
    ∃ rc c', c.checkDeleteOldest = .ok (rc, c') ∧ Serves cfg c' bytes := by
  unfold checkDeleteOldest
  split_ifs with room
  · exact ⟨.noError, c, rfl, h⟩
  · cases found : findOldest (c.disk.machine.add c.curtime 1) c.blockmap.toList with
    | none => exact ⟨.noError, c, rfl, h⟩
    | some e =>
        exact h.remove tiny (Std.TreeMap.mem_toList_iff_getElem?_eq_some.mp (findOldest_mem found))

/-- Block 0 is found in the cache or on the disk. -/
theorem Serves.read (tiny : cfg.Tiny) (h : Serves cfg c bytes) :
    ∃ b c', c.readBlock 0 = .ok (.noError, some b, c') ∧ b.data = bytes ∧
      c'.disk.toDiskConfig = cfg := by
  unfold readBlock
  cases entry : c.blockmap[(0 : SizeT)]? with
  | some b => exact ⟨b, _, rfl, (h.entry b entry).2, h.config⟩
  | none =>
      obtain ⟨rc, c1, hevict, h1⟩ := h.evict tiny
      obtain ⟨-, fewer, -⟩ := checkDeleteOldest_inv hevict
      have absent : c1.blockmap[(0 : SizeT)]? = none := by
        cases left : c1.blockmap[(0 : SizeT)]? with
        | none => rfl
        | some e => exact absurd (fewer 0 e left) (by rw [entry]; simp)
      obtain ⟨exist, content⟩ := h1.stored absent
      have config := h1.config
      rw [← config] at exist
      have spins := DiskSystem.accepted_spins (config ▸ tiny.geometry) exist
      obtain ⟨pos0, -⟩ := blockPos_tiny (d := c1.disk) (config ▸ tiny.offset)
      have bound := c1.disk.blocksize.isLt
      have reach : c1.disk.Reach 0 := Or.inl (by omega)
      obtain ⟨f, hread, -⟩ := myread_ok reach
      obtain ⟨t, d, hone, config'⟩ := DiskSystem.readOne_eq spins exist _ hread
      rw [if_pos (ByteFile.content_length _ _ _), if_pos (ByteFile.content_length _ _ _), pos0, config,
        content] at hone
      obtain ⟨bit, asked⟩ := h1.readable
      simp only [hevict, isBlockAllocated, asked, hone]
      exact ⟨_, _, rfl, rfl, config'.1.trans config⟩

/-- The bits of the first blocks are in one byte. -/
theorem readableBit_one {d : DiskSystem} (readable : d.ReadableBit 0) : d.ReadableBit 1 := by
  obtain ⟨bit, asked⟩ := readable
  obtain ⟨b, byte, -⟩ := Runs.map_eq_ok asked
  have first : (1 : SizeT).toNat / 8 = (0 : SizeT).toNat / 8 := rfl
  exact ⟨_, by rw [DiskSystem.isBlockAllocated, first, byte]; rfl⟩

/-- Writing block 1 may evict block 0. -/
theorem Serves.write (tiny : cfg.Tiny) (h : Serves cfg c bytes) (miss : c.blockmap[(1 : SizeT)]? = none)
    (length : b.length = cfg.blocksize.toNat) :
    ∃ c', c.writeBlock 1 b = .ok (.noError, c') ∧ Serves cfg c' bytes := by
  obtain ⟨rc, c1, hevict, h1⟩ := h.evict tiny
  obtain ⟨bit, asked⟩ := readableBit_one h1.readable
  have zero (e : Block) : (c1.blockmap.insert 1 e)[(0 : SizeT)]? = c1.blockmap[(0 : SizeT)]? := by
    rw [entry_insert, if_neg (by decide)]
  refine ⟨{ c1 with
      blockmap := c1.blockmap.insert 1 { b with lastaccessed := c1.curtime, dirty := true },
      writes := c1.writes + 1 }, by simp only [writeBlock, miss, hevict, isBlockAllocated, asked], h1.config,
    h1.readable, ?_, ?_, ?_⟩
  · intro m e he
    rw [entry_insert] at he
    split_ifs at he with same
    · cases he
      exact ⟨Or.inr same, length⟩
    · exact h1.full m e he
  · intro e he
    rw [zero] at he
    exact h1.entry e he
  · intro absent
    rw [zero] at absent
    exact h1.stored absent

/-! ## What `Attach` does there -/

theorem checkDeleteOldest_empty (empty : c.blockmap = ∅) : c.checkDeleteOldest = .ok (.noError, c) := by
  have nothing : (∅ : Std.TreeMap SizeT Block).toList = [] := rfl
  simp only [checkDeleteOldest, empty, nothing, findOldest, List.foldl_nil, ite_self]

/-- The first block written stays in the cache, dirty. -/
theorem Serves.first (config : c.disk.toDiskConfig = cfg) (readable : c.disk.ReadableBit 0)
    (empty : c.blockmap = ∅)
    (length : b.length = cfg.blocksize.toNat) :
    ∃ c', c.writeBlock 0 b = .ok (.noError, c') ∧ c'.blockmap[(1 : SizeT)]? = none ∧
      Serves cfg c' b.data := by
  have entry (m : SizeT) (e : Block) : (c.blockmap.insert 0 e)[m]? = if m = 0 then some e else none := by
    rw [entry_insert, empty]
    rfl
  refine ⟨{ c with
      blockmap := c.blockmap.insert 0 { b with lastaccessed := c.curtime, dirty := true },
      writes := c.writes + 1 }, ?_, by rw [entry, if_neg (by decide)], config, readable, ?_, ?_, ?_⟩
  · have miss : c.blockmap[(0 : SizeT)]? = none := by rw [empty]; rfl
    obtain ⟨bit, asked⟩ := readable
    simp only [writeBlock, miss, checkDeleteOldest_empty empty, isBlockAllocated, asked]
  · intro m e he
    rw [entry] at he
    split_ifs at he with zero
    cases he
    exact ⟨Or.inl zero, length⟩
  · intro e he
    rw [entry, if_pos rfl] at he
    cases he
    exact ⟨rfl, rfl⟩
  · intro absent
    rw [entry, if_pos rfl] at absent
    cases absent

theorem notify_datafile (change : List ByteT → Nat → List ByteT) (d : DiskSystem) (s k : SizeT) :
    (d.notifyBlocks change s k).2.datafile = d.datafile := by
  unfold DiskSystem.notifyBlocks
  split_ifs <;> rfl

theorem notifyAllocateBlock_keeps (c : BufferCache) (n : SizeT) :
    ∃ rc c', c.notifyAllocateBlock n = (rc, c') ∧ c.SameDisk c' ∧
      c'.blockmap = c.blockmap ∧ c'.disk.datafile = c.disk.datafile :=
  ⟨_, _, rfl, notify_keeps _ c.disk n 1, rfl, notify_datafile _ c.disk n 1⟩

namespace BTreeIndex

variable {d : DiskSystem} {u : Memory} {t : BTreeIndex}

/-- All that is written is the superblock and the root. -/
theorem create_tiny (tiny : d.toDiskConfig.Tiny) (readable : d.ReadableBit 0) (room : 28 ≤ d.blocksize.toNat)
    (cachesize keysize valuesize : SizeT) :
    ∃ c' bytes super, create u 0 keysize valuesize (BufferCache.make d cachesize) = .ok (.noError, c') ∧
      Serves d.toDiskConfig c' bytes ∧ BTreeNode.ofBytes d.blocksize bytes = .ok super ∧
      super.info.freelist = 2 := by
  obtain ⟨rc1, c1, hnotify1, made, empty, -⟩ := notifyAllocateBlock_keeps (BufferCache.make d cachesize) 0
  have cfg1 : c1.disk.toDiskConfig = d.toDiskConfig := made.1
  have readable1 : c1.disk.ReadableBit 0 := (DiskSystem.readableBit_congr cfg1 made.2 0).mpr readable
  have size1 : c1.disk.blocksize = d.blocksize := congrArg DiskConfig.blocksize cfg1
  obtain ⟨sized1, same⟩ := newsuperblock_ok (c := c1) keysize valuesize
  obtain ⟨image, himage, length, back⟩ := toBlock_ok (u.array 0) sized1 (by rw [size1]; exact room)
  obtain ⟨c2, hsuper, miss, h2⟩ := Serves.first cfg1 readable1 empty (length.trans (by rw [size1]))
  obtain ⟨rc3, c3, hnotify3, cfg3, map, file⟩ := notifyAllocateBlock_keeps c2 1
  have h3 := h2.congr cfg3 map file
  obtain ⟨sized3, -⟩ := newrootnode_ok (c := c3) keysize valuesize
  obtain ⟨root, hroot, length', -⟩ := toBlock_ok (u.array 1) sized3 (by rw [h3.config]; exact room)
  obtain ⟨c4, hwrite, h4⟩ := h3.write tiny (map ▸ miss) (length'.trans (by rw [h3.config]))
  have count : c4.getNumBlocks.toNat - (2 : SizeT).toNat = 0 := by
    have two := tiny.two
    rw [getNumBlocks, h4.config, Nat.sub_eq_zero_iff_le]
    exact Nat.le_of_lt_succ two
  refine ⟨c4, image.data, newsuperblock c1 0 keysize valuesize, ?_, h4, ?_, rfl⟩
  · simp only [create, hnotify1]
    rw [show (0 : SizeT) + 1 = 1 from rfl, show (0 : SizeT) + 2 = 2 from rfl, serialize_eq sized1 himage]
    simp only [hsuper, Runs.ok_bind, ne_eq, not_true, if_false, hnotify3]
    rw [serialize_eq sized3 hroot]
    simp only [hwrite, Runs.ok_bind, not_true, if_false, count]
    rfl
  · rw [← size1, back, same]

/-- Formatting such a disk succeeds, and the free list starts with block 2. -/
theorem attach_tiny (tiny : d.toDiskConfig.Tiny) (readable : d.ReadableBit 0) (room : 28 ≤ d.blocksize.toNat)
    (cachesize keysize valuesize : SizeT) :
    ∃ t, (make u keysize valuesize (BufferCache.make d cachesize)).attach u 0 true = .ok (.noError, t) ∧
      t.superblock.info.freelist = 2 := by
  obtain ⟨c1, bytes, super, hcreate, h1, back, head⟩ :=
    create_tiny (u := u) tiny readable room cachesize keysize valuesize
  obtain ⟨block, c2, hread, data, cfg2⟩ := h1.read tiny
  have size : c2.getBlockSize = d.blocksize := congrArg DiskConfig.blocksize cfg2
  refine ⟨⟨c2, 0, super⟩, ?_, head⟩
  simp only [attach, make, BTreeNode.default, ne_eq, not_true, if_false, if_true, hcreate, Runs.ok_bind,
    unserialize, hread, size, data, back, Runs.pure_eq_ok]

/-- A block shorter than the metadata is overrun by the copy of the superblock. -/
theorem toBlock_short {node : BTreeNode} (short : node.info.blocksize.toNat < 28) (fresh : Nat → ByteT) :
    node.toBlock fresh = .error .outOfBounds := by
  have size : (28 : SizeT) + node.info.getNumDataBytes = node.info.blocksize := add_sub_cancel _ _
  have length : (Block.ofSize node.info.blocksize.toNat fresh).data.length = node.info.blocksize.toNat := by
    simp only [Block.ofSize, Block.ofBytes, List.length_map, List.length_range]
  have overrun : putBytes (Block.ofSize node.info.blocksize.toNat fresh).data 0 node.info.bytes = none := by
    rw [putBytes, if_neg]
    rw [length, NodeMetadata.bytes_length, NodeMetadata.sizeof]
    omega
  simp only [toBlock, size, overrun, inBounds, Runs.error_bind]

theorem attach_short (short : t.buffercache.disk.blocksize.toNat < 28) :
    t.attach u 0 true = .error .outOfBounds := by
  obtain ⟨rc, c, hnotify, config, -⟩ := notifyAllocateBlock_keeps t.buffercache 0
  have size : (newsuperblock c 0 t.superblock.info.keysize t.superblock.info.valuesize).info.blocksize =
      c.disk.blocksize := rfl
  have short' : c.disk.blocksize.toNat < 28 := by rw [config.1]; exact short
  have ends := toBlock_short (by rw [size]; exact short') (u.array 0)
  simp only [attach, ne_eq, not_true, if_false, if_true, create, hnotify, serialize, size, getBlockSize,
    ends, Runs.error_bind]

/-- Nor does formatting return where the bit of block 0 lies behind an empty bitmap, in memory that
cannot be read. -/
theorem attach_unreadable (unreadable : ¬ d.ReadableBit 0) (room : 28 ≤ d.blocksize.toNat)
    (cachesize keysize valuesize : SizeT) :
    (make u keysize valuesize (BufferCache.make d cachesize)).attach u 0 true = .error .outOfBounds := by
  obtain ⟨rc, c, hnotify, same, map, -⟩ := notifyAllocateBlock_keeps (BufferCache.make d cachesize) 0
  have empty : c.blockmap = ∅ := map
  have size : c.disk.blocksize = d.blocksize := congrArg DiskConfig.blocksize same.1
  obtain ⟨sized, -⟩ := newsuperblock_ok (c := c) keysize valuesize
  obtain ⟨image, himage, -⟩ := toBlock_ok (u.array 0) sized (by rw [size]; exact room)
  have miss : c.blockmap[(0 : SizeT)]? = none := by rw [empty]; rfl
  have asked : c.disk.isBlockAllocated 0 = .error .outOfBounds :=
    DiskSystem.isBlockAllocated_unreadable
      (mt (DiskSystem.readableBit_congr (d := d) same.1 same.2 0).mp unreadable)
  have ends : (newsuperblock c 0 keysize valuesize).serialize (u.array 0) c 0 = .error .outOfBounds := by
    rw [serialize_eq sized himage]
    simp only [writeBlock, miss, checkDeleteOldest_empty empty, isBlockAllocated, asked]
  simp only [attach, make, BTreeNode.default, ne_eq, not_true, if_false, if_true, create, hnotify, ends,
    Runs.error_bind]

end BTreeIndex
end BTreeLab
