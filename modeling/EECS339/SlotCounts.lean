import EECS339.NodeLayout
import EECS339.TinyDisks

/-!
# The slot counts of an index

`Attach` formats a disk with whatever key and value sizes it is given. The counts of
slots subtract, add and divide these sizes, and nothing checks them before.
-/
namespace BTreeLab
open BTreeNode BufferCache BTreeIndex

namespace NodeMetadata

variable {m : NodeMetadata}

/-- A node of an index on a disk with these blocks, for keys and values of these sizes. -/
structure Sized (m : NodeMetadata) (blocksize keysize valuesize : SizeT) : Prop where
  blocksize : m.blocksize = blocksize
  keysize : m.keysize = keysize
  valuesize : m.valuesize = valuesize

/-- Nothing wraps, no quotient is cut off, no divisor is zero, and the slots counted
fit behind the metadata. Where the code subtracts, the inequalities are over the
integers. -/
structure CapacitySound (m : NodeMetadata) : Prop where
  dataBytes : 28 ≤ m.blocksize.toNat
  pointer : 4 ≤ m.getNumDataBytes.toNat
  pair : m.keysize.toNat + m.valuesize.toNat < 2 ^ 32
  divisor : m.getNumSlotsAsLeaf ≠ .error .divisionByZero
  separators : (m.getNumDataBytes.toNat - 4) / (m.keysize.toNat + 4) < 2 ^ 32
  pairs : (m.getNumDataBytes.toNat - 4) / (m.keysize.toNat + m.valuesize.toNat) < 2 ^ 32
  interior : 4 + m.getNumSlotsAsInterior.toNat * (m.keysize.toNat + 4) + 28 ≤ m.blocksize.toNat
  leaf : ∀ s, m.getNumSlotsAsLeaf = .ok s →
    4 + s.toNat * (m.keysize.toNat + m.valuesize.toNat) + 28 ≤ m.blocksize.toNat

theorem quotient_lt (x : SizeT) (k n : Nat) : (x.toNat - k) / n < 2 ^ 32 := by
  have small := Nat.div_le_self (x.toNat - k) n
  have bound := x.isLt
  omega

theorem interior_slots_fit (room : 32 ≤ m.blocksize.toNat) :
    4 + m.getNumSlotsAsInterior.toNat * (m.keysize.toNat + 4) + 28 ≤ m.blocksize.toNat := by
  rw [getNumSlotsAsInterior_toNat room]
  have slots := Nat.div_mul_le_self (m.blocksize.toNat - 32) (m.keysize.toNat + 4)
  omega

theorem pair_eq_zero (pair : m.keysize.toNat + m.valuesize.toNat < 2 ^ 32) :
    m.keysize + m.valuesize = 0 ↔ m.keysize.toNat + m.valuesize.toNat = 0 := by
  have sum : (m.keysize + m.valuesize).toNat = m.keysize.toNat + m.valuesize.toNat := by
    rw [BitVec.toNat_add, Nat.mod_eq_of_lt pair]
  rw [← sum]
  exact BitVec.toNat_inj.symm

theorem leaf_slots_fit (room : 32 ≤ m.blocksize.toNat)
    (pair : m.keysize.toNat + m.valuesize.toNat < 2 ^ 32) {s : SizeT} (slots : m.getNumSlotsAsLeaf = .ok s) :
    4 + s.toNat * (m.keysize.toNat + m.valuesize.toNat) + 28 ≤ m.blocksize.toNat := by
  have divisor : m.keysize + m.valuesize ≠ 0 := by
    intro zero
    rw [getNumSlotsAsLeaf, if_pos zero] at slots
    cases slots
  obtain ⟨s', slots', count⟩ := getNumSlotsAsLeaf_ok room divisor
  rw [slots] at slots'
  cases slots'
  rw [count, BitVec.toNat_add, Nat.mod_eq_of_lt pair]
  have fit := Nat.div_mul_le_self (m.blocksize.toNat - 32) (m.keysize.toNat + m.valuesize.toNat)
  omega

theorem capacitySound_iff : m.CapacitySound ↔ 32 ≤ m.blocksize.toNat ∧
    0 < m.keysize.toNat + m.valuesize.toNat ∧ m.keysize.toNat + m.valuesize.toNat < 2 ^ 32 := by
  constructor
  · intro sound
    have bytes := getNumDataBytes_toNat sound.dataBytes
    have pointer := sound.pointer
    refine ⟨by omega, Nat.pos_of_ne_zero ?_, sound.pair⟩
    intro zero
    apply sound.divisor
    rw [getNumSlotsAsLeaf, if_pos ((pair_eq_zero sound.pair).mpr zero)]
  · rintro ⟨room, positive, pair⟩
    have bytes := getNumDataBytes_toNat (m := m) (by omega)
    refine ⟨by omega, by omega, pair, ?_, quotient_lt _ _ _, quotient_lt _ _ _,
      interior_slots_fit room, fun s => leaf_slots_fit room pair⟩
    intro zero
    rw [getNumSlotsAsLeaf, if_neg fun none => positive.ne' ((pair_eq_zero pair).mp none)] at zero
    cases zero

end NodeMetadata

namespace BTreeIndex

/-- The nodes that `Attach` makes have the sizes of the index. -/
theorem new_nodes_sized (c : BufferCache) (keysize valuesize i : SizeT) :
    (newsuperblock c 0 keysize valuesize).info.Sized c.getBlockSize keysize valuesize ∧
      (newrootnode c 0 keysize valuesize).info.Sized c.getBlockSize keysize valuesize ∧
      (newfreenode c 0 keysize valuesize i).info.Sized c.getBlockSize keysize valuesize :=
  ⟨⟨rfl, rfl, rfl⟩, ⟨rfl, rfl, rfl⟩, ⟨rfl, rfl, rfl⟩⟩

/-- On every disk with these blocks that can be formatted, the capacity arithmetic of the
nodes is sound. -/
def CountsSoundly (blocksize keysize valuesize : SizeT) : Prop :=
  ∀ (d : DiskSystem) (cachesize : SizeT) (u : Memory) (t : BTreeIndex),
    d.toDiskConfig.Made → d.blocksize = blocksize →
    (make u keysize valuesize (BufferCache.make d cachesize)).attach u 0 true = .ok (.noError, t) →
    ∀ m : NodeMetadata, m.Sized d.blocksize keysize valuesize → m.CapacitySound

/-- One block of any size. -/
def oneBlock (blocksize : SizeT) : DiskConfig := ⟨0, 1, blocksize, 1, 1, 1, 100, 10, 28 / 100⟩

theorem oneBlock_tiny (blocksize : SizeT) : (oneBlock blocksize).Tiny where
  offset := rfl
  geometry := by norm_num [sanityCheckConfig, oneBlock]
  two := show (1 : SizeT).toNat < 3 by decide

/-- Formatting a disk does not ask what the blocks have room for, nor whether keys and
values have a size at all. -/
theorem countsSoundly_iff (blocksize keysize valuesize : SizeT) :
    CountsSoundly blocksize keysize valuesize ↔
      blocksize.toNat < 28 ∨ (32 ≤ blocksize.toNat ∧ 0 < keysize.toNat + valuesize.toNat ∧
        keysize.toNat + valuesize.toNat < 2 ^ 32) := by
  constructor
  · intro sound
    by_cases short : blocksize.toNat < 28
    · exact Or.inl short
    · right
      let d := DiskSystem.make .small (oneBlock blocksize) ByteFile.empty
      have tiny : d.toDiskConfig.Tiny := oneBlock_tiny blocksize
      have one : (0 : SizeT) < d.numblocks := show (0 : SizeT) < 1 by decide
      obtain ⟨t, hattach, -⟩ := attach_tiny (u := zeroMemory) tiny (DiskSystem.readableBit_of_lt one)
        (not_lt.mp short) 1 keysize valuesize
      exact NodeMetadata.capacitySound_iff.mp (sound d 1 zeroMemory t tiny.toMade rfl hattach
        ⟨0, keysize, valuesize, blocksize, 0, 0, 0⟩ ⟨rfl, rfl, rfl⟩)
  · rintro (short | fits) d cachesize u t - rfl hattach m ⟨size, keys, values⟩
    · rw [attach_short short] at hattach
      cases hattach
    · apply NodeMetadata.capacitySound_iff.mpr
      rw [size, keys, values]
      exact fits

/-- An index without keys and values is created, and its first leaf divides by zero. -/
theorem empty_pairs_formatted : ∃ t,
    (make zeroMemory 0 0
        (BufferCache.make (DiskSystem.make .small DiskSystem.smallConfig ByteFile.empty) 4)).attach
      zeroMemory 0 true = .ok (.noError, t) ∧
      t.superblock.info.Sized 1024 0 0 ∧
      t.superblock.info.getNumSlotsAsLeaf = .error .divisionByZero ∧
      ¬ t.superblock.info.CapacitySound := by
  obtain ⟨c, hattach, -, config, -, -⟩ := attach_create_ok (u := zeroMemory)
    (t := make zeroMemory 0 0
      (BufferCache.make (DiskSystem.make .small DiskSystem.smallConfig ByteFile.empty) 4))
    (valid_make DiskSystem.smallConfig_sound 4).1 (by decide) (by decide)
  have size : c.getBlockSize = 1024 := congrArg DiskConfig.blocksize config
  have sized := (new_nodes_sized c 0 0 2).1
  rw [size] at sized
  have divides : (newsuperblock c 0 0 0).info.getNumSlotsAsLeaf = .error .divisionByZero := rfl
  exact ⟨_, hattach, sized, divides, fun sound => sound.divisor divides⟩

end BTreeIndex
end BTreeLab
