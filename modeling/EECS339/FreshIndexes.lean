import EECS339.FreeList
import EECS339.WriteOrder

/-!
# Fresh indexes

Formatting succeeds into an index with a free list of existing blocks, unless the disk has no
room for three blocks or a block at a wrapped position is written over a part of another.
-/
namespace BTreeLab
open Words BTreeNode BufferCache

namespace BTreeIndex

variable {d : DiskSystem} {u : Memory} {t : BTreeIndex}

/-- 0, or a block behind the root. -/
def GoodHead (numblocks head : SizeT) : Prop := head = 0 ∨ (2 ≤ head ∧ head < numblocks)

/-- What a successful format promises. -/
structure UsableIndex (numblocks : SizeT) (t : BTreeIndex) : Prop where
  super : 0 < numblocks
  root : 1 < numblocks
  head : GoodHead numblocks t.superblock.info.freelist
  chain : ∃ l, (⟨t, ∅⟩ : Session).FreeList l ∧ ∀ n ∈ l, n < numblocks
  allocate : ∀ u, ∃ rc n t', t.allocateNode u = .ok (rc, n, t') ∧
    (rc = .noSpace ∨ (rc = .noError ∧ n < numblocks)) ∧ GoodHead numblocks t'.superblock.info.freelist

/-- `Attach(0, true)` by a new index on a new cache succeeds only into a usable index. -/
def FormatsUsably (d : DiskSystem) (cachesize keysize valuesize : SizeT) (u : Memory) : Prop :=
  ∀ t, (make u keysize valuesize (BufferCache.make d cachesize)).attach u 0 true = .ok (.noError, t) →
    UsableIndex d.numblocks t

theorem goodHead_freshLink {numblocks n : SizeT} (three : 3 ≤ numblocks.toNat) (inside : n < numblocks) :
    GoodHead numblocks (freshLink numblocks n) := by
  have two : (2 : SizeT) < numblocks := BitVec.lt_def.mpr three
  unfold freshLink
  split_ifs with reserved last
  · exact Or.inr ⟨le_rfl, two⟩
  · exact Or.inl rfl
  · rw [not_lt, BitVec.le_def] at reserved
    rw [BitVec.lt_def] at inside
    have bound := numblocks.isLt
    have next : (n + 1).toNat = n.toNat + 1 := succ_toNat (n := 0) (by omega)
    have ne : (n + 1).toNat ≠ numblocks.toNat := fun same => last (BitVec.eq_of_toNat_eq same)
    exact Or.inr ⟨by rw [BitVec.le_def]; omega, by rw [BitVec.lt_def]; omega⟩

/-- Links point to 0 or to a block behind their own. -/
theorem freshLink_later {numblocks n : SizeT} (two : 2 ≤ n) (inside : n < numblocks) :
    freshLink numblocks n = 0 ∨ n < freshLink numblocks n := by
  have bound := numblocks.isLt
  rw [BitVec.lt_def] at inside
  have next : (n + 1).toNat = n.toNat + 1 := succ_toNat (n := 0) (by omega)
  unfold freshLink
  rw [if_neg (not_lt.mpr two)]
  split_ifs
  · exact Or.inl rfl
  · exact Or.inr (by rw [BitVec.lt_def]; omega)

/-- The list from any good head ends, as each link points behind its own block. -/
theorem delivers_chain {c : BufferCache} (h : Delivers d c) (three : 3 ≤ d.numblocks.toNat) {head : SizeT}
    (good : GoodHead d.numblocks head) :
    ∃ l, LinkedChain.Chain (Session.FreeLink c) 0 head l ∧ ∀ n ∈ l, n < d.numblocks := by
  induction left : d.numblocks.toNat - head.toNat using Nat.strong_induction_on generalizing head with
  | _ k ih =>
      rcases good with rfl | ⟨two, inside⟩
      · exact ⟨[], rfl, by simp⟩
      · obtain ⟨m, le, inside', node, read, link, free⟩ := h.holds head two inside
        have tail : ∃ l, LinkedChain.Chain (Session.FreeLink c) 0 (freshLink d.numblocks m) l ∧
            ∀ n ∈ l, n < d.numblocks := by
          rcases freshLink_later (two.trans le) inside' with zero | later
          · rw [zero]
            exact ⟨[], rfl, by simp⟩
          · rw [BitVec.lt_def] at inside later
            rw [BitVec.le_def] at le
            exact ih _ (by omega) (goodHead_freshLink three inside') rfl
        obtain ⟨l, chain, all⟩ := tail
        refine ⟨head :: l, chain.push (Session.ne_zero_of_two_le two)
          ⟨node, ?_, free (two.trans le), link⟩, List.forall_mem_cons.mpr ⟨inside, all⟩⟩
        rw [nodeAt, h.config]
        exact read

/-- The first block of the list is handed out, and the superblock is written again. -/
theorem allocate_delivers (h : Delivers d t.buffercache) (room : 28 ≤ d.blocksize.toNat)
    (three : 3 ≤ d.numblocks.toNat) (index : t.superblockIndex = 0)
    (sized : t.superblock.WellSized d.blocksize) (good : GoodHead d.numblocks t.superblock.info.freelist)
    (u : Memory) :
    ∃ rc n t', t.allocateNode u = .ok (rc, n, t') ∧
      (rc = .noSpace ∨ (rc = .noError ∧ n < d.numblocks)) ∧
      GoodHead d.numblocks t'.superblock.info.freelist := by
  by_cases empty : t.superblock.info.freelist = 0
  · exact ⟨_, _, _, allocateNode_empty empty, Or.inl rfl, Or.inl empty⟩
  · obtain ⟨two, inside⟩ := good.resolve_left empty
    obtain ⟨b, c1, hread, usable, same, m, le, inside', node, image, link, free⟩ := h.reads _ two inside
    have config : c1.disk.toDiskConfig = d.toDiskConfig := same.1.trans h.config
    have size : c1.getBlockSize = d.blocksize := congrArg DiskConfig.blocksize config
    have sized' : (t.superblock.withFreelist node.info.freelist).WellSized c1.disk.blocksize := by
      rw [config]
      exact ⟨sized.blocksize, sized.data⟩
    obtain ⟨block, himage, length, -⟩ := toBlock_ok (u.array 0) sized' (by rw [config]; exact room)
    have zero : (0 : SizeT) < c1.disk.numblocks := by
      rw [config, BitVec.lt_def]
      exact lt_of_lt_of_le (by decide) three
    obtain ⟨c2, hwrite, -⟩ := writeBlock_accessed usable zero length
    refine ⟨.noError, _, ⟨(c2.notifyAllocateBlock t.superblock.info.freelist).2, 0,
      t.superblock.withFreelist node.info.freelist⟩, ?_, Or.inr ⟨rfl, inside⟩, ?_⟩
    · simp only [allocateNode, if_neg empty, unserialize, hread, Runs.ok_bind, ne_eq, not_true, if_false,
        size, image, Runs.pure_eq_ok, free (two.trans le), index]
      rw [serialize_eq sized' himage]
      simp only [hwrite, Runs.ok_bind]
    · change GoodHead d.numblocks node.info.freelist
      rw [link]
      exact goodHead_freshLink three inside'

theorem usable_of_delivers (h : Delivers d t.buffercache) (room : 28 ≤ d.blocksize.toNat)
    (three : 3 ≤ d.numblocks.toNat) (index : t.superblockIndex = 0)
    (sized : t.superblock.WellSized d.blocksize)
    (good : GoodHead d.numblocks t.superblock.info.freelist) : UsableIndex d.numblocks t := by
  refine ⟨BitVec.lt_def.mpr (lt_of_lt_of_le (by decide) three),
    BitVec.lt_def.mpr (lt_of_lt_of_le (by decide) three), good, delivers_chain h three good,
    allocate_delivers h room three index sized good⟩

/-- Formatting a disk with three blocks mounts block 0 as it is by then, and every block behind the
root holds a link. -/
theorem attach_delivers (rounds : d.machine.Monotone) (made : d.toDiskConfig.Made)
    {cachesize : SizeT} (whole : d.WritesWhole cachesize) (room : 28 ≤ d.blocksize.toNat)
    (three : 3 ≤ d.numblocks.toNat) (keysize valuesize : SizeT) :
    ∃ t, (make u keysize valuesize (BufferCache.make d cachesize)).attach u 0 true = .ok (.noError, t) ∧
      UsableIndex d.numblocks t := by
  obtain ⟨c1, p, hcreate, h1⟩ := filling_create (u := u) rounds made whole room three keysize valuesize
  have zero : 0 < d.numblocks := BitVec.lt_def.mpr (lt_of_lt_of_le (by decide) three)
  obtain ⟨b, c2, hread, ⟨m, -, inside, super, image, link, -⟩, h2⟩ := h1.mount whole made.offset zero
  have size : c2.getBlockSize = d.blocksize := congrArg DiskConfig.blocksize h2.config
  refine ⟨⟨c2, 0, super⟩, ?_, usable_of_delivers h2 room three rfl (ofBytes_inv image).1 ?_⟩
  · simp only [attach, make, BTreeNode.default, ne_eq, not_true, if_false, if_true, hcreate, Runs.ok_bind,
      unserialize, hread, size, image, Runs.pure_eq_ok]
  · change GoodHead d.numblocks super.info.freelist
    rw [link]
    exact goodHead_freshLink three inside

theorem unusable_of_two {numblocks : SizeT} (two : numblocks.toNat < 3)
    (head : t.superblock.info.freelist = 2) : ¬ UsableIndex numblocks t := by
  intro usable
  rcases usable.head with zero | ⟨-, lt⟩
  · rw [head] at zero
    exact absurd zero (by decide)
  · rw [head, BitVec.lt_def] at lt
    exact absurd lt (not_lt.mpr (Nat.le_of_lt_succ two))

/-- Formatting promises too much exactly on the disks without room for three blocks, as
long as the blocks that leave the cache do not overlap in part. A disk whose blocks cannot hold the
metadata is never formatted. -/
theorem formatsUsably_iff (rounds : d.machine.Monotone) (made : d.toDiskConfig.Made)
    (cachesize keysize valuesize : SizeT) (u : Memory) :
    (FormatsUsably d cachesize keysize valuesize u →
      d.blocksize.toNat < 28 ∨ ¬ d.ReadableBit 0 ∨ 3 ≤ d.numblocks.toNat) ∧
    (d.blocksize.toNat < 28 ∨ ¬ d.ReadableBit 0 ∨
        (3 ≤ d.numblocks.toNat ∧ d.WritesWhole cachesize) →
      FormatsUsably d cachesize keysize valuesize u) := by
  constructor
  · intro usable
    by_contra! outside
    obtain ⟨room, readable, two⟩ := outside
    obtain ⟨t, hattach, head⟩ := attach_tiny (u := u) ⟨made, two⟩ readable room cachesize keysize valuesize
    exact unusable_of_two two head (usable t hattach)
  · intro condition t hattach
    by_cases room : 28 ≤ d.blocksize.toNat
    · rcases condition with short | unreadable | ⟨three, whole⟩
      · exact absurd room (not_le.mpr short)
      · rw [attach_unreadable unreadable room] at hattach
        cases hattach
      · obtain ⟨t', hattach', usable⟩ :=
          attach_delivers (u := u) rounds made whole room three keysize valuesize
        rw [hattach] at hattach'
        cases hattach'
        exact usable
    · rw [attach_short (not_le.mp room)] at hattach
      cases hattach

theorem formatsUsably_iff_small :
    FormatsUsably (DiskSystem.make .small DiskSystem.smallConfig ByteFile.empty) 4 2 3 zeroMemory :=
  (formatsUsably_iff Machine.small_exact.monotone ⟨rfl, DiskSystem.smallConfig_accepted⟩ 4 2 3
    zeroMemory).2 (Or.inr (Or.inr ⟨by decide, Or.inr (Or.inl (by decide))⟩))

/-- Two blocks, one track of two sectors. -/
def twoBlocks : DiskConfig := ⟨0, 2, 1024, 1, 2, 1, 100, 10, 28 / 100⟩

theorem twoBlocks_tiny : twoBlocks.Tiny where
  offset := rfl
  geometry := by norm_num [sanityCheckConfig, twoBlocks]
  two := by decide

/-- With two blocks the free list starts with a block that the disk does not have. -/
theorem two_blocks_formatted : ∃ t,
    (make zeroMemory 2 3 (BufferCache.make (DiskSystem.make .small twoBlocks ByteFile.empty) 4)).attach
        zeroMemory 0 true = .ok (.noError, t) ∧
      t.superblock.info.freelist = 2 ∧ ¬ UsableIndex 2 t := by
  obtain ⟨t, hattach, head⟩ := attach_tiny (d := DiskSystem.make .small twoBlocks ByteFile.empty)
    (u := zeroMemory) twoBlocks_tiny (DiskSystem.readableBit_of_lt (by decide)) (by decide) 4 2 3
  exact ⟨t, hattach, head, unusable_of_two (by decide) head⟩

end BTreeIndex
end BTreeLab
