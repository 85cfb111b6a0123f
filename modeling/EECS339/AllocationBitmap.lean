import EECS339.FreeList

/-!
# The bitmap and the free list

The bitmap of the disk and the free list of the index record the same thing. Every
operation keeps them in step except formatting, which empties the record of the
index and leaves the bits of the blocks then held.
-/
namespace BTreeLab.Session
open PackedBits BTreeNode BufferCache

variable {cfg : DiskConfig} {s : Session} {u : Memory}

/-- Allocated in the bitmap are the superblock, the root and the blocks that are not
on the free list. -/
def BitmapAgrees (numblocks : SizeT) (s : Session) : Prop :=
  ∃ l, s.FreeList l ∧ ∀ n, n < numblocks →
    ∃ bit, s.index.buffercache.isBlockAllocated n = .ok bit ∧
      (bit = true ↔ n = 0 ∨ n = 1 ∨ (2 ≤ n ∧ n ∉ l))

/-- Nothing is held when the index is made anew. -/
def FormatsUnused (s : Session) : Op → Prop
  | .format .. => s.held = ∅
  | _ => True

def bitmap (s : Session) : List ByteT := s.index.buffercache.disk.bitmap

/-- The free list is known, and the bitmap has a bit for every block. -/
def BitInv (cfg : DiskConfig) (s : Session) : Prop :=
  s.Inv cfg ∧ s.bitmap.length = byteCount cfg.numblocks.toNat

theorem Inv.agrees_iff (h : s.Inv cfg) : s.BitmapAgrees cfg.numblocks ↔
    ∀ n, n < cfg.numblocks → (getBit s.bitmap n.toNat = true ↔ n = 0 ∨ n = 1 ∨ n ∈ s.held) := by
  obtain ⟨l, free, -, mem⟩ := h.free
  have outside (n : SizeT) (hn : n < cfg.numblocks) : (2 ≤ n ∧ n ∉ l) ↔ n ∈ s.held := by
    constructor
    · rintro ⟨lo, absent⟩
      by_contra unheld
      exact absent ((mem n).mpr ⟨lo, hn, unheld⟩)
    · intro held
      exact ⟨(h.range n held).1, fun m => ((mem n).mp m).2.2 held⟩
  have asked (n : SizeT) (hn : n < cfg.numblocks) :
      s.index.buffercache.isBlockAllocated n = .ok (getBit s.bitmap n.toNat) :=
    DiskSystem.isBlockAllocated_ok (h.config ▸ hn)
  constructor
  · rintro ⟨l', free', agrees⟩ n hn
    obtain ⟨bit, answer, agrees⟩ := agrees n hn
    rw [asked n hn] at answer
    cases answer
    rw [agrees, free'.unique free, outside n hn]
  · intro agrees
    refine ⟨l, free, fun n hn => ⟨_, asked n hn, ?_⟩⟩
    rw [agrees n hn, outside n hn]

theorem not_reserved {n : SizeT} (h : 2 ≤ n) : n ≠ 0 ∧ n ≠ 1 :=
  ⟨fun e => absurd (e ▸ h) (by decide), fun e => absurd (e ▸ h) (by decide)⟩

section Bits

variable {bits : List ByteT} {n m : SizeT} (length : bits.length = byteCount cfg.numblocks.toNat)
  (hm : m < cfg.numblocks)
include length hm

theorem getBit_set : getBit (setBit bits m.toNat) n.toNat = true ↔ n = m ∨ getBit bits n.toNat = true := by
  rw [getBit_setBit (length ▸ lt_byteCount (BitVec.lt_def.mp hm))]
  by_cases same : n = m
  · simp [same]
  · have ne : m.toNat ≠ n.toNat := fun e => same (BitVec.eq_of_toNat_eq e).symm
    simp [same, ne]

theorem getBit_clear :
    getBit (clearBit bits m.toNat) n.toNat = true ↔ n ≠ m ∧ getBit bits n.toNat = true := by
  rw [getBit_clearBit (length ▸ lt_byteCount (BitVec.lt_def.mp hm))]
  by_cases same : n = m
  · simp [same]
  · have ne : m.toNat ≠ n.toNat := fun e => same (BitVec.eq_of_toNat_eq e).symm
    simp [same, ne]

end Bits

theorem getBit_format {bits : List ByteT} (length : bits.length = byteCount cfg.numblocks.toNat)
    (three : 3 ≤ cfg.numblocks.toNat) (n : SizeT) :
    getBit (setBit (setBit bits 0) 1) n.toNat = true ↔
      n = 0 ∨ n = 1 ∨ getBit bits n.toNat = true := by
  have zero : (0 : SizeT) < cfg.numblocks := BitVec.lt_def.mpr (by simp; omega)
  have one : (1 : SizeT) < cfg.numblocks := BitVec.lt_def.mpr (by simp; omega)
  have set0 := getBit_set (n := n) (m := 0) length zero
  have set1 : getBit (setBit (setBit bits 0) (1 : SizeT).toNat) n.toNat = true ↔
      n = 1 ∨ getBit (setBit bits 0) n.toNat = true :=
    getBit_set ((setBit_length _ _).trans length) one
  refine set1.trans ((or_congr_right set0).trans ?_)
  tauto

theorem format_agrees (inv : s.Inv cfg) (length : s.bitmap.length = byteCount cfg.numblocks.toNat)
    (good : s.BitmapAgrees cfg.numblocks) {s' : Session} (inv' : s'.Inv cfg) (held : s'.held = ∅)
    (bits : s'.bitmap = setBit (setBit s.bitmap 0) 1) :
    s'.BitmapAgrees cfg.numblocks ↔ s.held = ∅ := by
  rw [inv.agrees_iff] at good
  rw [inv'.agrees_iff, held]
  simp only [bits, getBit_format length inv.three, Finset.notMem_empty, or_false]
  constructor
  · intro agrees
    refine Finset.eq_empty_of_forall_notMem fun n hn => ?_
    obtain ⟨lo, hi⟩ := inv.range n hn
    have stale := (agrees n hi).mp (Or.inr (Or.inr ((good n hi).mpr (Or.inr (Or.inr hn)))))
    exact stale.elim (not_reserved lo).1 (not_reserved lo).2
  · intro empty n hn
    rw [good n hn, empty]
    simp only [Finset.notMem_empty, or_false]
    tauto

theorem allocate_agrees (inv : s.Inv cfg) (length : s.bitmap.length = byteCount cfg.numblocks.toNat)
    (good : s.BitmapAgrees cfg.numblocks) {n : SizeT} (hn : n < cfg.numblocks) {s' : Session}
    (inv' : s'.Inv cfg) (held : s'.held = insert n s.held) (bits : s'.bitmap = setBit s.bitmap n.toNat) :
    s'.BitmapAgrees cfg.numblocks := by
  rw [inv.agrees_iff] at good
  rw [inv'.agrees_iff, held, bits]
  intro m hm
  rw [getBit_set length hn, good m hm, Finset.mem_insert]
  tauto

theorem deallocate_agrees (inv : s.Inv cfg) (length : s.bitmap.length = byteCount cfg.numblocks.toNat)
    (good : s.BitmapAgrees cfg.numblocks) {n : SizeT} (hn : n ∈ s.held) {s' : Session}
    (inv' : s'.Inv cfg) (held : s'.held = s.held.erase n) (bits : s'.bitmap = clearBit s.bitmap n.toNat) :
    s'.BitmapAgrees cfg.numblocks := by
  obtain ⟨lo, hi⟩ := inv.range n hn
  obtain ⟨ne0, ne1⟩ := not_reserved lo
  rw [inv.agrees_iff] at good
  rw [inv'.agrees_iff, held, bits]
  intro m hm
  rw [getBit_clear length hi, good m hm, Finset.mem_erase]
  constructor
  · tauto
  · rintro (rfl | rfl | ⟨ne, held⟩)
    · exact ⟨ne0.symm, Or.inl rfl⟩
    · exact ⟨ne1.symm, Or.inr (Or.inl rfl)⟩
    · exact ⟨ne, Or.inr (Or.inr held)⟩

/-- Mounting again touches neither record. -/
theorem agrees_congr (inv : s.Inv cfg) (good : s.BitmapAgrees cfg.numblocks) {s' : Session}
    (inv' : s'.Inv cfg) (held : s'.held = s.held) (bits : s'.bitmap = s.bitmap) :
    s'.BitmapAgrees cfg.numblocks := by
  rw [inv.agrees_iff] at good
  rw [inv'.agrees_iff, held, bits]
  exact good

/-- One step keeps the two records in step exactly when it does not reformat a disk
in use. -/
theorem step_agrees (h : s.BitInv cfg) {op : Op} (legal : s.Legal op) :
    ∃ r s', s.step op = .ok (r, s') ∧ s'.BitInv cfg ∧
      (s.BitmapAgrees cfg.numblocks → (s'.BitmapAgrees cfg.numblocks ↔ s.FormatsUnused op)) := by
  obtain ⟨inv, length⟩ := h
  cases op with
  | format u keysize valuesize =>
      obtain ⟨s', hstep, inv', held, bits⟩ := format_ok (u := u) inv keysize valuesize
      refine ⟨_, s', hstep, ⟨inv', ?_⟩, fun good => format_agrees inv length good inv' held bits⟩
      rw [bitmap, bits, setBit_length, setBit_length]
      exact length
  | allocate u node =>
      obtain ⟨rc, n, s', hstep, inv', ⟨-, rfl, -⟩ | ⟨-, -, hn, -, held, bits⟩⟩ := allocate_ok inv legal
      · exact ⟨_, _, hstep, ⟨inv, length⟩, fun good => iff_of_true good trivial⟩
      · refine ⟨_, s', hstep, ⟨inv', ?_⟩,
          fun good => iff_of_true (allocate_agrees inv length good hn inv' held bits) trivial⟩
        rw [bitmap, bits, setBit_length]
        exact length
  | deallocate u n =>
      obtain ⟨t, hfree, inv', bits⟩ := deallocate_ok (u := u) inv legal
      refine ⟨(.noError, n), ⟨t, s.held.erase n⟩, ?_, ⟨inv', ?_⟩,
        fun good => iff_of_true (deallocate_agrees inv length good legal inv' rfl bits) trivial⟩
      · simp only [step, hfree, Runs.ok_bind, Runs.pure_eq_ok]
      · rw [bitmap, bits, clearBit_length]
        exact length
  | remount u =>
      obtain ⟨s', hstep, inv', held, bits⟩ := remount_ok (u := u) inv
      exact ⟨_, s', hstep, ⟨inv', (congrArg List.length bits).trans length⟩,
        fun good => iff_of_true (agrees_congr inv good inv' held bits) trivial⟩
  | reopen u cachesize =>
      obtain ⟨s', hstep, inv', held, bits⟩ := reopen_ok (u := u) inv cachesize
      exact ⟨_, s', hstep, ⟨inv', (congrArg List.length bits).trans length⟩,
        fun good => iff_of_true (agrees_congr inv good inv' held bits) trivial⟩

theorem visits_agrees_iff {ops : List Op} (h : s.BitInv cfg) (good : s.BitmapAgrees cfg.numblocks)
    (legal : Runs.Along step Legal s ops) :
    Runs.Visits step (BitmapAgrees cfg.numblocks) s ops ↔ Runs.Along step FormatsUnused s ops := by
  have determined {s s' : Session} {op : Op} {r : ErrorT × SizeT} (h : s.BitInv cfg)
      (ok : s.Legal op) (hstep : s.step op = .ok (r, s')) : s'.BitInv cfg ∧
        (s.BitmapAgrees cfg.numblocks → (s'.BitmapAgrees cfg.numblocks ↔ s.FormatsUnused op)) := by
    obtain ⟨r1, s1, hstep1, inv1, agrees1⟩ := step_agrees h ok
    rw [hstep] at hstep1
    cases hstep1
    exact ⟨inv1, agrees1⟩
  refine Runs.visits_iff_along (I := BitInv cfg) ?_ ?_ ?_ h good legal
  · intro s op h _ ok _
    obtain ⟨r, s', hstep, -⟩ := step_agrees h ok
    exact ⟨r, s', hstep⟩
  · exact fun s op r s' h ok hstep => (determined h ok hstep).1
  · exact fun s op r s' h good ok hstep => (determined h ok hstep).2 good

theorem attach_agrees {m : Machine} {file : ByteFile} (sound : (DiskSystem.make m cfg file).Sound)
    (three : 3 ≤ cfg.numblocks.toNat) (room : 28 ≤ cfg.blocksize.toNat)
    (cachesize keysize valuesize : SizeT) :
    ∃ t, (BTreeIndex.make u keysize valuesize
        (BufferCache.make (DiskSystem.make m cfg file) cachesize)).attach u 0 true = .ok (.noError, t) ∧
      (⟨t, ∅⟩ : Session).BitInv cfg ∧ (⟨t, ∅⟩ : Session).BitmapAgrees cfg.numblocks := by
  obtain ⟨t, hattach, inv, bits⟩ := attach_inv u cfg
    (BTreeIndex.make u keysize valuesize (BufferCache.make (DiskSystem.make m cfg file) cachesize))
    (valid_make sound cachesize).1 rfl room three
  have clear : (BTreeIndex.make u keysize valuesize
        (BufferCache.make (DiskSystem.make m cfg file) cachesize)).buffercache.disk.bitmap =
      List.replicate (byteCount cfg.numblocks.toNat) 0 := rfl
  have length : (List.replicate (byteCount cfg.numblocks.toNat) (0 : ByteT)).length =
      byteCount cfg.numblocks.toNat := List.length_replicate
  refine ⟨t, hattach, ⟨inv, ?_⟩, ?_⟩
  · rw [bitmap, bits, setBit_length, setBit_length]
    exact length
  · rw [inv.agrees_iff]
    intro n hn
    rw [bitmap, bits, clear, getBit_format length three, getBit_replicate_zero]
    simp

/-- After formatting a fresh disk, the bitmap and the free list agree in every state
of a history exactly when it never formats again while blocks are held. -/
theorem bitmapAgrees_iff (m : Machine) (file : ByteFile) (sound : (DiskSystem.make m cfg file).Sound)
    (three : 3 ≤ cfg.numblocks.toNat) (room : 28 ≤ cfg.blocksize.toNat)
    (cachesize keysize valuesize : SizeT) (u : Memory) :
    ∃ t, (BTreeIndex.make u keysize valuesize
        (BufferCache.make (DiskSystem.make m cfg file) cachesize)).attach u 0 true = .ok (.noError, t) ∧
      ∀ ops, Runs.Along step Legal ⟨t, ∅⟩ ops →
        (Runs.Visits step (BitmapAgrees cfg.numblocks) ⟨t, ∅⟩ ops ↔
          Runs.Along step FormatsUnused ⟨t, ∅⟩ ops) := by
  obtain ⟨t, hattach, inv, good⟩ := attach_agrees (u := u) sound three room cachesize keysize valuesize
  exact ⟨t, hattach, fun ops legal => visits_agrees_iff inv good legal⟩

def smallLeaf : BTreeNode := BTreeNode.make btreeLeafNode 1 1 1024

theorem smallLeaf_legal (inv : s.Inv DiskSystem.smallConfig) : s.Legal (.allocate u smallLeaf) := by
  refine ⟨by decide, ?_⟩
  rw [inv.config]
  exact wellSized_make btreeLeafNode 1 1 1024

theorem bitmapAgrees_iff_small :
    ∃ t, Runs.Visits step (BitmapAgrees 64) ⟨t, ∅⟩
      [.format zeroMemory 2 2, .allocate zeroMemory smallLeaf, .remount zeroMemory] := by
  obtain ⟨t, hattach, law⟩ := bitmapAgrees_iff .small ByteFile.empty DiskSystem.smallConfig_sound
    (by decide) (by decide) 1 1 1 zeroMemory
  obtain ⟨t', hattach', inv, -⟩ := attach_agrees (u := zeroMemory) (m := .small)
    DiskSystem.smallConfig_sound (by decide) (by decide) 1 1 1
  rw [hattach] at hattach'
  cases hattach'
  have legal : Runs.Along step Legal ⟨t, ∅⟩
      [.format zeroMemory 2 2, .allocate zeroMemory smallLeaf, .remount zeroMemory] :=
    ⟨trivial, fun _ _ hstep =>
      ⟨smallLeaf_legal (step_inv inv.1 (show Legal _ (.format zeroMemory 2 2) from trivial) hstep),
        fun _ _ _ => ⟨trivial, fun _ _ _ => trivial⟩⟩⟩
  exact ⟨t, (law _ legal).mpr
    ⟨rfl, fun _ _ _ => ⟨trivial, fun _ _ _ => ⟨trivial, fun _ _ _ => trivial⟩⟩⟩⟩

/-- The block in use when the disk is formatted again is free and allocated at once. -/
theorem reformat_leaves_bits :
    ∃ t, (BTreeIndex.make zeroMemory 1 1 (BufferCache.make
          (DiskSystem.make .small DiskSystem.smallConfig ByteFile.empty) 1)).attach zeroMemory 0 true =
        .ok (.noError, t) ∧
      Runs.Along step Legal ⟨t, ∅⟩
        [.allocate zeroMemory smallLeaf, .format zeroMemory 1 1] ∧
      ¬ Runs.Visits step (BitmapAgrees 64) ⟨t, ∅⟩
        [.allocate zeroMemory smallLeaf, .format zeroMemory 1 1] := by
  obtain ⟨t, hattach, inv, good⟩ := attach_agrees (u := zeroMemory) (m := .small) DiskSystem.smallConfig_sound
    (by decide) (by decide) 1 1 1
  have legal : Runs.Along step Legal ⟨t, ∅⟩
      [.allocate zeroMemory smallLeaf, .format zeroMemory 1 1] :=
    ⟨smallLeaf_legal inv.1, fun _ _ _ => ⟨trivial, fun _ _ _ => trivial⟩⟩
  refine ⟨t, hattach, legal, fun visits => ?_⟩
  have along := (visits_agrees_iff inv good legal).mp visits
  obtain ⟨rc, n, s', hstep, -, ⟨-, -, full⟩ | ⟨-, -, -, -, held, -⟩⟩ := allocate_ok inv.1 legal.1
  · exact absurd (full 2 le_rfl (by decide)) (Finset.notMem_empty _)
  · have unused : s'.held = ∅ := (along.2 _ s' hstep).1
    rw [held] at unused
    exact Finset.insert_ne_empty _ _ unused

end BTreeLab.Session
