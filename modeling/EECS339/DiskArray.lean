import EECS339.Lib.Runs
import EECS339.DiskSystem

/-!
# The disk as an array of blocks

When the byte ranges of the blocks are apart and reading any of them cannot cut
the data file, reads and writes are those of a plain array.
-/
namespace BTreeLab
open Words

/-! ## One block of the file -/

/-- The bytes behind the first `len` play no part. -/
theorem mywrite_of_le {buf : List ByteT} {len : SizeT} (f : ByteFile) (off : SizeT)
    (h : len.toNat ≤ buf.length) :
    mywrite f off buf len = .ok (len.toNat, f.write off.toNat (buf.take len.toNat)) := by
  have taken : (buf.take len.toNat).length = len.toNat := List.length_take_of_le h
  simp only [mywrite, not_lt.mpr h, if_false]
  by_cases zero : len.toNat = 0
  · rw [zero, List.take_zero, mywriteFrom, if_pos rfl, ByteFile.write_nil]
    rfl
  · rw [mywriteFrom, if_neg zero, dif_neg (by simpa [taken] using zero), mywriteFrom,
      if_pos (by simp [taken])]
    simp [taken]

theorem mywrite_ok {buf : List ByteT} {len : SizeT} (f : ByteFile) (off : SizeT)
    (h : buf.length = len.toNat) :
    mywrite f off buf len = .ok (len.toNat, f.write off.toNat buf) := by
  rw [mywrite_of_le f off (le_of_eq h.symm), List.take_of_length_le (le_of_eq h)]

theorem Machine.bytesAt_of_le (m : Machine) {b : Block} {len : SizeT} (h : len.toNat ≤ b.length) :
    m.bytesAt b len = .ok b.data := by
  simp only [Machine.bytesAt, Nat.sub_eq_zero_of_le h, List.range_zero, List.mapM_nil]
  exact congrArg Except.ok (List.append_nil _)

theorem mapM_length {α β : Type} {f : α → Option β} {l : List α} {bs : List β} (h : l.mapM f = some bs) :
    bs.length = l.length := by
  induction l generalizing bs with
  | nil =>
      cases h
      rfl
  | cons a l ih =>
      rw [List.mapM_cons] at h
      obtain ⟨b, -, rest⟩ := Option.bind_eq_some_iff.mp h
      obtain ⟨bs', found, same⟩ := Option.bind_eq_some_iff.mp rest
      cases same
      rw [List.length_cons, List.length_cons, ih found]

/-- The bytes of the block come first, and there are enough of them. -/
theorem Machine.bytesAt_inv {m : Machine} {b : Block} {len : SizeT} {buf : List ByteT}
    (h : m.bytesAt b len = .ok buf) : b.data <+: buf ∧ len.toNat ≤ buf.length := by
  unfold Machine.bytesAt at h
  split at h
  · cases h
  · next behind found =>
      cases h
      refine ⟨List.prefix_append _ _, ?_⟩
      rw [List.length_append, mapM_length found, List.length_range, Block.length]
      omega

theorem myreadFrom_done (f : ByteFile) (off len : SizeT) (b : Bool) (buf : List ByteT) :
    myreadFrom f off len b 0 buf = (buf, f) := by
  rw [myreadFrom, if_pos rfl]

/-- At the end of the file the length is set to the 32-bit sum and the read restarts. -/
theorem myreadFrom_eof {f : ByteFile} {off len : SizeT} {left : Nat} (b : Bool)
    (buf : List ByteT) (more : left ≠ 0) (h : f.size ≤ off.toNat + (len.toNat - left)) :
    myreadFrom f off len b left buf =
      if b then myreadFrom (f.truncate (off + len).toNat) off len false len.toNat [] else (buf, f) := by
  have nothing : (f.read (off.toNat + (len.toNat - left)) left).length = 0 := by
    rw [ByteFile.read_length]; omega
  conv_lhs => rw [myreadFrom, if_neg more]
  exact dif_pos nothing

theorem myreadFrom_some {f : ByteFile} {off len : SizeT} {left : Nat} (b : Bool)
    (buf : List ByteT) (more : left ≠ 0) (h : off.toNat + (len.toNat - left) < f.size) :
    myreadFrom f off len b left buf =
      myreadFrom f off len b (left - min left (f.size - (off.toNat + (len.toNat - left))))
        (buf ++ f.read (off.toNat + (len.toNat - left)) left) := by
  have something : min left (f.size - (off.toNat + (len.toNat - left))) ≠ 0 := by omega
  conv_lhs => rw [myreadFrom, if_neg more]
  simp only [ByteFile.read_length, dif_neg something]

theorem myreadFrom_enough {f : ByteFile} {off len : SizeT} (b : Bool)
    (h : off.toNat + len.toNat ≤ f.size) :
    myreadFrom f off len b len.toNat [] = (f.content off.toNat len.toNat, f) := by
  by_cases zero : len.toNat = 0
  · rw [zero, myreadFrom_done]
    rfl
  · rw [myreadFrom_some b [] zero (by omega)]
    simp only [Nat.sub_self, Nat.add_zero, List.nil_append, ByteFile.read_of_le h]
    rw [show len.toNat - min len.toNat (f.size - off.toNat) = 0 by omega, myreadFrom_done]

theorem myreadFrom_short {f : ByteFile} {off len : SizeT}
    (h : f.size < off.toNat + len.toNat) (more : len.toNat ≠ 0) :
    myreadFrom f off len true len.toNat [] =
      myreadFrom (f.truncate (off + len).toNat) off len false len.toNat [] := by
  by_cases got : off.toNat < f.size
  · rw [myreadFrom_some true [] more (by omega), myreadFrom_eof true _ (by omega) (by omega), if_pos rfl]
  · rw [myreadFrom_eof true [] more (by omega), if_pos rfl]

theorem myread_ok {f : ByteFile} {off len : SizeT}
    (h : off.toNat + len.toNat < 2 ^ 32 ∨ off.toNat + len.toNat ≤ f.size) :
    ∃ g, myread f off len true = (f.content off.toNat len.toNat, g) ∧ f.Extends g := by
  by_cases enough : off.toNat + len.toNat ≤ f.size
  · exact ⟨f, myreadFrom_enough true enough, .refl f⟩
  · have sum : (off + len).toNat = off.toNat + len.toNat := by
      rw [BitVec.toNat_add, Nat.mod_eq_of_lt (by omega)]
    by_cases zero : len.toNat = 0
    · refine ⟨f, ?_, .refl f⟩
      rw [myread, zero, myreadFrom_done]
      rfl
    · have longer : f.Extends (f.truncate (off + len).toNat) := ByteFile.extends_truncate (by omega)
      refine ⟨f.truncate (off + len).toNat, ?_, longer⟩
      rw [myread, myreadFrom_short (by omega) zero,
        myreadFrom_enough false (by rw [ByteFile.truncate_size]; omega), longer.content]

/-- Past 2^32 the sum wraps, the file is cut below the position, and nothing is read. -/
theorem myread_wraps {f : ByteFile} {off len : SizeT} (size : f.size < off.toNat + len.toNat)
    (wraps : 2 ^ 32 ≤ off.toNat + len.toNat) : (myread f off len true).1 = [] := by
  have hlen := len.isLt
  have hoff := off.isLt
  have sum : (off + len).toNat = off.toNat + len.toNat - 2 ^ 32 := by
    rw [BitVec.toNat_add]; omega
  rw [myread, myreadFrom_short size (by omega),
    myreadFrom_eof false [] (by omega) (by rw [ByteFile.truncate_size]; omega)]
  rfl

namespace DiskSystem

/-- The bytes of block `n` in the data file; there are none past the last block. -/
def blocks (d : DiskSystem) (n : SizeT) : List ByteT :=
  if n < d.numblocks then d.datafile.content (d.blockPos n).toNat d.blocksize.toNat else []

/-- The blocks occupy separate byte ranges, and none of them can be read past both
the end of the file and 2^32. -/
structure Sound (d : DiskSystem) : Prop where
  geometry : sanityCheckConfig d.toDiskConfig = .noError
  apart : ∀ m n, m < d.numblocks → n < d.numblocks → m ≠ n →
    (d.blockPos m).toNat + d.blocksize.toNat ≤ (d.blockPos n).toNat ∨
      (d.blockPos n).toNat + d.blocksize.toNat ≤ (d.blockPos m).toNat
  reach : ∀ n, n < d.numblocks →
    (d.blockPos n).toNat + d.blocksize.toNat < 2 ^ 32 ∨
      (d.blockPos n).toNat + d.blocksize.toNat ≤ d.datafile.size

/-- Reading the block does not meet the end of the file past 2^32. -/
def Reach (d : DiskSystem) (n : SizeT) : Prop :=
  (d.blockPos n).toNat + d.blocksize.toNat < 2 ^ 32 ∨
    (d.blockPos n).toNat + d.blocksize.toNat ≤ d.datafile.size

def Fits (d : DiskSystem) : Prop :=
  d.offset.toNat + d.numblocks.toNat * d.blocksize.toNat < 2 ^ 32

instance (d : DiskSystem) : Decidable d.Fits := inferInstanceAs (Decidable (_ < _))

theorem Fits.blockPos {d : DiskSystem} (h : d.Fits) {n : SizeT} (hn : n < d.numblocks) :
    (d.blockPos n).toNat = d.offset.toNat + n.toNat * d.blocksize.toNat := by
  have le : n.toNat * d.blocksize.toNat ≤ d.numblocks.toNat * d.blocksize.toNat :=
    Nat.mul_le_mul_right _ (BitVec.le_of_lt hn)
  have bound := h
  unfold Fits at bound
  rw [DiskSystem.blockPos, BitVec.toNat_add, BitVec.toNat_mul, Nat.add_mod_mod,
    Nat.mod_eq_of_lt (by omega)]

theorem Fits.sound {d : DiskSystem} (h : d.Fits)
    (geometry : sanityCheckConfig d.toDiskConfig = .noError) : d.Sound := by
  have step : ∀ m n : SizeT, n < d.numblocks → m.toNat < n.toNat →
      (d.blockPos m).toNat + d.blocksize.toNat ≤ (d.blockPos n).toNat := by
    intro m n hn lt
    have hm : m < d.numblocks := lt_trans (BitVec.lt_def.mpr lt) hn
    have : (m.toNat + 1) * d.blocksize.toNat ≤ n.toNat * d.blocksize.toNat :=
      Nat.mul_le_mul_right _ lt
    rw [h.blockPos hm, h.blockPos hn]
    linarith
  refine ⟨geometry, ?_, ?_⟩
  · intro m n hm hn ne
    rcases Nat.lt_or_gt_of_ne (fun e => ne (BitVec.eq_of_toNat_eq e)) with lt | gt
    · exact Or.inl (step m n hn lt)
    · exact Or.inr (step n m hm gt)
  · intro n hn
    have : (n.toNat + 1) * d.blocksize.toNat ≤ d.numblocks.toNat * d.blocksize.toNat :=
      Nat.mul_le_mul_right _ (BitVec.lt_def.mp hn)
    have bound := h
    unfold Fits at bound
    rw [h.blockPos hn]
    left
    linarith

theorem numblocks_pos {d : DiskSystem} {n : SizeT} (hn : n < d.numblocks) : 0 < d.numblocks :=
  BitVec.lt_def.mpr (Nat.zero_lt_of_lt (BitVec.lt_def.mp hn))

/-- With an accepted geometry and at least one block the divisor of the head model
is not zero. -/
theorem accepted_spins {c : DiskConfig} (accepted : sanityCheckConfig c = .noError)
    (pos : 0 < c.numblocks) : c.numheads * c.blockspertrack ≠ 0 := by
  intro zero
  rw [(sanityCheckConfig_ok.mp accepted).2, zero, zero_mul] at pos
  exact absurd pos (lt_irrefl _)

theorem Sound.sectors_ne_zero {d : DiskSystem} (h : d.Sound) (pos : 0 < d.numblocks) :
    d.numheads * d.blockspertrack ≠ 0 :=
  accepted_spins h.geometry pos

/-- What reading and writing blocks leaves alone. -/
structure Keeps (d d' : DiskSystem) : Prop where
  config : d'.toDiskConfig = d.toDiskConfig
  machine : d'.machine = d.machine
  bitmap : d'.bitmap = d.bitmap
  size : d.datafile.size ≤ d'.datafile.size

theorem Keeps.refl (d : DiskSystem) : d.Keeps d := ⟨rfl, rfl, rfl, le_rfl⟩

theorem Keeps.trans {d d' d'' : DiskSystem} (h : d.Keeps d') (h' : d'.Keeps d'') : d.Keeps d'' :=
  ⟨h'.config.trans h.config, h'.machine.trans h.machine, h'.bitmap.trans h.bitmap, le_trans h.size h'.size⟩

theorem Keeps.blockPos {d d' : DiskSystem} (h : d.Keeps d') (n : SizeT) :
    d'.blockPos n = d.blockPos n := by
  simp only [DiskSystem.blockPos, h.config]

theorem Sound.keeps {d d' : DiskSystem} (h : d.Sound) (k : d.Keeps d') : d'.Sound := by
  refine ⟨by rw [k.config]; exact h.geometry, ?_, ?_⟩
  · intro m n hm hn
    simp only [k.blockPos, k.config] at hm hn ⊢
    exact h.apart m n hm hn
  · intro n hn
    simp only [k.blockPos, k.config] at hn ⊢
    have := k.size
    have := h.reach n hn
    omega

theorem Keeps.isBlockAllocated {d d' : DiskSystem} (h : d.Keeps d') (n : SizeT) :
    d'.isBlockAllocated n = d.isBlockAllocated n := by
  simp only [DiskSystem.isBlockAllocated, bitmapByte, h.config, h.machine, h.bitmap]

theorem blocks_congr {d d' : DiskSystem} (k : d.Keeps d') {n : SizeT}
    (same : d'.datafile.content (d.blockPos n).toNat d.blocksize.toNat =
      d.datafile.content (d.blockPos n).toNat d.blocksize.toNat) : d'.blocks n = d.blocks n := by
  simp only [blocks, k.blockPos, k.config, same]

theorem blocks_of_extends {d d' : DiskSystem} (k : d.Keeps d')
    (file : d.datafile.Extends d'.datafile) : d'.blocks = d.blocks := by
  funext n
  exact blocks_congr k (file.content _ _)

theorem blocks_length {d : DiskSystem} {n : SizeT} (hn : n < d.numblocks) :
    (d.blocks n).length = d.blocksize.toNat := by
  rw [blocks, if_pos hn, ByteFile.content_length]

theorem modelAccess_ok {d : DiskSystem} (h : d.numheads * d.blockspertrack ≠ 0) (n k : SizeT) :
    ∃ t d', d.modelAccess n k = .ok (t, d') ∧ d.Keeps d' ∧ d'.datafile = d.datafile := by
  have spins : d.sectors ≠ 0 := h
  simp only [modelAccess, if_neg spins]
  exact ⟨_, _, rfl, ⟨rfl, rfl, rfl, le_rfl⟩, rfl⟩

/-- The bit lies in the bitmap. -/
theorem isBlockAllocated_bit {d : DiskSystem} {n : SizeT}
    (h : n.toNat / 8 < PackedBits.byteCount d.numblocks.toNat) :
    d.isBlockAllocated n = .ok (PackedBits.getBit d.bitmap n.toNat) := by
  simp only [isBlockAllocated, bitmapByte, if_pos h, Except.map, PackedBits.getBit]

theorem isBlockAllocated_ok {d : DiskSystem} {n : SizeT} (hn : n < d.numblocks) :
    d.isBlockAllocated n = .ok (PackedBits.getBit d.bitmap n.toNat) :=
  isBlockAllocated_bit (PackedBits.lt_byteCount (BitVec.lt_def.mp hn))

theorem range_check {d : DiskSystem} {n k : SizeT} (h : n.toNat + k.toNat ≤ d.numblocks.toNat) :
    ¬ n + k > d.numblocks := by
  have := d.numblocks.isLt
  rw [gt_iff_lt, BitVec.lt_def, BitVec.toNat_add, Nat.mod_eq_of_lt (by omega)]
  omega

theorem lt_numblocks {d : DiskSystem} {n : SizeT} {count : Nat}
    (h : n.toNat + (count + 1) ≤ d.numblocks.toNat) :
    n < d.numblocks ∧ (n + 1).toNat + count ≤ d.numblocks.toNat := by
  have := d.numblocks.isLt
  have succ : (n + 1).toNat = n.toNat + 1 := by
    rw [BitVec.toNat_add, Nat.mod_eq_of_lt (by simp; omega)]
    rfl
  exact ⟨BitVec.lt_def.mpr (by omega), by omega⟩

/-- The byte with the bit of block `n` is in memory that the process can read. -/
def ReadableBit (d : DiskSystem) (n : SizeT) : Prop := ∃ bit, d.isBlockAllocated n = .ok bit

instance (d : DiskSystem) (n : SizeT) : Decidable (d.ReadableBit n) :=
  match asked : d.isBlockAllocated n with
  | .ok bit => .isTrue ⟨bit, asked⟩
  | .error _ => .isFalse fun ⟨_, ok⟩ => by rw [asked] at ok; cases ok

theorem readableBit_congr {d d' : DiskSystem} (config : d'.toDiskConfig = d.toDiskConfig)
    (machine : d'.machine = d.machine) (n : SizeT) : d'.ReadableBit n ↔ d.ReadableBit n := by
  simp only [ReadableBit, isBlockAllocated, bitmapByte, config, machine]
  split_ifs
  · exact iff_of_true ⟨_, rfl⟩ ⟨_, rfl⟩
  · rfl

theorem readableBit_of_lt {d : DiskSystem} {n : SizeT} (hn : n < d.numblocks) : d.ReadableBit n :=
  ⟨_, isBlockAllocated_ok hn⟩

theorem isBlockAllocated_unreadable {d : DiskSystem} {n : SizeT} (h : ¬ d.ReadableBit n) :
    d.isBlockAllocated n = .error .outOfBounds := by
  have outside : ¬ n.toNat / 8 < PackedBits.byteCount d.numblocks.toNat :=
    fun inside => h ⟨_, isBlockAllocated_bit inside⟩
  simp only [ReadableBit, isBlockAllocated, bitmapByte, if_neg outside] at h ⊢
  cases there : d.machine.behindBitmap (n.toNat / 8 - PackedBits.byteCount d.numblocks.toNat) with
  | none => rfl
  | some b =>
      rw [there] at h
      exact absurd ⟨_, rfl⟩ h

/-! ## The array machine -/

def blocksFrom (a : SizeT → List ByteT) (n : SizeT) : Nat → List (List ByteT)
  | 0 => []
  | count + 1 => a n :: blocksFrom a (n + 1) count

def putFrom (a : SizeT → List ByteT) (n : SizeT) : Nat → List Block → SizeT → List ByteT
  | 0, _ => a
  | _ + 1, [] => a
  | count + 1, b :: bs => putFrom (Function.update a n b.data) (n + 1) count bs

theorem readLoop_ok {d : DiskSystem} (h : d.Sound) (n : SizeT) (count : Nat) (acc : List Block)
    (range : n.toNat + count ≤ d.numblocks.toNat) :
    ∃ d', d.readLoop n count acc =
        .ok (.noError, acc ++ (blocksFrom d.blocks n count).map Block.ofBytes, d') ∧
      d.Keeps d' ∧ d'.blocks = d.blocks := by
  induction count generalizing d n acc with
  | zero => exact ⟨d, by simp [readLoop, blocksFrom], .refl d, rfl⟩
  | succ count ih =>
      obtain ⟨hn, rest⟩ := lt_numblocks range
      obtain ⟨f, hread, file⟩ := myread_ok (h.reach n hn)
      have k : d.Keeps { d with datafile := f } := ⟨rfl, rfl, rfl, file.size⟩
      have same := blocks_of_extends k file
      obtain ⟨d', hloop, k', same'⟩ := ih (h.keeps k) (n := n + 1)
        (acc ++ [Block.ofBytes (d.blocks n)]) rest
      refine ⟨d', ?_, k.trans k', same'.trans same⟩
      have content : d.datafile.content (d.blockPos n).toNat d.blocksize.toNat = d.blocks n := by
        rw [blocks, if_pos hn]
      simp only [readLoop, isBlockAllocated_ok hn, hread, content, blocks_length hn, ne_eq,
        not_true, if_false]
      rw [hloop, same]
      simp only [blocksFrom, List.map_cons, List.append_assoc, List.cons_append, List.nil_append]

theorem blocks_write {d d' : DiskSystem} (h : d.Sound) {n : SizeT} {b : List ByteT}
    (k : d.Keeps d') (hn : n < d.numblocks) (hb : b.length = d.blocksize.toNat)
    (file : d'.datafile = d.datafile.write (d.blockPos n).toNat b) :
    d'.blocks = Function.update d.blocks n b := by
  funext m
  by_cases same : m = n
  · subst same
    rw [Function.update_self]
    simp only [blocks, k.config, k.blockPos, if_pos hn, file, ← hb, ByteFile.content_write_same]
  · rw [Function.update_of_ne same]
    by_cases hm : m < d.numblocks
    · refine blocks_congr k ?_
      rw [file, ByteFile.content_write_disjoint]
      rw [hb]
      exact h.apart m n hm hn same
    · simp only [blocks, k.config, if_neg hm]

theorem writeLoop_ok {d : DiskSystem} (h : d.Sound) (n : SizeT) (count : Nat) (bs : List Block)
    (range : n.toNat + count ≤ d.numblocks.toNat) (enough : count ≤ bs.length)
    (sized : ∀ b ∈ bs, b.length = d.blocksize.toNat) :
    ∃ d', d.writeLoop n count bs = .ok (.noError, d') ∧
      d.Keeps d' ∧ d'.blocks = putFrom d.blocks n count bs := by
  induction count generalizing d n bs with
  | zero => exact ⟨d, by cases bs <;> rfl, .refl d, rfl⟩
  | succ count ih =>
      cases bs with
      | nil => simp at enough
      | cons b bs =>
          obtain ⟨hn, rest⟩ := lt_numblocks range
          have hb : b.data.length = d.blocksize.toNat := sized b List.mem_cons_self
          have k : d.Keeps { d with datafile := d.datafile.write (d.blockPos n).toNat b.data } :=
            ⟨rfl, rfl, rfl, ByteFile.size_le_write _ _ _⟩
          have put := blocks_write h k hn hb rfl
          obtain ⟨d', hloop, k', put'⟩ := ih (h.keeps k) (n + 1) bs rest
            (by simpa using enough) (fun b' m => sized b' (List.mem_cons_of_mem _ m))
          refine ⟨d', ?_, k.trans k', ?_⟩
          · simp only [writeLoop, isBlockAllocated_ok hn, Machine.bytesAt_of_le d.machine (le_of_eq hb.symm),
              mywrite_ok _ _ hb, ne_eq, not_true, if_false]
            exact hloop
          · rw [put', put]
            rfl

theorem read_ok {d : DiskSystem} (h : d.Sound) (spins : d.numheads * d.blockspertrack ≠ 0)
    {n k : SizeT} (range : n.toNat + k.toNat ≤ d.numblocks.toNat) :
    ∃ t d', d.read n k =
        .ok (.noError, (blocksFrom d.blocks n k.toNat).map Block.ofBytes, t, d') ∧
      d.Keeps d' ∧ d'.blocks = d.blocks := by
  obtain ⟨t, d1, access, k1, file⟩ := modelAccess_ok spins n k
  have same := blocks_of_extends k1 (file ▸ .refl _)
  obtain ⟨d2, loop, k2, same'⟩ := readLoop_ok (h.keeps k1) n k.toNat []
    (by rw [k1.config]; exact range)
  refine ⟨t, d2, ?_, k1.trans k2, same'.trans same⟩
  simp only [read, if_neg (range_check range), access, loop, same, List.nil_append]

theorem write_ok {d : DiskSystem} (h : d.Sound) (spins : d.numheads * d.blockspertrack ≠ 0)
    (n k : SizeT) (bs : List Block) (range : n.toNat + k.toNat ≤ d.numblocks.toNat)
    (enough : k.toNat ≤ bs.length) (sized : ∀ b ∈ bs, b.length = d.blocksize.toNat) :
    ∃ t d', d.write n k bs = .ok (.noError, t, d') ∧
      d.Keeps d' ∧ d'.blocks = putFrom d.blocks n k.toNat bs := by
  obtain ⟨t, d1, access, k1, file⟩ := modelAccess_ok spins n k
  have same := blocks_of_extends k1 (file ▸ .refl _)
  obtain ⟨d2, loop, k2, put⟩ := writeLoop_ok (h.keeps k1) n k.toNat bs
    (by rw [k1.config]; exact range) enough (by rw [k1.config]; exact sized)
  refine ⟨t, d2, ?_, k1.trans k2, ?_⟩
  · simp only [write, if_neg (range_check range), access, loop]
  · rw [put, same]

theorem one_toNat : (1 : SizeT).toNat = 1 := rfl

theorem readOne_ok {d : DiskSystem} (h : d.Sound) {n : SizeT} (hn : n < d.numblocks) :
    ∃ t d', d.readOne n = .ok (.noError, some (Block.ofBytes (d.blocks n)), t, d') ∧
      d.Keeps d' ∧ d'.blocks = d.blocks := by
  obtain ⟨t, d', hread, k, same⟩ := read_ok h (h.sectors_ne_zero (numblocks_pos hn)) (n := n) (k := 1)
    (by rw [one_toNat]; exact BitVec.lt_def.mp hn)
  refine ⟨t, d', ?_, k, same⟩
  simp only [readOne, hread, one_toNat, blocksFrom, if_true, List.map_cons, List.getElem?_cons_zero]

theorem writeOne_ok {d : DiskSystem} (h : d.Sound) {n : SizeT} {b : Block}
    (hn : n < d.numblocks) (hb : b.length = d.blocksize.toNat) :
    ∃ t d', d.writeOne n b = .ok (.noError, t, d') ∧
      d.Keeps d' ∧ d'.blocks = Function.update d.blocks n b.data := by
  exact write_ok h (h.sectors_ne_zero (numblocks_pos hn)) n 1 [b]
    (by rw [one_toNat]; exact BitVec.lt_def.mp hn) (by simp) (by simpa using hb)

inductive Request where
  | read (inoffblock numblock : SizeT)
  | write (inoffblock numblock : SizeT) (blocks : List Block)
  | readOne (inoffblock : SizeT)
  | writeOne (inoffblock : SizeT) (block : Block)

abbrev Reply := ErrorT × List (List ByteT)

def serve (d : DiskSystem) : Request → Except Fault (Reply × DiskSystem)
  | .read n k => (d.read n k).map fun r => ((r.1, r.2.1.map Block.data), r.2.2.2)
  | .write n k bs => (d.write n k bs).map fun r => ((r.1, []), r.2.2)
  | .readOne n => (d.readOne n).map fun r => ((r.1, (r.2.1.map Block.data).toList), r.2.2.2)
  | .writeOne n b => (d.writeOne n b).map fun r => ((r.1, []), r.2.2)

/-- The same requests on a plain array of blocks. -/
def serveArray (a : SizeT → List ByteT) : Request → Reply × (SizeT → List ByteT)
  | .read n k => ((.noError, blocksFrom a n k.toNat), a)
  | .write n k bs => ((.noError, []), putFrom a n k.toNat bs)
  | .readOne n => ((.noError, [a n]), a)
  | .writeOne n b => ((.noError, []), Function.update a n b.data)

/-- The range lies on the disk as integers and the blocks have its block size. -/
def Request.InRange (c : DiskConfig) : Request → Prop
  | .read n k => n.toNat + k.toNat ≤ c.numblocks.toNat
  | .write n k bs => n.toNat + k.toNat ≤ c.numblocks.toNat ∧ k.toNat ≤ bs.length ∧
      ∀ b ∈ bs, b.length = c.blocksize.toNat
  | .readOne n => n < c.numblocks
  | .writeOne n b => n < c.numblocks ∧ b.length = c.blocksize.toNat

/-- Every sequence of requests in range is answered as by the array that starts
with the original bytes of the data file, and leaves the blocks of that array. -/
def ArrayLaw (d : DiskSystem) : Prop :=
  ∀ ops : List Request, (∀ op ∈ ops, op.InRange d.toDiskConfig) →
    ∃ d', Runs.run serve d ops = .ok ((Runs.runSpec serveArray d.blocks ops).1, d') ∧
      d'.blocks = (Runs.runSpec serveArray d.blocks ops).2

theorem serve_simulates {c : DiskConfig} (spins : c.numheads * c.blockspertrack ≠ 0)
    (d : DiskSystem) (a : SizeT → List ByteT) (op : Request)
    (related : d.Sound ∧ d.toDiskConfig = c ∧ d.blocks = a) (range : op.InRange c) :
    ∃ d', d.serve op = .ok ((serveArray a op).1, d') ∧
      d'.Sound ∧ d'.toDiskConfig = c ∧ d'.blocks = (serveArray a op).2 := by
  obtain ⟨h, rfl, rfl⟩ := related
  cases op with
  | read n k =>
      obtain ⟨t, d', hread, keep, same⟩ := read_ok h spins range
      refine ⟨d', ?_, h.keeps keep, keep.config, same⟩
      simp [serve, hread, Except.map, serveArray, Block.ofBytes, Function.comp_def]
  | write n k bs =>
      obtain ⟨t, d', hwrite, keep, put⟩ := write_ok h spins n k bs range.1 range.2.1 range.2.2
      refine ⟨d', ?_, h.keeps keep, keep.config, put⟩
      simp only [serve, hwrite, Except.map, serveArray]
  | readOne n =>
      obtain ⟨t, d', hread, keep, same⟩ := readOne_ok h range
      refine ⟨d', ?_, h.keeps keep, keep.config, same⟩
      simp only [serve, hread, Except.map, serveArray, Block.ofBytes, Option.map_some,
        Option.toList_some]
  | writeOne n b =>
      obtain ⟨t, d', hwrite, keep, put⟩ := writeOne_ok h range.1 range.2
      refine ⟨d', ?_, h.keeps keep, keep.config, put⟩
      simp only [serve, hwrite, Except.map, serveArray]

theorem Sound.arrayLaw {d : DiskSystem} (h : d.Sound)
    (spins : d.numheads * d.blockspertrack ≠ 0) : d.ArrayLaw := by
  intro ops range
  obtain ⟨d', hrun, -, -, same⟩ := Runs.run_simulates (serve_simulates spins)
    (s := d) (t := d.blocks) ⟨h, rfl, rfl⟩ (Runs.legal_of_forall range _)
  exact ⟨d', hrun, same⟩

/-! ## The law needs all of this -/

theorem readOne_inside {d : DiskSystem} (spins : d.numheads * d.blockspertrack ≠ 0) {n : SizeT} {bit : Bool}
    (inside : ¬ n + 1 > d.numblocks) (asked : d.isBlockAllocated n = .ok bit) (buf : List ByteT)
    {f : ByteFile}
    (hread : myread d.datafile (d.blockPos n) d.blocksize true = (buf, f)) :
    ∃ t d', d.readOne n =
      .ok (if buf.length = d.blocksize.toNat then .noError else .implBug,
        if buf.length = d.blocksize.toNat then some (Block.ofBytes buf) else none, t, d') ∧
      d'.toDiskConfig = d.toDiskConfig ∧ d'.machine = d.machine := by
  obtain ⟨t, d1, access, k, file⟩ := modelAccess_ok spins n 1
  refine ⟨t, { d1 with datafile := f }, ?_, k.config, k.machine⟩
  simp only [readOne, read, if_neg inside, access, one_toNat, readLoop, k.isBlockAllocated, asked, file,
    k.blockPos, k.config, hread]
  by_cases full : buf.length = d.blocksize.toNat <;> simp [full]

theorem readOne_eq {d : DiskSystem} (spins : d.numheads * d.blockspertrack ≠ 0) {n : SizeT}
    (hn : n < d.numblocks) (buf : List ByteT) {f : ByteFile}
    (hread : myread d.datafile (d.blockPos n) d.blocksize true = (buf, f)) :
    ∃ t d', d.readOne n =
      .ok (if buf.length = d.blocksize.toNat then .noError else .implBug,
        if buf.length = d.blocksize.toNat then some (Block.ofBytes buf) else none, t, d') ∧
      d'.toDiskConfig = d.toDiskConfig ∧ d'.machine = d.machine :=
  readOne_inside spins (range_check (by rw [one_toNat]; exact BitVec.lt_def.mp hn)) (isBlockAllocated_ok hn)
    buf hread

theorem writeOne_eq {d : DiskSystem} (spins : d.numheads * d.blockspertrack ≠ 0) {n : SizeT}
    {b : Block} (hn : n < d.numblocks) (hb : b.length = d.blocksize.toNat) :
    ∃ t d', d.writeOne n b = .ok (.noError, t, d') ∧ d.Keeps d' ∧
      d'.datafile = d.datafile.write (d.blockPos n).toNat b.data := by
  obtain ⟨t, d1, access, k, file⟩ := modelAccess_ok spins n 1
  have range : ¬ n + 1 > d.numblocks := range_check (by rw [one_toNat]; exact BitVec.lt_def.mp hn)
  have hb' : b.data.length = d1.blocksize.toNat := by rw [k.config]; exact hb
  refine ⟨t, { d1 with datafile := d1.datafile.write (d1.blockPos n).toNat b.data }, ?_,
    k.trans ⟨rfl, rfl, rfl, ByteFile.size_le_write _ _ _⟩, by rw [file, k.blockPos]⟩
  simp only [writeOne, write, if_neg range, access, one_toNat, writeLoop, k.isBlockAllocated,
    isBlockAllocated_ok hn, Machine.bytesAt_of_le d1.machine (le_of_eq hb'.symm), mywrite_ok _ _ hb',
    ne_eq, not_true, if_false]

theorem ArrayLaw.spins {d : DiskSystem} (h : d.ArrayLaw) : d.numheads * d.blockspertrack ≠ 0 := by
  intro zero
  obtain ⟨d', hrun, -⟩ := h [.read 0 0] (by simp [Request.InRange])
  have range : ¬ (0 : SizeT) + 0 > d.numblocks := range_check (by simp)
  have sectors : d.sectors = 0 := zero
  have fault : d.read 0 0 = .error .divisionByZero := by
    simp only [read, if_neg range, modelAccess, sectors, if_true]
  simp only [Runs.run, serve, fault, Except.map, reduceCtorEq] at hrun

theorem ArrayLaw.reach {d : DiskSystem} (h : d.ArrayLaw) {n : SizeT} (hn : n < d.numblocks) :
    (d.blockPos n).toNat + d.blocksize.toNat < 2 ^ 32 ∨
      (d.blockPos n).toNat + d.blocksize.toNat ≤ d.datafile.size := by
  by_contra past
  push Not at past
  have nothing := myread_wraps past.2 past.1
  have size := d.blocksize.isLt
  have pos := (d.blockPos n).isLt
  obtain ⟨t, d1, hread, -⟩ := readOne_eq h.spins hn
    [] (f := (myread d.datafile (d.blockPos n) d.blocksize true).2) (by rw [← nothing])
  obtain ⟨d', hrun, -⟩ := h [.readOne n] (by simpa [Request.InRange] using hn)
  have zero : ¬ 0 = d.blocksize.toNat := by omega
  simp [Runs.run, serve, hread, Except.map, Runs.runSpec, serveArray, zero] at hrun

/-- Zeros written to `m`, ones to `n`: a shared byte shows in the next read of `m`. -/
theorem ArrayLaw.apart {d : DiskSystem} (h : d.ArrayLaw) {m n : SizeT} (hm : m < d.numblocks)
    (hn : n < d.numblocks) (ne : m ≠ n) :
    (d.blockPos m).toNat + d.blocksize.toNat ≤ (d.blockPos n).toNat ∨
      (d.blockPos n).toNat + d.blocksize.toNat ≤ (d.blockPos m).toNat := by
  by_contra overlap
  push Not at overlap
  let zeros := Block.ofBytes (List.replicate d.blocksize.toNat 0)
  let ones := Block.ofBytes (List.replicate d.blocksize.toNat 1)
  have hz : zeros.length = d.blocksize.toNat := List.length_replicate
  have ho : ones.length = d.blocksize.toNat := List.length_replicate
  obtain ⟨t1, d1, write1, k1, file1⟩ := writeOne_eq h.spins hm hz
  obtain ⟨t2, d2, write2, k2, file2⟩ := writeOne_eq (d := d1) (n := n) (b := ones)
    (by rw [k1.config]; exact h.spins) (by rw [k1.config]; exact hn) (by rw [k1.config]; exact ho)
  have k := k1.trans k2
  have room : (d.blockPos m).toNat + d.blocksize.toNat ≤ d2.datafile.size := by
    refine le_trans ?_ k2.size
    rw [file1, ← hz]
    refine ByteFile.write_size_ge _ _ _ ?_
    intro empty
    have none : zeros.length = 0 := by rw [Block.length, empty]; rfl
    omega
  obtain ⟨f, hread, -⟩ := myread_ok (Or.inr room)
  obtain ⟨t3, d3, read3, -⟩ := readOne_eq (d := d2) (n := m) (f := f)
    (by rw [k.config]; exact h.spins) (by rw [k.config]; exact hm)
    (d2.datafile.content (d.blockPos m).toNat d.blocksize.toNat)
    (by rw [k.blockPos, k.config]; exact hread)
  obtain ⟨d', hrun, -⟩ := h [.writeOne m zeros, .writeOne n ones, .readOne m]
    (by simp [Request.InRange, hm, hn, hz, ho])
  obtain ⟨content, -⟩ :
      d2.datafile.content (d.blockPos m).toNat d.blocksize.toNat = zeros.data ∧ d3 = d' := by
    simpa [Runs.run, serve, write1, write2, read3, Except.map, Runs.runSpec, serveArray, ne,
      k.config, Block.ofBytes] using hrun
  -- the larger of the two starting positions belongs to both blocks
  let i := max (d.blockPos m).toNat (d.blockPos n).toNat
  have shared : d2.datafile.byte i = d1.datafile.byte i :=
    ByteFile.byte_of_content_eq
      (content.trans (by rw [file1, ← hz]; exact (ByteFile.content_write_same _ _ _).symm))
      (by omega) (by omega)
  have one : d2.datafile.byte i = 1 := by
    rw [file2, k1.blockPos, ByteFile.byte_write (by omega) (by rw [← Block.length, ho]; omega)]
    exact List.getD_replicate _ (by omega)
  have zero : d1.datafile.byte i = 0 := by
    rw [file1, ByteFile.byte_write (by omega) (by rw [← Block.length, hz]; omega)]
    exact List.getD_replicate _ (by omega)
  rw [one, zero] at shared
  exact absurd shared (by decide)

/-- For an accepted geometry the array law holds exactly on sound disks whose head
model divides by something. -/
theorem arrayLaw_iff (d : DiskSystem) (geometry : sanityCheckConfig d.toDiskConfig = .noError) :
    d.ArrayLaw ↔ d.Sound ∧ d.numheads * d.blockspertrack ≠ 0 := by
  constructor
  · intro h
    exact ⟨⟨geometry, fun _ _ hm hn ne => h.apart hm hn ne, fun _ hn => h.reach hn⟩, h.spins⟩
  · rintro ⟨h, spins⟩
    exact h.arrayLaw spins

def smallConfig : DiskConfig := ⟨0, 64, 1024, 1, 16, 4, 100, 10, 28 / 100⟩

theorem smallConfig_accepted : sanityCheckConfig smallConfig = .noError := by
  norm_num [sanityCheckConfig, smallConfig]

theorem smallConfig_sound : (make .small smallConfig ByteFile.empty).Sound :=
  Fits.sound (by decide) smallConfig_accepted

/-- Blocks that were never written read as zeros. -/
theorem smallConfig_blocks {n : SizeT} (hn : n < 64) :
    (make .small smallConfig ByteFile.empty).blocks n = List.replicate 1024 0 := by
  rw [blocks, if_pos (show n < (make .small smallConfig ByteFile.empty).numblocks from hn),
    List.eq_replicate_iff]
  exact ⟨ByteFile.content_length _ _ _, by simp [ByteFile.content, ByteFile.empty, make]⟩

theorem arrayLaw_iff_small : (make .small smallConfig ByteFile.empty).ArrayLaw :=
  (arrayLaw_iff (make .small smallConfig ByteFile.empty) smallConfig_accepted).mpr
    ⟨smallConfig_sound, by decide⟩

/-- One block more than fit below 2^32: the last one starts where the first does. -/
def wrappingConfig : DiskConfig := ⟨0, 65537, 65536, 1, 65537, 1, 100, 10, 28 / 100⟩

theorem wrapping_disk_not_array :
    sanityCheckConfig wrappingConfig = .noError ∧ ¬ (make .small wrappingConfig ByteFile.empty).ArrayLaw := by
  refine ⟨by norm_num [sanityCheckConfig, wrappingConfig], fun h => ?_⟩
  have apart := h.apart (m := 0) (n := 65536) (by decide) (by decide) (by decide)
  exact absurd apart (by decide)

end DiskSystem
end BTreeLab
