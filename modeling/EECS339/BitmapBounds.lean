import EECS339.CacheCapacity

/-!
# Which bits are looked at

`GETBIT`, `SETBIT` and `CLEARBIT` index the bitmap without a check. The functions of
this module list the blocks whose bits an operation evaluates, in the order of the code
and up to the point where it returns or the process ends; an evaluation that ends the
process is the last one of its list.
-/
namespace BTreeLab
open Words PackedBits

/-- The byte that the macros use for the block is one of the bitmap. -/
def DiskConfig.HasBit (c : DiskConfig) (block : Nat) : Prop := block / 8 < byteCount c.numblocks.toNat

instance (c : DiskConfig) : DecidablePred c.HasBit := fun _ => inferInstanceAs (Decidable (_ < _))

/-- The number of bits in the bitmap. -/
def DiskConfig.bits (c : DiskConfig) : Nat := 8 * byteCount c.numblocks.toNat

theorem DiskConfig.hasBit_iff {c : DiskConfig} {n : Nat} : c.HasBit n ↔ n < c.bits := by
  rw [HasBit, bits]
  omega

theorem DiskConfig.hasBit_of_lt {c : DiskConfig} {n : Nat} (h : n < c.numblocks.toNat) : c.HasBit n :=
  lt_byteCount h

namespace DiskSystem

def readLoopBits (d : DiskSystem) (n : SizeT) : Nat → List Nat
  | 0 => []
  | count + 1 =>
      match d.isBlockAllocated n with
      | .error _ => [n.toNat]
      | .ok _ =>
          let (buf, f) := myread d.datafile (d.blockPos n) d.blocksize true
          let d' := { d with datafile := f }
          if buf.length ≠ d.blocksize.toNat then [n.toNat]
          else n.toNat :: readLoopBits d' (n + 1) count

def readBits (d : DiskSystem) (inoffblock numblock : SizeT) : List Nat :=
  if inoffblock + numblock > d.numblocks then []
  else
    match d.modelAccess inoffblock numblock with
    | .error _ => []
    | .ok (_, d') => d'.readLoopBits inoffblock numblock.toNat

/-- The bit is looked at before the block to write is. -/
def writeLoopBits (d : DiskSystem) (n : SizeT) : Nat → List Block → List Nat
  | 0, _ => []
  | _ + 1, [] => [n.toNat]
  | count + 1, b :: blocks =>
      match d.isBlockAllocated n with
      | .error _ => [n.toNat]
      | .ok _ =>
          match d.machine.bytesAt b d.blocksize with
          | .error _ => [n.toNat]
          | .ok buf =>
              match mywrite d.datafile (d.blockPos n) buf d.blocksize with
              | .error _ => [n.toNat]
              | .ok (sent, f) =>
                  let d' := { d with datafile := f }
                  if sent ≠ d.blocksize.toNat then [n.toNat]
                  else n.toNat :: writeLoopBits d' (n + 1) count blocks

def writeBits (d : DiskSystem) (inoffblock numblock : SizeT) (blocks : List Block) : List Nat :=
  if inoffblock + numblock > d.numblocks then []
  else
    match d.modelAccess inoffblock numblock with
    | .error _ => []
    | .ok (_, d') => d'.writeLoopBits inoffblock numblock.toNat blocks

/-- Each bit is tested, then set or cleared. -/
def notifyBits (d : DiskSystem) (offset innumblocks : SizeT) : List Nat :=
  if offset + innumblocks > d.numblocks then []
  else
    (List.range' offset.toNat ((offset + innumblocks).toNat - offset.toNat)).flatMap fun i => [i, i]

def callBits (d : DiskSystem) : RangeCall → List Nat
  | .read s k => d.readBits s k
  | .write s k bs => d.writeBits s k bs
  | .notifyAllocate s k | .notifyDeallocate s k => d.notifyBits s k

/-- A block from the array can be written: it is as long as a block of the disk, or what lies behind
it can be read. -/
def Writable (d : DiskSystem) (b : Block) : Prop := ∃ buf, d.machine.bytesAt b d.blocksize = .ok buf

/-- The loop over the range gets past its block number `i`, if that has a bit. -/
def Passes (d : DiskSystem) : RangeCall → Nat → Prop
  | .read s _, i => d.Reach (s + BitVec.ofNat 32 i)
  | .write _ _ bs, i => ∃ b, bs[i]? = some b ∧ d.Writable b
  | _, _ => True

/-- The range does not wrap, or is refused, or the access divides by zero, or the bitmap
has a bit for every number, or a block inside the bitmap stops the loop. The loops of the
notifications are empty when the range wraps. -/
def BitSafe (d : DiskSystem) (op : RangeCall) : Prop :=
  match op with
  | .read .. | .write .. =>
      op.stop < 2 ^ 32 ∨ op.start + op.count > d.numblocks ∨ d.numheads * d.blockspertrack = 0 ∨
        2 ^ 32 ≤ d.bits ∨ ∃ i, op.start.toNat + i < d.bits ∧ ¬ d.Passes op i
  | .notifyAllocate .. | .notifyDeallocate .. => True

variable {d : DiskSystem} {n : SizeT} {x : Nat}

/-! ## The loops of the disk -/

theorem myreadFrom_size (f : ByteFile) (off len : SizeT) (b : Bool) (left : Nat) (buf : List ByteT) :
    (myreadFrom f off len b left buf).2.size = f.size ∨
    (myreadFrom f off len b left buf).2.size < 2 ^ 32 := by
  fun_induction myreadFrom f off len b left buf with
  | case1 => exact Or.inl rfl
  | case2 f left buf more sent nothing ih =>
      right
      rcases ih with same | small
      · rw [same]
        exact (off + len).isLt
      · exact small
  | case3 => exact Or.inl rfl
  | case4 f b left buf more sent some ih => exact ih

/-- What has been read leaves the blocks that can be read as they are. -/
theorem reach_read (h : d.Reach n) {f : ByteFile}
    (hread : myread d.datafile (d.blockPos n) d.blocksize true =
      (d.datafile.content (d.blockPos n).toNat d.blocksize.toNat, f)) (m : SizeT) :
    Reach { d with datafile := f } m ↔ d.Reach m := by
  obtain ⟨g, hread', longer⟩ := myread_ok h
  rw [hread] at hread'
  cases hread'
  have size : f.size = d.datafile.size ∨ f.size < 2 ^ 32 := by
    have cases := myreadFrom_size d.datafile (d.blockPos n) d.blocksize true d.blocksize.toNat []
    rw [← myread, hread] at cases
    exact cases
  have grows := longer.size
  simp only [Reach, blockPos]
  omega

theorem offset_succ (n : SizeT) (i : Nat) :
    n + BitVec.ofNat 32 (i + 1) = n + 1 + BitVec.ofNat 32 i := by
  rw [BitVec.ofNat_add, add_comm (BitVec.ofNat 32 i), ← add_assoc]
  rfl

theorem offset_zero (n : SizeT) : n + BitVec.ofNat 32 0 = n := BitVec.add_zero n

/-- The bits of the loop of `Read` end with the first block whose bit or whose bytes cannot be had. -/
theorem mem_readLoopBits {count : Nat} : x ∈ d.readLoopBits n count ↔
    ∃ i < count, (∀ j < i, d.ReadableBit (n + BitVec.ofNat 32 j) ∧ d.Reach (n + BitVec.ofNat 32 j)) ∧
      x = (n + BitVec.ofNat 32 i).toNat := by
  induction count generalizing d n with
  | zero => simp [readLoopBits]
  | succ count ih =>
      rw [Nat.exists_lt_succ_left]
      simp only [Nat.forall_lt_succ_left, offset_succ, offset_zero]
      by_cases readable : d.ReadableBit n
      · have asks := readable
        obtain ⟨bit, asked⟩ := asks
        by_cases reach : d.Reach n
        · obtain ⟨f, hread, -⟩ := myread_ok reach
          have bits (m : SizeT) : ReadableBit { d with datafile := f } m ↔ d.ReadableBit m := Iff.rfl
          rw [readLoopBits, asked, hread]
          simp only [ByteFile.content_length, ne_eq, not_true, if_false, List.mem_cons, ih, bits,
            reach_read reach hread, readable, reach, true_and, Nat.not_lt_zero, false_imp_iff, implies_true]
        · have out := reach
          rw [Reach] at out
          push Not at out
          have nothing := myread_wraps out.2 out.1
          have size := d.blocksize.isLt
          have pos := (d.blockPos n).isLt
          have short : (0 : Nat) ≠ d.blocksize.toNat := by omega
          simp only [readLoopBits, asked, nothing, List.length_nil, short, ne_eq, not_false_eq_true, if_true,
            List.mem_singleton, reach, false_and, and_false, exists_false, or_false, Nat.not_lt_zero,
            false_imp_iff, implies_true, true_and]
      · simp only [readLoopBits, isBlockAllocated_unreadable readable, List.mem_singleton, readable,
          false_and, and_false, exists_false, or_false, Nat.not_lt_zero, false_imp_iff,
            implies_true, true_and]

theorem mem_writeLoopBits {count : Nat} {bs : List Block} : x ∈ d.writeLoopBits n count bs ↔
    ∃ i < count, (∀ j < i, d.ReadableBit (n + BitVec.ofNat 32 j) ∧ ∃ b, bs[j]? = some b ∧ d.Writable b) ∧
      x = (n + BitVec.ofNat 32 i).toNat := by
  induction count generalizing d n bs with
  | zero => cases bs <;> simp [writeLoopBits]
  | succ count ih =>
      rw [Nat.exists_lt_succ_left]
      simp only [Nat.forall_lt_succ_left, offset_succ, offset_zero]
      cases bs with
      | nil => simp [writeLoopBits]
      | cons b bs =>
          simp only [List.getElem?_cons_zero, List.getElem?_cons_succ, Option.some.injEq,
            exists_eq_left']
          by_cases readable : d.ReadableBit n
          · have asks := readable
            obtain ⟨bit, asked⟩ := asks
            by_cases writable : d.Writable b
            · have bytes := writable
              obtain ⟨buf, bytes⟩ := bytes
              have bits (f : ByteFile) (m : SizeT) :
                  ReadableBit { d with datafile := f } m ↔ d.ReadableBit m := Iff.rfl
              have blocks (f : ByteFile) (b : Block) :
                  Writable { d with datafile := f } b ↔ d.Writable b := Iff.rfl
              simp only [writeLoopBits, asked, bytes,
                mywrite_of_le d.datafile (d.blockPos n) (Machine.bytesAt_inv bytes).2, ne_eq, not_true,
                if_false, List.mem_cons, ih, bits, blocks, readable, writable, true_and, Nat.not_lt_zero,
                false_imp_iff, implies_true]
            · have unreadable : ∃ e, d.machine.bytesAt b d.blocksize = .error e := by
                cases bytes : d.machine.bytesAt b d.blocksize with
                | error e => exact ⟨e, rfl⟩
                | ok buf => exact absurd ⟨buf, bytes⟩ writable
              obtain ⟨e, unreadable⟩ := unreadable
              simp only [writeLoopBits, asked, unreadable, List.mem_singleton, writable, false_and,
                and_false, exists_false, or_false, Nat.not_lt_zero, false_imp_iff, implies_true, true_and]
          · simp only [writeLoopBits, isBlockAllocated_unreadable readable, List.mem_singleton, readable,
              false_and, and_false, exists_false, or_false, Nat.not_lt_zero, false_imp_iff, implies_true,
              true_and]

theorem mem_notifyBits {s k : SizeT} (h : x ∈ d.notifyBits s k) : x < d.numblocks.toNat := by
  rw [notifyBits] at h
  split_ifs at h with past
  · cases h
  · simp only [List.mem_flatMap, List.mem_range'_1, List.mem_cons, List.not_mem_nil, or_false,
      or_self] at h
    obtain ⟨i, ⟨lo, hi⟩, rfl⟩ := h
    rw [gt_iff_lt, not_lt, BitVec.le_def] at past
    omega

/-- A loop over a range that passes the check leaves the bitmap unless the range wraps,
the bitmap is not large enough and nothing stops the loop inside it. -/
theorem loop_safe_iff {c : DiskConfig} {s k : SizeT} {passes : Nat → Prop}
    (within : ¬ s + k > c.numblocks) :
    (∀ x, (∃ i < k.toNat, (∀ j < i, passes j) ∧ x = (s + BitVec.ofNat 32 i).toNat) → c.HasBit x) ↔
      s.toNat + k.toNat < 2 ^ 32 ∨ 2 ^ 32 ≤ c.bits ∨ ∃ i, s.toNat + i < c.bits ∧ ¬ passes i := by
  have hs := s.isLt
  have block (i : Nat) : (s + BitVec.ofNat 32 i).toNat = (s.toNat + i) % 2 ^ 32 := by
    rw [BitVec.toNat_add, BitVec.toNat_ofNat, Nat.add_mod_mod]
  constructor
  · intro safe
    by_contra escapes
    push Not at escapes
    obtain ⟨wraps, small, free⟩ := escapes
    -- the first block at or past the end of the bitmap
    have first := safe _ ⟨c.bits - s.toNat, by omega, fun j hj => free j (by omega), rfl⟩
    rw [DiskConfig.hasBit_iff, block, Nat.mod_eq_of_lt (by omega)] at first
    omega
  · rintro (whole | large | ⟨stop, inside, stops⟩) x ⟨i, hi, passed, rfl⟩
    · apply DiskConfig.hasBit_of_lt
      rw [gt_iff_lt, not_lt, BitVec.le_def, BitVec.toNat_add, Nat.mod_eq_of_lt whole] at within
      rw [block, Nat.mod_eq_of_lt (by omega)]
      omega
    · rw [DiskConfig.hasBit_iff]
      exact lt_of_lt_of_le (s + BitVec.ofNat 32 i).isLt large
    · have before : i ≤ stop := by
        by_contra later
        exact stops (passed stop (not_le.mp later))
      rw [DiskConfig.hasBit_iff, block]
      exact lt_of_le_of_lt (Nat.mod_le _ _) (by omega)

/-- What of the access does not depend on the loop. -/
theorem access_safe_iff {s k : SizeT} {loop : DiskSystem → List Nat} {passes : Nat → Prop}
    (loops : ∀ t d', d.modelAccess s k = .ok (t, d') → ∀ x, x ∈ loop d' ↔
      ∃ i < k.toNat, (∀ j < i, passes j) ∧ x = (s + BitVec.ofNat 32 i).toNat) :
    (∀ x ∈ (if s + k > d.numblocks then []
        else match d.modelAccess s k with
          | .error _ => []
          | .ok (_, d') => loop d'), d.HasBit x) ↔
      s.toNat + k.toNat < 2 ^ 32 ∨ s + k > d.numblocks ∨ d.numheads * d.blockspertrack = 0 ∨
        2 ^ 32 ≤ d.bits ∨ ∃ i, s.toNat + i < d.bits ∧ ¬ passes i := by
  by_cases past : s + k > d.numblocks
  · rw [if_pos past]
    exact iff_of_true (by simp) (Or.inr (Or.inl past))
  rw [if_neg past]
  by_cases spins : d.numheads * d.blockspertrack = 0
  · have stuck : d.modelAccess s k = .error .divisionByZero := if_pos spins
    rw [stuck]
    exact iff_of_true (by simp) (Or.inr (Or.inr (Or.inl spins)))
  · obtain ⟨t, d', access, -⟩ := modelAccess_ok spins s k
    simp only [access, loops t d' access, past, spins, false_or]
    exact loop_safe_iff past

/-- Inside the bitmap every bit can be read, so there a loop stops only at a block. -/
theorem stops_iff {s : SizeT} {passes : Nat → Prop} :
    (∃ i, s.toNat + i < d.bits ∧ ¬ (d.ReadableBit (s + BitVec.ofNat 32 i) ∧ passes i)) ↔
      ∃ i, s.toNat + i < d.bits ∧ ¬ passes i := by
  refine exists_congr fun i => and_congr_right fun inside => not_congr (and_iff_right ?_)
  refine ⟨_, isBlockAllocated_bit (DiskConfig.hasBit_iff.mpr (lt_of_le_of_lt ?_ inside))⟩
  rw [BitVec.toNat_add, BitVec.toNat_ofNat, Nat.add_mod_mod]
  exact Nat.mod_le _ _

theorem callBits_safe_iff (d : DiskSystem) (op : RangeCall) :
    (∀ x ∈ d.callBits op, d.HasBit x) ↔ d.BitSafe op := by
  cases op with
  | read s k =>
      rw [BitSafe, RangeCall.stop]
      simp only [RangeCall.start, RangeCall.count, Passes]
      rw [← stops_iff]
      refine access_safe_iff fun t d' access x => ?_
      obtain ⟨keeps, file⟩ := modelAccess_keeps access
      rw [mem_readLoopBits]
      simp only [ReadableBit, Reach, keeps.isBlockAllocated, keeps.blockPos, keeps.config, file]
  | write s k bs =>
      rw [BitSafe, RangeCall.stop]
      simp only [RangeCall.start, RangeCall.count, Passes]
      rw [← stops_iff]
      refine access_safe_iff fun t d' access x => ?_
      have keeps := (modelAccess_keeps access).1
      rw [mem_writeLoopBits]
      simp only [ReadableBit, Writable, keeps.isBlockAllocated, keeps.machine, keeps.config]
  | notifyAllocate s k =>
      exact iff_of_true (fun x h => DiskConfig.hasBit_of_lt (mem_notifyBits h)) trivial
  | notifyDeallocate s k =>
      exact iff_of_true (fun x h => DiskConfig.hasBit_of_lt (mem_notifyBits h)) trivial

theorem mem_access {s k : SizeT} {loop : DiskSystem → List Nat}
    (h : x ∈ (if s + k > d.numblocks then []
        else match d.modelAccess s k with
          | .error _ => []
          | .ok (_, d') => loop d')) : ∃ d', x ∈ loop d' := by
  split_ifs at h
  · cases h
  · cases access : d.modelAccess s k with
    | error f =>
        rw [access] at h
        cases h
    | ok r =>
        rw [access] at h
        exact ⟨r.2, h⟩

/-- Reading or writing one block looks at no other bit. -/
theorem mem_readBits_one (h : x ∈ d.readBits n 1) : x = n.toNat := by
  obtain ⟨d', mem⟩ := mem_access h
  obtain ⟨i, hi, -, rfl⟩ := mem_readLoopBits.mp mem
  rw [one_toNat, Nat.lt_one_iff] at hi
  rw [hi, offset_zero]

theorem mem_writeBits_one {bs : List Block} (h : x ∈ d.writeBits n 1 bs) : x = n.toNat := by
  obtain ⟨d', mem⟩ := mem_access h
  obtain ⟨i, hi, -, rfl⟩ := mem_writeLoopBits.mp mem
  rw [one_toNat, Nat.lt_one_iff] at hi
  rw [hi, offset_zero]

end DiskSystem

namespace BufferCache
open DiskSystem (RangeCall)

/-! ## The cache -/

def removeBits (c : BufferCache) (n : SizeT) (b : Block) : List Nat :=
  if b.dirty then c.disk.writeBits n 1 [b] else []

def evictBits (c : BufferCache) : List Nat :=
  if c.blockmap.size < c.cachesize.toNat then []
  else
    match c.victim with
    | none => []
    | some (n, b) => c.removeBits n b

/-- On a miss the bit is looked at before the disk checks the number. -/
def readBlockBits (c : BufferCache) (n : SizeT) : List Nat :=
  match c.blockmap[n]? with
  | some _ => []
  | none =>
      match c.checkDeleteOldest with
      | .error _ => c.evictBits
      | .ok (_, c1) =>
          c.evictBits ++ n.toNat ::
            match c1.isBlockAllocated n with
            | .error _ => []
            | .ok _ => c1.disk.readBits n 1

def writeBlockBits (c : BufferCache) (n : SizeT) : List Nat :=
  match c.blockmap[n]? with
  | some _ => []
  | none =>
      match c.checkDeleteOldest with
      | .error _ => c.evictBits
      | .ok (_, _) => c.evictBits ++ [n.toNat]

def flushBits (c : BufferCache) (n : SizeT) : List Nat :=
  match c.blockmap[n]? with
  | none => []
  | some b => c.removeBits n b

def detachLoopBits (c : BufferCache) : List (SizeT × Block) → List Nat
  | [] => []
  | (n, b) :: rest =>
      if b.dirty then
        match c.writeBack n b with
        | .error _ => c.disk.writeBits n 1 [b]
        | .ok (rc, c') =>
            c.disk.writeBits n 1 [b] ++ if rc ≠ .noError then [] else c'.detachLoopBits rest
      else c.detachLoopBits rest

/-- A call of the cache, or of its disk. -/
inductive Access where
  | cache (op : Op)
  | isBlockAllocated (n : SizeT)
  | disk (call : RangeCall)

def access (c : BufferCache) : Access → Except Fault (ErrorT × BufferCache)
  | .cache op => c.perform op
  | .isBlockAllocated _ => .ok (.noError, c)
  | .disk call => (c.disk.perform call).map fun r => (r.1, { c with disk := r.2 })

def accessBits (c : BufferCache) : Access → List Nat
  | .cache (.request (.read n)) => c.readBlockBits n
  | .cache (.request (.write n _)) => c.writeBlockBits n
  | .cache (.request (.flush n)) => c.flushBits n
  | .cache .attach => []
  | .cache .detach => c.detachLoopBits c.blockmap.toList
  | .cache (.notifyAllocate n) => c.disk.notifyBits n 1
  | .cache (.notifyDeallocate n) => c.disk.notifyBits n 1
  | .isBlockAllocated n => [n.toNat]
  | .disk call => c.disk.callBits call

/-- Every evaluation of the macros uses a byte of the bitmap. -/
def BitsInBounds (c : BufferCache) (a : Access) : Prop := ∀ x ∈ c.accessBits a, c.disk.HasBit x

/-- Making room ends the process: the block that has to leave is written out and the disk has
no sectors, or the block is shorter than it should be and what lies behind it cannot be read. -/
def Crashes (c : BufferCache) : Prop :=
  c.cachesize.toNat ≤ c.blockmap.size ∧ ∃ v b, c.victim = some (v, b) ∧ b.dirty = true ∧
    ¬ v + 1 > c.disk.numblocks ∧
    (c.disk.numheads * c.disk.blockspertrack = 0 ∨ ¬ c.disk.Writable b)

/-- The block number given to the cache has a bit, unless the process ends before. -/
def BitSafe (c : BufferCache) : Access → Prop
  | .cache (.request (.read n)) | .cache (.request (.write n _)) => c.disk.HasBit n.toNat ∨ c.Crashes
  | .cache _ => True
  | .isBlockAllocated n => c.disk.HasBit n.toNat
  | .disk call => c.disk.BitSafe call

/-- Every cached block has a bit. -/
def Bounded (c : BufferCache) : Prop :=
  ∀ (n : SizeT) (b : Block), c.blockmap[n]? = some b → c.disk.HasBit n.toNat

variable {c c' : BufferCache} {n : SizeT} {b : Block} {x : Nat}

theorem writeOne_error_iff {d : DiskSystem} (bit : d.ReadableBit n) : (∃ f, d.writeOne n b = .error f) ↔
    ¬ n + 1 > d.numblocks ∧ (d.numheads * d.blockspertrack = 0 ∨ ¬ d.Writable b) := by
  rw [DiskSystem.writeOne, DiskSystem.write]
  by_cases past : n + 1 > d.numblocks
  · rw [if_pos past]
    exact iff_of_false (by simp) fun h => h.1 past
  rw [if_neg past]
  by_cases spins : d.numheads * d.blockspertrack = 0
  · have stuck : d.modelAccess n 1 = .error .divisionByZero := if_pos spins
    rw [stuck]
    exact iff_of_true ⟨_, rfl⟩ ⟨past, Or.inl spins⟩
  · obtain ⟨t, d1, access, k, -⟩ := DiskSystem.modelAccess_ok spins n 1
    obtain ⟨bit, asked⟩ := bit
    have sized : d1.blocksize = d.blocksize := by rw [k.config]
    simp only [access, DiskSystem.one_toNat, DiskSystem.writeLoop, k.isBlockAllocated, asked,
      k.machine, sized]
    cases bytes : d.machine.bytesAt b d.blocksize with
    | ok buf =>
        simp only [mywrite_of_le _ _ (Machine.bytesAt_inv bytes).2, ne_eq, not_true, if_false]
        exact iff_of_false (by simp) fun h => h.2.elim spins fun bad => bad ⟨buf, bytes⟩
    | error e =>
        refine iff_of_true ⟨_, rfl⟩ ⟨past, Or.inr ?_⟩
        rintro ⟨buf, had⟩
        rw [bytes] at had
        cases had

theorem writeBack_error_iff : (∃ f, c.writeBack n b = .error f) ↔
    ∃ f, c.disk.writeOne n b = .error f := by
  rw [writeBack]
  cases c.disk.writeOne n b with
  | error f => exact ⟨fun _ => ⟨f, rfl⟩, fun _ => ⟨f, rfl⟩⟩
  | ok r => simp

theorem Bounded.crashes_iff (h : c.Bounded) : c.Crashes ↔ ∃ f, c.checkDeleteOldest = .error f := by
  simp only [Crashes, checkDeleteOldest, victim]
  by_cases room : c.blockmap.size < c.cachesize.toNat
  · simp only [if_pos room, not_le.mpr room, false_and, reduceCtorEq, exists_false]
  · simp only [if_neg room, not_lt.mp room, true_and]
    cases found : findOldest (c.disk.machine.add c.curtime 1) c.blockmap.toList with
    | none => simp
    | some e =>
        obtain ⟨v, b⟩ := e
        have bit := h v b (Std.TreeMap.mem_toList_iff_getElem?_eq_some.mp (findOldest_mem found))
        have back := (writeBack_error_iff (c := c) (n := v) (b := b)).trans
          (writeOne_error_iff ⟨_, DiskSystem.isBlockAllocated_bit bit⟩)
        cases dirty : b.dirty with
        | false => simp [removeBlock, dirty]
        | true =>
            simp only [Option.some.injEq, Prod.mk.injEq, removeBlock, dirty, if_true]
            constructor
            · rintro ⟨v', b', ⟨rfl, rfl⟩, -, stuck⟩
              obtain ⟨f, hback⟩ := back.mpr stuck
              exact ⟨f, by rw [hback]⟩
            · rintro ⟨f, hremove⟩
              refine ⟨v, b, ⟨rfl, rfl⟩, dirty, back.mp ?_⟩
              cases hback : c.writeBack v b with
              | error f' => exact ⟨f', rfl⟩
              | ok r =>
                  simp only [hback] at hremove
                  split_ifs at hremove

/-! ## One operation -/

theorem mem_removeBits (h : x ∈ c.removeBits n b) : x = n.toNat := by
  rw [removeBits] at h
  split_ifs at h
  · exact DiskSystem.mem_writeBits_one h
  · cases h

theorem Bounded.evict (h : c.Bounded) (mem : x ∈ c.evictBits) : c.disk.HasBit x := by
  rw [evictBits] at mem
  split_ifs at mem
  · cases mem
  · cases found : c.victim with
    | none =>
        rw [found] at mem
        cases mem
    | some e =>
        rw [found] at mem
        rw [mem_removeBits mem]
        exact h e.1 e.2 (Std.TreeMap.mem_toList_iff_getElem?_eq_some.mp (findOldest_mem found))

theorem detachLoopBits_bounded {rest : List (SizeT × Block)}
    (bounded : ∀ e ∈ rest, c.disk.HasBit e.1.toNat) (mem : x ∈ c.detachLoopBits rest) :
    c.disk.HasBit x := by
  induction rest generalizing c with
  | nil => cases mem
  | cons e rest ih =>
      obtain ⟨first, others⟩ := List.forall_mem_cons.mp bounded
      have here : x ∈ c.disk.writeBits e.1 1 [e.2] → c.disk.HasBit x := by
        intro mem
        rw [DiskSystem.mem_writeBits_one mem]
        exact first
      rw [detachLoopBits] at mem
      split_ifs at mem with dirty
      · cases back : c.writeBack e.1 e.2 with
        | error f =>
            rw [back] at mem
            exact here mem
        | ok r =>
            obtain ⟨rc, c'⟩ := r
            have config := (writeBack_inv back).1.config
            rw [back, List.mem_append] at mem
            rcases mem with mem | mem
            · exact here mem
            · split_ifs at mem
              · cases mem
              · rw [← config]
                exact ih (by rw [config]; exact others) mem
      · exact ih others mem

/-- On a miss the block has to have a bit unless making room ends the process. -/
theorem miss_iff (h : c.Bounded) {after : BufferCache → List Nat}
    (same : ∀ rc c1, c.checkDeleteOldest = .ok (rc, c1) → ∀ x ∈ after c1, x = n.toNat) :
    (∀ x ∈ (match c.checkDeleteOldest with
        | .error _ => c.evictBits
        | .ok (_, c1) => c.evictBits ++ n.toNat :: after c1), c.disk.HasBit x) ↔
      c.disk.HasBit n.toNat ∨ c.Crashes := by
  cases evict : c.checkDeleteOldest with
  | error f => exact iff_of_true (fun x mem => h.evict mem) (Or.inr (h.crashes_iff.mpr ⟨f, evict⟩))
  | ok r =>
      have survives : ¬ c.Crashes := by
        rw [h.crashes_iff, evict]
        simp
      rw [or_iff_left survives]
      constructor
      · exact fun safe => safe _ (List.mem_append_right _ List.mem_cons_self)
      · intro has x mem
        rcases List.mem_append.mp mem with mem | mem
        · exact h.evict mem
        · rcases List.mem_cons.mp mem with rfl | mem
          · exact has
          · rw [same r.1 r.2 evict x mem]
            exact has

theorem readBlockBits_iff (h : c.Bounded) :
    (∀ x ∈ c.readBlockBits n, c.disk.HasBit x) ↔ c.disk.HasBit n.toNat ∨ c.Crashes := by
  rw [readBlockBits]
  cases entry : c.blockmap[n]? with
  | some b => exact iff_of_true (by simp) (Or.inl (h n b entry))
  | none =>
      refine miss_iff h fun rc c1 _ x mem => ?_
      cases asked : c1.isBlockAllocated n with
      | error f =>
          rw [asked] at mem
          cases mem
      | ok bit =>
          rw [asked] at mem
          exact DiskSystem.mem_readBits_one mem

theorem writeBlockBits_iff (h : c.Bounded) :
    (∀ x ∈ c.writeBlockBits n, c.disk.HasBit x) ↔ c.disk.HasBit n.toNat ∨ c.Crashes := by
  rw [writeBlockBits]
  cases entry : c.blockmap[n]? with
  | some b => exact iff_of_true (by simp) (Or.inl (h n b entry))
  | none => exact miss_iff h (by simp)

theorem bitsInBounds_iff (h : c.Bounded) (a : Access) : c.BitsInBounds a ↔ c.BitSafe a := by
  cases a with
  | isBlockAllocated n => simp [BitsInBounds, accessBits, BitSafe]
  | disk call => exact c.disk.callBits_safe_iff call
  | cache op =>
      rcases op with (n | ⟨n, b⟩ | n) | _ | _ | n | n
      · exact readBlockBits_iff h
      · exact writeBlockBits_iff h
      · refine iff_of_true (fun x mem => ?_) trivial
        rw [accessBits, flushBits] at mem
        cases entry : c.blockmap[n]? with
        | none =>
            rw [entry] at mem
            cases mem
        | some b =>
            rw [entry] at mem
            rw [mem_removeBits mem]
            exact h n b entry
      · exact iff_of_true (by simp [BitsInBounds, accessBits]) trivial
      · refine iff_of_true (fun x mem => detachLoopBits_bounded (fun e mem => ?_) mem) trivial
        exact h e.1 e.2 (Std.TreeMap.mem_toList_iff_getElem?_eq_some.mp mem)
      · exact iff_of_true (fun x mem => DiskConfig.hasBit_of_lt (DiskSystem.mem_notifyBits mem)) trivial
      · exact iff_of_true (fun x mem => DiskConfig.hasBit_of_lt (DiskSystem.mem_notifyBits mem)) trivial

/-! ## Runs -/

/-- What enters the cache had its bit looked at. -/
theorem enters_hasBit {op : Op} {rc : ErrorT} (safe : c.BitsInBounds (.cache op))
    (ran : c.perform op = .ok (rc, c')) (block : op.block = some n) (miss : c.blockmap[n]? = none) :
    c.disk.HasBit n.toNat := by
  rcases op with (m | ⟨m, b⟩ | m) | _ | _ | m | m <;> cases block
  · cases evict : c.checkDeleteOldest with
    | error f =>
        simp only [perform, serve, readBlock, miss, evict, Except.map] at ran
        cases ran
    | ok r =>
        refine safe _ ?_
        simp only [accessBits, readBlockBits, miss, evict, List.mem_append, List.mem_cons, true_or,
          or_true]
  · cases evict : c.checkDeleteOldest with
    | error f =>
        simp only [perform, serve, writeBlock, miss, evict, Except.map] at ran
        cases ran
    | ok r =>
        refine safe _ ?_
        simp only [accessBits, writeBlockBits, miss, evict, List.mem_append, List.mem_cons, true_or,
          or_true]

theorem disk_config {d d' : DiskSystem} {call : RangeCall} {rc : ErrorT}
    (ran : d.perform call = .ok (rc, d')) : d'.toDiskConfig = d.toDiskConfig := by
  cases call with
  | read s k =>
      obtain ⟨⟨rc1, bs, t, d2⟩, hread, same⟩ := Runs.map_eq_ok ran
      cases same
      rcases DiskSystem.read_inv hread with ⟨-, -, -, -, rfl⟩ | ⟨-, -, d1, f, access, -, rfl⟩
      · rfl
      · exact (DiskSystem.modelAccess_keeps access).1.config
  | write s k bs =>
      obtain ⟨⟨rc1, t, d2⟩, hwrite, same⟩ := Runs.map_eq_ok ran
      cases same
      rcases DiskSystem.write_inv hwrite with ⟨-, -, -, rfl⟩ | ⟨-, -, d1, f, access, -, rfl⟩
      · rfl
      · exact (DiskSystem.modelAccess_keeps access).1.config
  | notifyAllocate s k =>
      have same : (d.notifyAllocateBlocks s k).2 = d' := congrArg Prod.snd (Except.ok.inj ran)
      rw [← same]
      exact (notify_keeps _ d s k).1
  | notifyDeallocate s k =>
      have same : (d.notifyDeallocateBlocks s k).2 = d' := congrArg Prod.snd (Except.ok.inj ran)
      rw [← same]
      exact (notify_keeps _ d s k).1

theorem Bounded.access (h : c.Bounded) {a : Access} {rc : ErrorT} (safe : c.BitsInBounds a)
    (ran : c.access a = .ok (rc, c')) : c'.Bounded := by
  cases a with
  | isBlockAllocated n =>
      cases ran
      exact h
  | disk call =>
      obtain ⟨⟨rc1, d⟩, hcall, same⟩ := Runs.map_eq_ok ran
      cases same
      intro n b entry
      rw [disk_config hcall]
      exact h n b entry
  | cache op =>
      have served := perform_served ran
      intro n b entry
      rw [served.ticks.config]
      rcases served.entries n b entry with before | fresh
      · exact h n b before
      · cases old : c.blockmap[n]? with
        | some b' => exact h n b' old
        | none => exact enters_hasBit safe ran fresh.block old

/-- In a run of calls to the cache and its disk every evaluation of the macros stays
inside the bitmap exactly if every call is safe in the state it meets. -/
theorem runs_bitsInBounds_iff (d : DiskSystem) (cachesize : SizeT) (calls : List Access) :
    Runs.Along access BitsInBounds (make d cachesize) calls ↔
      Runs.Along access BitSafe (make d cachesize) calls := by
  refine Runs.along_iff (L := fun _ => True) (I := Bounded) ?_ ?_ ?_ fun _ _ => trivial
  · exact fun c a rc c' h _ safe ran => h.access safe ran
  · exact fun c a h _ => bitsInBounds_iff h a
  · intro n b entry
    simp [make] at entry

/-- The first number past the end of a disk whose bitmap has no spare bits. -/
theorem block_past_the_bitmap :
    ¬ Runs.Along access BitsInBounds
      (make (DiskSystem.make .small DiskSystem.smallConfig ByteFile.empty) 1)
        [.cache (.request (.read 64))] := by
  rintro ⟨safe, -⟩
  exact absurd (safe 64 (by decide)) (by decide)

end BufferCache
end BTreeLab
