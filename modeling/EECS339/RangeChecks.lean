import EECS339.DiskArray

/-!
# Range checks of the disk

Four operations compare the 32-bit sum of start and count with the number of blocks.
They refuse what lies past the end unless the sum wraps to a number that does not.
-/
namespace BTreeLab.DiskSystem
open Words

/-- The operations that check a range of blocks. -/
inductive RangeCall where
  | read (start count : SizeT)
  | write (start count : SizeT) (blocks : List Block)
  | notifyAllocate (start count : SizeT)
  | notifyDeallocate (start count : SizeT)

namespace RangeCall

def start : RangeCall → SizeT
  | .read s _ | .write s _ _ | .notifyAllocate s _ | .notifyDeallocate s _ => s

def count : RangeCall → SizeT
  | .read _ k | .write _ k _ | .notifyAllocate _ k | .notifyDeallocate _ k => k

/-- The error for a range past the end. -/
def error : RangeCall → ErrorT
  | .read .. | .write .. => .noSpace
  | .notifyAllocate .. | .notifyDeallocate .. => .noSuchBlock

/-- One past the last block, as integers. -/
def stop (op : RangeCall) : Nat := op.start.toNat + op.count.toNat

end RangeCall

def perform (d : DiskSystem) : RangeCall → Except Fault (ErrorT × DiskSystem)
  | .read s k => (d.read s k).map fun r => (r.1, r.2.2.2)
  | .write s k bs => (d.write s k bs).map fun r => (r.1, r.2.2)
  | .notifyAllocate s k => .ok (d.notifyAllocateBlocks s k)
  | .notifyDeallocate s k => .ok (d.notifyDeallocateBlocks s k)

/-- Past the end the operation returns its error and changes nothing, and a write that
is accepted stays inside the partition if that lies below 2^32. -/
structure RangeExact (d : DiskSystem) (op : RangeCall) : Prop where
  refused : d.numblocks.toNat < op.stop → d.perform op = .ok (op.error, d)
  inside : ∀ s k bs d', op = .write s k bs → d.perform op = .ok (.noError, d') →
    d.offset.toNat + d.numblocks.toNat * d.blocksize.toNat ≤ 2 ^ 32 →
    ∀ i, i < d.offset.toNat ∨ d.offset.toNat + d.numblocks.toNat * d.blocksize.toNat ≤ i →
      d'.datafile.byte i = d.datafile.byte i

variable {d : DiskSystem}

/-- A block of the partition lies inside the partition, its position does not wrap. -/
theorem blockPos_inside (below : d.offset.toNat + d.numblocks.toNat * d.blocksize.toNat ≤ 2 ^ 32)
    {n : SizeT} (hn : n < d.numblocks) (bytes : 0 < d.blocksize.toNat) :
    (d.blockPos n).toNat = d.offset.toNat + n.toNat * d.blocksize.toNat ∧
      (d.blockPos n).toNat + d.blocksize.toNat ≤
        d.offset.toNat + d.numblocks.toNat * d.blocksize.toNat := by
  have block : (n.toNat + 1) * d.blocksize.toNat ≤ d.numblocks.toNat * d.blocksize.toNat :=
    Nat.mul_le_mul_right _ (BitVec.lt_def.mp hn)
  rw [Nat.add_mul, Nat.one_mul] at block
  have pos : (d.blockPos n).toNat = d.offset.toNat + n.toNat * d.blocksize.toNat := by
    rw [blockPos, BitVec.toNat_add, BitVec.toNat_mul, Nat.add_mod_mod, Nat.mod_eq_of_lt (by omega)]
  exact ⟨pos, by omega⟩

/-- A block write changes bytes of that block only. -/
theorem write_block_inside (below : d.offset.toNat + d.numblocks.toNat * d.blocksize.toNat ≤ 2 ^ 32)
    {n : SizeT} (hn : n < d.numblocks) {bs : List ByteT} (size : bs.length = d.blocksize.toNat) {i : Nat}
    (outside : i < d.offset.toNat ∨ d.offset.toNat + d.numblocks.toNat * d.blocksize.toNat ≤ i) :
    (d.datafile.write (d.blockPos n).toNat bs).byte i = d.datafile.byte i := by
  simp only [ByteFile.write]
  refine if_neg fun hit => ?_
  have bytes : 0 < d.blocksize.toNat := by omega
  obtain ⟨pos, le⟩ := blockPos_inside below hn bytes
  omega

/-- One turn of the loop of `Write` that goes on: the bit of the block and all of its bytes can be
read, and the bytes are in the file. -/
theorem writeLoop_succ {d' : DiskSystem} {n : SizeT} {count : Nat} {b : Block} {bs : List Block} {rc : ErrorT}
    (ran : d.writeLoop n (count + 1) (b :: bs) = .ok (rc, d')) : d.ReadableBit n ∧
      ∃ buf, d.machine.bytesAt b d.blocksize = .ok buf ∧ d.blocksize.toNat ≤ buf.length ∧
        { d with datafile := d.datafile.write (d.blockPos n).toNat (buf.take d.blocksize.toNat) }.writeLoop
          (n + 1) count bs = .ok (rc, d') := by
  rw [writeLoop] at ran
  cases asked : d.isBlockAllocated n with
  | error e =>
      rw [asked] at ran
      cases ran
  | ok bit =>
      cases bytes : d.machine.bytesAt b d.blocksize with
      | error e =>
          rw [asked, bytes] at ran
          cases ran
      | ok buf =>
          have enough := (Machine.bytesAt_inv bytes).2
          simp only [asked, bytes, mywrite_of_le d.datafile (d.blockPos n) enough, ne_eq, not_true,
            if_false] at ran
          exact ⟨⟨bit, asked⟩, buf, rfl, enough, ran⟩

theorem writeLoop_inside (below : d.offset.toNat + d.numblocks.toNat * d.blocksize.toNat ≤ 2 ^ 32)
    {n : SizeT} {count : Nat} (range : n.toNat + count ≤ d.numblocks.toNat) {bs : List Block} {rc : ErrorT}
    {d' : DiskSystem} (ran : d.writeLoop n count bs = .ok (rc, d')) {i : Nat}
    (outside : i < d.offset.toNat ∨ d.offset.toNat + d.numblocks.toNat * d.blocksize.toNat ≤ i) :
    d'.datafile.byte i = d.datafile.byte i := by
  induction count generalizing d n bs with
  | zero =>
      cases bs <;> cases ran <;> rfl
  | succ count ih =>
      cases bs with
      | nil => cases ran
      | cons b bs =>
          obtain ⟨hn, rest⟩ := lt_numblocks range
          obtain ⟨-, buf, -, enough, ran⟩ := writeLoop_succ ran
          let f := d.datafile.write (d.blockPos n).toNat (buf.take d.blocksize.toNat)
          refine (ih (d := { d with datafile := f }) below rest ran outside).trans ?_
          exact write_block_inside below hn (List.length_take_of_le enough) outside

theorem modelAccess_keeps {d d1 : DiskSystem} {n k : SizeT} {t : ℚ}
    (access : d.modelAccess n k = .ok (t, d1)) : d.Keeps d1 ∧ d1.datafile = d.datafile := by
  by_cases spins : d.sectors = 0
  · simp only [modelAccess, if_pos spins, reduceCtorEq] at access
  · obtain ⟨t', d', access', keeps⟩ := modelAccess_ok spins n k
    rw [access] at access'
    cases access'
    exact keeps

/-- The check of all four operations. -/
theorem perform_refused {op : RangeCall} (past : op.start + op.count > d.numblocks) :
    d.perform op = .ok (op.error, d) := by
  cases op with
  | read s k => simp only [perform, read, if_pos (show s + k > d.numblocks from past)]; rfl
  | write s k bs => simp only [perform, write, if_pos (show s + k > d.numblocks from past)]; rfl
  | notifyAllocate s k =>
      simp only [perform, notifyAllocateBlocks, notifyBlocks, if_pos (show s + k > d.numblocks from past)]
      rfl
  | notifyDeallocate s k =>
      simp only [perform, notifyDeallocateBlocks, notifyBlocks, if_pos (show s + k > d.numblocks from past)]
      rfl

/-- The loops over the blocks change the data file only, and their codes are not those
of the check. -/
theorem readLoop_inv {d d' : DiskSystem} {n : SizeT} {count : Nat} {bs bs' : List Block} {rc : ErrorT}
    (ran : d.readLoop n count bs = .ok (rc, bs', d')) :
    rc ≠ .noSpace ∧ ∃ f, d' = { d with datafile := f } := by
  induction count generalizing d n bs with
  | zero =>
      cases ran
      exact ⟨ErrorT.noConfusion, _, rfl⟩
  | succ count ih =>
      rw [readLoop] at ran
      cases asked : d.isBlockAllocated n with
      | error e =>
          rw [asked] at ran
          cases ran
      | ok bit =>
          simp only [asked] at ran
          split_ifs at ran
          · cases ran
            exact ⟨ErrorT.noConfusion, _, rfl⟩
          · obtain ⟨code, f, rest⟩ := ih ran
            exact ⟨code, f, rest⟩

theorem writeLoop_inv {d d' : DiskSystem} {n : SizeT} {count : Nat} {bs : List Block} {rc : ErrorT}
    (ran : d.writeLoop n count bs = .ok (rc, d')) :
    rc = .noError ∧ ∃ f, d' = { d with datafile := f } := by
  induction count generalizing d n bs with
  | zero =>
      cases bs <;> cases ran <;> exact ⟨rfl, _, rfl⟩
  | succ count ih =>
      cases bs with
      | nil => cases ran
      | cons b bs =>
          obtain ⟨-, buf, -, -, ran⟩ := writeLoop_succ ran
          obtain ⟨code, f, rest⟩ := ih ran
          exact ⟨code, f, rest⟩

/-- What `Read` can do: refuse, or move the head and read. -/
theorem read_inv {d' : DiskSystem} {s k : SizeT} {rc : ErrorT} {bs : List Block} {t : ℚ}
    (ran : d.read s k = .ok (rc, bs, t, d')) :
    (s + k > d.numblocks ∧ rc = .noSpace ∧ bs = [] ∧ t = 0 ∧ d' = d) ∨
      (¬ s + k > d.numblocks ∧ rc ≠ .noSpace ∧
        ∃ d1 f, d.modelAccess s k = .ok (t, d1) ∧ d1.readLoop s k.toNat [] = .ok (rc, bs, d') ∧
          d' = { d1 with datafile := f }) := by
  rw [read] at ran
  split_ifs at ran with past
  · cases ran
    exact Or.inl ⟨past, rfl, rfl, rfl, rfl⟩
  · refine Or.inr ⟨past, ?_⟩
    cases access : d.modelAccess s k with
    | error f => simp [access] at ran
    | ok r =>
        obtain ⟨t1, d1⟩ := r
        cases loop : d1.readLoop s k.toNat [] with
        | error f => simp [access, loop] at ran
        | ok q =>
            obtain ⟨rc1, bs1, d2⟩ := q
            obtain ⟨code, f, file⟩ := readLoop_inv loop
            simp only [access, loop, Except.ok.injEq, Prod.mk.injEq] at ran
            obtain ⟨rfl, rfl, rfl, rfl⟩ := ran
            exact ⟨code, d1, f, rfl, loop, file⟩

/-- What `Write` can do: refuse, or move the head and write. -/
theorem write_inv {d' : DiskSystem} {s k : SizeT} {rc : ErrorT} {bs : List Block} {t : ℚ}
    (ran : d.write s k bs = .ok (rc, t, d')) :
    (s + k > d.numblocks ∧ rc = .noSpace ∧ t = 0 ∧ d' = d) ∨
      (¬ s + k > d.numblocks ∧ rc = .noError ∧ ∃ d1 f, d.modelAccess s k = .ok (t, d1) ∧
        d1.writeLoop s k.toNat bs = .ok (rc, d') ∧ d' = { d1 with datafile := f }) := by
  rw [write] at ran
  split_ifs at ran with past
  · cases ran
    exact Or.inl ⟨past, rfl, rfl, rfl⟩
  · refine Or.inr ⟨past, ?_⟩
    cases access : d.modelAccess s k with
    | error f => simp [access] at ran
    | ok r =>
        obtain ⟨t1, d1⟩ := r
        cases loop : d1.writeLoop s k.toNat bs with
        | error f => simp [access, loop] at ran
        | ok q =>
            obtain ⟨rc1, d2⟩ := q
            obtain ⟨code, f, file⟩ := writeLoop_inv loop
            simp only [access, loop, Except.ok.injEq, Prod.mk.injEq] at ran
            obtain ⟨rfl, rfl, rfl⟩ := ran
            exact ⟨code, d1, f, rfl, loop, file⟩

/-- An operation that passes the check does not return the error of the check. -/
theorem perform_accepted {op : RangeCall} (within : ¬ op.start + op.count > d.numblocks)
    (d' : DiskSystem) : d.perform op ≠ .ok (op.error, d') := by
  intro ran
  cases op with
  | read s k =>
      obtain ⟨r, hread, same⟩ := Runs.map_eq_ok ran
      obtain ⟨rc, bs, t, d1⟩ := r
      rcases read_inv hread with ⟨past, -⟩ | ⟨-, code, -⟩
      · exact within past
      · exact code (congrArg Prod.fst same)
  | write s k bs =>
      obtain ⟨r, hwrite, same⟩ := Runs.map_eq_ok ran
      obtain ⟨rc, t, d1⟩ := r
      rcases write_inv hwrite with ⟨past, -⟩ | ⟨-, rfl, -⟩
      · exact within past
      · cases same
  | notifyAllocate s k =>
      simp only [perform, notifyAllocateBlocks, notifyBlocks,
        if_neg (show ¬ s + k > d.numblocks from within)] at ran
      cases ran
  | notifyDeallocate s k =>
      simp only [perform, notifyDeallocateBlocks, notifyBlocks,
        if_neg (show ¬ s + k > d.numblocks from within)] at ran
      cases ran

theorem write_inside {s k : SizeT} {bs : List Block} {d' : DiskSystem}
    (range : s.toNat + k.toNat ≤ d.numblocks.toNat)
    (ran : d.perform (.write s k bs) = .ok (.noError, d'))
    (below : d.offset.toNat + d.numblocks.toNat * d.blocksize.toNat ≤ 2 ^ 32) {i : Nat}
    (outside : i < d.offset.toNat ∨ d.offset.toNat + d.numblocks.toNat * d.blocksize.toNat ≤ i) :
    d'.datafile.byte i = d.datafile.byte i := by
  obtain ⟨⟨rc, t, d2⟩, hwrite, same⟩ := Runs.map_eq_ok ran
  cases same
  rcases write_inv hwrite with ⟨-, refused, -⟩ | ⟨-, -, d1, f, access, loop, -⟩
  · cases refused
  · obtain ⟨keeps, file⟩ := modelAccess_keeps access
    rw [← file]
    rw [← keeps.config] at below outside range
    exact writeLoop_inside below range loop outside

/-- The check is exact for a range exactly if the 32-bit sum is the sum, or is past the
end all the same. -/
theorem rangeExact_iff (d : DiskSystem) (op : RangeCall) :
    d.RangeExact op ↔ op.stop < 2 ^ 32 ∨ op.start + op.count > d.numblocks := by
  have bound := d.numblocks.isLt
  have sum : (op.start + op.count).toNat = op.stop % 2 ^ 32 := BitVec.toNat_add _ _
  constructor
  · intro exact
    by_contra wraps
    push Not at wraps
    exact perform_accepted (not_lt.mpr wraps.2) d (exact.refused (by omega))
  · intro good
    by_cases past : op.start + op.count > d.numblocks
    · have refused := perform_refused past
      refine ⟨fun _ => refused, ?_⟩
      rintro s k bs d' rfl ran - i -
      rw [refused] at ran
      cases ran
    · have whole := good.resolve_right past
      have range : op.stop ≤ d.numblocks.toNat := by
        rw [gt_iff_lt, BitVec.lt_def, sum, Nat.mod_eq_of_lt whole] at past
        omega
      refine ⟨fun outside => absurd range (not_le.mpr outside), ?_⟩
      rintro s k bs d' rfl ran below i outside
      exact write_inside range ran below outside

/-- The sum for block 2^32 - 1 is 0, so its allocation passes the check, and the loop over the
blocks of the range has no turn. -/
theorem last_block_number_accepted :
    (make .small smallConfig ByteFile.empty).perform (.notifyAllocate 0xffffffff 1) =
        .ok (.noError, make .small smallConfig ByteFile.empty) ∧
      ¬ (make .small smallConfig ByteFile.empty).RangeExact (.notifyAllocate 0xffffffff 1) := by
  refine ⟨rfl, fun exact => ?_⟩
  have refused := exact.refused (by decide)
  exact perform_accepted (by decide) _ refused

end BTreeLab.DiskSystem
