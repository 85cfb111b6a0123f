import EECS339.DiskArray

/-!
# The bitmap over the life of a disk

Allocations and deallocations of ranges, with the disk closed and opened again in
between. `WriteBitMap` and `ReadBitMap` move the bitmap between memory and its file; the
configuration is opened again as it was.
-/
namespace BTreeLab
open Words PackedBits

namespace DiskSystem

def numbitmapbytes (d : DiskSystem) : SizeT := d.numblocks / 8 + if d.numblocks % 8 ≠ 0 then 1 else 0

def writeBitMap (d : DiskSystem) (bitmapfile : ByteFile) : Except Fault (ErrorT × ByteFile) :=
  match mywrite bitmapfile 0 d.bitmap d.numbitmapbytes with
  | .error e => .error e
  | .ok (sent, f) => .ok (if sent ≠ d.numbitmapbytes.toNat then .implBug else .noError, f)

/-- The new array is not cleared: where the file ends early it holds what the memory `u`
did. -/
def readBitMap (d : DiskSystem) (u : Nat → ByteT) (bitmapfile : ByteFile) :
    ErrorT × DiskSystem × ByteFile :=
  let (buf, f) := myread bitmapfile 0 d.numbitmapbytes false
  let rest := (List.range (d.numbitmapbytes.toNat - buf.length)).map fun i => u (buf.length + i)
  (if buf.length ≠ d.numbitmapbytes.toNat then .implBug else .noError, { d with bitmap := buf ++ rest }, f)

end DiskSystem

/-- A disk and the file of its bitmap. -/
structure BitmapDisk where
  disk : DiskSystem
  bitmapfile : ByteFile

namespace BitmapDisk

/-- `InitFromInMemoryConfig`, as far as the bitmap goes. -/
def create (m : Machine) (c : DiskConfig) (datafile : ByteFile) : Except Fault (ErrorT × BitmapDisk) :=
  let d := DiskSystem.make m c datafile
  match d.writeBitMap ByteFile.empty with
  | .error e => .error e
  | .ok (rc, f) => .ok (rc, ⟨d, f⟩)

/-- The destructor, which ignores what `WriteBitMap` returns, and `InitFromConfigFile`. -/
def reopen (s : BitmapDisk) (u : Nat → ByteT) : Except Fault (ErrorT × BitmapDisk) :=
  match s.disk.writeBitMap s.bitmapfile with
  | .error e => .error e
  | .ok (_, f) =>
      let d := DiskSystem.make s.disk.machine s.disk.toDiskConfig s.disk.datafile
      let (rc, d, f') := d.readBitMap u f
      .ok (rc, ⟨d, f'⟩)

inductive Call where
  | allocate (start count : SizeT)
  | deallocate (start count : SizeT)
  | reopen (u : Nat → ByteT)

def step (s : BitmapDisk) : Call → Except Fault (ErrorT × BitmapDisk)
  | .allocate n k =>
      let (rc, d) := s.disk.notifyAllocateBlocks n k
      .ok (rc, { s with disk := d })
  | .deallocate n k =>
      let (rc, d) := s.disk.notifyDeallocateBlocks n k
      .ok (rc, { s with disk := d })
  | .reopen u => s.reopen u

namespace Call

/-- One past the last block of the range, as an integer. -/
def stop : Call → Nat
  | .allocate s k | .deallocate s k => s.toNat + k.toNat
  | .reopen _ => 0

/-- The block lies in the range. -/
def InRange (n : Nat) : Call → Prop
  | .allocate s k | .deallocate s k => s.toNat ≤ n ∧ n < s.toNat + k.toNat
  | .reopen _ => False

instance (n : Nat) : DecidablePred (InRange n)
  | .allocate _ _ | .deallocate _ _ => inferInstanceAs (Decidable (_ ∧ _))
  | .reopen _ => inferInstanceAs (Decidable False)

/-- The call succeeds and its range contains the block. -/
def Covers (c : DiskConfig) (n : Nat) (call : Call) : Prop :=
  call.stop ≤ c.numblocks.toNat ∧ call.InRange n

instance (c : DiskConfig) (n : Nat) : DecidablePred (Covers c n) :=
  fun _ => inferInstanceAs (Decidable (_ ∧ _))

def isAllocation : Call → Bool
  | .allocate _ _ => true
  | _ => false

def reply (c : DiskConfig) (call : Call) : ErrorT :=
  if c.numblocks.toNat < call.stop then .noSuchBlock else .noError

end Call

/-- The last successful call whose range contains the block was an allocation. -/
def LastAllocates (c : DiskConfig) (calls : List Call) (n : Nat) : Prop :=
  ∃ call, (calls.filter fun call => decide (call.Covers c n)).getLast? = some call ∧
    call.isAllocation = true

variable {c : DiskConfig} {s : BitmapDisk} {call : Call} {n : Nat}

/-- The configuration does not change, and the bitmap has a bit for every block. -/
structure Inv (c : DiskConfig) (s : BitmapDisk) : Prop where
  config : s.disk.toDiskConfig = c
  length : s.disk.bitmap.length = byteCount c.numblocks.toNat

/-! ## Closing and opening -/

theorem numbitmapbytes_toNat (d : DiskSystem) :
    d.numbitmapbytes.toNat = byteCount d.numblocks.toNat := by
  have bound := d.numblocks.isLt
  have rest : d.numblocks % 8 ≠ 0 ↔ d.numblocks.toNat % 8 ≠ 0 := by
    rw [ne_eq, ← BitVec.toNat_inj, BitVec.toNat_umod]
    exact Iff.rfl
  rw [DiskSystem.numbitmapbytes, byteCount, BitVec.toNat_add, BitVec.toNat_udiv,
    show (8 : SizeT).toNat = 8 from rfl]
  simp only [rest]
  split_ifs
  · rw [show (1 : SizeT).toNat = 1 from rfl]
    omega
  · rw [show (0 : SizeT).toNat = 0 from rfl]
    omega

theorem Inv.writes (h : s.Inv c) (f : ByteFile) :
    s.disk.writeBitMap f = .ok (.noError, f.write 0 s.disk.bitmap) := by
  have length : s.disk.bitmap.length = s.disk.numbitmapbytes.toNat := by
    rw [numbitmapbytes_toNat, h.length, h.config]
  rw [DiskSystem.writeBitMap, mywrite_ok f 0 length]
  simp

/-- A file that is long enough fills the array. -/
theorem readBitMap_ok {d : DiskSystem} {f : ByteFile} (size : d.numbitmapbytes.toNat ≤ f.size)
    (u : Nat → ByteT) : d.readBitMap u f =
      (.noError, { d with bitmap := f.content 0 d.numbitmapbytes.toNat }, f) := by
  have zero : (0 : SizeT).toNat = 0 := rfl
  have hread : myread f 0 d.numbitmapbytes false = (f.content 0 d.numbitmapbytes.toNat, f) := by
    rw [myread, myreadFrom_enough false (by rw [zero, Nat.zero_add]; exact size), zero]
  simp only [DiskSystem.readBitMap, hread, ByteFile.content_length, ne_eq, not_true, if_false, Nat.sub_self,
    List.range_zero, List.map_nil, List.append_nil]

/-- The bitmap survives, whatever the memory of the new array held. -/
theorem Inv.reopen (h : s.Inv c) (u : Nat → ByteT) :
    ∃ s', s.reopen u = .ok (.noError, s') ∧ s'.Inv c ∧ s'.disk.bitmap = s.disk.bitmap := by
  let d := DiskSystem.make s.disk.machine s.disk.toDiskConfig s.disk.datafile
  let f := s.bitmapfile.write 0 s.disk.bitmap
  have bytes : d.numbitmapbytes.toNat = s.disk.bitmap.length := by
    rw [numbitmapbytes_toNat, h.length, ← h.config]
    rfl
  have size : d.numbitmapbytes.toNat ≤ f.size := by
    rw [bytes]
    by_cases empty : s.disk.bitmap = []
    · rw [empty]
      exact Nat.zero_le _
    · have grown := ByteFile.write_size_ge s.bitmapfile 0 _ empty
      rwa [Nat.zero_add] at grown
  have held : f.content 0 d.numbitmapbytes.toNat = s.disk.bitmap := by
    rw [bytes]
    exact ByteFile.content_write_same _ _ _
  refine ⟨⟨{ d with bitmap := s.disk.bitmap }, f⟩, ?_, ⟨h.config, h.length⟩, rfl⟩
  have hread := readBitMap_ok size u
  rw [held] at hread
  rw [BitmapDisk.reopen, h.writes]
  change (match d.readBitMap u f with
    | (rc, d', f') => Except.ok (rc, BitmapDisk.mk d' f')) = _
  rw [hread]

theorem create_ok (m : Machine) (c : DiskConfig) (datafile : ByteFile) :
    ∃ s, create m c datafile = .ok (.noError, s) ∧
    s.Inv c ∧ ∀ n, getBit s.disk.bitmap n = false := by
  have init (f : ByteFile) : Inv c ⟨DiskSystem.make m c datafile, f⟩ := ⟨rfl, List.length_replicate⟩
  refine ⟨⟨DiskSystem.make m c datafile, ByteFile.empty.write 0 (DiskSystem.make m c datafile).bitmap⟩, ?_,
    init _, fun n => getBit_replicate_zero _ _⟩
  rw [create, (init ByteFile.empty).writes]

/-! ## One call -/

/-- What a call says about the blocks that it covers. -/
theorem notify_bits {change : List ByteT → Nat → List ByteT} {b : Bool}
    (length : ∀ bits i, (change bits i).length = bits.length)
    (one : ∀ bits i j, i / 8 < bits.length → getBit (change bits i) j = if i = j then b else getBit bits j)
    (h : s.Inv c) {k l : SizeT} (whole : k.toNat + l.toNat < 2 ^ 32) :
    (s.disk.notifyBlocks change k l).1 =
        (if c.numblocks.toNat < k.toNat + l.toNat then .noSuchBlock else .noError) ∧
      (c.numblocks.toNat < k.toNat + l.toNat → (s.disk.notifyBlocks change k l).2 = s.disk) ∧
      Inv c { s with disk := (s.disk.notifyBlocks change k l).2 } ∧
      ∀ n, getBit (s.disk.notifyBlocks change k l).2.bitmap n =
        if k.toNat + l.toNat ≤ c.numblocks.toNat ∧ k.toNat ≤ n ∧ n < k.toNat + l.toNat then b
        else getBit s.disk.bitmap n := by
  obtain ⟨rfl, size⟩ := h
  have sum : (k + l).toNat = k.toNat + l.toNat := by rw [BitVec.toNat_add, Nat.mod_eq_of_lt whole]
  by_cases past : s.disk.numblocks.toNat < k.toNat + l.toNat
  · have refused : k + l > s.disk.numblocks := by
      rw [gt_iff_lt, BitVec.lt_def, sum]
      exact past
    simp only [DiskSystem.notifyBlocks, if_pos refused, if_pos past]
    refine ⟨trivial, fun _ => trivial, ⟨rfl, size⟩, fun n => ?_⟩
    rw [if_neg fun covered => absurd past (not_lt.mpr covered.1)]
  · have accepted : ¬ k + l > s.disk.numblocks := by
      rw [gt_iff_lt, BitVec.lt_def, sum]
      exact past
    simp only [DiskSystem.notifyBlocks, if_neg accepted, if_neg past, sum, Nat.add_sub_cancel_left]
    refine ⟨trivial, fun absurd' => absurd absurd' past, ⟨rfl, ?_⟩, fun n => ?_⟩
    · rw [← size]
      exact foldl_length length _ _
    · rw [getBit_foldl length one]
      · simp only [not_lt.mp past, true_and]
      · intro i _ hi
        rw [size]
        exact lt_byteCount (by omega)

/-- One call covers the blocks of its range or, when it is refused, changes nothing. -/
theorem step_ok (h : s.Inv c) (whole : call.stop < 2 ^ 32) :
    ∃ s', s.step call = .ok (call.reply c, s') ∧ s'.Inv c ∧
      (c.numblocks.toNat < call.stop → s' = s) ∧
      ∀ n, getBit s'.disk.bitmap n =
        if call.Covers c n then call.isAllocation else getBit s.disk.bitmap n := by
  cases call with
  | allocate k l =>
      obtain ⟨code, refused, inv, bits⟩ := notify_bits (b := true) setBit_length
        (fun _ _ _ inside => getBit_setBit inside) h (k := k) (l := l) whole
      refine ⟨{ s with disk := (s.disk.notifyAllocateBlocks k l).2 }, ?_, inv, fun past => ?_, bits⟩
      · exact congrArg (fun rc => Except.ok (rc, _)) code
      · exact congrArg (BitmapDisk.mk · s.bitmapfile) (refused past)
  | deallocate k l =>
      obtain ⟨code, refused, inv, bits⟩ := notify_bits (b := false) clearBit_length
        (fun _ _ _ inside => getBit_clearBit inside) h (k := k) (l := l) whole
      refine ⟨{ s with disk := (s.disk.notifyDeallocateBlocks k l).2 }, ?_, inv, fun past => ?_, bits⟩
      · exact congrArg (fun rc => Except.ok (rc, _)) code
      · exact congrArg (BitmapDisk.mk · s.bitmapfile) (refused past)
  | reopen u =>
      obtain ⟨s', hreopen, inv, same⟩ := h.reopen u
      refine ⟨s', hreopen, inv, fun past => absurd past (Nat.not_lt_zero _), fun n => ?_⟩
      rw [same, if_neg fun covered => covered.2]

/-! ## Runs -/

/-- The last call that covers a block decides; without one the bit stays. -/
theorem run_bits (h : s.Inv c) {calls : List Call} (whole : ∀ call ∈ calls, call.stop < 2 ^ 32) :
    ∃ s', Runs.run step s calls = .ok (calls.map (Call.reply c), s') ∧ s'.Inv c ∧
      ∀ n, getBit s'.disk.bitmap n =
        ((calls.filter fun call => decide (call.Covers c n)).getLast?.map Call.isAllocation).getD
          (getBit s.disk.bitmap n) := by
  induction calls generalizing s with
  | nil => exact ⟨s, rfl, h, fun _ => rfl⟩
  | cons call calls ih =>
      obtain ⟨first, others⟩ := List.forall_mem_cons.mp whole
      obtain ⟨s1, hstep, h1, -, bits1⟩ := step_ok h first
      obtain ⟨s2, hrun, h2, bits2⟩ := ih h1 others
      refine ⟨s2, Runs.run_cons hstep hrun, h2, fun n => ?_⟩
      rw [bits2, bits1, List.filter_cons]
      by_cases covered : call.Covers c n
      · rw [if_pos covered, if_pos (decide_eq_true covered), List.getLast?_cons]
        cases (calls.filter fun call => decide (call.Covers c n)).getLast? <;> rfl
      · rw [if_neg covered, if_neg (by simpa using covered)]

/-- After any history of calls with ranges that do not wrap, the bitmap is the set that
the history describes, and the next call changes it inside its range only. -/
theorem bitmap_faithful (m : Machine) (c : DiskConfig) (datafile : ByteFile) (calls : List Call)
    (whole : ∀ call ∈ calls, call.stop < 2 ^ 32) :
    ∃ s0 s, create m c datafile = .ok (.noError, s0) ∧
      Runs.run step s0 calls = .ok (calls.map (Call.reply c), s) ∧
      (∀ n : SizeT, n < c.numblocks →
        ∃ bit, s.disk.isBlockAllocated n = .ok bit ∧ (bit = true ↔ LastAllocates c calls n.toNat)) ∧
      ∀ call : Call, call.stop < 2 ^ 32 → ∃ s', s.step call = .ok (call.reply c, s') ∧
        (c.numblocks.toNat < call.stop → s' = s) ∧
        ∀ n, ¬ call.InRange n → getBit s'.disk.bitmap n = getBit s.disk.bitmap n := by
  obtain ⟨s0, hcreate, init, clear⟩ := create_ok m c datafile
  obtain ⟨s, hrun, inv, bits⟩ := run_bits init whole
  refine ⟨s0, s, hcreate, hrun, fun n hn => ⟨_, DiskSystem.isBlockAllocated_ok (inv.config ▸ hn), ?_⟩,
    fun call short => ?_⟩
  · rw [bits, clear, LastAllocates]
    cases (calls.filter fun call => decide (call.Covers c n.toNat)).getLast? <;> simp
  · obtain ⟨s', hstep, -, refused, bits'⟩ := step_ok inv short
    refine ⟨s', hstep, refused, fun n outside => ?_⟩
    rw [bits', if_neg fun covered => outside covered.2]

theorem bitmap_faithful_small :
    ∃ s0 s, create .small DiskSystem.smallConfig ByteFile.empty = .ok (.noError, s0) ∧
      Runs.run step s0 [.allocate 3 10, .reopen fun _ => 0, .deallocate 5 2, .allocate 60 10] =
        .ok ([.noError, .noError, .noError, .noSuchBlock], s) ∧
      s.disk.isBlockAllocated 4 = .ok true ∧ s.disk.isBlockAllocated 6 = .ok false ∧
      s.disk.isBlockAllocated 62 = .ok false := by
  obtain ⟨s0, s, hcreate, hrun, set, -⟩ := bitmap_faithful .small DiskSystem.smallConfig ByteFile.empty
    [.allocate 3 10, .reopen fun _ => 0, .deallocate 5 2, .allocate 60 10]
    (by simp [Call.stop])
  refine ⟨s0, s, hcreate, hrun, ?_, ?_, ?_⟩
  · obtain ⟨bit, asked, allocated⟩ := set 4 (by decide)
    rw [asked, allocated.mpr ⟨.allocate 3 10, rfl, rfl⟩]
  · obtain ⟨bit, asked, allocated⟩ := set 6 (by decide)
    rw [asked, Bool.eq_false_iff.mpr (mt allocated.mp ?_)]
    rintro ⟨call, last, allocates⟩
    cases last
    cases allocates
  · obtain ⟨bit, asked, allocated⟩ := set 62 (by decide)
    rw [asked, Bool.eq_false_iff.mpr (mt allocated.mp ?_)]
    rintro ⟨call, last, -⟩
    cases last

end BitmapDisk
end BTreeLab
