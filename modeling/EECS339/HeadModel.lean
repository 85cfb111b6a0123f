import EECS339.RangeChecks

/-!
# The arithmetic of the head model

`ModelAccess` numbers sectors over all heads of a track position and corrects a
negative wait by the blocks of one head only. What that does depends on where the
head was left by the request before.
-/
namespace BTreeLab.DiskSystem

/-- A 32-bit difference, and a 32-bit sum, that is the one of the integers. -/
def SubExact (a b : SizeT) : Prop := b.toNat ≤ a.toNat

def AddExact (a b : SizeT) : Prop := a.toNat + b.toNat < 2 ^ 32

/-- What an access should compute without surprises: its divisors, its sums and
differences in the order of the code, the wait, and the position it leaves. -/
structure HeadSafe (d : DiskSystem) (offblock numblock : SizeT) : Prop where
  divisors : d.sectors ≠ 0 ∧ d.numtracks ≠ 0 ∧ d.blockspertrack ≠ 0
  sum : AddExact offblock numblock
  last : SubExact (offblock + numblock) 1
  rotation : if d.lastSector ≤ offblock % d.sectors then SubExact (offblock % d.sectors) d.lastSector
    else SubExact d.lastSector (offblock % d.sectors) ∧
      SubExact d.blockspertrack (d.lastSector - offblock % d.sectors)
  hops : SubExact ((offblock + numblock - 1) / d.sectors) (offblock / d.sectors)
  wait : d.sectorhop offblock < d.blockspertrack
  position : ∀ t d', d.modelAccess offblock numblock = .ok (t, d') →
    d'.lastTrack < d.numtracks ∧ d'.lastSector < d.sectors

/-- The range does not wrap, is not empty at the start of a track, and starts less than
one head's blocks ahead of the head or at most that many behind it. -/
structure InReach (d : DiskSystem) (offblock numblock : SizeT) : Prop where
  whole : offblock.toNat + numblock.toNat < 2 ^ 32
  nonempty : numblock ≠ 0 ∨ offblock % d.sectors ≠ 0
  ahead : (offblock % d.sectors).toNat < d.lastSector.toNat + d.blockspertrack.toNat
  behind : d.lastSector.toNat ≤ (offblock % d.sectors).toNat + d.blockspertrack.toNat

variable {d : DiskSystem} {s k : SizeT}

theorem modelAccess_position {t : ℚ} {d' : DiskSystem} (access : d.modelAccess s k = .ok (t, d')) :
    d'.lastTrack = (s + k - 1) / d.sectors ∧ d'.lastSector = (s + k - 1) % d.sectors := by
  by_cases spins : d.sectors = 0
  · simp only [modelAccess, if_pos spins, reduceCtorEq] at access
  · simp only [modelAccess, if_neg spins, Except.ok.injEq, Prod.mk.injEq] at access
    rw [← access.2]
    exact ⟨rfl, rfl⟩

/-- An accepted disk with blocks has sectors, tracks and blocks on a track. -/
theorem accepted_divisors (accepted : sanityCheckConfig d.toDiskConfig = .noError)
    (pos : 0 < d.numblocks) : d.sectors ≠ 0 ∧ d.numtracks ≠ 0 ∧ d.blockspertrack ≠ 0 := by
  have geometry : d.numblocks = d.sectors * d.numtracks := (sanityCheckConfig_ok.mp accepted).2
  refine ⟨?_, ?_, ?_⟩
  · exact accepted_spins accepted pos
  · intro zero
    rw [geometry, zero, mul_zero] at pos
    exact lt_irrefl _ pos
  · intro zero
    rw [geometry, sectors, zero, mul_zero, zero_mul] at pos
    exact lt_irrefl _ pos

/-- The last block of a range that is not empty lies on one of the tracks. -/
theorem track_lt (accepted : sanityCheckConfig d.toDiskConfig = .noError) {n : SizeT}
    (hn : n < d.numblocks) : n / d.sectors < d.numtracks := by
  have geometry : d.numblocks = d.sectors * d.numtracks := (sanityCheckConfig_ok.mp accepted).2
  have product : d.numblocks.toNat ≤ d.sectors.toNat * d.numtracks.toNat := by
    rw [geometry, BitVec.toNat_mul]
    exact Nat.mod_le _ _
  rw [BitVec.lt_def, BitVec.toNat_udiv]
  exact Nat.div_lt_of_lt_mul (lt_of_lt_of_le (BitVec.lt_def.mp hn) product)

theorem sector_lt (spins : d.sectors ≠ 0) (n : SizeT) : n % d.sectors < d.sectors := by
  rw [BitVec.lt_def, BitVec.toNat_umod]
  refine Nat.mod_lt _ (Nat.pos_of_ne_zero fun zero => spins (BitVec.eq_of_toNat_eq zero))

/-- A request in reach ends with a block of the disk. -/
theorem InReach.last (reach : d.InReach s k) (admitted : ¬ s + k > d.numblocks) :
    SubExact (s + k) 1 ∧ s + k - 1 < d.numblocks := by
  have sum : (s + k).toNat = s.toNat + k.toNat := by
    rw [BitVec.toNat_add, Nat.mod_eq_of_lt reach.whole]
  have pos : 1 ≤ s.toNat + k.toNat := by
    by_contra zero
    have hs : s = 0 := BitVec.eq_of_toNat_eq (by simp; omega)
    have hk : k = 0 := BitVec.eq_of_toNat_eq (by simp; omega)
    subst hs hk
    rcases reach.nonempty with absurd | absurd
    · exact absurd rfl
    · exact absurd (BitVec.eq_of_toNat_eq (by rw [BitVec.toNat_umod]; exact Nat.zero_mod _))
  rw [gt_iff_lt, BitVec.lt_def, sum] at admitted
  refine ⟨by rw [SubExact, sum]; exact pos, ?_⟩
  rw [BitVec.lt_def, BitVec.toNat_sub_of_le (by rw [BitVec.le_def, sum]; exact pos), sum, one_toNat]
  omega

theorem div_pred_iff {a b S : Nat} (pos : 0 < S) (one : 1 ≤ a + b) :
    a / S ≤ (a + b - 1) / S ↔ b ≠ 0 ∨ a % S ≠ 0 := by
  have split := Nat.div_add_mod a S
  rw [Nat.le_div_iff_mul_le pos, Nat.mul_comm]
  omega

/-- The first track is not behind the last one unless the range is empty and starts a
track. -/
theorem hops_iff (spins : d.sectors ≠ 0) (whole : s.toNat + k.toNat < 2 ^ 32)
    (last : SubExact (s + k) 1) :
    SubExact ((s + k - 1) / d.sectors) (s / d.sectors) ↔ k ≠ 0 ∨ s % d.sectors ≠ 0 := by
  have sum : (s + k).toNat = s.toNat + k.toNat := by
    rw [BitVec.toNat_add, Nat.mod_eq_of_lt whole]
  have nonzero (w : SizeT) : w ≠ 0 ↔ w.toNat ≠ 0 :=
    not_congr ⟨fun e => by rw [e]; rfl, fun e => BitVec.eq_of_toNat_eq e⟩
  rw [SubExact, sum, one_toNat] at last
  have stop : (s + k - 1).toNat = s.toNat + k.toNat - 1 := by
    rw [BitVec.toNat_sub_of_le (by rw [BitVec.le_def, sum]; exact last), sum, one_toNat]
  rw [SubExact, BitVec.toNat_udiv, BitVec.toNat_udiv, stop, nonzero, nonzero, BitVec.toNat_umod]
  exact div_pred_iff (Nat.pos_of_ne_zero ((nonzero _).mp spins)) last

/-- The wait is below a rotation, and its differences do not wrap, exactly for sectors
near enough to the head. -/
theorem rotation_iff : ((if d.lastSector ≤ s % d.sectors then SubExact (s % d.sectors) d.lastSector
      else SubExact d.lastSector (s % d.sectors) ∧
        SubExact d.blockspertrack (d.lastSector - s % d.sectors)) ∧
      d.sectorhop s < d.blockspertrack) ↔
    (s % d.sectors).toNat < d.lastSector.toNat + d.blockspertrack.toNat ∧
      d.lastSector.toNat ≤ (s % d.sectors).toNat + d.blockspertrack.toNat := by
  simp only [SubExact, sectorhop]
  by_cases ahead : d.lastSector ≤ s % d.sectors
  · rw [if_pos ahead, if_pos ahead, BitVec.lt_def, BitVec.toNat_sub_of_le ahead]
    rw [BitVec.le_def] at ahead
    omega
  · have behind := BitVec.le_of_lt (not_le.mp ahead)
    have hop := BitVec.toNat_sub_of_le behind
    rw [if_neg ahead, if_neg ahead, hop]
    rw [BitVec.le_def] at ahead behind
    constructor
    · rintro ⟨⟨-, fits⟩, -⟩
      omega
    · rintro ⟨-, near⟩
      have fits : d.lastSector - s % d.sectors ≤ d.blockspertrack := by
        rw [BitVec.le_def, hop]
        omega
      refine ⟨⟨behind, by omega⟩, ?_⟩
      rw [BitVec.lt_def, BitVec.toNat_sub_of_le fits, hop]
      omega

/-- On an accepted disk an admitted access is safe exactly if it is in reach. -/
theorem headSafe_iff (accepted : sanityCheckConfig d.toDiskConfig = .noError)
    (admitted : ¬ s + k > d.numblocks) : d.HeadSafe s k ↔ d.InReach s k := by
  constructor
  · intro safe
    obtain ⟨ahead, behind⟩ := rotation_iff.mp ⟨safe.rotation, safe.wait⟩
    exact ⟨safe.sum, (hops_iff safe.divisors.1 safe.sum safe.last).mp safe.hops, ahead, behind⟩
  · intro reach
    obtain ⟨last, hn⟩ := reach.last admitted
    have divisors := accepted_divisors accepted (numblocks_pos hn)
    obtain ⟨rotation, wait⟩ := rotation_iff.mpr ⟨reach.ahead, reach.behind⟩
    refine ⟨divisors, reach.whole, last, rotation, ?_, wait, ?_⟩
    · exact (hops_iff divisors.1 reach.whole last).mpr reach.nonempty
    · intro t d' access
      obtain ⟨track, sector⟩ := modelAccess_position access
      rw [track, sector]
      exact ⟨track_lt accepted hn, sector_lt divisors.1 _⟩

/-! ## Runs -/

namespace RangeCall

/-- A read or a write that the range check lets pass. -/
def Admitted (c : DiskConfig) : RangeCall → Prop
  | .read s k | .write s k _ => ¬ s + k > c.numblocks
  | _ => False

instance (c : DiskConfig) : DecidablePred (Admitted c)
  | .read _ _ | .write _ _ _ => inferInstanceAs (Decidable (¬ _))
  | .notifyAllocate _ _ | .notifyDeallocate _ _ => inferInstanceAs (Decidable False)

end RangeCall

/-- An admitted access leaves the configuration and moves the head to its last block. -/
theorem perform_moves {op : RangeCall} (admitted : op.Admitted d.toDiskConfig) {rc : ErrorT}
    {d' : DiskSystem} (ran : d.perform op = .ok (rc, d')) :
    d'.toDiskConfig = d.toDiskConfig ∧ d'.lastTrack = (op.start + op.count - 1) / d.sectors ∧
      d'.lastSector = (op.start + op.count - 1) % d.sectors := by
  have moved (t : ℚ) (d1 : DiskSystem) (f : ByteFile) (access : d.modelAccess op.start op.count =
      .ok (t, d1)) (file : d' = { d1 with datafile := f }) :
      d'.toDiskConfig = d.toDiskConfig ∧ d'.lastTrack = (op.start + op.count - 1) / d.sectors ∧
        d'.lastSector = (op.start + op.count - 1) % d.sectors := by
    obtain ⟨track, sector⟩ := modelAccess_position access
    rw [file]
    exact ⟨(modelAccess_keeps access).1.config, track, sector⟩
  cases op with
  | read s k =>
      obtain ⟨⟨rc1, bs, t, d2⟩, hread, same⟩ := Runs.map_eq_ok ran
      cases same
      rcases read_inv hread with ⟨past, -⟩ | ⟨-, -, d1, f, access, -, file⟩
      · exact absurd past admitted
      · exact moved t d1 f access file
  | write s k bs =>
      obtain ⟨⟨rc1, t, d2⟩, hwrite, same⟩ := Runs.map_eq_ok ran
      cases same
      rcases write_inv hwrite with ⟨past, -⟩ | ⟨-, -, d1, f, access, -, file⟩
      · exact absurd past admitted
      · exact moved t d1 f access file
  | notifyAllocate s k => exact absurd admitted id
  | notifyDeallocate s k => exact absurd admitted id

theorem not_past {op : RangeCall} (admitted : op.Admitted d.toDiskConfig) :
    ¬ op.start + op.count > d.numblocks := by
  cases op with
  | read s k => exact admitted
  | write s k bs => exact admitted
  | notifyAllocate s k => exact absurd admitted id
  | notifyDeallocate s k => exact absurd admitted id

/-- In a run of admitted reads and writes from rest, every access is safe exactly if
every access is in reach of where the one before left the head. -/
theorem runs_headSafe_iff (m : Machine) (c : DiskConfig) (accepted : sanityCheckConfig c = .noError)
    (file : ByteFile) (ops : List RangeCall) (admitted : ∀ op ∈ ops, op.Admitted c) :
    Runs.Along perform (fun d op => d.HeadSafe op.start op.count) (make m c file) ops ↔
      Runs.Along perform (fun d op => d.InReach op.start op.count) (make m c file) ops := by
  refine Runs.along_iff (L := RangeCall.Admitted c) (I := fun d => d.toDiskConfig = c) ?_ ?_ rfl admitted
  · rintro d op rc d' rfl ok - ran
    exact (perform_moves ok ran).1
  · rintro d op rfl ok
    exact headSafe_iff accepted (not_past ok)

/-- With one head every range that does not wrap, and is not empty at the start of a
track, is in reach. -/
theorem one_head_inReach (m : Machine) (c : DiskConfig) (accepted : sanityCheckConfig c = .noError)
    (one : c.numheads = 1) (pos : 0 < c.numblocks) (file : ByteFile) (ops : List RangeCall)
    (ok : ∀ op ∈ ops, op.Admitted c ∧ op.stop < 2 ^ 32 ∧
      (op.count ≠ 0 ∨ op.start % c.blockspertrack ≠ 0)) :
    Runs.Along perform (fun d op => d.InReach op.start op.count) (make m c file) ops := by
  have track (d : DiskSystem) (h : d.toDiskConfig = c) : d.sectors = d.blockspertrack := by
    rw [sectors, h, one, one_mul]
  have spins (d : DiskSystem) (h : d.toDiskConfig = c) : d.sectors ≠ 0 :=
    (accepted_divisors (by rw [h]; exact accepted) (by rw [h]; exact pos)).1
  refine Runs.along_of_invariant (I := fun d => d.toDiskConfig = c ∧ d.lastSector < d.sectors)
    (L := fun op => op.Admitted c ∧ op.stop < 2 ^ 32 ∧
      (op.count ≠ 0 ∨ op.start % c.blockspertrack ≠ 0)) ?_ ?_ ⟨rfl, ?_⟩ ok
  · rintro d op rc d' ⟨rfl, -⟩ ⟨admitted, -⟩ ran
    obtain ⟨config, -, sector⟩ := perform_moves admitted ran
    have same : d'.sectors = d.sectors := by rw [sectors, config, sectors]
    refine ⟨config, ?_⟩
    rw [sector, same]
    exact sector_lt (spins d rfl) _
  · rintro d op ⟨rfl, head⟩ ⟨-, whole, nonempty⟩
    have start := sector_lt (spins d rfl) op.start
    have same := track d rfl
    rw [BitVec.lt_def] at head start
    rw [← same] at nonempty
    refine ⟨whole, nonempty, ?_, ?_⟩ <;> rw [← same] <;> omega
  · have zero : (make m c file).lastSector = 0 := rfl
    rw [zero, BitVec.lt_def]
    exact Nat.pos_of_ne_zero fun none => spins (make m c file) rfl (BitVec.eq_of_toNat_eq none)

theorem runs_headSafe_iff_small :
    Runs.Along perform (fun d op => d.HeadSafe op.start op.count) (make .small smallConfig ByteFile.empty)
      [.read 5 3, .read 63 1, .read 17 0, .read 0 64] := by
  refine (runs_headSafe_iff .small smallConfig smallConfig_accepted ByteFile.empty
    [.read 5 3, .read 63 1, .read 17 0, .read 0 64] (by decide)).mpr
    (one_head_inReach .small smallConfig smallConfig_accepted rfl (by decide) ByteFile.empty _ ?_)
  decide

def twoHeads : DiskConfig := ⟨0, 64, 1024, 2, 16, 2, 100, 10, 28 / 100⟩

/-- The wait for the last sector of the first track position is 31 sixteenths of a
rotation; the next request, for block 0, makes the difference wrap. -/
theorem second_head_waits_too_long : sanityCheckConfig twoHeads = .noError ∧
    ¬ Runs.Along perform (fun d op => d.HeadSafe op.start op.count) (make .small twoHeads ByteFile.empty)
      [.read 31 1] := by
  refine ⟨by norm_num [sanityCheckConfig, twoHeads], ?_⟩
  rintro ⟨safe, -⟩
  exact absurd safe.wait (by decide)

end BTreeLab.DiskSystem
