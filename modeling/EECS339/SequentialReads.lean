import EECS339.CacheCapacity
import EECS339.HeadModel

/-!
# Reading a range through the cache

A range can be read in one call of the disk or block by block through a cache. Both give the
same blocks and leave the head in the same place; what the second way costs more is one sector
of waiting for each further block, and seeks of its own between the tracks. The times are
compared without rounding.
-/
namespace BTreeLab
namespace DiskSystem

/-- The time for a seek over `hop` tracks. -/
def seekTime (c : DiskConfig) (hop : Nat) : ℚ :=
  min (hop * c.trackseeklatency) ((hop : ℚ) / c.numtracks.toNat / (1 / 2) * c.averageseeklatency)

/-- The time for one sector to pass. -/
def sectorTime (c : DiskConfig) : ℚ := c.rotationallatency / c.blockspertrack.toNat

/-- Seek and wait, before the transfer. -/
def startTime (d : DiskSystem) (n : SizeT) : ℚ :=
  seekTime d.toDiskConfig ((n / d.sectors).toNat - (d.lastTrack.toNat : Int)).natAbs +
    (d.sectorhop n).toNat * sectorTime d.toDiskConfig

/-- The head stands on a block. -/
structure OnBlock (d : DiskSystem) (m : Nat) : Prop where
  track : d.lastTrack.toNat = m / d.sectors.toNat
  sector : d.lastSector.toNat = m % d.sectors.toNat

variable {d d' : DiskSystem} {n k : SizeT} {m count : Nat}

theorem modelAccess_time (exact : d.machine.Exact) (spins : d.sectors ≠ 0) : d.modelAccess n k = .ok
    (d.startTime n + ((n + k - 1) / d.sectors - n / d.sectors).toNat * d.trackseeklatency +
        k.toNat * sectorTime d.toDiskConfig,
      { d with lastTrack := (n + k - 1) / d.sectors, lastSector := (n + k - 1) % d.sectors }) := by
  have pass (x : ℚ) : d.rotationallatency * (x / d.blockspertrack.toNat) = x * sectorTime d.toDiskConfig := by
    rw [sectorTime]
    ring
  simp only [modelAccess, if_neg spins, exact.add, exact.mul, exact.div, pass, startTime, seekTime,
    min_def_lt]

/-- A read of a range on the disk, with its time and the head behind it. -/
theorem read_time (h : d.Sound) (exact : d.machine.Exact)
    (range : n.toNat + k.toNat ≤ d.numblocks.toNat) (some : k ≠ 0) :
    ∃ d', d.read n k = .ok (.noError, (blocksFrom d.blocks n k.toNat).map Block.ofBytes,
        d.startTime n + ((n.toNat + k.toNat - 1) / d.sectors.toNat - n.toNat / d.sectors.toNat : Nat) *
          d.trackseeklatency + k.toNat * sectorTime d.toDiskConfig, d') ∧
      d.Keeps d' ∧ d'.blocks = d.blocks ∧ d'.OnBlock (n.toNat + k.toNat - 1) := by
  have pos : 0 < k.toNat := Nat.pos_of_ne_zero fun zero => some (BitVec.eq_of_toNat_eq zero)
  have few := d.numblocks.isLt
  have spins : d.sectors ≠ 0 := h.sectors_ne_zero (BitVec.lt_def.mpr (by
    change 0 < d.numblocks.toNat
    omega))
  obtain ⟨t, d', ran, keeps, same⟩ := read_ok h spins range
  have last : (n + k - 1).toNat = n.toNat + k.toNat - 1 := by
    have sum : (n + k).toNat = n.toNat + k.toNat := by
      rw [BitVec.toNat_add, Nat.mod_eq_of_lt (by omega)]
    rw [BitVec.toNat_sub_of_le (by rw [BitVec.le_def, sum, one_toNat]; omega), sum, one_toNat]
  rcases read_inv ran with ⟨past, -⟩ | ⟨-, -, d1, f, access, -, file⟩
  · exact absurd past (range_check range)
  · rw [modelAccess_time exact spins, Except.ok.injEq, Prod.mk.injEq] at access
    obtain ⟨time, rfl⟩ := access
    refine ⟨d', ?_, keeps, same, ?_⟩
    · have hops : ((n + k - 1) / d.sectors - n / d.sectors).toNat =
          (n.toNat + k.toNat - 1) / d.sectors.toNat - n.toNat / d.sectors.toNat := by
        have le : n / d.sectors ≤ (n + k - 1) / d.sectors := by
          rw [BitVec.le_def, BitVec.toNat_udiv, BitVec.toNat_udiv, last]
          exact Nat.div_le_div_right (by omega)
        rw [BitVec.toNat_sub_of_le le, BitVec.toNat_udiv, BitVec.toNat_udiv, last]
      rw [ran, ← time, hops]
    · rw [file]
      refine ⟨?_, ?_⟩
      · change ((n + k - 1) / d.sectors).toNat = _
        rw [BitVec.toNat_udiv, last]
        rfl
      · change ((n + k - 1) % d.sectors).toNat = _
        rw [BitVec.toNat_umod, last]
        rfl

theorem readOne_time (h : d.Sound) (exact : d.machine.Exact) (inside : n < d.numblocks) :
    ∃ d', d.readOne n = .ok (.noError, some (Block.ofBytes (d.blocks n)),
        d.startTime n + sectorTime d.toDiskConfig, d') ∧
      d.Keeps d' ∧ d'.blocks = d.blocks ∧ d'.OnBlock n.toNat := by
  obtain ⟨d', ran, keeps, same, head⟩ := read_time h exact (n := n) (k := 1)
    (by rw [one_toNat]; exact BitVec.lt_def.mp inside) (by decide)
  rw [one_toNat, Nat.add_sub_cancel] at head
  refine ⟨d', ?_, keeps, same, head⟩
  rw [readOne, ran]
  simp only [one_toNat, Nat.add_sub_cancel, Nat.sub_self, Nat.cast_zero, zero_mul, add_zero,
    Nat.cast_one, one_mul,
    blocksFrom, List.map_cons, List.map_nil, List.getElem?_cons_zero, if_true]

/-! ## The next block -/

theorem Keeps.sectors (keeps : d.Keeps d') : d'.sectors = d.sectors := by
  rw [DiskSystem.sectors, keeps.config, DiskSystem.sectors]

theorem next_toNat (inside : n < d.numblocks) : (n + 1).toNat = n.toNat + 1 := by
  have few := d.numblocks.isLt
  have less := BitVec.lt_def.mp inside
  rw [BitVec.toNat_add, one_toNat, Nat.mod_eq_of_lt (by omega)]

/-- Behind a sector comes the next one of its track or the first one of the next track. -/
theorem next_sector {S : Nat} (wide : 2 ≤ S) (m : Nat) :
    ((m + 1) % S = m % S + 1 ∧ (m + 1) / S = m / S) ∨
      (m % S + 1 = S ∧ (m + 1) % S = 0 ∧ (m + 1) / S = m / S + 1) := by
  have pos : 0 < S := Nat.zero_lt_of_lt wide
  have below := Nat.mod_lt m pos
  have parts := Nat.div_add_mod m S
  have parts' := Nat.div_add_mod (m + 1) S
  have modulo : (m + 1) % S = (m % S + 1) % S := by
    rw [Nat.add_mod, Nat.mod_eq_of_lt (show 1 < S from wide)]
  rcases Nat.lt_or_ge (m % S + 1) S with inside | outside
  · rw [Nat.mod_eq_of_lt inside] at modulo
    exact Or.inl ⟨modulo, Nat.eq_of_mul_eq_mul_left pos (by omega)⟩
  · have last : m % S + 1 = S := by omega
    rw [last, Nat.mod_self] at modulo
    refine Or.inr ⟨last, modulo, Nat.eq_of_mul_eq_mul_left pos ?_⟩
    rw [Nat.mul_add, Nat.mul_one]
    omega

theorem seekTime_zero (c : DiskConfig) : seekTime c 0 = 0 := by
  simp only [seekTime, Nat.cast_zero, zero_mul, zero_div, min_self]

theorem startTime_next (one : d.numheads = 1) (wide : 2 ≤ d.blockspertrack.toNat) (head : d.OnBlock m)
    (next : n.toNat = m + 1) : d.startTime n =
      ((m + 1) / d.sectors.toNat - m / d.sectors.toNat : Nat) * seekTime d.toDiskConfig 1 +
        sectorTime d.toDiskConfig := by
  have same : d.sectors = d.blockspertrack := by rw [sectors, one, one_mul]
  have track : (n / d.sectors).toNat = (m + 1) / d.sectors.toNat := by rw [BitVec.toNat_udiv, next]
  have sector : (n % d.sectors).toNat = (m + 1) % d.sectors.toNat := by rw [BitVec.toNat_umod, next]
  rw [← same] at wide
  rw [startTime, track, head.track]
  rcases next_sector wide m with ⟨modulo, div⟩ | ⟨last, modulo, div⟩
  · have hop : (d.sectorhop n).toNat = 1 := by
      have le : d.lastSector ≤ n % d.sectors := by
        rw [BitVec.le_def, sector, head.sector, modulo]
        exact Nat.le_succ _
      rw [sectorhop, if_pos le, BitVec.toNat_sub_of_le le, sector, head.sector, modulo,
        Nat.add_sub_cancel_left]
    rw [hop, div, sub_self, Int.natAbs_zero, seekTime_zero, Nat.sub_self, Nat.cast_zero, zero_mul,
      Nat.cast_one,
      one_mul]
  · have hop : (d.sectorhop n).toNat = 1 := by
      have behind : ¬ d.lastSector ≤ n % d.sectors := by
        rw [BitVec.le_def, sector, head.sector, modulo]
        omega
      have less := BitVec.le_of_lt (not_le.mp behind)
      have difference : (d.lastSector - n % d.sectors).toNat = m % d.sectors.toNat := by
        rw [BitVec.toNat_sub_of_le less, sector, head.sector, modulo, Nat.sub_zero]
      have fits : d.lastSector - n % d.sectors ≤ d.blockspertrack := by
        rw [BitVec.le_def, difference, ← same]
        omega
      rw [sectorhop, if_neg behind, BitVec.toNat_sub_of_le fits, difference, ← same]
      omega
    have tracks :
        (((m / d.sectors.toNat + 1 : Nat) : Int) - (m / d.sectors.toNat : Nat)).natAbs = 1 := by omega
    rw [hop, div, tracks, Nat.add_sub_cancel_left, Nat.cast_one, one_mul, one_mul]

end DiskSystem

namespace BufferCache
open DiskSystem (OnBlock blocksFrom seekTime sectorTime)

def readRange (n : SizeT) : Nat → List Request
  | 0 => []
  | count + 1 => .read n :: readRange (n + 1) count

/-- The replies of reads that succeed. -/
def delivered (blocks : List (List ByteT)) : List Reply := blocks.map fun bytes => (.noError, some bytes)

/-- All cached blocks are clean and come before the block. -/
def Below (c : BufferCache) (n : SizeT) : Prop :=
  ∀ (m : SizeT) (b : Block), c.blockmap[m]? = some b → b.dirty = false ∧ m.toNat < n.toNat

variable {c c' : BufferCache} {n k : SizeT} {m count : Nat}

/-- The eviction of a clean block takes no time. -/
theorem Below.evict (h : c.Below n) :
    ∃ map, c.checkDeleteOldest = .ok (.noError, { c with blockmap := map }) ∧
    ({ c with blockmap := map } : BufferCache).Below n := by
  rw [checkDeleteOldest]
  split_ifs with room
  · exact ⟨c.blockmap, rfl, h⟩
  · cases found : findOldest (c.disk.machine.add c.curtime 1) c.blockmap.toList with
    | none => exact ⟨c.blockmap, rfl, h⟩
    | some e =>
        have entry := Std.TreeMap.mem_toList_iff_getElem?_eq_some.mp (findOldest_mem found)
        refine ⟨c.blockmap.erase e.1, ?_, fun m b left => ?_⟩
        · simp only [removeBlock, (h _ _ entry).1, Bool.false_eq_true, if_false]
        · change (c.blockmap.erase e.1)[m]? = some b at left
          rw [entry_erase] at left
          split_ifs at left
          exact h m b left

/-- The block is not there, so the disk is asked. -/
theorem Below.read (h : c.Below n) (sound : c.disk.Sound) (exact : c.disk.machine.Exact)
    (inside : n < c.disk.numblocks) :
    ∃ c', c.serve (.read n) = .ok ((.noError, some (c.disk.blocks n)), c') ∧ c.disk.Keeps c'.disk ∧
      c'.disk.blocks = c.disk.blocks ∧ c'.disk.OnBlock n.toNat ∧
      c'.curtime = c.curtime + (c.disk.startTime n + sectorTime c.disk.toDiskConfig) ∧
      ((n + 1).toNat = n.toNat + 1 → c'.Below (n + 1)) := by
  have miss : c.blockmap[n]? = none := by
    cases entry : c.blockmap[n]? with
    | none => rfl
    | some b => exact absurd (h n b entry).2 (lt_irrefl _)
  obtain ⟨map, evict, below⟩ := h.evict
  obtain ⟨d', ran, keeps, same, head⟩ := c.disk.readOne_time sound exact inside
  simp only [serve, readBlock, isBlockAllocated, miss, evict, DiskSystem.isBlockAllocated_ok inside, ran,
    keeps.machine, exact.add]
  refine ⟨_, rfl, keeps, same, head, rfl, fun next m b entry => ?_⟩
  rw [entry_insert] at entry
  split_ifs at entry with here
  · cases entry
    exact ⟨rfl, by rw [here, next]; exact Nat.lt_succ_self _⟩
  · obtain ⟨clean, before⟩ := below m b entry
    exact ⟨clean, by rw [next]; exact Nat.lt_succ_of_lt before⟩

/-- From a block on, each further one is waited for and transferred. -/
theorem Below.run (h : c.Below n) (sound : c.disk.Sound) (exact : c.disk.machine.Exact)
    (one : c.disk.numheads = 1) (wide : 2 ≤ c.disk.blockspertrack.toNat) (head : c.disk.OnBlock m)
    (next : n.toNat = m + 1)
    (range : n.toNat + count ≤ c.disk.numblocks.toNat) :
    ∃ c', Runs.run serve c (readRange n count) = .ok (delivered (blocksFrom c.disk.blocks n count), c') ∧
      c.disk.Keeps c'.disk ∧ c'.disk.blocks = c.disk.blocks ∧ c'.disk.OnBlock (m + count) ∧
      c'.curtime = c.curtime +
        (((m + count) / c.disk.sectors.toNat - m / c.disk.sectors.toNat : Nat) *
            seekTime c.disk.toDiskConfig 1 +
          count * (2 * sectorTime c.disk.toDiskConfig)) := by
  induction count generalizing c n m with
  | zero =>
      refine ⟨c, rfl, .refl c.disk, rfl, head, ?_⟩
      rw [Nat.add_zero, Nat.sub_self, Nat.cast_zero, zero_mul, zero_mul, add_zero, add_zero]
  | succ count ih =>
      obtain ⟨inside, rest⟩ := DiskSystem.lt_numblocks range
      obtain ⟨c1, served, keeps, same, head1, time, below⟩ := h.read sound exact inside
      have next1 := DiskSystem.next_toNat inside
      have sectors1 : c1.disk.sectors = c.disk.sectors := keeps.sectors
      obtain ⟨c', ran, keeps', same', head', time'⟩ := ih (below next1) (sound.keeps keeps)
        (by rw [keeps.machine]; exact exact) (by rw [keeps.config]; exact one)
          (by rw [keeps.config]; exact wide) head1 next1
        (by rw [keeps.config]; exact rest)
      rw [same] at ran
      have place : n.toNat + count = m + (count + 1) := by omega
      have before : m / c.disk.sectors.toNat ≤ (m + 1) / c.disk.sectors.toNat :=
        Nat.div_le_div_right (Nat.le_succ m)
      have behind : (m + 1) / c.disk.sectors.toNat ≤ (m + (count + 1)) / c.disk.sectors.toNat :=
        Nat.div_le_div_right (by omega)
      refine ⟨c', Runs.run_cons served ran, keeps.trans keeps', same'.trans same, place ▸ head', ?_⟩
      rw [time', time, sectors1, keeps.config, DiskSystem.startTime_next one wide head next, place, next,
        Nat.cast_sub before, Nat.cast_sub behind, Nat.cast_sub (before.trans behind)]
      push_cast
      ring

theorem below_make (d : DiskSystem) (cachesize n : SizeT) : (make d cachesize).Below n := by
  intro m b entry
  simp [make] at entry

/-- On a disk with one head, the reads of a range through a new cache of any size deliver the
blocks of one call and leave the head where it does. Each further block costs one sector of
waiting more; a change of the track costs a seek of its own and not the latency from track to
track. -/
theorem sequential_reads (d : DiskSystem) (exact : d.machine.Exact)
    (geometry : sanityCheckConfig d.toDiskConfig = .noError) (fits : d.Fits) (one : d.numheads = 1)
    (wide : 2 ≤ d.blockspertrack.toNat) (cachesize n k : SizeT) (some : k ≠ 0)
    (range : n.toNat + k.toNat ≤ d.numblocks.toNat) :
    ∃ bs t d' c, d.read n k = .ok (.noError, bs, t, d') ∧
      Runs.run serve (make d cachesize) (readRange n k.toNat) = .ok (delivered (bs.map Block.data), c) ∧
      d'.blocks = d.blocks ∧ c.disk.blocks = d.blocks ∧
      c.disk.lastTrack = d'.lastTrack ∧ c.disk.lastSector = d'.lastSector ∧
      c.curtime = t + (k.toNat - 1 : Nat) * sectorTime d.toDiskConfig +
        ((n.toNat + k.toNat - 1) / d.sectors.toNat - n.toNat / d.sectors.toNat : Nat) *
          (seekTime d.toDiskConfig 1 - d.trackseeklatency) := by
  have h := fits.sound geometry
  obtain ⟨d', ran, keeps, same, head⟩ := DiskSystem.read_time h exact range some
  obtain ⟨count, more⟩ := Nat.exists_eq_succ_of_ne_zero fun zero => some (BitVec.eq_of_toNat_eq zero)
  have place : n.toNat + k.toNat - 1 = n.toNat + count := by omega
  have whole := range
  rw [more] at whole
  obtain ⟨inside, rest⟩ := DiskSystem.lt_numblocks whole
  have next := DiskSystem.next_toNat inside
  obtain ⟨c1, served, keeps1, same1, head1, time1, below⟩ := (below_make d cachesize n).read h exact inside
  obtain ⟨c, others, keeps2, same2, head2, time2⟩ := (below next).run (h.keeps keeps1)
    (by rw [keeps1.machine]; exact exact) (by rw [keeps1.config]; exact one)
      (by rw [keeps1.config]; exact wide) head1 next
    (by rw [keeps1.config]; exact rest)
  rw [same1] at others
  have all : Runs.run serve (make d cachesize) (readRange n k.toNat) =
      .ok (delivered (((blocksFrom d.blocks n k.toNat).map Block.ofBytes).map Block.data), c) := by
    have bytes : Block.data ∘ Block.ofBytes = id := rfl
    rw [List.map_map, bytes, List.map_id, more]
    exact Runs.run_cons served others
  refine ⟨_, _, d', c, ran, all, same, same2.trans same1, ?_, ?_, ?_⟩
  · refine BitVec.eq_of_toNat_eq ?_
    rw [head2.track, head.track, keeps2.sectors, keeps1.sectors, keeps.sectors, place]
    rfl
  · refine BitVec.eq_of_toNat_eq ?_
    rw [head2.sector, head.sector, keeps2.sectors, keeps1.sectors, keeps.sectors, place]
    rfl
  · have start : (make d cachesize).curtime = 0 := rfl
    rw [time2, time1, start, keeps1.sectors, keeps1.config, place, more, Nat.succ_sub_one]
    change 0 + (d.startTime n + sectorTime d.toDiskConfig) + _ = _
    change _ + (((n.toNat + count) / d.sectors.toNat - n.toNat / d.sectors.toNat : Nat) *
      seekTime d.toDiskConfig 1 +
      count * (2 * sectorTime d.toDiskConfig)) = _
    push_cast
    ring

theorem sequential_reads_small : ∃ bs t d' c,
    (DiskSystem.make .small DiskSystem.smallConfig ByteFile.empty).read 5 30 = .ok (.noError, bs, t, d') ∧
      Runs.run serve (make (DiskSystem.make .small DiskSystem.smallConfig ByteFile.empty) 3)
        (readRange 5 30) =
        .ok (delivered (bs.map Block.data), c) ∧ c.curtime = t + 203 / 400 := by
  obtain ⟨bs, t, d', c, ran, all, -, -, -, -, time⟩ :=
    sequential_reads (DiskSystem.make .small DiskSystem.smallConfig ByteFile.empty) Machine.small_exact
      DiskSystem.smallConfig_accepted (by decide) rfl (by decide) 3 5 30 (by decide) (by decide)
  have blocks :
      (DiskSystem.make .small DiskSystem.smallConfig ByteFile.empty).blockspertrack.toNat = 16 := rfl
  have tracks : (DiskSystem.make .small DiskSystem.smallConfig ByteFile.empty).numtracks.toNat = 4 := rfl
  have further : (30 : SizeT).toNat - 1 = 29 := rfl
  have sector :
      sectorTime (DiskSystem.make .small DiskSystem.smallConfig ByteFile.empty).toDiskConfig = 7 / 400 := by
    rw [sectorTime, blocks]
    norm_num [DiskSystem.make, DiskSystem.smallConfig]
  have seek :
      seekTime (DiskSystem.make .small DiskSystem.smallConfig ByteFile.empty).toDiskConfig 1 = 10 := by
    rw [seekTime, tracks]
    norm_num [DiskSystem.make, DiskSystem.smallConfig]
  refine ⟨bs, t, d', c, ran, all, ?_⟩
  rw [time, sector, seek, further]
  norm_num [DiskSystem.make, DiskSystem.smallConfig]

end BufferCache
end BTreeLab
