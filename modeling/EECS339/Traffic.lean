import EECS339.CacheCapacity

/-!
# Disk transfers

A dirty block in the cache stands for a write to the disk that is still to come. The
counters are 32-bit numbers, which start again from zero.
-/
namespace BTreeLab.BufferCache

def dirtyCount (m : Std.TreeMap SizeT Block) : Nat := m.toList.countP fun e => e.2.dirty

def dirtyBlocks (c : BufferCache) : Nat := dirtyCount c.blockmap

def Op.isRead : Op → Bool
  | .request (.read _) => true
  | _ => false

def Op.isWrite : Op → Bool
  | .request (.write _ _) => true
  | _ => false

/-- From `c` to `c'`, `r` reads and `w` writes are counted and no more transfers, where a
dirty block counts as one. -/
def Transfers (r w : Nat) (c c' : BufferCache) : Prop :=
  ∃ dr dw : Nat, c'.reads = c.reads + .ofNat 32 r ∧ c'.writes = c.writes + .ofNat 32 w ∧
    c'.diskreads = c.diskreads + .ofNat 32 dr ∧ c'.diskwrites = c.diskwrites + .ofNat 32 dw ∧
    dr ≤ r ∧ dw + c'.dirtyBlocks ≤ c.dirtyBlocks + w

/-- What the counters say about the transfers. -/
def Balanced (c : BufferCache) : Prop :=
  c.diskwrites.toNat + c.dirtyBlocks ≤ c.writes.toNat ∧ c.diskreads.toNat ≤ c.reads.toNat

/-! ## Dirty blocks -/

variable {m m' : Std.TreeMap SizeT Block} {c c' c'' : BufferCache} {n : SizeT} {b : Block}
  {r w r' w' : Nat} {rc : ErrorT} {op : Op}

theorem toList_perm (same : ∀ j : SizeT, m[j]? = m'[j]?) : m.toList.Perm m'.toList := by
  have distinct : ∀ t : Std.TreeMap SizeT Block, t.toList.Nodup := fun t => by
    refine (Std.TreeMap.distinct_keys_toList (t := t)).imp fun differ eq => ?_
    rw [eq] at differ
    exact differ Std.ReflCmp.compare_self
  refine (List.perm_ext_iff_of_nodup (distinct m) (distinct m')).mpr fun e => ?_
  rw [Std.TreeMap.mem_toList_iff_getElem?_eq_some, Std.TreeMap.mem_toList_iff_getElem?_eq_some, same]

theorem toList_insert (m : Std.TreeMap SizeT Block) (n : SizeT) (b : Block) :
    (m.insert n b).toList.Perm ((n, b) :: (m.erase n).toList) := by
  have same : ∀ j : SizeT, (m.insert n b)[j]? = ((m.erase n).insert n b)[j]? := by
    intro j
    rw [entry_insert, entry_insert, entry_erase]
    split_ifs <;> rfl
  refine (toList_perm same).trans (Std.TreeMap.toList_insert_perm.trans ?_)
  rw [List.filter_eq_self.mpr]
  intro e mem
  have cached := Std.TreeMap.mem_toList_iff_getElem?_eq_some.mp mem
  rw [entry_erase] at cached
  split_ifs at cached with same
  simpa using Ne.symm same

theorem dirtyCount_insert (m : Std.TreeMap SizeT Block) (n : SizeT) (b : Block) :
    dirtyCount (m.insert n b) = dirtyCount (m.erase n) + b.dirty.toNat := by
  rw [dirtyCount, (toList_insert m n b).countP_eq, List.countP_cons, dirtyCount]
  cases b.dirty <;> rfl

/-- The entry of one block counts apart from the others. -/
theorem dirtyCount_erase (m : Std.TreeMap SizeT Block) (n : SizeT) :
    dirtyCount m = dirtyCount (m.erase n) + (m[n]?.any Block.dirty).toNat := by
  cases entry : m[n]? with
  | none =>
      have same : ∀ j : SizeT, m[j]? = (m.erase n)[j]? := by
        intro j
        rw [entry_erase]
        split_ifs with eq
        · rw [eq, entry]
        · rfl
      exact (toList_perm same).countP_eq _
  | some b =>
      have same : ∀ j : SizeT, m[j]? = (m.insert n b)[j]? := by
        intro j
        rw [entry_insert]
        split_ifs with eq
        · rw [eq, entry]
        · rfl
      rw [dirtyCount, (toList_perm same).countP_eq]
      exact dirtyCount_insert m n b

theorem dirtyCount_empty : dirtyCount ∅ = 0 := rfl

/-! ## Transfers -/

theorem Transfers.still (reads : c'.reads = c.reads) (writes : c'.writes = c.writes)
    (diskreads : c'.diskreads = c.diskreads) (diskwrites : c'.diskwrites = c.diskwrites)
    (dirty : c'.dirtyBlocks ≤ c.dirtyBlocks) : Transfers 0 0 c c' :=
  ⟨0, 0, by rw [reads, BitVec.add_zero], by rw [writes, BitVec.add_zero],
    by rw [diskreads, BitVec.add_zero], by rw [diskwrites, BitVec.add_zero], le_rfl, by omega⟩

theorem Transfers.trans (h : Transfers r w c c') (h' : Transfers r' w' c' c'') :
    Transfers (r + r') (w + w') c c'' := by
  obtain ⟨dr, dw, reads, writes, diskreads, diskwrites, less, balance⟩ := h
  obtain ⟨dr', dw', reads', writes', diskreads', diskwrites', less', balance'⟩ := h'
  refine ⟨dr + dr', dw + dw', ?_, ?_, ?_, ?_, Nat.add_le_add less less', by omega⟩
  · rw [reads', reads, BitVec.ofNat_add, BitVec.add_assoc]
  · rw [writes', writes, BitVec.ofNat_add, BitVec.add_assoc]
  · rw [diskreads', diskreads, BitVec.ofNat_add, BitVec.add_assoc]
  · rw [diskwrites', diskwrites, BitVec.ofNat_add, BitVec.add_assoc]

theorem writeBack_counts (ran : c.writeBack n b = .ok (rc, c')) :
    c'.reads = c.reads ∧ c'.writes = c.writes ∧ c'.diskreads = c.diskreads ∧
      c'.diskwrites = c.diskwrites + 1 ∧ c'.blockmap = c.blockmap := by
  rw [writeBack] at ran
  split at ran
  · cases ran
  · cases ran
    exact ⟨rfl, rfl, rfl, rfl, rfl⟩

theorem removeBlock_counts (ran : c.removeBlock n b = .ok (.noError, c')) :
    c'.reads = c.reads ∧ c'.writes = c.writes ∧ c'.diskreads = c.diskreads ∧
      c'.diskwrites = c.diskwrites + .ofNat 32 b.dirty.toNat ∧ c'.blockmap = c.blockmap.erase n := by
  rw [removeBlock] at ran
  cases dirty : b.dirty with
  | true =>
      cases hback : c.writeBack n b with
      | error f => simp [dirty, hback] at ran
      | ok x =>
          obtain ⟨rc1, c1⟩ := x
          obtain ⟨reads, writes, diskreads, diskwrites, map⟩ := writeBack_counts hback
          simp only [dirty, if_true, hback] at ran
          split_ifs at ran
          · cases ran
            contradiction
          · cases ran
            exact ⟨reads, writes, diskreads, diskwrites, congrArg (·.erase n) map⟩
  | false =>
      simp only [dirty, Bool.false_eq_true, if_false, Except.ok.injEq, Prod.mk.injEq, true_and] at ran
      subst ran
      exact ⟨rfl, rfl, rfl, (BitVec.add_zero _).symm, rfl⟩

/-- A dirty block that leaves is one transfer for one dirty block less. -/
theorem removeBlock_transfers (hb : c.blockmap[n]? = some b)
    (ran : c.removeBlock n b = .ok (.noError, c')) : Transfers 0 0 c c' := by
  obtain ⟨reads, writes, diskreads, diskwrites, map⟩ := removeBlock_counts ran
  have left := dirtyCount_erase c.blockmap n
  rw [hb, Option.any_some] at left
  refine ⟨0, b.dirty.toNat, by rw [BitVec.add_zero]; exact reads, by rw [BitVec.add_zero]; exact writes,
    by rw [BitVec.add_zero]; exact diskreads, diskwrites, le_rfl, ?_⟩
  simp only [dirtyBlocks, map, left]
  omega

theorem checkDeleteOldest_transfers (ran : c.checkDeleteOldest = .ok (.noError, c')) :
    Transfers 0 0 c c' := by
  rw [checkDeleteOldest] at ran
  split_ifs at ran with room
  · cases ran
    exact .still rfl rfl rfl rfl le_rfl
  · cases found : findOldest (c.disk.machine.add c.curtime 1) c.blockmap.toList with
    | none =>
        rw [found] at ran
        cases ran
        exact .still rfl rfl rfl rfl le_rfl
    | some e =>
        rw [found] at ran
        exact removeBlock_transfers (Std.TreeMap.mem_toList_iff_getElem?_eq_some.mp
          (findOldest_mem found)) ran

theorem readBlock_transfers (h : c.Valid) (hn : n < c.disk.numblocks) {o : Option Block}
    (ran : c.readBlock n = .ok (rc, o, c')) : Transfers 1 0 c c' := by
  obtain ⟨b, c1, success, -⟩ := readBlock_ok h hn
  rw [success] at ran
  cases ran
  rw [readBlock] at success
  cases hc : c.blockmap[n]? with
  | some old =>
      have left := dirtyCount_erase c.blockmap n
      rw [hc, Option.any_some] at left
      rw [hc] at success
      cases success
      refine ⟨0, 0, rfl, (BitVec.add_zero _).symm, (BitVec.add_zero _).symm, (BitVec.add_zero _).symm,
        Nat.zero_le 1, ?_⟩
      simp only [dirtyBlocks, dirtyCount_insert, left]
      omega
  | none =>
      obtain ⟨c2, evict, -⟩ := checkDeleteOldest_ok h
      have before := checkDeleteOldest_transfers evict
      simp only [hc, evict] at success
      cases asked : c2.isBlockAllocated n with
      | error f => simp [asked] at success
      | ok bit =>
          cases hread : c2.disk.readOne n with
          | error f => simp [asked, hread] at success
          | ok x =>
              obtain ⟨rc1, o1, t, d⟩ := x
              simp only [asked, hread] at success
              cases o1 with
              | none => cases success
              | some b1 =>
                  cases success
                  refine before.trans (?_ : Transfers 1 0 c2 _)
                  refine ⟨1, 0, rfl, (BitVec.add_zero _).symm, rfl, (BitVec.add_zero _).symm, le_rfl, ?_⟩
                  have left := dirtyCount_erase c2.blockmap n
                  simp only [dirtyBlocks, dirtyCount_insert, left, Bool.toNat_false]
                  omega

theorem writeBlock_transfers (h : c.Valid) (ran : c.writeBlock n b = .ok (rc, c')) :
    Transfers 0 1 c c' := by
  rw [writeBlock] at ran
  have enters (c1 : BufferCache) (b1 : Block) :
      Transfers 0 1 c1 { c1 with blockmap := c1.blockmap.insert n b1, writes := c1.writes + 1 } := by
    refine ⟨0, 0, (BitVec.add_zero _).symm, rfl, (BitVec.add_zero _).symm, (BitVec.add_zero _).symm,
      le_rfl, ?_⟩
    have left := dirtyCount_erase c1.blockmap n
    have one := b1.dirty.toNat_le
    simp only [dirtyBlocks, dirtyCount_insert, left]
    omega
  cases hc : c.blockmap[n]? with
  | some old =>
      rw [hc] at ran
      cases ran
      exact enters c _
  | none =>
      obtain ⟨c1, evict, -⟩ := checkDeleteOldest_ok h
      have before := checkDeleteOldest_transfers evict
      cases asked : c1.isBlockAllocated n with
      | error f => simp [hc, evict, asked] at ran
      | ok bit =>
          simp only [hc, evict, asked, Except.ok.injEq, Prod.mk.injEq] at ran
          obtain ⟨-, rfl⟩ := ran
          exact before.trans (enters c1 _)

theorem flushBlock_transfers (h : c.Valid) (ran : c.flushBlock n = .ok (rc, c')) : Transfers 0 0 c c' := by
  rw [flushBlock] at ran
  cases hc : c.blockmap[n]? with
  | none =>
      rw [hc] at ran
      cases ran
      exact .still rfl rfl rfl rfl le_rfl
  | some b =>
      rw [hc] at ran
      obtain ⟨c1, success, -⟩ := removeBlock_ok h hc
      simp only [success, Except.ok.injEq, Prod.mk.injEq] at ran
      obtain ⟨-, rfl⟩ := ran
      exact removeBlock_transfers hc success

theorem detachLoop_counts {rest : List (SizeT × Block)} (ran : c.detachLoop rest = .ok (.noError, c')) :
    c'.reads = c.reads ∧ c'.writes = c.writes ∧ c'.diskreads = c.diskreads ∧
      c'.diskwrites = c.diskwrites + .ofNat 32 (rest.countP fun e => e.2.dirty) ∧ c'.blockmap = ∅ := by
  induction rest generalizing c with
  | nil =>
      cases ran
      exact ⟨rfl, rfl, rfl, (BitVec.add_zero _).symm, rfl⟩
  | cons e rest ih =>
      rw [detachLoop] at ran
      split_ifs at ran with dirty
      · cases hback : c.writeBack e.1 e.2 with
        | error f => simp [hback] at ran
        | ok x =>
            obtain ⟨rc1, c1⟩ := x
            obtain ⟨reads, writes, diskreads, diskwrites, -⟩ := writeBack_counts hback
            simp only [hback] at ran
            split_ifs at ran with failed
            · cases ran
              exact absurd rfl failed
            · obtain ⟨reads', writes', diskreads', diskwrites', empty⟩ := ih ran
              refine ⟨reads'.trans reads, writes'.trans writes, diskreads'.trans diskreads, ?_, empty⟩
              rw [diskwrites', diskwrites, List.countP_cons, if_pos dirty, BitVec.ofNat_add, BitVec.add_assoc]
              exact congrArg (c.diskwrites + ·) (BitVec.add_comm _ _)
      · rw [List.countP_cons, if_neg dirty]
        exact ih ran

/-- Every dirty block is written once before the map is cleared. -/
theorem detach_transfers (ran : c.detach = .ok (.noError, c')) : Transfers 0 0 c c' := by
  obtain ⟨reads, writes, diskreads, diskwrites, empty⟩ := detachLoop_counts ran
  refine ⟨0, c.dirtyBlocks, by rw [reads, BitVec.add_zero], by rw [writes, BitVec.add_zero],
    by rw [diskreads, BitVec.add_zero], diskwrites, le_rfl, ?_⟩
  rw [dirtyBlocks, dirtyBlocks, empty, dirtyCount_empty]

theorem serve_transfers (h : c.Valid) {q : Request} (range : q.InRange c.disk.toDiskConfig) {rep : Reply}
    (ran : c.serve q = .ok (rep, c')) :
    Transfers (Op.request q).isRead.toNat (Op.request q).isWrite.toNat c c' := by
  cases q with
  | read n =>
      obtain ⟨⟨rc, b, c1⟩, hread, same⟩ := Runs.map_eq_ok ran
      cases same
      exact readBlock_transfers h range hread
  | write n b =>
      obtain ⟨⟨rc, c1⟩, hwrite, same⟩ := Runs.map_eq_ok ran
      cases same
      exact writeBlock_transfers h hwrite
  | flush n =>
      obtain ⟨⟨rc, c1⟩, hflush, same⟩ := Runs.map_eq_ok ran
      cases same
      exact flushBlock_transfers h hflush

/-! ## Runs -/

theorem Valid.empty (h : c.Valid) (config : c'.disk = c.disk) (map : c'.blockmap = ∅) : c'.Valid := by
  refine ⟨by rw [config]; exact h.sound, fun n b hb => ?_, fun n v hv => ?_⟩
  · rw [map] at hb
    simp at hb
  · simp [view, map] at hv

/-- The bitmap plays no part. -/
theorem Valid.notified (h : c.Valid) (change : List ByteT → Nat → List ByteT) (n : SizeT)
    (disk : c'.disk = (c.disk.notifyBlocks change n 1).2) (map : c'.blockmap = c.blockmap) : c'.Valid := by
  obtain ⟨bitmap, notified⟩ : ∃ bitmap, c'.disk = { c.disk with bitmap } := by
    rw [disk, DiskSystem.notifyBlocks]
    split_ifs
    · exact ⟨c.disk.bitmap, rfl⟩
    · exact ⟨_, rfl⟩
  refine ⟨?_, ?_, ?_⟩
  · rw [notified]
    exact ⟨h.sound.geometry, h.sound.apart, h.sound.reach⟩
  · rw [notified, map]
    exact h.inRange
  · have same : c'.view = c.view := by
      simp only [view, map, notified]
      rfl
    rw [same]
    exact h.coherent

theorem perform_transfers (h : c.Valid) (range : op.InRange c.disk.toDiskConfig) :
    ∃ rc c', c.perform op = .ok (rc, c') ∧ c'.Valid ∧
      Transfers op.isRead.toNat op.isWrite.toNat c c' := by
  cases op with
  | request q =>
      obtain ⟨c', hserve, h', -⟩ := serve_simulates c c.logical q ⟨h, rfl, rfl⟩ range
      exact ⟨_, c', by rw [perform, hserve]; rfl, h', serve_transfers h range hserve⟩
  | attach =>
      refine ⟨_, _, rfl, h.empty rfl rfl, .still rfl rfl rfl rfl ?_⟩
      exact Nat.zero_le _
  | detach =>
      obtain ⟨c', hdetach, h', -⟩ := detach_ok h
      exact ⟨_, c', hdetach, h', detach_transfers hdetach⟩
  | notifyAllocate n =>
      exact ⟨_, _, rfl, h.notified PackedBits.setBit n rfl rfl, .still rfl rfl rfl rfl le_rfl⟩
  | notifyDeallocate n =>
      exact ⟨_, _, rfl, h.notified PackedBits.clearBit n rfl rfl, .still rfl rfl rfl rfl le_rfl⟩

theorem run_transfers (h : c.Valid) (clocked : c.Clocked) {ops : List Op}
    (range : ∀ op ∈ ops, op.InRange c.disk.toDiskConfig) :
    ∃ rcs c', Runs.run perform c ops = .ok (rcs, c') ∧ c'.Valid ∧ c'.Clocked ∧
      c'.disk.toDiskConfig = c.disk.toDiskConfig ∧
      Transfers (ops.countP Op.isRead) (ops.countP Op.isWrite) c c' := by
  induction ops generalizing c with
  | nil => exact ⟨[], c, rfl, h, clocked, rfl, .still rfl rfl rfl rfl le_rfl⟩
  | cons op ops ih =>
      obtain ⟨first, others⟩ := List.forall_mem_cons.mp range
      obtain ⟨rc, c1, ran, h1, transfers⟩ := perform_transfers h first
      have served := perform_served ran
      obtain ⟨rcs, c', rest, h', clocked', config, transfers'⟩ := ih h1 (served.clocked clocked)
        (by rw [served.ticks.config]; exact others)
      refine ⟨rc :: rcs, c', Runs.run_cons ran rest, h', clocked', config.trans served.ticks.config, ?_⟩
      have total := transfers.trans transfers'
      rw [List.countP_cons, List.countP_cons, Nat.add_comm (ops.countP _), Nat.add_comm (ops.countP _)]
      cases hr : op.isRead <;> cases hw : op.isWrite <;> simpa [hr, hw] using total

theorem counted_toNat {k : Nat} (few : k < 2 ^ 32) : ((0 : SizeT) + .ofNat 32 k).toNat = k := by
  have same : (0 : SizeT) + .ofNat 32 k = .ofNat 32 k := BitVec.zero_add _
  rw [same, BitVec.toNat_ofNat, Nat.mod_eq_of_lt few]

/-- Counters that start at zero and have not wrapped are the numbers of calls. -/
theorem Transfers.writes_bounded {d : DiskSystem} {cachesize : SizeT}
    (h : Transfers r w (make d cachesize) c) (few : w < 2 ^ 32) :
    c.diskwrites.toNat + c.dirtyBlocks ≤ c.writes.toNat := by
  obtain ⟨dr, dw, -, writes, -, diskwrites, -, balance⟩ := h
  have none_yet : (make d cachesize).dirtyBlocks = 0 := rfl
  rw [none_yet, Nat.zero_add] at balance
  have written : c.writes.toNat = w := by
    rw [writes]
    exact counted_toNat few
  have transferred : c.diskwrites.toNat = dw := by
    rw [diskwrites]
    exact counted_toNat (by omega)
  rw [written, transferred]
  exact balance

theorem Transfers.reads_bounded {d : DiskSystem} {cachesize : SizeT}
    (h : Transfers r w (make d cachesize) c) (few : r < 2 ^ 32) :
    c.diskreads.toNat ≤ c.reads.toNat := by
  obtain ⟨dr, dw, reads, -, diskreads, -, less, -⟩ := h
  have delivered : c.reads.toNat = r := by
    rw [reads]
    exact counted_toNat few
  have transferred : c.diskreads.toNat = dr := by
    rw [diskreads]
    exact counted_toNat (less.trans_lt few)
  rw [delivered, transferred]
  exact less

/-- The cache never makes more transfers than the requests alone, as far as the counters
go, and time does not run backwards. -/
theorem traffic_bounded (d : DiskSystem) (forward : d.Forward) (fits : d.Fits) (cachesize : SizeT)
    (ops : List Op) (range : ∀ op ∈ ops, op.InRange d.toDiskConfig) :
    ∃ rcs c, Runs.run perform (make d cachesize) ops = .ok (rcs, c) ∧
      (∀ (n : SizeT) (b : Block), c.blockmap[n]? = some b → b.lastaccessed ≤ c.curtime) ∧
      (∀ op rc c', c.perform op = .ok (rc, c') → c.curtime ≤ c'.curtime) ∧
      (ops.countP Op.isWrite < 2 ^ 32 → c.diskwrites.toNat + c.dirtyBlocks ≤ c.writes.toNat) ∧
      (ops.countP Op.isRead < 2 ^ 32 → c.diskreads.toNat ≤ c.reads.toNat) := by
  obtain ⟨rcs, c, ran, -, clocked, -, transfers⟩ :=
    run_transfers (valid_make (fits.sound forward.accepted) cachesize).1 (clocked_make forward cachesize)
      range
  refine ⟨rcs, c, ran, clocked.stamps, fun op rc c' next => ?_, transfers.writes_bounded,
    transfers.reads_bounded⟩
  exact (perform_served next).ticks.later clocked.forward

theorem traffic_bounded_small :
    ∃ rcs c, Runs.run perform (make (DiskSystem.make .small DiskSystem.smallConfig ByteFile.empty) 1)
      [.request (.write 3 sevens), .request (.read 5), .detach] = .ok (rcs, c) ∧ c.Balanced := by
  have range : ∀ op ∈ [Op.request (.write 3 sevens), .request (.read 5), .detach],
      op.InRange DiskSystem.smallConfig := by
    simp only [List.forall_mem_cons]
    exact ⟨⟨by decide, sevens_length⟩, (by decide : (5 : SizeT) < 64), trivial, by simp⟩
  obtain ⟨rcs, c, ran, -, -, writes, reads⟩ :=
    traffic_bounded (DiskSystem.make .small DiskSystem.smallConfig ByteFile.empty)
      (.of_exact Machine.small_exact DiskSystem.smallConfig_accepted) (by decide) 1 _ range
  exact ⟨rcs, c, ran, writes (by decide), reads (by decide)⟩

/-- Writes to a block that stays in the cache only move the counter. -/
theorem rewrite_run {old : Block} (k : Nat) (hit : c.blockmap[n]? = some old) (dirty : old.dirty = true) :
    ∃ rcs c', Runs.run perform c (List.replicate k (.request (.write n b))) = .ok (rcs, c') ∧
      c'.writes = c.writes + .ofNat 32 k ∧ ∃ b', c'.blockmap[n]? = some b' ∧ b'.dirty = true := by
  induction k generalizing c old with
  | zero => exact ⟨[], c, rfl, (BitVec.add_zero _).symm, old, hit, dirty⟩
  | succ k ih =>
      let c1 : BufferCache := { c with
        blockmap := c.blockmap.insert n { b with lastaccessed := c.curtime, dirty := true }
        writes := c.writes + 1 }
      have first : c.perform (.request (.write n b)) = .ok (.noError, c1) := by
        simp only [perform, serve, writeBlock, hit, Except.map, c1]
      have hit1 : c1.blockmap[n]? = some { b with lastaccessed := c.curtime, dirty := true } := by
        rw [entry_insert, if_pos rfl]
      obtain ⟨rcs, c', rest, writes, after⟩ := ih hit1 rfl
      refine ⟨.noError :: rcs, c', Runs.run_cons first rest, ?_, after⟩
      rw [writes, Nat.add_comm k, BitVec.ofNat_add, ← BitVec.add_assoc]
      rfl

theorem dirtyBlocks_pos (hb : c.blockmap[n]? = some b) (dirty : b.dirty = true) : 0 < c.dirtyBlocks := by
  have left := dirtyCount_erase c.blockmap n
  rw [hb, Option.any_some, dirty, Bool.toNat_true] at left
  rw [dirtyBlocks, left]
  exact Nat.succ_pos _

theorem first_write_run (k : Nat) :
    ∃ rcs c, Runs.run perform (make (DiskSystem.make .small DiskSystem.smallConfig ByteFile.empty) 1)
      (List.replicate (k + 1) (.request (.write 3 sevens))) = .ok (rcs, c) ∧
        c.writes = .ofNat 32 (k + 1) ∧ 0 < c.dirtyBlocks := by
  let c1 : BufferCache := { make (DiskSystem.make .small DiskSystem.smallConfig ByteFile.empty) 1 with
    blockmap := (∅ : Std.TreeMap SizeT Block).insert 3 { sevens with lastaccessed := 0, dirty := true }
    writes := 1 }
  have first : perform (make (DiskSystem.make .small DiskSystem.smallConfig ByteFile.empty) 1)
      (.request (.write 3 sevens)) = .ok (.noError, c1) := rfl
  have hit : c1.blockmap[(3 : SizeT)]? = some { sevens with lastaccessed := 0, dirty := true } := by
    rw [entry_insert, if_pos rfl]
  obtain ⟨rcs, c, rest, writes, b, hb, dirty⟩ := rewrite_run (b := sevens) k hit rfl
  refine ⟨.noError :: rcs, c, ?_, ?_, dirtyBlocks_pos hb dirty⟩
  · rw [List.replicate_succ]
    exact Runs.run_cons first rest
  · rw [writes, Nat.add_comm k, BitVec.ofNat_add]
    rfl

/-- After 2^32 writes of one block the counter is back at zero, and the block is dirty. -/
theorem writes_wrap :
    ∃ rcs c, Runs.run perform (make (DiskSystem.make .small DiskSystem.smallConfig ByteFile.empty) 1)
      (List.replicate (2 ^ 32) (.request (.write 3 sevens))) = .ok (rcs, c) ∧ ¬ c.Balanced := by
  obtain ⟨rcs, c, ran, writes, pos⟩ := first_write_run (2 ^ 32 - 1)
  have count : 2 ^ 32 - 1 + 1 = 2 ^ 32 := by norm_num
  rw [count] at ran writes
  refine ⟨rcs, c, ran, fun balanced => ?_⟩
  have zero : c.writes = 0 := writes.trans (by decide)
  have bound := balanced.1
  rw [zero] at bound
  exact absurd (Nat.le_of_add_left_le bound) (not_le.mpr pos)

end BTreeLab.BufferCache
