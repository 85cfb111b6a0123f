import EECS339.CacheArray

/-!
# Requests the cache should refuse

`WriteBlock` acknowledges every block number and every length. Acknowledged bytes
reach the disk exactly in the runs that never make it do so; reads of blocks that
do not exist are refused by the disk and do no harm, unless the process is killed when
it looks for the bit of such a block.
-/
namespace BTreeLab.BufferCache

/-- The bytes of the last write to `n` that was acknowledged. -/
def latestAck (n : SizeT) : List (Request × Reply) → Option (List ByteT)
  | [] => none
  | (.write m b, r) :: rest =>
      (latestAck n rest).or (if m = n ∧ r.1 = .noError then some b.data else none)
  | _ :: rest => latestAck n rest

/-- The header's contract for one write: acknowledged and acceptable, or refused
with the error the header names and without effect. -/
def WriteContract (c : BufferCache) (n : SizeT) (b : Block) (rc : ErrorT) (c' : BufferCache) : Prop :=
  (rc = .noError ∧ n < c.disk.numblocks ∧ b.length = c.disk.blocksize.toNat) ∨
    ((rc = .noSuchBlock ∨ rc = .wrongSizeBlock) ∧ c'.blockmap = c.blockmap ∧ c'.disk = c.disk)

/-- Every write of the run honours the contract, and a final `Detach` succeeds and
leaves the latest acknowledged bytes of every block on the disk. -/
def AckDurable (d : DiskSystem) (cachesize : SizeT) (ops : List Request) : Prop :=
  ∃ replies c, Runs.run serve (make d cachesize) ops = .ok (replies, c) ∧
    (∀ before n b after rs c0 rc c1, ops = before ++ .write n b :: after →
      Runs.run serve (make d cachesize) before = .ok (rs, c0) →
      c0.writeBlock n b = .ok (rc, c1) → c0.WriteContract n b rc c1) ∧
    ∃ c', c.detach = .ok (.noError, c') ∧
      ∀ n, n < d.numblocks → c'.disk.blocks n = (latestAck n (ops.zip replies)).getD (d.blocks n)

def Request.Acceptable (d : DiskSystem) : Request → Prop
  | .read n => d.ReadableBit n
  | .write n b => n < d.numblocks ∧ b.length = d.blocksize.toNat
  | .flush _ => True

/-- The array machine of a disk with `numblocks` blocks, which refuses to read others. -/
def serveBounded (numblocks : SizeT) (a : BlockArray) : Request → Reply × BlockArray
  | .read n => if n < numblocks then ((.noError, some (a n)), a) else ((.noSpace, none), a)
  | .write n b => ((.noError, none), Function.update a n b.data)
  | .flush _ => ((.noError, none), a)

theorem Keeps.isBlockAllocated {c c' : BufferCache} (h : c.Keeps c') (n : SizeT) :
    c'.disk.isBlockAllocated n = c.disk.isBlockAllocated n := by
  simp only [DiskSystem.isBlockAllocated, DiskSystem.bitmapByte, h.config, h.machine, h.bitmap]

theorem Valid.uncached {c : BufferCache} (h : c.Valid) {n : SizeT} (hn : ¬ n < c.disk.numblocks) :
    c.blockmap[n]? = none := by
  cases hc : c.blockmap[n]? with
  | none => rfl
  | some b => exact absurd (h.inRange n b hc).1 hn

/-- Looking for the bit of the block kills the process. -/
theorem readBlock_killed {c : BufferCache} (h : c.Valid) {n : SizeT} (unreadable : ¬ c.disk.ReadableBit n) :
    c.readBlock n = .error .outOfBounds := by
  have uncached := h.uncached fun hn => unreadable (DiskSystem.readableBit_of_lt hn)
  obtain ⟨c1, hevict, -, k1, -⟩ := checkDeleteOldest_ok h
  have killed := (k1.isBlockAllocated n).trans (DiskSystem.isBlockAllocated_unreadable unreadable)
  simp only [readBlock, uncached, hevict, isBlockAllocated, killed]

/-- The disk refuses the read; only an eviction may have happened. The sum of the
range check wraps for the one number left out. -/
theorem readBlock_outside {c : BufferCache} (h : c.Valid) {n : SizeT}
    (hn : ¬ n < c.disk.numblocks) (top : n ≠ -1) (readable : c.disk.ReadableBit n) :
    ∃ c', c.readBlock n = .ok (.noSpace, none, c') ∧ c'.Valid ∧ c.Keeps c' ∧
      c'.logical = c.logical := by
  have uncached := h.uncached hn
  obtain ⟨bit, asked⟩ := readable
  obtain ⟨c1, hevict, h1, k1, same1, -⟩ := checkDeleteOldest_ok h
  have check : n + 1 > c1.disk.numblocks := by
    have succ : (n + 1).toNat = n.toNat + 1 := by
      have : n.toNat ≠ 2 ^ 32 - 1 := fun e => top (BitVec.eq_of_toNat_eq (by rw [e]; rfl))
      have := n.isLt
      rw [BitVec.toNat_add, Nat.mod_eq_of_lt (by simp; omega)]
      rfl
    rw [k1.config, gt_iff_lt, BitVec.lt_def, succ]
    rw [BitVec.lt_def] at hn
    omega
  obtain ⟨h2, k2, same2⟩ := touch_ok h1
    { c1 with curtime := c1.disk.machine.add c1.curtime 0, diskreads := c1.diskreads + 1 } rfl (.refl _) rfl
  refine ⟨_, ?_, h2, k1.trans k2, same2.trans same1⟩
  simp only [readBlock, uncached, hevict, isBlockAllocated, k1.isBlockAllocated, asked,
    DiskSystem.readOne, DiskSystem.read, if_pos check,
    reduceCtorEq, if_false]

/-- The cache stands for the array `a` over a disk that has kept what decides about requests. -/
structure Serves (d : DiskSystem) (c : BufferCache) (a : BlockArray) : Prop where
  valid : c.Valid
  config : c.disk.toDiskConfig = d.toDiskConfig
  bits : ∀ n, c.disk.isBlockAllocated n = d.isBlockAllocated n
  logical : c.logical = a

theorem Serves.next {d : DiskSystem} {c c' : BufferCache} {a a' : BlockArray} (h : Serves d c a)
    (valid : c'.Valid) (k : c.Keeps c') (logical : c'.logical = a') : Serves d c' a' :=
  ⟨valid, k.config.trans h.config, fun n => (k.isBlockAllocated n).trans (h.bits n), logical⟩

theorem serve_simulates_bounded {d : DiskSystem} (c : BufferCache) (a : BlockArray) (op : Request)
    (related : Serves d c a) (ok : op.Acceptable d ∧ op ≠ .read (-1)) :
    ∃ c', c.serve op = .ok ((serveBounded d.numblocks a op).1, c') ∧
      Serves d c' (serveBounded d.numblocks a op).2 := by
  have h := related.valid
  have numblocks : c.disk.numblocks = d.numblocks := by rw [related.config]
  have blocksize : c.disk.blocksize = d.blocksize := by rw [related.config]
  cases op with
  | read n =>
      by_cases hn : n < d.numblocks
      · obtain ⟨b, c', hread, bytes, h', k, same⟩ := readBlock_ok h (n := n) (numblocks ▸ hn)
        refine ⟨c', ?_, related.next h' k ?_⟩
        · simp only [serve, hread, Except.map, Option.map_some, bytes, serveBounded, hn, if_true,
            related.logical]
        · simpa only [serveBounded, hn, if_true] using same.trans related.logical
      · have readable : c.disk.ReadableBit n := by
          rw [DiskSystem.ReadableBit, related.bits]
          exact ok.1
        obtain ⟨c', hread, h', k, same⟩ := readBlock_outside h (n := n) (numblocks ▸ hn)
          (fun e => ok.2 (congrArg Request.read e)) readable
        refine ⟨c', ?_, related.next h' k ?_⟩
        · simp only [serve, hread, Except.map, Option.map_none, serveBounded, hn, if_false]
        · simpa only [serveBounded, hn, if_false] using same.trans related.logical
  | write n b =>
      obtain ⟨c', hwrite, h', k, put⟩ := writeBlock_ok h (n := n) (b := b) (numblocks ▸ ok.1.1)
        (blocksize ▸ ok.1.2)
      refine ⟨c', ?_, related.next h' k (put.trans (by rw [related.logical]; rfl))⟩
      simp only [serve, hwrite, Except.map, serveBounded]
  | flush n =>
      obtain ⟨c', hflush, h', k, same⟩ := flushBlock_ok h n
      refine ⟨c', ?_, related.next h' k (same.trans related.logical)⟩
      simp only [serve, hflush, Except.map, serveBounded]

/-- The array machine acknowledges every write, so its state is the latest ones. -/
theorem runSpec_latestAck (numblocks : SizeT) (a : BlockArray) (ops : List Request) (n : SizeT) :
    (Runs.runSpec (serveBounded numblocks) a ops).2 n =
      (latestAck n (ops.zip (Runs.runSpec (serveBounded numblocks) a ops).1)).getD (a n) := by
  induction ops generalizing a with
  | nil => rfl
  | cons op ops ih =>
      simp only [Runs.runSpec, List.zip_cons_cons, ih]
      cases op with
      | read m =>
          simp only [serveBounded, latestAck]
          split_ifs <;> rfl
      | flush m => rfl
      | write m b =>
          simp only [serveBounded, latestAck, and_true]
          by_cases same : m = n
          · subst same
            cases latestAck m _ <;> simp
          · cases latestAck n _ <;> simp [same, Function.update_of_ne (Ne.symm same)]

theorem run_bounded {d : DiskSystem} (h : d.Sound) (cachesize : SizeT) {ops : List Request}
    (ok : ∀ op ∈ ops, op.Acceptable d ∧ op ≠ .read (-1)) :
    ∃ c, Runs.run serve (make d cachesize) ops =
        .ok ((Runs.runSpec (serveBounded d.numblocks) d.blocks ops).1, c) ∧
      Serves d c (Runs.runSpec (serveBounded d.numblocks) d.blocks ops).2 := by
  obtain ⟨valid, same⟩ := valid_make h cachesize
  exact Runs.run_simulates serve_simulates_bounded ⟨valid, rfl, fun _ => rfl, same⟩
    (Runs.legal_of_forall ok _)

/-- A write is acknowledged, unless looking for the bit of the block kills the process. -/
theorem writeBlock_acknowledges {c : BufferCache} (h : c.Valid) (n : SizeT) (b : Block) :
    (∃ c', c.writeBlock n b = .ok (.noError, c')) ∨ ∃ e, c.writeBlock n b = .error e := by
  unfold writeBlock
  cases c.blockmap[n]? with
  | some old => exact Or.inl ⟨_, rfl⟩
  | none =>
      obtain ⟨c1, hevict, -⟩ := checkDeleteOldest_ok h
      simp only [hevict]
      cases c1.isBlockAllocated n with
      | error e => exact Or.inr ⟨e, rfl⟩
      | ok bit => exact Or.inl ⟨_, rfl⟩

theorem ackDurable_of_acceptable {d : DiskSystem} (h : d.Sound) (cachesize : SizeT)
    {ops : List Request} (ok : ∀ op ∈ ops, op.Acceptable d ∧ op ≠ .read (-1)) :
    AckDurable d cachesize ops := by
  obtain ⟨c, hrun, serves⟩ := run_bounded h cachesize ok
  obtain ⟨c', hdetach, -, -, -, all⟩ := detach_ok serves.valid
  refine ⟨_, c, hrun, ?_, c', hdetach, ?_⟩
  · intro before n b after rs c0 rc c1 split hbefore hwrite
    subst split
    have ok' : ∀ op ∈ before, op.Acceptable d ∧ op ≠ .read (-1) :=
      fun op m => ok op (List.mem_append_left _ m)
    obtain ⟨c0', hrun0, serves0⟩ := run_bounded h cachesize ok'
    rw [hbefore] at hrun0
    cases hrun0
    left
    rcases writeBlock_acknowledges serves0.valid n b with ⟨c1', hack⟩ | ⟨e, killed⟩
    · rw [hwrite] at hack
      cases hack
      rw [serves0.config]
      exact ⟨rfl, (ok (.write n b) (by simp)).1⟩
    · rw [hwrite] at killed
      cases killed
  · intro n _
    rw [all, serves.logical, runSpec_latestAck]

theorem AckDurable.acceptable {d : DiskSystem} (h : d.Sound) {cachesize : SizeT}
    {ops : List Request} (top : ∀ op ∈ ops, op ≠ .read (-1)) (durable : AckDurable d cachesize ops) :
    ∀ op ∈ ops, op.Acceptable d := by
  by_contra bad
  obtain ⟨before, op, after, split, ok, bad⟩ := Runs.first_failure bad
  obtain ⟨c0, hrun0, serves0⟩ := run_bounded h cachesize
    (fun op m => ⟨ok op m, top op (by rw [split]; exact List.mem_append_left _ m)⟩)
  obtain ⟨replies, c, hrun, contract, -⟩ := durable
  -- the run goes past the bad request
  have alive (e : Fault) : c0.serve op ≠ .error e := by
    intro killed
    rw [split, Runs.run_faults hrun0 killed] at hrun
    cases hrun
  cases op with
  | flush n => exact bad trivial
  | read n =>
      have unreadable : ¬ c0.disk.ReadableBit n := by
        rw [DiskSystem.ReadableBit, serves0.bits]
        exact bad
      refine alive .outOfBounds ?_
      simp only [serve, readBlock_killed serves0.valid unreadable, Except.map]
  | write n b =>
      rcases writeBlock_acknowledges serves0.valid n b with ⟨c1, hack⟩ | ⟨e, killed⟩
      · rcases contract before n b after _ c0 _ c1 split hrun0 hack with good | ⟨refused, -⟩
        · rw [serves0.config] at good
          exact bad good.2
        · simp at refused
      · exact alive e (by simp only [serve, killed, Except.map])

/-- On a sound disk, in runs that do not read block 2^32 - 1, acknowledged writes
are durable exactly when every write is acceptable and no read kills the process. -/
theorem ackDurable_iff (d : DiskSystem) (h : d.Sound) (cachesize : SizeT) (ops : List Request)
    (top : ∀ op ∈ ops, op ≠ .read (-1)) :
    AckDurable d cachesize ops ↔ ∀ op ∈ ops, op.Acceptable d :=
  ⟨fun durable => durable.acceptable h top,
    fun ok => ackDurable_of_acceptable h cachesize (fun op m => ⟨ok op m, top op m⟩)⟩

theorem ackDurable_iff_small :
    AckDurable (DiskSystem.make .small DiskSystem.smallConfig ByteFile.empty) 1
      [.write 3 sevens, .read 64, .write 5 sevens, .flush 3] :=
  (ackDurable_iff (DiskSystem.make .small DiskSystem.smallConfig ByteFile.empty)
    DiskSystem.smallConfig_sound 1
    [.write 3 sevens, .read 64, .write 5 sevens, .flush 3] (by simp)).mpr
      (by simpa [Request.Acceptable] using
        ⟨⟨by decide, sevens_length⟩, ⟨_, rfl⟩, by decide, sevens_length⟩)

theorem phantom_block_acknowledged :
    ¬ AckDurable (DiskSystem.make .small DiskSystem.smallConfig ByteFile.empty) 1 [.write 64 sevens] := by
  intro durable
  have ok := durable.acceptable DiskSystem.smallConfig_sound (by simp)
  exact absurd (ok (.write 64 sevens) (by simp)).1 (by decide)

end BTreeLab.BufferCache
