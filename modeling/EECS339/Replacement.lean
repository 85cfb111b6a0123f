import EECS339.Lib.Recency
import EECS339.CacheArray

/-!
# Which block is replaced

`CheckDeleteOldest` looks for the oldest access time, but the time advances only on
disk traffic. Between two transfers all accesses carry one time, and of the blocks
accessed then the one with the least number goes first.
-/
namespace BTreeLab
open Recency

/-! ## Time -/

namespace DiskSystem

theorem accepted_latencies {c : DiskConfig} (accepted : sanityCheckConfig c = .noError) :
    0 < c.averageseeklatency ∧ 0 < c.trackseeklatency ∧ 0 < c.rotationallatency :=
  (sanityCheckConfig_ok.mp accepted).1

/-- No access takes less than no time. -/
structure Forward (d : DiskSystem) : Prop where
  rounds : d.machine.Monotone
  accepted : sanityCheckConfig d.toDiskConfig = .noError
  seek : ∀ k : Nat, 0 ≤ d.machine.div k d.numtracks.toNat

theorem Forward.of_exact {d : DiskSystem} (exact : d.machine.Exact)
    (accepted : sanityCheckConfig d.toDiskConfig = .noError) : d.Forward := by
  refine ⟨exact.monotone, accepted, fun k => ?_⟩
  rw [exact.div]
  positivity

/-- Without blocks there may be no tracks, and the seek is divided by zero. -/
theorem Forward.of_blocks {d : DiskSystem} (rounds : d.machine.Monotone)
    (accepted : sanityCheckConfig d.toDiskConfig = .noError) (some : d.numblocks ≠ 0) : d.Forward := by
  refine ⟨rounds, accepted, fun k => rounds.div _ _ (Nat.cast_nonneg k) ?_⟩
  have tracks : d.numtracks ≠ 0 := by
    intro zero
    rw [(sanityCheckConfig_ok.mp accepted).2, zero, mul_zero] at some
    exact some rfl
  exact Nat.cast_pos.mpr (Nat.pos_of_ne_zero fun zero => tracks (BitVec.eq_of_toNat_eq zero))

theorem Forward.congr {d d' : DiskSystem} (h : d.Forward) (config : d'.toDiskConfig = d.toDiskConfig)
    (machine : d'.machine = d.machine) : d'.Forward := by
  obtain ⟨rounds, accepted, seek⟩ := h
  exact ⟨by rw [machine]; exact rounds, by rw [config]; exact accepted, by rw [machine, config]; exact seek⟩

theorem modelAccess_nonneg {d d' : DiskSystem} (h : d.Forward) {n k : SizeT} {t : ℚ}
    (ran : d.modelAccess n k = .ok (t, d')) : 0 ≤ t := by
  obtain ⟨average, track, rotation⟩ := accepted_latencies h.accepted
  have sum {a b : ℚ} (first : 0 ≤ a) (second : 0 ≤ b) := first.trans (h.rounds.add a b second)
  simp only [modelAccess] at ran
  split at ran
  · cases ran
  next spins =>
    have blocks : (0 : ℚ) < d.blockspertrack.toNat := by
      refine Nat.cast_pos.mpr (Nat.pos_of_ne_zero fun zero => spins ?_)
      rw [sectors, show d.blockspertrack = 0 from BitVec.eq_of_toNat_eq zero, mul_zero]
    simp only [Except.ok.injEq, Prod.mk.injEq] at ran
    obtain ⟨rfl, -⟩ := ran
    refine sum (sum (sum ?_ ?_) ?_) ?_
    · split_ifs
      · exact h.rounds.mul _ _ (Nat.cast_nonneg _) track.le
      · exact h.rounds.mul _ _ (h.rounds.div _ _ (h.seek _) (by norm_num)) average.le
    · exact h.rounds.mul _ _ rotation.le (h.rounds.div _ _ (Nat.cast_nonneg _) blocks)
    · exact h.rounds.mul _ _ (Nat.cast_nonneg _) track.le
    · exact h.rounds.mul _ _ rotation.le (h.rounds.div _ _ (Nat.cast_nonneg _) blocks)

theorem writeOne_nonneg {d d' : DiskSystem} (h : d.Forward) {n : SizeT} {b : Block} {rc : ErrorT} {t : ℚ}
    (ran : d.writeOne n b = .ok (rc, t, d')) : 0 ≤ t := by
  unfold writeOne write at ran
  split at ran
  · cases ran
    exact le_rfl
  · split at ran
    · cases ran
    · next t1 d1 access =>
        split at ran
        · cases ran
        · cases ran
          exact modelAccess_nonneg h access

theorem readOne_nonneg {d d' : DiskSystem} (h : d.Forward) {n : SizeT} {b : Option Block} {rc : ErrorT}
    {t : ℚ} (ran : d.readOne n = .ok (rc, b, t, d')) : 0 ≤ t := by
  unfold readOne at ran
  split at ran
  · cases ran
  · next rc1 bl t1 d1 hread =>
      simp only [Except.ok.injEq, Prod.mk.injEq] at ran
      obtain ⟨-, -, rfl, -⟩ := ran
      unfold read at hread
      split at hread
      · cases hread
        exact le_rfl
      · split at hread
        · cases hread
        · next t2 d2 access =>
            split at hread
            · cases hread
            · cases hread
              exact modelAccess_nonneg h access

end DiskSystem

namespace BufferCache
open DiskSystem (Sound)

/-! ## Choosing the block -/

/-- What the scan has found after some entries in the order of the block numbers: the
first of the least times, if one is below the bound. -/
theorem scan_spec {bound : ℚ} {entries : List (SizeT × Block)}
    (sorted : entries.Pairwise fun a b => a.1 < b.1) :
    let best := entries.foldl (fun (best : Option (SizeT × Block) × ℚ) e =>
      if e.2.lastaccessed < best.2 then (some e, e.2.lastaccessed) else best) (none, bound)
    (best.1 = none → best.2 = bound ∧ ∀ x ∈ entries, bound ≤ x.2.lastaccessed) ∧
      ∀ e, best.1 = some e → best.2 = e.2.lastaccessed ∧ e ∈ entries ∧ ∀ x ∈ entries,
        e.2.lastaccessed < x.2.lastaccessed ∨ (e.2.lastaccessed = x.2.lastaccessed ∧ e.1 ≤ x.1) := by
  induction entries using List.reverseRecOn with
  | nil => simp
  | append_singleton l y ih =>
      rw [List.pairwise_append] at sorted
      obtain ⟨sorted, -, behind⟩ := sorted
      obtain ⟨empty, full⟩ := ih sorted
      simp only [List.foldl_append, List.foldl_cons, List.foldl_nil, List.mem_append,
        List.mem_singleton]
      set best := l.foldl (fun (best : Option (SizeT × Block) × ℚ) e =>
        if e.2.lastaccessed < best.2 then (some e, e.2.lastaccessed) else best) (none, bound)
      split_ifs with older
      · refine ⟨fun h => h.elim, ?_⟩
        intro e h
        cases h
        refine ⟨rfl, Or.inr rfl, ?_⟩
        rintro x (before | rfl)
        · left
          cases found : best.1 with
          | none =>
              rw [(empty found).1] at older
              exact older.trans_le ((empty found).2 x before)
          | some e =>
              obtain ⟨time, -, least⟩ := full e found
              rw [time] at older
              rcases least x before with lt | tie
              · exact older.trans lt
              · exact tie.1 ▸ older
        · exact Or.inr ⟨rfl, le_rfl⟩
      · rw [not_lt] at older
        refine ⟨fun none => ?_, fun e some => ?_⟩
        · obtain ⟨time, all⟩ := empty none
          refine ⟨time, ?_⟩
          rintro x (before | rfl)
          · exact all x before
          · exact time ▸ older
        · obtain ⟨time, mem, least⟩ := full e some
          refine ⟨time, Or.inl mem, ?_⟩
          rintro x (before | rfl)
          · exact least x before
          · rw [time] at older
            rcases lt_or_eq_of_le older with lt | tie
            · exact Or.inl lt
            · exact Or.inr ⟨tie, le_of_lt (behind e mem x (List.mem_singleton_self x))⟩

/-- The time of the last access to each cached block. -/
def stamp (c : BufferCache) (n : SizeT) : Option ℚ := c.blockmap[n]?.map Block.lastaccessed

theorem findOldest_least {c : BufferCache} {bound : ℚ} {e : SizeT × Block}
    (found : findOldest bound c.blockmap.toList = some e) : Least c.stamp e.1 e.2.lastaccessed := by
  have sorted : c.blockmap.toList.Pairwise fun a b => a.1 < b.1 :=
    (Std.TreeMap.ordered_keys_toList (t := c.blockmap)).imp fun lt => compareOfLessAndEq_eq_lt.mp lt
  obtain ⟨-, mem, least⟩ := (scan_spec sorted).2 e found
  refine ⟨?_, fun m t hm => ?_⟩
  · rw [stamp, Std.TreeMap.mem_toList_iff_getElem?_eq_some.mp mem, Option.map_some]
  · obtain ⟨b, hb, rfl⟩ := Option.map_eq_some_iff.mp hm
    exact least (m, b) (Std.TreeMap.mem_toList_iff_getElem?_eq_some.mpr hb)

/-! ## What the operations do to the stamps -/

/-- Every cached block exists and has the block size, on a disk with an accepted
geometry and a clock that rounding does not turn back; nothing is said about what the disk holds. -/
structure Usable (c : BufferCache) : Prop where
  rounds : c.disk.machine.Monotone
  geometry : sanityCheckConfig c.disk.toDiskConfig = .noError
  inRange : ∀ n b, c.blockmap[n]? = some b → n < c.disk.numblocks ∧ b.length = c.disk.blocksize.toNat

variable {c c' : BufferCache} {n v : SizeT} {b : Block} {rc : ErrorT}

/-- The disk may have moved its head and changed what it holds. -/
def SameDisk (c c' : BufferCache) : Prop :=
  c'.disk.toDiskConfig = c.disk.toDiskConfig ∧ c'.disk.machine = c.disk.machine

theorem SameDisk.trans {c'' : BufferCache} (h : c.SameDisk c') (h' : c'.SameDisk c'') : c.SameDisk c'' :=
  ⟨h'.1.trans h.1, h'.2.trans h.2⟩

theorem SameDisk.of_keeps {d : DiskSystem} (k : c.disk.Keeps d) (same : c'.disk = d) : c.SameDisk c' := by
  subst same
  exact ⟨k.config, k.machine⟩

theorem Usable.congr (h : c.Usable) (same : c.SameDisk c')
    (fewer : ∀ (n : SizeT) b, c'.blockmap[n]? = some b → c.blockmap[n]? = some b) : c'.Usable := by
  obtain ⟨config, machine⟩ := same
  refine ⟨by rw [machine]; exact h.rounds, by rw [config]; exact h.geometry, ?_⟩
  intro n b hb
  rw [config]
  exact h.inRange n b (fewer n b hb)

theorem Usable.spins (h : c.Usable) (hn : n < c.disk.numblocks) :
    c.disk.numheads * c.disk.blockspertrack ≠ 0 :=
  DiskSystem.accepted_spins h.geometry (DiskSystem.numblocks_pos hn)

theorem Usable.forward (h : c.Usable) (hn : n < c.disk.numblocks) : c.disk.Forward := by
  refine .of_blocks h.rounds h.geometry fun zero => ?_
  rw [zero] at hn
  exact BitVec.not_lt_zero hn

theorem notify_keeps (change : List ByteT → Nat → List ByteT) (d : DiskSystem) (s k : SizeT) :
    (d.notifyBlocks change s k).2.toDiskConfig = d.toDiskConfig ∧
      (d.notifyBlocks change s k).2.machine = d.machine := by
  unfold DiskSystem.notifyBlocks
  split_ifs <;> exact ⟨rfl, rfl⟩

/-- What writing a block out, evicting and flushing leave of the cache. -/
structure Aged (c c' : BufferCache) : Prop where
  usable : c'.Usable
  same : c.SameDisk c'
  later : c.curtime ≤ c'.curtime

theorem Usable.aged (h : c.Usable) : c.Aged c := ⟨h, ⟨rfl, rfl⟩, le_rfl⟩

theorem writeBack_aged (h : c.Usable) (hb : c.blockmap[n]? = some b) :
    ∃ c', c.writeBack n b = .ok (.noError, c') ∧ c.Aged c' ∧ c'.blockmap = c.blockmap := by
  obtain ⟨hn, length⟩ := h.inRange n b hb
  obtain ⟨t, d, hwrite, k, -⟩ := DiskSystem.writeOne_eq (h.spins hn) hn length
  have same : c.SameDisk { c with disk := d } := .of_keeps k rfl
  refine ⟨{ c with
      disk := d, curtime := c.disk.machine.add c.curtime t, diskwrites := c.diskwrites + 1 },
    by simp only [writeBack, hwrite, k.machine], ⟨h.congr same fun _ _ => id, same, ?_⟩, rfl⟩
  exact h.rounds.add _ _ (DiskSystem.writeOne_nonneg (h.forward hn) hwrite)

theorem erase_fewer (c : BufferCache) (n : SizeT) (m : SizeT) (b : Block)
    (hb : (c.blockmap.erase n)[m]? = some b) : c.blockmap[m]? = some b := by
  rw [entry_erase] at hb
  split_ifs at hb
  exact hb

theorem stamp_erase (map : c'.blockmap = c.blockmap.erase n) :
    c'.stamp = Function.update c.stamp n none := by
  funext m
  rw [stamp, map, entry_erase, Function.update_apply]
  split_ifs <;> rfl

theorem stamp_insert (map : c'.blockmap = c.blockmap.insert n b) :
    c'.stamp = Function.update c.stamp n (some b.lastaccessed) := by
  funext m
  rw [stamp, map, entry_insert, Function.update_apply]
  split_ifs <;> rfl

theorem stamp_congr (map : c'.blockmap = c.blockmap) : c'.stamp = c.stamp := by
  funext m
  rw [stamp, stamp, map]

theorem removeBlock_aged (h : c.Usable) (hb : c.blockmap[n]? = some b) :
    ∃ c', c.removeBlock n b = .ok (.noError, c') ∧ c.Aged c' ∧
      c'.stamp = Function.update c.stamp n none := by
  cases dirty : b.dirty with
  | true =>
      obtain ⟨c1, hback, aged, map⟩ := writeBack_aged h hb
      refine ⟨{ c1 with blockmap := c1.blockmap.erase n }, ?_,
        ⟨aged.usable.congr ⟨rfl, rfl⟩ (erase_fewer c1 n), aged.same, aged.later⟩, ?_⟩
      · simp only [removeBlock, dirty, if_true, hback, ne_eq, not_true, if_false]
      · rw [stamp_erase (c := c1) rfl, stamp_congr map]
  | false =>
      refine ⟨{ c with blockmap := c.blockmap.erase n }, ?_,
        ⟨h.congr ⟨rfl, rfl⟩ (erase_fewer c n), ⟨rfl, rfl⟩, le_rfl⟩, stamp_erase rfl⟩
      simp only [removeBlock, dirty, Bool.false_eq_true, if_false]

/-- At most one block goes, and it is the one with the least time and number. -/
def AfterEviction (before after : SizeT → Option ℚ) : Prop :=
  after = before ∨ ∃ v t, Least before v t ∧ after = Function.update before v none

theorem checkDeleteOldest_aged (h : c.Usable) :
    ∃ c', c.checkDeleteOldest = .ok (.noError, c') ∧ c.Aged c' ∧ AfterEviction c.stamp c'.stamp := by
  unfold checkDeleteOldest
  split_ifs with room
  · exact ⟨c, rfl, h.aged, Or.inl rfl⟩
  · cases found : findOldest (c.disk.machine.add c.curtime 1) c.blockmap.toList with
    | none => exact ⟨c, rfl, h.aged, Or.inl rfl⟩
    | some e =>
        have hb := Std.TreeMap.mem_toList_iff_getElem?_eq_some.mp (findOldest_mem found)
        obtain ⟨c', hremove, aged, gone⟩ := removeBlock_aged h hb
        exact ⟨c', hremove, aged, Or.inr ⟨e.1, _, findOldest_least found, gone⟩⟩

/-- A hit stamps the block; a miss may evict one first, and if it succeeds stamps the
block that enters. -/
structure Accessed (c c' : BufferCache) (n : SizeT) (rc : ErrorT) : Prop where
  aged : c.Aged c'
  stamps : ∃ stamps, (stamps = c.stamp ∨ (c.stamp n = none ∧ AfterEviction c.stamp stamps)) ∧
    c'.stamp = if rc = .noError then Function.update stamps n (some c'.curtime) else stamps

theorem insert_usable {c1 : BufferCache} (h : c1.Usable) (hn : n < c1.disk.numblocks)
    (length : b.length = c1.disk.blocksize.toNat) (same : c1.SameDisk c')
    (map : c'.blockmap = c1.blockmap.insert n b) : c'.Usable := by
  obtain ⟨config, machine⟩ := same
  refine ⟨by rw [machine]; exact h.rounds, by rw [config]; exact h.geometry, ?_⟩
  intro m e he
  rw [map, entry_insert] at he
  rw [config]
  split_ifs at he with same
  · cases he
    rw [same]
    exact ⟨hn, length⟩
  · exact h.inRange m e he

/-- The block enters the cache, or replaces its entry. -/
theorem accessed_insert {c1 : BufferCache} (aged : c.Aged c1)
    (evicted : c1.stamp = c.stamp ∨ (c.stamp n = none ∧ AfterEviction c.stamp c1.stamp))
    (hn : n < c1.disk.numblocks) (length : b.length = c1.disk.blocksize.toNat)
    (same : c1.SameDisk c') (later : c1.curtime ≤ c'.curtime)
    (map : c'.blockmap = c1.blockmap.insert n { b with lastaccessed := c'.curtime }) :
    Accessed c c' n .noError :=
  ⟨⟨insert_usable (b := { b with lastaccessed := c'.curtime }) aged.usable hn length same map,
    aged.same.trans same, aged.later.trans later⟩, c1.stamp, evicted,
    by rw [if_pos rfl, stamp_insert map]⟩

theorem readBlock_accessed (h : c.Usable) (hn : n < c.disk.numblocks) :
    ∃ rc o c', c.readBlock n = .ok (rc, o, c') ∧ Accessed c c' n rc := by
  unfold readBlock
  cases hc : c.blockmap[n]? with
  | some b =>
      exact ⟨_, _, _, rfl,
        accessed_insert (b := b) h.aged (Or.inl rfl) hn (h.inRange n b hc).2 ⟨rfl, rfl⟩ le_rfl rfl⟩
  | none =>
      obtain ⟨c1, hevict, aged, evicted⟩ := checkDeleteOldest_aged h
      have hn1 : n < c1.disk.numblocks := by rw [aged.same.1]; exact hn
      have missed : c.stamp n = none := by rw [stamp, hc]; rfl
      obtain ⟨t, d, hread, config, machine⟩ := DiskSystem.readOne_eq (aged.usable.spins hn1) hn1 _ rfl
      have same : c1.SameDisk { c1 with disk := d } := ⟨config, machine⟩
      have later : c1.curtime ≤ d.machine.add c1.curtime t := by
        rw [machine]
        exact aged.usable.rounds.add _ _ (DiskSystem.readOne_nonneg (aged.usable.forward hn1) hread)
      simp only [hevict, isBlockAllocated, DiskSystem.isBlockAllocated_ok hn1, hread]
      split_ifs with full
      · exact ⟨_, _, _, rfl, accessed_insert (b := Block.ofBytes _) aged (Or.inr ⟨missed, evicted⟩) hn1 full
          same later rfl⟩
      · refine ⟨_, _, _, rfl, ⟨aged.usable.congr same fun _ _ => id, aged.same.trans same,
          aged.later.trans later⟩, c1.stamp, Or.inr ⟨missed, evicted⟩, rfl⟩

theorem writeBlock_accessed (h : c.Usable) (hn : n < c.disk.numblocks)
    (length : b.length = c.disk.blocksize.toNat) :
    ∃ c', c.writeBlock n b = .ok (.noError, c') ∧ Accessed c c' n .noError := by
  unfold writeBlock
  cases hc : c.blockmap[n]? with
  | some old =>
      exact ⟨_, rfl,
        accessed_insert (b := { b with dirty := true }) h.aged (Or.inl rfl) hn length ⟨rfl, rfl⟩ le_rfl rfl⟩
  | none =>
      obtain ⟨c1, hevict, aged, evicted⟩ := checkDeleteOldest_aged h
      have hn1 : n < c1.disk.numblocks := by rw [aged.same.1]; exact hn
      have missed : c.stamp n = none := by rw [stamp, hc]; rfl
      simp only [hevict, isBlockAllocated, DiskSystem.isBlockAllocated_ok hn1]
      exact ⟨_, rfl, accessed_insert (b := { b with dirty := true }) aged (Or.inr ⟨missed, evicted⟩) hn1
        (by rw [aged.same.1]; exact length) ⟨rfl, rfl⟩ le_rfl rfl⟩

/-! ## Runs -/

inductive Op where
  | request (r : Request)
  | attach
  | detach
  | notifyAllocate (n : SizeT)
  | notifyDeallocate (n : SizeT)

def Op.InRange (cfg : DiskConfig) : Op → Prop
  | .request r => r.InRange cfg
  | _ => True

/-- The block that `ReadBlock` or `WriteBlock` accesses. -/
def Op.block : Op → Option SizeT
  | .request (.read n) => some n
  | .request (.write n _) => some n
  | _ => none

def perform (c : BufferCache) : Op → Except Fault (ErrorT × BufferCache)
  | .request r => (c.serve r).map fun x => (x.1.1, x.2)
  | .attach => .ok c.attach
  | .detach => c.detach
  | .notifyAllocate n => .ok (c.notifyAllocateBlock n)
  | .notifyDeallocate n => .ok (c.notifyDeallocateBlock n)

/-- The cache and the blocks accessed with success so far, the latest first. -/
structure Traced where
  cache : BufferCache
  recent : List SizeT

def step (s : Traced) (op : Op) : Except Fault (ErrorT × Traced) :=
  (s.cache.perform op).map fun x =>
    (x.1, ⟨x.2, if x.1 = .noError then op.block.toList ++ s.recent else s.recent⟩)

/-- The operation takes block `v` out of the cache to make room for another. -/
def Evicts (c : BufferCache) (op : Op) (v : SizeT) : Prop :=
  op.block ≠ none ∧ c.stamp v ≠ none ∧ ∃ rc c', c.perform op = .ok (rc, c') ∧ c'.stamp v = none

/-- What is evicted is the least recently used of the cached blocks. -/
def EvictsOldest (s : Traced) (op : Op) : Prop :=
  ∀ v, Evicts s.cache op v → Oldest s.recent (s.cache.stamp · ≠ none) v

/-- If something is evicted, no cached block with the time of the least recently used
one has a lower number. -/
def TiesInOrder (s : Traced) (op : Op) : Prop :=
  (∃ v, Evicts s.cache op v) → ∀ b t, Oldest s.recent (s.cache.stamp · ≠ none) b →
    s.cache.stamp b = some t → ∀ m, s.cache.stamp m = some t → b ≤ m

variable {cfg : DiskConfig} {recent : List SizeT} {s s' : Traced} {op : Op}

theorem AfterEviction.fewer {before after : SizeT → Option ℚ} (h : AfterEviction before after)
    {m : SizeT}
    {t : ℚ} (hm : after m = some t) : before m = some t := by
  rcases h with rfl | ⟨w, t', -, rfl⟩
  · exact hm
  · by_cases victim : m = w
    · subst victim
      simp at hm
    · rwa [Function.update_of_ne victim] at hm

theorem Accessed.stamped (access : Accessed c c' n rc) (h : Stamped recent c.stamp c.curtime) :
    Stamped (if rc = .noError then n :: recent else recent) c'.stamp c'.curtime := by
  obtain ⟨stamps, evicted, after⟩ := access.stamps
  have kept : Stamped recent stamps c'.curtime := by
    apply h.mono access.aged.later
    intro m t hm
    rcases evicted with rfl | ⟨-, gone⟩
    · exact hm
    · exact gone.fewer hm
  rw [after]
  split_ifs
  · exact kept.touch n
  · exact kept

/-- What an access removes has the least time, and the least number with it. -/
theorem Accessed.least (access : Accessed c c' n rc) (before : c.stamp v ≠ none)
    (after : c'.stamp v = none) : ∃ t, Least c.stamp v t := by
  obtain ⟨stamps, evicted, result⟩ := access.stamps
  have gone : stamps v = none := by
    rw [result] at after
    split_ifs at after
    · by_cases same : v = n
      · subst same
        simp at after
      · rwa [Function.update_of_ne same] at after
    · exact after
  rcases evicted with rfl | ⟨-, rfl | ⟨w, t, least, rfl⟩⟩
  · exact absurd gone before
  · exact absurd gone before
  · by_cases victim : v = w
    · exact ⟨t, victim ▸ least⟩
    · rw [Function.update_of_ne victim] at gone
      exact absurd gone before

theorem perform_access (h : c.Usable) (range : op.InRange c.disk.toDiskConfig)
    (block : op.block = some n) :
    ∃ rc c', c.perform op = .ok (rc, c') ∧ Accessed c c' n rc := by
  rcases op with (m | ⟨m, b⟩ | m) | _ | _ | m | m <;> cases block
  · obtain ⟨rc, o, c', hread, access⟩ := readBlock_accessed h range
    exact ⟨rc, c', by simp only [perform, serve, hread, Except.map], access⟩
  · obtain ⟨c', hwrite, access⟩ := writeBlock_accessed h range.1 range.2
    exact ⟨.noError, c', by simp only [perform, serve, hwrite, Except.map], access⟩

theorem stamped_of_empty (empty : c.blockmap = ∅) : Stamped recent c.stamp c.curtime :=
  stamped_of_absent fun n => by simp [stamp, empty]

theorem detachLoop_usable (h : c.Usable) {rest : List (SizeT × Block)}
    (members : ∀ e ∈ rest, c.blockmap[e.1]? = some e.2) :
    ∃ c', c.detachLoop rest = .ok (.noError, c') ∧ c'.Usable ∧ c.SameDisk c' ∧ c'.blockmap = ∅ := by
  induction rest generalizing c with
  | nil =>
      refine ⟨{ c with blockmap := ∅ }, rfl, h.congr ⟨rfl, rfl⟩ fun n b hb => ?_, ⟨rfl, rfl⟩, rfl⟩
      simp at hb
  | cons e rest ih =>
      obtain ⟨first, others⟩ := List.forall_mem_cons.mp members
      cases dirty : e.2.dirty with
      | true =>
          obtain ⟨c1, hback, aged, map⟩ := writeBack_aged h first
          obtain ⟨c', hloop, h', same, empty⟩ := ih aged.usable (by rw [map]; exact others)
          refine ⟨c', ?_, h', aged.same.trans same, empty⟩
          simp only [detachLoop, dirty, if_true, hback, ne_eq, not_true, if_false, hloop]
      | false =>
          obtain ⟨c', hloop, rest'⟩ := ih h others
          exact ⟨c', by simpa only [detachLoop, dirty, Bool.false_eq_true, if_false] using hloop, rest'⟩

/-- The other operations only take blocks out of the cache. -/
theorem perform_other (recent : List SizeT) (h : c.Usable) (block : op.block = none) :
    ∃ rc c', c.perform op = .ok (rc, c') ∧ c'.Usable ∧ c.SameDisk c' ∧
      (Stamped recent c.stamp c.curtime → Stamped recent c'.stamp c'.curtime) := by
  rcases op with (m | ⟨m, b⟩ | m) | _ | _ | m | m
  · cases block
  · cases block
  · cases hc : c.blockmap[m]? with
    | none =>
        refine ⟨.noError, c, ?_, h, ⟨rfl, rfl⟩, id⟩
        simp only [perform, serve, flushBlock, hc, Except.map]
    | some b =>
        obtain ⟨c', hremove, aged, gone⟩ := removeBlock_aged h hc
        refine ⟨.noError, c', ?_, aged.usable, aged.same, fun stamped => stamped.mono aged.later ?_⟩
        · simp only [perform, serve, flushBlock, hc, hremove, Except.map]
        · intro k t hk
          by_cases same : k = m
          · subst same
            simp [gone] at hk
          · rwa [gone, Function.update_of_ne same] at hk
  · refine ⟨.noError, { c with blockmap := ∅ }, rfl, h.congr ⟨rfl, rfl⟩ fun n b hb => ?_, ⟨rfl, rfl⟩,
      fun _ => stamped_of_empty rfl⟩
    simp at hb
  · obtain ⟨c', hdetach, h', same, empty⟩ := detachLoop_usable h
      (fun e m => Std.TreeMap.mem_toList_iff_getElem?_eq_some.mp m)
    exact ⟨.noError, c', hdetach, h', same, fun _ => stamped_of_empty empty⟩
  · have same : c.SameDisk (c.notifyAllocateBlock m).2 := notify_keeps PackedBits.setBit c.disk m 1
    exact ⟨_, _, rfl, h.congr same fun _ _ => id, same, id⟩
  · have same : c.SameDisk (c.notifyDeallocateBlock m).2 := notify_keeps PackedBits.clearBit c.disk m 1
    exact ⟨_, _, rfl, h.congr same fun _ _ => id, same, id⟩

/-- The stamps reflect the order of the accesses. -/
structure Tracked (cfg : DiskConfig) (s : Traced) : Prop where
  usable : s.cache.Usable
  config : s.cache.disk.toDiskConfig = cfg
  stamped : Stamped s.recent s.cache.stamp s.cache.curtime

theorem Tracked.step (h : Tracked cfg s) (range : op.InRange cfg) :
    ∃ rc s', BufferCache.step s op = .ok (rc, s') ∧ Tracked cfg s' := by
  obtain ⟨usable, rfl, stamped⟩ := h
  cases block : op.block with
  | some n =>
      obtain ⟨rc, c', ran, access⟩ := perform_access usable range block
      refine ⟨rc, _, by rw [BufferCache.step, ran]; rfl, access.aged.usable, access.aged.same.1, ?_⟩
      simpa only [block, Option.toList_some, List.singleton_append] using access.stamped stamped
  | none =>
      obtain ⟨rc, c', ran, usable', same, still⟩ := perform_other s.recent usable block
      refine ⟨rc, _, by rw [BufferCache.step, ran]; rfl, usable', same.1, ?_⟩
      simpa only [block, Option.toList_none, List.nil_append, ite_self] using still stamped

theorem Tracked.least (h : Tracked cfg s) (range : op.InRange cfg) (evicts : Evicts s.cache op v) :
    ∃ t, Least s.cache.stamp v t := by
  obtain ⟨usable, rfl, -⟩ := h
  obtain ⟨accesses, before, rc, c', ran, after⟩ := evicts
  obtain ⟨n, block⟩ := Option.ne_none_iff_exists'.mp accesses
  obtain ⟨rc1, c1, ran1, access⟩ := perform_access usable range block
  rw [ran1] at ran
  cases ran
  exact access.least before after

theorem Tracked.evictsOldest_iff (h : Tracked cfg s) (range : op.InRange cfg) :
    EvictsOldest s op ↔ TiesInOrder s op := by
  constructor
  · rintro oldest ⟨v, evicts⟩
    obtain ⟨t, least⟩ := h.least range evicts
    exact (h.stamped.oldest_iff least).mp (oldest v evicts)
  · intro ties v evicts
    obtain ⟨t, least⟩ := h.least range evicts
    exact (h.stamped.oldest_iff least).mpr (ties ⟨v, evicts⟩)

theorem tracked_make {d : DiskSystem} (rounds : d.machine.Monotone)
    (geometry : sanityCheckConfig d.toDiskConfig = .noError) (cachesize : SizeT) :
    Tracked d.toDiskConfig ⟨make d cachesize, []⟩ := by
  refine ⟨⟨rounds, geometry, fun n b hb => ?_⟩, rfl, stamped_of_empty rfl⟩
  simp [make] at hb

/-- In a run every eviction takes the least recently used block exactly when, each
time, that block has the least number among those with its access time. -/
theorem replacement_iff (d : DiskSystem) (rounds : d.machine.Monotone)
    (geometry : sanityCheckConfig d.toDiskConfig = .noError) (cachesize : SizeT) (ops : List Op)
    (range : ∀ op ∈ ops, op.InRange d.toDiskConfig) :
    Runs.Along BufferCache.step EvictsOldest ⟨make d cachesize, []⟩ ops ↔
      Runs.Along BufferCache.step TiesInOrder ⟨make d cachesize, []⟩ ops := by
  refine Runs.along_iff (I := Tracked d.toDiskConfig) ?_ ?_ (tracked_make rounds geometry cachesize) range
  · intro s op r s' h legal _ ran
    obtain ⟨rc, s1, ran1, next⟩ := h.step legal
    rw [ran1] at ran
    cases ran
    exact next
  · exact fun s op h legal => h.evictsOldest_iff legal

/-- The cache of a small disk after writes that found room. -/
def written (cachesize : SizeT) (blocks : List SizeT) : Traced where
  cache := { make (DiskSystem.make .small DiskSystem.smallConfig ByteFile.empty) cachesize with
    blockmap := blocks.foldr (fun n m => m.insert n { sevens with lastaccessed := 0, dirty := true }) ∅
    writes := blocks.length }
  recent := blocks

theorem written_entry {cachesize n : SizeT} {blocks : List SizeT} {b : Block}
    (hb : (written cachesize blocks).cache.blockmap[n]? = some b) :
    n ∈ blocks ∧ b = { sevens with lastaccessed := 0, dirty := true } := by
  change (blocks.foldr _ ∅ : Std.TreeMap SizeT Block)[n]? = some b at hb
  induction blocks with
  | nil => simp at hb
  | cons m blocks ih =>
      rw [List.foldr_cons, entry_insert] at hb
      split_ifs at hb with same
      · cases hb
        exact ⟨same ▸ List.mem_cons_self, rfl⟩
      · exact ⟨List.mem_cons_of_mem _ (ih hb).1, (ih hb).2⟩

theorem written_stamp {cachesize n : SizeT} {blocks : List SizeT} {t : ℚ}
    (cached : (written cachesize blocks).cache.stamp n = some t) : n ∈ blocks := by
  obtain ⟨b, hb, -⟩ := Option.map_eq_some_iff.mp cached
  exact (written_entry hb).1

/-- Blocks 3 and 5 tie, and the block used first has the smaller number. -/
theorem replacement_iff_small : Runs.Along BufferCache.step EvictsOldest (written 2 [])
    [.request (.write 3 sevens), .request (.write 5 sevens), .request (.write 7 sevens)] := by
  have range : ∀ op ∈ [Op.request (.write 3 sevens), .request (.write 5 sevens), .request (.write 7 sevens)],
      op.InRange DiskSystem.smallConfig := by
    simp only [List.forall_mem_cons]
    exact ⟨⟨by decide, sevens_length⟩, ⟨by decide, sevens_length⟩, ⟨by decide, sevens_length⟩, by simp⟩
  have one : step (written 2 []) (.request (.write 3 sevens)) = .ok (.noError, written 2 [3]) := rfl
  have two : step (written 2 [3]) (.request (.write 5 sevens)) = .ok (.noError, written 2 [5, 3]) := rfl
  refine (replacement_iff (DiskSystem.make .small DiskSystem.smallConfig ByteFile.empty)
    Machine.small_exact.monotone DiskSystem.smallConfig_accepted 2 _ range).mpr ⟨?_, fun rc s first => ?_⟩
  · rintro ⟨v, -, cached, -⟩
    exact absurd rfl cached
  · rw [show (⟨make (DiskSystem.make .small DiskSystem.smallConfig ByteFile.empty) 2, []⟩ : Traced) =
      written 2 [] from rfl, one] at first
    cases first
    refine ⟨fun _ b t _ hb m hm => ?_, fun rc s second => ?_⟩
    · rw [List.mem_singleton.mp (written_stamp hb), List.mem_singleton.mp (written_stamp hm)]
    · rw [two] at second
      cases second
      refine ⟨fun _ b t oldest _ m hm => ?_, fun _ _ _ => trivial⟩
      obtain rfl : b = 3 := by
        obtain ⟨e, he⟩ := Option.ne_none_iff_exists'.mp oldest.1
        have choice := written_stamp he
        simp only [List.mem_cons, List.not_mem_nil, or_false] at choice
        rcases choice with rfl | rfl
        · exact absurd (oldest.2 3 (Option.some_ne_none (0 : ℚ)) (by decide)) (by decide)
        · rfl
      have choice := written_stamp hm
      simp only [List.mem_cons, List.not_mem_nil, or_false] at choice
      rcases choice with rfl | rfl <;> decide

/-- Blocks 5 and 3 are written without disk traffic in between; the next block drives
out 3, although 5 was used before it. -/
theorem replaces_recent_block : ¬ Runs.Along BufferCache.step EvictsOldest (written 2 [])
    [.request (.write 5 sevens), .request (.write 3 sevens), .request (.write 7 sevens)] := by
  intro all
  have third : EvictsOldest (written 2 [3, 5]) (.request (.write 7 sevens)) :=
    ((all.2 .noError (written 2 [5]) rfl).2 .noError (written 2 [3, 5]) rfl).1
  have usable : (written 2 [3, 5]).cache.Usable := by
    refine ⟨Machine.small_exact.monotone, DiskSystem.smallConfig_accepted, ?_⟩
    intro n b hb
    obtain ⟨mem, rfl⟩ := written_entry hb
    refine ⟨?_, sevens_length⟩
    change n < (64 : SizeT)
    simp only [List.mem_cons, List.not_mem_nil, or_false] at mem
    rcases mem with rfl | rfl <;> decide
  have first : (findOldest (Machine.small.add (written 2 [3, 5]).cache.curtime 1)
      (written 2 [3, 5]).cache.blockmap.toList).map Prod.fst = some 3 := by decide +kernel
  have full : ¬ (written 2 [3, 5]).cache.blockmap.size < (written 2 [3, 5]).cache.cachesize.toNat := by
    decide +kernel
  obtain ⟨⟨n, b⟩, found, three⟩ := Option.map_eq_some_iff.mp first
  obtain rfl : n = 3 := three
  obtain ⟨c1, hremove, aged, gone⟩ := removeBlock_aged usable
    (Std.TreeMap.mem_toList_iff_getElem?_eq_some.mp (findOldest_mem found))
  have victim : (written 2 [3, 5]).cache.checkDeleteOldest = .ok (.noError, c1) := by
    rw [checkDeleteOldest, if_neg full]
    exact found ▸ hremove
  have evicts : Evicts (written 2 [3, 5]).cache (.request (.write 7 sevens)) 3 := by
    have miss : (written 2 [3, 5]).cache.blockmap[(7 : SizeT)]? = none := rfl
    let entered : Block := { sevens with lastaccessed := c1.curtime, dirty := true }
    refine ⟨by simp [Op.block], Option.some_ne_none (0 : ℚ), .noError,
      { c1 with blockmap := c1.blockmap.insert 7 entered, writes := c1.writes + 1 }, ?_, ?_⟩
    · have seven : (7 : SizeT) < c1.disk.numblocks := by
        rw [aged.same.1]
        decide
      simp only [perform, serve, writeBlock, miss, victim, isBlockAllocated,
        DiskSystem.isBlockAllocated_ok seven, Except.map]
      rfl
    · rw [stamp_insert (c := c1) rfl, Function.update_of_ne (by decide), gone, Function.update_self]
  exact absurd ((third 3 evicts).2 5 (Option.some_ne_none (0 : ℚ)) (by decide)) (by decide)

end BufferCache
end BTreeLab
