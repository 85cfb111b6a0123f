import EECS339.TinyDisks

/-!
# The order in which formatting writes

`Attach` writes the blocks in the order of their numbers, so in that order they leave the cache, and
a place in the data file ends up with the last block written there.
-/
namespace BTreeLab
open Words BTreeNode BufferCache

/-! ## Places in the data file -/

namespace DiskSystem

variable {d : DiskSystem} {n : SizeT} {cachesize : SizeT}

theorem blockPos_toNat (offset : d.offset = 0) (n : SizeT) :
    (d.blockPos n).toNat = n.toNat * d.blocksize.toNat % 2 ^ 32 := by
  rw [blockPos, offset, zero_add, BitVec.toNat_mul]

/-- Block `n` takes the whole place of an earlier block or nothing of it. -/
def Aligned (d : DiskSystem) (n : SizeT) : Prop :=
  ∀ m < n, d.blockPos m = d.blockPos n ∨
    (d.blockPos m).toNat + d.blocksize.toNat ≤ (d.blockPos n).toNat ∨
      (d.blockPos n).toNat + d.blocksize.toNat ≤ (d.blockPos m).toNat

theorem aligned_of_below (offset : d.offset = 0) (below : n.toNat * d.blocksize.toNat < 2 ^ 32) :
    d.Aligned n := by
  intro m lt
  have step : (m.toNat + 1) * d.blocksize.toNat ≤ n.toNat * d.blocksize.toNat :=
    Nat.mul_le_mul_right _ (BitVec.lt_def.mp lt)
  rw [Nat.succ_mul] at step
  rw [blockPos_toNat offset, blockPos_toNat offset, Nat.mod_eq_of_lt below, Nat.mod_eq_of_lt (by omega)]
  exact Or.inr (Or.inl step)

theorem aligned_of_dvd (offset : d.offset = 0) (dvd : d.blocksize.toNat ∣ 2 ^ 32) (n : SizeT) :
    d.Aligned n := by
  intro m _
  have multiple (k : SizeT) : d.blocksize.toNat ∣ (d.blockPos k).toNat := by
    rw [blockPos_toNat offset, Nat.dvd_mod_iff dvd]
    exact Nat.dvd_mul_left _ _
  obtain ⟨x, hx⟩ := multiple m
  obtain ⟨y, hy⟩ := multiple n
  rcases lt_trichotomy x y with lt | same | gt
  · have step := Nat.mul_le_mul_left d.blocksize.toNat lt
    rw [Nat.mul_succ] at step
    exact Or.inr (Or.inl (by omega))
  · exact Or.inl (BitVec.eq_of_toNat_eq (by rw [hx, hy, same]))
  · have step := Nat.mul_le_mul_left d.blocksize.toNat gt
    rw [Nat.mul_succ] at step
    exact Or.inr (Or.inr (by omega))

/-- The number of blocks for which the cache has no room; even one of size 0 takes a block. -/
def overflow (d : DiskSystem) (cachesize : SizeT) : Nat :=
  d.numblocks.toNat - max 1 cachesize.toNat

/-- The blocks that leave the cache until the first node is allocated do not overlap in part: two
at most leave it, or the size of a block is a power of two, or they start below 2^32. -/
def WritesWhole (d : DiskSystem) (cachesize : SizeT) : Prop :=
  d.overflow cachesize ≤ 1 ∨ d.blocksize.toNat ∣ 2 ^ 32 ∨
    min (d.numblocks.toNat - 1) (d.overflow cachesize + 1) * d.blocksize.toNat < 2 ^ 32

theorem WritesWhole.aligned (h : d.WritesWhole cachesize) (offset : d.offset = 0) (inside : n < d.numblocks)
    (leaves : n.toNat ≤ d.overflow cachesize + 1) (two : n.toNat ≤ 1 ∨ 2 ≤ d.overflow cachesize) :
    d.Aligned n := by
  rw [BitVec.lt_def] at inside
  have early (first : n.toNat ≤ 1) : d.Aligned n := by
    apply aligned_of_below offset
    have := d.blocksize.isLt
    have := Nat.mul_le_mul_right d.blocksize.toNat first
    omega
  rcases h with room | dvd | below
  · exact early (by omega)
  · exact aligned_of_dvd offset dvd n
  · refine aligned_of_below offset (lt_of_le_of_lt (Nat.mul_le_mul_right _ ?_) below)
    exact le_min (by omega) leaves

/-- A block that the file has to its end is read without a change to the file. -/
theorem readOne_whole (spins : d.numheads * d.blockspertrack ≠ 0) (hn : n < d.numblocks)
    (whole : (d.blockPos n).toNat + d.blocksize.toNat ≤ d.datafile.size) :
    ∃ t d', d.readOne n = .ok (.noError,
        some (Block.ofBytes (d.datafile.content (d.blockPos n).toNat d.blocksize.toNat)), t, d') ∧
      d.Keeps d' ∧ d'.datafile = d.datafile := by
  obtain ⟨t, d1, access, k, file⟩ := modelAccess_ok spins n 1
  have range : ¬ n + 1 > d.numblocks := range_check (by rw [one_toNat]; exact BitVec.lt_def.mp hn)
  refine ⟨t, { d1 with datafile := d.datafile }, ?_, ⟨k.config, k.machine, k.bitmap, le_rfl⟩, rfl⟩
  simp only [readOne, read, if_neg range, access, one_toNat, readLoop, k.isBlockAllocated,
    isBlockAllocated_ok hn, file, k.blockPos, k.config, myread, myreadFrom_enough true whole,
    ByteFile.content_length, ne_eq, not_true, if_false, if_true, List.nil_append, List.getElem?_cons_zero]

end DiskSystem

/-! ## What is written -/

/-- The link of block `n` of a new index. -/
def freshLink (numblocks n : SizeT) : SizeT :=
  if n < 2 then 2 else if n + 1 = numblocks then 0 else n + 1

/-- The bytes are those of block `n` of a new index, as far as the free list goes. -/
def Page (cfg : DiskConfig) (n : SizeT) (bytes : List ByteT) : Prop :=
  ∃ b, BTreeNode.ofBytes cfg.blocksize bytes = .ok b ∧ b.info.freelist = freshLink cfg.numblocks n ∧
    (2 ≤ n → b.info.nodetype = btreeUnallocatedBlock)

/-- The bytes of block `n` or of one behind it. -/
def PageFrom (cfg : DiskConfig) (n : SizeT) (bytes : List ByteT) : Prop :=
  ∃ m, n ≤ m ∧ m < cfg.numblocks ∧ Page cfg m bytes

theorem Page.from_le {cfg : DiskConfig} {m n : SizeT} {bytes : List ByteT} (h : Page cfg n bytes) (le : m ≤ n)
    (inside : n < cfg.numblocks) : PageFrom cfg m bytes := ⟨n, le, inside, h⟩

theorem Page.ne_nil {cfg : DiskConfig} {n : SizeT} {bytes : List ByteT} (h : Page cfg n bytes) :
    bytes ≠ [] := by
  rintro rfl
  obtain ⟨b, read, -⟩ := h
  cases read

namespace BufferCache

variable {d : DiskSystem} {c c' : BufferCache} {n : SizeT} {b : Block} {p i : Nat}

/-- Block `n` waits in the cache to be written out. -/
def Waits (c : BufferCache) (n : SizeT) (b : Block) : Prop := c.blockmap[n]? = some b ∧ b.dirty = true

/-- The place of block `n` in the data file holds the block or one behind it, to its end. -/
def Filed (d : DiskSystem) (c : BufferCache) (n : SizeT) : Prop :=
  PageFrom d.toDiskConfig n
      (c.disk.datafile.content (c.disk.blockPos n).toNat c.disk.blocksize.toNat) ∧
    (c.disk.blockPos n).toNat + c.disk.blocksize.toNat ≤ c.disk.datafile.size

/-- The blocks below `i` have been written, and those from `p` on wait in the cache, in the order
of their numbers. -/
structure Queued (d : DiskSystem) (c : BufferCache) (p i : Nat) : Prop where
  usable : c.Usable
  config : c.disk.toDiskConfig = d.toDiskConfig
  waits : ∀ n b, c.Waits n b →
    p ≤ n.toNat ∧ n.toNat < i ∧ Page d.toDiskConfig n b.data ∧ b.lastaccessed ≤ c.curtime
  clean : ∀ (n : SizeT) b, c.blockmap[n]? = some b → b.dirty = false →
    n.toNat < p ∧ PageFrom d.toDiskConfig n b.data
  cached : ∀ n : SizeT, p ≤ n.toNat → n.toNat < i → ∃ b, c.Waits n b
  ordered : ∀ m n b e, m < n → c.Waits m b → c.Waits n e → b.lastaccessed ≤ e.lastaccessed
  left : ∀ n : SizeT, n.toNat < p → Filed d c n

/-- What waits longest is the block with the least number. -/
theorem Queued.oldest (h : Queued d c p i) (waits : c.Waits n b)
    (least : Recency.Least c.stamp n b.lastaccessed) : n.toNat = p := by
  obtain ⟨lo, hi, -⟩ := h.waits n b waits
  by_contra ne
  have first : (BitVec.ofNat 32 p).toNat = p := by
    rw [BitVec.toNat_ofNat, Nat.mod_eq_of_lt (lt_of_le_of_lt lo n.isLt)]
  obtain ⟨e, he⟩ := h.cached (BitVec.ofNat 32 p) first.ge (by omega)
  have lt : BitVec.ofNat 32 p < n := by
    rw [BitVec.lt_def, first]
    omega
  have older := h.ordered _ n e b lt he waits
  rcases least.2 (BitVec.ofNat 32 p) e.lastaccessed (by rw [stamp, he.1, Option.map_some]) with before | tie
  · exact absurd older (not_le.mpr before)
  · exact absurd tie.2 (not_le.mpr lt)

/-- An entry goes, and the blocks from `q` on are those that still wait. -/
theorem Queued.erase {q : Nat} (h : Queued d c p i) (map : c'.blockmap = c.blockmap.erase n)
    (same : c.SameDisk c') (later : c.curtime ≤ c'.curtime) (le : p ≤ q)
    (waiting : ∀ m : SizeT, q ≤ m.toNat ↔ p ≤ m.toNat ∧ m ≠ n)
    (left : ∀ m : SizeT, m.toNat < q → Filed d c' m) : Queued d c' q i := by
  have fewer (m : SizeT) (e : Block) (he : c'.blockmap[m]? = some e) : m ≠ n ∧ c.blockmap[m]? = some e := by
    rw [map, entry_erase] at he
    split_ifs at he with gone
    exact ⟨gone, he⟩
  have waits (m : SizeT) (e : Block) (he : c'.Waits m e) : m ≠ n ∧ c.Waits m e :=
    ⟨(fewer m e he.1).1, (fewer m e he.1).2, he.2⟩
  refine ⟨h.usable.congr same fun m e he => (fewer m e he).2, same.1.trans h.config, ?_, ?_, ?_, ?_, left⟩
  · intro m e he
    obtain ⟨other, old⟩ := waits m e he
    obtain ⟨lo, hi, page, past⟩ := h.waits m e old
    exact ⟨(waiting m).mpr ⟨lo, other⟩, hi, page, past.trans later⟩
  · intro m e he clean
    obtain ⟨before, page⟩ := h.clean m e (fewer m e he).2 clean
    exact ⟨before.trans_le le, page⟩
  · intro m lo hi
    obtain ⟨lo', other⟩ := (waiting m).mp lo
    obtain ⟨e, entry, dirty⟩ := h.cached m lo' hi
    exact ⟨e, by rw [map, entry_erase, if_neg other]; exact entry, dirty⟩
  · intro m m' e e' lt he he'
    exact h.ordered m m' e e' lt (waits m e he).2 (waits m' e' he').2

/-- A clean block is just dropped. -/
theorem Queued.drop (h : Queued d c p i) (entry : c.blockmap[n]? = some b) (clean : b.dirty = false) :
    ∃ c', c.removeBlock n b = .ok (.noError, c') ∧ Queued d c' p i := by
  obtain ⟨before, -⟩ := h.clean n b entry clean
  refine ⟨{ c with blockmap := c.blockmap.erase n }, ?_,
    h.erase rfl ⟨rfl, rfl⟩ le_rfl le_rfl (fun m => ⟨fun lo => ⟨lo, ?_⟩, And.left⟩) h.left⟩
  · simp only [removeBlock, clean, Bool.false_eq_true, if_false]
  · rintro rfl
    omega

/-- Writing out the first block leaves in every place before it the last block written there. -/
theorem Queued.save (h : Queued d c p i) (waits : c.Waits n b) (first : n.toNat = p)
    (aligned : c.disk.Aligned n) :
    ∃ c', c.removeBlock n b = .ok (.noError, c') ∧ Queued d c' (p + 1) i := by
  obtain ⟨hn, length⟩ := h.usable.inRange n b waits.1
  obtain ⟨-, -, page, -⟩ := h.waits n b waits
  obtain ⟨t, d', hwrite, k, file⟩ := DiskSystem.writeOne_eq (h.usable.spins hn) hn length
  have later : c.curtime ≤ d'.machine.add c.curtime t := by
    rw [k.machine]
    exact h.usable.rounds.add _ _ (DiskSystem.writeOne_nonneg (h.usable.forward hn) hwrite)
  have inside : n < d.numblocks := by rw [← h.config]; exact hn
  refine ⟨{ c with
      disk := d', curtime := d'.machine.add c.curtime t, diskwrites := c.diskwrites + 1,
      blockmap := c.blockmap.erase n },
    by simp only [removeBlock, waits.2, if_true, writeBack, hwrite, ne_eq, not_true, if_false],
    h.erase rfl (.of_keeps k rfl) later p.le_succ (fun m => ?_) fun m lt => ?_⟩
  · have other : m ≠ n ↔ m.toNat ≠ n.toNat := BitVec.toNat_ne
    rw [other]
    omega
  · simp only [Filed, k.blockPos, k.config, file]
    have ends := ByteFile.write_size_ge c.disk.datafile (c.disk.blockPos n).toNat b.data page.ne_nil
    have written := ByteFile.content_write_same c.disk.datafile (c.disk.blockPos n).toNat b.data
    rw [show b.data.length = c.disk.blocksize.toNat from length] at ends written
    by_cases last : m = n
    · subst last
      exact ⟨by rw [written]; exact page.from_le le_rfl inside, ends⟩
    · have before : m < n := by
        have ne : m.toNat ≠ n.toNat := fun same => last (BitVec.eq_of_toNat_eq same)
        rw [BitVec.lt_def]
        omega
      obtain ⟨old, reach⟩ := h.left m (by rw [BitVec.lt_def, first] at before; exact before)
      rcases aligned m before with same | apart
      · rw [same, written]
        exact ⟨page.from_le before.le inside, ends⟩
      · rw [ByteFile.content_write_disjoint (by rw [show b.data.length = _ from length]; exact apart)]
        exact ⟨old, reach.trans (ByteFile.size_le_write _ _ _)⟩

theorem Queued.evict (h : Queued d c p i)
    (aligned : ∀ n : SizeT, n.toNat = p → p < i → c.cachesize.toNat ≤ c.blockmap.size → c.disk.Aligned n) :
    ∃ c' q, c.checkDeleteOldest = .ok (.noError, c') ∧ Queued d c' q i ∧
      (q = p ∨ (q = p + 1 ∧ p < i ∧ c.cachesize.toNat ≤ c.blockmap.size)) := by
  unfold checkDeleteOldest
  split_ifs with room
  · exact ⟨c, p, rfl, h, Or.inl rfl⟩
  · cases found : findOldest (c.disk.machine.add c.curtime 1) c.blockmap.toList with
    | none => exact ⟨c, p, rfl, h, Or.inl rfl⟩
    | some e =>
        have entry := Std.TreeMap.mem_toList_iff_getElem?_eq_some.mp (findOldest_mem found)
        cases dirty : e.2.dirty with
        | false =>
            obtain ⟨c', dropped, h'⟩ := h.drop entry dirty
            exact ⟨c', p, dropped, h', Or.inl rfl⟩
        | true =>
            have waits : c.Waits e.1 e.2 := ⟨entry, dirty⟩
            have first := h.oldest waits (findOldest_least found)
            have full := not_lt.mp room
            have more : p < i := first ▸ (h.waits e.1 e.2 waits).2.1
            obtain ⟨c', saved, h'⟩ := h.save waits first (aligned e.1 first more full)
            exact ⟨c', p + 1, saved, h', Or.inr ⟨rfl, more, full⟩⟩

/-- The next block joins the queue. -/
theorem Queued.push (h : Queued d c p i) (le : p ≤ i) (number : n.toNat = i) (hn : n < d.numblocks)
    (length : b.length = d.blocksize.toNat) (page : Page d.toDiskConfig n b.data)
    (disk : c'.disk = c.disk) (clock : c'.curtime = c.curtime)
    (map : c'.blockmap = c.blockmap.insert n { b with lastaccessed := c.curtime, dirty := true }) :
    Queued d c' p (i + 1) := by
  have same : c.SameDisk c' := by
    rw [SameDisk, disk]
    exact ⟨rfl, rfl⟩
  have waits (m : SizeT) (e : Block) (he : c'.Waits m e) :
      (m = n ∧ e = { b with lastaccessed := c.curtime, dirty := true }) ∨ (m ≠ n ∧ c.Waits m e) := by
    obtain ⟨entry, dirty⟩ := he
    rw [map, entry_insert] at entry
    split_ifs at entry with new
    · cases entry
      exact Or.inl ⟨new, rfl⟩
    · exact Or.inr ⟨new, entry, dirty⟩
  refine ⟨insert_usable (b := { b with lastaccessed := c.curtime, dirty := true }) h.usable
    (by rw [h.config]; exact hn) (by rw [h.config]; exact length) same map, same.1.trans h.config,
    ?_, ?_, ?_, ?_, by simpa only [Filed, disk] using h.left⟩
  · intro m e he
    rcases waits m e he with ⟨rfl, rfl⟩ | ⟨-, old⟩
    · exact ⟨number ▸ le, by omega, page, clock.ge⟩
    · obtain ⟨lo, hi, page', past⟩ := h.waits m e old
      exact ⟨lo, hi.trans (Nat.lt_succ_self i), page', clock ▸ past⟩
  · intro m e he clean
    rw [map, entry_insert] at he
    split_ifs at he
    · cases he
      cases clean
    · exact h.clean m e he clean
  · intro m lo hi
    by_cases new : m = n
    · exact ⟨_, by rw [map, entry_insert, if_pos new], rfl⟩
    · have ne : m.toNat ≠ n.toNat := fun same => new (BitVec.eq_of_toNat_eq same)
      obtain ⟨e, entry, dirty⟩ := h.cached m lo (by omega)
      exact ⟨e, by rw [map, entry_insert, if_neg new]; exact entry, dirty⟩
  · intro m m' e e' lt he he'
    rcases waits m e he with ⟨rfl, rfl⟩ | ⟨-, old⟩ <;> rcases waits m' e' he' with ⟨rfl, rfl⟩ | ⟨-, old'⟩
    · exact absurd lt (lt_irrefl _)
    · have hi := (h.waits m' e' old').2.1
      rw [BitVec.lt_def] at lt
      omega
    · exact (h.waits m e old).2.2.2
    · exact h.ordered m m' e e' lt old old'

/-- A block that has left the cache is read back. -/
theorem Queued.load (h : Queued d c p i) (before : n.toNat < p) (hn : n < d.numblocks)
    (absent : c.blockmap[n]? = none)
    (aligned : ∀ n : SizeT, n.toNat = p → p < i → c.disk.Aligned n) :
    ∃ b c' q, c.readBlock n = .ok (.noError, some b, c') ∧ PageFrom d.toDiskConfig n b.data ∧
      Queued d c' q i ∧ (q = p ∨ q = p + 1) := by
  obtain ⟨c1, q, hevict, h1, moved⟩ := h.evict fun n first more _ => aligned n first more
  have le : p ≤ q := by omega
  obtain ⟨page, whole⟩ := h1.left n (before.trans_le le)
  have hn1 : n < c1.disk.numblocks := by rw [h1.config]; exact hn
  obtain ⟨t, d', hread, k, file⟩ := DiskSystem.readOne_whole (h1.usable.spins hn1) hn1 whole
  have later : c1.curtime ≤ d'.machine.add c1.curtime t := by
    rw [k.machine]
    exact h1.usable.rounds.add _ _ (DiskSystem.readOne_nonneg (h1.usable.forward hn1) hread)
  let b : Block := { Block.ofBytes (c1.disk.datafile.content (c1.disk.blockPos n).toNat
    c1.disk.blocksize.toNat) with lastaccessed := d'.machine.add c1.curtime t, dirty := false }
  have length : b.length = c1.disk.blocksize.toNat := ByteFile.content_length _ _ _
  let c' : BufferCache := { c1 with
    disk := d', curtime := d'.machine.add c1.curtime t, diskreads := c1.diskreads + 1,
    blockmap := c1.blockmap.insert n b, reads := c1.reads + 1 }
  have waits (m : SizeT) (e : Block) (he : c'.Waits m e) : m ≠ n ∧ c1.Waits m e := by
    obtain ⟨entry, dirty⟩ := he
    rw [entry_insert] at entry
    split_ifs at entry with new
    · cases entry
      cases dirty
    · exact ⟨new, entry, dirty⟩
  refine ⟨b, c', q, ?_, page, ⟨insert_usable (b := b) h1.usable hn1 length (.of_keeps k rfl) rfl,
    k.config.trans h1.config, ?_, ?_, ?_, ?_, ?_⟩, by omega⟩
  · simp only [readBlock, absent, hevict, isBlockAllocated, DiskSystem.isBlockAllocated_ok hn1, hread, b, c']
  · intro m e he
    obtain ⟨lo, hi, page', past⟩ := h1.waits m e (waits m e he).2
    exact ⟨lo, hi, page', past.trans later⟩
  · intro m e he clean
    rw [entry_insert] at he
    split_ifs at he with new
    · cases he
      exact ⟨new ▸ before.trans_le le, new ▸ page⟩
    · exact h1.clean m e he clean
  · intro m lo hi
    have other : m ≠ n := by
      rintro rfl
      omega
    obtain ⟨e, entry, dirty⟩ := h1.cached m lo hi
    exact ⟨e, by rw [entry_insert, if_neg other]; exact entry, dirty⟩
  · intro m m' e e' lt he he'
    exact h1.ordered m m' e e' lt (waits m e he).2 (waits m' e' he').2
  · simpa only [Filed, c', k.blockPos, k.config, file] using h1.left

theorem Queued.aligned (h : Queued d c p i) (here : d.Aligned n) : c.disk.Aligned n := by
  unfold DiskSystem.Aligned at here ⊢
  simp only [DiskSystem.blockPos, h.config] at here ⊢
  exact here

/-! ## Filling the cache -/

/-- Nothing has been read yet, and the cache keeps what it has room for. -/
structure Filling (d : DiskSystem) (cachesize : SizeT) (c : BufferCache) (p i : Nat) : Prop where
  queue : Queued d c p i
  capacity : c.cachesize = cachesize
  dirty : ∀ (n : SizeT) b, c.blockmap[n]? = some b → b.dirty = true
  few : p ≤ i - max 1 cachesize.toNat

variable {cachesize : SizeT}

theorem Filling.size_le (h : Filling d cachesize c p i) : c.blockmap.size ≤ i - p := by
  have inside : c.blockmap.keys.map BitVec.toNat ⊆ List.range' p (i - p) := by
    intro k mem
    obtain ⟨n, hn, rfl⟩ := List.mem_map.mp mem
    obtain ⟨b, entry⟩ := Option.isSome_iff_exists.mp
      ((Std.TreeMap.isSome_getElem?_iff_mem (t := c.blockmap)).mpr (Std.TreeMap.mem_keys.mp hn))
    obtain ⟨lo, hi, -⟩ := h.queue.waits n b ⟨entry, h.dirty n b entry⟩
    rw [List.mem_range'_1]
    omega
  have distinct : (c.blockmap.keys.map BitVec.toNat).Nodup :=
    Std.TreeMap.nodup_keys.map fun a b same => BitVec.eq_of_toNat_eq same
  have short := (distinct.subperm inside).length_le
  rwa [List.length_map, List.length_range', Std.TreeMap.length_keys] at short

theorem Filling.write (h : Filling d cachesize c p i) (whole : d.WritesWhole cachesize)
    (offset : d.offset = 0) (number : n.toNat = i) (hn : n < d.numblocks)
    (length : b.length = d.blocksize.toNat) (page : Page d.toDiskConfig n b.data) :
    ∃ c' q, c.writeBlock n b = .ok (.noError, c') ∧ Filling d cachesize c' q (i + 1) := by
  have absent : c.blockmap[n]? = none := by
    cases entry : c.blockmap[n]? with
    | none => rfl
    | some e =>
        obtain ⟨-, hi, -⟩ := h.queue.waits n e ⟨entry, h.dirty n e entry⟩
        omega
  have few := h.few
  have size := h.size_le
  have last := BitVec.lt_def.mp hn
  obtain ⟨c1, q, hevict, h1, moved⟩ := h.queue.evict fun m first more full => by
    rw [h.capacity] at full
    have out : m.toNat < d.overflow cachesize := by
      rw [DiskSystem.overflow]
      omega
    exact h.queue.aligned (whole.aligned offset (BitVec.lt_def.mpr (by omega)) (by omega) (by omega))
  rw [h.capacity] at moved
  obtain ⟨ticks, fewer, -⟩ := checkDeleteOldest_inv hevict
  let b' : Block := { b with lastaccessed := c1.curtime, dirty := true }
  refine ⟨{ c1 with blockmap := c1.blockmap.insert n b', writes := c1.writes + 1 }, q, ?_,
    h1.push (by omega) number hn length page rfl rfl rfl, ticks.cachesize.trans h.capacity, ?_, by omega⟩
  · have hn1 : n < c1.disk.numblocks := by rw [h1.config]; exact hn
    simp only [writeBlock, absent, hevict, isBlockAllocated, DiskSystem.isBlockAllocated_ok hn1, b']
  · intro m e he
    rw [entry_insert] at he
    split_ifs at he
    · cases he
      rfl
    · exact h.dirty m e (fewer m e he)

theorem Filling.notify (h : Filling d cachesize c p i) (n : SizeT) :
    Filling d cachesize (c.notifyAllocateBlock n).2 p i := by
  have same : c.SameDisk (c.notifyAllocateBlock n).2 := notify_keeps PackedBits.setBit c.disk n 1
  obtain ⟨⟨usable, config, waits, clean, cached, ordered, left⟩, capacity, dirty, few⟩ := h
  refine ⟨⟨usable.congr same fun _ _ => id, same.1.trans config, waits, clean, cached, ordered, ?_⟩,
    capacity, dirty, few⟩
  have file : (c.notifyAllocateBlock n).2.disk.datafile = c.disk.datafile :=
    notify_datafile PackedBits.setBit c.disk n 1
  simpa only [Filed, file, DiskSystem.blockPos, same.1] using left

theorem filling_make (rounds : d.machine.Monotone) (geometry : sanityCheckConfig d.toDiskConfig = .noError)
    (cachesize : SizeT) : Filling d cachesize (make d cachesize) 0 0 := by
  have nothing (n : SizeT) (b : Block) (entry : (make d cachesize).blockmap[n]? = some b) : False := by
    simp [make] at entry
  refine ⟨⟨(tracked_make rounds geometry cachesize).usable, rfl, fun n b he => (nothing n b he.1).elim,
    fun n b he => (nothing n b he).elim, fun n _ hi => absurd hi (Nat.not_lt_zero _),
    fun m n b e _ he => (nothing m b he.1).elim, fun n lt => absurd lt (Nat.not_lt_zero _)⟩, rfl,
    fun n b he => (nothing n b he).elim, Nat.zero_le _⟩

theorem Filling.serialize (h : Filling d cachesize c p i) (whole : d.WritesWhole cachesize)
    (offset : d.offset = 0) (room : 28 ≤ d.blocksize.toNat) (number : n.toNat = i) (hn : n < d.numblocks)
    {node : BTreeNode} (sized : node.WellSized d.blocksize) (fresh : Nat → ByteT)
    (link : node.info.freelist = freshLink d.numblocks n)
    (free : 2 ≤ n → node.info.nodetype = btreeUnallocatedBlock) :
    ∃ c' q, node.serialize fresh c n = .ok (.noError, c') ∧ Filling d cachesize c' q (i + 1) := by
  obtain ⟨block, image, length, back⟩ := BTreeNode.toBlock_ok fresh sized room
  have page : Page d.toDiskConfig n block.data :=
    ⟨node.stored, back, by rw [BTreeNode.stored_info, link], by rw [BTreeNode.stored_info]; exact free⟩
  obtain ⟨c', q, written, h'⟩ := h.write whole offset number hn length page
  exact ⟨c', q, by rw [serialize_eq (by rw [h.queue.config]; exact sized) image, written], h'⟩

end BufferCache

namespace BTreeIndex

variable {d : DiskSystem} {c : BufferCache} {cachesize : SizeT} {p i : Nat} {u : Memory}

theorem filling_freeNodes (whole : d.WritesWhole cachesize) (offset : d.offset = 0)
    (room : 28 ≤ d.blocksize.toNat) (keysize valuesize : SizeT) {n : SizeT} (two : 2 ≤ n) (count : Nat)
    (h : Filling d cachesize c p n.toNat) (last : n.toNat + count = d.numblocks.toNat) :
    ∃ c' q, writeFreeNodes u 0 keysize valuesize c n count = .ok (.noError, c') ∧
      Filling d cachesize c' q d.numblocks.toNat := by
  induction count generalizing c p n with
  | zero => exact ⟨c, p, rfl, last ▸ h⟩
  | succ count ih =>
      obtain ⟨inside, -⟩ := DiskSystem.lt_numblocks (d := d) last.le
      have next : (n + 1).toNat = n.toNat + 1 := by
        have := d.numblocks.isLt
        exact succ_toNat (n := count) (by omega)
      obtain ⟨sized, -⟩ := newfreenode_ok (c := c) keysize valuesize n
      have link : (newfreenode c 0 keysize valuesize n).info.freelist = freshLink d.numblocks n := by
        rw [freshLink, if_neg (not_lt.mpr two)]
        simp only [newfreenode, getNumBlocks, h.queue.config]
      obtain ⟨c1, q, written, h1⟩ := h.serialize whole offset room rfl inside
        (by rw [← h.queue.config]; exact sized) (u.array n) link fun _ => rfl
      rw [← next] at h1
      obtain ⟨c2, q', loop, h2⟩ := ih (by rw [BitVec.le_def] at two ⊢; omega) h1 (by omega)
      refine ⟨c2, q', ?_, h2⟩
      simp only [writeFreeNodes, written, Runs.ok_bind, ne_eq, not_true, if_false, loop]

/-- Formatting writes every block once. -/
theorem filling_create (rounds : d.machine.Monotone) (made : d.toDiskConfig.Made)
    (whole : d.WritesWhole cachesize) (room : 28 ≤ d.blocksize.toNat) (three : 3 ≤ d.numblocks.toNat)
    (keysize valuesize : SizeT) :
    ∃ c' p, create u 0 keysize valuesize (BufferCache.make d cachesize) = .ok (.noError, c') ∧
      Filling d cachesize c' p d.numblocks.toNat := by
  have zero : (0 : SizeT) < d.numblocks := BitVec.lt_def.mpr (by simp; omega)
  have one : (1 : SizeT) < d.numblocks := BitVec.lt_def.mpr (by simp; omega)
  have h1 := (filling_make rounds made.geometry cachesize).notify 0
  set c1 := ((BufferCache.make d cachesize).notifyAllocateBlock 0).2 with hc1
  obtain ⟨c2, p2, super, h2⟩ := h1.serialize whole made.offset room (n := 0) rfl zero
    (by rw [← h1.queue.config]; exact (newsuperblock_ok (c := c1) keysize valuesize).1) (u.array 0) rfl
    fun two => absurd two (by decide)
  have h3 := h2.notify 1
  set c3 := (c2.notifyAllocateBlock 1).2 with hc3
  obtain ⟨c4, p4, root, h4⟩ := h3.serialize whole made.offset room (n := 1) rfl one
    (by rw [← h3.queue.config]; exact (newrootnode_ok (c := c3) keysize valuesize).1) (u.array 1) rfl
    fun two => absurd two (by decide)
  obtain ⟨c5, p5, loop, h5⟩ := filling_freeNodes (u := u) whole made.offset room keysize valuesize (n := 2)
    le_rfl (d.numblocks.toNat - 2) h4 (by simp; omega)
  refine ⟨c5, p5, ?_, h5⟩
  have count : c4.getNumBlocks.toNat - (2 : SizeT).toNat = d.numblocks.toNat - 2 := by
    rw [getNumBlocks, h4.queue.config]
    rfl
  simp only [create]
  rw [show (0 : SizeT) + 1 = 1 from rfl, show (0 : SizeT) + 2 = 2 from rfl, ← hc1]
  simp only [super, Runs.ok_bind, ne_eq, not_true, if_false, ← hc3, root, count, loop]

end BTreeIndex

/-! ## Reading behind it -/

namespace BufferCache

variable {d : DiskSystem} {c : BufferCache} {cachesize n : SizeT} {b : Block} {p : Nat}

/-- Every block behind the root holds the bytes of its own or of a later block, and can be read. -/
structure Delivers (d : DiskSystem) (c : BufferCache) : Prop where
  usable : c.Usable
  config : c.disk.toDiskConfig = d.toDiskConfig
  holds : ∀ n, 2 ≤ n → n < d.numblocks → PageFrom d.toDiskConfig n (c.logical n)
  reads : ∀ n, 2 ≤ n → n < d.numblocks → ∃ b c', c.readBlock n = .ok (.noError, some b, c') ∧
    c'.Usable ∧ c.SameDisk c' ∧ PageFrom d.toDiskConfig n b.data

theorem readBlock_hit (h : c.Usable) (entry : c.blockmap[n]? = some b) :
    ∃ c', c.readBlock n = .ok (.noError, some b, c') ∧ c'.Usable ∧ c.SameDisk c' ∧
      c'.blockmap = c.blockmap.insert n { b with lastaccessed := c.curtime } := by
  obtain ⟨rc, o, c', hread, access⟩ := readBlock_accessed h (h.inRange n b entry).1
  simp only [readBlock, entry, Except.ok.injEq, Prod.mk.injEq] at hread
  obtain ⟨rfl, rfl, rfl⟩ := hread
  exact ⟨_, by simp only [readBlock, entry], access.aged.usable, access.aged.same, rfl⟩

/-- No block has left the cache. -/
theorem delivers_of_cached (usable : c.Usable) (config : c.disk.toDiskConfig = d.toDiskConfig)
    (all : ∀ n < d.numblocks, ∃ b, c.blockmap[n]? = some b ∧ Page d.toDiskConfig n b.data) :
    Delivers d c := by
  refine ⟨usable, config, fun n _ inside => ?_, fun n _ inside => ?_⟩
  · obtain ⟨b, entry, page⟩ := all n inside
    rw [logical_of_cached entry]
    exact page.from_le le_rfl inside
  · obtain ⟨b, entry, page⟩ := all n inside
    obtain ⟨c', hread, usable', same, -⟩ := readBlock_hit usable entry
    exact ⟨b, c', hread, usable', same, page.from_le le_rfl inside⟩

theorem Queued.entry_page (h : Queued d c p d.numblocks.toNat) (entry : c.blockmap[n]? = some b) :
    PageFrom d.toDiskConfig n b.data := by
  cases dirty : b.dirty with
  | false => exact (h.clean n b entry dirty).2
  | true =>
      obtain ⟨-, hi, page, -⟩ := h.waits n b ⟨entry, dirty⟩
      exact page.from_le le_rfl (BitVec.lt_def.mpr hi)

theorem Queued.absent_lt {i : Nat} (h : Queued d c p i) (absent : c.blockmap[n]? = none)
    (inside : n.toNat < i) : n.toNat < p := by
  by_contra ge
  obtain ⟨b, entry, -⟩ := h.cached n (not_lt.mp ge) inside
  rw [absent] at entry
  cases entry

theorem Queued.delivers (h : Queued d c p d.numblocks.toNat)
    (aligned : ∀ n : SizeT, n.toNat = p → 3 ≤ p → n < d.numblocks → c.disk.Aligned n) : Delivers d c := by
  refine ⟨h.usable, h.config, fun n two inside => ?_, fun n two inside => ?_⟩
  · cases entry : c.blockmap[n]? with
    | some b =>
        rw [logical_of_cached entry]
        exact h.entry_page entry
    | none =>
        have inside' : n < c.disk.numblocks := by rw [h.config]; exact inside
        rw [logical_of_not_cached entry, DiskSystem.blocks, if_pos inside']
        exact (h.left n (h.absent_lt entry (BitVec.lt_def.mp inside))).1
  · cases entry : c.blockmap[n]? with
    | some b =>
        obtain ⟨c', hread, usable, same, -⟩ := readBlock_hit h.usable entry
        exact ⟨b, c', hread, usable, same, h.entry_page entry⟩
    | none =>
        have before := h.absent_lt entry (BitVec.lt_def.mp inside)
        rw [BitVec.le_def] at two
        have two' : 2 ≤ n.toNat := two
        obtain ⟨b, c', q, hread, page, h', -⟩ := h.load before inside entry fun m first more =>
          aligned m first (by omega) (BitVec.lt_def.mpr (by omega))
        obtain ⟨rc, o, c1, hread', access⟩ :=
          readBlock_accessed h.usable (n := n) (by rw [h.config]; exact inside)
        rw [hread] at hread'
        cases hread'
        exact ⟨b, c', hread, h'.usable, access.aged.same, page⟩

/-- Mounting reads block 0, which may be a later one by now. -/
theorem Filling.mount (h : Filling d cachesize c p d.numblocks.toNat) (whole : d.WritesWhole cachesize)
    (offset : d.offset = 0) (some' : 0 < d.numblocks) :
    ∃ b c', c.readBlock 0 = .ok (.noError, some b, c') ∧ PageFrom d.toDiskConfig 0 b.data ∧
      Delivers d c' := by
  have few := h.few
  cases entry : c.blockmap[(0 : SizeT)]? with
  | some b =>
      obtain ⟨lo, -, page, -⟩ := h.queue.waits 0 b ⟨entry, h.dirty 0 b entry⟩
      obtain ⟨c', hread, usable, same, map⟩ := readBlock_hit h.queue.usable entry
      refine ⟨b, c', hread, page.from_le le_rfl some',
        delivers_of_cached usable (same.1.trans h.queue.config) fun n inside => ?_⟩
      by_cases first : n = 0
      · subst first
        exact ⟨{ b with lastaccessed := c.curtime }, by rw [map, entry_insert, if_pos rfl], page⟩
      · obtain ⟨e, waits⟩ := h.queue.cached n (lo.trans (Nat.zero_le _)) (BitVec.lt_def.mp inside)
        exact ⟨e, by rw [map, entry_insert, if_neg first]; exact waits.1,
          (h.queue.waits n e waits).2.2.1⟩
  | none =>
      have before := h.queue.absent_lt entry (BitVec.lt_def.mp some')
      obtain ⟨b, c', q, hread, page, h', moved⟩ := h.queue.load before some' entry fun m first more =>
        h.queue.aligned (whole.aligned offset (BitVec.lt_def.mpr (by omega))
          (by rw [DiskSystem.overflow]; omega) (by rw [DiskSystem.overflow]; omega))
      refine ⟨b, c', hread, page, h'.delivers fun m first three inside => h'.aligned ?_⟩
      exact whole.aligned offset inside (by rw [DiskSystem.overflow]; omega)
        (by rw [DiskSystem.overflow]; omega)

end BufferCache

end BTreeLab
