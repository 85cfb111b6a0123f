import EECS339.Lib.Paging
import EECS339.Traffic

/-!
# Transfers without a limit

What the disk has to do for a cache of any size, held against a cache that never evicts. The
limit only adds flushes that nobody asked for.
-/
namespace BTreeLab.BufferCache
open Paging (Call Cache)
open Paging.Cache (Ahead Early)

def Op.call : Op → List (Call SizeT)
  | .request (.read n) => [.read n]
  | .request (.write n _) => [.write n]
  | .request (.flush n) => [.flush n]
  | .attach => [.forget]
  | .detach => [.flushAll]
  | _ => []

/-- The calls of the operations; the notifications are none. -/
def calls (ops : List Op) : List (Call SizeT) := ops.flatMap Op.call

/-- The blocks and the counters, without contents and times. -/
structure Accounts (c : BufferCache) (a : Cache SizeT) : Prop where
  held : ∀ n : SizeT, n ∈ a.held ↔ c.blockmap[n]?.isSome = true
  dirty : ∀ n : SizeT, n ∈ a.dirty ↔ c.blockmap[n]?.any Block.dirty = true
  loads : c.diskreads = .ofNat 32 a.loads
  stores : c.diskwrites = .ofNat 32 a.stores

variable {c c' : BufferCache} {a : Cache SizeT} {n : SizeT} {b : Block} {rc : ErrorT} {op : Op}
  {ops : List Op}

/-! ## Counting entries -/

theorem card_entries (m : Std.TreeMap SizeT Block) (p : Block → Bool) {s : Finset SizeT}
    (keys : ∀ n : SizeT, n ∈ s ↔ m[n]?.any p = true) : s.card = m.toList.countP fun e => p e.2 := by
  have distinct : ((m.toList.filter fun e => p e.2).map Prod.fst).Nodup := by
    refine List.Nodup.sublist (List.filter_sublist.map Prod.fst) ?_
    refine List.pairwise_map.mpr ((Std.TreeMap.distinct_keys_toList (t := m)).imp fun differ same => ?_)
    rw [same] at differ
    exact differ Std.ReflCmp.compare_self
  have same : s = ((m.toList.filter fun e => p e.2).map Prod.fst).toFinset := by
    ext n
    rw [keys, List.mem_toFinset, List.mem_map, Option.any_eq_true]
    constructor
    · rintro ⟨b, entry, kept⟩
      refine ⟨(n, b), List.mem_filter.mpr ⟨?_, kept⟩, rfl⟩
      exact Std.TreeMap.mem_toList_iff_getElem?_eq_some.mpr entry
    · rintro ⟨⟨j, b⟩, mem, rfl⟩
      obtain ⟨entry, kept⟩ := List.mem_filter.mp mem
      exact ⟨b, Std.TreeMap.mem_toList_iff_getElem?_eq_some.mp entry, kept⟩
  rw [same, List.toFinset_card_of_nodup distinct, List.length_map, List.countP_eq_length_filter]

theorem Accounts.size (h : Accounts c a) : a.held.card = c.blockmap.size := by
  rw [card_entries c.blockmap (fun _ => true) fun n => ?_, List.countP_true, Std.TreeMap.length_toList]
  rw [h.held]
  cases c.blockmap[n]?
  all_goals rfl

theorem Accounts.dirtyBlocks (h : Accounts c a) : a.dirty.card = c.dirtyBlocks :=
  card_entries c.blockmap Block.dirty h.dirty

/-! ## One operation -/

theorem Accounts.insert (h : Accounts c a) (map : c'.blockmap = c.blockmap.insert n b) {a' : Cache SizeT}
    (held : a'.held = insert n a.held)
    (dirty : a'.dirty = if b.dirty then insert n a.dirty else a.dirty.erase n)
    (loads : c'.diskreads = .ofNat 32 a'.loads) (stores : c'.diskwrites = .ofNat 32 a'.stores) :
    Accounts c' a' := by
  refine ⟨fun j => ?_, fun j => ?_, loads, stores⟩
  · rw [held, map, entry_insert, Finset.mem_insert, h.held]
    split_ifs with same
    · exact iff_of_true (Or.inl same) rfl
    · exact or_iff_right same
  · rw [dirty, map, entry_insert]
    split_ifs with fresh same same
    · exact iff_of_true (Finset.mem_insert.mpr (Or.inl same)) fresh
    · rw [Finset.mem_insert, h.dirty]
      exact or_iff_right same
    · rw [Finset.mem_erase]
      exact iff_of_false (fun m => m.1 same) fresh
    · rw [Finset.mem_erase, h.dirty]
      exact and_iff_right same

theorem Accounts.erase (h : Accounts c a)
    (map : ∀ j : SizeT, c'.blockmap[j]? = if j = n then none else c.blockmap[j]?)
    (loads : c'.diskreads = c.diskreads)
    (stores : c'.diskwrites = c.diskwrites + .ofNat 32 (c.blockmap[n]?.any Block.dirty).toNat) :
    Accounts c' (a.next (.flush n)) := by
  refine ⟨fun j => ?_, fun j => ?_, loads.trans h.loads, ?_⟩
  · rw [map]
    change j ∈ a.held.erase n ↔ _
    rw [Finset.mem_erase, h.held]
    split_ifs with same
    · exact iff_of_false (fun m => m.1 same) Bool.false_ne_true
    · exact and_iff_right same
  · rw [map]
    change j ∈ a.dirty.erase n ↔ _
    rw [Finset.mem_erase, h.dirty]
    split_ifs with same
    · exact iff_of_false (fun m => m.1 same) Bool.false_ne_true
    · exact and_iff_right same
  · change c'.diskwrites = .ofNat 32 (a.stores + (a.dirty ∩ {n}).card)
    rw [stores, h.stores, BitVec.ofNat_add]
    congr 2
    cases changed : c.blockmap[n]?.any Block.dirty with
    | true => rw [Finset.inter_singleton_of_mem ((h.dirty n).mpr changed), Finset.card_singleton,
          Bool.toNat_true]
    | false =>
        have clean : n ∉ a.dirty := fun m => Bool.false_ne_true (changed.symm.trans ((h.dirty n).mp m))
        rw [Finset.inter_singleton_of_notMem clean, Finset.card_empty, Bool.toNat_false]

theorem Accounts.remove (h : Accounts c a) (valid : c.Valid) (entry : c.blockmap[n]? = some b) :
    ∃ c', c.removeBlock n b = .ok (.noError, c') ∧ Accounts c' (a.next (.flush n)) := by
  obtain ⟨c', ran, -⟩ := removeBlock_ok valid entry
  obtain ⟨-, -, loads, stores, map⟩ := removeBlock_counts ran
  refine ⟨c', ran, h.erase (fun j => by rw [map, entry_erase]) loads ?_⟩
  rw [stores, entry, Option.any_some]

/-- What makes room for a block: nothing, or a flush. -/
def MakesRoom (room : Prop) (early : List (Call SizeT)) : Prop :=
    early = [] ∨ ¬ room ∧ ∃ m, early = [.flush m]

theorem Accounts.evict (h : Accounts c a) (valid : c.Valid) :
    ∃ c1 early, c.checkDeleteOldest = .ok (.noError, c1) ∧
    MakesRoom (c.blockmap.size < c.cachesize.toNat) early ∧
      Accounts c1 (a.run early) := by
  rw [checkDeleteOldest]
  split_ifs with room
  · exact ⟨c, [], rfl, Or.inl rfl, h⟩
  · cases found : findOldest (c.disk.machine.add c.curtime 1) c.blockmap.toList with
    | none => exact ⟨c, [], rfl, Or.inl rfl, h⟩
    | some e =>
        have entry := Std.TreeMap.mem_toList_iff_getElem?_eq_some.mp (findOldest_mem found)
        obtain ⟨c1, ran, h1⟩ := h.remove valid entry
        exact ⟨c1, [.flush e.1], ran, Or.inr ⟨room, e.1, rfl⟩, h1⟩

/-- What one operation comes to: a flush at most, and the call. -/
def Comes (c : BufferCache) (a : Cache SizeT) (op : Op) (c' : BufferCache) : Prop :=
  ∃ early, MakesRoom (∀ n, op.block = some n → n ∉ a.held → a.held.card < c.cachesize.toNat) early ∧
    Accounts c' (a.run (early ++ op.call))

theorem Accounts.still (h : Accounts c a) (map : c'.blockmap = c.blockmap)
    (loads : c'.diskreads = c.diskreads)
    (stores : c'.diskwrites = c.diskwrites) : Accounts c' a := by
  refine ⟨?_, ?_, loads.trans h.loads, stores.trans h.stores⟩
  · rw [map]
    exact h.held
  · rw [map]
    exact h.dirty

theorem Accounts.absent (h : Accounts c a) (miss : n ∉ a.held) : n ∉ a.dirty := by
  intro mem
  rw [h.held] at miss
  have changed := (h.dirty n).mp mem
  cases entry : c.blockmap[n]? with
  | none =>
      rw [entry] at changed
      cases changed
  | some b => exact miss (by rw [entry]; rfl)

theorem MakesRoom.absent {room : Prop} {early : List (Call SizeT)} (makes : MakesRoom room early)
    (miss : n ∉ a.held) : n ∉ (a.run early).held := by
  rcases makes with rfl | ⟨-, m, rfl⟩
  · exact miss
  · exact fun mem => miss (Finset.mem_of_mem_erase mem)

/-- A block comes in where there is room, or where room has been made for it. -/
theorem Accounts.comes (h : Accounts c a) {early : List (Call SizeT)}
    (makes : MakesRoom (c.blockmap.size < c.cachesize.toNat) early) (block : op.block = some n)
    (miss : n ∉ a.held)
    (after : Accounts c' ((a.run early).run op.call)) : Comes c a op c' := by
  refine ⟨early, ?_, by rw [Cache.run_append]; exact after⟩
  rcases makes with none | ⟨full, flush⟩
  · exact Or.inl none
  · refine Or.inr ⟨fun roomy => full ?_, flush⟩
    rw [← h.size]
    exact roomy n block miss

theorem Accounts.miss (h : Accounts c a) (absent : c.blockmap[n]? = none) : n ∉ a.held := by
  rw [h.held, absent]
  exact Bool.false_ne_true

theorem Accounts.hit (h : Accounts c a) (entry : c.blockmap[n]? = some b) : n ∈ a.held := by
  rw [h.held, entry]
  rfl

theorem readBlock_comes (h : Accounts c a) (valid : c.Valid) (inside : n < c.disk.numblocks)
    {o : Option Block}
    (ran : c.readBlock n = .ok (rc, o, c')) : Comes c a (.request (.read n)) c' := by
  obtain ⟨b, c1, success, -⟩ := readBlock_ok valid inside
  rw [success] at ran
  cases ran
  rw [readBlock] at success
  cases found : c.blockmap[n]? with
  | some old =>
      have mem := h.hit found
      have nothing : ({n} \ a.held).card = 0 := by
        rw [Finset.card_eq_zero, Finset.sdiff_eq_empty_iff_subset, Finset.singleton_subset_iff]
        exact mem
      rw [found] at success
      cases success
      refine ⟨[], Or.inl rfl, h.insert rfl rfl ?_ ?_ h.stores⟩
      · change a.dirty = _
        have changed := h.dirty n
        rw [found, Option.any_some] at changed
        split_ifs with dirty
        · exact (Finset.insert_eq_of_mem (changed.mpr dirty)).symm
        · exact (Finset.erase_eq_of_notMem (mt changed.mp dirty)).symm
      · change c.diskreads = .ofNat 32 (a.loads + ({n} \ a.held).card)
        rw [nothing]
        exact h.loads
  | none =>
      have miss := h.miss found
      obtain ⟨c2, early, evict, makes, h2⟩ := h.evict valid
      have miss2 := makes.absent miss
      simp only [found, evict] at success
      cases asked : c2.isBlockAllocated n with
      | error f => simp [asked] at success
      | ok bit =>
          cases hread : c2.disk.readOne n with
          | error f => simp [asked, hread] at success
          | ok x =>
              obtain ⟨rc1, o1, t, d⟩ := x
              rw [asked, hread] at success
              cases o1 with
              | none => cases success
              | some b1 =>
                  cases success
                  refine h.comes makes rfl miss (h2.insert rfl rfl ?_ ?_ h2.stores)
                  · change (a.run early).dirty = (a.run early).dirty.erase n
                    exact (Finset.erase_eq_of_notMem (h2.absent miss2)).symm
                  · change c2.diskreads + 1 =
                      .ofNat 32 ((a.run early).loads + ({n} \ (a.run early).held).card)
                    rw [Finset.sdiff_eq_self_of_disjoint (Finset.disjoint_singleton_left.mpr miss2),
                      Finset.card_singleton, h2.loads, BitVec.ofNat_add]
                    rfl

theorem writeBlock_comes (h : Accounts c a) (valid : c.Valid) (ran : c.writeBlock n b = .ok (rc, c')) :
    Comes c a (.request (.write n b)) c' := by
  rw [writeBlock] at ran
  cases found : c.blockmap[n]? with
  | some old =>
      rw [found] at ran
      cases ran
      exact ⟨[], Or.inl rfl, h.insert rfl rfl rfl h.loads h.stores⟩
  | none =>
      obtain ⟨c2, early, evict, makes, h2⟩ := h.evict valid
      cases asked : c2.isBlockAllocated n with
      | error f => simp [found, evict, asked] at ran
      | ok bit =>
          simp only [found, evict, asked, Except.ok.injEq, Prod.mk.injEq] at ran
          obtain ⟨-, rfl⟩ := ran
          exact h.comes makes rfl (h.miss found) (h2.insert rfl rfl rfl h2.loads h2.stores)

theorem flushBlock_comes (h : Accounts c a) (valid : c.Valid) (ran : c.flushBlock n = .ok (rc, c')) :
    Comes c a (.request (.flush n)) c' := by
  refine ⟨[], Or.inl rfl, ?_⟩
  rw [flushBlock] at ran
  cases found : c.blockmap[n]? with
  | none =>
      rw [found] at ran
      cases ran
      refine h.erase (fun j => ?_) rfl ?_
      · split_ifs with same
        · rw [same, found]
        · rfl
      · rw [found]
        exact (BitVec.add_zero _).symm
  | some b =>
      rw [found] at ran
      obtain ⟨c1, success, h1⟩ := h.remove valid found
      simp only [success, Except.ok.injEq, Prod.mk.injEq] at ran
      obtain ⟨-, rfl⟩ := ran
      exact h1

theorem Accounts.emptied (map : c'.blockmap = ∅) {a' : Cache SizeT} (held : a'.held = ∅)
    (dirty : a'.dirty = ∅)
    (loads : c'.diskreads = .ofNat 32 a'.loads) (stores : c'.diskwrites = .ofNat 32 a'.stores) :
    Accounts c' a' := by
  refine ⟨fun j => ?_, fun j => ?_, loads, stores⟩
  · rw [held, map, Std.TreeMap.getElem?_emptyc]
    exact iff_of_false (Finset.notMem_empty j) Bool.false_ne_true
  · rw [dirty, map, Std.TreeMap.getElem?_emptyc]
    exact iff_of_false (Finset.notMem_empty j) Bool.false_ne_true

theorem perform_comes (h : Accounts c a) (valid : c.Valid) (range : op.InRange c.disk.toDiskConfig) :
    ∃ rc c', c.perform op = .ok (rc, c') ∧ c'.Valid ∧ Comes c a op c' := by
  obtain ⟨rc, c', ran, valid', -⟩ := perform_transfers valid range
  refine ⟨rc, c', ran, valid', ?_⟩
  cases op with
  | request q =>
      obtain ⟨⟨rep, c1⟩, served, same⟩ := Runs.map_eq_ok ran
      cases same
      cases q with
      | read n =>
          obtain ⟨⟨rc1, o, c2⟩, hread, same⟩ := Runs.map_eq_ok served
          cases same
          exact readBlock_comes h valid range hread
      | write n b =>
          obtain ⟨⟨rc1, c2⟩, hwrite, same⟩ := Runs.map_eq_ok served
          cases same
          exact writeBlock_comes h valid hwrite
      | flush n =>
          obtain ⟨⟨rc1, c2⟩, hflush, same⟩ := Runs.map_eq_ok served
          cases same
          exact flushBlock_comes h valid hflush
  | attach =>
      cases ran
      exact ⟨[], Or.inl rfl, .emptied rfl rfl rfl h.loads h.stores⟩
  | detach =>
      obtain ⟨c1, success, -⟩ := detach_ok valid
      rw [perform, success] at ran
      cases ran
      obtain ⟨-, -, loads, stores, map⟩ := detachLoop_counts success
      refine ⟨[], Or.inl rfl, .emptied map rfl rfl (loads.trans h.loads) ?_⟩
      change c'.diskwrites = .ofNat 32 (a.stores + a.dirty.card)
      rw [stores, h.stores, h.dirtyBlocks, BitVec.ofNat_add]
      rfl
  | notifyAllocate n =>
      cases ran
      exact ⟨[], Or.inl rfl, h.still rfl rfl rfl⟩
  | notifyDeallocate n =>
      cases ran
      exact ⟨[], Or.inl rfl, h.still rfl rfl rfl⟩

/-! ## Runs -/

/-- The blocks that are read or written. -/
def workingSet (ops : List Op) : Finset SizeT := (ops.filterMap Op.block).toFinset

theorem mem_workingSet (mem : op ∈ ops) (block : op.block = some n) : n ∈ workingSet ops := by
  rw [workingSet, List.mem_toFinset]
  exact List.mem_filterMap.mpr ⟨op, mem, block⟩

theorem call_held {s : Finset SizeT} (held : a.held ⊆ s) (inside : ∀ n, op.block = some n → n ∈ s) :
    (a.run op.call).held ⊆ s := by
  cases op with
  | request q =>
      cases q with
      | read n => exact Finset.insert_subset (inside n rfl) held
      | write n b => exact Finset.insert_subset (inside n rfl) held
      | flush n => exact (Finset.erase_subset n _).trans held
  | attach => exact Finset.empty_subset s
  | detach => exact Finset.empty_subset s
  | notifyAllocate n => exact held
  | notifyDeallocate n => exact held

theorem MakesRoom.held {room : Prop} {early : List (Call SizeT)} (makes : MakesRoom room early) :
    (a.run early).held ⊆ a.held := by
  rcases makes with rfl | ⟨-, m, rfl⟩
  · exact subset_rfl
  · exact Finset.erase_subset m _

theorem MakesRoom.early {room : Prop} {early calls calls' : List (Call SizeT)} (makes : MakesRoom room early)
    (rest : Early calls calls') : Early calls (early ++ calls') := by
  rcases makes with rfl | ⟨-, m, rfl⟩
  · exact rest
  · exact .flush m rest

/-- Where every block of a run has its place, nothing leaves before it is told to. -/
theorem run_comes (h : Accounts c a) (valid : c.Valid) (range : ∀ op ∈ ops, op.InRange c.disk.toDiskConfig)
    {s : Finset SizeT} (held : a.held ⊆ s) (inside : ∀ op ∈ ops, ∀ n, op.block = some n → n ∈ s) :
    ∃ rcs c' early, Runs.run perform c ops = .ok (rcs, c') ∧ Early (calls ops) early ∧
      Accounts c' (a.run early) ∧ (s.card ≤ c.cachesize.toNat → early = calls ops) := by
  induction ops generalizing c a with
  | nil => exact ⟨[], c, [], rfl, .nil, h, fun _ => rfl⟩
  | cons op ops ih =>
      obtain ⟨first, others⟩ := List.forall_mem_cons.mp range
      obtain ⟨here, later⟩ := List.forall_mem_cons.mp inside
      obtain ⟨rc, c1, ran, valid1, early1, makes, h1⟩ := perform_comes h valid first
      have ticks := (perform_served ran).ticks
      have held1 : (a.run (early1 ++ op.call)).held ⊆ s := by
        rw [Cache.run_append]
        exact call_held (makes.held.trans held) here
      obtain ⟨rcs, c', early, rest, flushes, h', whole⟩ :=
        ih h1 valid1 (by rw [ticks.config]; exact others) held1 later
      refine ⟨rc :: rcs, c', early1 ++ (op.call ++ early), Runs.run_cons ran rest, ?_, ?_, fun roomy => ?_⟩
      · exact makes.early (flushes.append_left op.call)
      · rw [← List.append_assoc, Cache.run_append]
        exact h'
      · have none_early : early1 = [] := by
          rcases makes with none | ⟨full, -⟩
          · exact none
          · -- The missing block is in `s` too, so the blocks held are fewer.
            refine absurd (fun n block miss => ?_) full
            have fewer : a.held ⊂ s := (Finset.ssubset_iff_of_subset held).mpr ⟨n, here n block, miss⟩
            exact (Finset.card_lt_card fewer).trans_le roomy
        rw [none_early, whole (by rw [ticks.cachesize]; exact roomy)]
        rfl

theorem calls_length (ops : List Op) : (calls ops).length ≤ ops.length := by
  induction ops with
  | nil => exact le_rfl
  | cons op ops ih =>
      have one : op.call.length ≤ 1 := by
        cases op with
        | request q => cases q <;> exact le_rfl
        | attach => exact le_rfl
        | detach => exact le_rfl
        | notifyAllocate n => exact Nat.zero_le 1
        | notifyDeallocate n => exact Nat.zero_le 1
      rw [calls, List.flatMap_cons, List.length_append, List.length_cons]
      exact (Nat.add_le_add one ih).trans_eq (Nat.add_comm 1 _)

theorem accounts_make (d : DiskSystem) (cachesize : SizeT) : Accounts (make d cachesize) Cache.empty :=
  .emptied rfl rfl rfl rfl rfl

/-- A cache of any size is one without a limit, with flushes that nobody asked for: it never
has fewer transfers, and the same ones where every block has its place. -/
theorem least_traffic (d : DiskSystem) (geometry : sanityCheckConfig d.toDiskConfig = .noError)
    (fits : d.Fits) (cachesize : SizeT) (ops : List Op)
    (range : ∀ op ∈ ops, op.InRange d.toDiskConfig) (few : ops.length < 2 ^ 32) :
    ∃ rcs c early, Runs.run perform (make d cachesize) ops = .ok (rcs, c) ∧ Early (calls ops) early ∧
      Accounts c (Cache.empty.run early) ∧
      (Cache.empty.run (calls ops)).loads ≤ c.diskreads.toNat ∧
      (Cache.empty.run (calls ops)).stores ≤ c.diskwrites.toNat ∧
      ((workingSet ops).card ≤ cachesize.toNat →
        c.diskreads.toNat = (Cache.empty.run (calls ops)).loads ∧
          c.diskwrites.toNat = (Cache.empty.run (calls ops)).stores) := by
  obtain ⟨rcs, c, early, ran, flushes, h, same⟩ := run_comes (accounts_make d cachesize)
    (valid_make (fits.sound geometry) cachesize).1 range (s := workingSet ops) (Finset.empty_subset _)
    fun op mem n block => mem_workingSet mem block
  have ahead := (Cache.Ahead.refl Cache.empty).run flushes
  have short := (calls_length ops).trans_lt few
  have loads : c.diskreads.toNat = (Cache.empty.run early).loads := by
    have most := Cache.empty.run_loads_le early
    have reads := (calls ops).countP_le_length (p := Call.isRead)
    rw [flushes.countP fun _ => rfl] at most
    rw [h.loads, BitVec.toNat_ofNat, Nat.mod_eq_of_lt]
    exact (most.trans (Nat.zero_add _).le).trans_lt (reads.trans_lt short)
  have stores : c.diskwrites.toNat = (Cache.empty.run early).stores := by
    have most := Cache.empty.run_stores_le early
    have writes := (calls ops).countP_le_length (p := Call.isWrite)
    rw [flushes.countP fun _ => rfl] at most
    rw [h.stores, BitVec.toNat_ofNat, Nat.mod_eq_of_lt]
    exact ((Nat.le_add_right _ _).trans (most.trans (Nat.zero_add _).le)).trans_lt (writes.trans_lt short)
  refine ⟨rcs, c, early, ran, flushes, h, ?_, ?_, fun roomy => ?_⟩
  · rw [loads]
    exact ahead.loads
  · rw [stores]
    exact ahead.paid
  · rw [loads, stores, same roomy]
    exact ⟨rfl, rfl⟩

theorem least_traffic_small :
    ∃ rcs c, Runs.run perform (make (DiskSystem.make .small DiskSystem.smallConfig ByteFile.empty) 2)
      [.request (.write 3 sevens), .request (.read 5), .request (.read 3), .request (.read 5), .detach] =
        .ok (rcs, c) ∧ c.diskreads.toNat = 1 ∧ c.diskwrites.toNat = 1 := by
  have range : ∀ op ∈ [Op.request (.write 3 sevens), .request (.read 5), .request (.read 3),
    .request (.read 5),
      .detach], op.InRange DiskSystem.smallConfig := by
    simp only [List.forall_mem_cons]
    exact ⟨⟨by decide, sevens_length⟩, (by decide : (5 : SizeT) < 64), (by decide : (3 : SizeT) < 64),
      (by decide : (5 : SizeT) < 64), trivial, by simp⟩
  obtain ⟨rcs, c, early, ran, -, -, -, -, same⟩ :=
    least_traffic (DiskSystem.make .small DiskSystem.smallConfig ByteFile.empty)
      DiskSystem.smallConfig_accepted
      (by decide) 2 _ range (by decide)
  obtain ⟨reads, writes⟩ := same (by decide)
  exact ⟨rcs, c, ran, reads, writes⟩

end BTreeLab.BufferCache
