import EECS339.RangeChecks
import EECS339.Replacement

/-!
# How many blocks are cached

Before a block enters a full cache one has to leave it. The callers of
`CheckDeleteOldest` ignore its result, so the cache grows past its size exactly when
no block can be picked or the one that has to leave cannot be written out.
-/
namespace BTreeLab.BufferCache

/-- Time does not run backwards, and no cached block was accessed after the present. -/
structure Clocked (c : BufferCache) : Prop where
  forward : c.disk.Forward
  stamps : ∀ (n : SizeT) (b : Block), c.blockmap[n]? = some b → b.lastaccessed ≤ c.curtime

/-- What no operation changes, and the clock, which runs backwards only with rounded times or
negative latencies. -/
structure Ticks (c c' : BufferCache) : Prop where
  same : c.SameDisk c'
  cachesize : c'.cachesize = c.cachesize
  later : c.disk.Forward → c.curtime ≤ c'.curtime

theorem Ticks.still {c c' : BufferCache} (same : c.SameDisk c') (cachesize : c'.cachesize = c.cachesize)
    (clock : c'.curtime = c.curtime) : c.Ticks c' :=
  ⟨same, cachesize, fun _ => clock.ge⟩

theorem Ticks.config {c c' : BufferCache} (h : c.Ticks c') : c'.disk.toDiskConfig = c.disk.toDiskConfig :=
  h.same.1

theorem Ticks.trans {c c' c'' : BufferCache} (h : c.Ticks c') (h' : c'.Ticks c'') : c.Ticks c'' := by
  refine ⟨h.same.trans h'.same, h'.cachesize.trans h.cachesize, fun forward => ?_⟩
  exact (h.later forward).trans (h'.later (forward.congr h.config h.same.2))

/-- The limit on the number of cached blocks. -/
def WithinSize (c : BufferCache) : Prop := c.blockmap.size ≤ max 1 c.cachesize.toNat

/-- The block that `CheckDeleteOldest` picks. -/
def victim (c : BufferCache) : Option (SizeT × Block) :=
  findOldest (c.disk.machine.add c.curtime 1) c.blockmap.toList

/-- The entry has to be written to a block that the disk refuses. -/
def Stuck (c : BufferCache) (n : SizeT) (b : Block) : Prop := b.dirty = true ∧ n + 1 > c.disk.numblocks

/-- The cache holds blocks and is full, and if a block is picked to leave it, this one is stuck. None
is picked where `curtime + 1` is rounded to no more than the times of the blocks. -/
def Jammed (c : BufferCache) : Prop :=
  c.cachesize.toNat ≤ c.blockmap.size ∧ c.blockmap.size ≠ 0 ∧ ∀ v b, c.victim = some (v, b) → c.Stuck v b

/-- A read of the block passes the range check, its bit can be looked at and its bytes can be had. -/
structure Readable (d : DiskSystem) (n : SizeT) : Prop where
  inside : ¬ n + 1 > d.numblocks
  bit : d.ReadableBit n
  spins : d.numheads * d.blockspertrack ≠ 0
  reach : d.Reach n

/-- The operation brings another block into a jammed cache. -/
def Overfills (c : BufferCache) : Op → Prop
  | .request (.read n) => c.blockmap[n]? = none ∧ c.Jammed ∧ Readable c.disk n
  | .request (.write n _) => c.blockmap[n]? = none ∧ c.Jammed ∧ c.disk.ReadableBit n
  | _ => False

variable {c c' c1 : BufferCache} {n : SizeT} {b : Block} {rc : ErrorT}

/-! ## Entries leave -/

theorem writeBack_inv (ran : c.writeBack n b = .ok (rc, c')) :
    c.Ticks c' ∧ c'.blockmap = c.blockmap ∧
      ((n + 1 > c.disk.numblocks ∧ rc = .noSpace ∧ c'.disk = c.disk) ∨
        (¬ n + 1 > c.disk.numblocks ∧ rc = .noError)) := by
  rw [writeBack] at ran
  cases hwrite : c.disk.writeOne n b with
  | error f => simp [hwrite] at ran
  | ok r =>
      obtain ⟨rc1, t, d⟩ := r
      simp only [hwrite, Except.ok.injEq, Prod.mk.injEq] at ran
      obtain ⟨rfl, rfl⟩ := ran
      have later (machine : d.machine = c.disk.machine) (forward : c.disk.Forward) :
          c.curtime ≤ d.machine.add c.curtime t := by
        rw [machine]
        exact forward.rounds.add _ _ (DiskSystem.writeOne_nonneg forward hwrite)
      rcases DiskSystem.write_inv hwrite with ⟨past, code, -, same⟩ | ⟨pass, code, d1, f, access, -, file⟩
      · have machine : d.machine = c.disk.machine := by rw [same]
        exact ⟨⟨⟨by rw [same], machine⟩, rfl, later machine⟩, rfl, Or.inl ⟨past, code, same⟩⟩
      · have k := (DiskSystem.modelAccess_keeps access).1
        have machine : d.machine = c.disk.machine := by rw [file]; exact k.machine
        exact ⟨⟨⟨by rw [file]; exact k.config, machine⟩, rfl, later machine⟩, rfl, Or.inr ⟨pass, code⟩⟩

/-- The disk refuses the block, so it stays. -/
theorem removeBlock_stuck (stuck : c.Stuck n b) : c.removeBlock n b =
    .ok (.noSpace, { c with
      curtime := c.disk.machine.add c.curtime 0, diskwrites := c.diskwrites + 1 }) := by
  obtain ⟨dirty, past⟩ := stuck
  have refused : c.disk.writeOne n b = .ok (.noSpace, 0, c.disk) := by
    rw [DiskSystem.writeOne, DiskSystem.write, if_pos past]
  simp only [removeBlock, dirty, if_true, writeBack, refused, ne_eq, reduceCtorEq, not_false_eq_true]

theorem removeBlock_inv (ran : c.removeBlock n b = .ok (rc, c')) :
    c.Ticks c' ∧ ((c.Stuck n b ∧ c'.blockmap = c.blockmap ∧ c'.disk = c.disk) ∨
      (¬ c.Stuck n b ∧ c'.blockmap = c.blockmap.erase n)) := by
  rw [removeBlock] at ran
  cases dirty : b.dirty with
  | true =>
      cases hback : c.writeBack n b with
      | error f => simp [dirty, hback] at ran
      | ok r =>
          obtain ⟨rc1, c1⟩ := r
          obtain ⟨ticks, map, ⟨past, rfl, disk⟩ | ⟨pass, rfl⟩⟩ := writeBack_inv hback
          · simp only [dirty, if_true, hback, ne_eq, reduceCtorEq, not_false_eq_true, Except.ok.injEq,
              Prod.mk.injEq] at ran
            obtain ⟨-, rfl⟩ := ran
            exact ⟨ticks, Or.inl ⟨⟨dirty, past⟩, map, disk⟩⟩
          · simp only [dirty, if_true, hback, ne_eq, not_true, if_false, Except.ok.injEq,
              Prod.mk.injEq] at ran
            obtain ⟨-, rfl⟩ := ran
            exact ⟨⟨ticks.same, ticks.cachesize, ticks.later⟩,
              Or.inr ⟨fun stuck => pass stuck.2, by rw [map]⟩⟩
  | false =>
      simp only [dirty, Bool.false_eq_true, if_false, Except.ok.injEq, Prod.mk.injEq] at ran
      obtain ⟨-, rfl⟩ := ran
      refine ⟨.still ⟨rfl, rfl⟩ rfl rfl, Or.inr ⟨fun stuck => ?_, rfl⟩⟩
      rw [Stuck, dirty] at stuck
      exact Bool.false_ne_true stuck.1

/-- As no access lies in the future, a cache that holds blocks has a victim, if the future is told
from the present. -/
theorem Clocked.victim (h : c.Clocked) (exact : c.disk.machine.Exact) (nonempty : c.blockmap.size ≠ 0) :
    ∃ v b, c.victim = some (v, b) ∧ c.blockmap[v]? = some b := by
  have sorted : c.blockmap.toList.Pairwise fun a b => a.1 < b.1 :=
    (Std.TreeMap.ordered_keys_toList (t := c.blockmap)).imp fun lt => compareOfLessAndEq_eq_lt.mp lt
  cases found : c.victim with
  | some e => exact ⟨e.1, e.2, rfl, Std.TreeMap.mem_toList_iff_getElem?_eq_some.mp (findOldest_mem found)⟩
  | none =>
      obtain ⟨-, all⟩ := (scan_spec sorted).1 found
      have empty : c.blockmap.toList = [] := by
        apply List.eq_nil_iff_forall_not_mem.mpr
        intro e mem
        have past := h.stamps e.1 e.2 (Std.TreeMap.mem_toList_iff_getElem?_eq_some.mp mem)
        rw [exact.add] at all
        exact absurd (all e mem) (not_le.mpr (past.trans_lt (lt_add_one _)))
      rw [← Std.TreeMap.length_toList, empty] at nonempty
      exact absurd rfl nonempty

/-! ## Blocks that can be read -/

theorem Readable.delivers {d : DiskSystem} (h : Readable d n) :
    ∃ b t d', d.readOne n = .ok (.noError, some b, t, d') := by
  obtain ⟨f, hread, -⟩ := myread_ok h.reach
  obtain ⟨bit, asked⟩ := h.bit
  obtain ⟨t, d', hone, -⟩ := DiskSystem.readOne_inside h.spins h.inside asked _ hread
  rw [if_pos (ByteFile.content_length _ _ _), if_pos (ByteFile.content_length _ _ _)] at hone
  exact ⟨_, t, d', hone⟩

theorem readOne_inv {d d' : DiskSystem} {o : Option Block} {t : ℚ}
    (ran : d.readOne n = .ok (rc, o, t, d')) :
    ∃ bs, d.read n 1 = .ok (rc, bs, t, d') ∧ o = if rc = .noError then bs[0]? else none := by
  rw [DiskSystem.readOne] at ran
  cases hread : d.read n 1 with
  | error f =>
      rw [hread] at ran
      cases ran
  | ok r =>
      rw [hread] at ran
      cases ran
      exact ⟨_, rfl, rfl⟩

theorem readOne_readable {d d' : DiskSystem} {t : ℚ} (ran : d.readOne n = .ok (rc, some b, t, d')) :
    Readable d n := by
  obtain ⟨bs, hread, result⟩ := readOne_inv ran
  rcases DiskSystem.read_inv hread with ⟨-, -, rfl, -⟩ | ⟨inside, -, d1, f, access, loop, -⟩
  · split_ifs at result
    cases result
  have spins : d.numheads * d.blockspertrack ≠ 0 := by
    intro zero
    have none_at_all : d.sectors = 0 := zero
    rw [DiskSystem.modelAccess, if_pos none_at_all] at access
    cases access
  have bit : d.ReadableBit n := by
    rw [DiskSystem.one_toNat, DiskSystem.readLoop] at loop
    cases asked : d1.isBlockAllocated n with
    | error e =>
        rw [asked] at loop
        cases loop
    | ok bit => exact ⟨bit, by rw [← (DiskSystem.modelAccess_keeps access).1.isBlockAllocated]; exact asked⟩
  refine ⟨inside, bit, spins, ?_⟩
  by_contra out
  rw [DiskSystem.Reach] at out
  push Not at out
  have nothing := myread_wraps out.2 out.1
  have size := d.blocksize.isLt
  have pos := (d.blockPos n).isLt
  obtain ⟨bit, asked⟩ := bit
  obtain ⟨t1, d2, hone, -⟩ := DiskSystem.readOne_inside spins inside asked
    [] (f := (myread d.datafile (d.blockPos n) d.blocksize true).2) (by rw [← nothing])
  have short : ¬ ([] : List ByteT).length = d.blocksize.toNat := by
    rw [List.length_nil]
    omega
  rw [if_neg short, if_neg short, ran] at hone
  cases hone

/-- A read takes time and leaves the configuration. -/
theorem readOne_ticks {d : DiskSystem} {o : Option Block} {t : ℚ}
    (ran : c.disk.readOne n = .ok (rc, o, t, d)) :
    c.Ticks { c with disk := d, curtime := d.machine.add c.curtime t } := by
  have same : c.SameDisk { c with disk := d } := by
    obtain ⟨bs, hread, -⟩ := readOne_inv ran
    rcases DiskSystem.read_inv hread with ⟨-, -, -, -, rfl⟩ | ⟨-, -, d2, f, access, -, rfl⟩
    · exact ⟨rfl, rfl⟩
    · have k := (DiskSystem.modelAccess_keeps access).1
      exact ⟨k.config, k.machine⟩
  refine ⟨same, rfl, fun forward => ?_⟩
  rw [same.2]
  exact forward.rounds.add _ _ (DiskSystem.readOne_nonneg forward ran)

/-! ## A block enters -/

theorem size_pos {bound : ℚ} {e : SizeT × Block} (found : findOldest bound c.blockmap.toList = some e) :
    0 < c.blockmap.size := by
  rw [← Std.TreeMap.length_toList]
  exact List.length_pos_of_mem (findOldest_mem found)

/-- Evicting makes room for one more block unless the cache is jammed. -/
theorem checkDeleteOldest_inv (ran : c.checkDeleteOldest = .ok (rc, c1)) :
    c.Ticks c1 ∧ (∀ (n : SizeT) b, c1.blockmap[n]? = some b → c.blockmap[n]? = some b) ∧
      ((c.Jammed ∧ c1.blockmap = c.blockmap ∧ c1.disk = c.disk) ∨
        (¬ c.Jammed ∧ (c.WithinSize → c1.blockmap.size + 1 ≤ max 1 c.cachesize.toNat))) := by
  rw [checkDeleteOldest] at ran
  split_ifs at ran with room
  · cases ran
    refine ⟨.still ⟨rfl, rfl⟩ rfl rfl, fun _ _ => id, Or.inr ⟨?_, fun _ => by omega⟩⟩
    exact fun jam => absurd jam.1 (not_le.mpr room)
  · rw [not_lt] at room
    cases found : c.victim with
    | none =>
        have none_picked := found
        rw [victim] at found
        rw [found] at ran
        cases ran
        refine ⟨.still ⟨rfl, rfl⟩ rfl rfl, fun _ _ => id, ?_⟩
        by_cases empty : c.blockmap.size = 0
        · exact Or.inr ⟨fun jam => jam.2.1 empty, fun _ => by omega⟩
        · refine Or.inl ⟨⟨room, empty, fun v b picked => ?_⟩, rfl, rfl⟩
          rw [none_picked] at picked
          cases picked
    | some e =>
        obtain ⟨v, b⟩ := e
        rw [victim] at found
        rw [found] at ran
        have hb := Std.TreeMap.mem_toList_iff_getElem?_eq_some.mp (findOldest_mem found)
        obtain ⟨ticks, ⟨stuck, map, disk⟩ | ⟨free, map⟩⟩ := removeBlock_inv ran
        · refine ⟨ticks, by rw [map]; exact fun _ _ => id,
            Or.inl ⟨⟨room, (size_pos found).ne', fun v' b' picked => ?_⟩, map, disk⟩⟩
          rw [victim, found] at picked
          cases picked
          exact stuck
        · refine ⟨ticks, by rw [map]; exact erase_fewer c v, Or.inr ⟨?_, fun within => ?_⟩⟩
          · exact fun jam => free (jam.2.2 v b found)
          · have mem : v ∈ c.blockmap := Std.TreeMap.mem_iff_isSome_getElem?.mpr (by rw [hb]; rfl)
            rw [WithinSize] at within
            rw [map, Std.TreeMap.size_erase, if_pos (Std.TreeMap.mem_iff_contains.mp mem)]
            have pos := size_pos found
            omega

/-- An eviction never makes the cache too large. -/
theorem evict_within (evict : c.checkDeleteOldest = .ok (rc, c1)) (within : c.WithinSize) :
    c1.blockmap.size ≤ max 1 c.cachesize.toNat := by
  obtain ⟨-, -, ⟨-, map, -⟩ | ⟨-, room⟩⟩ := checkDeleteOldest_inv evict
  · rw [map]
    exact within
  · exact (Nat.le_succ _).trans (room within)

/-- A jammed cache evicts nothing. -/
theorem jammed_disk (evict : c.checkDeleteOldest = .ok (rc, c1)) (jam : c.Jammed) : c1.disk = c.disk := by
  obtain ⟨-, -, ⟨-, -, disk⟩ | ⟨free, -⟩⟩ := checkDeleteOldest_inv evict
  · exact disk
  · exact absurd jam free

/-- So the disk is read as it was. -/
theorem jammed_readable {d : DiskSystem} {o : Option Block} {t : ℚ} {rc1 : ErrorT}
    (evict : c.checkDeleteOldest = .ok (rc, c1)) (jam : c.Jammed)
    (ran : c1.disk.readOne n = .ok (rc1, o, t, d)) : o ≠ none ↔ Readable c.disk n := by
  rw [jammed_disk evict jam] at ran
  constructor
  · intro delivered
    obtain ⟨b, rfl⟩ := Option.ne_none_iff_exists'.mp delivered
    exact readOne_readable ran
  · intro readable
    obtain ⟨b, t', d', delivers⟩ := readable.delivers
    rw [ran] at delivers
    cases delivers
    exact Option.some_ne_none b

/-! ## The operations -/

/-- The entry is the one that the operation accesses, and dirty only if it is written or
was dirty. -/
structure Fresh (c : BufferCache) (op : Op) (now : ℚ) (m : SizeT) (e : Block) : Prop where
  block : op.block = some m
  stamp : e.lastaccessed = now
  dirty : e.dirty = true → (∃ b, op = .request (.write m b)) ∨
    ∃ old, c.blockmap[m]? = some old ∧ old.dirty = true

/-- What an operation leaves: every entry was there before or is accessed now, and the
size stays within the limit unless the operation overfills the cache. -/
structure Served (c : BufferCache) (op : Op) (c' : BufferCache) : Prop where
  ticks : c.Ticks c'
  entries : ∀ (m : SizeT) (e : Block), c'.blockmap[m]? = some e →
    c.blockmap[m]? = some e ∨ c.Fresh op c'.curtime m e
  size : c.WithinSize → (c'.WithinSize ↔ ¬ c.Overfills op)

theorem Served.clocked {op : Op} (served : c.Served op c') (h : c.Clocked) : c'.Clocked := by
  refine ⟨h.forward.congr served.ticks.config served.ticks.same.2, ?_⟩
  intro m e he
  rcases served.entries m e he with before | fresh
  · exact (h.stamps m e before).trans (served.ticks.later h.forward)
  · exact fresh.stamp.le

/-- Nothing enters. -/
theorem served_fewer {op : Op} (ticks : c.Ticks c') (fits : ¬ c.Overfills op)
    (fewer : ∀ (m : SizeT) (e : Block), c'.blockmap[m]? = some e → c.blockmap[m]? = some e)
    (size : c.WithinSize → c'.blockmap.size ≤ max 1 c.cachesize.toNat) : c.Served op c' := by
  refine ⟨ticks, fun m e he => Or.inl (fewer m e he), fun within => iff_of_true ?_ fits⟩
  rw [WithinSize, ticks.cachesize]
  exact size within

/-- A block enters, or its entry is replaced, after an eviction or not. -/
theorem served_insert {op : Op} {m : Std.TreeMap SizeT Block} (ticks : c.Ticks c')
    (fewer : ∀ (k : SizeT) (e : Block), m[k]? = some e → c.blockmap[k]? = some e)
    (map : c'.blockmap = m.insert n b) (fresh : c.Fresh op c'.curtime n b)
    (size : c.WithinSize → ((m.insert n b).size ≤ max 1 c.cachesize.toNat ↔ ¬ c.Overfills op)) :
    c.Served op c' := by
  refine ⟨ticks, ?_, ?_⟩
  · intro k e he
    rw [map, entry_insert] at he
    split_ifs at he with same
    · cases he
      rw [same]
      exact Or.inr fresh
    · exact Or.inl (fewer k e he)
  · rw [WithinSize, WithinSize, map, ticks.cachesize]
    exact size

theorem size_hit {old : Block} (hit : c.blockmap[n]? = some old) :
    (c.blockmap.insert n b).size = c.blockmap.size := by
  have mem : n ∈ c.blockmap := Std.TreeMap.mem_iff_isSome_getElem?.mpr (by rw [hit]; rfl)
  rw [Std.TreeMap.size_insert, if_pos (Std.TreeMap.mem_iff_contains.mp mem)]

theorem served_hit {op : Op} {old : Block} (hit : c.blockmap[n]? = some old) (ticks : c.Ticks c')
    (map : c'.blockmap = c.blockmap.insert n b) (fresh : c.Fresh op c'.curtime n b)
    (fits : ¬ c.Overfills op) : c.Served op c' := by
  refine served_insert (m := c.blockmap) ticks (fun _ _ => id) map fresh fun within => ?_
  rw [size_hit hit]
  exact iff_of_true within fits

theorem size_miss (miss : c.blockmap[n]? = none) :
    (c.blockmap.insert n b).size = c.blockmap.size + 1 := by
  have absent : ¬ n ∈ c.blockmap := fun mem => by
    rw [Std.TreeMap.mem_iff_isSome_getElem?, miss] at mem
    cases mem
  rw [Std.TreeMap.size_insert, if_neg (mt Std.TreeMap.mem_iff_contains.mpr absent)]

/-- After an eviction for a block that is not cached, the block fits unless the cache was
jammed. -/
theorem fits_iff (evict : c.checkDeleteOldest = .ok (rc, c1))
    (miss : c.blockmap[n]? = none) (within : c.WithinSize) :
    (c1.blockmap.insert n b).size ≤ max 1 c.cachesize.toNat ↔ ¬ c.Jammed := by
  obtain ⟨-, fewer, ⟨jam, map, -⟩ | ⟨free, room⟩⟩ := checkDeleteOldest_inv evict
  · refine iff_of_false ?_ (not_not.mpr jam)
    obtain ⟨full, pos, -⟩ := jam
    rw [map, size_miss miss]
    omega
  · have miss1 : c1.blockmap[n]? = none := by
      cases entry : c1.blockmap[n]? with
      | none => rfl
      | some e => exact absurd (fewer n e entry) (by rw [miss]; simp)
    rw [size_miss miss1]
    exact iff_of_true (room within) free

theorem detachLoop_inv {rest : List (SizeT × Block)}
    (ran : c.detachLoop rest = .ok (rc, c')) :
    c.Ticks c' ∧ (c'.blockmap = c.blockmap ∨ c'.blockmap = ∅) := by
  induction rest generalizing c with
  | nil =>
      cases ran
      exact ⟨.still ⟨rfl, rfl⟩ rfl rfl, Or.inr rfl⟩
  | cons e rest ih =>
      rw [detachLoop] at ran
      split_ifs at ran with dirty
      · cases hback : c.writeBack e.1 e.2 with
        | error f =>
            rw [hback] at ran
            cases ran
        | ok r =>
            obtain ⟨rc1, c1⟩ := r
            rw [hback] at ran
            obtain ⟨ticks, map, -⟩ := writeBack_inv hback
            by_cases code : rc1 = .noError
            · simp only [code, ne_eq, not_true, if_false] at ran
              obtain ⟨ticks', gone⟩ := ih ran
              exact ⟨ticks.trans ticks', by rw [map] at gone; exact gone⟩
            · simp only [ne_eq, code, not_false_eq_true, if_true, Except.ok.injEq, Prod.mk.injEq] at ran
              obtain ⟨-, rfl⟩ := ran
              exact ⟨ticks, Or.inl map⟩
      · exact ih ran

theorem readBlock_served {o : Option Block} (ran : c.readBlock n = .ok (rc, o, c')) :
    c.Served (.request (.read n)) c' := by
  rw [readBlock] at ran
  cases entry : c.blockmap[n]? with
  | some old =>
      rw [entry] at ran
      cases ran
      refine served_hit entry (.still ⟨rfl, rfl⟩ rfl rfl) rfl
        ⟨rfl, rfl, fun dirty => Or.inr ⟨old, entry, dirty⟩⟩ ?_
      rintro ⟨miss, -⟩
      rw [miss] at entry
      cases entry
  | none =>
      rw [entry] at ran
      cases evict : c.checkDeleteOldest with
      | error f =>
          rw [evict] at ran
          cases ran
      | ok r =>
          obtain ⟨rc1, c1⟩ := r
          obtain ⟨ticks, fewer, -⟩ := checkDeleteOldest_inv evict
          cases asked : c1.isBlockAllocated n with
          | error f =>
              simp only [evict, asked] at ran
              cases ran
          | ok bit =>
              cases hread : c1.disk.readOne n with
              | error f =>
                  simp only [evict, asked, hread] at ran
                  cases ran
              | ok r =>
                  obtain ⟨rc2, o2, t, d⟩ := r
                  have ticks2 : c.Ticks { c1 with disk := d, curtime := d.machine.add c1.curtime t } :=
                    ticks.trans (readOne_ticks hread)
                  cases o2 with
                  | none =>
                      simp only [evict, asked, hread, Except.ok.injEq, Prod.mk.injEq] at ran
                      obtain ⟨-, -, rfl⟩ := ran
                      have kept := evict_within evict
                      refine served_fewer ⟨ticks2.same, ticks2.cachesize, ticks2.later⟩ ?_ fewer kept
                      rintro ⟨-, jam, readable⟩
                      exact (jammed_readable evict jam hread).mpr readable rfl
                  | some b =>
                      simp only [evict, asked, hread, Except.ok.injEq, Prod.mk.injEq] at ran
                      obtain ⟨-, -, rfl⟩ := ran
                      refine served_insert (m := c1.blockmap) ⟨ticks2.same, ticks2.cachesize, ticks2.later⟩
                        fewer rfl ⟨rfl, rfl, fun dirty => absurd dirty Bool.false_ne_true⟩ fun within => ?_
                      rw [fits_iff evict entry within]
                      refine not_congr ⟨fun jam => ⟨entry, jam, ?_⟩, fun overfills => overfills.2.1⟩
                      exact (jammed_readable evict jam hread).mp (Option.some_ne_none b)

theorem writeBlock_served (ran : c.writeBlock n b = .ok (rc, c')) :
    c.Served (.request (.write n b)) c' := by
  rw [writeBlock] at ran
  cases entry : c.blockmap[n]? with
  | some old =>
      rw [entry] at ran
      cases ran
      refine served_hit entry (.still ⟨rfl, rfl⟩ rfl rfl) rfl ⟨rfl, rfl, fun _ => Or.inl ⟨b, rfl⟩⟩ ?_
      rintro ⟨miss, -⟩
      rw [miss] at entry
      cases entry
  | none =>
      rw [entry] at ran
      cases evict : c.checkDeleteOldest with
      | error f =>
          rw [evict] at ran
          cases ran
      | ok r =>
          obtain ⟨rc1, c1⟩ := r
          obtain ⟨ticks, fewer, -⟩ := checkDeleteOldest_inv evict
          cases asked : c1.isBlockAllocated n with
          | error f =>
              simp only [evict, asked] at ran
              cases ran
          | ok bit =>
              simp only [evict, asked, Except.ok.injEq, Prod.mk.injEq] at ran
              obtain ⟨-, rfl⟩ := ran
              refine served_insert (m := c1.blockmap) ⟨ticks.same, ticks.cachesize, ticks.later⟩ fewer rfl
                ⟨rfl, rfl, fun _ => Or.inl ⟨b, rfl⟩⟩ fun within => ?_
              rw [fits_iff evict entry within]
              refine not_congr ⟨fun jam => ⟨entry, jam, bit, ?_⟩, fun overfills => overfills.2.1⟩
              rw [← jammed_disk evict jam]
              exact asked

theorem flushBlock_served (ran : c.flushBlock n = .ok (rc, c')) :
    c.Served (.request (.flush n)) c' := by
  rw [flushBlock] at ran
  cases entry : c.blockmap[n]? with
  | none =>
      rw [entry] at ran
      cases ran
      exact served_fewer (.still ⟨rfl, rfl⟩ rfl rfl) id (fun _ _ => id) id
  | some b =>
      rw [entry] at ran
      obtain ⟨ticks, ⟨-, map, -⟩ | ⟨-, map⟩⟩ := removeBlock_inv ran
      · exact served_fewer ticks id (by rw [map]; exact fun _ _ => id) (by rw [map]; exact id)
      · apply served_fewer ticks id
        · rw [map]
          exact erase_fewer c n
        · rw [map]
          exact Std.TreeMap.size_erase_le.trans

theorem served_empty {op : Op} (ticks : c.Ticks c') (fits : ¬ c.Overfills op)
    (empty : c'.blockmap = ∅) : c.Served op c' := by
  apply served_fewer ticks fits
  · intro m e he
    rw [empty] at he
    simp at he
  · intro _
    rw [empty]
    exact Nat.zero_le _

theorem perform_served {op : Op} (ran : c.perform op = .ok (rc, c')) :
    c.Served op c' := by
  cases op with
  | request r =>
      obtain ⟨⟨⟨rc1, o⟩, c1⟩, hserve, same⟩ := Runs.map_eq_ok ran
      cases same
      cases r with
      | read n =>
          obtain ⟨⟨rc2, b, c2⟩, hread, same⟩ := Runs.map_eq_ok hserve
          cases same
          exact readBlock_served hread
      | write n b =>
          obtain ⟨⟨rc2, c2⟩, hwrite, same⟩ := Runs.map_eq_ok hserve
          cases same
          exact writeBlock_served hwrite
      | flush n =>
          obtain ⟨⟨rc2, c2⟩, hflush, same⟩ := Runs.map_eq_ok hserve
          cases same
          exact flushBlock_served hflush
  | attach =>
      cases ran
      exact served_empty (.still ⟨rfl, rfl⟩ rfl rfl) id rfl
  | detach =>
      obtain ⟨ticks, map | empty⟩ := detachLoop_inv ran
      · exact served_fewer ticks id (by rw [map]; exact fun _ _ => id) (by rw [map]; exact id)
      · exact served_empty ticks id empty
  | notifyAllocate n =>
      cases ran
      exact served_fewer (.still (notify_keeps _ c.disk n 1) rfl rfl) id (fun _ _ => id) id
  | notifyDeallocate n =>
      cases ran
      exact served_fewer (.still (notify_keeps _ c.disk n 1) rfl rfl) id (fun _ _ => id) id

/-! ## Runs -/

theorem Jammed.evict (jam : c.Jammed) : ∃ rc c1, c.checkDeleteOldest = .ok (rc, c1) ∧ c1.disk = c.disk := by
  obtain ⟨full, -, stuck⟩ := jam
  rw [checkDeleteOldest, if_neg (not_lt.mpr full)]
  cases picked : findOldest (c.disk.machine.add c.curtime 1) c.blockmap.toList with
  | none => exact ⟨_, _, rfl, rfl⟩
  | some e => exact ⟨_, _, removeBlock_stuck (stuck e.1 e.2 picked), rfl⟩

/-- An operation that overfills the cache succeeds. -/
theorem overfills_ok {op : Op} (overfills : c.Overfills op) : ∃ rc c', c.perform op = .ok (rc, c') := by
  cases op with
  | request r =>
      cases r with
      | read n =>
          obtain ⟨miss, jam, readable⟩ := overfills
          obtain ⟨rc1, c1, evict, disk⟩ := jam.evict
          obtain ⟨b, t, d, hread⟩ := readable.delivers
          obtain ⟨bit, asked⟩ := readable.bit
          rw [← disk] at hread asked
          simp only [perform, serve, readBlock, isBlockAllocated, miss, evict, asked, hread, Except.map]
          exact ⟨_, _, rfl⟩
      | write n b =>
          obtain ⟨miss, jam, bit, asked⟩ := overfills
          obtain ⟨rc1, c1, evict, disk⟩ := jam.evict
          rw [← disk] at asked
          simp only [perform, serve, writeBlock, isBlockAllocated, miss, evict, asked, Except.map]
          exact ⟨_, _, rfl⟩
      | flush n => exact absurd overfills id
  | attach => exact absurd overfills id
  | detach => exact absurd overfills id
  | notifyAllocate n => exact absurd overfills id
  | notifyDeallocate n => exact absurd overfills id

theorem clocked_make {d : DiskSystem} (forward : d.Forward) (cachesize : SizeT) :
    (make d cachesize).Clocked := by
  refine ⟨forward, fun n b hb => ?_⟩
  simp [make] at hb

/-- The cache never holds more blocks than its size, or one, exactly in the runs in which
no operation brings a block into a jammed cache. -/
theorem capacity_iff (d : DiskSystem) (cachesize : SizeT) (ops : List Op) :
    Runs.Visits perform (fun c => c.blockmap.size ≤ max 1 cachesize.toNat) (make d cachesize) ops ↔
      Runs.Along perform (fun c op => ¬ c.Overfills op) (make d cachesize) ops := by
  refine Runs.visits_iff_along (I := fun c => c.cachesize = cachesize) (L := fun _ _ => True)
    ?_ ?_ ?_ rfl (Nat.zero_le _) (Runs.along_true ops _)
  · intro c op _ _ _ overfills
    exact overfills_ok (not_not.mp overfills)
  · intro c op rc c' size _ ran
    exact (perform_served ran).ticks.cachesize.trans size
  · intro c op rc c' size within _ ran
    have served := perform_served ran
    rw [← size] at within ⊢
    rw [← served.size within, WithinSize, served.ticks.cachesize]

/-- What is written passes the range check of the disk. -/
def Op.WritesInside (cfg : DiskConfig) : Op → Prop
  | .request (.write n _) => ¬ n + 1 > cfg.numblocks
  | _ => True

/-- Then no block is ever stuck, and without rounding one is always picked. -/
theorem inside_never_overfills (d : DiskSystem) (exact : d.machine.Exact)
    (geometry : sanityCheckConfig d.toDiskConfig = .noError) (cachesize : SizeT) (ops : List Op)
    (inside : ∀ op ∈ ops, op.WritesInside d.toDiskConfig) :
    Runs.Along perform (fun c op => ¬ c.Overfills op) (make d cachesize) ops := by
  refine Runs.along_of_invariant (L := Op.WritesInside d.toDiskConfig)
    (I := fun c => c.Clocked ∧ c.disk.machine.Exact ∧ c.disk.toDiskConfig = d.toDiskConfig ∧
      ∀ (n : SizeT) (b : Block), c.blockmap[n]? = some b → ¬ c.Stuck n b) ?_ ?_ ?_ inside
  · rintro c op rc c' ⟨h, exact, config, free⟩ legal ran
    have served := perform_served ran
    have config' := served.ticks.config
    refine ⟨served.clocked h, by rw [served.ticks.same.2]; exact exact, config'.trans config, ?_⟩
    rintro n b hb ⟨dirty, past⟩
    rw [config'] at past
    rcases served.entries n b hb with before | fresh
    · exact free n b before ⟨dirty, past⟩
    · rcases fresh.dirty dirty with ⟨b', rfl⟩ | ⟨old, before, was⟩
      · rw [config] at past
        exact legal past
      · exact free n old before ⟨was, past⟩
  · rintro c op ⟨h, exact, -, free⟩ -
    have unjammed : ¬ c.Jammed := by
      rintro ⟨-, nonempty, stuck⟩
      obtain ⟨v, b, picked, entry⟩ := h.victim exact nonempty
      exact free v b entry (stuck v b picked)
    rcases op with (n | ⟨n, b⟩ | n) | _ | _ | n | n
    · exact fun overfills => unjammed overfills.2.1
    · exact fun overfills => unjammed overfills.2.1
    all_goals exact id
  · refine ⟨clocked_make (.of_exact exact geometry) cachesize, exact, rfl, fun n b hb => ?_⟩
    simp [make] at hb

theorem capacity_iff_small :
    Runs.Visits perform (fun c => c.blockmap.size ≤ max 1 (1 : SizeT).toNat)
      (make (DiskSystem.make .small DiskSystem.smallConfig ByteFile.empty) 1)
      [.request (.write 3 sevens), .request (.read 64), .request (.read 5), .detach] := by
  refine (capacity_iff (DiskSystem.make .small DiskSystem.smallConfig ByteFile.empty) 1 _).mpr
    (inside_never_overfills _ Machine.small_exact DiskSystem.smallConfig_accepted 1 _ ?_)
  simp only [List.forall_mem_cons, List.not_mem_nil, false_imp_iff, implies_true, Op.WritesInside, and_true]
  decide

/-- Two writes to blocks that do not exist fill a cache of one block twice. -/
theorem outside_writes_pile_up :
    ¬ Runs.Visits perform (fun c => c.blockmap.size ≤ max 1 (1 : SizeT).toNat)
      (make (DiskSystem.make .small DiskSystem.smallConfig ByteFile.empty) 1)
      [.request (.write 100 sevens), .request (.write 101 sevens)] := by
  intro visits
  let c1 : BufferCache := { make (DiskSystem.make .small DiskSystem.smallConfig ByteFile.empty) 1 with
    blockmap := (∅ : Std.TreeMap SizeT Block).insert 100 { sevens with lastaccessed := 0, dirty := true }
    writes := 1 }
  have first : perform (make (DiskSystem.make .small DiskSystem.smallConfig ByteFile.empty) 1)
      (.request (.write 100 sevens)) = .ok (.noError, c1) := rfl
  have jam : c1.Jammed := by
    refine ⟨le_rfl, one_ne_zero, fun v b picked => ?_⟩
    have hb := Std.TreeMap.mem_toList_iff_getElem?_eq_some.mp (findOldest_mem picked)
    rw [entry_insert] at hb
    split_ifs at hb with same
    · cases hb
      rw [same]
      exact ⟨rfl, by decide⟩
    · simp at hb
  have overfills : c1.Overfills (.request (.write 101 sevens)) := ⟨by decide, jam, false, by decide⟩
  obtain ⟨rc, c2, second⟩ := overfills_ok overfills
  have served := perform_served second
  have within := ((visits.2 _ _ first).2 _ _ second).head
  have size : c2.cachesize = 1 := served.ticks.cachesize
  exact (served.size le_rfl).mp (by rw [WithinSize, size]; exact within) overfills

end BTreeLab.BufferCache
