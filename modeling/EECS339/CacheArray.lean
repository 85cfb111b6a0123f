import EECS339.Lib.WriteBack
import EECS339.BufferCache
import EECS339.DiskArray

/-!
# The buffer cache refines an array of blocks

Seen through the cache the disk is an array: the overlay of the cached bytes on
the disk bytes changes only where a block is written, whatever the replacement
policy evicts and whenever it does.
-/
namespace BTreeLab

abbrev BlockArray := SizeT → List ByteT

namespace BufferCache
open DiskSystem (Sound)

/-- The cached bytes with their dirty flags over the blocks of the disk. -/
def view (c : BufferCache) : WriteBack SizeT (List ByteT) where
  cached n := c.blockmap[n]?.map fun b => (b.data, b.dirty)
  store := c.disk.blocks

/-- What a reader of the cache sees. -/
def logical (c : BufferCache) : BlockArray := c.view.overlay

/-- Every cached block exists and has the block size, and no clean one differs
from the disk. -/
structure Valid (c : BufferCache) : Prop where
  sound : c.disk.Sound
  inRange : ∀ n b, c.blockmap[n]? = some b → n < c.disk.numblocks ∧ b.length = c.disk.blocksize.toNat
  coherent : c.view.Coherent

/-- What no cache operation other than the notifications changes. -/
structure Keeps (c c' : BufferCache) : Prop where
  config : c'.disk.toDiskConfig = c.disk.toDiskConfig
  machine : c'.disk.machine = c.disk.machine
  bitmap : c'.disk.bitmap = c.disk.bitmap

theorem Keeps.refl (c : BufferCache) : c.Keeps c := ⟨rfl, rfl, rfl⟩

theorem Keeps.trans {c c' c'' : BufferCache} (h : c.Keeps c') (h' : c'.Keeps c'') : c.Keeps c'' :=
  ⟨h'.config.trans h.config, h'.machine.trans h.machine, h'.bitmap.trans h.bitmap⟩

theorem keeps_of_disk {c c' : BufferCache} (h : c.disk.Keeps c'.disk) : c.Keeps c' :=
  ⟨h.config, h.machine, h.bitmap⟩

theorem entry_insert (m : Std.TreeMap SizeT Block) (n : SizeT) (b : Block) (j : SizeT) :
    (m.insert n b)[j]? = if j = n then some b else m[j]? := by
  rw [Std.TreeMap.getElem?_insert]
  by_cases same : j = n
  · rw [if_pos same, if_pos (by rw [same]; exact Std.ReflCmp.compare_self)]
  · rw [if_neg same, if_neg fun e => same (Std.LawfulEqCmp.eq_of_compare e).symm]

theorem entry_erase (m : Std.TreeMap SizeT Block) (n j : SizeT) :
    (m.erase n)[j]? = if j = n then none else m[j]? := by
  rw [Std.TreeMap.getElem?_erase]
  by_cases same : j = n
  · rw [if_pos same, if_pos (by rw [same]; exact Std.ReflCmp.compare_self)]
  · rw [if_neg same, if_neg fun e => same (Std.LawfulEqCmp.eq_of_compare e).symm]

theorem view_insert {c : BufferCache} {n : SizeT} {b : Block} (j : SizeT) :
    ((c.blockmap.insert n b)[j]?.map fun b => (b.data, b.dirty)) =
      Function.update c.view.cached n (some (b.data, b.dirty)) j := by
  rw [entry_insert, Function.update_apply]
  split_ifs <;> rfl

theorem view_erase {c : BufferCache} {n : SizeT} (j : SizeT) :
    ((c.blockmap.erase n)[j]?.map fun b => (b.data, b.dirty)) =
      Function.update c.view.cached n none j := by
  rw [entry_erase, Function.update_apply]
  split_ifs <;> rfl

theorem logical_of_cached {c : BufferCache} {n : SizeT} {b : Block} (h : c.blockmap[n]? = some b) :
    c.logical n = b.data :=
  WriteBack.overlay_of_some (d := b.dirty) (by simp [view, h])

theorem logical_of_not_cached {c : BufferCache} {n : SizeT} (h : c.blockmap[n]? = none) :
    c.logical n = c.disk.blocks n :=
  WriteBack.overlay_of_none (by simp [view, h])

theorem Valid.logical_outside {c : BufferCache} (h : c.Valid) {n : SizeT}
    (hn : ¬ n < c.disk.numblocks) : c.logical n = [] := by
  cases hc : c.blockmap[n]? with
  | none => rw [logical_of_not_cached hc, DiskSystem.blocks, if_neg hn]
  | some b => exact absurd (h.inRange n b hc).1 hn

theorem Valid.saved_clean {c : BufferCache} (h : c.Valid) {n : SizeT} {b : Block}
    (hb : c.blockmap[n]? = some b) (dirty : b.dirty = false) : c.view.Saved n := by
  have entry : c.view.cached n = some (b.data, false) := by simp [view, hb, dirty]
  intro v d hv
  rw [entry] at hv
  cases hv
  exact h.coherent n _ entry

/-! ## One entry is written back or dropped -/

theorem writeBack_ok {c : BufferCache} (h : c.Valid) {n : SizeT} {b : Block}
    (hb : c.blockmap[n]? = some b) (dirty : b.dirty = true) :
    ∃ c', c.writeBack n b = .ok (.noError, c') ∧ c'.Valid ∧ c.Keeps c' ∧
      c'.blockmap = c.blockmap ∧ c'.view = c.view.save n := by
  obtain ⟨hn, hlen⟩ := h.inRange n b hb
  obtain ⟨t, d, hwrite, keep, put⟩ := DiskSystem.writeOne_ok h.sound hn hlen
  have saved : { c.view with store := d.blocks } = c.view.save n := by
    have entry : c.view.cached n = some (b.data, true) := by simp [view, hb, dirty]
    simp only [WriteBack.save, entry, put]
    rfl
  refine ⟨{ c with disk := d, curtime := d.machine.add c.curtime t, diskwrites := c.diskwrites + 1 },
    by simp only [writeBack, hwrite], ⟨h.sound.keeps keep, ?_, ?_⟩, keeps_of_disk keep, rfl, saved⟩
  · intro j e he
    simp only [keep.config]
    exact h.inRange j e he
  · have coherent := h.coherent.save n
    rw [← saved] at coherent
    exact coherent

theorem erase_ok {c : BufferCache} (h : c.Valid) {n : SizeT} (saved : c.view.Saved n) :
    let c' := { c with blockmap := c.blockmap.erase n }
    c'.Valid ∧ c.Keeps c' ∧ c'.logical = c.logical := by
  intro c'
  have dropped : c'.view = c.view.drop n :=
    congrArg (WriteBack.mk · c.disk.blocks) (funext view_erase)
  refine ⟨⟨h.sound, ?_, ?_⟩, ⟨rfl, rfl, rfl⟩, ?_⟩
  · intro j e he
    refine h.inRange j e ?_
    rw [entry_erase] at he
    split_ifs at he
    exact he
  · rw [dropped]
    exact h.coherent.drop n
  · rw [logical, dropped, WriteBack.overlay_drop saved]
    rfl

theorem removeBlock_ok {c : BufferCache} (h : c.Valid) {n : SizeT} {b : Block}
    (hb : c.blockmap[n]? = some b) :
    ∃ c', c.removeBlock n b = .ok (.noError, c') ∧ c'.Valid ∧ c.Keeps c' ∧
      c'.logical = c.logical ∧ c'.blockmap = c.blockmap.erase n := by
  cases dirty : b.dirty with
  | true =>
      obtain ⟨c1, hback, h1, k1, map1, view1⟩ := writeBack_ok h hb dirty
      have saved : c1.view.Saved n := by
        rw [view1]
        exact WriteBack.saved_save h.coherent n
      obtain ⟨h2, k2, same⟩ := erase_ok h1 saved
      refine ⟨_, ?_, h2, k1.trans k2, same.trans ?_, by rw [map1]⟩
      · simp only [removeBlock, dirty, if_true, hback, ne_eq, not_true, if_false]
      · rw [logical, view1, WriteBack.overlay_save]
        rfl
  | false =>
      obtain ⟨h2, k2, same⟩ := erase_ok h (h.saved_clean hb dirty)
      refine ⟨_, ?_, h2, k2, same, rfl⟩
      simp only [removeBlock, dirty, Bool.false_eq_true, if_false]

/-! ## The operations -/

theorem findOldest_mem {bound : ℚ} {entries : List (SizeT × Block)} {e : SizeT × Block}
    (h : findOldest bound entries = some e) : e ∈ entries := by
  unfold findOldest at h
  induction entries using List.reverseRecOn with
  | nil => cases h
  | append_singleton l x ih =>
      rw [List.foldl_append, List.foldl_cons, List.foldl_nil] at h
      split_ifs at h with older
      · cases h
        exact List.mem_append_right _ (List.mem_singleton_self _)
      · exact List.mem_append_left _ (ih h)

/-- An eviction is invisible, and brings no block into the cache. -/
theorem checkDeleteOldest_ok {c : BufferCache} (h : c.Valid) :
    ∃ c', c.checkDeleteOldest = .ok (.noError, c') ∧ c'.Valid ∧ c.Keeps c' ∧
      c'.logical = c.logical ∧ ∀ n : SizeT, c.blockmap[n]? = none → c'.blockmap[n]? = none := by
  unfold checkDeleteOldest
  split_ifs with room
  · exact ⟨c, rfl, h, .refl c, rfl, fun _ none => none⟩
  · cases victim : findOldest (c.disk.machine.add c.curtime 1) c.blockmap.toList with
    | none => exact ⟨c, rfl, h, .refl c, rfl, fun _ none => none⟩
    | some e =>
        have hb := Std.TreeMap.mem_toList_iff_getElem?_eq_some.mp (findOldest_mem victim)
        obtain ⟨c', hremove, h', k, same, map⟩ := removeBlock_ok h hb
        refine ⟨c', hremove, h', k, same, fun n none => ?_⟩
        rw [map, entry_erase, none, ite_self]

theorem insert_ok {c : BufferCache} (h : c.Valid) {n : SizeT} {b : Block}
    (hn : n < c.disk.numblocks) (hb : b.length = c.disk.blocksize.toNat)
    (c' : BufferCache) (disk : c'.disk = c.disk) (map : c'.blockmap = c.blockmap.insert n b)
    (clean : b.dirty = false → c.disk.blocks n = b.data) : c'.Valid ∧ c.Keeps c' ∧
      c'.logical = Function.update c.logical n b.data := by
  have entry : c'.view = c.view.put n b.data b.dirty := by
    simp only [view, disk, map]
    exact congrArg (WriteBack.mk · c.disk.blocks) (funext view_insert)
  refine ⟨⟨by rw [disk]; exact h.sound, ?_, ?_⟩, keeps_of_disk (disk ▸ .refl _), ?_⟩
  · intro j e he
    rw [map, entry_insert] at he
    rw [disk]
    split_ifs at he with same
    · cases he
      rw [same]
      exact ⟨hn, hb⟩
    · exact h.inRange j e he
  · rw [entry]
    exact h.coherent.put clean
  · rw [logical, entry, WriteBack.overlay_put]
    rfl

theorem touch_ok {c : BufferCache} (h : c.Valid) (c' : BufferCache) (map : c'.blockmap = c.blockmap)
    (keep : c.disk.Keeps c'.disk) (same : c'.disk.blocks = c.disk.blocks) :
    c'.Valid ∧ c.Keeps c' ∧ c'.logical = c.logical := by
  have eq : c'.view = c.view := by simp only [view, map, same]
  refine ⟨⟨h.sound.keeps keep, ?_, by rw [eq]; exact h.coherent⟩, keeps_of_disk keep, ?_⟩
  · rw [map, keep.config]
    exact h.inRange
  · rw [logical, eq]
    rfl

theorem readBlock_ok {c : BufferCache} (h : c.Valid) {n : SizeT} (hn : n < c.disk.numblocks) :
    ∃ b c', c.readBlock n = .ok (.noError, some b, c') ∧ b.data = c.logical n ∧
      c'.Valid ∧ c.Keeps c' ∧ c'.logical = c.logical := by
  unfold readBlock
  cases hc : c.blockmap[n]? with
  | some b =>
      have clean : b.dirty = false → c.disk.blocks n = b.data := by
        intro dirty
        exact h.coherent n _ (by simp [view, hc, dirty])
      obtain ⟨h', k, put⟩ := insert_ok h (b := { b with lastaccessed := c.curtime })
        hn (h.inRange n b hc).2 { c with
          blockmap := c.blockmap.insert n { b with lastaccessed := c.curtime }
          reads := c.reads + 1 } rfl rfl clean
      refine ⟨b, _, rfl, (logical_of_cached hc).symm, h', k, ?_⟩
      rw [put, ← logical_of_cached hc, Function.update_eq_self]
  | none =>
      obtain ⟨c1, hevict, h1, k1, same1, kept⟩ := checkDeleteOldest_ok h
      have hn1 : n < c1.disk.numblocks := by rw [k1.config]; exact hn
      obtain ⟨t, d, hread, keep, same2⟩ := DiskSystem.readOne_ok h1.sound hn1
      let c2 : BufferCache :=
        { c1 with disk := d, curtime := d.machine.add c1.curtime t, diskreads := c1.diskreads + 1 }
      obtain ⟨h2, k2, same2'⟩ := touch_ok h1 c2 rfl keep same2
      have hn2 : n < c2.disk.numblocks := by rw [k2.config]; exact hn1
      let b : Block := { Block.ofBytes (c1.disk.blocks n) with lastaccessed := c2.curtime }
      have stored : c2.disk.blocks n = b.data := congrFun same2 n
      obtain ⟨h3, k3, put⟩ := insert_ok h2 (b := b) hn2
        (by rw [Block.length, ← stored, DiskSystem.blocks_length hn2])
        { c2 with blockmap := c2.blockmap.insert n b, reads := c2.reads + 1 } rfl rfl (fun _ => stored)
      have seen : b.data = c2.logical n := by
        rw [same2', logical_of_not_cached (kept n hc)]
        rfl
      refine ⟨b, _, ?_, ?_, h3, k1.trans (k2.trans k3), ?_⟩
      · simp only [hevict, isBlockAllocated, DiskSystem.isBlockAllocated_ok hn1, hread]
        rfl
      · rw [seen, same2', same1]
      · rw [put, seen, Function.update_eq_self, same2', same1]

theorem writeBlock_ok {c : BufferCache} (h : c.Valid) {n : SizeT} {b : Block}
    (hn : n < c.disk.numblocks) (hb : b.length = c.disk.blocksize.toNat) :
    ∃ c', c.writeBlock n b = .ok (.noError, c') ∧ c'.Valid ∧ c.Keeps c' ∧
      c'.logical = Function.update c.logical n b.data := by
  unfold writeBlock
  cases hc : c.blockmap[n]? with
  | some old =>
      obtain ⟨h', k, put⟩ := insert_ok h (b := { b with lastaccessed := c.curtime, dirty := true })
        hn hb { c with
          blockmap := c.blockmap.insert n { b with lastaccessed := c.curtime, dirty := true }
          writes := c.writes + 1 } rfl rfl (by simp)
      exact ⟨_, rfl, h', k, put⟩
  | none =>
      obtain ⟨c1, hevict, h1, k1, same1, -⟩ := checkDeleteOldest_ok h
      have hn1 : n < c1.disk.numblocks := by rw [k1.config]; exact hn
      obtain ⟨h', k, put⟩ := insert_ok h1 (b := { b with lastaccessed := c1.curtime, dirty := true })
        hn1 (by rw [k1.config]; exact hb) { c1 with
          blockmap := c1.blockmap.insert n { b with lastaccessed := c1.curtime, dirty := true }
          writes := c1.writes + 1 } rfl rfl (by simp)
      refine ⟨_, ?_, h', k1.trans k, by rw [put, same1]⟩
      simp only [hevict, isBlockAllocated, DiskSystem.isBlockAllocated_ok hn1]

theorem flushBlock_ok {c : BufferCache} (h : c.Valid) (n : SizeT) :
    ∃ c', c.flushBlock n = .ok (.noError, c') ∧ c'.Valid ∧ c.Keeps c' ∧ c'.logical = c.logical := by
  unfold flushBlock
  cases hc : c.blockmap[n]? with
  | none => exact ⟨c, rfl, h, .refl c, rfl⟩
  | some b =>
      obtain ⟨c', hremove, h', k, same, -⟩ := removeBlock_ok h hc
      exact ⟨c', hremove, h', k, same⟩

/-- Every cached block is still to come or has been saved. -/
def Passed (c : BufferCache) (rest : List (SizeT × Block)) : Prop :=
  ∀ (n : SizeT) b, c.blockmap[n]? = some b → (n, b) ∈ rest ∨ c.view.Saved n

theorem Passed.tail {c c1 : BufferCache} {n : SizeT} {b : Block} {rest : List (SizeT × Block)}
    (passed : c.Passed ((n, b) :: rest)) (map : c1.blockmap = c.blockmap) (saved : c1.view.Saved n)
    (keep : ∀ m, c.view.Saved m → c1.view.Saved m) : c1.Passed rest := by
  intro m b' hm
  rw [map] at hm
  rcases passed m b' hm with here | before
  · rcases List.mem_cons.mp here with eq | later
    · cases eq
      exact Or.inr saved
    · exact Or.inl later
  · exact Or.inr (keep m before)

/-- With nothing to come the map can be cleared. -/
theorem Passed.clear {c : BufferCache} (h : c.Valid) (passed : c.Passed []) :
    Valid { c with blockmap := ∅ } ∧ c.Keeps { c with blockmap := ∅ } ∧
      c.disk.blocks = c.logical := by
  have saved : ∀ n, c.view.Saved n := by
    intro n v dirty hv
    simp only [view, Option.map_eq_some_iff] at hv
    obtain ⟨b, hb, eq⟩ := hv
    rcases passed n b hb with absent | saved
    · cases absent
    · exact saved v dirty (by simp [view, hb, ← eq])
  refine ⟨⟨h.sound, ?_, ?_⟩, ⟨rfl, rfl, rfl⟩, WriteBack.overlay_clear saved⟩
  · intro n b hb
    simp at hb
  · intro n v hv
    simp [view] at hv

theorem detachLoop_ok {c : BufferCache} (h : c.Valid) {rest : List (SizeT × Block)}
    (members : ∀ e ∈ rest, c.blockmap[e.1]? = some e.2) (passed : c.Passed rest) :
    ∃ c', c.detachLoop rest = .ok (.noError, c') ∧ c'.Valid ∧ c.Keeps c' ∧
      c'.blockmap = ∅ ∧ c'.disk.blocks = c.logical := by
  induction rest generalizing c with
  | nil =>
      obtain ⟨valid, keeps, all⟩ := passed.clear h
      exact ⟨{ c with blockmap := ∅ }, rfl, valid, keeps, rfl, all⟩
  | cons e rest ih =>
      obtain ⟨n, b⟩ := e
      have hb : c.blockmap[n]? = some b := members (n, b) List.mem_cons_self
      cases dirty : b.dirty with
      | true =>
          obtain ⟨c1, hback, h1, k1, map1, view1⟩ := writeBack_ok h hb dirty
          have members1 : ∀ e ∈ rest, c1.blockmap[e.1]? = some e.2 := by
            intro e m
            rw [map1]
            exact members e (List.mem_cons_of_mem _ m)
          have passed1 : c1.Passed rest := by
            refine passed.tail map1 ?_ ?_ <;> rw [view1]
            · exact WriteBack.saved_save h.coherent n
            · exact fun m saved => saved.save n
          obtain ⟨c', hloop, h', k', empty, all⟩ := ih h1 members1 passed1
          refine ⟨c', ?_, h', k1.trans k', empty, ?_⟩
          · simp only [detachLoop, dirty, if_true, hback, ne_eq, not_true, if_false]
            exact hloop
          · rw [all, logical, view1, WriteBack.overlay_save]
            rfl
      | false =>
          -- a clean entry is skipped: the disk has it already
          obtain ⟨c', hloop, rest'⟩ := ih h (fun e m => members e (List.mem_cons_of_mem _ m))
            (passed.tail rfl (h.saved_clean hb dirty) fun _ saved => saved)
          exact ⟨c', by simpa only [detachLoop, dirty, Bool.false_eq_true, if_false] using hloop, rest'⟩

theorem detach_ok {c : BufferCache} (h : c.Valid) :
    ∃ c', c.detach = .ok (.noError, c') ∧ c'.Valid ∧ c.Keeps c' ∧
      c'.blockmap = ∅ ∧ c'.disk.blocks = c.logical :=
  detachLoop_ok h (fun _ m => Std.TreeMap.mem_toList_iff_getElem?_eq_some.mp m)
    (fun _ _ hb => Or.inl (Std.TreeMap.mem_toList_iff_getElem?_eq_some.mpr hb))

/-! ## Runs of requests -/

inductive Request where
  | read (n : SizeT)
  | write (n : SizeT) (block : Block)
  | flush (n : SizeT)

/-- The error code and, for a successful read, the bytes of `outblock`. -/
abbrev Reply := ErrorT × Option (List ByteT)

def serve (c : BufferCache) : Request → Except Fault (Reply × BufferCache)
  | .read n => (c.readBlock n).map fun r => ((r.1, r.2.1.map Block.data), r.2.2)
  | .write n b => (c.writeBlock n b).map fun r => ((r.1, none), r.2)
  | .flush n => (c.flushBlock n).map fun r => ((r.1, none), r.2)

/-- The same requests on a plain array of blocks. -/
def serveArray (a : BlockArray) : Request → Reply × BlockArray
  | .read n => ((.noError, some (a n)), a)
  | .write n b => ((.noError, none), Function.update a n b.data)
  | .flush _ => ((.noError, none), a)

def Request.InRange (c : DiskConfig) : Request → Prop
  | .read n => n < c.numblocks
  | .write n b => n < c.numblocks ∧ b.length = c.blocksize.toNat
  | .flush n => n < c.numblocks

theorem valid_make {d : DiskSystem} (h : d.Sound) (cachesize : SizeT) :
    (make d cachesize).Valid ∧ (make d cachesize).logical = d.blocks := by
  refine ⟨⟨h, ?_, ?_⟩, ?_⟩
  · intro n b hb
    simp [make] at hb
  · intro n v hv
    simp [make, view] at hv
  · funext n
    exact logical_of_not_cached (by simp [make])

theorem serve_simulates {cfg : DiskConfig} (c : BufferCache) (a : BlockArray) (op : Request)
    (related : c.Valid ∧ c.disk.toDiskConfig = cfg ∧ c.logical = a) (range : op.InRange cfg) :
    ∃ c', c.serve op = .ok ((serveArray a op).1, c') ∧
      c'.Valid ∧ c'.disk.toDiskConfig = cfg ∧ c'.logical = (serveArray a op).2 := by
  obtain ⟨h, rfl, rfl⟩ := related
  cases op with
  | read n =>
      obtain ⟨b, c', hread, bytes, h', k, same⟩ := readBlock_ok h range
      refine ⟨c', ?_, h', k.config, same⟩
      simp only [serve, hread, Except.map, Option.map_some, bytes, serveArray]
  | write n b =>
      obtain ⟨c', hwrite, h', k, put⟩ := writeBlock_ok h range.1 range.2
      refine ⟨c', ?_, h', k.config, put⟩
      simp only [serve, hwrite, Except.map, serveArray]
  | flush n =>
      obtain ⟨c', hflush, h', k, same⟩ := flushBlock_ok h n
      refine ⟨c', ?_, h', k.config, same⟩
      simp only [serve, hflush, Except.map, serveArray]

/-- Whatever the cache size, requests in range are answered as by the array that
starts with the blocks of the disk; the overlay is that array after every run,
clean blocks agree with the disk, and `Detach` leaves the array on the disk. -/
theorem serve_refines_array (d : DiskSystem)
    (geometry : sanityCheckConfig d.toDiskConfig = .noError) (fits : d.Fits) (ops : List Request)
    (range : ∀ op ∈ ops, op.InRange d.toDiskConfig) (cachesize : SizeT) :
    ∃ c, Runs.run serve (make d cachesize) ops = .ok ((Runs.runSpec serveArray d.blocks ops).1, c) ∧
      c.logical = (Runs.runSpec serveArray d.blocks ops).2 ∧
      (∀ (n : SizeT) b, c.blockmap[n]? = some b → b.dirty = false → b.data = c.disk.blocks n) ∧
      ∃ c', c.detach = .ok (.noError, c') ∧ c'.blockmap = ∅ ∧
        c'.disk.blocks = (Runs.runSpec serveArray d.blocks ops).2 := by
  obtain ⟨h, same⟩ := valid_make (fits.sound geometry) cachesize
  obtain ⟨c, hrun, hc, -, final⟩ := Runs.run_simulates serve_simulates
    (s := make d cachesize) (t := d.blocks) ⟨h, rfl, same⟩ (Runs.legal_of_forall range _)
  obtain ⟨c', hdetach, -, -, empty, all⟩ := detach_ok hc
  refine ⟨c, hrun, final, ?_, c', hdetach, empty, all.trans final⟩
  intro n b hb dirty
  exact (hc.saved_clean hb dirty _ false (by simp [view, hb, dirty])).symm

def sevens : Block := Block.ofBytes (List.replicate 1024 7)

theorem sevens_length : sevens.length = 1024 := List.length_replicate

/-- Without room for a second block, a read after an eviction still sees the write. -/
theorem serve_refines_array_small :
    ∃ c, Runs.run serve (make (DiskSystem.make .small DiskSystem.smallConfig ByteFile.empty) 0)
        [.write 3 sevens, .read 5, .read 3] =
      .ok ([(.noError, none), (.noError, some (List.replicate 1024 0)),
        (.noError, some sevens.data)], c) := by
  obtain ⟨c, hrun, -⟩ := serve_refines_array (DiskSystem.make .small DiskSystem.smallConfig ByteFile.empty)
    DiskSystem.smallConfig_accepted (by decide) [.write 3 sevens, .read 5, .read 3]
    (by simpa [Request.InRange] using ⟨⟨by decide, sevens_length⟩, by decide, by decide⟩) 0
  refine ⟨c, hrun.trans ?_⟩
  simp only [Runs.runSpec, serveArray, ne_eq, (by decide : (5 : SizeT) ≠ 3), not_false_eq_true,
    Function.update_of_ne, Function.update_self, DiskSystem.smallConfig_blocks (n := 5) (by decide)]

end BufferCache
end BTreeLab
