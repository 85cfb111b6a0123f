import EECS339.RangeChecks
import EECS339.ToolRuns

/-!
# What the tools store and what they leave alone

Bytes that are written come back exactly if none of them is white space, because `cin >> c`
skips white space. The tools that only read leave the configuration and the bitmap byte for
byte as they are, and at most extend the data file.
-/
namespace BTreeLab
open PackedBits ConfigFile Store
open DiskSystem (Sound)

namespace Tools

variable {c : DiskConfig} {d : DiskSystem} {f : Files} {s : Store} {stem : Text} {u : Uninitialized}
  {n k i : SizeT} {count : Nat} {stdin : List ByteT}

/-! ## What is stored -/

/-- The blocks from `n` on, one behind the other, when they take their shares of the input. -/
def stored (u : Uninitialized) (blocksize n : SizeT) : Nat → List ByteT → List ByteT
  | 0, _ => []
  | count + 1, input =>
      overlay (fresh u blocksize n) input ++ stored u blocksize (n + 1) count (input.drop blocksize.toNat)

/-- One turn gives block `i` its share; whether the block is marked does not matter. -/
def Takes (u : Uninitialized) (blocksize : SizeT) (put : Store × List ByteT → SizeT → Store × List ByteT) :
    Prop :=
  ∀ p i, (put p i).1.blocks = Function.update p.1.blocks i (overlay (fresh u blocksize i) p.2) ∧
    (put p i).2 = p.2.drop blocksize.toNat

theorem takes_take (u : Uninitialized) (blocksize : SizeT) : Takes u blocksize (take u blocksize) :=
  fun _ _ => ⟨rfl, rfl⟩

theorem takes_allocateAndTake (u : Uninitialized) (blocksize : SizeT) :
    Takes u blocksize (allocateAndTake u blocksize) :=
  fun _ _ => ⟨rfl, rfl⟩

section Shares

variable {blocksize : SizeT} {put : Store × List ByteT → SizeT → Store × List ByteT}

theorem foldl_outside (takes : Takes u blocksize put) (is : List SizeT) (p : Store × List ByteT)
    (outside : i ∉ is) : (is.foldl put p).1.blocks i = p.1.blocks i := by
  induction is generalizing p with
  | nil => rfl
  | cons j is ih =>
      obtain ⟨ne, outside⟩ := List.ne_and_not_mem_of_not_mem_cons outside
      rw [List.foldl_cons, ih (put p j) outside, (takes p j).1, Function.update_of_ne ne]

theorem flatMap_foldl (takes : Takes u blocksize put) (n : SizeT) (count : Nat) (p : Store × List ByteT)
    (small : n.toNat + count < 2 ^ 32) :
    (upFrom n count).flatMap ((upFrom n count).foldl put p).1.blocks = stored u blocksize n count p.2 := by
  induction count generalizing n p with
  | zero => rfl
  | succ count ih =>
      have next : (n + 1).toNat = n.toNat + 1 := succ_toNat small
      have outside : n ∉ upFrom (n + 1) count := by
        rw [mem_upFrom (by omega)]
        omega
      obtain ⟨blocks, rest⟩ := takes p n
      rw [upFrom, List.foldl_cons, List.flatMap_cons, ih (n + 1) (put p n) (by omega),
        foldl_outside takes _ _ outside, blocks, Function.update_self, rest, stored]

/-- If there are enough characters, exactly these are stored. -/
theorem stored_enough (u : Uninitialized) (blocksize n : SizeT) (count : Nat) (input : List ByteT)
    (enough : count * blocksize.toNat ≤ input.length) :
    stored u blocksize n count input = input.take (count * blocksize.toNat) := by
  induction count generalizing n input with
  | zero => simp [stored]
  | succ count ih =>
      rw [Nat.add_mul, Nat.one_mul] at enough ⊢
      have first : overlay (fresh u blocksize n) input = input.take blocksize.toNat := by
        rw [overlay, fresh_length, List.drop_eq_nil_of_le (by rw [fresh_length]; omega), List.append_nil]
      rw [stored, first, ih (n + 1) (input.drop blocksize.toNat) (by rw [List.length_drop]; omega),
        Nat.add_comm, List.take_add]

/-- Only characters and what the memory held. -/
theorem mem_stored {b : ByteT} {input : List ByteT} (mem : b ∈ stored u blocksize n count input) :
    b ∈ input ∨ ∃ i j, b = u.block i j := by
  induction count generalizing n input with
  | zero => cases mem
  | succ count ih =>
      rw [stored, List.mem_append] at mem
      rcases mem with first | later
      · rcases List.mem_append.mp first with front | back
        · exact Or.inl (List.mem_of_mem_take front)
        · obtain ⟨j, -, same⟩ := List.mem_map.mp (List.mem_of_mem_drop back)
          exact Or.inr ⟨n, j, same.symm⟩
      · rcases ih later with front | memory
        · exact Or.inl (List.mem_of_mem_drop front)
        · exact Or.inr memory

end Shares

theorem loopRange_eq (whole : n.toNat + k.toNat < 2 ^ 32) : loopRange n k = upFrom n k.toNat := by
  rw [loopRange, BitVec.toNat_add, Nat.mod_eq_of_lt whole, Nat.add_sub_cancel_left]

/-- Every block of a range that fits exists. -/
theorem all_there (range : n.toNat + k.toNat ≤ c.numblocks.toNat) :
    ∀ i ∈ upFrom n k.toNat, act.there c i = true := by
  intro i mem
  have bound := c.numblocks.isLt
  have inside := (mem_upFrom (by omega)).mp mem
  exact decide_eq_true (BitVec.lt_def.mpr (by omega))

theorem existing_eq (range : n.toNat + k.toNat ≤ c.numblocks.toNat) (rc : ErrorT) :
    act.existing c (loopRange n k) = upFrom n k.toNat ∧ act.result c rc (loopRange n k) = .noError := by
  have bound := c.numblocks.isLt
  rw [loopRange_eq (by omega)]
  exact ⟨List.takeWhile_eq_self_iff.mpr (all_there range), if_pos (List.all_eq_true.mpr (all_there range))⟩

/-- The tools that write the blocks from `n` on. -/
def Writes (n k : SizeT) (stdin : List ByteT) (tool : Tool) : Prop :=
  tool = .writedisk n k stdin ∨ ∃ cachesize, tool = .writebuffer cachesize n k stdin

/-- The tools that print them. -/
def Prints (n k : SizeT) (tool : Tool) : Prop :=
  tool = .readdisk n k ∨ ∃ cachesize, tool = .readbuffer cachesize n k

theorem act_writes {tool : Tool} (writes : Writes n k stdin tool)
    (range : n.toNat + k.toNat ≤ c.numblocks.toNat) :
    (act c u s tool).1 = ⟨[], .noError, []⟩ ∧
      (upFrom n k.toNat).flatMap (act c u s tool).2.blocks =
        stored u c.blocksize n k.toNat (characters stdin) := by
  have bound := c.numblocks.isLt
  rcases writes with rfl | ⟨cachesize, rfl⟩
  · rw [act, if_pos range]
    exact ⟨rfl, flatMap_foldl (takes_take u c.blocksize) n k.toNat (s, characters stdin) (by omega)⟩
  · obtain ⟨existing, result⟩ := existing_eq range .noSuchBlock
    rw [act, existing, result]
    exact ⟨rfl, flatMap_foldl (takes_allocateAndTake u c.blocksize) n k.toNat (s, characters stdin)
      (by omega)⟩

theorem act_prints {tool : Tool} (prints : Prints n k tool) (range : n.toNat + k.toNat ≤ c.numblocks.toNat) :
    (act c u s tool).1 = ⟨(upFrom n k.toNat).flatMap s.blocks, .noError, []⟩ := by
  rcases prints with rfl | ⟨cachesize, rfl⟩
  · rw [act, if_pos range]
  · obtain ⟨existing, result⟩ := existing_eq range .noSpace
    rw [act, existing, result]

theorem Writes.legal {tool : Tool} (writes : Writes n k stdin tool)
    (range : n.toNat + k.toNat ≤ c.numblocks.toNat)
    (u : Uninitialized) : Legal c u tool := by
  have bound := c.numblocks.isLt
  rcases writes with rfl | ⟨cachesize, rfl⟩
  · exact (by omega : n.toNat + k.toNat < 2 ^ 32)
  · trivial

theorem Prints.legal {tool : Tool} (prints : Prints n k tool) (range : n.toNat + k.toNat ≤ c.numblocks.toNat)
    (u : Uninitialized) : Legal c u tool := by
  have bound := c.numblocks.isLt
  rcases prints with rfl | ⟨cachesize, rfl⟩
  · exact (by omega : n.toNat + k.toNat < 2 ^ 32)
  · intro i first
    have missing := List.find?_some first
    rw [firstMissing, loopRange_eq (by omega)] at first
    rw [all_there range i (List.mem_of_find?_eq_some first)] at missing
    cases missing

/-- A process that writes and one that reads the same blocks. -/
theorem write_then_read (pos : 0 < c.numblocks) (h : Holds stem c f s) {writer reader : Tool}
    (writes : Writes n k stdin writer) (prints : Prints n k reader)
    (range : n.toNat + k.toNat ≤ c.numblocks.toNat) (u u' : Uninitialized) :
    ∃ f', Runs.run (step stem) f [(u, writer), (u', reader)] =
      .ok ([⟨[], .noError, []⟩, ⟨stored u c.blocksize n k.toNat (characters stdin), .noError, []⟩], f') := by
  have legal : ∀ op ∈ [(u, writer), (u', reader)], Legal c op.1 op.2 := by
    simp only [List.forall_mem_cons]
    exact ⟨writes.legal range u, prints.legal range u', fun _ mem => absurd mem List.not_mem_nil⟩
  obtain ⟨f', ran, -⟩ := run_ok pos h legal
  obtain ⟨wrote, bytes⟩ := act_writes (u := u) (s := s) writes range
  refine ⟨f', ran.trans ?_⟩
  simp only [Runs.runSpec, wrote, act_prints prints range, bytes]

/-- Blocks that are written from an input of their size come back as that input, whatever
memory the processes find, exactly if the input has no white space in it. -/
theorem write_read_iff (h : Holds stem c f s) (pos : 0 < c.numblocks) (writer reader : Tool)
    (writes : Writes n k stdin writer) (prints : Prints n k reader)
    (range : n.toNat + k.toNat ≤ c.numblocks.toNat) (size : stdin.length = k.toNat * c.blocksize.toNat) :
    (∀ u u', ∃ f', Runs.run (step stem) f [(u, writer), (u', reader)] =
        .ok ([⟨[], .noError, []⟩, ⟨stdin, .noError, []⟩], f')) ↔
      ∀ b ∈ stdin, isSpace b = false := by
  constructor
  · intro back b mem
    obtain ⟨f1, ran⟩ := back zeros zeros
    obtain ⟨f2, ran'⟩ := write_then_read pos h writes prints range zeros zeros
    rw [ran] at ran'
    have same : stdin = stored zeros c.blocksize n k.toNat (characters stdin) := by
      simp only [Except.ok.injEq, Prod.mk.injEq, List.cons.injEq, Outcome.mk.injEq, true_and,
        and_true] at ran'
      exact ran'.1
    rw [same] at mem
    rcases mem_stored mem with character | ⟨i, j, rfl⟩
    · simpa using (List.mem_filter.mp character).2
    · rfl
  · intro solid u u'
    have whole : characters stdin = stdin := List.filter_eq_self.mpr fun b mem => by simp [solid b mem]
    obtain ⟨f', ran⟩ := write_then_read pos h writes prints range u u'
    refine ⟨f', ran.trans ?_⟩
    rw [stored_enough u c.blocksize n k.toNat _ (by rw [whole, size]), whole, ← size, List.take_length]

theorem write_read_iff_tiny : ∃ f, ∀ u u', ∃ f',
    Runs.run (step "disk".toList) f [(u, .writebuffer 1 6 2 (text "abcdefgh")), (u', .readdisk 6 2)] =
      .ok ([⟨[], .noError, []⟩, ⟨text "abcdefgh", .noError, []⟩], f') := by
  obtain ⟨f, -, holds⟩ := makedisk_ok (u := zeros) tinyConfig_accepted tinyConfig_rereadable none
    (DiskSystem.Fits.sound (by decide) tinyConfig_accepted)
  refine ⟨f, (write_read_iff holds (by decide) _ _ (Or.inr ⟨1, rfl⟩) (Or.inl rfl) (by decide) rfl).mpr ?_⟩
  decide

/-! ## Tools that only read -/

/-- The configuration and the bitmap are the same, and the data file is at most longer. -/
structure Untouched (d d' : DiskSystem) : Prop where
  config : d'.toDiskConfig = d.toDiskConfig
  bitmap : d'.bitmap = d.bitmap
  data : d.datafile.Extends d'.datafile

theorem Untouched.refl (d : DiskSystem) : Untouched d d := ⟨rfl, rfl, .refl _⟩

theorem Untouched.trans {d d' d'' : DiskSystem} (h : Untouched d d') (h' : Untouched d' d'') :
    Untouched d d'' :=
  ⟨h'.config.trans h.config, h'.bitmap.trans h.bitmap, h.data.trans h'.data⟩

theorem readLoop_untouched (sound : d.Sound) {n : SizeT} {count : Nat} {acc : List Block}
    (range : n.toNat + count ≤ d.numblocks.toNat) {r : ErrorT × List Block × DiskSystem}
    (ran : d.readLoop n count acc = .ok r) : Untouched d r.2.2 := by
  induction count generalizing d n acc with
  | zero =>
      cases ran
      exact .refl d
  | succ count ih =>
      obtain ⟨hn, rest⟩ := DiskSystem.lt_numblocks range
      obtain ⟨g, read, longer⟩ := myread_ok (sound.reach n hn)
      have first : Untouched d { d with datafile := g } := ⟨rfl, rfl, longer⟩
      have sound' : Sound { d with datafile := g } := sound.keeps ⟨rfl, rfl, rfl, longer.size⟩
      simp only [DiskSystem.readLoop, DiskSystem.isBlockAllocated_ok hn, read] at ran
      split_ifs at ran
      · cases ran
        exact first
      · exact first.trans (ih sound' rest ran)

theorem read_untouched (sound : d.Sound) (range : n.toNat + k.toNat ≤ d.numblocks.toNat)
    {r : ErrorT × List Block × ℚ × DiskSystem} (ran : d.read n k = .ok r) : Untouched d r.2.2.2 := by
  rcases DiskSystem.read_inv ran with ⟨-, -, -, -, same⟩ | ⟨-, -, d1, f, access, loop, -⟩
  · rw [same]
    exact .refl d
  · obtain ⟨keep, file⟩ := DiskSystem.modelAccess_keeps access
    have first : Untouched d d1 := ⟨keep.config, keep.bitmap, file ▸ .refl _⟩
    exact first.trans (readLoop_untouched (sound.keeps keep) (by rw [keep.config]; exact range) loop)

/-- No cached block waits to be written. -/
def Clean (cache : BufferCache) : Prop :=
  ∀ (n : SizeT) (b : Block), cache.blockmap[n]? = some b → b.dirty = false

variable {cache cache' : BufferCache} {rc : ErrorT}

theorem Clean.insert (h : Clean cache) {b : Block} (clean : b.dirty = false)
    (same : cache'.blockmap = cache.blockmap.insert i b) : Clean cache' := by
  intro n e entry
  rw [same, BufferCache.entry_insert] at entry
  split_ifs at entry
  · cases entry
    exact clean
  · exact h n e entry

/-- Making room in a clean cache writes nothing. -/
theorem checkDeleteOldest_clean (h : Clean cache) (ran : cache.checkDeleteOldest = .ok (rc, cache')) :
    cache'.disk = cache.disk ∧ Clean cache' := by
  unfold BufferCache.checkDeleteOldest at ran
  split_ifs at ran
  · cases ran
    exact ⟨rfl, h⟩
  · cases victim : BufferCache.findOldest (cache.disk.machine.add cache.curtime 1) cache.blockmap.toList with
    | none =>
        rw [victim] at ran
        cases ran
        exact ⟨rfl, h⟩
    | some e =>
        obtain ⟨n, b⟩ := e
        have entry := Std.TreeMap.mem_toList_iff_getElem?_eq_some.mp (BufferCache.findOldest_mem victim)
        simp only [victim, BufferCache.removeBlock, h n b entry, Bool.false_eq_true, if_false] at ran
        cases ran
        refine ⟨rfl, fun m b' entry' => ?_⟩
        rw [BufferCache.entry_erase] at entry'
        split_ifs at entry'
        exact h m b' entry'

/-- Closing a clean cache writes nothing. -/
theorem detach_clean (h : Clean cache) : cache.detach = .ok (.noError, { cache with blockmap := ∅ }) := by
  have loop (rest : List (SizeT × Block)) (clean : ∀ e ∈ rest, e.2.dirty = false) :
      cache.detachLoop rest = .ok (.noError, { cache with blockmap := ∅ }) := by
    induction rest with
    | nil => rfl
    | cons e rest ih =>
        obtain ⟨first, others⟩ := List.forall_mem_cons.mp clean
        simpa only [BufferCache.detachLoop, first, Bool.false_eq_true, if_false] using ih others
  exact loop _ fun e mem => h e.1 e.2 (Std.TreeMap.mem_toList_iff_getElem?_eq_some.mp mem)

/-- A cache without a dirty block gets none by reading. -/
theorem Clean.readBlock (h : Clean cache) {outblock : Option Block}
    (ran : cache.readBlock i = .ok (rc, outblock, cache')) : Clean cache' := by
  unfold BufferCache.readBlock at ran
  cases entry : cache.blockmap[i]? with
  | some b =>
      rw [entry] at ran
      cases ran
      exact h.insert (b := { b with lastaccessed := cache.curtime }) (h i b entry) rfl
  | none =>
      cases evict : cache.checkDeleteOldest with
      | error e => simp [entry, evict] at ran
      | ok r =>
          obtain ⟨-, clean1⟩ := checkDeleteOldest_clean h evict
          cases asked : r.2.isBlockAllocated i with
          | error e => simp [entry, evict, asked] at ran
          | ok bit =>
              cases read : r.2.disk.readOne i with
              | error e => simp [entry, evict, asked, read] at ran
              | ok q =>
                  simp only [entry, evict, asked, read] at ran
                  split at ran
                  · cases ran
                    exact clean1
                  · cases ran
                    exact clean1.insert rfl rfl

theorem readBlock_clean (valid : cache.Valid) (h : Clean cache) (hi : i < cache.disk.numblocks)
    {outblock : Option Block} (ran : cache.readBlock i = .ok (rc, outblock, cache')) :
    Untouched cache.disk cache'.disk ∧ Clean cache' := by
  refine ⟨?_, h.readBlock ran⟩
  unfold BufferCache.readBlock at ran
  cases entry : cache.blockmap[i]? with
  | some b =>
      rw [entry] at ran
      cases ran
      exact .refl _
  | none =>
      obtain ⟨cache1, evict, -⟩ := BufferCache.checkDeleteOldest_ok valid
      obtain ⟨disk1, -⟩ := checkDeleteOldest_clean h evict
      simp only [entry, evict, BufferCache.isBlockAllocated, disk1, DiskSystem.isBlockAllocated_ok hi,
        DiskSystem.readOne] at ran
      cases read : cache.disk.read i 1 with
      | error e =>
          rw [read] at ran
          cases ran
      | ok r =>
          obtain ⟨rc1, bl, t, d⟩ := r
          have range : i.toNat + (1 : SizeT).toNat ≤ cache.disk.numblocks.toNat := BitVec.lt_def.mp hi
          have untouched := read_untouched valid.sound range read
          rw [read] at ran
          dsimp only at ran
          split at ran
          · cases ran
            exact untouched
          · cases ran
            exact untouched

/-- A block that does not exist is not read. -/
theorem readBlock_clean_outside (valid : cache.Valid) (h : Clean cache) (hi : ¬ i < cache.disk.numblocks)
    (top : i ≠ -1) (readable : cache.disk.ReadableBit i) {outblock : Option Block}
    (ran : cache.readBlock i = .ok (rc, outblock, cache')) :
    Untouched cache.disk cache'.disk ∧ Clean cache' := by
  have uncached : cache.blockmap[i]? = none := by
    cases entry : cache.blockmap[i]? with
    | none => rfl
    | some b => exact absurd (valid.inRange i b entry).1 hi
  obtain ⟨cache1, evict, -⟩ := BufferCache.checkDeleteOldest_ok valid
  obtain ⟨disk1, clean1⟩ := checkDeleteOldest_clean h evict
  obtain ⟨bit, asked⟩ := readable
  rw [BufferCache.readBlock, uncached, evict] at ran
  simp only [BufferCache.isBlockAllocated, asked, DiskSystem.readOne, disk1, DiskSystem.read,
    if_pos (check_outside hi top), reduceCtorEq, if_false] at ran
  cases ran
  exact ⟨.refl _, clean1⟩

/-- A loop of `readbuffer` through a clean cache. -/
theorem readLoop_clean (valid : cache.Valid) (h : Clean cache) {is : List SizeT} (top : ∀ i ∈ is, i ≠ -1)
    {stdout stdout' : List ByteT}
    (ran : Runs.untilError .noError readTurn (cache, stdout) is = .ok (rc, cache', stdout')) :
    Untouched cache.disk cache'.disk ∧ Clean cache' := by
  induction is generalizing cache stdout with
  | nil =>
      cases ran
      exact ⟨.refl _, h⟩
  | cons i is ih =>
      obtain ⟨first, others⟩ := List.forall_mem_cons.mp top
      have next : ∃ rc1 block cache1, cache.readBlock i = .ok (rc1, block, cache1) ∧ cache1.Valid ∧
          Untouched cache.disk cache1.disk ∧ Clean cache1 := by
        by_cases hi : i < cache.disk.numblocks
        · obtain ⟨b, cache1, read, -, valid1, -⟩ := BufferCache.readBlock_ok valid hi
          exact ⟨_, _, cache1, read, valid1, readBlock_clean valid h hi read⟩
        · by_cases readable : cache.disk.ReadableBit i
          · obtain ⟨cache1, read, valid1, -⟩ := BufferCache.readBlock_outside valid hi first readable
            exact ⟨_, _, cache1, read, valid1, readBlock_clean_outside valid h hi first readable read⟩
          · rw [Runs.untilError, readTurn, BufferCache.readBlock_killed valid readable] at ran
            cases ran
      obtain ⟨rc1, block, cache1, read, valid1, untouched, clean1⟩ := next
      rw [Runs.untilError] at ran
      simp only [readTurn, read, Runs.ok_bind] at ran
      by_cases fine : rc1 = .noError
      · simp only [fine, ne_eq, not_true, if_false, Runs.pure_eq_ok, if_true] at ran
        obtain ⟨untouched', clean'⟩ := ih valid1 clean1 others ran
        exact ⟨untouched.trans untouched', clean'⟩
      · simp only [fine, ne_eq, not_false_eq_true, if_true, Runs.pure_eq_ok, if_false] at ran
        cases ran
        exact ⟨untouched, clean1⟩

theorem closeCache_clean (h : Clean cache) (rc : ErrorT) : closeCache rc cache = .ok cache.disk := by
  have empty : Clean { cache with blockmap := ∅ } := fun n b entry => by simp at entry
  have first := detach_clean h
  have second := detach_clean empty
  rw [closeCache]
  split_ifs
  · simp only [first, Runs.ok_bind, second, Runs.pure_eq_ok]
  · simp only [first, Runs.ok_bind, Runs.pure_eq_ok]

/-- A tool that only reads. -/
def Reads : Tool → Prop
  | .infodisk | .readdisk _ _ | .readbuffer _ _ _ => True
  | _ => False

theorem main_reads {tool : Tool} (reads : Reads tool) (legal : Legal c u tool) (carries : Carries c d s)
    {out : Outcome} {d' : DiskSystem} (ran : main u tool d = .ok (out, d')) : Untouched d d' := by
  cases tool with
  | infodisk =>
      obtain ⟨bitmap, -, ran⟩ := Runs.bind_eq_ok ran
      cases ran
      exact .refl d
  | readdisk n k =>
      obtain ⟨r, read, ran⟩ := Runs.bind_eq_ok ran
      cases ran
      by_cases range : n.toNat + k.toNat ≤ d.numblocks.toNat
      · exact read_untouched carries.sound range read
      · have past : n + k > d.numblocks := by
          rw [gt_iff_lt, BitVec.lt_def, BitVec.toNat_add, Nat.mod_eq_of_lt legal]
          omega
        rw [DiskSystem.read, if_pos past] at read
        cases read
        exact .refl d
  | readbuffer cachesize n k =>
      obtain ⟨⟨rc, cache, stdout⟩, loop, ran⟩ := Runs.bind_eq_ok ran
      obtain ⟨d1, closes, ran⟩ := Runs.bind_eq_ok ran
      cases ran
      have start : Clean (attached d cachesize) :=
        fun n b entry => by simp [attached, BufferCache.attach] at entry
      obtain ⟨untouched, clean⟩ := readLoop_clean (attached_caches carries cachesize).valid start
        (fun i mem => loopRange_top mem) loop
      rw [closeCache_clean clean] at closes
      cases closes
      exact untouched
  | writedisk n k stdin => exact False.elim reads
  | writebuffer cachesize n k stdin => exact False.elim reads
  | freebuffer cachesize n k => exact False.elim reads

theorem write_content {g : ByteFile} {count : Nat} (size : count ≤ g.size) :
    g.write 0 (g.content 0 count) = g := by
  apply ByteFile.ext_bytes
  · simp only [ByteFile.write, ByteFile.content_length]
    split_ifs <;> omega
  · intro i
    simp only [ByteFile.write, ByteFile.content_length]
    split_ifs with inside
    · have lt : i < count := by omega
      simp [ByteFile.content, List.getElem?_range lt]
    · rfl

/-- Files as a process leaves them: the configuration is written as it will be written. -/
def Settled (stem : Text) (c : DiskConfig) (f : Files) : Prop := f.configfile = some (writeConfig stem c)

/-- The configuration and the bitmap are the same bytes, and the data file is at most longer. -/
structure SameFiles (f f' : Files) : Prop where
  config : f'.configfile = f.configfile
  bitmap : f'.bitmapfile = f.bitmapfile
  data : ∃ datafile datafile', f.datafile = some datafile ∧ f'.datafile = some datafile' ∧
    datafile.Extends datafile'

theorem SameFiles.trans {f' f'' : Files} (h : SameFiles f f') (h' : SameFiles f' f'') : SameFiles f f'' := by
  obtain ⟨g, g', data, data', longer⟩ := h.data
  obtain ⟨k, k', again, data'', longer'⟩ := h'.data
  rw [data', Option.some.injEq] at again
  exact ⟨h'.config.trans h.config, h'.bitmap.trans h.bitmap, g, k', data, data'',
    longer.trans (again ▸ longer')⟩

theorem act_reads {tool : Tool} (reads : Reads tool) : (act c u s tool).2 = s := by
  cases tool with
  | infodisk => rfl
  | readdisk n k =>
      rw [act]
      split_ifs <;> rfl
  | readbuffer cachesize n k => rfl
  | writedisk n k stdin => exact False.elim reads
  | writebuffer cachesize n k stdin => exact False.elim reads
  | freebuffer cachesize n k => exact False.elim reads

theorem step_settles (pos : 0 < c.numblocks) (op : Uninitialized × Tool) (legal : Legal c op.1 op.2)
    (h : Holds stem c f s) :
    ∃ f', step stem f op = .ok ((act c op.1 s op.2).1, f') ∧ Holds stem c f' (act c op.1 s op.2).2 ∧
      Settled stem c f' := by
  obtain ⟨bitmapfile, datafile, d', -, -, -, ran, holds, config⟩ :=
    process_holds (u := op.1) h fun _ machine carries => main_ok pos legal machine carries
  exact ⟨_, ran, holds, congrArg (fun c => some (writeConfig stem c)) config⟩

theorem step_reads (pos : 0 < c.numblocks) (op : Uninitialized × Tool) (legal : Legal c op.1 op.2)
    (reads : Reads op.2)
    (h : Holds stem c f s) (settled : Settled stem c f) :
    ∃ f', step stem f op = .ok ((act c op.1 s op.2).1, f') ∧ Holds stem c f' s ∧ Settled stem c f' ∧
      SameFiles f f' := by
  obtain ⟨bitmapfile, datafile, d', opens, carries, hmain, ran, holds, config⟩ :=
    process_holds (u := op.1) h fun _ machine carries => main_ok pos legal machine carries
  have untouched := main_reads reads legal carries hmain
  have bits : d'.bitmap = bitmapfile.content 0 (byteCount c.numblocks.toNat) := untouched.bitmap
  have settled' : Settled stem c (closed stem bitmapfile d') :=
    congrArg (fun c => some (writeConfig stem c)) config
  rw [act_reads reads] at holds
  refine ⟨_, ran, holds, settled', settled'.trans settled.symm, ?_, datafile, d'.datafile, opens.data, rfl,
    untouched.data⟩
  rw [opens.bitmap]
  exact congrArg some (by rw [bits, write_content opens.size])

theorem run_reads (pos : 0 < c.numblocks) (h : Holds stem c f s) (settled : Settled stem c f)
    {ops : List (Uninitialized × Tool)} (reads : ∀ op ∈ ops, Legal c op.1 op.2 ∧ Reads op.2) :
    ∃ f', Runs.run (step stem) f ops = .ok (ops.map fun op => (act c op.1 s op.2).1, f') ∧
      SameFiles f f' := by
  induction ops generalizing f with
  | nil =>
      obtain ⟨_, datafile, opens, -⟩ := h.files
      exact ⟨f, rfl, rfl, rfl, datafile, datafile, opens.data, opens.data, .refl _⟩
  | cons op ops ih =>
      obtain ⟨first, others⟩ := List.forall_mem_cons.mp reads
      obtain ⟨f1, ran1, holds1, settled1, same1⟩ := step_reads pos op first.1 first.2 h settled
      obtain ⟨f2, ran2, same2⟩ := ih holds1 settled1 others
      exact ⟨f2, Runs.run_cons ran1 ran2, same1.trans same2⟩

/-- Behind any process, the processes that only read print what the store at that time
makes them print, and leave the configuration and the bitmap byte for byte as they are. The
data file can only grow by zeros at its end. -/
theorem readers_leave_files (h : Holds stem c f s) (pos : 0 < c.numblocks) (first : Uninitialized × Tool)
    (legal : Legal c first.1 first.2) (ops : List (Uninitialized × Tool))
    (reads : ∀ op ∈ ops, Legal c op.1 op.2 ∧ Reads op.2) :
    ∃ f1 f2, step stem f first = .ok ((act c first.1 s first.2).1, f1) ∧
      Runs.run (step stem) f1 ops =
        .ok (ops.map fun op => (act c op.1 (act c first.1 s first.2).2 op.2).1, f2) ∧
      SameFiles f1 f2 := by
  obtain ⟨f1, ran1, holds1, settled1⟩ := step_settles pos first legal h
  obtain ⟨f2, ran2, same⟩ := run_reads pos holds1 settled1 reads
  exact ⟨f1, f2, ran1, ran2, same⟩

theorem readers_leave_files_tiny : ∃ f f1 f2,
    step "disk".toList f (zeros, .writebuffer 1 6 2 (text "abcdefgh")) = .ok (⟨[], .noError, []⟩, f1) ∧
      Runs.run (step "disk".toList) f1
        [(zeros, .readdisk 6 2), (zeros, .readbuffer 0 7 1), (zeros, .infodisk)] =
        .ok ([⟨text "abcdefgh", .noError, []⟩, ⟨text "efgh", .noError, []⟩,
          ⟨[], .noError, "......**".toList⟩], f2) ∧
      SameFiles f1 f2 := by
  obtain ⟨f, -, holds⟩ := makedisk_ok (u := zeros) tinyConfig_accepted tinyConfig_rereadable none
    (DiskSystem.Fits.sound (by decide) tinyConfig_accepted)
  obtain ⟨f1, f2, ran1, ran2, same⟩ := readers_leave_files holds (by decide)
    (zeros, .writebuffer 1 6 2 (text "abcdefgh")) trivial
    [(zeros, .readdisk 6 2), (zeros, .readbuffer 0 7 1), (zeros, .infodisk)]
    (by
      have on_disk : Legal (ConfigFile.rounded tinyConfig) zeros (.readbuffer 0 7 1) :=
        Prints.legal (Or.inr ⟨0, rfl⟩) (by decide) zeros
      simp only [List.forall_mem_cons]
      exact ⟨⟨(by decide : (6 : SizeT).toNat + (2 : SizeT).toNat < 2 ^ 32), trivial⟩,
        ⟨on_disk, trivial⟩, ⟨trivial, trivial⟩, by simp⟩)
  refine ⟨f, f1, f2, ran1.trans ?_, ran2.trans ?_, same⟩
  · rfl
  · rfl

end Tools

end BTreeLab
