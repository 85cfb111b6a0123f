import EECS339.Formatting
import EECS339.Tools

/-!
# Runs of the tools

Whatever tools follow one another on the files of a disk, they see one array of blocks and
one set of allocated blocks, which pass from process to process through the files.
-/
namespace BTreeLab
open PackedBits ConfigFile

/-! ## The configuration between two processes -/

namespace ConfigFile

variable {c : DiskConfig} {stem : Text}

theorem millionths_millionths (n : Nat) : millionths ((n : ℚ) / 10 ^ 6) = n := by
  rw [millionths, div_mul_cancel₀ _ (by norm_num), Decimals.roundEven_natCast, Int.natAbs_natCast]

theorem rounded_rounded (c : DiskConfig) : rounded (rounded c) = rounded c := by
  simp only [rounded, millionths_millionths]

/-- What could be read back once can be read back for ever. -/
theorem rereadable_rounded (accepted : sanityCheckConfig c = .noError) (h : Rereadable stem c) :
    sanityCheckConfig (rounded c) = .noError ∧ Rereadable stem (rounded c) := by
  have positive := (sanityCheckConfig_ok.mp accepted).1
  obtain ⟨reread, again⟩ := reread_of_rereadable accepted h [] byDefault
  have latency {q : ℚ} (pos : 0 < q) (range : 1 / 2 < q * 10 ^ 6 ∧ q * 10 ^ 6 < 10 ^ 77 - 1 / 2) :
      1 / 2 < (millionths q : ℚ) / 10 ^ 6 * 10 ^ 6 ∧
        (millionths q : ℚ) / 10 ^ 6 * 10 ^ 6 < 10 ^ 77 - 1 / 2 := by
    have shown := (millionths_pos pos).mpr range.1
    have pos' : 0 < (millionths q : ℚ) / 10 ^ 6 := by positivity
    rw [← millionths_pos pos', ← short_iff pos', millionths_millionths]
    exact ⟨shown, (short_iff pos).mpr range.2⟩
  refine ⟨again, h.plain, h.start, h.short, latency positive.1 h.average,
    latency positive.2.1 h.track, ?_⟩
  have shown := (millionths_pos positive.2.2).mpr h.rotational.1
  have pos' : 0 < (millionths c.rotationallatency : ℚ) / 10 ^ 6 := by positivity
  constructor
  · rw [← millionths_pos (q := (rounded c).rotationallatency) pos']
    exact (millionths_millionths _).symm ▸ shown
  · exact (millionths_millionths (millionths c.rotationallatency)).symm ▸ h.rotational.2

end ConfigFile

/-! ## One process -/

variable {α : Type} {c : DiskConfig} {f : Files} {s : Store} {stem : Text} {u : Uninitialized}

/-- A bitmap in memory and the set that it stands for. -/
structure Marks (c : DiskConfig) (bitmap : List ByteT) (used : SizeT → Bool) : Prop where
  length : bitmap.length = byteCount c.numblocks.toNat
  bit : ∀ n, n < c.numblocks → getBit bitmap n.toNat = used n

/-- Changing the bit of a block changes the set there. -/
theorem Marks.set {bits : List ByteT} {used : SizeT → Bool} (h : Marks c bits used)
    {change : List ByteT → Nat → List ByteT} {b : Bool}
    (length : ∀ bits i, (change bits i).length = bits.length)
    (one : ∀ bits i j, i / 8 < bits.length → getBit (change bits i) j = if i = j then b else getBit bits j)
    {i : SizeT} (hi : i < c.numblocks) : Marks c (change bits i.toNat) (Function.update used i b) := by
  have inside : i.toNat / 8 < bits.length := h.length ▸ lt_byteCount (BitVec.lt_def.mp hi)
  refine ⟨(length _ _).trans h.length, fun n hn => ?_⟩
  rw [one _ _ _ inside, Function.update_apply, ← h.bit n hn]
  simp only [BitVec.toNat_inj, eq_comm (a := i)]

/-- An open disk and the store that it stands for. -/
structure Carries (c : DiskConfig) (d : DiskSystem) (s : Store) : Prop where
  config : d.toDiskConfig = c
  sound : d.Sound
  blocks : d.blocks = s.blocks
  marks : Marks c d.bitmap s.used

/-- The disk as the constructor leaves it. -/
def opened (m : Machine) (c : DiskConfig) (bitmapfile datafile : ByteFile) : DiskSystem :=
  { DiskSystem.make m c datafile with bitmap := bitmapfile.content 0 (byteCount c.numblocks.toNat) }

/-- What the destructor leaves of a disk. -/
def closed (stem : Text) (bitmapfile : ByteFile) (d : DiskSystem) : Files :=
  ⟨some (writeConfig stem d.toDiskConfig), some (bitmapfile.write 0 d.bitmap), some d.datafile⟩

/-- Files that every process can open, with a configuration that no longer changes. -/
structure Opens (stem : Text) (c : DiskConfig) (f : Files) (bitmapfile datafile : ByteFile) : Prop where
  config : ∃ text, f.configfile = some text ∧ ∀ buf old, readConfig buf text old = some (stem, c)
  accepted : sanityCheckConfig c = .noError
  bitmap : f.bitmapfile = some bitmapfile
  size : byteCount c.numblocks.toNat ≤ bitmapfile.size
  data : f.datafile = some datafile

/-- The files of the disk `stem` and the store that they stand for. -/
structure Holds (stem : Text) (c : DiskConfig) (f : Files) (s : Store) : Prop where
  settled : Rereadable stem c ∧ rounded c = c
  files : ∃ bitmapfile datafile, Opens stem c f bitmapfile datafile ∧
    ∀ m, Carries c (opened m c bitmapfile datafile) s

/-- The machine plays no part. -/
theorem Carries.congr {d d' : DiskSystem} (h : Carries c d s) (config : d'.toDiskConfig = c)
    (bitmap : d'.bitmap = d.bitmap) (data : d'.datafile = d.datafile) : Carries c d' s := by
  have keeps : d.Keeps { d' with machine := d.machine } :=
    ⟨config.trans h.config.symm, rfl, bitmap, data ▸ le_rfl⟩
  have sound : d'.Sound := by
    obtain ⟨geometry, apart, reach⟩ := h.sound.keeps keeps
    exact ⟨geometry, apart, reach⟩
  have same : DiskSystem.blocks { d' with machine := d.machine } = d.blocks :=
    DiskSystem.blocks_of_extends keeps (data ▸ .refl _)
  exact ⟨config, sound, same.trans h.blocks, bitmap ▸ h.marks⟩

/-- The bitmap may be any other with the same bits. -/
theorem Carries.remark (h : Carries c d s) {bitmap : List ByteT} (marks : Marks c bitmap s.used) :
    Carries c { d with bitmap } s :=
  ⟨h.config, ⟨h.sound.geometry, h.sound.apart, h.sound.reach⟩, h.blocks, marks⟩

theorem construct_ok {bitmapfile datafile : ByteFile} (h : Opens stem c f bitmapfile datafile) :
    ∃ o, (DiskFiles.before u.machine f stem byDefault).construct false u.buf u.bitmap = .ok (.noError, o) ∧
      o.onBlocks = opened u.machine c bitmapfile datafile ∧ o.diskfilestem = stem ∧
      o.configfile.handle = true ∧ o.bitmapfile = ⟨some bitmapfile, true, true⟩ ∧
      o.datafile.handle = true := by
  obtain ⟨text, content, reads⟩ := h.config
  let d : DiskSystem := { DiskSystem.make u.machine c ByteFile.empty with bitmap := [] }
  have bytes : d.numbitmapbytes.toNat = byteCount c.numblocks.toNat := BitmapDisk.numbitmapbytes_toNat d
  have read := BitmapDisk.readBitMap_ok (bytes.symm ▸ h.size) u.bitmap
  rw [bytes] at read
  obtain ⟨configfile, bitmapfile', datafile'⟩ := f
  obtain ⟨rfl, rfl, rfl⟩ : configfile = some text ∧ bitmapfile' = some bitmapfile ∧
    datafile' = some datafile :=
    ⟨content, h.bitmap, h.data⟩
  refine ⟨⟨u.machine, stem, c, some (bitmapfile.content 0 (byteCount c.numblocks.toNat)),
    ⟨some text, true, true⟩,
    ⟨some bitmapfile, true, true⟩, ⟨some datafile, true, true⟩⟩, ?_, rfl, rfl, rfl, rfl, rfl⟩
  simp only [DiskFiles.construct, Bool.false_eq_true, if_false, DiskFiles.initFromConfigFile,
    DiskFiles.before,
    Slot.openOld, Option.isSome_some, Bool.and_self, Bool.not_true, Option.getD_some, reads, h.accepted,
    ne_eq, not_true, DiskFiles.readBitMap, DiskFiles.disk, Option.getD_none]
  rw [read]

/-- The destructor writes the configuration and the bitmap, and leaves the data file as it is. -/
theorem destroy_leave {o : DiskFiles} {d : DiskSystem} {bitmapfile : ByteFile}
    (config : o.configfile.handle = true) (bitmap : o.bitmapfile = ⟨some bitmapfile, true, true⟩)
    (data : o.datafile.handle = true) (length : d.bitmap.length = byteCount d.numblocks.toNat) :
    ∃ o', (o.leave d).destroy = .ok o' ∧ o'.files = closed o.diskfilestem bitmapfile d := by
  obtain ⟨m, diskfilestem, c, bits, configfile, bitmapfile', datafile⟩ := o
  subst bitmap
  let d' : DiskSystem := { DiskSystem.make m d.toDiskConfig ByteFile.empty with bitmap := d.bitmap }
  have writes := BitmapDisk.Inv.writes (c := d.toDiskConfig) (s := ⟨d', bitmapfile⟩) ⟨rfl, length⟩ bitmapfile
  refine ⟨⟨m, diskfilestem, d.toDiskConfig, some d.bitmap,
    ⟨some (writeConfig diskfilestem d.toDiskConfig), configfile.granted, false⟩,
    ⟨some (bitmapfile.write 0 d.bitmap), true, false⟩, ⟨some d.datafile, datafile.granted, false⟩⟩, ?_, rfl⟩
  dsimp only at config data
  simp only [DiskFiles.destroy, DiskFiles.leave, DiskFiles.writeConfig, DiskFiles.writeBitMap, DiskFiles.disk,
    config, data, if_true, Option.getD_some, Slot.fclose, Runs.ok_bind]
  rw [writes]
  rfl

/-- A process whose body takes the opened disk to `d` leaves the files of `d`. -/
theorem process_ran {bitmapfile datafile : ByteFile} (h : Opens stem c f bitmapfile datafile)
    {body : DiskSystem → Except Fault (α × DiskSystem)} {a : α} {d : DiskSystem}
    (ran : body (opened u.machine c bitmapfile datafile) = .ok (a, d)) (config : d.toDiskConfig = c)
    (length : d.bitmap.length = byteCount c.numblocks.toNat) :
    process stem false byDefault u body f = .ok (a, closed stem bitmapfile d) := by
  obtain ⟨o, constructed, disk, rfl, handle, bits, data⟩ := construct_ok (u := u) h
  obtain ⟨o', destroyed, files⟩ := destroy_leave handle bits data (d := d) (by rw [config, length])
  rw [process, constructed]
  simp only [Runs.ok_bind, disk, ran, destroyed, files, Runs.pure_eq_ok]

theorem closed_opens (bitmapfile : ByteFile) {d : DiskSystem}
    (accepted : sanityCheckConfig d.toDiskConfig = .noError)
    (rereadable : Rereadable stem d.toDiskConfig) (length : d.bitmap.length = byteCount d.numblocks.toNat) :
    Opens stem (rounded d.toDiskConfig) (closed stem bitmapfile d)
      (bitmapfile.write 0 d.bitmap) d.datafile := by
  refine ⟨⟨_, rfl, fun buf old => (reread_of_rereadable accepted rereadable buf old).1⟩,
    (rereadable_rounded accepted rereadable).1, rfl, ?_, rfl⟩
  change byteCount d.numblocks.toNat ≤ _
  rw [← length]
  by_cases empty : d.bitmap = []
  · rw [empty]
    exact Nat.zero_le _
  · have grown := ByteFile.write_size_ge bitmapfile 0 _ empty
    rwa [Nat.zero_add] at grown

/-- The next process finds the disk as it was left, with the head at rest. -/
theorem opened_closed (bitmapfile : ByteFile) {d : DiskSystem} (h : Carries c d s) (c' : DiskConfig)
    (config : c' = d.toDiskConfig) (m : Machine) :
    Carries c (opened m c' (bitmapfile.write 0 d.bitmap) d.datafile) s := by
  subst config
  refine h.congr h.config ?_ rfl
  change (bitmapfile.write 0 d.bitmap).content 0 (byteCount d.numblocks.toNat) = d.bitmap
  rw [h.config, ← h.marks.length]
  exact ByteFile.content_write_same _ _ _

/-- What a process leaves of a disk with the store `s'` are files with that store. -/
theorem closed_holds {s' : Store} {bitmapfile datafile : ByteFile} {d : DiskSystem} (h : Holds stem c f s)
    (opens : Opens stem c f bitmapfile datafile) (carries : Carries c d s') :
    Holds stem c (closed stem bitmapfile d) s' := by
  have same := carries.config
  have closes := closed_opens bitmapfile (same.symm ▸ opens.accepted) (same.symm ▸ h.settled.1)
    (same ▸ carries.marks.length)
  rw [same, h.settled.2] at closes
  exact ⟨h.settled, bitmapfile.write 0 d.bitmap, d.datafile, closes,
    opened_closed bitmapfile carries c same.symm⟩

/-- A body that takes every disk with the store `s` to one with the store `s'` is a process
that takes files with `s` to files with `s'`. -/
theorem process_holds {s' : Store} (h : Holds stem c f s) {body : DiskSystem → Except Fault (α × DiskSystem)}
    {a : α} (ran : ∀ d, d.machine = u.machine → Carries c d s → ∃ d', body d = .ok (a, d') ∧
    Carries c d' s') :
    ∃ bitmapfile datafile d', Opens stem c f bitmapfile datafile ∧
      Carries c (opened u.machine c bitmapfile datafile) s ∧
      body (opened u.machine c bitmapfile datafile) = .ok (a, d') ∧
      process stem false byDefault u body f = .ok (a, closed stem bitmapfile d') ∧
      Holds stem c (closed stem bitmapfile d') s' ∧ d'.toDiskConfig = c := by
  obtain ⟨bitmapfile, datafile, opens, carries⟩ := h.files
  obtain ⟨d, hbody, carries'⟩ := ran _ rfl (carries u.machine)
  exact ⟨bitmapfile, datafile, d, opens, carries u.machine, hbody,
    process_ran opens hbody carries'.config carries'.marks.length, closed_holds h opens carries',
      carries'.config⟩

/-- The same for a body that leaves some store with the property `P`. -/
theorem process_leaves (P : Store → Prop) (h : Holds stem c f s)
    {body : DiskSystem → Except Fault (α × DiskSystem)} {a : α}
    (ran : ∀ d, d.machine = u.machine → Carries c d s →
      ∃ d' s', body d = .ok (a, d') ∧ Carries c d' s' ∧ P s') :
    ∃ f' s', process stem false byDefault u body f = .ok (a, f') ∧ Holds stem c f' s' ∧ P s' := by
  obtain ⟨bitmapfile, datafile, opens, carries⟩ := h.files
  obtain ⟨d, s', hbody, carries', p⟩ := ran _ rfl (carries u.machine)
  exact ⟨closed stem bitmapfile d, s', process_ran opens hbody carries'.config carries'.marks.length,
    closed_holds h opens carries', p⟩

/-! ## The loops and the input -/

namespace Tools
open Store

variable {d : DiskSystem} {n k i : SizeT} {count : Nat} {stdin : List ByteT}

theorem mem_upFrom (small : n.toNat + count < 2 ^ 32) :
    i ∈ upFrom n count ↔ n.toNat ≤ i.toNat ∧ i.toNat < n.toNat + count := by
  induction count generalizing n with
  | zero => simp [upFrom]
  | succ count ih =>
      have next : (n + 1).toNat = n.toNat + 1 := succ_toNat small
      have same : i = n ↔ i.toNat = n.toNat := BitVec.toNat_inj.symm
      rw [upFrom, List.mem_cons, ih (by omega), next, same]
      omega

/-- The first block of a range that the disk does not have. -/
def firstMissing (c : DiskConfig) (n k : SizeT) : Option SizeT :=
    (loopRange n k).find? fun i => !act.there c i

/-- The bound of the loop is a 32-bit number, so the loop never gets to the last one. -/
theorem loopRange_top (mem : i ∈ loopRange n k) : i ≠ -1 := by
  have bound := (n + k).isLt
  have first := n.isLt
  have inside := (mem_upFrom (by omega)).mp mem
  rintro rfl
  have top : (-1 : SizeT).toNat = 2 ^ 32 - 1 := rfl
  omega

theorem blocksFrom_eq (a : BlockArray) (n : SizeT) (count : Nat) :
    DiskSystem.blocksFrom a n count = (upFrom n count).map a := by
  induction count generalizing n with
  | zero => rfl
  | succ count ih => rw [DiskSystem.blocksFrom, upFrom, List.map_cons, ih]

theorem readByte_ok (c : ByteT) (stdin : List ByteT) :
    (readByte c stdin).1 = (characters stdin).headD c ∧
      characters (readByte c stdin).2 = (characters stdin).tail := by
  induction stdin with
  | nil => exact ⟨rfl, rfl⟩
  | cons b stdin ih =>
      cases space : isSpace b with
      | true => simpa [readByte, characters, space] using ih
      | false => simp [readByte, characters, space]

/-- A block gets the next characters, and keeps its memory behind the end of the input. -/
theorem readBytes_ok (old stdin : List ByteT) :
    (readBytes old stdin).1 = overlay old (characters stdin) ∧
      characters (readBytes old stdin).2 = (characters stdin).drop old.length := by
  induction old generalizing stdin with
  | nil => exact ⟨by simp [readBytes, overlay], rfl⟩
  | cons c old ih =>
      obtain ⟨first, rest⟩ := readByte_ok c stdin
      obtain ⟨bytes, left⟩ := ih (readByte c stdin).2
      rw [rest] at bytes left
      constructor
      · change (readByte c stdin).1 :: (readBytes old (readByte c stdin).2).1 = _
        rw [first, bytes]
        cases characters stdin <;> simp [overlay]
      · change characters (readBytes old (readByte c stdin).2).2 = _
        rw [left, List.length_cons]
        cases characters stdin <;> simp

theorem overlay_length (old input : List ByteT) : (overlay old input).length = old.length := by
  rw [overlay, List.length_append, List.length_take, List.length_drop]
  omega

theorem fresh_length (u : Uninitialized) (blocksize i : SizeT) :
    (fresh u blocksize i).length = blocksize.toNat := by
  rw [fresh, List.length_map, List.length_range]

theorem readBlocks_sized (u : Uninitialized) (blocksize i : SizeT) (count : Nat) (stdin : List ByteT) :
    (readBlocks u blocksize i count stdin).length = count ∧
      ∀ b ∈ readBlocks u blocksize i count stdin, b.length = blocksize.toNat := by
  induction count generalizing i stdin with
  | zero => exact ⟨rfl, by simp [readBlocks]⟩
  | succ count ih =>
      obtain ⟨length, sized⟩ := ih (i + 1) (readBytes (fresh u blocksize i) stdin).2
      refine ⟨congrArg Nat.succ length, List.forall_mem_cons.mpr ⟨?_, sized⟩⟩
      rw [Block.ofBytes_length, (readBytes_ok _ _).1, overlay_length, fresh_length]

/-- Writing the blocks in order gives each its share of the characters. -/
theorem putFrom_readBlocks (u : Uninitialized) (blocksize : SizeT) (s : Store) (n : SizeT) (count : Nat)
    (stdin : List ByteT) : ∃ rest,
      (upFrom n count).foldl (take u blocksize) (s, characters stdin) =
        (⟨DiskSystem.putFrom s.blocks n count (readBlocks u blocksize n count stdin), s.used⟩, rest) := by
  induction count generalizing s n stdin with
  | zero => exact ⟨_, rfl⟩
  | succ count ih =>
      obtain ⟨bytes, left⟩ := readBytes_ok (fresh u blocksize n) stdin
      rw [fresh_length] at left
      obtain ⟨rest, later⟩ := ih { s with
        blocks := Function.update s.blocks n (overlay (fresh u blocksize n) (characters stdin)) }
        (n + 1) (readBytes (fresh u blocksize n) stdin).2
      refine ⟨rest, ?_⟩
      rw [left] at later
      rw [upFrom, List.foldl_cons, take, later]
      change _ = (Store.mk (DiskSystem.putFrom (Function.update s.blocks n
        (readBytes (fresh u blocksize n) stdin).1) (n + 1) count _) _, _)
      rw [bytes]

/-! ## The allocation bitmap -/

/-- The number behind a block that does not exist is past the end. -/
theorem check_outside (outside : ¬ i < d.numblocks) (top : i ≠ -1) : i + 1 > d.numblocks := by
  have ne : i.toNat ≠ 2 ^ 32 - 1 := fun e => top (BitVec.eq_of_toNat_eq (by rw [e]; rfl))
  have bound := i.isLt
  have next : (i + 1).toNat = i.toNat + 1 := succ_toNat (n := 0) (by omega)
  rw [BitVec.lt_def] at outside
  rw [gt_iff_lt, BitVec.lt_def, next]
  omega

theorem notify_outside (change : List ByteT → Nat → List ByteT) (outside : ¬ i < d.numblocks) (top : i ≠ -1) :
    d.notifyBlocks change i 1 = (.noSuchBlock, d) := by
  rw [DiskSystem.notifyBlocks, if_pos (check_outside outside top)]

theorem printBitmap_congr {numblocks : SizeT} {p q : SizeT → Bool} (same : ∀ i, i < numblocks → p i = q i) :
    printBitmap numblocks p = printBitmap numblocks q := by
  have bound := numblocks.isLt
  refine List.map_congr_left fun i mem => ?_
  have inside := ((mem_upFrom (by simpa using bound)).mp mem).2
  rw [same i (BitVec.lt_def.mpr (by simpa using inside))]

/-- The bits that `Print` asks for are all in the bitmap. -/
theorem printBits_ok (d : DiskSystem) :
    printBits d = .ok (printBitmap d.numblocks fun i => getBit d.bitmap i.toNat) := by
  have bound := d.numblocks.isLt
  refine Runs.mapM_ok fun i mem => ?_
  have inside := ((mem_upFrom (by simpa using bound)).mp mem).2
  rw [DiskSystem.isBlockAllocated_ok (BitVec.lt_def.mpr (by simpa using inside))]
  rfl

/-! ## A cache over the disk -/

/-- A cache and the store that is seen through it. -/
structure Caches (m : Machine) (c : DiskConfig) (cache : BufferCache) (s : Store) : Prop where
  config : cache.disk.toDiskConfig = c
  machine : cache.disk.machine = m
  valid : cache.Valid
  blocks : cache.logical = s.blocks
  marks : Marks c cache.disk.bitmap s.used

variable {m : Machine} {cache cache' : BufferCache} {rc : ErrorT}

theorem Caches.keeps (h : Caches m c cache s) (k : cache.Keeps cache') (valid : cache'.Valid)
    {blocks : BlockArray}
    (same : cache'.logical = blocks) : Caches m c cache' { s with blocks } :=
  ⟨k.config.trans h.config, k.machine.trans h.machine, valid, same, k.bitmap ▸ h.marks⟩

theorem attached_caches (h : Carries c d s) (cachesize : SizeT) :
    Caches d.machine c (attached d cachesize) s := by
  obtain ⟨valid, same⟩ := BufferCache.valid_make h.sound cachesize
  exact ⟨h.config, rfl, valid, same.trans h.blocks, h.marks⟩

theorem detach_caches (h : Caches m c cache s) :
    ∃ cache', cache.detach = .ok (.noError, cache') ∧ Caches m c cache' s ∧ Carries c cache'.disk s := by
  obtain ⟨cache', ran, valid, k, empty, all⟩ := BufferCache.detach_ok h.valid
  have same : cache'.logical = cache'.disk.blocks := by
    funext n
    exact BufferCache.logical_of_not_cached (by rw [empty]; simp)
  exact ⟨cache', ran, h.keeps k valid (same.trans (all.trans h.blocks)),
    k.config.trans h.config, valid.sound, all.trans h.blocks, k.bitmap ▸ h.marks⟩

/-- Whether or not an error has occurred, everything reaches the disk. -/
theorem closeCache_ok (h : Caches m c cache s) (rc : ErrorT) :
    ∃ d', closeCache rc cache = .ok d' ∧ Carries c d' s := by
  obtain ⟨cache1, ran1, h1, carries1⟩ := detach_caches h
  obtain ⟨cache2, ran2, -, carries2⟩ := detach_caches h1
  rw [closeCache]
  split_ifs
  · exact ⟨cache2.disk, by simp only [ran1, Runs.ok_bind, ran2, Runs.pure_eq_ok], carries2⟩
  · exact ⟨cache1.disk, by simp only [Runs.ok_bind, ran1, Runs.pure_eq_ok], carries1⟩

theorem Caches.mark (h : Caches m c cache s) {change : List ByteT → Nat → List ByteT} {b : Bool}
    (length : ∀ bits i, (change bits i).length = bits.length)
    (one : ∀ bits i j, i / 8 < bits.length → getBit (change bits i) j = if i = j then b else getBit bits j)
    (hi : i < c.numblocks) (allocs deallocs : SizeT) :
    Caches m c { cache with
      disk := { cache.disk with bitmap := change cache.disk.bitmap i.toNat }, allocs, deallocs }
        (s.setUsed i b) :=
  ⟨h.config, h.machine, (BufferCache.notify_ok h.valid _ allocs deallocs).1, h.blocks,
    h.marks.set length one hi⟩

theorem notifyAllocate_caches (h : Caches m c cache s) (hi : i < c.numblocks) :
    ∃ cache', cache.notifyAllocateBlock i = (.noError, cache') ∧ Caches m c cache' (s.setUsed i true) := by
  rw [BufferCache.notifyAllocateBlock, DiskSystem.notifyAllocateBlocks,
    BufferCache.notifyBlocks_one _ (h.config ▸ hi)]
  exact ⟨_, rfl, h.mark setBit_length (fun _ _ _ inside => getBit_setBit inside) hi _ _⟩

theorem notifyDeallocate_caches (h : Caches m c cache s) (hi : i < c.numblocks) :
    ∃ cache', cache.notifyDeallocateBlock i = (.noError, cache') ∧ Caches m c cache' (s.setUsed i false) := by
  rw [BufferCache.notifyDeallocateBlock, DiskSystem.notifyDeallocateBlocks,
    BufferCache.notifyBlocks_one _ (h.config ▸ hi)]
  exact ⟨_, rfl, h.mark clearBit_length (fun _ _ _ inside => getBit_clearBit inside) hi _ _⟩

theorem notify_refused (h : Caches m c cache s) (allocs deallocs : SizeT) :
    Caches m c { cache with allocs, deallocs, disk := cache.disk } s :=
  ⟨h.config, h.machine, (BufferCache.notify_ok h.valid cache.disk.bitmap allocs deallocs).1,
    h.blocks, h.marks⟩

theorem writeBlock_caches (h : Caches m c cache s) (hi : i < c.numblocks) (data : List ByteT)
    (sized : data.length = c.blocksize.toNat) :
    ∃ cache', cache.writeBlock i (Block.ofBytes data) = .ok (.noError, cache') ∧
      Caches m c cache' { s with blocks := Function.update s.blocks i data } := by
  obtain ⟨cache', ran, valid, k, put⟩ := BufferCache.writeBlock_ok (b := Block.ofBytes data) h.valid
    (by rw [h.config]; exact hi) (by rw [h.config]; exact sized)
  exact ⟨cache', ran, h.keeps k valid (by rw [put, h.blocks]; rfl)⟩

/-! ## The tools -/

theorem infodisk_ok (h : Carries c d s) : infodisk d = .ok ((act c u s .infodisk).1, d) := by
  have same : printBitmap d.numblocks (fun i => getBit d.bitmap i.toNat) =
    printBitmap c.numblocks s.used := by
    rw [h.config]
    exact printBitmap_congr h.marks.bit
  rw [infodisk, printBits_ok, same, act]
  rfl

theorem readdisk_ok (h : Carries c d s) (pos : 0 < c.numblocks) (whole : n.toNat + k.toNat < 2 ^ 32) :
    ∃ d', readdisk n k d = .ok ((act c u s (.readdisk n k)).1, d') ∧ Carries c d' s := by
  obtain ⟨rfl, sound, blocks, marks⟩ := h
  rw [act]
  split_ifs with range
  · obtain ⟨t, d', ran, keep, same⟩ := DiskSystem.read_ok sound (sound.sectors_ne_zero pos) range
    refine ⟨d', ?_, keep.config, sound.keeps keep, same.trans blocks, keep.bitmap ▸ marks⟩
    simp only [readdisk, ran, Runs.ok_bind, ne_eq, not_true, if_false, Runs.pure_eq_ok, blocksFrom_eq,
      blocks, List.flatMap_map, Block.ofBytes_data]
  · have past : n + k > d.numblocks := by
      rw [gt_iff_lt, BitVec.lt_def, BitVec.toNat_add, Nat.mod_eq_of_lt whole]
      omega
    refine ⟨d, ?_, rfl, sound, blocks, marks⟩
    simp only [readdisk, DiskSystem.read, if_pos past, Runs.ok_bind]
    rfl

theorem writedisk_ok (h : Carries c d s) (pos : 0 < c.numblocks) (whole : n.toNat + k.toNat < 2 ^ 32) :
    ∃ d', writedisk u n k stdin d = .ok ((act c u s (.writedisk n k stdin)).1, d') ∧
      Carries c d' (act c u s (.writedisk n k stdin)).2 := by
  obtain ⟨rfl, sound, blocks, marks⟩ := h
  obtain ⟨length, sized⟩ := readBlocks_sized u d.blocksize n k.toNat stdin
  rw [act]
  split_ifs with range
  · obtain ⟨t, d', ran, keep, put⟩ := DiskSystem.write_ok sound (sound.sectors_ne_zero pos) n k
      (readBlocks u d.blocksize n k.toNat stdin) range length.ge sized
    obtain ⟨rest, stored⟩ := putFrom_readBlocks u d.blocksize s n k.toNat stdin
    refine ⟨d', ?_, keep.config, sound.keeps keep, ?_, ?_⟩
    · simp only [writedisk, ran, Runs.ok_bind, Runs.pure_eq_ok]
    · rw [put, stored, blocks]
    · rw [stored, keep.bitmap]
      exact marks
  · have past : n + k > d.numblocks := by
      rw [gt_iff_lt, BitVec.lt_def, BitVec.toNat_add, Nat.mod_eq_of_lt whole]
      omega
    refine ⟨d, ?_, rfl, sound, blocks, marks⟩
    simp only [writedisk, DiskSystem.write, if_pos past, Runs.ok_bind]
    rfl

theorem Caches.of_loop {σ τ : Type} (rc : ErrorT) (visit : σ → SizeT → Except Fault (ErrorT × σ))
    (next : τ → SizeT → τ) (R Q : σ → τ → Prop) (weaken : ∀ s t, R s t → Q s t) (bad : rc ≠ .noError)
    (accept : ∀ s t i, R s t → i < c.numblocks → ∃ s', visit s i = .ok (.noError, s') ∧ R s' (next t i))
    (n k : SizeT) (reject : ∀ s t i, R s t → ¬ i < c.numblocks → i ≠ -1 → firstMissing c n k = some i →
      ∃ s', visit s i = .ok (rc, s') ∧ Q s' t) {s : σ} {t : τ} (related : R s t) :
    ∃ s', Runs.untilError .noError visit s (loopRange n k) = .ok (act.result c rc (loopRange n k), s') ∧
      Q s' ((act.existing c (loopRange n k)).foldl next t) := by
  refine Runs.untilError_simulates bad weaken ?_ ?_
    (fun i first => first) related
  · intro s t i related there
    exact accept s t i related (of_decide_eq_true there)
  · intro s t i related first there
    exact reject s t i related (of_decide_eq_false there)
      (loopRange_top (List.mem_of_find?_eq_some first)) first

theorem readTurn_ok {stdout : List ByteT} (h : Caches m c cache s) (hi : i < c.numblocks) :
    ∃ cache', readTurn (cache, stdout) i = .ok (.noError, cache', stdout ++ s.blocks i) ∧
      Caches m c cache' s := by
  obtain ⟨b, cache', ran, bytes, valid, keep, same⟩ := BufferCache.readBlock_ok h.valid (n := i)
    (by rw [h.config]; exact hi)
  refine ⟨cache', ?_, h.keeps keep valid (same.trans h.blocks)⟩
  simp only [readTurn, ran, Runs.ok_bind, ne_eq, not_true, if_false, Option.map_some, Option.getD_some, bytes,
    h.blocks, Runs.pure_eq_ok]

theorem readTurn_refused {stdout : List ByteT} (h : Caches m c cache s) (hi : ¬ i < c.numblocks)
    (top : i ≠ -1)
    (readable : (DiskSystem.make m c ByteFile.empty).ReadableBit i) :
    ∃ cache', readTurn (cache, stdout) i = .ok (.noSpace, cache', stdout) ∧ Caches m c cache' s := by
  obtain ⟨cache', ran, valid, keep, same⟩ := BufferCache.readBlock_outside h.valid (n := i)
    (by rw [h.config]; exact hi) top
    ((DiskSystem.readableBit_congr (d := DiskSystem.make m c ByteFile.empty) h.config h.machine
      i).mpr readable)
  refine ⟨cache', ?_, h.keeps keep valid (same.trans h.blocks)⟩
  simp only [readTurn, ran, Runs.ok_bind]
  rfl

theorem readbuffer_ok (h : Carries c d s) (cachesize n k : SizeT)
    (readable : ∀ i, firstMissing c n k = some i →
    (DiskSystem.make d.machine c ByteFile.empty).ReadableBit i) :
    ∃ d', readbuffer cachesize n k d = .ok ((act c u s (.readbuffer cachesize n k)).1, d') ∧
      Carries c d' s := by
  let R (p : BufferCache × List ByteT) (stdout : List ByteT) : Prop := Caches d.machine c p.1 s ∧ p.2 = stdout
  obtain ⟨⟨cache, stdout⟩, ran, caches, rfl⟩ :=
    Caches.of_loop .noSpace readTurn (fun t i => t ++ s.blocks i) R R
    (fun _ _ h => h) (by decide)
    (by
      rintro ⟨cache, stdout⟩ t i ⟨caches, rfl⟩ hi
      obtain ⟨cache', ran, caches'⟩ := readTurn_ok caches hi
      exact ⟨_, ran, caches', rfl⟩) n k
    (by
      rintro ⟨cache, stdout⟩ t i ⟨caches, rfl⟩ hi top first
      obtain ⟨cache', ran, caches'⟩ := readTurn_refused caches hi top (readable i first)
      exact ⟨_, ran, caches', rfl⟩)
    (show R (attached d cachesize, []) [] from ⟨attached_caches h cachesize, rfl⟩)
  obtain ⟨d', closes, carries⟩ := closeCache_ok caches (act.result c .noSpace (loopRange n k))
  refine ⟨d', ?_, carries⟩
  simp only [readbuffer, ran, Runs.ok_bind, closes, act, List.flatMap_eq_foldl]
  rfl

theorem writeTurn_ok (h : Caches m c cache s) (hi : i < c.numblocks) (stdin : List ByteT) :
    ∃ cache' rest, writeTurn u (cache, stdin) i = .ok (.noError, cache', rest) ∧
      Caches m c cache' (allocateAndTake u c.blocksize (s, characters stdin) i).1 ∧
      characters rest = (allocateAndTake u c.blocksize (s, characters stdin) i).2 := by
  have blocksize : cache.getBlockSize = c.blocksize := congrArg DiskConfig.blocksize h.config
  obtain ⟨bytes, left⟩ := readBytes_ok (fresh u c.blocksize i) stdin
  rw [fresh_length] at left
  obtain ⟨cache1, notified, caches1⟩ := notifyAllocate_caches h hi
  obtain ⟨cache2, wrote, caches2⟩ := writeBlock_caches caches1 hi
    (readBytes (fresh u c.blocksize i) stdin).1 (by rw [bytes, overlay_length, fresh_length])
  rw [bytes] at caches2
  refine ⟨cache2, (readBytes (fresh u c.blocksize i) stdin).2, ?_, caches2, left⟩
  simp only [writeTurn, blocksize, notified, ne_eq, not_true, if_false, wrote, Runs.ok_bind, Runs.pure_eq_ok]

theorem writeTurn_refused (h : Caches m c cache s) (hi : ¬ i < c.numblocks) (top : i ≠ -1)
    (stdin : List ByteT) :
    ∃ cache' rest, writeTurn u (cache, stdin) i = .ok (.noSuchBlock, cache', rest) ∧ Caches m c cache' s := by
  refine ⟨_, (readBytes (fresh u cache.getBlockSize i) stdin).2, ?_,
    notify_refused h (cache.allocs + 1) cache.deallocs⟩
  simp only [writeTurn, BufferCache.notifyAllocateBlock, DiskSystem.notifyAllocateBlocks,
    notify_outside _ (h.config.symm ▸ hi) top]
  rfl

theorem writebuffer_ok (h : Carries c d s) (cachesize n k : SizeT) (stdin : List ByteT) :
    ∃ d', writebuffer u cachesize n k stdin d =
        .ok ((act c u s (.writebuffer cachesize n k stdin)).1, d') ∧
      Carries c d' (act c u s (.writebuffer cachesize n k stdin)).2 := by
  let R (p : BufferCache × List ByteT) (t : Store × List ByteT) : Prop :=
    Caches d.machine c p.1 t.1 ∧ characters p.2 = t.2
  obtain ⟨⟨cache, rest⟩, ran, caches⟩ :=
    Caches.of_loop .noSuchBlock (writeTurn u) (allocateAndTake u c.blocksize) R
    (fun p t => Caches d.machine c p.1 t.1) (fun _ _ h => h.1) (by decide)
    (by
      rintro ⟨cache, stdin⟩ ⟨t, chars⟩ i ⟨caches, rfl⟩ hi
      obtain ⟨cache', rest, ran, caches', left⟩ := writeTurn_ok caches hi stdin
      exact ⟨_, ran, caches', left⟩) n k
    (by
      rintro ⟨cache, stdin⟩ ⟨t, chars⟩ i ⟨caches, rfl⟩ hi top -
      obtain ⟨cache', rest, ran, caches'⟩ := writeTurn_refused caches hi top stdin
      exact ⟨_, ran, caches'⟩)
    (show R (attached d cachesize, stdin) (s, characters stdin) from ⟨attached_caches h cachesize, rfl⟩)
  obtain ⟨d', closes, carries⟩ := closeCache_ok caches (act.result c .noSuchBlock (loopRange n k))
  refine ⟨d', ?_, carries⟩
  simp only [writebuffer, ran, Runs.ok_bind, closes]
  rfl

theorem freebuffer_ok (h : Carries c d s) (cachesize n k : SizeT) :
    ∃ d', freebuffer cachesize n k d = .ok ((act c u s (.freebuffer cachesize n k)).1, d') ∧
      Carries c d' (act c u s (.freebuffer cachesize n k)).2 := by
  obtain ⟨cache, ran, caches⟩ := Caches.of_loop .noSuchBlock freeTurn (fun t i => t.setUsed i false)
    (Caches d.machine c) (Caches d.machine c) (fun _ _ h => h) (by decide)
    (by
      intro cache t i caches hi
      obtain ⟨cache', notified, caches'⟩ := notifyDeallocate_caches caches hi
      exact ⟨cache', by rw [freeTurn, notified], caches'⟩) n k
    (by
      intro cache t i caches hi top _
      refine ⟨_, ?_, notify_refused caches cache.allocs (cache.deallocs + 1)⟩
      rw [freeTurn, BufferCache.notifyDeallocateBlock, DiskSystem.notifyDeallocateBlocks,
        notify_outside _ (caches.config.symm ▸ hi) top])
    (attached_caches h cachesize)
  obtain ⟨d', closes, carries⟩ := closeCache_ok caches (act.result c .noSuchBlock (loopRange n k))
  refine ⟨d', ?_, carries⟩
  simp only [freebuffer, ran, Runs.ok_bind, closes]
  rfl

/-! ## Runs -/

/-- The range of a tool that works on the disk ends below 2^32; the loops of the others make the
range what it is. `readbuffer` looks at the bit of the block that stops it. -/
def Legal (c : DiskConfig) (u : Uninitialized) : Tool → Prop
  | .readdisk n k | .writedisk n k _ => n.toNat + k.toNat < 2 ^ 32
  | .readbuffer _ n k => ∀ i, firstMissing c n k = some i →
      (DiskSystem.make u.machine c ByteFile.empty).ReadableBit i
  | _ => True

/-- What a tool does to a disk it does to the store. -/
theorem main_ok (pos : 0 < c.numblocks) {tool : Tool} (legal : Legal c u tool)
    (machine : d.machine = u.machine)
    (h : Carries c d s) :
    ∃ d', main u tool d = .ok ((act c u s tool).1, d') ∧ Carries c d' (act c u s tool).2 := by
  cases tool with
  | infodisk => exact ⟨d, infodisk_ok h, h⟩
  | readdisk n k =>
      obtain ⟨d', ran, carries⟩ := readdisk_ok h pos legal
      refine ⟨d', ran, ?_⟩
      rw [act]
      split_ifs <;> exact carries
  | writedisk n k stdin => exact writedisk_ok h pos legal
  | readbuffer cachesize n k => exact readbuffer_ok h cachesize n k (by rw [machine]; exact legal)
  | writebuffer cachesize n k stdin => exact writebuffer_ok h cachesize n k stdin
  | freebuffer cachesize n k => exact freebuffer_ok h cachesize n k

theorem step_ok (pos : 0 < c.numblocks) (op : Uninitialized × Tool) (legal : Legal c op.1 op.2)
    (h : Holds stem c f s) :
    ∃ f', step stem f op = .ok ((act c op.1 s op.2).1, f') ∧ Holds stem c f' (act c op.1 s op.2).2 := by
  obtain ⟨bitmapfile, datafile, d', -, -, -, ran, holds, -⟩ :=
    process_holds (u := op.1) h fun _ machine carries => main_ok pos legal machine carries
  exact ⟨_, ran, holds⟩

/-- What the processes print, and the files they leave. -/
theorem run_ok (pos : 0 < c.numblocks) (h : Holds stem c f s) {ops : List (Uninitialized × Tool)}
    (legal : ∀ op ∈ ops, Legal c op.1 op.2) :
    ∃ f', Runs.run (step stem) f ops =
        .ok ((Runs.runSpec (fun s op => act c op.1 s op.2) s ops).1, f') ∧
      Holds stem c f' (Runs.runSpec (fun s op => act c op.1 s op.2) s ops).2 :=
  Runs.run_simulates (fun _ _ op h legal => step_ok pos op legal h) h (Runs.legal_of_forall legal _)

/-- The store of a new disk: the blocks of a data file that was there before are kept. -/
def newStore (c : DiskConfig) (datafile : Option ByteFile) : Store where
  blocks := (DiskSystem.make .small c (datafile.getD ByteFile.empty)).blocks
  used _ := false

/-- What the constructor makes of a directory with at most a data file in it. -/
theorem create_ok (stem : Text) (u : Uninitialized) (accepted : sanityCheckConfig c = .noError)
    (datafile : Option ByteFile) :
    ∃ o bitmapfile, (DiskFiles.before u.machine ⟨none, none, datafile⟩ stem c).construct true u.buf u.bitmap =
        .ok (.noError, o) ∧
      o.onBlocks = DiskSystem.make u.machine c (datafile.getD ByteFile.empty) ∧ o.diskfilestem = stem ∧
      o.configfile.handle = true ∧ o.bitmapfile = ⟨some bitmapfile, true, true⟩ ∧
      o.datafile.handle = true := by
  let zeros : List ByteT := List.replicate (byteCount c.numblocks.toNat) 0
  let d : DiskSystem := { DiskSystem.make u.machine c ByteFile.empty with bitmap := zeros }
  have bytes (bits : List ByteT) :
      (DiskSystem.numbitmapbytes { DiskSystem.make u.machine c ByteFile.empty with bitmap := bits }).toNat =
        byteCount c.numblocks.toNat := BitmapDisk.numbitmapbytes_toNat _
  have writes := BitmapDisk.Inv.writes (c := c) (s := ⟨d, ByteFile.empty⟩) ⟨rfl, List.length_replicate⟩
    ByteFile.empty
  refine ⟨⟨u.machine, stem, c, some zeros, ⟨some (writeConfig stem c), true, true⟩,
    ⟨some (ByteFile.empty.write 0 zeros), true, true⟩,
    ⟨some (datafile.getD ByteFile.empty), true, true⟩⟩, _, ?_, rfl, rfl, rfl, rfl, rfl⟩
  simp only [DiskFiles.construct, if_true, DiskFiles.initFromInMemoryConfig, DiskFiles.before,
    accepted, ne_eq,
    not_true, if_false, Option.isSome_none, Bool.or_self, Bool.false_eq_true, Slot.openNew, Bool.not_true,
    DiskFiles.writeConfig, DiskFiles.disk, Option.getD_none, bytes, DiskFiles.writeBitMap, Option.getD_some]
  rw [writes]
  simp only [not_true, if_false, DiskFiles.openData]
  cases datafile with
  | none => rfl
  | some data => rfl

theorem makedisk_ok (accepted : sanityCheckConfig c = .noError) (rereadable : Rereadable stem c)
    (datafile : Option ByteFile)
    (sound : (DiskSystem.make u.machine c (datafile.getD ByteFile.empty)).Sound) :
    ∃ f, makedisk stem c u ⟨none, none, datafile⟩ =
        .ok (⟨[], .noError, printBitmap c.numblocks fun _ => false⟩, f) ∧
      Holds stem (rounded c) f (newStore c datafile) := by
  obtain ⟨o, bitmapfile, constructed, disk, rfl, handle, bits, data⟩ := create_ok stem u accepted datafile
  have carries : Carries c (DiskSystem.make u.machine c (datafile.getD ByteFile.empty))
    (newStore c datafile) :=
    ⟨rfl, sound, rfl, List.length_replicate, fun n _ => getBit_replicate_zero _ _⟩
  obtain ⟨o', destroyed, files⟩ := destroy_leave handle bits data carries.marks.length
  obtain ⟨again, rereadable'⟩ := rereadable_rounded accepted rereadable
  refine ⟨_, ?_, ⟨rereadable', rounded_rounded c⟩, _, _,
    closed_opens bitmapfile accepted rereadable carries.marks.length, ?_⟩
  · rw [makedisk, process, constructed]
    simp only [Runs.ok_bind, disk, infodisk_ok (u := u) carries, destroyed, files, Runs.pure_eq_ok]
    rfl
  · intro m
    obtain ⟨-, sound', blocks, marks⟩ := opened_closed bitmapfile carries c rfl m
    exact ⟨rfl, ⟨again, sound'.apart, sound'.reach⟩, blocks, marks.length, marks.bit⟩

theorem act_rounded (tool : Tool) : act (rounded c) u s tool = act c u s tool := by
  cases tool <;> rfl

/-- A disk is made and then used by any tools in any order, each with a cache size of its
own: together they print what one array of blocks and one set of allocated blocks make them
print, and the files stand for these. -/
theorem tools_refine_store (stem : Text) (c : DiskConfig) (accepted : sanityCheckConfig c = .noError)
    (rereadable : Rereadable stem c) (u : Uninitialized)
    (fits : (DiskSystem.make u.machine c ByteFile.empty).Fits)
    (pos : 0 < c.numblocks) (datafile : Option ByteFile)
    (ops : List (Uninitialized × Tool)) (legal : ∀ op ∈ ops, Legal c op.1 op.2) :
    ∃ f f', makedisk stem c u ⟨none, none, datafile⟩ =
        .ok (⟨[], .noError, printBitmap c.numblocks fun _ => false⟩, f) ∧
      Runs.run (step stem) f ops =
        .ok ((Runs.runSpec (fun s op => act c op.1 s op.2) (newStore c datafile) ops).1, f') ∧
      Holds stem (rounded c) f' (Runs.runSpec (fun s op => act c op.1 s op.2) (newStore c datafile)
        ops).2 := by
  have sound : (DiskSystem.make u.machine c (datafile.getD ByteFile.empty)).Sound :=
    DiskSystem.Fits.sound fits accepted
  obtain ⟨f, made, holds⟩ := makedisk_ok (u := u) accepted rereadable datafile sound
  obtain ⟨f', ran, holds'⟩ := run_ok (show 0 < (rounded c).numblocks from pos) holds legal
  simp only [act_rounded] at ran holds'
  exact ⟨f, f', made, ran, holds'⟩

/-- Eight blocks of four bytes. -/
def tinyConfig : DiskConfig := ⟨0, 8, 4, 1, 8, 1, 10, 1, 10⟩

theorem tinyConfig_accepted : sanityCheckConfig tinyConfig = .noError := by
  norm_num [sanityCheckConfig, tinyConfig]

theorem tinyConfig_rereadable : Rereadable "disk".toList tinyConfig := by
  have positive := (sanityCheckConfig_ok.mp tinyConfig_accepted).1
  refine ⟨by decide, by decide, by decide, ?_, ?_, ?_, fits_of_short ((short_iff positive.2.2).mpr ?_)⟩
  all_goals norm_num [tinyConfig]

def zeros : Uninitialized := ⟨.small, [], fun _ => 0, fun _ _ => 0⟩

/-- The blank in the input is not stored, so the second block ends with what the memory held. -/
theorem tools_refine_store_tiny : ∃ f f', makedisk "disk".toList tinyConfig zeros ⟨none, none, none⟩ =
      .ok (⟨[], .noError, "........".toList⟩, f) ∧
    Runs.run (step "disk".toList) f ([.writebuffer 1 6 2 (text "ab cdefg"), .infodisk, .freebuffer 0 6 1,
        .readbuffer 2 6 3, .infodisk].map fun tool => (zeros, tool)) =
      .ok ([⟨[], .noError, []⟩, ⟨[], .noError, "......**".toList⟩, ⟨[], .noError, []⟩,
        ⟨text "abcdefg" ++ [0], .noSpace, []⟩, ⟨[], .noError, ".......*".toList⟩], f') := by
  have stops : Legal tinyConfig zeros (.readbuffer 2 6 3) := by
    intro i first
    have eight : firstMissing tinyConfig 6 3 = some 8 := rfl
    rw [eight] at first
    cases first
    exact ⟨false, rfl⟩
  obtain ⟨f, f', made, ran, -⟩ := tools_refine_store "disk".toList tinyConfig tinyConfig_accepted
    tinyConfig_rereadable zeros (by decide) (by decide) none
    ([.writebuffer 1 6 2 (text "ab cdefg"), .infodisk, .freebuffer 0 6 1, .readbuffer 2 6 3, .infodisk].map
      fun tool => (zeros, tool))
    (by
      simp only [List.map, List.forall_mem_cons]
      exact ⟨trivial, trivial, trivial, stops, trivial, by simp⟩)
  refine ⟨f, f', made.trans ?_, ran.trans ?_⟩
  · rfl
  · rfl

end Tools

end BTreeLab
