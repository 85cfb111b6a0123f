import EECS339.IndexTools
import EECS339.ToolFiles

/-!
# Runs of the tools of the index

Whatever tools of the index follow one another, the files stand for one search tree: a
process mounts the index that the process before it left, and what it prints is what the
tree says.
-/
namespace BTreeLab
open Words SearchTree BTreeNode Tools PackedBits

/-- The node in block `n` of a store. -/
def Store.nodeAt (c : DiskConfig) (s : Store) (n : SizeT) : Except Fault BTreeNode :=
  BTreeNode.ofBytes c.blocksize (s.blocks n)

namespace IndexTools

variable {m : Machine} {c : DiskConfig} {s : Store} {d : DiskSystem} {cache : BufferCache} {t : BTreeIndex}
  {u : Memory} {fuel : Nat} {x : Index} {v : Volume} {double : ℚ → List ByteT}

/-- The superblock names the root of the tree, and the tree can be walked with the fuel. -/
structure Lies (c : DiskConfig) (fuel : Nat) (s : Store) (x : Index) : Prop where
  super : ∃ super, s.nodeAt c 0 = .ok super ∧ super.info.nodetype = btreeSuperblock ∧
    super.info.rootnode = x.placed.block
  sits : x.placed.Sits x.keysize x.valuesize (s.nodeAt c)
  ordered : x.placed.tree.Ordered
  height : x.placed.tree.height < fuel

/-- A store and what it is used for. -/
structure Stands (c : DiskConfig) (fuel : Nat) (s : Store) (v : Volume) : Prop where
  used : s.used = v.used
  index : ∀ x, v.index = some x → Lies c fuel s x

/-- A device on which an index can be made and used: no block has the number that the code
of a lookup that finds nothing stands for. -/
structure Roomy (c : DiskConfig) : Prop where
  node : 32 ≤ c.blocksize.toNat
  three : 3 ≤ c.numblocks.toNat
  codes : c.numblocks ≤ BitVec.ofInt 32 ErrorT.nonexistent.code

theorem Lies.congr {s' : Store} (h : Lies c fuel s x) (same : s'.nodeAt c = s.nodeAt c) :
    Lies c fuel s' x := by
  obtain ⟨super, sits, ordered, height⟩ := h
  exact ⟨same ▸ super, same ▸ sits, ordered, height⟩

theorem nodeAt_caches (h : Caches m c cache s) : cache.nodeAt = s.nodeAt c := by
  obtain ⟨rfl, -, -, blocks, -⟩ := h
  funext n
  rw [BufferCache.nodeAt, Store.nodeAt, blocks]

/-! ## Mounting and unmounting -/

/-- Unmounting writes the superblock back, and everything reaches the disk. -/
theorem unmount_ok (h : t.Mounted) (caches : Caches m c t.buffercache s) : ∃ c1 c2 d s',
    t.detach u = .ok (.noError, ⟨c1, 0, t.superblock⟩) ∧ c1.detach = .ok (.noError, c2) ∧
      dropCache c2 = .ok d ∧ Carries c d s' ∧ s'.used = s.used ∧ s'.nodeAt c = s.nodeAt c := by
  obtain ⟨c1, unmounted, mounted, k, nodes⟩ := t.detach_ok (u := u) h
  have caches1 := caches.keeps k mounted.valid (rfl : c1.logical = c1.logical)
  obtain ⟨c2, detached, caches2, -⟩ := detach_caches caches1
  obtain ⟨c3, again, -, carries⟩ := detach_caches caches2
  refine ⟨c1, c2, c3.disk, _, unmounted, detached, ?_, carries, rfl, ?_⟩
  · simp only [dropCache, again, Runs.ok_bind, Runs.pure_eq_ok]
  · rw [← nodeAt_caches caches1, nodes, nodeAt_caches caches]

theorem mount_ok (h : t.buffercache.Valid) (caches : Caches m c t.buffercache s) {super : BTreeNode}
    (holds : s.nodeAt c 0 = .ok super) :
    ∃ cache', t.attach u 0 false = .ok (.noError, ⟨cache', 0, super⟩) ∧ Caches m c cache' s := by
  rw [← nodeAt_caches caches] at holds
  obtain ⟨cache', read, valid, k, same⟩ := BufferCache.unserialize_ok h t.superblock holds
  refine ⟨cache', ?_, caches.keeps k valid (same.trans caches.blocks)⟩
  simp only [BTreeIndex.attach, ne_eq, not_true, if_false, Bool.false_eq_true, Runs.ok_bind, read,
    Runs.pure_eq_ok]

theorem mounted_of_caches (caches : Caches m c cache s) (room : 28 ≤ c.blocksize.toNat) {super : BTreeNode}
    (holds : s.nodeAt c 0 = .ok super) (kind : super.info.nodetype = btreeSuperblock) :
    (⟨cache, 0, super⟩ : BTreeIndex).Mounted :=
  ⟨caches.valid, by rw [caches.config]; exact room, rfl, by rw [nodeAt_caches caches, holds], kind⟩

/-- A tool that leaves the mounted index as it is leaves a store with the same nodes. -/
theorem withIndex_ok (h : Carries c d s) (room : 28 ≤ c.blocksize.toNat) {super : BTreeNode}
    (holds : s.nodeAt c 0 = .ok super) (kind : super.info.nodetype = btreeSuperblock)
    {use : BTreeIndex → Except Fault (List ByteT × ErrorT × BTreeIndex)} {stdout : List ByteT} {said : ErrorT}
    (used : ∀ cache, Caches d.machine c cache s → ∃ cache',
      use ⟨cache, 0, super⟩ = .ok (stdout, said, ⟨cache', 0, super⟩) ∧ Caches d.machine c cache' s)
    (cachesize keysize valuesize : SizeT) :
    ∃ d' s', withIndex u cachesize keysize valuesize false use d =
        .ok (⟨⟨stdout, .noError, []⟩, said⟩, d') ∧
      Carries c d' s' ∧ s'.used = s.used ∧ s'.nodeAt c = s.nodeAt c := by
  have caches := attached_caches h cachesize
  obtain ⟨cache1, mount, caches1⟩ := mount_ok (u := u)
    (t := BTreeIndex.make u keysize valuesize (attached d cachesize)) caches.valid caches holds
  obtain ⟨cache2, ran, caches2⟩ := used cache1 caches1
  obtain ⟨c1, c2, d', s', unmount, detach, drop, left⟩ := unmount_ok (u := u)
    (mounted_of_caches caches2 room holds kind) caches2
  refine ⟨d', s', ?_, left⟩
  simp only [withIndex, mount, Runs.ok_bind, ne_eq, not_true, if_false, ran, unmount, detach, drop,
    Runs.pure_eq_ok]

theorem withIndex_killed (h : Carries c d s) {super : BTreeNode} (holds : s.nodeAt c 0 = .ok super)
    {use : BTreeIndex → Except Fault (List ByteT × ErrorT × BTreeIndex)} {e : Fault}
    (killed : ∀ cache, Caches d.machine c cache s → use ⟨cache, 0, super⟩ = .error e)
    (cachesize keysize valuesize : SizeT) :
    withIndex u cachesize keysize valuesize false use d = .error e := by
  have caches := attached_caches h cachesize
  obtain ⟨cache1, mount, caches1⟩ := mount_ok (u := u)
    (t := BTreeIndex.make u keysize valuesize (attached d cachesize)) caches.valid caches holds
  simp only [withIndex, mount, Runs.ok_bind, ne_eq, not_true, if_false, killed cache1 caches1,
    Runs.error_bind]

/-! ## A new index -/

/-- Marking a block in the bitmap marks it in the set. -/
theorem marks_setBit {bits : List ByteT} {used : SizeT → Bool} (h : Marks c bits used) {i : SizeT}
    (hi : i < c.numblocks) : Marks c (setBit bits i.toNat) (Function.update used i true) :=
  h.set setBit_length (fun _ _ _ inside => getBit_setBit inside) hi

/-- The pages of a new index: the root has no key, and its pointer is zero. -/
theorem lies_of_formatted (caches : Caches m c cache s) (wide : 32 ≤ c.blocksize.toNat) (positive : 0 < fuel)
    {keysize valuesize : SizeT} {bitmap : List ByteT}
    (formatted : BTreeIndex.Formatted keysize valuesize bitmap cache) :
    Lies c fuel s ⟨keysize, valuesize, .empty 1 0⟩ := by
  have nodes := nodeAt_caches caches
  have size : cache.getBlockSize = c.blocksize := congrArg DiskConfig.blocksize caches.config
  let root := BTreeIndex.newrootnode cache 0 keysize valuesize
  have long : root.info.getNumDataBytes.toNat = 4 + (c.blocksize.toNat - 32) := by
    rw [getNumDataBytes_toNat (by change 28 ≤ cache.getBlockSize.toNat; rw [size]; omega)]
    change cache.getBlockSize.toNat - 28 = _
    rw [size]
    omega
  have data : root.data = some (wordBytes 0 ++ List.replicate (c.blocksize.toNat - 32) 0) := by
    change some (List.replicate root.info.getNumDataBytes.toNat 0) = _
    rw [long, List.replicate_add]
    rfl
  refine ⟨⟨_, nodes ▸ formatted.super, rfl, rfl⟩, ⟨root, _, nodes ▸ formatted.root, Or.inr rfl, rfl, data⟩,
    ?_, positive⟩
  simp only [Placed.tree, SearchTree.Tree.Ordered]

/-- Making an index marks its first two blocks. -/
theorem create_caches (u : Memory) (h : Carries c d s) (room : Roomy c)
    (cachesize keysize valuesize : SizeT) :
    ∃ cache1 super, (BTreeIndex.make u keysize valuesize (attached d cachesize)).attach u 0 true =
        .ok (.noError, ⟨cache1, 0, super⟩) ∧
      (⟨cache1, 0, super⟩ : BTreeIndex).Mounted ∧ super.info.rootnode = 1 ∧
      BTreeIndex.Formatted keysize valuesize (attached d cachesize).disk.bitmap cache1 ∧
      Caches d.machine c cache1 ⟨cache1.logical, Function.update (Function.update s.used 0 true) 1 true⟩ := by
  have caches := attached_caches h cachesize
  have wide := room.node
  have three := room.three
  obtain ⟨cache1, made, mounted, config, machine, formatted⟩ := BTreeIndex.attach_create_ok (u := u)
    (t := BTreeIndex.make u keysize valuesize (attached d cachesize)) caches.valid
    (by change 28 ≤ (attached d cachesize).disk.blocksize.toNat; rw [caches.config]; omega)
    (by change 3 ≤ (attached d cachesize).disk.numblocks.toNat; rw [caches.config]; omega)
  have first : (0 : SizeT) < c.numblocks := BitVec.lt_def.mpr (by simp; omega)
  have second : (1 : SizeT) < c.numblocks := BitVec.lt_def.mpr (by simp; omega)
  have marks : Marks c cache1.disk.bitmap (Function.update (Function.update s.used 0 true) 1 true) := by
    rw [formatted.bits]
    exact marks_setBit (marks_setBit caches.marks first) second
  exact ⟨cache1, _, made, mounted, rfl, formatted, config.trans caches.config, machine,
    mounted.valid, rfl, marks⟩

/-- A new index is an empty root. -/
theorem btreeInit_ok (h : Carries c d s) (room : Roomy c) (positive : 0 < fuel)
    (cachesize keysize valuesize : SizeT) :
    ∃ d' s', btreeInit u cachesize keysize valuesize d = .ok (⟨⟨[], .noError, []⟩, .noError⟩, d') ∧
      Carries c d' s' ∧ s'.used = Function.update (Function.update s.used 0 true) 1 true ∧
      Lies c fuel s' ⟨keysize, valuesize, .empty 1 0⟩ := by
  obtain ⟨cache1, super, made, mounted, -, formatted, caches1⟩ :=
    create_caches u h room cachesize keysize valuesize
  obtain ⟨c1, c2, d', s', unmount, detach, drop, carries, used, nodes⟩ := unmount_ok (u := u) mounted caches1
  refine ⟨d', s', ?_, carries, used, (lies_of_formatted caches1 room.node positive formatted).congr nodes⟩
  simp only [btreeInit, withIndex, made, Runs.ok_bind, ne_eq, not_true, if_false, unmount, detach, drop,
    Runs.pure_eq_ok]

/-! ## The tools on a mounted index -/

variable {super : BTreeNode} {key : List ByteT}

theorem lookup_caches (lies : Lies c fuel s x) (root : super.info.rootnode = x.placed.block)
    (caches : Caches m c cache s) (keyed : key.length = x.keysize.toNat) :
    ∃ cache', (⟨cache, 0, super⟩ : BTreeIndex).lookup u fuel (Block.ofBytes key) =
        .ok ((BTreeIndex.reply (find key x.placed.tree.entries)).1,
          (BTreeIndex.reply (find key x.placed.tree.entries)).2, ⟨cache', 0, super⟩) ∧
      Caches m c cache' s := by
  have pages := lies.sits.encodes
  rw [← nodeAt_caches caches] at pages
  have keyed' : (Block.ofBytes key).length = x.keysize.toNat := keyed
  obtain ⟨cache', ran, valid, k, same⟩ :=
    BTreeIndex.lookupInternal_ok u keyed' lies.height caches.valid pages
  refine ⟨cache', ?_, caches.keeps k valid (same.trans caches.blocks)⟩
  rw [x.placed.tree.search_eq _ lies.ordered] at ran
  simp only [BTreeIndex.lookup, root, ran, Runs.ok_bind, Runs.pure_eq_ok, Block.ofBytes_data]

theorem readable_of_caches (caches : Caches m c cache s) (n : SizeT) :
    cache.disk.ReadableBit n ↔ (DiskSystem.make m c ByteFile.empty).ReadableBit n :=
  DiskSystem.readableBit_congr (d := DiskSystem.make m c ByteFile.empty) caches.config caches.machine n

theorem far_outside (room : Roomy c) (caches : Caches m c cache s) :
    ¬ Volume.farBlock < cache.disk.numblocks := by
  rw [caches.config]
  exact not_lt.mpr room.codes

/-- What an insertion that is not killed reads is not a node: the superblock, or no block at all. -/
theorem insert_caches (room : Roomy c) (lies : Lies c fuel s x) (holds : s.nodeAt c 0 = .ok super)
    (kind : super.info.nodetype = btreeSuperblock) (root : super.info.rootnode = x.placed.block)
    (caches : Caches m c cache s) (keyed : key.length = x.keysize.toNat) (value : List ByteT)
    (readable : find key x.placed.tree.entries = none →
      (DiskSystem.make m c ByteFile.empty).ReadableBit Volume.farBlock) :
    ∃ cache', (⟨cache, 0, super⟩ : BTreeIndex).insert u fuel (Block.ofBytes key) (Block.ofBytes value) =
        .ok (if (find key x.placed.tree.entries).isSome then .insane else .noSpace, ⟨cache', 0, super⟩) ∧
      Caches m c cache' s := by
  obtain ⟨cache1, looked, caches1⟩ := lookup_caches (u := u) lies root caches keyed
  cases found : find key x.placed.tree.entries with
  | some v =>
      rw [found] at looked
      have node : cache1.nodeAt 0 = .ok super := by rw [nodeAt_caches caches1, holds]
      obtain ⟨cache2, read, valid, k, same⟩ :=
        BufferCache.unserialize_ok caches1.valid (BTreeNode.default u.info) node
      refine ⟨cache2, ?_, caches1.keeps k valid (same.trans caches1.blocks)⟩
      have zero : BitVec.ofInt 32 ErrorT.noError.code = 0 := rfl
      have inner : ¬ super.info.Interior := by
        rw [NodeMetadata.Interior, kind]
        decide
      have outer : super.info.nodetype ≠ btreeLeafNode := by
        rw [kind]
        decide
      simp only [BTreeIndex.insert, looked, Runs.ok_bind, BTreeIndex.reply, zero, read, ne_eq, not_true,
        if_false, inner, outer, or_false, Option.isSome_some, if_true, Runs.pure_eq_ok]
  | none =>
      rw [found] at looked
      obtain ⟨cache2, refused, valid, k, same⟩ := BufferCache.readBlock_outside caches1.valid
        (far_outside room caches1) (by decide) ((readable_of_caches caches1 _).mpr (readable found))
      refine ⟨cache2, ?_, caches1.keeps k valid (same.trans caches1.blocks)⟩
      have read : (BTreeNode.default u.info).unserialize cache1 Volume.farBlock =
          .ok (.noSpace, BTreeNode.default u.info, cache2) := by
        simp only [unserialize, refused, Runs.ok_bind]
        rfl
      simp only [BTreeIndex.insert, looked, Runs.ok_bind, BTreeIndex.reply]
      rw [show BitVec.ofInt 32 ErrorT.nonexistent.code = Volume.farBlock from rfl, read]
      rfl

/-- The others end there. -/
theorem insert_killed (lies : Lies c fuel s x) (root : super.info.rootnode = x.placed.block)
    (caches : Caches m c cache s) (keyed : key.length = x.keysize.toNat) (value : List ByteT)
    (absent : find key x.placed.tree.entries = none)
    (unreadable : ¬ (DiskSystem.make m c ByteFile.empty).ReadableBit Volume.farBlock) :
    (⟨cache, 0, super⟩ : BTreeIndex).insert u fuel (Block.ofBytes key) (Block.ofBytes value) =
      .error .outOfBounds := by
  obtain ⟨cache1, looked, caches1⟩ := lookup_caches (u := u) lies root caches keyed
  have killed : cache1.readBlock Volume.farBlock = .error .outOfBounds :=
    BufferCache.readBlock_killed caches1.valid (mt (readable_of_caches caches1 _).mp unreadable)
  have read : (BTreeNode.default u.info).unserialize cache1 Volume.farBlock = .error .outOfBounds := by
    simp only [unserialize, killed, Runs.error_bind]
  rw [absent] at looked
  simp only [BTreeIndex.insert, looked, Runs.ok_bind, BTreeIndex.reply]
  rw [show BitVec.ofInt 32 ErrorT.nonexistent.code = Volume.farBlock from rfl, read]
  rfl

theorem display_caches (lies : Lies c fuel s x) (root : super.info.rootnode = x.placed.block)
    (caches : Caches m c cache s) (dt : BTreeDisplayType) (deep : dt ≠ .sortedKeyval) :
    ∃ cache', (⟨cache, 0, super⟩ : BTreeIndex).display u fuel dt =
        .ok (.noError, BTreeIndex.framed dt (x.placed.statements.flatMap (Statement.bytes dt)),
          ⟨cache', 0, super⟩) ∧
      Caches m c cache' s := by
  have sits := lies.sits
  rw [← nodeAt_caches caches] at sits
  obtain ⟨cache', ran, valid, k, same⟩ := BTreeIndex.displayInternal_draws u deep fuel x.placed cache
    lies.height caches.valid sits
  refine ⟨cache', ?_, caches.keeps k valid (same.trans caches.blocks)⟩
  simp only [BTreeIndex.display, root, ran, Runs.ok_bind, Runs.pure_eq_ok, BTreeIndex.framed]

theorem displayType_deep (mode : List ByteT) : displayType mode ≠ .sortedKeyval := by
  rw [displayType]
  split_ifs <;> decide

/-! ## Processes -/

/-- What a tool on a mounted index is for the store. -/
theorem stands_after (stands : Stands c fuel s v) {s' : Store} (used : s'.used = s.used)
    (nodes : s'.nodeAt c = s.nodeAt c) : Stands c fuel s' v :=
  ⟨used.trans stands.used, fun x found => (stands.index x found).congr nodes⟩

/-- A tool that needs an index finds it and answers from it. -/
theorem answered (h : Carries c d s) (room : Roomy c) (stands : Stands c fuel s v) (found : v.index = some x)
    {tool : IndexTool} {cachesize : SizeT}
    {use : BTreeIndex → Except Fault (List ByteT × ErrorT × BTreeIndex)}
    (frame : main double u fuel tool d = withIndex u cachesize 0 0 false use d)
    (acts : v.act double c d.machine tool =
      (some ⟨⟨(x.answer double tool).1, .noError, []⟩, (x.answer double tool).2⟩, v))
    (used : ∀ super, s.nodeAt c 0 = .ok super → super.info.nodetype = btreeSuperblock →
      super.info.rootnode = x.placed.block → ∀ cache, Caches d.machine c cache s → ∃ cache',
        use ⟨cache, 0, super⟩ = .ok ((x.answer double tool).1, (x.answer double tool).2, ⟨cache', 0, super⟩) ∧
        Caches d.machine c cache' s) :
    ∃ o d' s', (v.act double c d.machine tool).1 = some o ∧ main double u fuel tool d = .ok (o, d') ∧
      Carries c d' s' ∧ Stands c fuel s' (v.act double c d.machine tool).2 := by
  have wide := room.node
  obtain ⟨super, holds, kind, root⟩ := (stands.index x found).super
  obtain ⟨d', s', ran, carries, marks, nodes⟩ := withIndex_ok (u := u) h (by omega) holds kind
    (fun cache caches => used super holds kind root cache caches) cachesize 0 0
  rw [acts]
  exact ⟨_, d', s', rfl, frame.trans ran, carries, stands_after stands marks nodes⟩

/-- A tool that is not killed does to a disk what it does to the volume. -/
theorem main_ok (double : ℚ → List ByteT) (room : Roomy c) (positive : 0 < fuel)
    (stands : Stands c fuel s v) {tool : IndexTool} (legal : v.Legal tool)
    (alive : ∀ x, v.index = some x → ¬ Volume.Kills d.machine c x tool)
    (h : Carries c d s) :
    ∃ o d' s', (v.act double c d.machine tool).1 = some o ∧ main double u fuel tool d = .ok (o, d') ∧
      Carries c d' s' ∧ Stands c fuel s' (v.act double c d.machine tool).2 := by
  cases tool with
  | infodisk =>
      refine ⟨_, d, s, rfl, ?_, h, stands⟩
      simp only [main, infodisk_ok (u := zeros) h, Store.act, stands.used, Except.map]
  | btreeInit cachesize keysize valuesize =>
      obtain ⟨d', s', ran, carries, used, lies⟩ := btreeInit_ok (u := u) h room positive cachesize
        keysize valuesize
      refine ⟨_, d', s', rfl, ran, carries, by rw [used, stands.used]; rfl, ?_⟩
      rintro x ⟨⟩
      exact lies
  | btreeInsert cachesize key value =>
      obtain ⟨x, found, keyed⟩ := legal
      have stays := alive x found
      refine answered h room stands found (by rw [main, btreeInsert])
        (by simp only [Volume.act, found, if_neg stays]) ?_
      intro super holds kind root cache caches
      obtain ⟨cache', ran, caches'⟩ := insert_caches (u := u) room (stands.index x found) holds kind root
        caches keyed value fun absent => not_not.mp fun unreadable => stays ⟨absent, unreadable⟩
      exact ⟨cache', by rw [ran]; rfl, caches'⟩
  | btreeUpdate cachesize key value =>
      obtain ⟨x, found⟩ := legal
      refine answered h room stands found (by rw [main, btreeUpdate])
        (by simp only [Volume.act, found]; rfl) ?_
      exact fun super holds kind root cache caches => ⟨cache, rfl, caches⟩
  | btreeDelete cachesize key =>
      obtain ⟨x, found⟩ := legal
      refine answered h room stands found (by rw [main, btreeDelete])
        (by simp only [Volume.act, found]; rfl) ?_
      exact fun super holds kind root cache caches => ⟨cache, rfl, caches⟩
  | btreeLookup cachesize key =>
      obtain ⟨x, found, keyed⟩ := legal
      refine answered h room stands found (by rw [main, btreeLookup])
        (by simp only [Volume.act, found]; rfl) ?_
      intro super holds kind root cache caches
      obtain ⟨cache', ran, caches'⟩ := lookup_caches (u := u) (stands.index x found) root caches keyed
      refine ⟨cache', ?_, caches'⟩
      rw [ran, Index.answer]
      cases find key x.placed.tree.entries <;> rfl
  | btreeDisplay cachesize mode =>
      obtain ⟨x, found⟩ := legal
      refine answered h room stands found (by rw [main, btreeDisplay])
        (by simp only [Volume.act, found]; rfl) ?_
      intro super holds kind root cache caches
      obtain ⟨cache', ran, caches'⟩ := display_caches (u := u) (stands.index x found) root caches
        (displayType mode) (displayType_deep mode)
      exact ⟨cache', by rw [ran]; rfl, caches'⟩
  | btreeShow cachesize =>
      obtain ⟨x, found⟩ := legal
      refine answered h room stands found (by rw [main, btreeShow]) (by simp only [Volume.act, found]; rfl) ?_
      exact fun super holds kind root cache caches => ⟨cache, rfl, caches⟩
  | btreeSane cachesize =>
      obtain ⟨x, found⟩ := legal
      refine answered h room stands found (by rw [main, btreeSane]) (by simp only [Volume.act, found]; rfl) ?_
      exact fun super holds kind root cache caches => ⟨cache, rfl, caches⟩

/-! ## What is left of an insertion that is killed -/

theorem unserialize_clean (clean : Clean cache) {b b' : BTreeNode} {n : SizeT} {rc : ErrorT}
    {cache' : BufferCache} (ran : b.unserialize cache n = .ok (rc, b', cache')) : Clean cache' := by
  cases read : cache.readBlock n with
  | error e =>
      rw [unserialize, read] at ran
      cases ran
  | ok r =>
      obtain ⟨rc1, block, cache1⟩ := r
      have clean1 := clean.readBlock read
      simp only [unserialize, read, Runs.ok_bind] at ran
      split_ifs at ran
      · cases ran
        exact clean1
      · cases block with
        | none => cases ran
        | some block =>
            obtain ⟨b1, -, same⟩ := Runs.bind_eq_ok ran
            cases same
            exact clean1

/-- Nor does a lookup write, by induction on the fuel. -/
theorem lookup_clean (clean : Clean cache) {key : KeyT} {n : SizeT} {rc : ErrorT} {value : Option ValueT}
    {cache' : BufferCache}
    (ran : BTreeIndex.lookupOrUpdateInternal u .lookup key fuel cache n = .ok (rc, value, cache')) :
    Clean cache' := by
  induction fuel generalizing cache n with
  | zero => cases ran
  | succ fuel ih =>
      rw [BTreeIndex.lookupOrUpdateInternal] at ran
      obtain ⟨⟨rc1, b, cache1⟩, read, rest⟩ := Runs.bind_eq_ok ran
      have clean1 := unserialize_clean clean read
      dsimp only at rest
      split_ifs at rest with failed interior leaf
      · cases rest
        exact clean1
      · obtain ⟨ptr, -, descent⟩ := Runs.bind_eq_ok rest
        cases ptr with
        | error rc2 =>
            cases descent
            exact clean1
        | ok ptr => exact ih clean1 descent
      · obtain ⟨found, -, answer⟩ := Runs.bind_eq_ok rest
        cases found <;> cases answer <;> exact clean1
      · cases rest
        exact clean1

/-- A cache that waits with nothing stands for the disk behind it. -/
theorem carries_of_clean (caches : Caches m c cache s) (clean : Clean cache) : Carries c cache.disk s := by
  refine ⟨caches.config, caches.valid.sound, ?_, caches.marks⟩
  rw [← caches.blocks]
  funext n
  symm
  refine WriteBack.overlay_eq_store (w := cache.view) (k := n) fun data dirty entry => ?_
  obtain ⟨b, cached, same⟩ := Option.map_eq_some_iff.mp entry
  cases same
  have here : cache.view.cached n = some (b.data, false) := by rw [entry, clean n b cached]
  exact caches.valid.coherent n b.data here

/-- Up to the read an insertion only reads. -/
theorem upToRead_ok (h : Carries c d s) (lies : Lies c fuel s x) {key : List ByteT}
    (keyed : key.length = x.keysize.toNat) (cachesize : SizeT) :
    ∃ d', upToRead u fuel cachesize key d = .ok ((), d') ∧ Carries c d' s := by
  obtain ⟨super, holds, kind, root⟩ := lies.super
  have caches := attached_caches h cachesize
  have clean : Clean (attached d cachesize) := fun n b entry => by
    change (∅ : Std.TreeMap SizeT Block)[n]? = some b at entry
    simp at entry
  obtain ⟨cache1, mount, caches1⟩ := mount_ok (u := u)
    (t := BTreeIndex.make u 0 0 (attached d cachesize)) caches.valid caches holds
  have clean1 : Clean cache1 := by
    simp only [BTreeIndex.attach, ne_eq, not_true, if_false, Bool.false_eq_true, Runs.ok_bind] at mount
    obtain ⟨⟨rc, b, c1⟩, read, same⟩ := Runs.bind_eq_ok mount
    cases same
    exact unserialize_clean clean read
  obtain ⟨cache2, looked, caches2⟩ := lookup_caches (u := u) lies root caches1 keyed
  have clean2 : Clean cache2 := by
    obtain ⟨⟨rc, value, c2⟩, descent, same⟩ := Runs.bind_eq_ok looked
    cases same
    exact lookup_clean clean1 descent
  refine ⟨cache2.disk, ?_, carries_of_clean caches2 clean2⟩
  simp only [upToRead, mount, Runs.ok_bind, looked, Runs.pure_eq_ok]

variable {stem : Text} {f : Files} {w : Uninitialized}

theorem process_faults {α : Type} (h : Holds stem c f s) {body : DiskSystem → Except Fault (α × DiskSystem)}
    {e : Fault} (ran : ∀ d, d.machine = w.machine → Carries c d s → body d = .error e) :
    process stem false ConfigFile.byDefault w body f = .error e := by
  obtain ⟨bitmapfile, datafile, opens, carries⟩ := h.files
  obtain ⟨o, constructed, disk, -⟩ := construct_ok (u := w) opens
  rw [process, constructed]
  simp only [Runs.ok_bind, disk, ran _ rfl (carries w.machine), Runs.error_bind]

/-- A process that has only read has not changed the store. -/
theorem readers_hold (h : Holds stem c f s) {body : DiskSystem → Except Fault (Unit × DiskSystem)}
    (ran : ∀ d, Carries c d s → ∃ d', body d = .ok ((), d') ∧ Carries c d' s) :
    ∃ f', process stem false ConfigFile.byDefault w body f = .ok ((), f') ∧
      Holds stem c { f with datafile := f'.datafile } s := by
  obtain ⟨bitmapfile, datafile, opens, carries⟩ := h.files
  obtain ⟨d, hbody, left⟩ := ran _ (carries w.machine)
  refine ⟨_, process_ran opens hbody left.config left.marks.length, h.settled, bitmapfile, d.datafile,
    ⟨opens.config, opens.accepted, opens.bitmap, opens.size, rfl⟩, fun m => ?_⟩
  exact (left.remark (carries m).marks).congr rfl rfl rfl


/-- The files of the disk `stem` and the volume that they stand for. -/
def Keeps (stem : Text) (c : DiskConfig) (fuel : Nat) (f : Files) (v : Volume) : Prop :=
  ∃ s, Holds stem c f s ∧ Stands c fuel s v

/-- The volume after one process. -/
def after (double : ℚ → List ByteT) (c : DiskConfig) (v : Volume)
    (op : (Uninitialized × Memory) × IndexTool) :
    Option IndexOutcome × Volume := v.act double c op.1.1.machine op.2

/-- A process that is killed: what it read before left the store as it was. -/
theorem step_killed (double : ℚ → List ByteT) (h : Holds stem c f s) (lies : Lies c fuel s x)
    {cachesize : SizeT} {key value : List ByteT} (keyed : key.length = x.keysize.toNat)
    (kills : Volume.Kills w.machine c x (.btreeInsert cachesize key value)) :
    ∃ f', step double fuel stem f ((w, u), .btreeInsert cachesize key value) = .ok (none, f') ∧
      Holds stem c f' s := by
  obtain ⟨super, holds, -, root⟩ := lies.super
  have killed : process stem false ConfigFile.byDefault w
    (main double u fuel (.btreeInsert cachesize key value)) f =
      .error .outOfBounds := by
    refine process_faults h fun d machine carries => ?_
    rw [main, btreeInsert]
    refine withIndex_killed carries holds (fun cache caches => ?_) cachesize 0 0
    rw [insert_killed lies root caches keyed value kills.1 (machine ▸ kills.2)]
    rfl
  obtain ⟨f', ran, left⟩ := readers_hold (w := w) h fun d carries =>
    upToRead_ok (u := u) carries lies keyed cachesize
  refine ⟨_, ?_, left⟩
  simp only [step, killed, ran, Except.map]

theorem step_ok (room : Roomy c) (positive : 0 < fuel)
    (op : (Uninitialized × Memory) × IndexTool) (legal : v.Legal op.2) (h : Keeps stem c fuel f v) :
    ∃ f', step double fuel stem f op = .ok ((after double c v op).1, f') ∧
      Keeps stem c fuel f' (after double c v op).2 := by
  obtain ⟨s, holds, stands⟩ := h
  obtain ⟨⟨w, u⟩, tool⟩ := op
  by_cases alive : ∀ x, v.index = some x → ¬ Volume.Kills w.machine c x tool
  · -- What the tool prints does not depend on the disk.
    cases answer : (v.act double c w.machine tool).1 with
    | none =>
        obtain ⟨bitmapfile, datafile, -, carries⟩ := holds.files
        obtain ⟨o, -, -, same, -⟩ := main_ok (u := u) double room positive stands legal alive
          (carries w.machine)
        cases answer.symm.trans same
    | some o =>
        have body (d : DiskSystem) (machine : d.machine = w.machine) (carries : Carries c d s) :
            ∃ d' s', main double u fuel tool d = .ok (o, d') ∧ Carries c d' s' ∧
              Stands c fuel s' (v.act double c w.machine tool).2 := by
          rw [← machine] at alive answer ⊢
          obtain ⟨o', d', s', same, ran, rest⟩ :=
            main_ok (u := u) double room positive stands legal alive carries
          cases answer.symm.trans same
          exact ⟨d', s', ran, rest⟩
        obtain ⟨f', s', ran, holds', stands'⟩ := process_leaves (u := w)
          (fun s' => Stands c fuel s' (v.act double c w.machine tool).2) holds body
        refine ⟨f', ?_, s', holds', stands'⟩
        simp only [step, ran, after, answer]
  · push Not at alive
    obtain ⟨x, found, kills⟩ := alive
    cases tool with
    | btreeInsert cachesize key value =>
        obtain ⟨y, same, keyed⟩ := legal
        obtain rfl : x = y := Option.some.inj (found.symm.trans same)
        obtain ⟨f', ran, left⟩ := step_killed (u := u) double holds (stands.index x found) keyed kills
        refine ⟨f', ?_, s, left, ?_⟩
        · simp only [ran, after, Volume.act, found, if_pos kills]
        · simp only [after, Volume.act, found]
          exact stands
    | _ => exact kills.elim

/-! ## Runs -/

/-- Every tool of the run finds the index that it needs, and keys as long as its own. -/
def LegalRun (double : ℚ → List ByteT) (c : DiskConfig) (v : Volume)
    (ops : List ((Uninitialized × Memory) × IndexTool)) : Prop :=
  Runs.Legal (after double c) (fun v op => v.Legal op.2) v ops

/-- Whatever tools of the index follow one another, with caches of any size and whatever they
find in their memory, they print what one search tree and one set of allocated blocks make
them print, and the next process finds that tree again. -/
theorem index_tools_refine (double : ℚ → List ByteT) (stem : Text) (c : DiskConfig) (room : Roomy c)
    (fuel : Nat) (positive : 0 < fuel) (f : Files) (v : Volume) (h : Keeps stem c fuel f v)
    (ops : List ((Uninitialized × Memory) × IndexTool)) (legal : LegalRun double c v ops) :
    ∃ f', Runs.run (step double fuel stem) f ops = .ok ((Runs.runSpec (after double c) v ops).1, f') ∧
      Keeps stem c fuel f' (Runs.runSpec (after double c) v ops).2 :=
  Runs.run_simulates (fun _ _ op h legal => step_ok room positive op legal h) h legal

/-- Eight blocks of 40 bytes. -/
def smallDisk : DiskConfig := ⟨0, 8, 40, 1, 8, 1, 10, 1, 10⟩

theorem smallDisk_accepted : sanityCheckConfig smallDisk = .noError := by
  norm_num [sanityCheckConfig, smallDisk]

theorem smallDisk_rereadable : ConfigFile.Rereadable "disk".toList smallDisk := by
  have positive := (sanityCheckConfig_ok.mp smallDisk_accepted).1
  refine ⟨by decide, by decide, by decide, ?_, ?_, ?_,
    ConfigFile.fits_of_short ((ConfigFile.short_iff positive.2.2).mpr ?_)⟩
  all_goals norm_num [smallDisk]

theorem smallDisk_roomy : Roomy (ConfigFile.rounded smallDisk) := ⟨by decide, by decide, by decide⟩

def superPage : NodeMetadata := ⟨btreeSuperblock, 1, 1, 40, 1, 0, 0⟩

def onlyPage : NodeMetadata := ⟨btreeLeafNode, 1, 1, 40, 0, 0, 1⟩

/-- A superblock and a leaf that holds `b` for the key `a`. -/
def image : List ByteT :=
  superPage.bytes ++ List.replicate 12 0 ++
    (onlyPage.bytes ++ (wordBytes 0 ++ text "ab" ++ List.replicate 6 0))

def onlyIndex : Index := ⟨1, 1, .leaf 1 0 [(text "a", text "b")]⟩

def written : Store := (Store.act (ConfigFile.rounded smallDisk) zeros (newStore smallDisk none)
    (.writedisk 0 2 image)).2

theorem written_stands : Stands (ConfigFile.rounded smallDisk) 1 written
    ⟨fun i => written.used i, some onlyIndex⟩ := by
  refine ⟨rfl, ?_⟩
  rintro x ⟨⟩
  have super : written.nodeAt (ConfigFile.rounded smallDisk) 0 = .ok ⟨superPage, none⟩ := by decide
  have leaf : written.nodeAt (ConfigFile.rounded smallDisk) 1 =
    .ok ⟨onlyPage, some (wordBytes 0 ++ text "ab" ++ List.replicate 6 0)⟩ := by
    decide
  refine ⟨⟨_, super, rfl, rfl⟩, ⟨_, _, leaf, rfl, rfl, rfl, rfl, rfl, ?_⟩, ?_, ?_⟩
  · exact ⟨_, rfl, rfl, rfl, trivial⟩
  · simp [onlyIndex, Placed.tree, SearchTree.Tree.Ordered]
  · simp [onlyIndex, Placed.tree, SearchTree.Tree.height]

def script : List ((Uninitialized × Memory) × IndexTool) :=
  [.btreeLookup 3 (text "a"), .btreeInsert 1 (text "a") (text "c"), .btreeInsert 0 (text "q") (text "c"),
    .btreeDisplay 2 (text "normal"), .btreeInit 2 1 1, .infodisk, .btreeLookup 3 (text "a")].map
    fun tool => ((zeros, zeroMemory), tool)

/-- A key is looked up, twice another one is inserted in vain, and a new index covers it. -/
theorem index_tools_refine_small : ∃ f f1 f',
    makedisk "disk".toList smallDisk zeros ⟨none, none, none⟩ = .ok (⟨[], .noError, "........".toList⟩, f) ∧
    Tools.step "disk".toList f (zeros, .writedisk 0 2 image) = .ok (⟨[], .noError, []⟩, f1) ∧
    Runs.run (step (fun _ => text "-1") 1 "disk".toList) f1 script =
      .ok ([some ⟨⟨text "Block(length=1, data=0x62, lastaccessed=-1, dirty=0)", .noError, []⟩, .noError⟩,
        some ⟨⟨[], .noError, []⟩, .insane⟩, none,
        some ⟨⟨text "1: Leaf: *0 a b \n", .noError, []⟩, .noError⟩, some ⟨⟨[], .noError, []⟩, .noError⟩,
        some ⟨⟨[], .noError, "**......".toList⟩, .noError⟩,
        some ⟨⟨[], .noError, []⟩, .nonexistent⟩], f') := by
  obtain ⟨f, made, holds⟩ := makedisk_ok (u := zeros) smallDisk_accepted smallDisk_rereadable none
    (DiskSystem.Fits.sound (by decide) smallDisk_accepted)
  obtain ⟨f1, wrote, holds1⟩ := Tools.step_ok (by decide) (zeros, .writedisk 0 2 image)
    (by decide : (0 : SizeT).toNat + (2 : SizeT).toNat < 2 ^ 32) holds
  obtain ⟨f', ran, -⟩ := index_tools_refine (fun _ => text "-1") "disk".toList _ smallDisk_roomy 1 (by decide)
    f1 _ ⟨_, holds1, written_stands⟩ script (by
      simp only [LegalRun, script, List.map, Runs.Legal, Volume.Legal, after, Volume.act]
      exact ⟨⟨_, rfl, rfl⟩, ⟨_, rfl, rfl⟩, ⟨_, rfl, rfl⟩, ⟨_, rfl⟩, trivial, trivial, ⟨_, rfl, rfl⟩, trivial⟩)
  refine ⟨f, f1, f', made.trans ?_, wrote.trans ?_, ran.trans ?_⟩
  · rfl
  · rfl
  · rfl

/-! ## From a new disk on -/

def newVolume : Volume := ⟨fun _ => false, none⟩

theorem makedisk_keeps (stem : Text) (u : Uninitialized) (fuel : Nat)
    (accepted : sanityCheckConfig c = .noError)
    (rereadable : ConfigFile.Rereadable stem c) (fits : (DiskSystem.make u.machine c ByteFile.empty).Fits)
    (datafile : Option ByteFile) :
    ∃ f, makedisk stem c u ⟨none, none, datafile⟩ =
        .ok (⟨[], .noError, printBitmap c.numblocks fun _ => false⟩, f) ∧
      Keeps stem (ConfigFile.rounded c) fuel f newVolume := by
  obtain ⟨f, made, holds⟩ := makedisk_ok (u := u) accepted rereadable datafile
    (DiskSystem.Fits.sound fits accepted : (DiskSystem.make u.machine c (datafile.getD ByteFile.empty)).Sound)
  refine ⟨f, made, _, holds, rfl, ?_⟩
  rintro x ⟨⟩

/-- What the tools print as long as nothing has been stored. -/
def Unfilled (m : Machine) (c : DiskConfig) : IndexTool → Option IndexOutcome → Prop
  | .btreeInsert _ _ _, o => o =
      if (DiskSystem.make m c ByteFile.empty).ReadableBit Volume.farBlock then
        some ⟨⟨[], .noError, []⟩, .noSpace⟩
      else none
  | .btreeLookup _ _, o => o = some ⟨⟨[], .noError, []⟩, .nonexistent⟩
  | .btreeDisplay _ mode, o => o = some ⟨⟨BTreeIndex.framed (displayType mode)
      ((Statement.node 1 false (pointerText 0)).bytes (displayType mode)), .noError, []⟩, .noError⟩
  | _, o => o.isSome

/-- The index, if there is one, is as new. -/
def Bare (v : Volume) : Prop := ∀ x, v.index = some x → x.placed = .empty 1 0

theorem bare_act (double : ℚ → List ByteT) (m : Machine) (c : DiskConfig) {tool : IndexTool} (bare : Bare v)
    (legal : v.Legal tool) :
    Unfilled m c tool (v.act double c m tool).1 ∧ Bare (v.act double c m tool).2 := by
  cases tool with
  | infodisk => exact ⟨rfl, bare⟩
  | btreeInit cachesize keysize valuesize =>
      refine ⟨rfl, fun x found => ?_⟩
      cases found
      rfl
  | btreeInsert cachesize key value =>
      obtain ⟨x, found, -⟩ := legal
      have absent : find key x.placed.tree.entries = none := by
        rw [bare x found]
        rfl
      simp only [Volume.act, found, Volume.Kills, absent, true_and, Index.answer, Option.isSome_none,
        Bool.false_eq_true, if_false, Unfilled, ite_not]
      exact bare
  | btreeLookup cachesize key =>
      obtain ⟨x, found, -⟩ := legal
      have empty := bare x found
      simp only [Volume.act, found, Index.answer, empty]
      exact ⟨rfl, bare⟩
  | btreeDisplay cachesize mode =>
      obtain ⟨x, found⟩ := legal
      have empty := bare x found
      simp only [Volume.act, found, Index.answer, empty, Placed.statements, List.flatMap_singleton]
      exact ⟨rfl, bare⟩
  | btreeUpdate cachesize key value =>
      obtain ⟨x, found⟩ := legal
      simp only [Volume.act, found]
      exact ⟨rfl, bare⟩
  | btreeDelete cachesize key =>
      obtain ⟨x, found⟩ := legal
      simp only [Volume.act, found]
      exact ⟨rfl, bare⟩
  | btreeShow cachesize =>
      obtain ⟨x, found⟩ := legal
      simp only [Volume.act, found]
      exact ⟨rfl, bare⟩
  | btreeSane cachesize =>
      obtain ⟨x, found⟩ := legal
      simp only [Volume.act, found]
      exact ⟨rfl, bare⟩

theorem bare_run (bare : Bare v) {ops : List ((Uninitialized × Memory) × IndexTool)}
    (legal : LegalRun double c v ops) :
    List.Forall₂ (fun op o => Unfilled op.1.1.machine c op.2 o) ops
      (Runs.runSpec (after double c) v ops).1 := by
  induction ops generalizing v with
  | nil => exact .nil
  | cons op ops ih =>
      obtain ⟨first, others⟩ := legal
      obtain ⟨unfilled, bare'⟩ := bare_act double op.1.1.machine c bare first
      exact .cons unfilled (ih bare' others)

/-- No run of the tools stores anything: on a disk that `makedisk` has made every insertion is
killed or refused for lack of space, every lookup finds nothing, and every picture shows an empty
root. -/
theorem nothing_is_stored (double : ℚ → List ByteT) (stem : Text) (c : DiskConfig)
    (accepted : sanityCheckConfig c = .noError) (rereadable : ConfigFile.Rereadable stem c)
    (u : Uninitialized) (fits : (DiskSystem.make u.machine c ByteFile.empty).Fits) (room : Roomy c)
    (fuel : Nat) (positive : 0 < fuel) (datafile : Option ByteFile)
    (ops : List ((Uninitialized × Memory) × IndexTool)) (legal : LegalRun double c newVolume ops) :
    ∃ f outcomes f', makedisk stem c u ⟨none, none, datafile⟩ =
        .ok (⟨[], .noError, printBitmap c.numblocks fun _ => false⟩, f) ∧
      Runs.run (step double fuel stem) f ops = .ok (outcomes, f') ∧
      List.Forall₂ (fun op o => Unfilled op.1.1.machine c op.2 o) ops outcomes := by
  obtain ⟨f, made, keeps⟩ := makedisk_keeps stem u fuel accepted rereadable fits datafile
  have room' : Roomy (ConfigFile.rounded c) := ⟨room.node, room.three, room.codes⟩
  have sim (f : Files) (v : Volume) (op : (Uninitialized × Memory) × IndexTool)
      (h : Keeps stem (ConfigFile.rounded c) fuel f v) (legal : v.Legal op.2) :
      ∃ f', step double fuel stem f op = .ok ((after double c v op).1, f') ∧
        Keeps stem (ConfigFile.rounded c) fuel f' (after double c v op).2 :=
    step_ok (c := ConfigFile.rounded c) room' positive op legal h
  obtain ⟨f', ran, -⟩ := Runs.run_simulates sim keeps legal
  exact ⟨f, _, f', made, ran, bare_run (by rintro x ⟨⟩) legal⟩

theorem nothing_is_stored_small : ∃ f outcomes f',
    makedisk "disk".toList smallDisk zeros ⟨none, none, none⟩ = .ok (⟨[], .noError, "........".toList⟩, f) ∧
    Runs.run (step (fun _ => text "-1") 1 "disk".toList) f
      ([.btreeInit 2 1 1, .btreeInsert 1 (text "a") (text "b"), .btreeLookup 4 (text "a")].map
        fun tool => ((zeros, zeroMemory), tool)) =
      .ok (outcomes, f') ∧
    outcomes[1]? = some none ∧
    outcomes[2]? = some (some ⟨⟨[], .noError, []⟩, .nonexistent⟩) := by
  obtain ⟨f, outcomes, f', made, ran, unfilled⟩ :=
    nothing_is_stored (fun _ => text "-1") "disk".toList smallDisk
    smallDisk_accepted smallDisk_rereadable zeros (by decide) ⟨by decide, by decide, by decide⟩ 1
      (by decide) none
    ([.btreeInit 2 1 1, .btreeInsert 1 (text "a") (text "b"), .btreeLookup 4 (text "a")].map
      fun tool => ((zeros, zeroMemory), tool)) (by
      simp only [LegalRun, List.map, Runs.Legal, Volume.Legal, after, Volume.act]
      exact ⟨trivial, ⟨_, rfl, rfl⟩, ⟨_, rfl, rfl⟩, trivial⟩)
  refine ⟨f, outcomes, f', made.trans rfl, ran, ?_⟩
  cases unfilled with
  | cons first rest =>
      cases rest with
      | cons second rest =>
          cases rest with
          | cons third rest => exact ⟨congrArg some second, congrArg some third⟩

end IndexTools
end BTreeLab
