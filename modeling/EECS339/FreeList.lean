import EECS339.Formatting

/-!
# The free list over whole histories

A session is a mounted index and the blocks its callers hold. Over any history of
allocations, frees, remounts and reformats the blocks that are neither reserved
nor held are exactly the cells of the free list.
-/
namespace BTreeLab
open BTreeNode BufferCache BTreeIndex LinkedChain

structure Session where
  index : BTreeIndex
  held : Finset SizeT

/-- `remount` detaches and attaches the index; `reopen` also detaches the cache and
starts a new one, with a new index, on the same disk. -/
inductive Op where
  | format (u : Memory) (keysize valuesize : SizeT)
  | allocate (u : Memory) (node : BTreeNode)
  | deallocate (u : Memory) (n : SizeT)
  | remount (u : Memory)
  | reopen (u : Memory) (cachesize : SizeT)

namespace Session

/-- The error code and, for an allocation, the block. The caller of `AllocateNode`
writes its node into the block it gets. -/
def step (s : Session) : Op → Except Fault ((ErrorT × SizeT) × Session)
  | .format u keysize valuesize => do
      let (rc, t) ← (BTreeIndex.make u keysize valuesize s.index.buffercache).attach u 0 true
      return ((rc, 0), ⟨t, ∅⟩)
  | .allocate u node => do
      let (rc, n, t) ← s.index.allocateNode u
      if rc ≠ .noError then return ((rc, n), ⟨t, s.held⟩)
      let (_, c) ← node.serialize (u.array n) t.buffercache n
      return ((rc, n), ⟨{ t with buffercache := c }, insert n s.held⟩)
  | .deallocate u n => do
      let (rc, t) ← s.index.deallocateNode u n
      return ((rc, n), ⟨t, s.held.erase n⟩)
  | .remount u => do
      let (_, t) ← s.index.detach u
      let (rc, t) ← t.attach u 0 false
      return ((rc, 0), ⟨t, s.held⟩)
  | .reopen u cachesize => do
      let (_, t) ← s.index.detach u
      let (_, c) ← t.buffercache.detach
      let (rc, t) ← (BTreeIndex.make u 0 0 (BufferCache.make c.disk cachesize)).attach u 0 false
      return ((rc, 0), ⟨t, s.held⟩)

/-- Callers write nodes of a non-free type and free only what they hold. -/
def Legal (s : Session) : Op → Prop
  | .allocate _ node => node.info.nodetype ≠ btreeUnallocatedBlock ∧
      node.WellSized s.index.buffercache.disk.blocksize
  | .deallocate _ n => n ∈ s.held
  | _ => True

/-- Block `n` is free and points to `next`. -/
def FreeLink (c : BufferCache) (n next : SizeT) : Prop :=
  ∃ b, c.nodeAt n = .ok b ∧ b.info.nodetype = btreeUnallocatedBlock ∧ b.info.freelist = next

/-- The list from `superblock.info.freelist`, null-terminated. -/
def FreeList (s : Session) (l : List SizeT) : Prop :=
  Chain (FreeLink s.index.buffercache) 0 s.index.superblock.info.freelist l

theorem FreeList.unique {s : Session} {l l' : List SizeT} (h : s.FreeList l) (h' : s.FreeList l') :
    l = l' := by
  refine Chain.unique ?_ h h'
  rintro n x y ⟨b, hb, -, rfl⟩ ⟨b', hb', -, rfl⟩
  rw [hb] at hb'
  cases hb'
  rfl

structure Inv (cfg : DiskConfig) (s : Session) : Prop where
  mounted : s.index.Mounted
  config : s.index.buffercache.disk.toDiskConfig = cfg
  three : 3 ≤ cfg.numblocks.toNat
  free : ∃ l, s.FreeList l ∧ l.Nodup ∧ ∀ n, n ∈ l ↔ 2 ≤ n ∧ n < cfg.numblocks ∧ n ∉ s.held
  range : ∀ n ∈ s.held, 2 ≤ n ∧ n < cfg.numblocks
  used : ∀ n ∈ s.held, ∃ b, s.index.buffercache.nodeAt n = .ok b ∧
    b.info.nodetype ≠ btreeUnallocatedBlock

variable {cfg : DiskConfig} {s : Session} {u : Memory}

theorem ne_zero_of_two_le {n : SizeT} (h : 2 ≤ n) : n ≠ 0 := by
  rintro rfl
  exact absurd h (by decide)

theorem freeLink_congr {c c' : BufferCache} (same : c'.nodeAt = c.nodeAt) : FreeLink c' = FreeLink c := by
  funext n next
  simp only [FreeLink, same]

/-- The invariant speaks of the nodes, the superblock and the held blocks only. -/
theorem Inv.congr (h : s.Inv cfg) {t : BTreeIndex} (mounted : t.Mounted)
    (config : t.buffercache.disk.toDiskConfig = s.index.buffercache.disk.toDiskConfig)
    (super : t.superblock = s.index.superblock)
    (same : t.buffercache.nodeAt = s.index.buffercache.nodeAt) : (⟨t, s.held⟩ : Session).Inv cfg := by
  refine ⟨mounted, config.trans h.config, h.three, ?_, h.range, ?_⟩
  · simp only [FreeList, freeLink_congr same, super]
    exact h.free
  · simp only [same]
    exact h.used

/-! ## Formatting -/

theorem ascending_chain (link : SizeT → SizeT → Prop) (numblocks : SizeT) (count : Nat) (i : SizeT)
    (two : 2 ≤ i) (last : i.toNat + count = numblocks.toNat)
    (links : ∀ n, i ≤ n → n < numblocks → link n (if n + 1 = numblocks then 0 else n + 1)) :
    ∃ l, Chain link 0 (if i = numblocks then 0 else i) l ∧ l.Nodup ∧
      ∀ n, n ∈ l ↔ i ≤ n ∧ n < numblocks := by
  induction count generalizing i with
  | zero =>
      have eq : i = numblocks := BitVec.eq_of_toNat_eq last
      refine ⟨[], if_pos eq, List.nodup_nil, fun n => ?_⟩
      simp only [List.not_mem_nil, false_iff, not_and, not_lt]
      exact fun le => eq ▸ le
  | succ count ih =>
      have bound := numblocks.isLt
      have next : (i + 1).toNat = i.toNat + 1 := succ_toNat (n := count) (by omega)
      have inside : i < numblocks := BitVec.lt_def.mpr (by omega)
      have below (n : SizeT) : i + 1 ≤ n ↔ i < n := by
        rw [BitVec.le_def, BitVec.lt_def, next]
        exact Nat.succ_le_iff
      obtain ⟨l, chain, nodup, mem⟩ := ih (i + 1) (two.trans ((below (i + 1)).mp le_rfl).le) (by omega)
        (fun n le lt => links n ((below n).mp le).le lt)
      refine ⟨i :: l, ?_, List.nodup_cons.mpr ⟨?_, nodup⟩, fun n => ?_⟩
      · rw [if_neg (ne_of_lt inside)]
        exact chain.push (ne_zero_of_two_le two) (links i le_rfl inside)
      · rw [mem, below]
        exact fun member => lt_irrefl i member.1
      · rw [List.mem_cons, mem, below]
        constructor
        · rintro (rfl | ⟨lt, hi⟩)
          · exact ⟨le_rfl, inside⟩
          · exact ⟨lt.le, hi⟩
        · rintro ⟨le, hi⟩
          rcases le.eq_or_lt with eq | lt
          · exact Or.inl eq.symm
          · exact Or.inr ⟨lt, hi⟩

/-- A new index on any cache: nothing is held and every other block is free. -/
theorem attach_inv (u : Memory) (cfg : DiskConfig) (t : BTreeIndex) (h : t.buffercache.Valid)
    (config : t.buffercache.disk.toDiskConfig = cfg) (room : 28 ≤ cfg.blocksize.toNat)
    (three : 3 ≤ cfg.numblocks.toNat) :
    ∃ t', t.attach u 0 true = .ok (.noError, t') ∧ (⟨t', ∅⟩ : Session).Inv cfg ∧
      t'.buffercache.disk.bitmap =
        PackedBits.setBit (PackedBits.setBit t.buffercache.disk.bitmap 0) 1 := by
  subst config
  obtain ⟨c', hattach, mounted, cfg, -, made⟩ := attach_create_ok (u := u) h room three
  refine ⟨_, hattach, ⟨mounted, cfg, three, ?_, by simp, by simp⟩, made.bits⟩
  obtain ⟨l, chain, nodup, mem⟩ := ascending_chain (FreeLink c')
    t.buffercache.disk.numblocks (t.buffercache.disk.numblocks.toNat - 2) 2 le_rfl (by simp; omega)
    (fun n le lt => ⟨_, made.free n le (by rw [cfg]; exact lt), rfl, by
      simp only [newfreenode, getNumBlocks, cfg]⟩)
  rw [if_neg (by
    intro two
    rw [← two] at three
    exact absurd three (by decide))] at chain
  exact ⟨l, chain, nodup, by simpa using mem⟩

theorem format_ok (h : s.Inv cfg) (keysize valuesize : SizeT) :
    ∃ s', s.step (.format u keysize valuesize) = .ok ((.noError, 0), s') ∧ s'.Inv cfg ∧ s'.held = ∅ ∧
      s'.index.buffercache.disk.bitmap =
        PackedBits.setBit (PackedBits.setBit s.index.buffercache.disk.bitmap 0) 1 := by
  obtain ⟨t', hattach, inv, bits⟩ := attach_inv u cfg
    (BTreeIndex.make u keysize valuesize s.index.buffercache) h.mounted.valid h.config
    (by rw [← h.config]; exact h.mounted.room) h.three
  refine ⟨⟨t', ∅⟩, ?_, inv, rfl, bits⟩
  simp only [step, hattach, Runs.ok_bind, Runs.pure_eq_ok]

/-! ## Allocating and freeing -/

/-- Either nothing is left, and nothing happens, or a block that nobody holds is
handed out. -/
theorem allocate_cases (h : s.Inv cfg) {l : List SizeT} (free : s.FreeList l) :
    (l = [] ∧ s.index.allocateNode u = .ok (.noSpace, 0, s.index)) ∨
    ∃ n rest b, l = n :: rest ∧ s.index.superblock.info.freelist = n ∧
      s.index.buffercache.nodeAt n = .ok b ∧ b.info.nodetype = btreeUnallocatedBlock ∧
      Chain (FreeLink s.index.buffercache) 0 b.info.freelist rest ∧
      ∃ c', s.index.allocateNode u =
          .ok (.noError, n, ⟨c', 0, s.index.superblock.withFreelist b.info.freelist⟩) ∧
        (⟨c', 0, s.index.superblock.withFreelist b.info.freelist⟩ : BTreeIndex).Mounted ∧
        c'.disk.toDiskConfig = cfg ∧
        c'.nodeAt = Function.update s.index.buffercache.nodeAt 0
          (.ok (s.index.superblock.withFreelist b.info.freelist)) ∧
        c'.disk.bitmap = PackedBits.setBit s.index.buffercache.disk.bitmap n.toNat := by
  by_cases empty : s.index.superblock.info.freelist = 0
  · exact Or.inl ⟨free.empty_iff.mpr empty, allocateNode_empty empty⟩
  · right
    obtain ⟨next, rest, eq, ⟨b, hb, kind, rfl⟩, tail⟩ := free.pop empty
    obtain ⟨c', halloc, mounted, config, nodes, bits⟩ :=
      allocateNode_ok (u := u) h.mounted empty hb kind
    exact ⟨_, rest, b, eq, rfl, hb, kind, tail, c', halloc, mounted, config.trans h.config, nodes, bits⟩

/-- Writing two blocks that are not on a chain of free blocks leaves the chain alone. -/
theorem chain_frame {c c' : BufferCache} {head x y : SizeT} {l : List SizeT}
    {v w : Except Fault BTreeNode} (chain : Chain (FreeLink c) 0 head l)
    (nodes : c'.nodeAt = Function.update (Function.update c.nodeAt x v) y w) (hx : x ∉ l)
    (hy : y ∉ l) : Chain (FreeLink c') 0 head l := by
  refine chain.congr ?_
  intro z hz next link
  have nex : z ≠ x := fun e => hx (e ▸ hz)
  have ney : z ≠ y := fun e => hy (e ▸ hz)
  simp only [FreeLink, nodes, Function.update_of_ne ney, Function.update_of_ne nex]
  exact link

section Held

variable {numblocks n : SizeT} {l : List SizeT} {held : Finset SizeT}

theorem mem_after_pop (fresh : n ∉ l)
    (mem : ∀ m, m ∈ n :: l ↔ 2 ≤ m ∧ m < numblocks ∧ m ∉ held) (m : SizeT) :
    m ∈ l ↔ 2 ≤ m ∧ m < numblocks ∧ m ∉ insert n held := by
  have whole := mem m
  rw [List.mem_cons] at whole
  rw [Finset.mem_insert, not_or]
  constructor
  · intro hm
    obtain ⟨lo, hi, unheld⟩ := whole.mp (Or.inr hm)
    exact ⟨lo, hi, fun e => fresh (e ▸ hm), unheld⟩
  · rintro ⟨lo, hi, ne, unheld⟩
    exact (whole.mpr ⟨lo, hi, unheld⟩).resolve_left ne

theorem mem_after_push (lo : 2 ≤ n) (hi : n < numblocks)
    (mem : ∀ m, m ∈ l ↔ 2 ≤ m ∧ m < numblocks ∧ m ∉ held) (m : SizeT) :
    m ∈ n :: l ↔ 2 ≤ m ∧ m < numblocks ∧ m ∉ held.erase n := by
  rw [List.mem_cons, mem, Finset.mem_erase, not_and_or, not_not]
  constructor
  · rintro (rfl | ⟨lo', hi', unheld⟩)
    · exact ⟨lo, hi, Or.inl rfl⟩
    · exact ⟨lo', hi', Or.inr unheld⟩
  · rintro ⟨lo', hi', rfl | unheld⟩
    · exact Or.inl rfl
    · exact Or.inr ⟨lo', hi', unheld⟩

end Held

theorem allocate_ok (h : s.Inv cfg) {node : BTreeNode} (legal : s.Legal (.allocate u node)) :
    ∃ rc n s', s.step (.allocate u node) = .ok ((rc, n), s') ∧ s'.Inv cfg ∧
      ((rc = .noSpace ∧ s' = s ∧ ∀ m, 2 ≤ m → m < cfg.numblocks → m ∈ s.held) ∨
        (rc = .noError ∧ 2 ≤ n ∧ n < cfg.numblocks ∧ n ∉ s.held ∧ s'.held = insert n s.held ∧
          s'.index.buffercache.disk.bitmap =
            PackedBits.setBit s.index.buffercache.disk.bitmap n.toNat)) := by
  obtain ⟨l, free, nodup, mem⟩ := h.free
  rcases allocate_cases (u := u) h free with ⟨rfl, hfull⟩ |
    ⟨n, rest, b, rfl, -, -, -, tail, c1, halloc, mounted, config, nodes, bits⟩
  · refine ⟨.noSpace, 0, s, ?_, h, Or.inl ⟨rfl, rfl, fun m lo hi => ?_⟩⟩
    swap
    · by_contra unheld
      exact List.not_mem_nil ((mem m).mpr ⟨lo, hi, unheld⟩)
    simp only [step, hfull, Runs.ok_bind, ne_eq, reduceCtorEq, not_false_eq_true, if_true,
      Runs.pure_eq_ok]
  · obtain ⟨lo, hi, unheld⟩ := (mem n).mp List.mem_cons_self
    obtain ⟨fresh, -⟩ := List.nodup_cons.mp nodup
    obtain ⟨c2, hwrite, h2, k2, put2⟩ := serialize_ok mounted.valid mounted.room (u.array n) (n := n)
      (by rw [config]; exact hi) (b := node) (by rw [config, ← h.config]; exact legal.2)
    have nodes2 : c2.nodeAt = Function.update (Function.update s.index.buffercache.nodeAt 0
        (.ok (s.index.superblock.withFreelist b.info.freelist))) n (.ok node.stored) := by
      rw [put2, nodes]
    have zero : (0 : SizeT) ≠ n := (ne_zero_of_two_le lo).symm
    refine ⟨.noError, n, ⟨⟨c2, 0, s.index.superblock.withFreelist b.info.freelist⟩, insert n s.held⟩,
      ?_, ⟨⟨h2, by rw [k2.config]; exact mounted.room, rfl, ?_, mounted.kind⟩, k2.config.trans config,
        h.three, ⟨rest, ?_, (List.nodup_cons.mp nodup).2, mem_after_pop fresh mem⟩, ?_, ?_⟩,
      Or.inr ⟨rfl, lo, hi, unheld, rfl, k2.bitmap.trans bits⟩⟩
    · simp only [step, halloc, Runs.ok_bind, ne_eq, not_true, if_false, hwrite, Runs.pure_eq_ok]
    · rw [nodes2, Function.update_of_ne zero, Function.update_self]
    · -- the cells left are neither the superblock nor the block handed out
      exact chain_frame tail nodes2 (fun m => tail.ne_nil 0 m rfl) fresh
    · intro m hm
      rcases Finset.mem_insert.mp hm with rfl | hm
      · exact ⟨lo, hi⟩
      · exact h.range m hm
    · intro m hm
      by_cases same : m = n
      · subst same
        exact ⟨node.stored, by rw [nodes2, Function.update_self], by simpa using legal.1⟩
      · have older : m ∈ s.held := (Finset.mem_insert.mp hm).resolve_left same
        obtain ⟨b', hb', kind'⟩ := h.used m older
        refine ⟨b', ?_, kind'⟩
        rw [nodes2, Function.update_of_ne same,
          Function.update_of_ne (ne_zero_of_two_le (h.range m older).1), hb']

theorem deallocate_ok (h : s.Inv cfg) {n : SizeT} (held : n ∈ s.held) :
    ∃ t, s.index.deallocateNode u n = .ok (.noError, t) ∧ (⟨t, s.held.erase n⟩ : Session).Inv cfg ∧
      t.buffercache.disk.bitmap = PackedBits.clearBit s.index.buffercache.disk.bitmap n.toNat := by
  obtain ⟨lo, hi⟩ := h.range n held
  obtain ⟨b, hb, kind⟩ := h.used n held
  obtain ⟨l, free, nodup, mem⟩ := h.free
  obtain ⟨c', hfree, mounted, config, nodes, bits⟩ := deallocateNode_ok (u := u) h.mounted hb kind
  have pos := ne_zero_of_two_le lo
  have fresh : n ∉ l := fun m => ((mem n).mp m).2.2 held
  have old : Chain (FreeLink c') 0 s.index.superblock.info.freelist l :=
    chain_frame free nodes fresh fun m => Chain.ne_nil free 0 m rfl
  have new : FreeLink c' n s.index.superblock.info.freelist :=
    ⟨freed b s.index.superblock.info.freelist,
      by rw [nodes, Function.update_of_ne pos, Function.update_self], rfl, rfl⟩
  refine ⟨_, hfree, ⟨mounted, config.trans h.config, h.three,
    ⟨n :: l, old.push pos new, ?_, mem_after_push lo hi mem⟩, ?_, ?_⟩, bits⟩
  · exact List.nodup_cons.mpr ⟨fresh, nodup⟩
  · exact fun m hm => h.range m (Finset.mem_of_mem_erase hm)
  · intro m hm
    obtain ⟨ne, hm⟩ := Finset.mem_erase.mp hm
    obtain ⟨b', hb', kind'⟩ := h.used m hm
    refine ⟨b', ?_, kind'⟩
    rw [nodes, Function.update_of_ne (ne_zero_of_two_le (h.range m hm).1), Function.update_of_ne ne, hb']

/-! ## Remounting -/

theorem remount_ok (h : s.Inv cfg) :
    ∃ s', s.step (.remount u) = .ok ((.noError, 0), s') ∧ s'.Inv cfg ∧ s'.held = s.held ∧
      s'.index.buffercache.disk.bitmap = s.index.buffercache.disk.bitmap := by
  obtain ⟨c1, hdetach, mounted1, k1, same1⟩ := detach_ok (u := u) h.mounted
  obtain ⟨c2, hattach, mounted2, k2, same2⟩ := attach_ok (u := u) (t := ⟨c1, 0, s.index.superblock⟩)
    h.mounted mounted1.valid k1 same1
  refine ⟨⟨⟨c2, 0, s.index.superblock⟩, s.held⟩, ?_, h.congr mounted2 k2.config rfl same2, rfl, k2.bitmap⟩
  simp only [step, hdetach, Runs.ok_bind, hattach, Runs.pure_eq_ok]

theorem reopen_ok (h : s.Inv cfg) (cachesize : SizeT) :
    ∃ s', s.step (.reopen u cachesize) = .ok ((.noError, 0), s') ∧ s'.Inv cfg ∧ s'.held = s.held ∧
      s'.index.buffercache.disk.bitmap = s.index.buffercache.disk.bitmap := by
  obtain ⟨c1, hdetach, mounted1, k1, same1⟩ := BTreeIndex.detach_ok (u := u) h.mounted
  obtain ⟨c2, hclose, h2, k2, -, all⟩ := BufferCache.detach_ok mounted1.valid
  obtain ⟨h3, same3⟩ := valid_make h2.sound cachesize
  have keeps : c1.Keeps (BufferCache.make c2.disk cachesize) := ⟨k2.config, k2.machine, k2.bitmap⟩
  have nodes := nodeAt_congr keeps (same3.trans all)
  obtain ⟨c4, hattach, mounted4, k4, same4⟩ := attach_ok (u := u)
    (t := BTreeIndex.make u 0 0 (BufferCache.make c2.disk cachesize)) h.mounted h3
    (k1.trans keeps) (nodes.trans same1)
  refine ⟨⟨⟨c4, 0, s.index.superblock⟩, s.held⟩, ?_, h.congr mounted4 k4.config rfl same4, rfl, k4.bitmap⟩
  simp only [step, hdetach, Runs.ok_bind, hclose, hattach, Runs.pure_eq_ok]

/-- A legal step never fails and keeps the invariant. -/
theorem step_ok (h : s.Inv cfg) {op : Op} (legal : s.Legal op) :
    ∃ r s', s.step op = .ok (r, s') ∧ s'.Inv cfg := by
  cases op with
  | format u keysize valuesize =>
      obtain ⟨s', hstep, inv, -⟩ := format_ok (u := u) h keysize valuesize
      exact ⟨_, s', hstep, inv⟩
  | allocate u node =>
      obtain ⟨rc, n, s', hstep, inv, -⟩ := allocate_ok h legal
      exact ⟨_, s', hstep, inv⟩
  | deallocate u n =>
      obtain ⟨t, hfree, inv, -⟩ := deallocate_ok (u := u) h legal
      exact ⟨_, _, by simp only [step, hfree, Runs.ok_bind, Runs.pure_eq_ok]; rfl, inv⟩
  | remount u =>
      obtain ⟨s', hstep, inv, -⟩ := remount_ok (u := u) h
      exact ⟨_, s', hstep, inv⟩
  | reopen u cachesize =>
      obtain ⟨s', hstep, inv, -⟩ := reopen_ok (u := u) h cachesize
      exact ⟨_, s', hstep, inv⟩

theorem step_inv {s' : Session} {op : Op} {r : ErrorT × SizeT} (h : s.Inv cfg) (legal : s.Legal op)
    (hstep : s.step op = .ok (r, s')) : s'.Inv cfg := by
  obtain ⟨r', s1, hstep', inv⟩ := step_ok h legal
  rw [hstep] at hstep'
  cases hstep'
  exact inv

/-! ## The law -/

/-- The free list of a disk with `numblocks` blocks: finite, null-terminated, through
exactly the blocks that are neither reserved nor held, each once and of the free type.
Allocation hands out one of them, or says that all blocks are held; no assertion fails. -/
structure FreeListLaw (numblocks : SizeT) (s : Session) : Prop where
  list : ∃ l, s.FreeList l ∧ l.Nodup ∧ ∀ n, n ∈ l ↔ 2 ≤ n ∧ n < numblocks ∧ n ∉ s.held
  allocate : ∀ u, ∃ rc n t, s.index.allocateNode u = .ok (rc, n, t) ∧
    ((rc = .noSpace ∧ ∀ m, 2 ≤ m → m < numblocks → m ∈ s.held) ∨
      (rc = .noError ∧ n ≠ 0 ∧ n ≠ 1 ∧ n < numblocks ∧ n ∉ s.held))
  deallocate : ∀ u, ∀ n ∈ s.held, ∃ t, s.index.deallocateNode u n = .ok (.noError, t)

theorem Inv.law (h : s.Inv cfg) : s.FreeListLaw cfg.numblocks := by
  refine ⟨h.free, fun u => ?_, fun u n held => ?_⟩
  · obtain ⟨l, free, nodup, mem⟩ := h.free
    rcases allocate_cases (u := u) h free with ⟨rfl, hfull⟩ | ⟨n, rest, b, rfl, -, -, -, -, c', halloc, -⟩
    · refine ⟨_, _, _, hfull, Or.inl ⟨rfl, fun m lo hi => ?_⟩⟩
      by_contra unheld
      exact List.not_mem_nil ((mem m).mpr ⟨lo, hi, unheld⟩)
    · obtain ⟨lo, hi, unheld⟩ := (mem n).mp List.mem_cons_self
      refine ⟨_, _, _, halloc, Or.inr ⟨rfl, ne_zero_of_two_le lo, ?_, hi, unheld⟩⟩
      rintro rfl
      exact absurd lo (by decide)
  · obtain ⟨t, hfree, -⟩ := deallocate_ok (u := u) h held
    exact ⟨t, hfree⟩

/-- On every disk, after formatting, every history of legal steps keeps the law. -/
theorem freeList_law (d : DiskSystem) (geometry : sanityCheckConfig d.toDiskConfig = .noError)
    (fits : d.Fits) (three : 3 ≤ d.numblocks.toNat) (room : 32 ≤ d.blocksize.toNat)
    (cachesize keysize valuesize : SizeT) (u : Memory) :
    ∃ t, (BTreeIndex.make u keysize valuesize (BufferCache.make d cachesize)).attach u 0 true =
        .ok (.noError, t) ∧
      ∀ ops, Runs.Along step Legal ⟨t, ∅⟩ ops →
        Runs.Visits step (FreeListLaw d.numblocks) ⟨t, ∅⟩ ops := by
  obtain ⟨valid, -⟩ := valid_make (fits.sound geometry) cachesize
  obtain ⟨t, hattach, inv, -⟩ := attach_inv u d.toDiskConfig
    (BTreeIndex.make u keysize valuesize (BufferCache.make d cachesize)) valid rfl
    (le_trans (by decide) room) three
  refine ⟨t, hattach, fun ops legal => ?_⟩
  exact Runs.visits_of_invariant (I := Inv d.toDiskConfig) (fun _ _ _ _ h ok hstep => step_inv h ok hstep)
    (fun _ h => h.law) inv legal

theorem freeList_law_small :
    ∃ t, Runs.Visits step (FreeListLaw 64) ⟨t, ∅⟩
      [.allocate zeroMemory (BTreeNode.make btreeLeafNode 1 1 1024), .reopen zeroMemory 0] := by
  obtain ⟨t, hattach, law⟩ := freeList_law (DiskSystem.make .small DiskSystem.smallConfig ByteFile.empty)
    DiskSystem.smallConfig_accepted (by decide) (by decide) (by decide) 1 1 1 zeroMemory
  obtain ⟨t', hattach', inv, -⟩ := attach_inv zeroMemory DiskSystem.smallConfig
    (BTreeIndex.make zeroMemory 1 1
      (BufferCache.make (DiskSystem.make .small DiskSystem.smallConfig ByteFile.empty) 1))
    (valid_make DiskSystem.smallConfig_sound 1).1 rfl
    (by decide) (by decide)
  rw [hattach] at hattach'
  cases hattach'
  refine ⟨t, law _ ⟨⟨by decide, ?_⟩, fun _ _ _ => ⟨trivial, fun _ _ _ => trivial⟩⟩⟩
  rw [inv.config]
  exact wellSized_make btreeLeafNode 1 1 1024

end Session
end BTreeLab
