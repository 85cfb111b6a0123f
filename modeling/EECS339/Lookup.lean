import EECS339.Lib.SearchTree
import EECS339.NodeStore

/-!
# Lookup in a well-formed tree

The pages of a tree are its nodes laid out in blocks. On such pages the key scans
find the subtree, and in the end the pair, that a search tree prescribes.
-/
namespace BTreeLab
open Words SearchTree BTreeNode

/-- Keys and values are byte strings, keys in the order of `memcmp`. -/
abbrev PageTree := Tree (List ByteT) (List ByteT)
abbrev PageForest := Forest (List ByteT) (List ByteT)

/-- `KEY VALUE KEY VALUE …`. -/
def PairsLayout (keysize valuesize : SizeT) : List (List ByteT × List ByteT) → List ByteT → Prop
  | [], _ => True
  | (k, v) :: rest, bs =>
      ∃ tail, bs = k ++ (v ++ tail) ∧ k.length = keysize.toNat ∧ v.length = valuesize.toNat ∧
        PairsLayout keysize valuesize rest tail

mutual

/-- Block `n` holds the root of the tree, and its pointers lead to the subtrees. -/
def Encodes (keysize valuesize : SizeT) (node : SizeT → Except Fault BTreeNode) :
    PageTree → SizeT → Prop
  | .empty, n => ∃ b, node n = .ok b ∧ b.info.Interior ∧ b.info.numkeys = 0
  | .leaf es, n => ∃ b ptr bs, node n = .ok b ∧ b.info.nodetype = btreeLeafNode ∧
      b.info.keysize = keysize ∧ b.info.valuesize = valuesize ∧ b.info.numkeys.toNat = es.length ∧
      b.data = some (wordBytes ptr ++ bs) ∧ PairsLayout keysize valuesize es bs
  | .node t sep rest, n => ∃ b ptr bs, node n = .ok b ∧ b.info.Interior ∧
      b.info.keysize = keysize ∧ b.info.numkeys.toNat = rest.separators.length + 1 ∧
      b.data = some (wordBytes ptr ++ (sep ++ bs)) ∧ sep.length = keysize.toNat ∧
      Encodes keysize valuesize node t ptr ∧ EncodesForest keysize valuesize node rest bs

/-- `PTR KEY PTR KEY … PTR` and what is left of the block. -/
def EncodesForest (keysize valuesize : SizeT) (node : SizeT → Except Fault BTreeNode) :
    PageForest → List ByteT → Prop
  | .last t, bs => ∃ ptr tail, bs = wordBytes ptr ++ tail ∧ Encodes keysize valuesize node t ptr
  | .cons t sep rest, bs => ∃ ptr tail, bs = wordBytes ptr ++ (sep ++ tail) ∧
      sep.length = keysize.toNat ∧ Encodes keysize valuesize node t ptr ∧
      EncodesForest keysize valuesize node rest tail

end

section Fields

variable {b : BTreeNode} {offset ptr : SizeT} {d front sep bs k v : List ByteT}

theorem fetch_ok {p len : Nat} (data : b.data = some d) (hit : bytesAt d p len = some bs) :
    b.fetch (b.pointer p) len = .ok (.ok bs) := by
  simp only [pointer, data, reduceCtorEq, false_and, if_false, fetch, hit, inBounds, Except.map]

theorem getPtr_interior (interior : b.info.Interior) (le : offset ≤ b.info.numkeys)
    (data : b.data = some (front ++ (wordBytes ptr ++ bs)))
    (pos : front.length = offset.toNat * (4 + b.info.keysize.toNat))
    (small : (front ++ (wordBytes ptr ++ bs)).length < 2 ^ 32) :
    b.getPtr offset = .ok (.ok ptr) := by
  have hit : bytesAt (front ++ (wordBytes ptr ++ bs)) front.length 4 = some (wordBytes ptr) :=
    bytesAt_mid front (wordBytes ptr) bs
  have noWrap : (offset.toNat * (4 + b.info.keysize.toNat)) % 2 ^ 64 = front.length := by
    rw [List.length_append] at small
    rw [← pos, Nat.mod_eq_of_lt (by omega)]
  simp only [getPtr, resolvePtr, if_pos interior, if_pos le, noWrap, Runs.ok_bind,
    fetch_ok data hit, wordOfBytes_wordBytes, inBounds, Runs.pure_eq_ok]

theorem getKey_interior (interior : b.info.Interior) (lt : offset < b.info.numkeys)
    (data : b.data = some (front ++ (wordBytes ptr ++ (sep ++ bs))))
    (pos : front.length = offset.toNat * (4 + b.info.keysize.toNat))
    (size : sep.length = b.info.keysize.toNat)
    (small : (front ++ (wordBytes ptr ++ (sep ++ bs))).length < 2 ^ 32) :
    b.getKey offset = .ok (.ok (Block.ofBytes sep)) := by
  have hit := bytesAt_mid (front ++ wordBytes ptr) sep bs
  rw [List.append_assoc, List.length_append, wordBytes_length, size] at hit
  have noWrap : (4 + offset.toNat * (4 + b.info.keysize.toNat)) % 2 ^ 64 = front.length + 4 := by
    simp only [List.length_append, wordBytes_length] at small
    rw [← pos, Nat.mod_eq_of_lt (by omega), Nat.add_comm]
  simp only [getKey, resolveKey, if_pos interior, if_pos lt, noWrap, Runs.ok_bind,
    fetch_ok data hit, Except.map, Runs.pure_eq_ok]

theorem Interior.not_leaf {m : NodeMetadata} (leaf : m.nodetype = btreeLeafNode) : ¬ m.Interior := by
  rw [NodeMetadata.Interior, leaf]
  decide

/-- A pair that lies in the block ends below 2^32, so its position does not wrap. -/
theorem leaf_position {keysize valuesize : SizeT} (fits : front.length + (k.length + v.length) < 2 ^ 32)
    (pos : front.length = offset.toNat * (keysize.toNat + valuesize.toNat))
    (sizes : k.length = keysize.toNat ∧ v.length = valuesize.toNat) :
    (offset * (keysize + valuesize)).toNat = front.length := by
  have sum : (keysize + valuesize).toNat = keysize.toNat + valuesize.toNat := by
    rw [BitVec.toNat_add, Nat.mod_eq_of_lt (by omega)]
  rw [BitVec.toNat_mul, sum, ← pos, Nat.mod_eq_of_lt (by omega)]

theorem getKey_leaf (leaf : b.info.nodetype = btreeLeafNode) (lt : offset < b.info.numkeys)
    (data : b.data = some (wordBytes ptr ++ (front ++ (k ++ (v ++ bs)))))
    (pos : front.length = offset.toNat * (b.info.keysize.toNat + b.info.valuesize.toNat))
    (sizes : k.length = b.info.keysize.toNat ∧ v.length = b.info.valuesize.toNat)
    (small : (wordBytes ptr ++ (front ++ (k ++ (v ++ bs)))).length < 2 ^ 32) :
    b.getKey offset = .ok (.ok (Block.ofBytes k)) := by
  have hit := bytesAt_mid (wordBytes ptr ++ front) k (v ++ bs)
  rw [List.append_assoc, List.length_append, wordBytes_length, sizes.1] at hit
  simp only [List.length_append, wordBytes_length] at small
  simp only [getKey, resolveKey, if_neg (Interior.not_leaf leaf), if_pos leaf, if_pos lt,
    leaf_position (by omega) pos sizes, Runs.ok_bind, fetch_ok data hit, Except.map, Runs.pure_eq_ok]

theorem getVal_leaf (leaf : b.info.nodetype = btreeLeafNode) (lt : offset < b.info.numkeys)
    (data : b.data = some (wordBytes ptr ++ (front ++ (k ++ (v ++ bs)))))
    (pos : front.length = offset.toNat * (b.info.keysize.toNat + b.info.valuesize.toNat))
    (sizes : k.length = b.info.keysize.toNat ∧ v.length = b.info.valuesize.toNat)
    (small : (wordBytes ptr ++ (front ++ (k ++ (v ++ bs)))).length < 2 ^ 32) :
    b.getVal offset = .ok (.ok (Block.ofBytes v)) := by
  have hit := bytesAt_mid (wordBytes ptr ++ (front ++ k)) v bs
  rw [List.append_assoc, List.append_assoc, List.length_append, wordBytes_length,
    List.length_append, sizes.1, sizes.2] at hit
  rw [← Nat.add_assoc] at hit
  simp only [List.length_append, wordBytes_length] at small
  simp only [getVal, resolveVal, if_pos leaf, if_pos lt, leaf_position (by omega) pos sizes,
    Runs.ok_bind, fetch_ok data hit, Except.map, Runs.pure_eq_ok]

end Fields

/-! ## The fields one after the other -/

section Layout

variable {keysize valuesize offset : SizeT} {node : SizeT → Except Fault BTreeNode} {b : BTreeNode}
  {n : SizeT} {t : PageTree} {sep k v : List ByteT} {rest : PageForest}
  {es : List (List ByteT × List ByteT)}

/-- The subtrees hang off the pointers of an interior node from `offset` on. -/
structure ForestAt (valuesize : SizeT) (node : SizeT → Except Fault BTreeNode) (b : BTreeNode)
    (offset : SizeT) (f : PageForest) : Prop where
  interior : b.info.Interior
  left : offset.toNat + f.separators.length = b.info.numkeys.toNat
  pages : ∃ front bs, b.data = some (front ++ bs) ∧ (front ++ bs).length < 2 ^ 32 ∧
    front.length = offset.toNat * (4 + b.info.keysize.toNat) ∧
    EncodesForest b.info.keysize valuesize node f bs

theorem ForestAt.congr {node' : SizeT → Except Fault BTreeNode} {f : PageForest} (same : node' = node)
    (h : ForestAt valuesize node b offset f) : ForestAt valuesize node' b offset f := same ▸ h

theorem ForestAt.last (h : ForestAt valuesize node b offset (.last t)) :
    offset = b.info.numkeys ∧
      ∃ ptr, b.getPtr offset = .ok (.ok ptr) ∧ Encodes b.info.keysize valuesize node t ptr := by
  obtain ⟨front, bs, data, small, pos, pages⟩ := h.pages
  rw [EncodesForest] at pages
  obtain ⟨ptr, tail, rfl, page⟩ := pages
  have last : offset = b.info.numkeys := BitVec.eq_of_toNat_eq h.left
  exact ⟨last, ptr, getPtr_interior h.interior (le_of_eq last) data pos small, page⟩

/-- The first subtree, the separator behind it, and the others. -/
theorem ForestAt.cons (h : ForestAt valuesize node b offset (.cons t sep rest)) :
    offset < b.info.numkeys ∧ sep.length = b.info.keysize.toNat ∧
      b.getKey offset = .ok (.ok (Block.ofBytes sep)) ∧
      (∃ ptr, b.getPtr offset = .ok (.ok ptr) ∧ Encodes b.info.keysize valuesize node t ptr) ∧
      ForestAt valuesize node b (offset + 1) rest := by
  obtain ⟨front, bs, data, small, pos, pages⟩ := h.pages
  rw [EncodesForest] at pages
  obtain ⟨ptr, tail, rfl, sized, page, pages⟩ := pages
  have left := h.left
  rw [Forest.separators, List.length_cons] at left
  have bound := b.info.numkeys.isLt
  have lt : offset < b.info.numkeys := BitVec.lt_def.mpr (by omega)
  have next : (offset + 1).toNat = offset.toNat + 1 :=
    succ_toNat (n := rest.separators.length) (by omega)
  refine ⟨lt, sized, getKey_interior h.interior lt data pos sized small,
    ⟨ptr, getPtr_interior h.interior lt.le data pos small, page⟩, h.interior, by omega,
    front ++ (wordBytes ptr ++ sep), tail, ?_, ?_, ?_, pages⟩
  · rw [data]
    simp only [List.append_assoc]
  · simpa only [List.append_assoc] using small
  · rw [List.length_append, List.length_append, wordBytes_length, sized, pos, next]
    ring

/-- The pairs stand one after the other in a leaf from `offset` on. -/
structure PairsAt (b : BTreeNode) (offset : SizeT) (es : List (List ByteT × List ByteT)) : Prop where
  leaf : b.info.nodetype = btreeLeafNode
  left : offset.toNat + es.length = b.info.numkeys.toNat
  pairs : ∃ ptr front bs, b.data = some (wordBytes ptr ++ (front ++ bs)) ∧
    (wordBytes ptr ++ (front ++ bs)).length < 2 ^ 32 ∧
    front.length = offset.toNat * (b.info.keysize.toNat + b.info.valuesize.toNat) ∧
    PairsLayout b.info.keysize b.info.valuesize es bs

/-- The first pair and the others. -/
theorem PairsAt.cons (h : PairsAt b offset ((k, v) :: es)) :
    k.length = b.info.keysize.toNat ∧ b.getKey offset = .ok (.ok (Block.ofBytes k)) ∧
      b.getVal offset = .ok (.ok (Block.ofBytes v)) ∧ PairsAt b (offset + 1) es := by
  obtain ⟨ptr, front, bs, data, small, pos, tail, rfl, sizeK, sizeV, pairs⟩ := h.pairs
  have left := h.left
  rw [List.length_cons] at left
  have bound := b.info.numkeys.isLt
  have lt : offset < b.info.numkeys := BitVec.lt_def.mpr (by omega)
  have next : (offset + 1).toNat = offset.toNat + 1 := succ_toNat (n := es.length) (by omega)
  refine ⟨sizeK, getKey_leaf h.leaf lt data pos ⟨sizeK, sizeV⟩ small,
    getVal_leaf h.leaf lt data pos ⟨sizeK, sizeV⟩ small, h.leaf, by omega,
    ptr, front ++ (k ++ v), tail, ?_, ?_, ?_, pairs⟩
  · rw [data]
    simp only [List.append_assoc]
  · simpa only [List.append_assoc] using small
  · rw [List.length_append, List.length_append, sizeK, sizeV, pos, next]
    ring

theorem data_length {c : BufferCache} {d : List ByteT} (holds : c.nodeAt n = .ok b)
    (data : b.data = some d) : d.length < 2 ^ 32 := by
  rw [ofBytes_data_length holds data]
  exact BitVec.isLt _

/-- A block that holds a leaf of a tree. -/
theorem encodes_leaf {c : BufferCache} (pages : Encodes keysize valuesize c.nodeAt (.leaf es) n) :
    ∃ b, c.nodeAt n = .ok b ∧ b.info.keysize = keysize ∧ b.info.numkeys.toNat = es.length ∧
      PairsAt b 0 es := by
  rw [Encodes] at pages
  obtain ⟨b, ptr, bs, holds, leaf, rfl, rfl, count, data, pairs⟩ := pages
  refine ⟨b, holds, rfl, count, leaf, ?_, ptr, [], bs, data, data_length holds data, ?_, pairs⟩
  · rw [count]
    exact Nat.zero_add _
  · exact (Nat.zero_mul _).symm

/-- A block that holds an inner node of a tree. -/
theorem encodes_node {c : BufferCache} (pages : Encodes keysize valuesize c.nodeAt (.node t sep rest) n) :
    ∃ b, c.nodeAt n = .ok b ∧ b.info.keysize = keysize ∧ b.info.numkeys > 0 ∧
      b.info.numkeys.toNat = (Forest.cons t sep rest).separators.length ∧
      ForestAt valuesize c.nodeAt b 0 (.cons t sep rest) := by
  rw [Encodes] at pages
  obtain ⟨b, ptr, bs, holds, interior, rfl, count, data, sized, first, others⟩ := pages
  have keys : b.info.numkeys.toNat = (Forest.cons t sep rest).separators.length := by
    rw [count, Forest.separators, List.length_cons]
  refine ⟨b, holds, rfl, ?_, keys, interior, ?_, [], _, data, data_length holds data, ?_, ?_⟩
  · rw [gt_iff_lt, BitVec.lt_def, count]
    exact Nat.succ_pos _
  · rw [keys]
    exact Nat.zero_add _
  · exact (Nat.zero_mul _).symm
  · rw [EncodesForest]
    exact ⟨ptr, bs, rfl, sized, first, others⟩

end Layout

/-! ## The key scans -/

namespace BTreeIndex

variable {keysize valuesize : SizeT} {node : SizeT → Except Fault BTreeNode} {b : BTreeNode}
  {key : KeyT}

/-- The scan of an interior node ends at the pointer of the subtree to search. -/
theorem scanPtrs_ok (keyed : key.length = b.info.keysize.toNat) (nonempty : b.info.numkeys > 0)
    (f : PageForest) (offset : SizeT) (pages : ForestAt valuesize node b offset f) :
    ∃ ptr, scanPtrs b key offset f.separators.length = .ok (.ok ptr) ∧
      Encodes b.info.keysize valuesize node (f.child key.data) ptr := by
  match f with
  | .last t =>
      obtain ⟨last, ptr, hptr, page⟩ := pages.last
      refine ⟨ptr, ?_, by rwa [Forest.child]⟩
      rw [Forest.separators, List.length_nil, scanPtrs, if_pos nonempty, ← last]
      exact hptr
  | .cons t sep rest =>
      obtain ⟨-, sized, hkey, ⟨ptr, hptr, page⟩, pages⟩ := pages.cons
      rw [Forest.separators, List.length_cons]
      have same : key.length = (Block.ofBytes sep).length := keyed.trans sized.symm
      have hlt : key.lt (Block.ofBytes sep) = .ok (decide (key.data < sep)) :=
        Block.lt_of_same_length same
      have heq : key.eq (Block.ofBytes sep) = .ok (decide (key.data = sep)) :=
        Block.eq_of_same_length same
      simp only [scanPtrs, hkey, Runs.ok_bind, hlt, heq, decide_eq_true_eq]
      rw [Forest.child]
      by_cases less : key.data < sep
      · exact ⟨ptr, by rw [if_pos less, hptr], by rwa [if_pos less.le]⟩
      · by_cases equal : key.data = sep
        · exact ⟨ptr, by rw [if_neg less, if_pos equal, hptr], by rwa [if_pos equal.le]⟩
        · have greater : ¬ key.data ≤ sep := fun le => (le.lt_or_eq).elim less equal
          rw [if_neg less, if_neg equal, if_neg greater]
          exact scanPtrs_ok keyed nonempty rest (offset + 1) pages

/-- The scan of a leaf finds the value next to the first equal key. -/
theorem scanLeaf_ok (keyed : key.length = b.info.keysize.toNat)
    (es : List (List ByteT × List ByteT)) (offset : SizeT) (pairs : PairsAt b offset es) :
    scanLeaf b .lookup key offset es.length = .ok (match find key.data es with
      | none => .error .nonexistent
      | some v => .ok (Block.ofBytes v)) := by
  induction es generalizing offset with
  | nil => rfl
  | cons e rest ih =>
      obtain ⟨k, v⟩ := e
      obtain ⟨sizeK, hkey, hval, pairs⟩ := pairs.cons
      have same : (Block.ofBytes k).length = key.length := sizeK.trans keyed.symm
      have heq : (Block.ofBytes k).eq key = .ok (decide (k = key.data)) :=
        Block.eq_of_same_length same
      rw [List.length_cons]
      simp only [scanLeaf, hkey, Runs.ok_bind, heq, decide_eq_true_eq, if_true]
      by_cases equal : k = key.data
      · rw [if_pos equal, hval]
        simp only [find, List.find?_cons, equal, decide_true, Option.map_some]
      · have skip : find key.data ((k, v) :: rest) = find key.data rest := by
          simp only [find, List.find?_cons, equal, decide_false]
        rw [if_neg equal, skip]
        exact ih (offset + 1) pairs

/-! ## The descent -/

/-- The code and the value that stand for the result of a search. -/
def reply : Option (List ByteT) → ErrorT × Option ValueT
  | none => (.nonexistent, none)
  | some v => (.noError, some (Block.ofBytes v))

theorem lookupInternal_empty (u : Memory) (op : BTreeOp) (key : KeyT) (fuel : Nat) {c : BufferCache}
    (h : c.Valid) {n : SizeT} (holds : c.nodeAt n = .ok b) (interior : b.info.Interior)
    (zero : b.info.numkeys = 0) :
    ∃ c', lookupOrUpdateInternal u op key (fuel + 1) c n = .ok (.nonexistent, none, c') ∧
      c'.Valid ∧ c.Keeps c' ∧ c'.logical = c.logical := by
  obtain ⟨c1, hread, h1, k1, same1⟩ := c.unserialize_ok h (BTreeNode.default u.info) holds
  refine ⟨c1, ?_, h1, k1, same1⟩
  have count : b.info.numkeys.toNat = 0 := by rw [zero]; rfl
  have none : ¬ b.info.numkeys > 0 := by rw [zero]; exact lt_irrefl _
  simp only [lookupOrUpdateInternal, hread, Runs.ok_bind, ne_eq, not_true, if_false,
    if_pos interior, count, scanPtrs, if_neg none, Runs.pure_eq_ok]

/-- With fuel for the height of the tree the descent returns what the search tree
holds and changes no block. -/
theorem lookupInternal_ok (u : Memory) (keyed : key.length = keysize.toNat) {fuel : Nat}
    {tree : PageTree} (deep : tree.height < fuel) {c : BufferCache} (h : c.Valid) {n : SizeT}
    (pages : Encodes keysize valuesize c.nodeAt tree n) :
    ∃ c', lookupOrUpdateInternal u .lookup key fuel c n =
        .ok ((reply (tree.search key.data)).1, (reply (tree.search key.data)).2, c') ∧
      c'.Valid ∧ c.Keeps c' ∧ c'.logical = c.logical := by
  induction fuel generalizing tree c n with
  | zero => cases deep
  | succ fuel ih =>
      match tree with
      | .empty =>
          rw [Encodes] at pages
          obtain ⟨b, holds, interior, zero⟩ := pages
          rw [Tree.search]
          exact lookupInternal_empty u .lookup key fuel h holds interior zero
      | .leaf es =>
          obtain ⟨b, holds, rfl, count, pairs⟩ := encodes_leaf pages
          obtain ⟨c1, hread, h1, k1, same1⟩ := c.unserialize_ok h (BTreeNode.default u.info) holds
          refine ⟨c1, ?_, h1, k1, same1⟩
          simp only [lookupOrUpdateInternal, hread, Runs.ok_bind, ne_eq, not_true, if_false,
            if_neg (Interior.not_leaf pairs.leaf), if_pos pairs.leaf, count, scanLeaf_ok keyed es 0 pairs]
          rw [Tree.search]
          cases find key.data es <;> rfl
      | .node t sep rest =>
          rw [Tree.height_node] at deep
          obtain ⟨b, holds, rfl, nonempty, keys, forest⟩ := encodes_node pages
          obtain ⟨c1, hread, h1, k1, same1⟩ := c.unserialize_ok h (BTreeNode.default u.info) holds
          obtain ⟨child, hscan, page⟩ := scanPtrs_ok keyed nonempty (.cons t sep rest) 0 forest
          rw [← BufferCache.nodeAt_congr k1 same1] at page
          have height := Forest.height_child key.data (Forest.cons t sep rest)
          obtain ⟨c2, hrec, h2, k2, same2⟩ := ih (by omega) h1 page
          refine ⟨c2, ?_, h2, k1.trans k2, same2.trans same1⟩
          simp only [lookupOrUpdateInternal, hread, Runs.ok_bind, ne_eq, not_true, if_false,
            if_pos forest.interior, keys, hscan, hrec]
          rw [Tree.search_node, Forest.search_child]

/-- On the pages of any ordered tree `Lookup` returns the value next to the key, or
says that there is none, and leaves the contents of every block alone. -/
theorem lookup_correct (u : Memory) (t : BTreeIndex) (h : t.buffercache.Valid)
    (keysize valuesize : SizeT) (tree : PageTree) (ordered : tree.Ordered)
    (pages : Encodes keysize valuesize t.buffercache.nodeAt tree t.superblock.info.rootnode)
    (key : KeyT) (keyed : key.length = keysize.toNat) (fuel : Nat) (deep : tree.height < fuel) :
    ∃ rc value t', t.lookup u fuel key = .ok (rc, value, t') ∧
      t'.superblock = t.superblock ∧ t'.buffercache.logical = t.buffercache.logical ∧
      (∀ v, (key.data, v) ∈ tree.entries → rc = .noError ∧ value = some (Block.ofBytes v)) ∧
      ((∀ e ∈ tree.entries, e.1 ≠ key.data) → rc = .nonexistent ∧ value = none) := by
  obtain ⟨c', hlookup, -, -, same⟩ := lookupInternal_ok u keyed deep h pages
  refine ⟨(reply (tree.search key.data)).1, (reply (tree.search key.data)).2,
    { t with buffercache := c' }, ?_, rfl, same, ?_, ?_⟩
  · simp only [lookup, hlookup, Runs.ok_bind, Runs.pure_eq_ok]
  · intro v member
    rw [(tree.search_eq_some ordered).mpr member]
    exact ⟨rfl, rfl⟩
  · intro absent
    rw [(tree.search_eq_none ordered).mpr absent]
    exact ⟨rfl, rfl⟩

def leafPage (k v : ByteT) : BTreeNode :=
  ⟨⟨btreeLeafNode, 1, 1, 1024, 0, 0, 1⟩,
    some (wordBytes 0 ++ ([k] ++ ([v] ++ List.replicate 990 0)))⟩

def rootPage : BTreeNode :=
  ⟨⟨btreeRootNode, 1, 1, 1024, 0, 0, 1⟩,
    some (wordBytes 2 ++ ([1] ++ (wordBytes 3 ++ List.replicate 987 0)))⟩

theorem leafPage_wellSized (k v : ByteT) : (leafPage k v).WellSized 1024 := by
  refine ⟨rfl, fun _ => ⟨_, rfl, ?_⟩⟩
  simp only [List.length_append, wordBytes_length, List.length_singleton, List.length_replicate]
  change 996 = ((1024 : SizeT) - 28).toNat
  decide

theorem rootPage_wellSized : rootPage.WellSized 1024 := by
  refine ⟨rfl, fun _ => ⟨_, rfl, ?_⟩⟩
  simp only [List.length_append, wordBytes_length, List.length_singleton, List.length_replicate]
  change 996 = ((1024 : SizeT) - 28).toNat
  decide

def smallTree : PageTree := .node (.leaf [([1], [10])]) [1] (.last (.leaf [([2], [20])]))

theorem smallTree_ordered : smallTree.Ordered := by
  simp only [smallTree, Tree.Ordered, Forest.Ordered, Tree.entries]
  decide

/-- Such a root and its leaves, on any disk with room for them. -/
theorem leaves_written {d : DiskSystem} (sound : d.Sound) (size : d.blocksize = 1024)
    (four : 4 ≤ d.numblocks.toNat) (cachesize : SizeT) (v : ByteT) : ∃ t : BTreeIndex, t.buffercache.Valid ∧
    t.buffercache.disk.toDiskConfig = d.toDiskConfig ∧ t.superblock.info.rootnode = 1 ∧
    t.buffercache.nodeAt 1 = .ok rootPage ∧ t.buffercache.nodeAt 2 = .ok (leafPage 1 v) ∧
    t.buffercache.nodeAt 3 = .ok (leafPage 2 20) := by
  have exist (n : SizeT) (small : n.toNat < 4) : n < d.numblocks := BitVec.lt_def.mpr (by omega)
  have room : 28 ≤ d.blocksize.toNat := by
    rw [size]
    decide
  obtain ⟨h0, -⟩ := BufferCache.valid_make sound cachesize
  obtain ⟨c1, -, h1, k1, put1⟩ := BufferCache.serialize_ok h0 room (fun _ => 0) (n := 1)
    (exist 1 (by decide)) (b := rootPage) (size ▸ rootPage_wellSized)
  have config1 : c1.disk.toDiskConfig = d.toDiskConfig := k1.config
  obtain ⟨c2, -, h2, k2, put2⟩ := BufferCache.serialize_ok h1 (by rw [config1]; exact room)
    (fun _ => 0) (n := 2) (by rw [config1]; exact exist 2 (by decide)) (b := leafPage 1 v)
    (by rw [config1, size]; exact leafPage_wellSized 1 v)
  have config2 := k2.config.trans config1
  obtain ⟨c3, -, h3, k3, put3⟩ := BufferCache.serialize_ok h2 (by rw [config2]; exact room)
    (fun _ => 0) (n := 3) (by rw [config2]; exact exist 3 (by decide)) (b := leafPage 2 20)
    (by rw [config2, size]; exact leafPage_wellSized 2 20)
  refine ⟨⟨c3, 0, ⟨⟨btreeSuperblock, 1, 1, 1024, 1, 0, 0⟩, none⟩⟩, h3, k3.config.trans config2, rfl,
    ?_, ?_, ?_⟩
  · rw [put3, put2, put1]
    rfl
  · rw [put3, put2]
    rfl
  · rw [put3]
    rfl

theorem smallTree_pages : ∃ t : BTreeIndex, t.buffercache.Valid ∧
    t.buffercache.nodeAt 1 = .ok rootPage ∧
    Encodes 1 1 t.buffercache.nodeAt smallTree t.superblock.info.rootnode := by
  obtain ⟨t, h, -, first, root, left, right⟩ :=
    leaves_written DiskSystem.smallConfig_sound rfl (by decide) 2 10
  refine ⟨t, h, root, ?_⟩
  rw [first]
  simp only [smallTree, Encodes, EncodesForest]
  exact ⟨rootPage, 2, _, root, Or.inr rfl, rfl, rfl, rfl, rfl,
    ⟨leafPage 1 10, 0, _, left, rfl, rfl, rfl, rfl, rfl, _, rfl, rfl, rfl, trivial⟩,
    3, _, rfl, leafPage 2 20, 0, _, right, rfl, rfl, rfl, rfl, rfl, _, rfl, rfl, rfl, trivial⟩

/-- A key equal to the separator is found left of it. -/
theorem lookup_correct_small : ∃ t : BTreeIndex, t.buffercache.nodeAt 1 = .ok rootPage ∧
    ∃ t', t.lookup zeroMemory 2 (Block.ofBytes [1]) =
      .ok (.noError, some (Block.ofBytes [10]), t') := by
  obtain ⟨t, h, root, pages⟩ := smallTree_pages
  obtain ⟨rc, value, t', hlookup, -, -, found, -⟩ := lookup_correct zeroMemory t h 1 1 smallTree
    smallTree_ordered pages (Block.ofBytes [1]) rfl 2
    (by simp [smallTree, SearchTree.Tree.height, Forest.height])
  obtain ⟨rfl, rfl⟩ := found [10] (by simp [smallTree, Tree.entries, Forest.entries])
  exact ⟨t, root, t', hlookup⟩

end BTreeIndex
end BTreeLab
