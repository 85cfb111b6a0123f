import EECS339.Lookup

/-!
# The sorted display of a well-formed tree

The traversal visits the leaves from left to right, so on the pages of an ordered
tree the lines it writes are the pairs that `Lookup` finds, in the order of keys.
-/
namespace BTreeLab
open Words SearchTree BTreeNode

/-- `(key,value)` and a line break. -/
def line (e : List ByteT × List ByteT) : List ByteT :=
  text "(" ++ e.1 ++ text "," ++ e.2 ++ text ")\n"

/-- One line for each pair. -/
def listing (es : List (List ByteT × List ByteT)) : List ByteT := (es.map line).flatten

theorem listing_append (l r : List (List ByteT × List ByteT)) :
    listing (l ++ r) = listing l ++ listing r := by
  rw [listing, List.map_append, List.flatten_append]
  rfl

theorem getPtr_leaf {b : BTreeNode} {ptr : SizeT} {bs : List ByteT}
    (leaf : b.info.nodetype = btreeLeafNode) (data : b.data = some (wordBytes ptr ++ bs)) :
    b.getPtr 0 = .ok (.ok ptr) := by
  have hit : bytesAt (wordBytes ptr ++ bs) 0 4 = some (wordBytes ptr) := bytesAt_zero (wordBytes ptr) bs
  simp only [getPtr, resolvePtr, if_neg (Interior.not_leaf leaf), if_pos leaf, if_true, Runs.ok_bind,
    fetch_ok data hit, wordOfBytes_wordBytes, inBounds, Runs.pure_eq_ok]

/-- The pointer of a leaf stands in front of its pairs. -/
theorem PairsAt.getPtr_zero {b : BTreeNode} {es : List (List ByteT × List ByteT)}
    (h : PairsAt b 0 es) : ∃ ptr, b.getPtr 0 = .ok (.ok ptr) := by
  obtain ⟨ptr, front, bs, data, -⟩ := h.pairs
  exact ⟨ptr, getPtr_leaf h.leaf data⟩

namespace BTreeIndex

variable {keysize valuesize : SizeT} {b : BTreeNode}

/-! ## One node -/

theorem printPairs_ok (es : List (List ByteT × List ByteT)) (offset : SizeT)
    (pairs : PairsAt b offset es) :
    printPairs b .sortedKeyval offset es.length = .ok (.noError, listing es) := by
  induction es generalizing offset with
  | nil => rfl
  | cons e rest ih =>
      obtain ⟨k, v⟩ := e
      obtain ⟨-, hkey, hval, others⟩ := pairs.cons
      have hrest := ih (offset + 1) others
      rw [List.length_cons]
      by_cases first : offset = 0
      · subst first
        obtain ⟨ptr, hptr⟩ := pairs.getPtr_zero
        simp only [printPairs, if_true, hptr, Runs.ok_bind, ne_eq, not_true, if_false, hkey, hval,
          hrest, Runs.pure_eq_ok]
        rfl
      · simp only [printPairs, if_neg first, if_true, Runs.ok_bind, ne_eq, not_true, if_false,
          hkey, hval, hrest, Runs.pure_eq_ok]
        rfl

theorem printNode_interior (n : SizeT) (interior : b.info.Interior) :
    printNode n b .sortedKeyval = .ok (.noError, []) := by
  simp only [printNode, if_pos interior, if_true, Runs.ok_bind, ne_eq, not_true, if_false,
    reduceCtorEq, Runs.pure_eq_ok]

theorem printNode_leaf (n : SizeT) {es : List (List ByteT × List ByteT)}
    (count : b.info.numkeys.toNat = es.length) (pairs : PairsAt b 0 es) :
    printNode n b .sortedKeyval = .ok (.noError, listing es) := by
  simp only [printNode, if_neg (Interior.not_leaf pairs.leaf), if_pos pairs.leaf, count,
    printPairs_ok es 0 pairs, Runs.ok_bind, ne_eq, not_true, if_false, reduceCtorEq, Runs.pure_eq_ok]
  rfl

/-! ## The traversal

The recursion of `displayPtrs` sits behind the display of the first subtree. -/

theorem displayPtrs_zero
    (display : BufferCache → SizeT → Except Fault (ErrorT × List ByteT × BufferCache))
    (dt : BTreeDisplayType) (node : SizeT) (b : BTreeNode) (c : BufferCache) (offset : SizeT) :
    displayPtrs display dt node b c offset 0 = (do
      match ← b.getPtr offset with
      | .error rc => return (rc, [], c)
      | .ok ptr =>
          let o := if dt = .depthDot then text s!"{node.toNat} -> {ptr.toNat};\n" else []
          let (rc, o', c) ← display c ptr
          if rc ≠ .noError then return (rc, o ++ o', c)
          return (.noError, o ++ o', c)) := by
  delta displayPtrs
  rfl

theorem displayPtrs_succ
    (display : BufferCache → SizeT → Except Fault (ErrorT × List ByteT × BufferCache))
    (dt : BTreeDisplayType) (node : SizeT) (b : BTreeNode) (c : BufferCache) (offset : SizeT)
    (count : Nat) :
    displayPtrs display dt node b c offset (count + 1) = (do
      match ← b.getPtr offset with
      | .error rc => return (rc, [], c)
      | .ok ptr =>
          let o := if dt = .depthDot then text s!"{node.toNat} -> {ptr.toNat};\n" else []
          let (rc, o', c) ← display c ptr
          if rc ≠ .noError then return (rc, o ++ o', c)
          let (rc, o'', c) ← displayPtrs display dt node b c (offset + 1) count
          return (rc, o ++ o' ++ o'', c)) := by
  delta displayPtrs
  rfl

/-- What showing one subtree does: its lines are written and no block changes. -/
def Shows (u : Memory) (fuel : Nat) (c : BufferCache) (n : SizeT) (tree : PageTree) : Prop :=
  ∃ c', displayInternal u .sortedKeyval fuel c n = .ok (.noError, listing tree.entries, c') ∧
    c'.Valid ∧ c.Keeps c' ∧ c'.logical = c.logical

/-- The loop shows the subtrees in order, the one behind the last key included. -/
theorem displayPtrs_ok (u : Memory) (fuel : Nat) (n : SizeT)
    (shows : ∀ (tree : PageTree) (c : BufferCache) (m : SizeT), tree.height < fuel → c.Valid →
      Encodes b.info.keysize valuesize c.nodeAt tree m → Shows u fuel c m tree)
    (f : PageForest) (deep : f.height < fuel) {c : BufferCache} (h : c.Valid) (offset : SizeT)
    (pages : ForestAt valuesize c.nodeAt b offset f) :
    ∃ c', displayPtrs (displayInternal u .sortedKeyval fuel) .sortedKeyval n b c offset
        f.separators.length = .ok (.noError, listing f.entries, c') ∧
      c'.Valid ∧ c.Keeps c' ∧ c'.logical = c.logical := by
  match f with
  | .last t =>
      rw [Forest.height] at deep
      obtain ⟨-, ptr, hptr, page⟩ := pages.last
      obtain ⟨c1, hshow, h1, k1, same1⟩ := shows t c ptr deep h page
      refine ⟨c1, ?_, h1, k1, same1⟩
      rw [Forest.separators, List.length_nil, displayPtrs_zero, Forest.entries]
      simp only [hptr, Runs.ok_bind, hshow, ne_eq, not_true, if_false, reduceCtorEq, List.nil_append,
        Runs.pure_eq_ok]
  | .cons t sep rest =>
      rw [Forest.height, max_lt_iff] at deep
      obtain ⟨-, -, -, ⟨ptr, hptr, page⟩, others⟩ := pages.cons
      obtain ⟨c1, hshow, h1, k1, same1⟩ := shows t c ptr deep.1 h page
      obtain ⟨c2, hrest, h2, k2, same2⟩ := displayPtrs_ok u fuel n shows rest deep.2 h1 (offset + 1)
        (others.congr (BufferCache.nodeAt_congr k1 same1))
      refine ⟨c2, ?_, h2, k1.trans k2, same2.trans same1⟩
      rw [Forest.separators, List.length_cons, displayPtrs_succ, Forest.entries, listing_append]
      simp only [hptr, Runs.ok_bind, hshow, ne_eq, not_true, if_false, reduceCtorEq, List.nil_append,
        Runs.pure_eq_ok, hrest]

/-- With fuel for the height of the tree the traversal writes a line for each entry,
in the order of the tree. -/
theorem displayInternal_ok (u : Memory) (fuel : Nat) (tree : PageTree) (c : BufferCache) (n : SizeT)
    (deep : tree.height < fuel) (h : c.Valid) (pages : Encodes keysize valuesize c.nodeAt tree n) :
    Shows u fuel c n tree := by
  induction fuel generalizing tree c n with
  | zero => cases deep
  | succ fuel ih =>
      match tree with
      | .empty =>
          rw [Encodes] at pages
          obtain ⟨b, holds, interior, zero⟩ := pages
          obtain ⟨c1, hread, h1, k1, same1⟩ := c.unserialize_ok h (BTreeNode.default u.info) holds
          refine ⟨c1, ?_, h1, k1, same1⟩
          have none : ¬ b.info.numkeys > 0 := by
            rw [zero]
            exact lt_irrefl _
          simp only [displayInternal, hread, Runs.ok_bind, ne_eq, not_true, if_false, reduceCtorEq,
            printNode_interior n interior, if_true, if_pos interior, if_neg none, Runs.pure_eq_ok]
          rfl
      | .leaf es =>
          obtain ⟨b, holds, -, count, pairs⟩ := encodes_leaf pages
          obtain ⟨c1, hread, h1, k1, same1⟩ := c.unserialize_ok h (BTreeNode.default u.info) holds
          refine ⟨c1, ?_, h1, k1, same1⟩
          simp only [displayInternal, hread, Runs.ok_bind, ne_eq, not_true, if_false, reduceCtorEq,
            printNode_leaf n count pairs, if_true, if_neg (Interior.not_leaf pairs.leaf),
            if_pos pairs.leaf, Runs.pure_eq_ok]
          rfl
      | .node t sep rest =>
          rw [Tree.height_node] at deep
          obtain ⟨b, holds, rfl, nonempty, keys, forest⟩ := encodes_node pages
          obtain ⟨c1, hread, h1, k1, same1⟩ := c.unserialize_ok h (BTreeNode.default u.info) holds
          obtain ⟨c2, hptrs, h2, k2, same2⟩ := displayPtrs_ok u fuel n
            (fun tree c m deep h pages => ih tree c m deep h pages) (.cons t sep rest) (by omega) h1 0
            (forest.congr (BufferCache.nodeAt_congr k1 same1))
          refine ⟨c2, ?_, h2, k1.trans k2, same2.trans same1⟩
          simp only [displayInternal, hread, Runs.ok_bind, ne_eq, not_true, if_false, reduceCtorEq,
            printNode_interior n forest.interior, if_true, if_pos forest.interior, if_pos nonempty, keys,
            hptrs, Runs.pure_eq_ok, List.nil_append]
          rw [Tree.entries, Forest.entries]

/-- The sorted display of an ordered tree ends with success and writes one line for
each pair and nothing else, in increasing order of keys; a line says what `Lookup`
says about its key. -/
theorem display_sorted_correct (u : Memory) (t : BTreeIndex) (h : t.buffercache.Valid)
    (keysize valuesize : SizeT) (tree : PageTree) (ordered : tree.Ordered)
    (pages : Encodes keysize valuesize t.buffercache.nodeAt tree t.superblock.info.rootnode)
    (fuel : Nat) (deep : tree.height < fuel) :
    ∃ shown t', t.display u fuel .sortedKeyval = .ok (.noError, listing shown, t') ∧
      t'.superblock = t.superblock ∧ t'.buffercache.logical = t.buffercache.logical ∧
      shown.Perm tree.entries ∧ shown.Pairwise (fun a b => a.1 < b.1) ∧
      ∀ key : KeyT, key.length = keysize.toNat → ∀ v,
        (key.data, v) ∈ shown ↔
          ∃ t'', t.lookup u fuel key = .ok (.noError, some (Block.ofBytes v), t'') := by
  obtain ⟨c', hshow, -, -, same⟩ := displayInternal_ok u fuel tree t.buffercache _ deep h pages
  refine ⟨tree.entries, { t with buffercache := c' }, ?_, rfl, same, List.Perm.refl _,
    Tree.entries_increasing ordered, ?_⟩
  · simp only [display, hshow, Runs.ok_bind, reduceCtorEq, if_false, Runs.pure_eq_ok]
  · intro key keyed v
    obtain ⟨c2, hlookup, -⟩ := lookupInternal_ok u keyed deep h pages
    rw [← tree.search_eq_some ordered]
    simp only [lookup, hlookup, Runs.ok_bind, Runs.pure_eq_ok]
    constructor
    · intro found
      rw [found]
      exact ⟨_, rfl⟩
    · rintro ⟨t'', answer⟩
      cases hsearch : tree.search key.data with
      | none => simp [hsearch, reply] at answer
      | some w =>
          simp only [hsearch, reply, Except.ok.injEq, Prod.mk.injEq, Option.some.injEq] at answer
          rw [← Block.ofBytes_data w, answer.2.1, Block.ofBytes_data]

/-- Two leaves, one line each. -/
theorem display_sorted_correct_small : ∃ t t' : BTreeIndex,
    t.display zeroMemory 2 .sortedKeyval =
      .ok (.noError, text "(" ++ [1] ++ text "," ++ [10] ++ text ")\n" ++
        (text "(" ++ [2] ++ text "," ++ [20] ++ text ")\n"), t') := by
  obtain ⟨t, h, -, pages⟩ := smallTree_pages
  obtain ⟨shown, t', hshow, -, -, all, increasing, -⟩ := display_sorted_correct zeroMemory t h 1 1
    smallTree smallTree_ordered pages 2 (by simp [smallTree, SearchTree.Tree.height, Forest.height])
  have entries : shown = [([1], [10]), ([2], [20])] := by
    refine List.Perm.eq_of_pairwise (fun a b _ _ lt gt => absurd (lt.trans gt) (lt_irrefl _))
      increasing (Tree.entries_increasing smallTree_ordered) ?_
    simpa [smallTree, Tree.entries, Forest.entries] using all
  refine ⟨t, t', hshow.trans ?_⟩
  rw [entries]
  rfl

end BTreeIndex
end BTreeLab
