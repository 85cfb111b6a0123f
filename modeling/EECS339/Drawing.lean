import EECS339.Display

/-!
# The picture of a tree

In the two depth modes the traversal writes a statement for each node in front of what
is below it; for `dot` it also writes one for each pointer it follows. Which statements
these are does not depend on the mode.
-/
namespace BTreeLab
open Words SearchTree BTreeNode

mutual

/-- A tree with the blocks its nodes lie in. An empty root and a leaf have a pointer that
leads nowhere. -/
inductive Placed where
  | empty (block ptr : SizeT)
  | leaf (block ptr : SizeT) (entries : List (List ByteT × List ByteT))
  | node (block : SizeT) (first : Placed) (sep : List ByteT) (rest : PlacedForest)

inductive PlacedForest where
  | last (t : Placed)
  | cons (t : Placed) (sep : List ByteT) (rest : PlacedForest)

end

def Placed.block : Placed → SizeT
  | .empty n _ => n
  | .leaf n _ _ => n
  | .node n _ _ _ => n

mutual

def Placed.tree : Placed → PageTree
  | .empty _ _ => .empty
  | .leaf _ _ es => .leaf es
  | .node _ t sep rest => .node t.tree sep rest.forest

def PlacedForest.forest : PlacedForest → PageForest
  | .last t => .last t.tree
  | .cons t sep rest => .cons t.tree sep rest.forest

end

mutual

/-- The blocks in the order in which the traversal comes to them. -/
def Placed.blocks : Placed → List SizeT
  | .empty n _ => [n]
  | .leaf n _ _ => [n]
  | .node n t _ rest => n :: (t.blocks ++ rest.blocks)

def PlacedForest.blocks : PlacedForest → List SizeT
  | .last t => t.blocks
  | .cons t _ rest => t.blocks ++ rest.blocks

end

mutual

/-- Every node of the tree lies in its block. -/
def Placed.Sits (keysize valuesize : SizeT) (node : SizeT → Except Fault BTreeNode) : Placed → Prop
  | .empty n ptr => ∃ b bs, node n = .ok b ∧ b.info.Interior ∧ b.info.numkeys = 0 ∧
      b.data = some (wordBytes ptr ++ bs)
  | .leaf n ptr es => ∃ b bs, node n = .ok b ∧ b.info.nodetype = btreeLeafNode ∧
      b.info.keysize = keysize ∧ b.info.valuesize = valuesize ∧ b.info.numkeys.toNat = es.length ∧
      b.data = some (wordBytes ptr ++ bs) ∧ PairsLayout keysize valuesize es bs
  | .node n t sep rest => ∃ b bs, node n = .ok b ∧ b.info.Interior ∧
      b.info.keysize = keysize ∧ b.info.numkeys.toNat = rest.forest.separators.length + 1 ∧
      b.data = some (wordBytes t.block ++ (sep ++ bs)) ∧ sep.length = keysize.toNat ∧
      t.Sits keysize valuesize node ∧ rest.Sits keysize valuesize node bs

def PlacedForest.Sits (keysize valuesize : SizeT) (node : SizeT → Except Fault BTreeNode) :
    PlacedForest → List ByteT → Prop
  | .last t, bs => ∃ tail, bs = wordBytes t.block ++ tail ∧ t.Sits keysize valuesize node
  | .cons t sep rest, bs => ∃ tail, bs = wordBytes t.block ++ (sep ++ tail) ∧
      sep.length = keysize.toNat ∧ t.Sits keysize valuesize node ∧ rest.Sits keysize valuesize node tail

end

/-! ## The statements -/

inductive Statement where
  | node (block : SizeT) (leaf : Bool) (label : List ByteT)
  | edge (parent child : SizeT)

namespace Statement

def node? : Statement → Option SizeT
  | .node n _ _ => some n
  | .edge _ _ => none

def edge? : Statement → Option (SizeT × SizeT)
  | .node _ _ _ => none
  | .edge n m => some (n, m)

section Parts

variable (n m : SizeT) (leaf : Bool) (label : List ByteT) (rest : List Statement)

@[simp] theorem filterMap_node?_node :
    (node n leaf label :: rest).filterMap node? = n :: rest.filterMap node? := rfl

@[simp] theorem filterMap_node?_edge : (edge n m :: rest).filterMap node? = rest.filterMap node? := rfl

@[simp] theorem filterMap_edge?_node : (node n leaf label :: rest).filterMap edge? = rest.filterMap edge? :=
  rfl

@[simp] theorem filterMap_edge?_edge :
    (edge n m :: rest).filterMap edge? = (n, m) :: rest.filterMap edge? := rfl

end Parts

def bytes : BTreeDisplayType → Statement → List ByteT
  | .depthDot, .node n _ label =>
      text s!"{n.toNat} [ label=\"{n.toNat}: " ++ label ++ text "\" ]" ++ text ";" ++ endl
  | .depthDot, .edge n m => text s!"{n.toNat} -> {m.toNat};\n"
  | .depth, .node n leaf label =>
      text s!"{n.toNat}: " ++ text (if leaf then "Leaf: " else "Interior: ") ++ label ++ endl
  | .depth, .edge _ _ => []
  | .sortedKeyval, _ => []

end Statement

def pointerText (n : SizeT) : List ByteT := text s!"*{n.toNat} "

def pairText (e : List ByteT × List ByteT) : List ByteT := e.1 ++ text " " ++ e.2 ++ text " "

def PlacedForest.label : PlacedForest → List ByteT
  | .last t => pointerText t.block
  | .cons t sep rest => pointerText t.block ++ sep ++ text " " ++ rest.label

/-- The pointer of a leaf is written in front of the first pair only. -/
def leafLabel (ptr : SizeT) (es : List (List ByteT × List ByteT)) : List ByteT :=
  match es with
  | [] => []
  | e :: es => pointerText ptr ++ (e :: es).flatMap pairText

mutual

def Placed.statements : Placed → List Statement
  | .empty n ptr => [.node n false (pointerText ptr)]
  | .leaf n ptr es => [.node n true (leafLabel ptr es)]
  | .node n t sep rest =>
      .node n false (PlacedForest.cons t sep rest).label ::
        (.edge n t.block :: t.statements ++ rest.statements n)

/-- What is below the block `n`. -/
def PlacedForest.statements (n : SizeT) : PlacedForest → List Statement
  | .last t => .edge n t.block :: t.statements
  | .cons t _ rest => .edge n t.block :: t.statements ++ rest.statements n

end

mutual

/-- Each node of the tree has one statement, in the order of the blocks. -/
theorem Placed.filterMap_node (p : Placed) : p.statements.filterMap Statement.node? = p.blocks := by
  match p with
  | .empty n ptr => rfl
  | .leaf n ptr es => rfl
  | .node n t sep rest =>
      rw [Placed.statements, Placed.blocks, Statement.filterMap_node?_node, List.filterMap_append,
        Statement.filterMap_node?_edge, t.filterMap_node, rest.filterMap_node n]

theorem PlacedForest.filterMap_node (n : SizeT) (f : PlacedForest) :
    (f.statements n).filterMap Statement.node? = f.blocks := by
  match f with
  | .last t =>
      rw [PlacedForest.statements, PlacedForest.blocks, Statement.filterMap_node?_edge, t.filterMap_node]
  | .cons t sep rest =>
      rw [PlacedForest.statements, PlacedForest.blocks, List.filterMap_append,
        Statement.filterMap_node?_edge, t.filterMap_node, rest.filterMap_node n]

end

theorem Placed.blocks_eq (p : Placed) : p.blocks = p.block :: p.blocks.tail := by
  match p with
  | .empty n ptr => rfl
  | .leaf n ptr es => rfl
  | .node n t sep rest => rw [Placed.blocks, Placed.block, List.tail_cons]

mutual

/-- Below the root each node has one pointer to it. -/
theorem Placed.filterMap_edge (p : Placed) :
    (p.statements.filterMap Statement.edge?).map Prod.snd = p.blocks.tail := by
  match p with
  | .empty n ptr => rfl
  | .leaf n ptr es => rfl
  | .node n t sep rest =>
      rw [Placed.statements, Placed.blocks, Statement.filterMap_edge?_node, List.filterMap_append,
        Statement.filterMap_edge?_edge, List.map_append, List.map_cons, t.filterMap_edge,
        rest.filterMap_edge n, ← t.blocks_eq, List.tail_cons]

theorem PlacedForest.filterMap_edge (n : SizeT) (f : PlacedForest) :
    ((f.statements n).filterMap Statement.edge?).map Prod.snd = f.blocks := by
  match f with
  | .last t =>
      rw [PlacedForest.statements, PlacedForest.blocks, Statement.filterMap_edge?_edge, List.map_cons,
        t.filterMap_edge, ← t.blocks_eq]
  | .cons t sep rest =>
      rw [PlacedForest.statements, PlacedForest.blocks, List.filterMap_append,
        Statement.filterMap_edge?_edge, List.map_append, List.map_cons, t.filterMap_edge,
        rest.filterMap_edge n, ← t.blocks_eq]

end

mutual

/-- A pointer starts at a node. -/
theorem Placed.edge_parent (p : Placed) :
    ∀ e ∈ p.statements.filterMap Statement.edge?, e.1 ∈ p.blocks := by
  match p with
  | .empty n ptr => exact fun e m => absurd m List.not_mem_nil
  | .leaf n ptr es => exact fun e m => absurd m List.not_mem_nil
  | .node n t sep rest =>
      intro e m
      rw [Placed.statements, Statement.filterMap_edge?_node, List.filterMap_append,
        Statement.filterMap_edge?_edge, List.cons_append, List.mem_cons, List.mem_append] at m
      rw [Placed.blocks, List.mem_cons, List.mem_append]
      rcases m with rfl | below | others
      · exact Or.inl rfl
      · exact Or.inr (Or.inl (t.edge_parent e below))
      · exact (rest.edge_parent n e others).imp_right Or.inr

theorem PlacedForest.edge_parent (n : SizeT) (f : PlacedForest) :
    ∀ e ∈ (f.statements n).filterMap Statement.edge?, e.1 = n ∨ e.1 ∈ f.blocks := by
  match f with
  | .last t =>
      intro e m
      rw [PlacedForest.statements, Statement.filterMap_edge?_edge, List.mem_cons] at m
      rw [PlacedForest.blocks]
      rcases m with rfl | below
      · exact Or.inl rfl
      · exact Or.inr (t.edge_parent e below)
  | .cons t sep rest =>
      intro e m
      rw [PlacedForest.statements, List.filterMap_append, Statement.filterMap_edge?_edge,
        List.cons_append, List.mem_cons, List.mem_append] at m
      rw [PlacedForest.blocks, List.mem_append]
      rcases m with rfl | below | others
      · exact Or.inl rfl
      · exact Or.inr (Or.inl (t.edge_parent e below))
      · exact (rest.edge_parent n e others).imp_right Or.inr

end

/-! ## The blocks of a tree -/

section Blocks

variable {keysize valuesize offset : SizeT} {node : SizeT → Except Fault BTreeNode} {b : BTreeNode}
  {n : SizeT} {t : Placed} {sep : List ByteT} {rest : PlacedForest}

/-- A node that is not blank starts with a pointer if the block has room for one. -/
theorem exists_pointer {c : BufferCache} (wide : 32 ≤ c.disk.blocksize.toNat) (holds : c.nodeAt n = .ok b)
    (full : ¬ b.info.Blank) : ∃ ptr bs, b.data = some (wordBytes ptr ++ bs) := by
  obtain ⟨⟨same, data⟩, -⟩ := ofBytes_inv holds
  obtain ⟨d, hd, length⟩ := data full
  rw [getNumDataBytes_toNat (by rw [same]; omega), same] at length
  obtain ⟨ptr, bs, rfl⟩ := exists_wordBytes (by omega : 4 ≤ d.length)
  exact ⟨ptr, bs, hd⟩

theorem Interior.not_blank {m : NodeMetadata} (interior : m.Interior) : ¬ m.Blank := by
  rcases interior with h | h <;> rw [NodeMetadata.Blank, h] <;> decide

mutual

theorem exists_placed {c : BufferCache} (wide : 32 ≤ c.disk.blocksize.toNat) (tree : PageTree) (n : SizeT)
    (pages : Encodes keysize valuesize c.nodeAt tree n) :
    ∃ p : Placed, p.tree = tree ∧ p.block = n ∧ p.Sits keysize valuesize c.nodeAt := by
  match tree with
  | .empty =>
      rw [Encodes] at pages
      obtain ⟨b, holds, interior, zero⟩ := pages
      obtain ⟨ptr, bs, data⟩ := exists_pointer wide holds (Interior.not_blank interior)
      exact ⟨.empty n ptr, rfl, rfl, b, bs, holds, interior, zero, data⟩
  | .leaf es =>
      rw [Encodes] at pages
      obtain ⟨b, ptr, bs, holds, leaf, keys, values, count, data, pairs⟩ := pages
      exact ⟨.leaf n ptr es, rfl, rfl, b, bs, holds, leaf, keys, values, count, data, pairs⟩
  | .node t sep rest =>
      rw [Encodes] at pages
      obtain ⟨b, ptr, bs, holds, interior, keys, count, data, sized, first, others⟩ := pages
      obtain ⟨p, rfl, rfl, sits⟩ := exists_placed wide t ptr first
      obtain ⟨f, rfl, below⟩ := exists_placedForest wide rest bs others
      exact ⟨.node n p sep f, rfl, rfl, b, bs, holds, interior, keys, count, data, sized, sits, below⟩

theorem exists_placedForest {c : BufferCache} (wide : 32 ≤ c.disk.blocksize.toNat) (f : PageForest)
    (bs : List ByteT) (pages : EncodesForest keysize valuesize c.nodeAt f bs) :
    ∃ p : PlacedForest, p.forest = f ∧ p.Sits keysize valuesize c.nodeAt bs := by
  match f with
  | .last t =>
      rw [EncodesForest] at pages
      obtain ⟨ptr, tail, data, page⟩ := pages
      obtain ⟨p, rfl, rfl, sits⟩ := exists_placed wide t ptr page
      exact ⟨.last p, rfl, tail, data, sits⟩
  | .cons t sep rest =>
      rw [EncodesForest] at pages
      obtain ⟨ptr, tail, data, sized, page, others⟩ := pages
      obtain ⟨p, rfl, rfl, sits⟩ := exists_placed wide t ptr page
      obtain ⟨f, rfl, below⟩ := exists_placedForest wide rest tail others
      exact ⟨.cons p sep f, rfl, tail, data, sized, sits, below⟩

end

mutual

theorem Placed.Sits.encodes (p : Placed) (sits : p.Sits keysize valuesize node) :
    Encodes keysize valuesize node p.tree p.block := by
  match p with
  | .empty n ptr =>
      obtain ⟨b, bs, holds, interior, zero, -⟩ := sits
      rw [Placed.tree, Encodes]
      exact ⟨b, holds, interior, zero⟩
  | .leaf n ptr es =>
      obtain ⟨b, bs, holds, leaf, keys, values, count, data, pairs⟩ := sits
      rw [Placed.tree, Encodes]
      exact ⟨b, ptr, bs, holds, leaf, keys, values, count, data, pairs⟩
  | .node n t sep rest =>
      obtain ⟨b, bs, holds, interior, keys, count, data, sized, first, others⟩ := sits
      rw [Placed.tree, Encodes]
      exact ⟨b, t.block, bs, holds, interior, keys, count, data, sized, Placed.Sits.encodes t first,
        PlacedForest.Sits.encodes rest bs others⟩

theorem PlacedForest.Sits.encodes (f : PlacedForest) (bs : List ByteT)
    (sits : f.Sits keysize valuesize node bs) :
    EncodesForest keysize valuesize node f.forest bs := by
  match f with
  | .last t =>
      obtain ⟨tail, data, page⟩ := sits
      rw [PlacedForest.forest, EncodesForest]
      exact ⟨t.block, tail, data, Placed.Sits.encodes t page⟩
  | .cons t sep rest =>
      obtain ⟨tail, data, sized, page, others⟩ := sits
      rw [PlacedForest.forest, EncodesForest]
      exact ⟨t.block, tail, data, sized, Placed.Sits.encodes t page,
        PlacedForest.Sits.encodes rest tail others⟩

end

/-- The subtrees hang off the pointers of a node from `offset` on. -/
structure PlacedAt (valuesize : SizeT) (node : SizeT → Except Fault BTreeNode) (b : BTreeNode)
    (offset : SizeT) (f : PlacedForest) : Prop where
  interior : b.info.Interior
  left : offset.toNat + f.forest.separators.length = b.info.numkeys.toNat
  pages : ∃ front bs, b.data = some (front ++ bs) ∧ (front ++ bs).length < 2 ^ 32 ∧
    front.length = offset.toNat * (4 + b.info.keysize.toNat) ∧
    f.Sits b.info.keysize valuesize node bs

theorem PlacedAt.congr {node' : SizeT → Except Fault BTreeNode} {f : PlacedForest} (same : node' = node)
    (h : PlacedAt valuesize node b offset f) : PlacedAt valuesize node' b offset f := same ▸ h

theorem PlacedAt.last (h : PlacedAt valuesize node b offset (.last t)) :
    b.getPtr offset = .ok (.ok t.block) ∧ t.Sits b.info.keysize valuesize node := by
  obtain ⟨front, bs, data, small, pos, tail, rfl, sits⟩ := h.pages
  have last : offset = b.info.numkeys := BitVec.eq_of_toNat_eq h.left
  exact ⟨getPtr_interior h.interior (le_of_eq last) data pos small, sits⟩

theorem PlacedAt.cons (h : PlacedAt valuesize node b offset (.cons t sep rest)) :
    b.getPtr offset = .ok (.ok t.block) ∧ b.getKey offset = .ok (.ok (Block.ofBytes sep)) ∧
      t.Sits b.info.keysize valuesize node ∧ PlacedAt valuesize node b (offset + 1) rest := by
  obtain ⟨front, bs, data, small, pos, tail, rfl, sized, sits, others⟩ := h.pages
  have left := h.left
  rw [PlacedForest.forest, Forest.separators, List.length_cons] at left
  have bound := b.info.numkeys.isLt
  have lt : offset < b.info.numkeys := BitVec.lt_def.mpr (by omega)
  have next : (offset + 1).toNat = offset.toNat + 1 :=
    succ_toNat (n := rest.forest.separators.length) (by omega)
  refine ⟨getPtr_interior h.interior lt.le data pos small,
    getKey_interior h.interior lt data pos sized small, sits, h.interior, by omega,
    front ++ (wordBytes t.block ++ sep), tail, ?_, ?_, ?_, others⟩
  · rw [data]
    simp only [List.append_assoc]
  · simpa only [List.append_assoc] using small
  · rw [List.length_append, List.length_append, wordBytes_length, sized, pos, next]
    ring

/-- The pairs behind the pointer of a leaf. -/
theorem pairsAt_of_layout {c : BufferCache} {ptr : SizeT} {es : List (List ByteT × List ByteT)}
    {bs : List ByteT} (holds : c.nodeAt n = .ok b) (leaf : b.info.nodetype = btreeLeafNode)
    (count : b.info.numkeys.toNat = es.length) (data : b.data = some (wordBytes ptr ++ bs))
    (pairs : PairsLayout b.info.keysize b.info.valuesize es bs) : PairsAt b 0 es := by
  refine ⟨leaf, ?_, ptr, [], bs, data, data_length holds data, (Nat.zero_mul _).symm, pairs⟩
  rw [count]
  exact Nat.zero_add _

/-- The subtrees behind the metadata of a node. -/
theorem placedAt_of_layout {c : BufferCache} {bs : List ByteT} (holds : c.nodeAt n = .ok b)
    (interior : b.info.Interior) (count : b.info.numkeys.toNat = rest.forest.separators.length + 1)
    (data : b.data = some (wordBytes t.block ++ (sep ++ bs))) (sized : sep.length = b.info.keysize.toNat)
    (sits : t.Sits b.info.keysize valuesize c.nodeAt)
    (below : rest.Sits b.info.keysize valuesize c.nodeAt bs) :
    PlacedAt valuesize c.nodeAt b 0 (.cons t sep rest) := by
  refine ⟨interior, ?_, [], _, data, data_length holds data, (Nat.zero_mul _).symm, bs, rfl, sized, sits,
    below⟩
  rw [PlacedForest.forest, Forest.separators, List.length_cons, count]
  exact Nat.zero_add _

end Blocks

/-! ## The traversal -/

namespace BTreeIndex

variable {keysize valuesize : SizeT} {b : BTreeNode} {dt : BTreeDisplayType}

theorem printPtrs_ok {node : SizeT → Except Fault BTreeNode} (f : PlacedForest) (offset : SizeT)
    (pages : PlacedAt valuesize node b offset f) :
    printPtrs b offset f.forest.separators.length = .ok (.noError, f.label) := by
  match f with
  | .last t =>
      obtain ⟨hptr, -⟩ := pages.last
      rw [PlacedForest.forest, Forest.separators, List.length_nil]
      simp only [printPtrs, hptr, Runs.ok_bind, Runs.pure_eq_ok]
      rfl
  | .cons t sep rest =>
      obtain ⟨hptr, hkey, -, others⟩ := pages.cons
      have hrest := printPtrs_ok rest (offset + 1) others
      rw [PlacedForest.forest, Forest.separators, List.length_cons]
      simp only [printPtrs, hptr, hkey, Runs.ok_bind, hrest, Runs.pure_eq_ok]
      rfl

theorem printPairs_more (deep : dt ≠ .sortedKeyval) (es : List (List ByteT × List ByteT))
    (offset : SizeT) (positive : 0 < offset) (pairs : PairsAt b offset es) :
    printPairs b dt offset es.length = .ok (.noError, es.flatMap pairText) := by
  induction es generalizing offset with
  | nil => rfl
  | cons e rest ih =>
      obtain ⟨k, v⟩ := e
      obtain ⟨-, hkey, hval, others⟩ := pairs.cons
      have left := pairs.left
      have next : (offset + 1).toNat = offset.toNat + 1 := by
        have bound := b.info.numkeys.isLt
        rw [List.length_cons] at left
        exact succ_toNat (n := rest.length) (by omega)
      have first : offset ≠ 0 := by
        rintro rfl
        exact lt_irrefl _ positive
      have hrest := ih (offset + 1) (BitVec.lt_def.mpr (by rw [next]; exact Nat.succ_pos _)) others
      rw [List.length_cons]
      simp only [printPairs, if_neg first, if_neg deep, Runs.ok_bind, ne_eq, not_true, if_false, hkey,
        hval, hrest, Runs.pure_eq_ok, List.flatMap_cons, pairText, List.nil_append, Block.ofBytes,
        List.append_assoc]

theorem printPairs_leaf (deep : dt ≠ .sortedKeyval) {ptr : SizeT} {bs : List ByteT}
    (es : List (List ByteT × List ByteT)) (data : b.data = some (wordBytes ptr ++ bs))
    (pairs : PairsAt b 0 es) :
    printPairs b dt 0 es.length = .ok (.noError, leafLabel ptr es) := by
  match es with
  | [] => rfl
  | (k, v) :: rest =>
      obtain ⟨-, hkey, hval, others⟩ := pairs.cons
      have hrest := printPairs_more deep rest (0 + 1) (by decide) others
      rw [List.length_cons, leafLabel]
      simp only [printPairs, if_true, getPtr_leaf pairs.leaf data, if_neg deep, Runs.ok_bind, ne_eq,
        not_true, if_false, hkey, hval, hrest, Runs.pure_eq_ok, List.flatMap_cons, pairText,
        pointerText, Block.ofBytes, List.append_assoc]

/-- The line of a node, without the end that `DisplayInternal` gives it. -/
theorem printNode_inner (deep : dt ≠ .sortedKeyval) (n : SizeT) (interior : b.info.Interior)
    {label : List ByteT} (ptrs : printPtrs b 0 b.info.numkeys.toNat = .ok (.noError, label)) :
    ∃ o, printNode n b dt = .ok (.noError, o) ∧
      (if dt = .depthDot then o ++ text ";" else o) ++ endl = (Statement.node n false label).bytes dt := by
  cases dt with
  | sortedKeyval => exact absurd rfl deep
  | depth =>
      refine ⟨text s!"{n.toNat}: " ++ text "Interior: " ++ label, ?_, rfl⟩
      simp only [printNode, if_pos interior, ptrs, reduceCtorEq, if_false, Runs.ok_bind, ne_eq, not_true,
        Runs.pure_eq_ok]
  | depthDot =>
      refine ⟨text s!"{n.toNat} [ label=\"{n.toNat}: " ++ label ++ text "\" ]", ?_, rfl⟩
      simp only [printNode, if_pos interior, ptrs, reduceCtorEq, if_false, Runs.ok_bind, ne_eq, not_true,
        Runs.pure_eq_ok, if_true, List.append_nil]

theorem printNode_outer (deep : dt ≠ .sortedKeyval) (n : SizeT) (leaf : b.info.nodetype = btreeLeafNode)
    {label : List ByteT} (pairs : printPairs b dt 0 b.info.numkeys.toNat = .ok (.noError, label)) :
    ∃ o, printNode n b dt = .ok (.noError, o) ∧
      (if dt = .depthDot then o ++ text ";" else o) ++ endl = (Statement.node n true label).bytes dt := by
  cases dt with
  | sortedKeyval => exact absurd rfl deep
  | depth =>
      refine ⟨text s!"{n.toNat}: " ++ text "Leaf: " ++ label, ?_, rfl⟩
      simp only [printNode, if_neg (Interior.not_leaf leaf), if_pos leaf, pairs, reduceCtorEq, if_false,
        if_true, Runs.ok_bind, ne_eq, not_true, Runs.pure_eq_ok]
  | depthDot =>
      refine ⟨text s!"{n.toNat} [ label=\"{n.toNat}: " ++ label ++ text "\" ]", ?_, rfl⟩
      simp only [printNode, if_neg (Interior.not_leaf leaf), if_pos leaf, pairs, reduceCtorEq, if_false,
        if_true, Runs.ok_bind, ne_eq, not_true, Runs.pure_eq_ok, List.append_nil]

theorem edge_bytes (deep : dt ≠ .sortedKeyval) (n m : SizeT) :
    (Statement.edge n m).bytes dt = if dt = .depthDot then text s!"{n.toNat} -> {m.toNat};\n" else [] := by
  cases dt with
  | sortedKeyval => exact absurd rfl deep
  | depth => rfl
  | depthDot => rfl

/-- The statements of one subtree are written and no block changes. -/
def Draws (u : Memory) (dt : BTreeDisplayType) (fuel : Nat) (c : BufferCache) (p : Placed) : Prop :=
  ∃ c', displayInternal u dt fuel c p.block = .ok (.noError, p.statements.flatMap (Statement.bytes dt), c') ∧
    c'.Valid ∧ c.Keeps c' ∧ c'.logical = c.logical

theorem displayPtrs_draws (u : Memory) (deep : dt ≠ .sortedKeyval) (fuel : Nat) (n : SizeT)
    (draws : ∀ (p : Placed) (c : BufferCache), p.tree.height < fuel → c.Valid →
      p.Sits b.info.keysize valuesize c.nodeAt → Draws u dt fuel c p)
    (f : PlacedForest) (high : f.forest.height < fuel) {c : BufferCache} (h : c.Valid) (offset : SizeT)
    (pages : PlacedAt valuesize c.nodeAt b offset f) :
    ∃ c', displayPtrs (displayInternal u dt fuel) dt n b c offset f.forest.separators.length =
        .ok (.noError, (f.statements n).flatMap (Statement.bytes dt), c') ∧
      c'.Valid ∧ c.Keeps c' ∧ c'.logical = c.logical := by
  match f with
  | .last t =>
      rw [PlacedForest.forest, Forest.height] at high
      obtain ⟨hptr, sits⟩ := pages.last
      obtain ⟨c1, hdraw, h1, k1, same1⟩ := draws t c high h sits
      refine ⟨c1, ?_, h1, k1, same1⟩
      rw [PlacedForest.forest, Forest.separators, List.length_nil, displayPtrs_zero,
        PlacedForest.statements, List.flatMap_cons, edge_bytes deep]
      simp only [hptr, Runs.ok_bind, hdraw, ne_eq, not_true, if_false, Runs.pure_eq_ok]
  | .cons t sep rest =>
      rw [PlacedForest.forest, Forest.height, max_lt_iff] at high
      obtain ⟨hptr, -, sits, others⟩ := pages.cons
      obtain ⟨c1, hdraw, h1, k1, same1⟩ := draws t c high.1 h sits
      obtain ⟨c2, hrest, h2, k2, same2⟩ := displayPtrs_draws u deep fuel n draws rest high.2 h1 (offset + 1)
        (others.congr (BufferCache.nodeAt_congr k1 same1))
      refine ⟨c2, ?_, h2, k1.trans k2, same2.trans same1⟩
      rw [PlacedForest.forest, Forest.separators, List.length_cons, displayPtrs_succ,
        PlacedForest.statements, List.flatMap_append, List.flatMap_cons, edge_bytes deep]
      simp only [hptr, Runs.ok_bind, hdraw, ne_eq, not_true, if_false, Runs.pure_eq_ok, hrest]

/-- With fuel for the height of the tree the traversal writes the statements of its nodes
and pointers, each node in front of what is below it. -/
theorem displayInternal_draws (u : Memory) (deep : dt ≠ .sortedKeyval) (fuel : Nat) (p : Placed)
    (c : BufferCache) (high : p.tree.height < fuel) (h : c.Valid) (sits : p.Sits keysize valuesize c.nodeAt) :
    Draws u dt fuel c p := by
  induction fuel generalizing p c with
  | zero => cases high
  | succ fuel ih =>
      match p with
      | .empty n ptr =>
          obtain ⟨b, bs, holds, interior, zero, data⟩ := sits
          obtain ⟨c1, hread, h1, k1, same1⟩ := c.unserialize_ok h (BTreeNode.default u.info) holds
          have front : b.data = some ([] ++ (wordBytes ptr ++ bs)) := data
          have hptr : b.getPtr 0 = .ok (.ok ptr) :=
            getPtr_interior interior (by rw [zero]) front (by simp) (data_length holds data)
          have ptrs : printPtrs b 0 b.info.numkeys.toNat = .ok (.noError, pointerText ptr) := by
            rw [show b.info.numkeys.toNat = 0 by rw [zero]; rfl]
            simp only [printPtrs, hptr, Runs.ok_bind, Runs.pure_eq_ok, pointerText]
          obtain ⟨o, printed, whole⟩ := printNode_inner deep n interior ptrs
          refine ⟨c1, ?_, h1, k1, same1⟩
          have none : ¬ b.info.numkeys > 0 := by
            rw [zero]
            exact lt_irrefl _
          simp only [Placed.block, displayInternal, hread, Runs.ok_bind, ne_eq, not_true, if_false,
            printed, if_neg deep, whole, if_pos interior, if_neg none, Runs.pure_eq_ok,
            Placed.statements, List.flatMap_singleton]
      | .leaf n ptr es =>
          obtain ⟨b, bs, holds, leaf, rfl, rfl, count, data, layout⟩ := sits
          obtain ⟨c1, hread, h1, k1, same1⟩ := c.unserialize_ok h (BTreeNode.default u.info) holds
          have pairs := printPairs_leaf deep es data (pairsAt_of_layout holds leaf count data layout)
          rw [← count] at pairs
          obtain ⟨o, printed, whole⟩ := printNode_outer deep n leaf pairs
          refine ⟨c1, ?_, h1, k1, same1⟩
          simp only [Placed.block, displayInternal, hread, Runs.ok_bind, ne_eq, not_true, if_false,
            printed, if_neg deep, whole, if_neg (Interior.not_leaf leaf), if_pos leaf, Runs.pure_eq_ok,
            Placed.statements, List.flatMap_singleton]
      | .node n t sep rest =>
          rw [Placed.tree, Tree.height_node] at high
          obtain ⟨b, bs, holds, interior, rfl, count, data, sized, first, below⟩ := sits
          have pages := placedAt_of_layout holds interior count data sized first below
          have keys : (PlacedForest.cons t sep rest).forest.separators.length = b.info.numkeys.toNat := by
            rw [PlacedForest.forest, Forest.separators, List.length_cons, count]
          have ptrs := printPtrs_ok _ 0 pages
          rw [keys] at ptrs
          obtain ⟨o, printed, whole⟩ := printNode_inner deep n interior ptrs
          obtain ⟨c1, hread, h1, k1, same1⟩ := c.unserialize_ok h (BTreeNode.default u.info) holds
          obtain ⟨c2, hptrs, h2, k2, same2⟩ := displayPtrs_draws u deep fuel n
            (fun p c high h sits => ih p c high h sits) (.cons t sep rest)
              (by rw [PlacedForest.forest]; omega)
            h1 0 (pages.congr (BufferCache.nodeAt_congr k1 same1))
          rw [keys] at hptrs
          have nonempty : b.info.numkeys > 0 := by
            rw [gt_iff_lt, BitVec.lt_def, count]
            exact Nat.succ_pos _
          refine ⟨c2, ?_, h2, k1.trans k2, same2.trans same1⟩
          simp only [Placed.block, displayInternal, hread, Runs.ok_bind, ne_eq, not_true, if_false,
            printed, if_neg deep, whole, if_pos interior, if_pos nonempty, hptrs, Runs.pure_eq_ok,
            Placed.statements, PlacedForest.statements, List.flatMap_cons]

/-- What `Display` writes around the statements. -/
def framed (dt : BTreeDisplayType) (o : List ByteT) : List ByteT :=
  if dt = .depthDot then text "digraph tree \x7b \n" ++ o ++ text "\x7d\n" else o

theorem display_draws (u : Memory) (dt : BTreeDisplayType) (deep : dt ≠ .sortedKeyval)
    {t : BTreeIndex} (h : t.buffercache.Valid)
    {p : Placed} (root : p.block = t.superblock.info.rootnode)
    (sits : p.Sits keysize valuesize t.buffercache.nodeAt) {fuel : Nat} (high : p.tree.height < fuel) :
    ∃ t', t.display u fuel dt = .ok (.noError, framed dt (p.statements.flatMap (Statement.bytes dt)), t') ∧
      t'.superblock = t.superblock ∧ t'.buffercache.Valid ∧ t.buffercache.Keeps t'.buffercache ∧
      t'.buffercache.logical = t.buffercache.logical := by
  obtain ⟨c', hdraw, h', k, same⟩ := displayInternal_draws u deep fuel p t.buffercache high h sits
  refine ⟨{ t with buffercache := c' }, ?_, rfl, h', k, same⟩
  rw [root] at hdraw
  simp only [display, hdraw, Runs.ok_bind, Runs.pure_eq_ok, framed]

/-- In the depth modes a well-formed tree is written as its statements. They name the
blocks of the tree, each as often as it occurs and in the order of a walk; apart from the
root each of them is the end of one pointer, which starts at a node of the tree. -/
theorem display_draws_tree (u : Memory) (t : BTreeIndex) (h : t.buffercache.Valid)
    (wide : 32 ≤ t.buffercache.disk.blocksize.toNat) (keysize valuesize : SizeT) (tree : PageTree)
    (pages : Encodes keysize valuesize t.buffercache.nodeAt tree t.superblock.info.rootnode)
    (fuel : Nat) (high : tree.height < fuel) :
    ∃ p : Placed, p.tree = tree ∧ p.block = t.superblock.info.rootnode ∧
      p.Sits keysize valuesize t.buffercache.nodeAt ∧
      (∀ dt, dt ≠ .sortedKeyval → ∃ t',
        t.display u fuel dt = .ok (.noError, framed dt (p.statements.flatMap (Statement.bytes dt)), t') ∧
          t'.superblock = t.superblock ∧ t'.buffercache.logical = t.buffercache.logical) ∧
      p.statements.filterMap Statement.node? = p.blocks ∧
      (p.statements.filterMap Statement.edge?).map Prod.snd = p.blocks.tail ∧
      ∀ e ∈ p.statements.filterMap Statement.edge?, e.1 ∈ p.blocks := by
  obtain ⟨p, rfl, root, sits⟩ := exists_placed wide tree _ pages
  refine ⟨p, rfl, root, sits, ?_, p.filterMap_node, p.filterMap_edge, p.edge_parent⟩
  intro dt deep
  obtain ⟨t', shown, superblock, -, -, same⟩ := display_draws u dt deep h root sits high
  exact ⟨t', shown, superblock, same⟩

theorem smallTree_wide {t : BTreeIndex} (root : t.buffercache.nodeAt 1 = .ok rootPage) :
    32 ≤ t.buffercache.disk.blocksize.toNat := by
  obtain ⟨⟨same, -⟩, -⟩ := ofBytes_inv root
  rw [← same]
  decide

theorem smallTree_height : smallTree.height < 2 := by
  simp [smallTree, SearchTree.Tree.height, Forest.height]

theorem smallTree_blocks {p : Placed} (tree : p.tree = smallTree) : p.blocks.length = 3 := by
  match p, tree with
  | .node n (.leaf m _ _) _ (.last (.leaf k _ _)), _ => rfl

/-- Three nodes and two pointers. -/
theorem display_draws_tree_small : ∃ (t : BTreeIndex) (p : Placed), p.tree = smallTree ∧
    p.block = t.superblock.info.rootnode ∧ p.Sits 1 1 t.buffercache.nodeAt ∧
    (∀ dt, dt ≠ .sortedKeyval → ∃ t', t.display zeroMemory 2 dt =
      .ok (.noError, framed dt (p.statements.flatMap (Statement.bytes dt)), t')) ∧
    (p.statements.filterMap Statement.edge?).length = 2 := by
  obtain ⟨t, h, root, pages⟩ := smallTree_pages
  obtain ⟨p, tree, first, sits, shown, -, edges, -⟩ := display_draws_tree zeroMemory t h
    (smallTree_wide root) 1 1 smallTree pages 2 smallTree_height
  refine ⟨t, p, tree, first, sits, fun dt deep => ?_, ?_⟩
  · obtain ⟨t', display, -⟩ := shown dt deep
    exact ⟨t', display⟩
  · have two := congrArg List.length edges
    rwa [List.length_map, List.length_tail, smallTree_blocks tree] at two

end BTreeIndex
end BTreeLab
