import EECS339.Drawing
import EECS339.Lib.Decimals

/-!
# Reading a picture back

The depth listing gives the type of each node and, by its pointers, the number of lines
that belong to what is below it. Unless a key or a value breaks a line, the tree and its
blocks can be read off the text.
-/
namespace BTreeLab
open Words SearchTree Decimals BTreeIndex

/-! ## Numbers -/

theorem text_append (s t : String) : text (s ++ t) = text s ++ text t := by
  rw [text, text, text, String.toList_append, List.map_append]

def numberText (n : SizeT) : List ByteT := text (toString n.toNat)

def isDigit (b : ByteT) : Bool := 48 ≤ b.toNat && b.toNat ≤ 57

/-- The value of a string of digits. -/
def worth (bs : List ByteT) : Nat := bs.foldl (fun a b => 10 * a + (b.toNat - 48)) 0

theorem toNat_digit {c : Char} (digit : c.isDigit = true) :
    48 ≤ c.toNat ∧ c.toNat ≤ 57 ∧ (BitVec.ofNat 8 c.toNat).toNat = c.toNat := by
  simp only [Char.isDigit, ge_iff_le, Bool.and_eq_true, decide_eq_true_eq, UInt32.le_iff_toNat_le] at digit
  obtain ⟨low, high⟩ := digit
  change 48 ≤ c.toNat at low
  change c.toNat ≤ 57 at high
  rw [BitVec.toNat_ofNat]
  exact ⟨low, high, Nat.mod_eq_of_lt (by omega)⟩

theorem numberText_eq (n : SizeT) :
    numberText n = (Nat.toDigits 10 n.toNat).map fun c => BitVec.ofNat 8 c.toNat := by
  rw [numberText, text, Nat.toString_eq_repr, Nat.repr, String.toList_ofList]

theorem numberText_digits (n : SizeT) : ∀ b ∈ numberText n, isDigit b = true := by
  rw [numberText_eq]
  intro b m
  obtain ⟨c, digit, rfl⟩ := List.mem_map.mp m
  obtain ⟨low, high, value⟩ := toNat_digit (digits_toDigits _ c digit)
  rw [isDigit, value, Bool.and_eq_true, decide_eq_true_eq, decide_eq_true_eq]
  exact ⟨low, high⟩

theorem foldl_digits (ds : List Char) (digits : Digits ds) (a : Nat) :
    (ds.map fun c => BitVec.ofNat 8 c.toNat).foldl (fun a b => 10 * a + (b.toNat - 48)) a =
      Nat.ofDigitChars 10 ds a := by
  induction ds generalizing a with
  | nil => rw [List.map_nil, List.foldl_nil, Nat.ofDigitChars_nil]
  | cons c ds ih =>
      obtain ⟨-, -, value⟩ := toNat_digit (digits c List.mem_cons_self)
      rw [List.map_cons, List.foldl_cons, Nat.ofDigitChars_cons, value,
        ih (fun d m => digits d (List.mem_cons_of_mem c m))]
      rfl

theorem worth_numberText (n : SizeT) : worth (numberText n) = n.toNat := by
  rw [worth, numberText_eq, foldl_digits _ (digits_toDigits _)]
  exact value_toDigits n.toNat

/-- A number ends where its digits do. -/
theorem numberText_inj {n m : SizeT} {c : ByteT} {x y : List ByteT} (stop : isDigit c = false)
    (same : numberText n ++ c :: x = numberText m ++ c :: y) : n = m ∧ x = y := by
  obtain ⟨digits, -, rest⟩ :=
    Tokens.append_stop_inj (numberText_digits n) (numberText_digits m) stop stop same
  have values := congrArg worth digits
  rw [worth_numberText, worth_numberText] at values
  exact ⟨BitVec.eq_of_toNat_eq values, rest⟩

theorem pointerText_eq (n : SizeT) (x : List ByteT) :
    pointerText n ++ x = 42 :: (numberText n ++ 32 :: x) := by
  have parts : pointerText n = text "*" ++ (numberText n ++ text " ") := by
    rw [pointerText, numberText, ← text_append, ← text_append, ← String.append_assoc]
    rfl
  rw [parts, List.append_assoc, List.append_assoc]
  rfl

theorem pointerText_inj {n m : SizeT} {x y : List ByteT} (same : pointerText n ++ x = pointerText m ++ y) :
    n = m ∧ x = y := by
  rw [pointerText_eq, pointerText_eq] at same
  exact numberText_inj (by decide) (List.cons.inj same).2

/-! ## Labels

A field of known size is followed by a blank, a label by a line break. -/

section Fields

variable {size : Nat} {k k' x y : List ByteT}

theorem field_inj (sized : k.length = size) (sized' : k'.length = size)
    (same : k ++ (text " " ++ x) = k' ++ (text " " ++ y)) : k = k' ∧ x = y := by
  obtain ⟨key, rest⟩ := List.append_inj same (sized.trans sized'.symm)
  exact ⟨key, (List.cons.inj rest).2⟩

/-- A field does not start with a line break. -/
theorem field_ne (plain : 10 ∉ k) : 10 :: x ≠ k ++ (text " " ++ y) := by
  intro same
  cases k with
  | nil => exact absurd (List.cons.inj same).1 (by decide)
  | cons b k => exact plain ((List.cons.inj same).1 ▸ List.mem_cons_self)

end Fields

/-- A byte string of the given size that does not break a line. -/
def Plain (size : SizeT) (bs : List ByteT) : Prop := bs.length = size.toNat ∧ 10 ∉ bs

/-- The keys and the values of the tree are plain. -/
def Readable (keysize valuesize : SizeT) (tree : PageTree) : Prop :=
  tree.Each (Plain keysize) (Plain valuesize)

def ReadableForest (keysize valuesize : SizeT) (f : PageForest) : Prop :=
  f.Each (Plain keysize) (Plain valuesize)

variable {keysize valuesize : SizeT} {x y : List ByteT}

theorem Readable.leaf {n ptr : SizeT} {es : List (List ByteT × List ByteT)}
    (h : Readable keysize valuesize (Placed.leaf n ptr es).tree) :
    ∀ e ∈ es, Plain keysize e.1 ∧ Plain valuesize e.2 := by
  rwa [Placed.tree, Readable, Tree.Each] at h

theorem Readable.node {n : SizeT} {t : Placed} {sep : List ByteT} {rest : PlacedForest}
    (h : Readable keysize valuesize (Placed.node n t sep rest).tree) :
    Readable keysize valuesize t.tree ∧ Plain keysize sep ∧ ReadableForest keysize valuesize rest.forest := by
  rwa [Placed.tree, Readable, Tree.Each] at h

theorem readableForest_last {t : Placed} :
    ReadableForest keysize valuesize (PlacedForest.last t).forest ↔ Readable keysize valuesize t.tree := by
  rw [PlacedForest.forest, ReadableForest, Forest.Each, Readable]

theorem readableForest_cons {t : Placed} {sep : List ByteT} {rest : PlacedForest} :
    ReadableForest keysize valuesize (PlacedForest.cons t sep rest).forest ↔
      Readable keysize valuesize t.tree ∧ Plain keysize sep ∧
        ReadableForest keysize valuesize rest.forest := by
  rw [PlacedForest.forest, ReadableForest, Forest.Each, Readable, ReadableForest]

theorem separators_cons {t : Placed} {sep : List ByteT} {rest : PlacedForest} :
    (PlacedForest.cons t sep rest).forest.separators = sep :: rest.forest.separators := by
  rw [PlacedForest.forest, Forest.separators]

theorem pairs_inj (es es' : List (List ByteT × List ByteT))
    (plain : ∀ e ∈ es, Plain keysize e.1 ∧ Plain valuesize e.2)
    (plain' : ∀ e ∈ es', Plain keysize e.1 ∧ Plain valuesize e.2)
    (same : es.flatMap pairText ++ 10 :: x = es'.flatMap pairText ++ 10 :: y) : es = es' ∧ x = y := by
  induction es generalizing es' with
  | nil =>
      cases es' with
      | nil => exact ⟨rfl, (List.cons.inj same).2⟩
      | cons e' es' =>
          obtain ⟨⟨⟨-, key⟩, -⟩, -⟩ := List.forall_mem_cons.mp plain'
          simp only [List.flatMap_cons, pairText, List.append_assoc] at same
          exact absurd same (field_ne key)
  | cons e es ih =>
      obtain ⟨⟨key, value⟩, others⟩ := List.forall_mem_cons.mp plain
      cases es' with
      | nil =>
          simp only [List.flatMap_cons, pairText, List.append_assoc] at same
          exact absurd same.symm (field_ne key.2)
      | cons e' es' =>
          obtain ⟨⟨key', value'⟩, others'⟩ := List.forall_mem_cons.mp plain'
          simp only [List.flatMap_cons, pairText, List.append_assoc] at same
          obtain ⟨first, same⟩ := field_inj key.1 key'.1 same
          obtain ⟨second, same⟩ := field_inj value.1 value'.1 same
          obtain ⟨rest, tail⟩ := ih es' others others' same
          exact ⟨by rw [Prod.ext first second, rest], tail⟩

theorem leafLabel_inj {ptr ptr' : SizeT} (es es' : List (List ByteT × List ByteT))
    (plain : ∀ e ∈ es, Plain keysize e.1 ∧ Plain valuesize e.2)
    (plain' : ∀ e ∈ es', Plain keysize e.1 ∧ Plain valuesize e.2)
    (same : leafLabel ptr es ++ 10 :: x = leafLabel ptr' es' ++ 10 :: y) : es = es' ∧ x = y := by
  match es, es' with
  | [], [] => exact ⟨rfl, (List.cons.inj same).2⟩
  | [], e' :: es' =>
      rw [leafLabel, leafLabel, List.append_assoc, pointerText_eq] at same
      exact absurd (List.cons.inj same).1 (by decide)
  | e :: es, [] =>
      rw [leafLabel, leafLabel, List.append_assoc, pointerText_eq] at same
      exact absurd (List.cons.inj same).1 (by decide)
  | e :: es, e' :: es' =>
      rw [leafLabel, leafLabel, List.append_assoc, List.append_assoc] at same
      exact pairs_inj (e :: es) (e' :: es') plain plain' (pointerText_inj same).2

/-- The label of a node gives its separators. -/
theorem label_inj (f g : PlacedForest) (plain : ReadableForest keysize valuesize f.forest)
    (plain' : ReadableForest keysize valuesize g.forest)
    (same : f.label ++ 10 :: x = g.label ++ 10 :: y) :
    f.forest.separators = g.forest.separators ∧ x = y := by
  match f, g with
  | .last t, .last t' =>
      rw [PlacedForest.label, PlacedForest.label] at same
      exact ⟨rfl, (List.cons.inj (pointerText_inj same).2).2⟩
  | .last t, .cons t' sep' rest' =>
      obtain ⟨-, ⟨-, first⟩, -⟩ := readableForest_cons.mp plain'
      simp only [PlacedForest.label, List.append_assoc] at same
      exact absurd (pointerText_inj same).2 (field_ne first)
  | .cons t sep rest, .last t' =>
      obtain ⟨-, ⟨-, first⟩, -⟩ := readableForest_cons.mp plain
      simp only [PlacedForest.label, List.append_assoc] at same
      exact absurd (pointerText_inj same).2.symm (field_ne first)
  | .cons t sep rest, .cons t' sep' rest' =>
      obtain ⟨-, ⟨sized, -⟩, others⟩ := readableForest_cons.mp plain
      obtain ⟨-, ⟨sized', -⟩, others'⟩ := readableForest_cons.mp plain'
      simp only [PlacedForest.label, List.append_assoc] at same
      obtain ⟨first, behind⟩ := field_inj sized sized' (pointerText_inj same).2
      obtain ⟨second, tail⟩ := label_inj rest rest' others others' behind
      exact ⟨by rw [separators_cons, separators_cons, first, second], tail⟩

/-! ## Lines -/

def depthText (ss : List Statement) : List ByteT := ss.flatMap (Statement.bytes .depth)

theorem depthText_append (ss ss' : List Statement) : depthText (ss ++ ss') = depthText ss ++ depthText ss' :=
  List.flatMap_append

theorem depthText_edge (n m : SizeT) (ss : List Statement) : depthText (.edge n m :: ss) = depthText ss := rfl

/-- The name of the type that a line starts with. -/
def kindText (leaf : Bool) : List ByteT := text (if leaf then "Leaf: " else "Interior: ")

theorem kindText_head (leaf : Bool) : ∃ tail, kindText leaf = (if leaf then 76 else 73) :: tail := by
  cases leaf
  · exact ⟨text "nterior: ", by decide⟩
  · exact ⟨text "eaf: ", by decide⟩

/-- The first letters differ. -/
theorem kindText_inj {leaf leaf' : Bool} {o o' : List ByteT}
    (same : kindText leaf ++ o = kindText leaf' ++ o') :
    leaf = leaf' ∧ o = o' := by
  have kinds : leaf = leaf' := by
    obtain ⟨tail, head⟩ := kindText_head leaf
    obtain ⟨tail', head'⟩ := kindText_head leaf'
    rw [head, head'] at same
    have first := (List.cons.inj same).1
    cases leaf <;> cases leaf' <;> first | rfl | exact absurd first (by decide)
  subst kinds
  exact ⟨rfl, List.append_cancel_left same⟩

theorem depthText_node (n : SizeT) (leaf : Bool) (label : List ByteT) (ss : List Statement) :
    depthText (.node n leaf label :: ss) ++ x =
      numberText n ++ 58 :: 32 :: (kindText leaf ++ (label ++ 10 :: (depthText ss ++ x))) := by
  have front : text s!"{n.toNat}: " = numberText n ++ text ": " := by
    rw [numberText, ← text_append]
    rfl
  rw [depthText, List.flatMap_cons, Statement.bytes, front]
  simp only [List.append_assoc, kindText, endl]
  rfl

theorem line_inj {n n' : SizeT} {leaf leaf' : Bool} {o o' : List ByteT}
    (same : numberText n ++ 58 :: 32 :: (kindText leaf ++ o) =
      numberText n' ++ 58 :: 32 :: (kindText leaf' ++ o')) : n = n' ∧ leaf = leaf' ∧ o = o' := by
  obtain ⟨number, rest⟩ := numberText_inj (by decide) same
  exact ⟨number, kindText_inj (List.cons.inj rest).2⟩

mutual

/-- Behind the lines of one tree the text may go on. -/
theorem Placed.read_back (p q : Placed) :
    Readable keysize valuesize p.tree → Readable keysize valuesize q.tree → ∀ x y,
      depthText p.statements ++ x = depthText q.statements ++ y →
        p.tree = q.tree ∧ p.blocks = q.blocks ∧ x = y := by
  match p, q with
  | .empty n ptr, .empty n' ptr' =>
      intro plain plain' x y same
      rw [Placed.statements, Placed.statements, depthText_node, depthText_node] at same
      obtain ⟨rfl, -, rest⟩ := line_inj same
      exact ⟨rfl, rfl, (List.cons.inj (pointerText_inj rest).2).2⟩
  | .empty n ptr, .leaf n' ptr' es' =>
      intro plain plain' x y same
      rw [Placed.statements, Placed.statements, depthText_node, depthText_node] at same
      exact absurd (line_inj same).2.1 (by decide)
  | .empty n ptr, .node n' t' sep' rest' =>
      intro plain plain' x y same
      rw [Placed.statements, Placed.statements, depthText_node, depthText_node] at same
      obtain ⟨-, -, rest⟩ := line_inj same
      obtain ⟨-, ⟨-, first⟩, -⟩ := plain'.node
      simp only [PlacedForest.label, List.append_assoc] at rest
      exact absurd (pointerText_inj rest).2 (field_ne first)
  | .leaf n ptr es, .empty n' ptr' =>
      intro plain plain' x y same
      rw [Placed.statements, Placed.statements, depthText_node, depthText_node] at same
      exact absurd (line_inj same).2.1 (by decide)
  | .leaf n ptr es, .leaf n' ptr' es' =>
      intro plain plain' x y same
      rw [Placed.statements, Placed.statements, depthText_node, depthText_node] at same
      obtain ⟨rfl, -, rest⟩ := line_inj same
      obtain ⟨rfl, tail⟩ := leafLabel_inj es es' plain.leaf plain'.leaf rest
      exact ⟨rfl, rfl, tail⟩
  | .leaf n ptr es, .node n' t' sep' rest' =>
      intro plain plain' x y same
      rw [Placed.statements, Placed.statements, depthText_node, depthText_node] at same
      exact absurd (line_inj same).2.1 (by decide)
  | .node n t sep rest, .empty n' ptr' =>
      intro plain plain' x y same
      rw [Placed.statements, Placed.statements, depthText_node, depthText_node] at same
      obtain ⟨-, -, behind⟩ := line_inj same
      obtain ⟨-, ⟨-, first⟩, -⟩ := plain.node
      simp only [PlacedForest.label, List.append_assoc] at behind
      exact absurd (pointerText_inj behind).2.symm (field_ne first)
  | .node n t sep rest, .leaf n' ptr' es' =>
      intro plain plain' x y same
      rw [Placed.statements, Placed.statements, depthText_node, depthText_node] at same
      exact absurd (line_inj same).2.1 (by decide)
  | .node n t sep rest, .node n' t' sep' rest' =>
      intro plain plain' x y same
      rw [Placed.statements, Placed.statements, depthText_node, depthText_node] at same
      obtain ⟨rfl, -, label⟩ := line_inj same
      obtain ⟨separators, behind⟩ := label_inj (.cons t sep rest) (.cons t' sep' rest')
        (readableForest_cons.mpr plain.node) (readableForest_cons.mpr plain'.node) label
      rw [separators_cons, separators_cons] at separators
      obtain ⟨rfl, others⟩ := List.cons.inj separators
      rw [depthText_append, depthText_append, depthText_edge, depthText_edge, List.append_assoc,
        List.append_assoc] at behind
      obtain ⟨first, blocks, others'⟩ := Placed.read_back t t' plain.node.1 plain'.node.1 _ _ behind
      obtain ⟨second, blocks', tail⟩ :=
        PlacedForest.read_back n rest rest' others plain.node.2.2 plain'.node.2.2 x y others'
      refine ⟨?_, ?_, tail⟩
      · rw [Placed.tree, Placed.tree, first, second]
      · rw [Placed.blocks, Placed.blocks, blocks, blocks']

theorem PlacedForest.read_back (n : SizeT) (f g : PlacedForest) :
    f.forest.separators = g.forest.separators → ReadableForest keysize valuesize f.forest →
      ReadableForest keysize valuesize g.forest → ∀ x y,
        depthText (f.statements n) ++ x = depthText (g.statements n) ++ y →
          f.forest = g.forest ∧ f.blocks = g.blocks ∧ x = y := by
  match f, g with
  | .last t, .last t' =>
      intro separators plain plain' x y same
      rw [PlacedForest.statements, PlacedForest.statements, depthText_edge, depthText_edge] at same
      obtain ⟨tree, blocks, tail⟩ := Placed.read_back t t' (readableForest_last.mp plain)
        (readableForest_last.mp plain') x y same
      refine ⟨?_, ?_, tail⟩
      · rw [PlacedForest.forest, PlacedForest.forest, tree]
      · rw [PlacedForest.blocks, PlacedForest.blocks, blocks]
  | .last t, .cons t' sep' rest' =>
      intro separators
      cases separators
  | .cons t sep rest, .last t' =>
      intro separators
      cases separators
  | .cons t sep rest, .cons t' sep' rest' =>
      intro separators plain plain' x y same
      rw [separators_cons, separators_cons] at separators
      obtain ⟨rfl, others⟩ := List.cons.inj separators
      obtain ⟨here, -, there⟩ := readableForest_cons.mp plain
      obtain ⟨here', -, there'⟩ := readableForest_cons.mp plain'
      rw [PlacedForest.statements, PlacedForest.statements, depthText_append, depthText_append,
        depthText_edge, depthText_edge, List.append_assoc, List.append_assoc] at same
      obtain ⟨first, blocks, behind⟩ := Placed.read_back t t' here here' _ _ same
      obtain ⟨second, blocks', tail⟩ := PlacedForest.read_back n rest rest' others there there' x y behind
      refine ⟨?_, ?_, tail⟩
      · rw [PlacedForest.forest, PlacedForest.forest, first, second]
      · rw [PlacedForest.blocks, PlacedForest.blocks, blocks, blocks']

end

/-! ## Whole pictures -/

section Sizes

variable {node : SizeT → Except Fault BTreeNode}

theorem pairsLayout_sized (es : List (List ByteT × List ByteT)) (bs : List ByteT)
    (layout : PairsLayout keysize valuesize es bs) :
    ∀ e ∈ es, e.1.length = keysize.toNat ∧ e.2.length = valuesize.toNat := by
  induction es generalizing bs with
  | nil => exact fun e m => absurd m List.not_mem_nil
  | cons e es ih =>
      obtain ⟨tail, -, key, value, others⟩ := layout
      exact List.forall_mem_cons.mpr ⟨⟨key, value⟩, ih tail others⟩

mutual

theorem encodes_sized (tree : PageTree) (n : SizeT) (pages : Encodes keysize valuesize node tree n) :
    tree.Each (fun k => k.length = keysize.toNat) fun v => v.length = valuesize.toNat := by
  match tree with
  | .empty => trivial
  | .leaf es =>
      rw [Encodes] at pages
      obtain ⟨b, ptr, bs, -, -, -, -, -, -, layout⟩ := pages
      rw [Tree.Each]
      exact pairsLayout_sized es bs layout
  | .node t sep rest =>
      rw [Encodes] at pages
      obtain ⟨b, ptr, bs, -, -, -, -, -, sized, first, others⟩ := pages
      rw [Tree.Each]
      exact ⟨encodes_sized t ptr first, sized, encodesForest_sized rest bs others⟩

theorem encodesForest_sized (f : PageForest) (bs : List ByteT)
    (pages : EncodesForest keysize valuesize node f bs) :
    f.Each (fun k => k.length = keysize.toNat) fun v => v.length = valuesize.toNat := by
  match f with
  | .last t =>
      rw [EncodesForest] at pages
      obtain ⟨ptr, tail, -, page⟩ := pages
      rw [Forest.Each]
      exact encodes_sized t ptr page
  | .cons t sep rest =>
      rw [EncodesForest] at pages
      obtain ⟨ptr, tail, -, sized, page, others⟩ := pages
      rw [Forest.Each]
      exact ⟨encodes_sized t ptr page, sized, encodesForest_sized rest tail others⟩

end

end Sizes

/-- No key and no value has a line break in it. -/
def OneLine (tree : PageTree) : Prop := tree.Each (fun k => 10 ∉ k) fun v => 10 ∉ v

/-- Two indexes, on any two disks, that have the same depth listing hold the same tree on
the same blocks: the picture loses nothing but what an empty leaf points to. -/
theorem BTreeIndex.display_depth_determines (u u' : Memory) (t t' : BTreeIndex)
    (h : t.buffercache.Valid) (h' : t'.buffercache.Valid)
    (wide : 32 ≤ t.buffercache.disk.blocksize.toNat) (wide' : 32 ≤ t'.buffercache.disk.blocksize.toNat)
    (keysize valuesize : SizeT) (tree tree' : PageTree)
    (pages : Encodes keysize valuesize t.buffercache.nodeAt tree t.superblock.info.rootnode)
    (pages' : Encodes keysize valuesize t'.buffercache.nodeAt tree' t'.superblock.info.rootnode)
    (plain : OneLine tree) (plain' : OneLine tree') (fuel fuel' : Nat)
    (high : tree.height < fuel) (high' : tree'.height < fuel')
    (same : (t.display u fuel .depth).map (fun r => r.2.1) =
      (t'.display u' fuel' .depth).map fun r => r.2.1) :
    tree = tree' ∧ ∃ p p' : Placed, p.tree = tree ∧ p'.tree = tree' ∧
      p.Sits keysize valuesize t.buffercache.nodeAt ∧ p'.Sits keysize valuesize t'.buffercache.nodeAt ∧
      p.block = t.superblock.info.rootnode ∧ p'.block = t'.superblock.info.rootnode ∧
      p.blocks = p'.blocks := by
  have readable := (encodes_sized tree _ pages).and plain
  have readable' := (encodes_sized tree' _ pages').and plain'
  obtain ⟨p, rfl, root, sits⟩ := exists_placed wide tree _ pages
  obtain ⟨p', rfl, root', sits'⟩ := exists_placed wide' tree' _ pages'
  obtain ⟨t1, shown, -⟩ := display_draws u .depth (by decide) h root sits high
  obtain ⟨t1', shown', -⟩ := display_draws u' .depth (by decide) h' root' sits' high'
  rw [shown, shown'] at same
  have texts : depthText p.statements = depthText p'.statements := Except.ok.inj same
  obtain ⟨trees, blocks, -⟩ := p.read_back p' readable readable' [] []
    (by rw [List.append_nil, List.append_nil, texts])
  exact ⟨trees, p, p', rfl, rfl, sits, sits', root, root', blocks⟩

/-- An inner node in block 1 over two leaves. -/
def twoLeaves : Placed := .node 1 (.leaf 2 0 [([1], [30])]) [1] (.last (.leaf 3 0 [([2], [20])]))

theorem twoLeaves_sits {node : SizeT → Except Fault BTreeNode} (root : node 1 = .ok BTreeIndex.rootPage)
    (left : node 2 = .ok (BTreeIndex.leafPage 1 30)) (right : node 3 = .ok (BTreeIndex.leafPage 2 20)) :
    twoLeaves.Sits 1 1 node :=
  ⟨BTreeIndex.rootPage, _, root, Or.inr rfl, rfl, rfl, rfl, rfl,
    ⟨BTreeIndex.leafPage 1 30, _, left, rfl, rfl, rfl, rfl, rfl, _, rfl, rfl, rfl, trivial⟩,
    _, rfl, BTreeIndex.leafPage 2 20, _, right, rfl, rfl, rfl, rfl, rfl, _, rfl, rfl, rfl, trivial⟩

/-- Twice as many blocks as the small disk. -/
def doubleConfig : DiskConfig := { DiskSystem.smallConfig with numblocks := 128, numheads := 2 }

theorem doubleConfig_accepted : sanityCheckConfig doubleConfig = .noError := by
  norm_num [sanityCheckConfig, doubleConfig, DiskSystem.smallConfig]

/-- The same tree on two disks. The fuel does not show. -/
theorem BTreeIndex.display_depth_determines_small : ∃ (t t' : BTreeIndex) (p p' : Placed),
    t.buffercache.disk.toDiskConfig = DiskSystem.smallConfig ∧
    t'.buffercache.disk.toDiskConfig = doubleConfig ∧
    p.tree = twoLeaves.tree ∧ p'.tree = twoLeaves.tree ∧ p.Sits 1 1 t.buffercache.nodeAt ∧
    p'.Sits 1 1 t'.buffercache.nodeAt ∧ p.blocks = p'.blocks := by
  obtain ⟨t, h, config, first, root, left, right⟩ :=
    leaves_written DiskSystem.smallConfig_sound rfl (by decide) 2 30
  obtain ⟨t', h', config', first', root', left', right'⟩ := leaves_written
    (d := DiskSystem.make .small doubleConfig ByteFile.empty)
    (DiskSystem.Fits.sound (by decide) doubleConfig_accepted) rfl (by decide) 4 30
  have sits := twoLeaves_sits root left right
  have sits' := twoLeaves_sits root' left' right'
  have top : twoLeaves.block = t.superblock.info.rootnode := first.symm
  have top' : twoLeaves.block = t'.superblock.info.rootnode := first'.symm
  have plain : OneLine twoLeaves.tree := by
    simp only [OneLine, twoLeaves, Placed.tree, PlacedForest.forest, Tree.Each, Forest.Each]
    decide
  have high : twoLeaves.tree.height < 2 := by
    simp [twoLeaves, Placed.tree, PlacedForest.forest, SearchTree.Tree.height, Forest.height]
  have higher : twoLeaves.tree.height < 3 := by omega
  obtain ⟨t1, shown, -⟩ := display_draws zeroMemory .depth (by decide) h top sits high
  obtain ⟨t2, shown', -⟩ := display_draws zeroMemory .depth (by decide) h' top' sits' higher
  have pages : Encodes 1 1 t.buffercache.nodeAt twoLeaves.tree t.superblock.info.rootnode :=
    top ▸ Placed.Sits.encodes twoLeaves sits
  have pages' : Encodes 1 1 t'.buffercache.nodeAt twoLeaves.tree t'.superblock.info.rootnode :=
    top' ▸ Placed.Sits.encodes twoLeaves sits'
  obtain ⟨-, p, p', tree, tree', sits, sits', -, -, blocks⟩ := display_depth_determines zeroMemory zeroMemory
    t t' h h' (smallTree_wide root) (smallTree_wide root') 1 1 twoLeaves.tree twoLeaves.tree pages pages'
    plain plain 2 3 high higher (by rw [shown, shown']; rfl)
  exact ⟨t, t', p, p', config, config', tree, tree', sits, sits', blocks⟩

end BTreeLab
