import EECS339.CacheErrors
import EECS339.Display

/-!
# The display of a damaged image

A walk reads the nodes below a block as a traversal meets them, whatever the cache
and the disk behind it do. `DisplayInternal` ends as the walk does; `Display` drops
the code it ends with.
-/
namespace BTreeLab
open Words SearchTree BTreeNode

namespace BTreeNode

/-- The entry has a key and a value inside the block. -/
def HasPair (b : BTreeNode) (i : SizeT) : Prop :=
  (∃ k, b.getKey i = .ok (.ok k)) ∧ ∃ v, b.getVal i = .ok (.ok v)

/-- Every entry of a leaf lies inside the block. -/
def Legible (b : BTreeNode) : Prop := ∀ i, i < b.info.numkeys → b.HasPair i

/-- The pointers of an inner node, and the keys between them, lie inside the block. -/
structure Laid (b : BTreeNode) : Prop where
  ptrs : ∀ i, i ≤ b.info.numkeys → ∃ p, b.getPtr i = .ok (.ok p)
  keys : ∀ i, i < b.info.numkeys → ∃ k, b.getKey i = .ok (.ok k)

end BTreeNode

mutual

/-- The pointers below block `n` form a finite tree and the walk over it ends with a
code, zero if it saw the whole tree, or with the process. -/
inductive Walk (u : Memory) : BufferCache → SizeT → Except Fault (ErrorT × BufferCache) → Prop
  | unread {c : BufferCache} {n : SizeT} {f : Fault}
      (read : (BTreeNode.default u.info).unserialize c n = .error f) : Walk u c n (.error f)
  | refused {c c' : BufferCache} {n : SizeT} {rc : ErrorT} {b : BTreeNode}
      (read : (BTreeNode.default u.info).unserialize c n = .ok (rc, b, c')) (failed : rc ≠ .noError) :
      Walk u c n (.ok (rc, c'))
  | alien {c c' : BufferCache} {n : SizeT} {b : BTreeNode}
      (read : (BTreeNode.default u.info).unserialize c n = .ok (.noError, b, c'))
      (inner : ¬ b.info.Interior) (outer : b.info.nodetype ≠ btreeLeafNode) :
      Walk u c n (.ok (.insane, c'))
  | leaf {c c' : BufferCache} {n : SizeT} {b : BTreeNode}
      (read : (BTreeNode.default u.info).unserialize c n = .ok (.noError, b, c'))
      (leaf : b.info.nodetype = btreeLeafNode) (legible : b.Legible) : Walk u c n (.ok (.noError, c'))
  | overrun {c c' : BufferCache} {n : SizeT} {b : BTreeNode}
      (read : (BTreeNode.default u.info).unserialize c n = .ok (.noError, b, c'))
      (leaf : b.info.nodetype = btreeLeafNode) (illegible : ¬ b.Legible) :
      Walk u c n (.error .outOfBounds)
  | empty {c c' : BufferCache} {n : SizeT} {b : BTreeNode}
      (read : (BTreeNode.default u.info).unserialize c n = .ok (.noError, b, c'))
      (interior : b.info.Interior) (laid : b.Laid) (zero : b.info.numkeys = 0) :
      Walk u c n (.ok (.noError, c'))
  | node {c c' : BufferCache} {n : SizeT} {b : BTreeNode} {r : Except Fault (ErrorT × BufferCache)}
      (read : (BTreeNode.default u.info).unserialize c n = .ok (.noError, b, c'))
      (interior : b.info.Interior) (laid : b.Laid) (more : b.info.numkeys > 0)
      (below : WalkPtrs u b c' 0 b.info.numkeys.toNat r) : Walk u c n r

/-- The walk over the pointers of a node from `offset`, `count` of them after the first. -/
inductive WalkPtrs (u : Memory) :
    BTreeNode → BufferCache → SizeT → Nat → Except Fault (ErrorT × BufferCache) → Prop
  | fault {b : BTreeNode} {c : BufferCache} {offset ptr : SizeT} {count : Nat} {f : Fault}
      (child : b.getPtr offset = .ok (.ok ptr)) (below : Walk u c ptr (.error f)) :
      WalkPtrs u b c offset count (.error f)
  | stop {b : BTreeNode} {c c' : BufferCache} {offset ptr : SizeT} {count : Nat} {rc : ErrorT}
      (child : b.getPtr offset = .ok (.ok ptr)) (below : Walk u c ptr (.ok (rc, c')))
      (failed : rc ≠ .noError) : WalkPtrs u b c offset count (.ok (rc, c'))
  | last {b : BTreeNode} {c c' : BufferCache} {offset ptr : SizeT}
      (child : b.getPtr offset = .ok (.ok ptr)) (below : Walk u c ptr (.ok (.noError, c'))) :
      WalkPtrs u b c offset 0 (.ok (.noError, c'))
  | next {b : BTreeNode} {c c' : BufferCache} {offset ptr : SizeT} {count : Nat}
      {r : Except Fault (ErrorT × BufferCache)}
      (child : b.getPtr offset = .ok (.ok ptr)) (below : Walk u c ptr (.ok (.noError, c')))
      (rest : WalkPtrs u b c' (offset + 1) count r) : WalkPtrs u b c offset (count + 1) r

end

mutual

/-- The walk below block `n` comes to block `m`, with the cache as it is then. -/
inductive Comes (u : Memory) : BufferCache → SizeT → BufferCache → SizeT → Prop
  | here {c : BufferCache} {n : SizeT} : Comes u c n c n
  | under {c c' c1 : BufferCache} {n m : SizeT} {b : BTreeNode}
      (read : (BTreeNode.default u.info).unserialize c n = .ok (.noError, b, c'))
      (interior : b.info.Interior) (more : b.info.numkeys > 0)
      (ptrs : ComesPtrs u b c' 0 b.info.numkeys.toNat c1 m) : Comes u c n c1 m

/-- The same for the pointers of a node from `offset`, `count` of them after the first. -/
inductive ComesPtrs (u : Memory) : BTreeNode → BufferCache → SizeT → Nat → BufferCache → SizeT → Prop
  | child {b : BTreeNode} {c c1 : BufferCache} {offset ptr m : SizeT} {count : Nat}
      (child : b.getPtr offset = .ok (.ok ptr)) (below : Comes u c ptr c1 m) :
      ComesPtrs u b c offset count c1 m
  | later {b : BTreeNode} {c c' c1 : BufferCache} {offset ptr m : SizeT} {count : Nat}
      (child : b.getPtr offset = .ok (.ok ptr)) (before : Walk u c ptr (.ok (.noError, c')))
      (rest : ComesPtrs u b c' (offset + 1) count c1 m) : ComesPtrs u b c offset (count + 1) c1 m

end

/-- Reading the block is not refused, and its node is of a type that an index has. -/
def Showable (u : Memory) (c : BufferCache) (n : SizeT) : Prop :=
  ∀ rc b c', (BTreeNode.default u.info).unserialize c n = .ok (rc, b, c') →
    rc = .noError ∧ (b.info.Interior ∨ b.info.nodetype = btreeLeafNode)

namespace BTreeNode

variable {b : BTreeNode} {d : List ByteT}

theorem fetch_cases (data : b.data = some d) (p len : Nat) :
    (∃ bs, b.fetch (b.pointer p) len = .ok (.ok bs)) ∨
      b.fetch (b.pointer p) len = .error .outOfBounds := by
  simp only [pointer, data, reduceCtorEq, false_and, if_false, fetch]
  cases bytesAt d p len with
  | none => exact Or.inr rfl
  | some bs => exact Or.inl ⟨bs, rfl⟩

theorem getKey_cases (leaf : b.info.nodetype = btreeLeafNode) (data : b.data = some d) {i : SizeT}
    (lt : i < b.info.numkeys) :
    (∃ k, b.getKey i = .ok (.ok k)) ∨ b.getKey i = .error .outOfBounds := by
  simp only [getKey, resolveKey, if_neg (Interior.not_leaf leaf), if_pos leaf, if_pos lt, Runs.ok_bind]
  rcases fetch_cases data (4 + (i * (b.info.keysize + b.info.valuesize)).toNat) b.info.keysize.toNat with
    ⟨bs, hit⟩ | miss
  · exact Or.inl ⟨Block.ofBytes bs, by rw [hit]; rfl⟩
  · exact Or.inr (by rw [miss]; rfl)

theorem getVal_cases (leaf : b.info.nodetype = btreeLeafNode) (data : b.data = some d) {i : SizeT}
    (lt : i < b.info.numkeys) :
    (∃ v, b.getVal i = .ok (.ok v)) ∨ b.getVal i = .error .outOfBounds := by
  simp only [getVal, resolveVal, if_pos leaf, if_pos lt, Runs.ok_bind]
  rcases fetch_cases data
    (4 + (i * (b.info.keysize + b.info.valuesize)).toNat + b.info.keysize.toNat)
    b.info.valuesize.toNat with ⟨bs, hit⟩ | miss
  · exact Or.inl ⟨Block.ofBytes bs, by rw [hit]; rfl⟩
  · exact Or.inr (by rw [miss]; rfl)

theorem wordOfBytes_isSome {bs : List ByteT} (h : bs.length = 4) : ∃ w, wordOfBytes bs = some w := by
  match bs, h with
  | [a, b, c, d], _ => exact ⟨_, rfl⟩

/-- The pointer of a leaf lies in front of the first key. -/
theorem getPtr_leaf_cases (leaf : b.info.nodetype = btreeLeafNode) (data : b.data = some d) :
    (∃ p, b.getPtr 0 = .ok (.ok p)) ∨
      b.getPtr 0 = .error .outOfBounds ∧ ∀ k, b.getKey 0 ≠ .ok (.ok k) := by
  have resolve : b.resolvePtr 0 = .ok (b.pointer 0) := by
    simp only [resolvePtr, if_neg (Interior.not_leaf leaf), if_pos leaf, if_true]
  simp only [getPtr, resolve, Runs.ok_bind]
  by_cases room : 4 ≤ d.length
  · have four : (d.take 4).length = 4 := by rw [List.length_take]; omega
    obtain ⟨w, word⟩ := wordOfBytes_isSome four
    have hit : bytesAt d 0 4 = some (d.take 4) := if_pos (by omega)
    exact Or.inl ⟨w, by simp only [fetch_ok data hit, Runs.ok_bind, word, inBounds, Runs.pure_eq_ok]⟩
  · have miss (pos len : Nat) (le : 4 ≤ pos + len) : bytesAt d pos len = none := if_neg (by omega)
    have fetched (pos len : Nat) (le : 4 ≤ pos + len) :
        b.fetch (b.pointer pos) len = .error .outOfBounds := by
      simp only [pointer, data, reduceCtorEq, false_and, if_false, fetch, miss pos len le, inBounds,
        Except.map]
    refine Or.inr ⟨by simp only [fetched 0 4 le_rfl, Runs.error_bind], ?_⟩
    intro k
    simp only [getKey, resolveKey, if_neg (Interior.not_leaf leaf), if_pos leaf]
    split_ifs
    · rw [Runs.ok_bind, fetched _ _ (by omega), Runs.error_bind]
      simp
    · simp

end BTreeNode

namespace BTreeIndex

variable {b : BTreeNode} {d : List ByteT}

/-- One entry of a leaf behind what is written in front of it, and the rest of the loop. -/
def printPair (b : BTreeNode) (dt : BTreeDisplayType) (offset : SizeT) (front : List ByteT)
    (rest : Except Fault (ErrorT × List ByteT)) : Except Fault (ErrorT × List ByteT) := do
  let o := if dt = .sortedKeyval then front ++ text "(" else front
  match ← b.getKey offset with
  | .error rc => return (rc, o)
  | .ok key =>
      let o := o ++ key.data ++ text (if dt = .sortedKeyval then "," else " ")
      match ← b.getVal offset with
      | .error rc => return (rc, o)
      | .ok value =>
          let o := o ++ value.data ++ text (if dt = .sortedKeyval then ")\n" else " ")
          let (rc, o') ← rest
          return (rc, o ++ o')

/-- Only the first entry has the pointer in front of it. -/
theorem printPairs_lead (leaf : b.info.nodetype = btreeLeafNode) (data : b.data = some d)
    (dt : BTreeDisplayType) (offset : SizeT) (count : Nat) :
    (∃ front, printPairs b dt offset (count + 1) =
        printPair b dt offset front (printPairs b dt (offset + 1) count)) ∨
      (¬ b.HasPair offset ∧ printPairs b dt offset (count + 1) = .error .outOfBounds) := by
  by_cases first : offset = 0
  · subst first
    rcases getPtr_leaf_cases leaf data with ⟨p, hit⟩ | ⟨miss, nokey⟩
    · refine Or.inl ⟨if dt = .sortedKeyval then [] else text s!"*{p.toNat} ", ?_⟩
      simp only [printPairs, if_true, hit, Runs.ok_bind, ne_eq, not_true, if_false]
      rfl
    · refine Or.inr ⟨fun pair => pair.1.elim nokey, ?_⟩
      simp only [printPairs, if_true, miss, Runs.error_bind]
  · refine Or.inl ⟨[], ?_⟩
    simp only [printPairs, if_neg first, Runs.ok_bind, ne_eq, not_true, if_false]
    rfl

/-- One turn of the loop over the entries of a leaf: the entry is printed and the
loop goes on, or the process ends outside the block. -/
theorem printPairs_turn (leaf : b.info.nodetype = btreeLeafNode) (data : b.data = some d)
    (dt : BTreeDisplayType) {offset : SizeT} (lt : offset < b.info.numkeys) (count : Nat) :
    (b.HasPair offset ∧ ∃ o, printPairs b dt offset (count + 1) =
        (printPairs b dt (offset + 1) count).map fun r => (r.1, o ++ r.2)) ∨
      (¬ b.HasPair offset ∧ printPairs b dt offset (count + 1) = .error .outOfBounds) := by
  rcases printPairs_lead leaf data dt offset count with ⟨front, turn⟩ | ended
  · rw [turn]
    rcases getKey_cases leaf data lt with ⟨k, key⟩ | key
    · rcases getVal_cases leaf data lt with ⟨v, value⟩ | value
      · refine Or.inl ⟨⟨⟨k, key⟩, v, value⟩, ?_⟩
        simp only [printPair, key, value, Runs.ok_bind]
        cases printPairs b dt (offset + 1) count with
        | error f => exact ⟨[], rfl⟩
        | ok r => exact ⟨_, rfl⟩
      · refine Or.inr ⟨?_, by simp only [printPair, key, value, Runs.ok_bind, Runs.error_bind]⟩
        rintro ⟨-, w, hit⟩
        rw [value] at hit
        cases hit
    · refine Or.inr ⟨?_, by simp only [printPair, key, Runs.error_bind]⟩
      rintro ⟨⟨w, hit⟩, -⟩
      rw [key] at hit
      cases hit
  · exact Or.inr ended

/-- The loop over the entries of a leaf prints them all or ends outside the block. -/
theorem printPairs_cases (leaf : b.info.nodetype = btreeLeafNode) (data : b.data = some d)
    (dt : BTreeDisplayType) (offset : SizeT) (count : Nat)
    (left : offset.toNat + count = b.info.numkeys.toNat) :
    ((∀ i, offset ≤ i → i < b.info.numkeys → b.HasPair i) ∧
        ∃ o, printPairs b dt offset count = .ok (.noError, o)) ∨
      (¬ (∀ i, offset ≤ i → i < b.info.numkeys → b.HasPair i) ∧
        printPairs b dt offset count = .error .outOfBounds) := by
  induction count generalizing offset with
  | zero =>
      refine Or.inl ⟨fun i le lt => ?_, [], rfl⟩
      rw [BitVec.le_def] at le
      rw [BitVec.lt_def] at lt
      omega
  | succ count ih =>
      have bound := b.info.numkeys.isLt
      have lt : offset < b.info.numkeys := BitVec.lt_def.mpr (by omega)
      have next : (offset + 1).toNat = offset.toNat + 1 := succ_toNat (n := count) (by omega)
      have later (i : SizeT) : offset + 1 ≤ i ↔ offset ≤ i ∧ i ≠ offset := by
        rw [BitVec.le_def, BitVec.le_def, next, ne_eq, BitVec.toNat_inj.symm]
        omega
      rcases printPairs_turn leaf data dt lt count with ⟨pair, o, turn⟩ | ⟨nopair, fault⟩
      · rw [turn]
        rcases ih (offset + 1) (by omega) with ⟨pairs, o', rest⟩ | ⟨missing, rest⟩
        · refine Or.inl ⟨fun i le below => ?_, o ++ o', by rw [rest]; rfl⟩
          by_cases same : i = offset
          · exact same ▸ pair
          · exact pairs i ((later i).mpr ⟨le, same⟩) below
        · refine Or.inr ⟨fun all => missing ?_, by rw [rest]; rfl⟩
          exact fun i le below => all i ((later i).mp le).1 below
      · exact Or.inr ⟨fun all => nopair (all offset le_rfl lt), fault⟩

/-- The pointers and keys of an inner node are printed without leaving the block. -/
theorem printPtrs_laid (laid : b.Laid) (offset : SizeT) (count : Nat)
    (left : offset.toNat + count = b.info.numkeys.toNat) :
    ∃ o, printPtrs b offset count = .ok (.noError, o) := by
  induction count generalizing offset with
  | zero =>
      obtain ⟨p, hit⟩ := laid.ptrs offset (BitVec.le_def.mpr (by omega))
      exact ⟨_, by rw [printPtrs, hit]; rfl⟩
  | succ count ih =>
      have bound := b.info.numkeys.isLt
      have lt : offset < b.info.numkeys := BitVec.lt_def.mpr (by omega)
      have next : (offset + 1).toNat = offset.toNat + 1 := succ_toNat (n := count) (by omega)
      obtain ⟨p, hit⟩ := laid.ptrs offset lt.le
      obtain ⟨k, key⟩ := laid.keys offset lt
      obtain ⟨o, rest⟩ := ih (offset + 1) (by omega)
      exact ⟨_, by simp only [printPtrs, hit, key, rest, Runs.ok_bind]; rfl⟩

theorem printNode_laid (n : SizeT) (dt : BTreeDisplayType) (interior : b.info.Interior)
    (laid : b.Laid) : ∃ o, printNode n b dt = .ok (.noError, o) := by
  obtain ⟨o, ptrs⟩ := printPtrs_laid laid 0 b.info.numkeys.toNat (by simp)
  simp only [printNode, if_pos interior]
  by_cases sorted : dt = .sortedKeyval
  · exact ⟨_, by rw [if_pos sorted]; rfl⟩
  · exact ⟨_, by rw [if_neg sorted, ptrs]; rfl⟩

theorem printNode_pairs (n : SizeT) (dt : BTreeDisplayType) (leaf : b.info.nodetype = btreeLeafNode)
    (data : b.data = some d) :
    (b.Legible ∧ ∃ o, printNode n b dt = .ok (.noError, o)) ∨
      (¬ b.Legible ∧ printNode n b dt = .error .outOfBounds) := by
  have all : b.Legible ↔ ∀ i, 0 ≤ i → i < b.info.numkeys → b.HasPair i :=
    ⟨fun h i _ => h i, fun h i => h i (BitVec.le_def.mpr (Nat.zero_le _))⟩
  rw [all]
  simp only [printNode, if_neg (Interior.not_leaf leaf), if_pos leaf]
  rcases printPairs_cases leaf data dt 0 b.info.numkeys.toNat (by simp) with
    ⟨legible, o, pairs⟩ | ⟨illegible, fault⟩
  · exact Or.inl ⟨legible, _, by rw [pairs]; rfl⟩
  · exact Or.inr ⟨illegible, by rw [fault]; rfl⟩

theorem printNode_alien (n : SizeT) (dt : BTreeDisplayType) (inner : ¬ b.info.Interior)
    (outer : b.info.nodetype ≠ btreeLeafNode) : ∃ o, printNode n b dt = .ok (.noError, o) := by
  simp only [printNode, if_neg inner, if_neg outer]
  by_cases dot : dt = .depthDot
  · exact ⟨_, by rw [if_pos dot]; rfl⟩
  · exact ⟨_, by rw [if_neg dot]; rfl⟩

/-! ## The traversal ends as the walk does -/

theorem leaf_full (leaf : b.info.nodetype = btreeLeafNode) : ¬ b.info.Blank := by
  rw [NodeMetadata.Blank, leaf]
  decide

theorem unserialize_data {node : BTreeNode} {c c' : BufferCache} {n : SizeT}
    (read : node.unserialize c n = .ok (.noError, b, c')) (full : ¬ b.info.Blank) :
    ∃ d, b.data = some d := by
  obtain ⟨failed, -⟩ | ⟨-, bs, image⟩ := BufferCache.unserialize_cases read
  · exact absurd rfl failed
  obtain ⟨d, data, -⟩ := (ofBytes_inv image).1.data full
  exact ⟨d, data⟩

theorem not_positive (zero : b.info.numkeys = 0) : ¬ b.info.numkeys > 0 := by
  rw [zero]
  exact lt_irrefl _

/-- What a traversal does that ends as `r` says: its output is left open. -/
def EndsAs (shown : Except Fault (ErrorT × List ByteT × BufferCache))
    (r : Except Fault (ErrorT × BufferCache)) : Prop :=
  ∃ o, shown = r.map fun e => (e.1, o, e.2)

/-- A traversal that needs no other block needs fuel for one. -/
theorem endsAs_of_succ {u : Memory} {dt : BTreeDisplayType} {c : BufferCache} {n : SizeT}
    {r : Except Fault (ErrorT × BufferCache)}
    (ends : ∀ fuel, EndsAs (displayInternal u dt (fuel + 1) c n) r) :
    ∃ enough, ∀ fuel, enough ≤ fuel → EndsAs (displayInternal u dt fuel c n) r := by
  refine ⟨1, fun fuel more => ?_⟩
  obtain ⟨fuel, rfl⟩ := Nat.exists_eq_add_of_le' more
  exact ends fuel

mutual

/-- With enough fuel the traversal from block `n` ends as the walk does. -/
theorem walk_display {u : Memory} (dt : BTreeDisplayType) {c : BufferCache} {n : SizeT}
    {r : Except Fault (ErrorT × BufferCache)} (walk : Walk u c n r) :
    ∃ enough, ∀ fuel, enough ≤ fuel → EndsAs (displayInternal u dt fuel c n) r := by
  match walk with
  | .unread read =>
      apply endsAs_of_succ
      intro fuel
      exact ⟨[], by simp only [displayInternal, read]; rfl⟩
  | .refused read failed =>
      apply endsAs_of_succ
      intro fuel
      exact ⟨[], by simp only [displayInternal, read, Runs.ok_bind, if_pos failed]; rfl⟩
  | .alien read inner outer =>
      apply endsAs_of_succ
      intro fuel
      obtain ⟨o, print⟩ := printNode_alien n dt inner outer
      simp only [displayInternal, read, print, Runs.ok_bind, ne_eq, not_true, if_false, if_neg inner,
        if_neg outer]
      by_cases dot : dt = .depthDot
      · exact ⟨_, by rw [if_pos dot]; rfl⟩
      · exact ⟨_, by rw [if_neg dot]; rfl⟩
  | .leaf read leaf legible =>
      apply endsAs_of_succ
      intro fuel
      obtain ⟨d, data⟩ := unserialize_data read (leaf_full leaf)
      rcases printNode_pairs n dt leaf data with ⟨-, o, print⟩ | ⟨illegible, -⟩
      · simp only [displayInternal, read, print, Runs.ok_bind, ne_eq, not_true, if_false,
          if_neg (Interior.not_leaf leaf), if_pos leaf]
        exact ⟨_, rfl⟩
      · exact absurd legible illegible
  | .overrun read leaf illegible =>
      apply endsAs_of_succ
      intro fuel
      obtain ⟨d, data⟩ := unserialize_data read (leaf_full leaf)
      rcases printNode_pairs n dt leaf data with ⟨legible, -⟩ | ⟨-, fault⟩
      · exact absurd legible illegible
      · exact ⟨[], by simp only [displayInternal, read, fault, Runs.ok_bind, ne_eq, not_true, if_false]; rfl⟩
  | .empty read interior laid zero =>
      apply endsAs_of_succ
      intro fuel
      obtain ⟨o, print⟩ := printNode_laid n dt interior laid
      simp only [displayInternal, read, print, Runs.ok_bind, ne_eq, not_true, if_false, if_pos interior,
        if_neg (not_positive zero)]
      exact ⟨_, rfl⟩
  | .node read interior laid nonzero below =>
      obtain ⟨enough, ends⟩ := walkPtrs_display dt n below
      refine ⟨enough + 1, fun fuel more => ?_⟩
      obtain ⟨fuel, rfl⟩ := Nat.exists_eq_add_of_le' more
      obtain ⟨o, print⟩ := printNode_laid n dt interior laid
      obtain ⟨o', children⟩ := ends (fuel + enough) (Nat.le_add_left _ _)
      rw [← Nat.add_assoc]
      simp only [displayInternal, read, print, Runs.ok_bind, ne_eq, not_true, if_false, if_pos interior,
        if_pos nonzero, children]
      cases r with
      | error f => exact ⟨[], rfl⟩
      | ok e => exact ⟨_, rfl⟩

theorem walkPtrs_display {u : Memory} (dt : BTreeDisplayType) (node : SizeT) {b : BTreeNode}
    {c : BufferCache} {offset : SizeT} {count : Nat} {r : Except Fault (ErrorT × BufferCache)}
    (walk : WalkPtrs u b c offset count r) :
    ∃ enough, ∀ fuel, enough ≤ fuel →
      EndsAs (displayPtrs (displayInternal u dt fuel) dt node b c offset count) r := by
  match walk with
  | .fault child below =>
      obtain ⟨enough, ends⟩ := walk_display dt below
      refine ⟨enough, fun fuel more => ?_⟩
      obtain ⟨o, shown⟩ := ends fuel more
      cases count with
      | zero => exact ⟨[], by rw [displayPtrs_zero]; simp only [child, shown, Runs.ok_bind]; rfl⟩
      | succ count => exact ⟨[], by rw [displayPtrs_succ]; simp only [child, shown, Runs.ok_bind]; rfl⟩
  | .stop child below failed =>
      obtain ⟨enough, ends⟩ := walk_display dt below
      refine ⟨enough, fun fuel more => ?_⟩
      obtain ⟨o, shown⟩ := ends fuel more
      cases count with
      | zero =>
          rw [displayPtrs_zero]
          simp only [child, shown, Except.map, Runs.ok_bind, if_pos failed]
          exact ⟨_, rfl⟩
      | succ count =>
          rw [displayPtrs_succ]
          simp only [child, shown, Except.map, Runs.ok_bind, if_pos failed]
          exact ⟨_, rfl⟩
  | .last child below =>
      obtain ⟨enough, ends⟩ := walk_display dt below
      refine ⟨enough, fun fuel more => ?_⟩
      obtain ⟨o, shown⟩ := ends fuel more
      rw [displayPtrs_zero]
      simp only [child, shown, Except.map, Runs.ok_bind, ne_eq, not_true, if_false]
      exact ⟨_, rfl⟩
  | .next child below rest =>
      obtain ⟨first, ends⟩ := walk_display dt below
      obtain ⟨second, others⟩ := walkPtrs_display dt node rest
      refine ⟨max first second, fun fuel more => ?_⟩
      obtain ⟨o, shown⟩ := ends fuel (le_trans (le_max_left _ _) more)
      obtain ⟨o', shown'⟩ := others fuel (le_trans (le_max_right _ _) more)
      rw [displayPtrs_succ]
      simp only [child, shown, shown', Except.map, Runs.ok_bind, ne_eq, not_true, if_false]
      cases r with
      | error f => exact ⟨[], rfl⟩
      | ok e => exact ⟨_, rfl⟩

end

/-! ## What a walk comes to -/

/-- A walk has one ending, as the traversal has. -/
theorem walk_unique {u : Memory} {c : BufferCache} {n : SizeT}
    {r r' : Except Fault (ErrorT × BufferCache)} (walk : Walk u c n r) (walk' : Walk u c n r') : r = r' := by
  obtain ⟨enough, ends⟩ := walk_display .depth walk
  obtain ⟨enough', ends'⟩ := walk_display .depth walk'
  obtain ⟨o, shown⟩ := ends (max enough enough') (le_max_left _ _)
  obtain ⟨o', shown'⟩ := ends' (max enough enough') (le_max_right _ _)
  rw [shown] at shown'
  cases r with
  | error f =>
      cases r' with
      | error f' =>
          cases shown'
          rfl
      | ok e' => cases shown'
  | ok e =>
      cases r' with
      | error f' => cases shown'
      | ok e' =>
          simp only [Except.map, Except.ok.injEq, Prod.mk.injEq] at shown'
          obtain ⟨code, -, cache⟩ := shown'
          exact congrArg Except.ok (Prod.ext code cache)

/-- Where a walk goes on below a node it walks over the pointers. -/
theorem walk_below {u : Memory} {c c' : BufferCache} {n : SizeT} {b : BTreeNode}
    {r : Except Fault (ErrorT × BufferCache)} (walk : Walk u c n r)
    (read : (BTreeNode.default u.info).unserialize c n = .ok (.noError, b, c'))
    (interior : b.info.Interior) (more : b.info.numkeys > 0) :
    WalkPtrs u b c' 0 b.info.numkeys.toNat r := by
  cases walk with
  | unread read' =>
      rw [read] at read'
      cases read'
  | refused read' failed =>
      rw [read] at read'
      cases read'
      exact absurd rfl failed
  | alien read' inner outer =>
      rw [read] at read'
      cases read'
      exact absurd interior inner
  | leaf read' leaf _ | overrun read' leaf _ =>
      rw [read] at read'
      cases read'
      exact absurd interior (Interior.not_leaf leaf)
  | empty read' interior' laid zero =>
      rw [read] at read'
      cases read'
      exact absurd more (not_positive zero)
  | node read' interior' laid more' below =>
      rw [read] at read'
      cases read'
      exact below

/-- A walk that ends with no error code starts with a block that can be shown. -/
theorem root_showable {u : Memory} {c : BufferCache} {n : SizeT}
    {r : Except Fault (ErrorT × BufferCache)} (walk : Walk u c n r)
    (whole : ∀ rc c', r = .ok (rc, c') → rc = .noError) :
    Showable u c n := by
  intro rc b c1 read
  cases walk with
  | unread read' =>
      rw [read] at read'
      cases read'
  | refused read' failed => exact absurd (whole _ _ rfl) failed
  | alien read' inner outer => exact absurd (whole _ _ rfl) (by decide)
  | leaf read' leaf _ | overrun read' leaf _ =>
      rw [read] at read'
      cases read'
      exact ⟨rfl, Or.inr leaf⟩
  | empty read' interior _ _ | node read' interior _ _ _ =>
      rw [read] at read'
      cases read'
      exact ⟨rfl, Or.inl interior⟩

mutual

theorem comes_showable {u : Memory} {c c1 : BufferCache} {n m : SizeT}
    {r : Except Fault (ErrorT × BufferCache)} (comes : Comes u c n c1 m) (walk : Walk u c n r)
    (whole : ∀ rc c', r = .ok (rc, c') → rc = .noError) : Showable u c1 m := by
  match comes with
  | .here => exact root_showable walk whole
  | .under read interior more ptrs =>
      exact comesPtrs_showable ptrs (walk_below walk read interior more) whole

theorem comesPtrs_showable {u : Memory} {c c1 : BufferCache} {m : SizeT} {b : BTreeNode}
    {offset : SizeT} {count : Nat} {r : Except Fault (ErrorT × BufferCache)}
    (comes : ComesPtrs u b c offset count c1 m) (walk : WalkPtrs u b c offset count r)
    (whole : ∀ rc c', r = .ok (rc, c') → rc = .noError) : Showable u c1 m := by
  match comes with
  | .child child below =>
      cases walk with
      | fault child' walk =>
          rw [child] at child'
          cases child'
          exact comes_showable below walk whole
      | stop child' walk failed => exact absurd (whole _ _ rfl) failed
      | last child' walk =>
          rw [child] at child'
          cases child'
          exact comes_showable below walk whole
      | next child' walk rest =>
          rw [child] at child'
          cases child'
          exact comes_showable below walk (by rintro rc c' ⟨⟩; rfl)
  | .later child before rest =>
      cases walk with
      | fault child' walk =>
          rw [child] at child'
          cases child'
          cases walk_unique before walk
      | stop child' walk failed => exact absurd (whole _ _ rfl) failed
      | next child' walk rest' =>
          rw [child] at child'
          cases child'
          cases walk_unique before walk
          exact comesPtrs_showable rest rest' whole

end

mutual

/-- A walk that ends with an error code has come to a block that cannot be shown. -/
theorem walk_stopped {u : Memory} {c c' : BufferCache} {n : SizeT} {rc : ErrorT}
    {r : Except Fault (ErrorT × BufferCache)} (walk : Walk u c n r) (ends : r = .ok (rc, c'))
    (failed : rc ≠ .noError) : ∃ c1 m, Comes u c n c1 m ∧ ¬ Showable u c1 m := by
  match walk with
  | .refused read refused => exact ⟨c, n, .here, fun shows => refused (shows _ _ _ read).1⟩
  | .alien read inner outer =>
      refine ⟨c, n, .here, fun shows => ?_⟩
      rcases (shows _ _ _ read).2 with interior | leaf
      · exact inner interior
      · exact outer leaf
  | .unread _ | .overrun _ _ _ => cases ends
  | .leaf _ _ _ | .empty _ _ _ _ =>
      cases ends
      exact absurd rfl failed
  | .node read interior _ more below =>
      obtain ⟨c1, m, comes, bad⟩ := walkPtrs_stopped below ends failed
      exact ⟨c1, m, .under read interior more comes, bad⟩

theorem walkPtrs_stopped {u : Memory} {c c' : BufferCache} {b : BTreeNode} {offset : SizeT}
    {count : Nat} {rc : ErrorT} {r : Except Fault (ErrorT × BufferCache)}
    (walk : WalkPtrs u b c offset count r) (ends : r = .ok (rc, c')) (failed : rc ≠ .noError) :
    ∃ c1 m, ComesPtrs u b c offset count c1 m ∧ ¬ Showable u c1 m := by
  match walk with
  | .fault _ _ => cases ends
  | .stop child below _ =>
      obtain ⟨c1, m, comes, bad⟩ := walk_stopped below ends failed
      exact ⟨c1, m, .child child comes, bad⟩
  | .last _ _ =>
      cases ends
      exact absurd rfl failed
  | .next child before rest =>
      obtain ⟨c1, m, comes, bad⟩ := walkPtrs_stopped rest ends failed
      exact ⟨c1, m, .later child before comes, bad⟩

end

/-! ## What the caller is told -/

variable {keysize valuesize : SizeT}

end BTreeIndex

end BTreeLab
