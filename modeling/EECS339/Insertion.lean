import EECS339.Lookup
import EECS339.Formatting

/-!
# Insertion into one node

What `Insert` does once it has loaded a node. With room it moves keys up into a slot
that the node does not have yet, which fails an assertion; without room it clears the
copy of the node from a null pointer.
-/
namespace BTreeLab
open Words BTreeNode

/-! ## Nodes with their contents -/

/-- `PTR KEY VALUE KEY VALUE …` in a data area of the size the node has. -/
def LeafHolds (b : BTreeNode) (es : List (List ByteT × List ByteT)) : Prop :=
  b.info.nodetype = btreeLeafNode ∧ b.info.numkeys.toNat = es.length ∧
    ∃ ptr bs, b.data = some (wordBytes ptr ++ bs) ∧
      (wordBytes ptr ++ bs).length = b.info.getNumDataBytes.toNat ∧
      PairsLayout b.info.keysize b.info.valuesize es bs

/-- `KEY PTR KEY PTR …`, what follows the first pointer of an interior node. -/
def SeparatorsLayout (keysize : SizeT) : List (List ByteT × SizeT) → List ByteT → Prop
  | [], _ => True
  | (k, p) :: rest, bs =>
      ∃ tail, bs = k ++ (wordBytes p ++ tail) ∧ k.length = keysize.toNat ∧
        SeparatorsLayout keysize rest tail

def InteriorHolds (b : BTreeNode) (first : SizeT) (seps : List (List ByteT × SizeT)) : Prop :=
  b.info.Interior ∧ b.info.numkeys.toNat = seps.length ∧
    ∃ bs, b.data = some (wordBytes first ++ bs) ∧
      (wordBytes first ++ bs).length = b.info.getNumDataBytes.toNat ∧
      SeparatorsLayout b.info.keysize seps bs

/-- The keys are those that `GetKey` yields. -/
def KeysAt (b : BTreeNode) (keys : List (List ByteT)) : Prop :=
  b.info.numkeys.toNat = keys.length ∧
    ∀ i k, keys[i]? = some k → k.length = b.info.keysize.toNat ∧
      b.getKey (BitVec.ofNat 32 i) = .ok (.ok (Block.ofBytes k))

variable {b : BTreeNode} {es : List (List ByteT × List ByteT)} {first : SizeT}
  {seps : List (List ByteT × SizeT)} {i : Nat}

theorem pairs_at {keysize valuesize : SizeT} {bs : List ByteT} {e : List ByteT × List ByteT}
    (pairs : PairsLayout keysize valuesize es bs) (at_i : es[i]? = some e) :
    ∃ front tail, bs = front ++ (e.1 ++ (e.2 ++ tail)) ∧
      front.length = i * (keysize.toNat + valuesize.toNat) ∧ e.1.length = keysize.toNat ∧
      e.2.length = valuesize.toNat := by
  induction es generalizing i bs with
  | nil => cases at_i
  | cons f es ih =>
      obtain ⟨tail, rfl, sizeK, sizeV, pairs⟩ := pairs
      cases i with
      | zero =>
          cases at_i
          exact ⟨[], tail, rfl, by simp, sizeK, sizeV⟩
      | succ i =>
          obtain ⟨front, rest, rfl, pos, sizes⟩ := ih pairs at_i
          refine ⟨f.1 ++ (f.2 ++ front), rest, by simp only [List.append_assoc], ?_, sizes⟩
          rw [List.length_append, List.length_append, sizeK, sizeV, pos]
          ring

theorem separators_at (first : SizeT) {keysize : SizeT} {bs : List ByteT} {e : List ByteT × SizeT}
    (layout : SeparatorsLayout keysize seps bs) (at_i : seps[i]? = some e) :
    ∃ front ptr tail, wordBytes first ++ bs = front ++ (wordBytes ptr ++ (e.1 ++ tail)) ∧
      front.length = i * (4 + keysize.toNat) ∧ e.1.length = keysize.toNat := by
  induction seps generalizing first i bs with
  | nil => cases at_i
  | cons f seps ih =>
      obtain ⟨tail, rfl, size, layout⟩ := layout
      cases i with
      | zero =>
          cases at_i
          exact ⟨[], first, _, rfl, by simp, size⟩
      | succ i =>
          obtain ⟨front, ptr, rest, eq, pos, sized⟩ := ih f.2 layout at_i
          refine ⟨wordBytes first ++ (f.1 ++ front), ptr, rest, ?_, ?_, sized⟩
          · simp only [eq, List.append_assoc]
          · rw [List.length_append, List.length_append, wordBytes_length, size, pos]
            ring

/-- Positions below the number of keys are offsets of the code. -/
theorem offset_lt {n : Nat} (count : b.info.numkeys.toNat = n) (lt : i < n) :
    (BitVec.ofNat 32 i).toNat = i ∧ BitVec.ofNat 32 i < b.info.numkeys := by
  have := b.info.numkeys.isLt
  have same : (BitVec.ofNat 32 i).toNat = i := by
    rw [BitVec.toNat_ofNat]
    exact Nat.mod_eq_of_lt (by omega)
  exact ⟨same, BitVec.lt_def.mpr (by omega)⟩

theorem LeafHolds.pairAt (h : LeafHolds b es) {e : List ByteT × List ByteT}
    (at_i : es[i]? = some e) :
    b.getKey (BitVec.ofNat 32 i) = .ok (.ok (Block.ofBytes e.1)) ∧
      b.getVal (BitVec.ofNat 32 i) = .ok (.ok (Block.ofBytes e.2)) ∧
      e.1.length = b.info.keysize.toNat := by
  obtain ⟨leaf, count, ptr, bs, data, size, pairs⟩ := h
  obtain ⟨lt, -⟩ := List.getElem?_eq_some_iff.mp at_i
  obtain ⟨same, below⟩ := offset_lt count lt
  obtain ⟨front, tail, rfl, pos, sizes⟩ := pairs_at pairs at_i
  have small := b.info.getNumDataBytes.isLt
  rw [← size] at small
  rw [← same] at pos
  exact ⟨getKey_leaf leaf below data pos sizes small, getVal_leaf leaf below data pos sizes small,
    sizes.1⟩

theorem LeafHolds.keysAt (h : LeafHolds b es) : KeysAt b (es.map Prod.fst) := by
  refine ⟨by rw [List.length_map]; exact h.2.1, ?_⟩
  intro i k at_i
  rw [List.getElem?_map, Option.map_eq_some_iff] at at_i
  obtain ⟨e, at_i, rfl⟩ := at_i
  obtain ⟨hkey, -, size⟩ := h.pairAt at_i
  exact ⟨size, hkey⟩

theorem InteriorHolds.keysAt (h : InteriorHolds b first seps) : KeysAt b (seps.map Prod.fst) := by
  obtain ⟨interior, count, bs, data, size, layout⟩ := h
  refine ⟨by rw [List.length_map]; exact count, ?_⟩
  intro i k at_i
  rw [List.getElem?_map, Option.map_eq_some_iff] at at_i
  obtain ⟨e, at_i, rfl⟩ := at_i
  obtain ⟨lt, -⟩ := List.getElem?_eq_some_iff.mp at_i
  obtain ⟨same, below⟩ := offset_lt count lt
  obtain ⟨front, ptr, tail, eq, pos, sized⟩ := separators_at first layout at_i
  have small := b.info.getNumDataBytes.isLt
  rw [← size, eq] at small
  rw [eq] at data
  rw [← same] at pos
  exact ⟨sized, getKey_interior interior below data pos sized small⟩

namespace BTreeIndex

variable {u : Memory} {t : BTreeIndex} {key : KeyT} {keys : List (List ByteT)}
  {shift : BTreeNode → SizeT → Nat → Except Fault BTreeNode}

/-! ## Room for one more -/

/-- The slot behind the last key does not exist: `SetKey` fails its assertion. -/
theorem setKey_numkeys (slots : b.info.Interior ∨ b.info.nodetype = btreeLeafNode) (k : KeyT) :
    b.setKey b.info.numkeys k = .error .assertion := by
  rcases slots with interior | leaf
  · simp only [BTreeNode.setKey, resolveKey, if_pos interior, lt_irrefl, if_false, Runs.error_bind]
  · simp only [BTreeNode.setKey, resolveKey, if_neg (Interior.not_leaf leaf), if_pos leaf, lt_irrefl,
      if_false, Runs.error_bind]

theorem last_offset {n : Nat} (count : b.info.numkeys.toNat = n) (pos : 0 < n) :
    b.info.numkeys - 1 = BitVec.ofNat 32 (n - 1) := by
  apply BitVec.eq_of_toNat_eq
  have one : (1 : SizeT).toNat = 1 := rfl
  have := b.info.numkeys.isLt
  rw [(offset_lt count (by omega : n - 1 < n)).1, BitVec.toNat_sub, one]
  omega

theorem getElem?_last {α : Type} {l : List α} (nonempty : l ≠ []) :
    l[l.length - 1]? = some (l.getLast nonempty) := by
  rw [← List.getLast?_eq_getElem?, List.getLast?_eq_some_getLast]

theorem shiftKeys_fails (h : KeysAt b keys) (interior : b.info.Interior) (nonempty : keys ≠ [])
    (count : Nat) :
    shiftKeys b b.info.numkeys (count + 1) = .error .assertion := by
  obtain ⟨-, hkey⟩ := h.2 _ _ (getElem?_last nonempty)
  rw [← last_offset h.1 (List.length_pos_iff.mpr nonempty)] at hkey
  simp only [shiftKeys, hkey, Runs.ok_bind, setKey_numkeys (Or.inl interior), Runs.error_bind]

theorem shiftKeyVals_fails (h : LeafHolds b es) (nonempty : es ≠ []) (count : Nat) :
    shiftKeyVals b b.info.numkeys (count + 1) = .error .assertion := by
  obtain ⟨hkey, hval, -⟩ := h.pairAt (getElem?_last nonempty)
  rw [← last_offset h.2.1 (List.length_pos_iff.mpr nonempty)] at hkey hval
  simp only [shiftKeyVals, getKeyVal, setKeyVal, hkey, hval, Runs.ok_bind, Runs.pure_eq_ok, Except.map,
    setKey_numkeys (Or.inr h.1), Runs.error_bind]

/-- Unless the key sought is the only one, the scan comes to a key that asks for a
shift: a smaller one, or the last one if that differs. -/
theorem insertScan_fails (h : KeysAt b keys) (keyed : key.length = b.info.keysize.toNat)
    (fails : ∀ count, shift b b.info.numkeys (count + 1) = .error .assertion)
    (sorted : keys.Pairwise (· < ·)) (i : Nat) (rest : List (List ByteT)) (left : keys.drop i = rest)
    (nonempty : rest ≠ []) (other : rest ≠ [key.data]) :
    insertScan shift b key (BitVec.ofNat 32 i) rest.length = .error .assertion := by
  induction rest generalizing i with
  | nil => exact absurd rfl nonempty
  | cons k rest ih =>
      have at_i : keys[i]? = some k := by
        rw [← List.head?_drop, left]
        rfl
      have next : keys.drop (i + 1) = rest := by
        rw [← List.drop_drop, left]
        rfl
      have total : keys.length = i + (rest.length + 1) := by
        have := congrArg List.length left
        have := (List.getElem?_eq_some_iff.mp at_i).1
        simp only [List.length_drop, List.length_cons] at *
        omega
      obtain ⟨size, hkey⟩ := h.2 i k at_i
      obtain ⟨same, below⟩ := offset_lt h.1 (List.getElem?_eq_some_iff.mp at_i).1
      have length : (Block.ofBytes k).length = key.length := size.trans keyed.symm
      have heq : (Block.ofBytes k).eq key = .ok (decide (k = key.data)) := Block.eq_of_same_length length
      have hlt : (Block.ofBytes k).lt key = .ok (decide (k < key.data)) := Block.lt_of_same_length length
      have bound := b.info.numkeys.isLt
      have succ : BitVec.ofNat 32 i + 1 = BitVec.ofNat 32 (i + 1) := by
        rw [BitVec.ofNat_add]
        rfl
      obtain ⟨steps, hsteps⟩ : ∃ steps, b.info.numkeys.toNat - (BitVec.ofNat 32 i).toNat = steps + 1 :=
        ⟨rest.length, by rw [same, h.1]; omega⟩
      have later : rest ≠ [] → k = key.data ∨ key.data < k →
          insertScan shift b key (BitVec.ofNat 32 (i + 1)) rest.length = .error .assertion := by
        intro more atLeast
        apply ih (i + 1) next more
        intro only
        have order : (k :: rest).Pairwise (· < ·) := left ▸ sorted.sublist (List.drop_sublist i keys)
        rw [only, List.pairwise_cons] at order
        have less := order.1 key.data (List.mem_singleton_self _)
        rcases atLeast with same | greater
        · exact absurd (same ▸ less) (lt_irrefl _)
        · exact absurd (less.trans greater) (lt_irrefl _)
      simp only [List.length_cons, insertScan, hkey, Runs.ok_bind, heq, hlt, decide_eq_true_eq, hsteps,
        fails, Runs.error_bind, succ]
      by_cases found : k = key.data
      · rw [if_pos found]
        refine later (fun empty => other ?_) (Or.inl found)
        rw [empty, found]
      · rw [if_neg found]
        split_ifs with asks
        · rfl
        · simp only [Bool.or_eq_true, decide_eq_true_eq, not_or, not_lt] at asks
          refine later (fun empty => asks.1 ?_) (Or.inr (lt_of_le_of_ne asks.2 (Ne.symm found)))
          rw [last_offset h.1 (by omega), total, empty]
          rfl

/-- The loop only passes over a key that is the only one. -/
theorem insertScan_only (h : KeysAt b [key.data]) :
    insertScan shift b key (BitVec.ofNat 32 0) 1 = .ok (.noError, b) := by
  obtain ⟨-, hkey⟩ := h.2 0 key.data rfl
  have heq : (Block.ofBytes key.data).eq key = .ok (decide (key.data = key.data)) :=
    Block.eq_of_same_length rfl
  simp only [insertScan, hkey, Runs.ok_bind, heq, decide_true, if_true]

/-- The cases of the `switch` on the node that `Insert` has loaded, up to the end of
the branch taken. -/
def insertLeaf (u : Memory) (t : BTreeIndex) (b : BTreeNode) (key : KeyT) :
    Except Fault (ErrorT × BTreeNode) := do
  insertCase u shiftKeyVals (← b.info.getNumSlotsAsLeaf) t b key

def insertInterior (u : Memory) (t : BTreeIndex) (b : BTreeNode) (key : KeyT) :
    Except Fault (ErrorT × BTreeNode) :=
  insertCase u shiftKeys b.info.getNumSlotsAsInterior t b key

/-- What the leaf branch is to do with a new pair: the node, written back to block
`n`, holds the pairs with the new one in the order of the keys. A key that is there
already leaves the keys alone. The branch changes no block, so what `n` holds
afterwards is what it holds in `t`. -/
def LeafInsertion (u : Memory) (t : BTreeIndex) (n : SizeT) (b : BTreeNode)
    (es : List (List ByteT × List ByteT)) (key : KeyT) (value : ValueT) : Prop :=
  ∃ rc b' es', insertLeaf u t b key = .ok (rc, b') ∧ LeafHolds b' es' ∧
    if key.data ∈ es.map Prod.fst then es'.map Prod.fst = es.map Prod.fst
    else es'.Perm ((key.data, value.data) :: es) ∧ (es'.map Prod.fst).Pairwise (· < ·) ∧
      t.buffercache.nodeAt n = .ok b'

/-- The interior branch puts the separator in its place with the new child behind it,
and every old child stays between its separators. -/
def InteriorInsertion (u : Memory) (t : BTreeIndex) (n : SizeT) (b : BTreeNode) (first : SizeT)
    (seps : List (List ByteT × SizeT)) (key : KeyT) (child : SizeT) : Prop :=
  ∃ rc b' before after, insertInterior u t b key = .ok (rc, b') ∧ seps = before ++ after ∧
    InteriorHolds b' first (before ++ (key.data, child) :: after) ∧
    ((before ++ (key.data, child) :: after).map Prod.fst).Pairwise (· < ·) ∧
    t.buffercache.nodeAt n = .ok b'

/-- The free slots are counted in an `int`. -/
theorem room_toInt {slots count : SizeT} (room : count < slots) :
    0 < (slots - count).toInt ↔ slots.toNat - count.toNat < 2 ^ 31 := by
  have lt := BitVec.lt_def.mp room
  have := slots.isLt
  rw [BitVec.toInt_eq_toNat_cond, BitVec.toNat_sub]
  split_ifs <;> omega

theorem insertSplit_never (r : ErrorT × BTreeIndex) : insertSplit u t ≠ .ok r := by
  unfold insertSplit
  cases t.allocateNode u <;> simp

/-- A branch with a new key, or one of several keys: it ends with a fault, or the node
was empty and stays so. -/
theorem insertCase_ok {slots : SizeT} {rc : ErrorT} {b' : BTreeNode} (h : KeysAt b keys)
    (keyed : key.length = b.info.keysize.toNat) (sorted : keys.Pairwise (· < ·))
    (fails : keys ≠ [] → ∀ count, shift b b.info.numkeys (count + 1) = .error .assertion)
    (room : b.info.numkeys < slots) (ran : insertCase u shift slots t b key = .ok (rc, b')) :
    slots.toNat - b.info.numkeys.toNat < 2 ^ 31 ∧ b' = b ∧ (keys = [] ∨ keys = [key.data]) := by
  unfold insertCase at ran
  split_ifs at ran with free
  · refine ⟨(room_toInt room).mp free, ?_⟩
    by_cases empty : keys = []
    · subst empty
      rw [h.1] at ran
      cases ran
      exact ⟨rfl, Or.inl rfl⟩
    · by_cases only : keys = [key.data]
      · subst only
        rw [h.1, List.length_singleton] at ran
        have pass : insertScan shift b key 0 1 = .ok (.noError, b) := insertScan_only h
        rw [pass] at ran
        cases ran
        exact ⟨rfl, Or.inr rfl⟩
      · have fault : insertScan shift b key 0 keys.length = .error .assertion :=
          insertScan_fails h keyed (fails empty) sorted 0 keys List.drop_zero empty only
        rw [h.1, fault] at ran
        cases ran
  · cases split : insertSplit u t with
    | error e => simp [split] at ran
    | ok r => exact absurd split (insertSplit_never r)

theorem insertCase_only {slots : SizeT} (h : KeysAt b [key.data]) (room : b.info.numkeys < slots)
    (free : slots.toNat - b.info.numkeys.toNat < 2 ^ 31) :
    insertCase u shift slots t b key = .ok (.noError, b) := by
  have pass : insertScan shift b key 0 1 = .ok (.noError, b) := insertScan_only h
  rw [insertCase, if_pos ((room_toInt room).mpr free), h.1, List.length_singleton, pass]

theorem leafInsertion_iff {slots n : SizeT} {value : ValueT} (h : LeafHolds b es)
    (sorted : (es.map Prod.fst).Pairwise (· < ·)) (hslots : b.info.getNumSlotsAsLeaf = .ok slots)
    (room : b.info.numkeys < slots) (keyed : key.length = b.info.keysize.toNat) :
    LeafInsertion u t n b es key value ↔
      es.map Prod.fst = [key.data] ∧ slots.toNat - b.info.numkeys.toNat < 2 ^ 31 := by
  have branch : insertLeaf u t b key = insertCase u shiftKeyVals slots t b key := by
    rw [insertLeaf, hslots]
    rfl
  constructor
  · rintro ⟨rc, b', es', ran, holds, outcome⟩
    rw [branch] at ran
    obtain ⟨free, rfl, empty | only⟩ := insertCase_ok h.keysAt keyed sorted
      (fun some => shiftKeyVals_fails h fun none => some (by rw [none]; rfl)) room ran
    · have none : es = [] := List.map_eq_nil_iff.mp empty
      subst none
      rw [if_neg (by simp)] at outcome
      have length := outcome.1.length_eq
      rw [← holds.2.1, h.2.1] at length
      cases length
    · exact ⟨only, free⟩
  · rintro ⟨only, free⟩
    refine ⟨.noError, b, es, ?_, h, ?_⟩
    · rw [branch]
      exact insertCase_only (only ▸ h.keysAt) room free
    · rw [if_pos (by rw [only]; exact List.mem_singleton_self _)]

theorem interiorInsertion_never {n child : SizeT} (h : InteriorHolds b first seps)
    (sorted : (seps.map Prod.fst).Pairwise (· < ·))
    (room : b.info.numkeys < b.info.getNumSlotsAsInterior)
    (keyed : key.length = b.info.keysize.toNat) (absent : key.data ∉ seps.map Prod.fst) :
    ¬ InteriorInsertion u t n b first seps key child := by
  rintro ⟨rc, b', before, after, ran, rfl, holds, -⟩
  obtain ⟨-, rfl, empty | only⟩ := insertCase_ok h.keysAt keyed sorted
    (fun some => shiftKeys_fails h.keysAt h.1 some) room ran
  · have count := h.2.1
    rw [holds.2.1] at count
    simp at count
  · rw [only] at absent
    exact absent (List.mem_singleton_self _)

/-- The leaf branch does its part exactly when the key is the only one of the leaf (and
the free slots fit an `int`); the interior branch never takes a new separator. -/
theorem insertRoom_iff (u : Memory) (t : BTreeIndex) (n : SizeT) (b : BTreeNode) (key : KeyT)
    (keyed : key.length = b.info.keysize.toNat) :
    (∀ es slots (value : ValueT), LeafHolds b es → (es.map Prod.fst).Pairwise (· < ·) →
      b.info.getNumSlotsAsLeaf = .ok slots → b.info.numkeys < slots →
      value.length = b.info.valuesize.toNat →
      (LeafInsertion u t n b es key value ↔
        es.map Prod.fst = [key.data] ∧ slots.toNat - b.info.numkeys.toNat < 2 ^ 31)) ∧
    ∀ first seps child, InteriorHolds b first seps → (seps.map Prod.fst).Pairwise (· < ·) →
      b.info.numkeys < b.info.getNumSlotsAsInterior → key.data ∉ seps.map Prod.fst →
      ¬ InteriorInsertion u t n b first seps key child :=
  ⟨fun _ _ _ h sorted hslots room _ => leafInsertion_iff h sorted hslots room keyed,
    fun _ _ _ h sorted room absent => interiorInsertion_never h sorted room keyed absent⟩

theorem leafPage_holds (k v : ByteT) : LeafHolds (leafPage k v) [([k], [v])] := by
  obtain ⟨d, data, size⟩ := (leafPage_wellSized k v).data (by simp only [leafPage]; decide)
  cases data
  exact ⟨rfl, rfl, 0, _, rfl, size, _, rfl, rfl, rfl, trivial⟩

theorem rootPage_holds : InteriorHolds rootPage 2 [([1], 3)] := by
  obtain ⟨d, data, size⟩ := rootPage_wellSized.data (by decide)
  cases data
  exact ⟨Or.inr rfl, rfl, _, rfl, size, _, rfl, rfl, trivial⟩

def smallIndex : BTreeIndex :=
  make zeroMemory 1 1 (BufferCache.make (DiskSystem.make .small DiskSystem.smallConfig ByteFile.empty) 4)

/-- A leaf that has the key alone is left as it is; the root takes no separator. -/
theorem insertRoom_iff_small :
    LeafInsertion zeroMemory smallIndex 2 (leafPage 1 10) [([1], [10])] (Block.ofBytes [1])
      (Block.ofBytes [20]) ∧
      ¬ InteriorInsertion zeroMemory smallIndex 1 rootPage 2 [([1], 3)] (Block.ofBytes [2]) 4 := by
  refine ⟨?_, ?_⟩
  · exact ((insertRoom_iff zeroMemory smallIndex 2 (leafPage 1 10) (Block.ofBytes [1]) rfl).1
      [([1], [10])] 496 (Block.ofBytes [20]) (leafPage_holds 1 10) (by decide) rfl (by decide) rfl).mpr
      ⟨rfl, by decide⟩
  · exact (insertRoom_iff zeroMemory smallIndex 1 rootPage (Block.ofBytes [2]) rfl).2 2 [([1], 3)] 4
      rootPage_holds (by decide) (by decide) (by decide)

/-- The leaf with no pairs. -/
def emptyPage : BTreeNode := BTreeNode.make btreeLeafNode 1 1 1024

theorem emptyPage_holds : LeafHolds emptyPage [] := by
  have size : (wordBytes (0 : SizeT) ++ List.replicate 992 0).length = 996 := by
    rw [List.length_append, wordBytes_length, List.length_replicate]
  exact ⟨rfl, rfl, 0, List.replicate 992 0, rfl, size, trivial⟩

/-- A second key aborts the program, and an empty leaf never takes its first. -/
theorem insert_second_key_aborts :
    insertLeaf zeroMemory smallIndex (leafPage 1 10) (Block.ofBytes [2]) = .error .assertion ∧
      ¬ LeafInsertion zeroMemory smallIndex 2 (leafPage 1 10) [([1], [10])] (Block.ofBytes [2])
        (Block.ofBytes [20]) ∧
      insertLeaf zeroMemory smallIndex emptyPage (Block.ofBytes [2]) = .ok (.noError, emptyPage) ∧
      ¬ LeafInsertion zeroMemory smallIndex 2 emptyPage [] (Block.ofBytes [2])
        (Block.ofBytes [20]) := by
  have fault : insertScan shiftKeyVals (leafPage 1 10) (Block.ofBytes [2]) (BitVec.ofNat 32 0)
      [([1] : List ByteT)].length = .error .assertion :=
    insertScan_fails (leafPage_holds 1 10).keysAt (by rfl)
      (shiftKeyVals_fails (leafPage_holds 1 10) (by decide)) (by decide) 0 _ (by rfl) (by decide)
      (by decide)
  have slots : (leafPage 1 10).info.getNumSlotsAsLeaf = .ok 496 := rfl
  have emptySlots : emptyPage.info.getNumSlotsAsLeaf = .ok 496 := rfl
  refine ⟨?_, fun done => ?_, rfl, fun done => ?_⟩
  · have room : 0 < ((496 : SizeT) - (leafPage 1 10).info.numkeys).toInt := by decide
    rw [insertLeaf, slots, Runs.ok_bind, insertCase, if_pos room]
    exact fault
  · have only := (leafInsertion_iff (leafPage_holds 1 10) (by decide) slots (by decide) rfl).mp done
    exact absurd only.1 (by decide)
  · have only := (leafInsertion_iff emptyPage_holds (by decide) emptySlots (by decide) rfl).mp done
    exact absurd only.1 (by decide)

/-! ## No room -/

/-- `Insert` behind its lookup, on the node that it has loaded. -/
def insertNode (u : Memory) (t : BTreeIndex) (b : BTreeNode) (key : KeyT) :
    Except Fault (ErrorT × BTreeIndex) := do
  let (rc, b) ← if b.info.Interior then insertInterior u t b key else .ok (.noError, b)
  if rc ≠ .noError then return (rc, t)
  let (rc, _) ← if b.info.Interior ∨ b.info.nodetype = btreeLeafNode then insertLeaf u t b key
    else .ok (.noError, b)
  if rc ≠ .noError then return (rc, t)
  return (.insane, t)

/-- `Insert` comes to node `b` in block `n`, the index then being `t`. -/
def Reaches (u : Memory) (fuel : Nat) (s : BTreeIndex) (key : KeyT) (n : SizeT) (b : BTreeNode)
    (t : BTreeIndex) : Prop :=
  ∃ rc value s' c, s.lookup u fuel key = .ok (rc, value, s') ∧ n = BitVec.ofInt 32 rc.code ∧
    (BTreeNode.default u.info).unserialize s'.buffercache n = .ok (.noError, b, c) ∧
    t = { s' with buffercache := c }

theorem insert_eq {fuel : Nat} {s : BTreeIndex} {n : SizeT} (reaches : Reaches u fuel s key n b t)
    (value : ValueT) : s.insert u fuel key value = insertNode u t b key := by
  obtain ⟨rc, found, s', c, hlookup, rfl, hread, rfl⟩ := reaches
  simp only [insert, insertNode, insertInterior, insertLeaf, hlookup, hread, Runs.ok_bind, bind_assoc,
    ne_eq, not_true, if_false]

/-- No slot is free, as the code counts them. -/
def Full (b : BTreeNode) : Prop :=
  (b.info.Interior ∧ ¬ 0 < (b.info.getNumSlotsAsInterior - b.info.numkeys).toInt) ∨
    (b.info.nodetype = btreeLeafNode ∧
      ∃ slots, b.info.getNumSlotsAsLeaf = .ok slots ∧ ¬ 0 < (slots - b.info.numkeys).toInt)

/-- Whether a block was allocated or not, the copy of the node is cleared from address
zero before anything is written. -/
theorem insertNode_full (key : KeyT) (full : Full b) {r : ErrorT × SizeT × BTreeIndex}
    (allocated : t.allocateNode u = .ok r) : insertNode u t b key = .error .nullPointer := by
  have split : insertSplit u t = .error .nullPointer := by
    simp only [insertSplit, allocated, Runs.ok_bind, Runs.throw_eq_error]
  rcases full with ⟨interior, none⟩ | ⟨leaf, slots, hslots, none⟩
  · simp only [insertNode, if_pos interior, insertInterior, insertCase, if_neg none, split, Runs.error_bind]
  · simp only [insertNode, if_neg (Interior.not_leaf leaf), Runs.ok_bind, ne_eq, not_true, if_false, leaf,
      or_true, if_true, insertLeaf, hslots, insertCase, if_neg none, split, Runs.error_bind]

/-- A key goes left of the separator when it is not greater, as in the key scan. -/
def Routes (separator : List ByteT) (lower upper : List (List ByteT)) : Prop :=
  (∀ k ∈ lower, k ≤ separator) ∧ ∀ k ∈ upper, separator < k

/-- Block `n` keeps the first half of the entries of `b`, block `m` has the rest, and a
separator routes the keys to their halves; an interior node may hand its middle entry
to the parent. -/
structure SplitDone (c : BufferCache) (n m : SizeT) (b : BTreeNode) : Prop where
  leaf : ∀ es, LeafHolds b es → ∃ old new separator lower upper, es = lower ++ upper ∧
    lower.length = (es.length + 1) / 2 ∧ c.nodeAt n = .ok old ∧ LeafHolds old lower ∧
    c.nodeAt m = .ok new ∧ LeafHolds new upper ∧
    Routes separator (lower.map Prod.fst) (upper.map Prod.fst)
  interior : ∀ first seps, InteriorHolds b first seps → ∃ old new separator second lower middle upper,
    seps = lower ++ middle ++ upper ∧ middle.length ≤ 1 ∧ lower.length = (seps.length + 1) / 2 ∧
    c.nodeAt n = .ok old ∧ InteriorHolds old first lower ∧
    c.nodeAt m = .ok new ∧ InteriorHolds new second upper ∧
    Routes separator (lower.map Prod.fst) (upper.map Prod.fst)

def SplitContract (result : Except Fault (ErrorT × BTreeIndex)) (n m : SizeT) (b : BTreeNode) : Prop :=
  ∃ rc t', result = .ok (rc, t') ∧ SplitDone t'.buffercache n m b

def NoSpaceContract (result : Except Fault (ErrorT × BTreeIndex)) (before : BlockArray) : Prop :=
  ∃ t', result = .ok (.noSpace, t') ∧ t'.buffercache.logical = before

/-- A leaf with one pair and no slot left, which also names the head of a free list. -/
def fullPage (freelist : SizeT) (value : List ByteT) : BTreeNode :=
  ⟨⟨btreeLeafNode, 1, 990, 1024, 0, freelist, 1⟩, some (wordBytes 0 ++ ([7] ++ (value ++ [0])))⟩

def oldKey : KeyT := Block.ofBytes [7]

def newValue : ValueT := Block.ofBytes (List.replicate 990 8)

section FullPage

variable {value : List ByteT} (freelist : SizeT)

theorem fullPage_wellSized (size : value.length = 990) : (fullPage freelist value).WellSized 1024 := by
  refine ⟨rfl, fun _ => ⟨_, rfl, ?_⟩⟩
  simp only [List.length_append, wordBytes_length, List.length_singleton, size]
  change 996 = ((1024 : SizeT) - 28).toNat
  decide

theorem fullPage_full : Full (fullPage freelist value) := by
  have wide : ¬ (1 + 990 : SizeT) = 0 := by decide
  have count : (((1024 - 28 : SizeT).setWidth 64 - 4) / (1 + 990 : SizeT).setWidth 64).setWidth 32 =
      (1 : SizeT) := by decide
  have slots : (fullPage freelist value).info.getNumSlotsAsLeaf = .ok 1 :=
    (if_neg wide).trans (congrArg Except.ok count)
  have none : ¬ 0 < ((1 : SizeT) - 1).toInt := by decide
  exact Or.inr ⟨rfl, 1, slots, none⟩

/-- Nothing keeps a leaf out of block 0, where `Insert` goes when the key is found. -/
theorem fullPage_reached (size : value.length = 990) {c : BufferCache} (h : c.Valid)
    (holds : c.nodeAt 0 = .ok (fullPage freelist value)) :
    ∃ c', c'.Valid ∧ c.Keeps c' ∧ c'.logical = c.logical ∧
      Reaches zeroMemory 1 ⟨c, 0, fullPage freelist value⟩ oldKey 0 (fullPage freelist value)
        ⟨c', 0, fullPage freelist value⟩ := by
  have pages : Encodes 1 990 c.nodeAt (.leaf [([7], value)]) 0 := by
    rw [Encodes]
    exact ⟨_, 0, _, holds, rfl, rfl, rfl, rfl, rfl, _, rfl, rfl, size, trivial⟩
  have keyed : oldKey.length = (1 : SizeT).toNat := rfl
  have height : (SearchTree.Tree.leaf [([7], value)] : PageTree).height < 1 := by
    simp [SearchTree.Tree.height]
  obtain ⟨c1, hlookup, h1, k1, same1⟩ := lookupInternal_ok zeroMemory keyed height h pages
  have found : SearchTree.Tree.search oldKey.data (.leaf [([7], value)]) = some value := by
    simp [SearchTree.Tree.search, SearchTree.find, oldKey, Block.ofBytes]
  rw [found] at hlookup
  have holds1 : c1.nodeAt 0 = .ok (fullPage freelist value) := by
    rw [BufferCache.nodeAt_congr k1 same1]
    exact holds
  obtain ⟨c2, hread, h2, k2, same2⟩ :=
    BufferCache.unserialize_ok h1 (BTreeNode.default zeroMemory.info) holds1
  have root : (fullPage freelist value).info.rootnode = 0 := rfl
  refine ⟨c2, h2, k1.trans k2, same2.trans same1, .noError, some (Block.ofBytes value),
    ⟨c1, 0, fullPage freelist value⟩, c2, ?_, rfl, hread, rfl⟩
  simp only [lookup, root, hlookup, Runs.ok_bind, Runs.pure_eq_ok, reply]

end FullPage

def freePage : BTreeNode := BTreeNode.make btreeUnallocatedBlock 1 990 1024

/-- A small disk with the full leaf in block 0 and a free block 2. -/
def fullCache (freelist : SizeT) : Except Fault BufferCache := do
  let c := BufferCache.make (DiskSystem.make .small DiskSystem.smallConfig ByteFile.empty) 4
  let (_, c) ← freePage.serialize (fun _ => 0) c 2
  let (_, c) ← (fullPage freelist (List.replicate 990 9)).serialize (fun _ => 0) c 0
  return c

/-- The index that `Attach` leaves when it opens that disk. -/
def fullIndex (freelist : SizeT) (c : BufferCache) : BTreeIndex :=
  ⟨c, 0, fullPage freelist (List.replicate 990 9)⟩

theorem fullCache_ok (freelist : SizeT) : ∃ c, fullCache freelist = .ok c ∧ c.Valid ∧
    c.disk.toDiskConfig = DiskSystem.smallConfig ∧
    c.nodeAt 0 = .ok (fullPage freelist (List.replicate 990 9)) ∧ c.nodeAt 2 = .ok freePage := by
  obtain ⟨h0, -⟩ := BufferCache.valid_make DiskSystem.smallConfig_sound 4
  obtain ⟨c1, hfree, h1, k1, put1⟩ := BufferCache.serialize_ok h0 (by decide) (fun _ => 0) (n := 2)
    (by decide) (b := freePage) (wellSized_make _ _ _ _)
  have sized : (fullPage freelist (List.replicate 990 9)).WellSized c1.disk.blocksize := by
    rw [k1.config]
    exact fullPage_wellSized freelist List.length_replicate
  obtain ⟨c2, hfull, h2, k2, put2⟩ := BufferCache.serialize_ok h1 (by rw [k1.config]; decide)
    (fun _ => 0) (n := 0) (by rw [k1.config]; decide) sized
  refine ⟨c2, ?_, h2, k2.config.trans k1.config, ?_, ?_⟩
  · simp only [fullCache, hfree, hfull, Runs.ok_bind, Runs.pure_eq_ok]
  · rw [put2]
    rfl
  · rw [put2, put1]
    rfl

/-- `Insert` comes to the full leaf with a free block at hand. -/
theorem fullIndex_reached : ∃ c t t1, fullCache 2 = .ok c ∧
    Reaches zeroMemory 1 (fullIndex 2 c) oldKey 0 (fullPage 2 (List.replicate 990 9)) t ∧
    t.allocateNode zeroMemory = .ok (.noError, 2, t1) := by
  obtain ⟨c, hcache, h, cfg, full, free⟩ := fullCache_ok 2
  obtain ⟨c', h', k, same, reaches⟩ := fullPage_reached 2 List.length_replicate h full
  have nodes := BufferCache.nodeAt_congr k same
  have cfg' : c'.disk.toDiskConfig = DiskSystem.smallConfig := k.config.trans cfg
  rw [← nodes] at full free
  have two : (2 : SizeT) ≠ 0 := by decide
  obtain ⟨c'', hallocate, -⟩ := allocateNode_writes (u := zeroMemory) (b := freePage)
    (t := ⟨c', 0, fullPage 2 (List.replicate 990 9)⟩) h' (by rw [cfg']; decide) rfl full two free rfl
    (by rw [cfg']; exact fullPage_wellSized 0 List.length_replicate)
  exact ⟨c, _, _, hcache, reaches, hallocate⟩

/-- No full node is ever split: not by the branch on any such node, and not by `Insert`
where it comes to one. -/
theorem split_never (u : Memory) (t t1 : BTreeIndex) (n m : SizeT) (b : BTreeNode) (key : KeyT)
    (full : Full b) (allocated : t.allocateNode u = .ok (.noError, m, t1)) :
    ¬ SplitContract (insertNode u t b key) n m b ∧
      ∀ fuel s value, Reaches u fuel s key n b t →
        ¬ SplitContract (s.insert u fuel key value) n m b := by
  have never : ¬ SplitContract (insertNode u t b key) n m b := by
    rintro ⟨rc, t', ran, -⟩
    rw [insertNode_full key full allocated] at ran
    cases ran
  refine ⟨never, ?_⟩
  intro fuel s value reaches
  rwa [insert_eq reaches]

/-- The full leaf is not split. -/
theorem split_never_small : ∃ c, ∃ t t1 : BTreeIndex, fullCache 2 = .ok c ∧
    t.allocateNode zeroMemory = .ok (.noError, 2, t1) ∧
    ¬ SplitContract ((fullIndex 2 c).insert zeroMemory 1 oldKey newValue) 0 2
      (fullPage 2 (List.replicate 990 9)) := by
  obtain ⟨c, t, t1, hcache, reaches, allocated⟩ := fullIndex_reached
  exact ⟨c, t, t1, hcache, allocated,
    (split_never zeroMemory t t1 0 2 _ oldKey (fullPage_full 2) allocated).2 1 _ _ reaches⟩

/-- The process ends instead, with block 2 already taken off the free list. -/
theorem full_leaf_not_split : ∃ c t t1, fullCache 2 = .ok c ∧
    Reaches zeroMemory 1 (fullIndex 2 c) oldKey 0 (fullPage 2 (List.replicate 990 9)) t ∧
    t.allocateNode zeroMemory = .ok (.noError, 2, t1) ∧
    (fullIndex 2 c).insert zeroMemory 1 oldKey newValue = .error .nullPointer ∧
    ¬ SplitContract ((fullIndex 2 c).insert zeroMemory 1 oldKey newValue) 0 2
      (fullPage 2 (List.replicate 990 9)) := by
  obtain ⟨c, t, t1, hcache, reaches, allocated⟩ := fullIndex_reached
  have aborts : (fullIndex 2 c).insert zeroMemory 1 oldKey newValue = .error .nullPointer := by
    rw [insert_eq reaches]
    exact insertNode_full oldKey (fullPage_full 2) allocated
  refine ⟨c, t, t1, hcache, reaches, allocated, aborts, ?_⟩
  rintro ⟨rc, t', ran, -⟩
  rw [aborts] at ran
  cases ran

/-- With an empty free list a full node is not refused either. -/
theorem noSpace_never (u : Memory) (t : BTreeIndex) (b : BTreeNode) (key : KeyT) (full : Full b)
    (empty : t.superblock.info.freelist = 0) :
    ¬ NoSpaceContract (insertNode u t b key) t.buffercache.logical ∧
      ∀ fuel s n value, Reaches u fuel s key n b t →
        ¬ NoSpaceContract (s.insert u fuel key value) s.buffercache.logical := by
  have fault := insertNode_full key full (allocateNode_empty (u := u) empty)
  refine ⟨?_, fun fuel s n value reaches => ?_⟩
  · rintro ⟨t', ran, -⟩
    rw [fault] at ran
    cases ran
  · rintro ⟨t', ran, -⟩
    rw [insert_eq reaches, fault] at ran
    cases ran

/-- The full leaf of an index with no free block. -/
theorem noSpace_never_small : ∃ c, fullCache 0 = .ok c ∧ ¬ NoSpaceContract
    ((fullIndex 0 c).insert zeroMemory 1 oldKey newValue) c.logical := by
  obtain ⟨c, hcache, h, -, full, -⟩ := fullCache_ok 0
  obtain ⟨c', -, -, -, reaches⟩ := fullPage_reached 0 List.length_replicate h full
  exact ⟨c, hcache, (noSpace_never zeroMemory ⟨c', 0, _⟩ _ oldKey (fullPage_full 0) rfl).2
    1 (fullIndex 0 c) 0 _ reaches⟩

/-- The answer of `AllocateNode` is ignored, and the process ends there too. -/
theorem full_leaf_not_refused : ∃ c t, fullCache 0 = .ok c ∧
    Reaches zeroMemory 1 (fullIndex 0 c) oldKey 0 (fullPage 0 (List.replicate 990 9)) t ∧
    t.allocateNode zeroMemory = .ok (.noSpace, 0, t) ∧
    (fullIndex 0 c).insert zeroMemory 1 oldKey newValue = .error .nullPointer ∧
    ¬ NoSpaceContract ((fullIndex 0 c).insert zeroMemory 1 oldKey newValue) c.logical := by
  obtain ⟨c, hcache, h, -, full, -⟩ := fullCache_ok 0
  obtain ⟨c', -, -, -, reaches⟩ := fullPage_reached 0 List.length_replicate h full
  have empty : (⟨c', 0, fullPage 0 (List.replicate 990 9)⟩ : BTreeIndex).allocateNode zeroMemory =
      .ok (.noSpace, 0, ⟨c', 0, fullPage 0 (List.replicate 990 9)⟩) := allocateNode_empty rfl
  have aborts : (fullIndex 0 c).insert zeroMemory 1 oldKey newValue = .error .nullPointer := by
    rw [fullIndex, insert_eq reaches]
    exact insertNode_full oldKey (fullPage_full 0) empty
  refine ⟨c, _, hcache, reaches, empty, aborts, ?_⟩
  rintro ⟨t', ran, -⟩
  rw [aborts] at ran
  cases ran

end BTreeIndex
end BTreeLab
