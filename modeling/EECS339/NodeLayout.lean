import EECS339.NodeStore

/-!
# The fields of a node

In its data bytes an interior node alternates pointers and keys, with a pointer at
either end; a leaf has one pointer and then pairs. The slot counts are the numbers of
keys that fit.
-/
namespace BTreeLab
open Words

namespace NodeMetadata

variable {m : NodeMetadata}

/-- What the data bytes hold besides one pointer. -/
theorem dataBytes_sub_four (room : 32 ≤ m.blocksize.toNat) :
    (m.getNumDataBytes.setWidth 64 - 4).toNat = m.blocksize.toNat - 32 := by
  have bound := m.blocksize.isLt
  have bytes := BTreeNode.getNumDataBytes_toNat (m := m) (by omega)
  rw [BitVec.toNat_sub, BitVec.toNat_setWidth, bytes]
  have four : (4 : BitVec 64).toNat = 4 := rfl
  omega

theorem getNumSlotsAsInterior_toNat (room : 32 ≤ m.blocksize.toNat) :
    m.getNumSlotsAsInterior.toNat = (m.blocksize.toNat - 32) / (m.keysize.toNat + 4) := by
  have bound := m.blocksize.isLt
  have keys := m.keysize.isLt
  have divisor : (m.keysize.setWidth 64 + 4).toNat = m.keysize.toNat + 4 := by
    rw [BitVec.toNat_add, BitVec.toNat_setWidth]
    have four : (4 : BitVec 64).toNat = 4 := rfl
    omega
  have small := Nat.div_le_self (m.blocksize.toNat - 32) (m.keysize.toNat + 4)
  rw [getNumSlotsAsInterior, BitVec.toNat_setWidth, BitVec.toNat_udiv, dataBytes_sub_four room, divisor]
  exact Nat.mod_eq_of_lt (by omega)

theorem getNumSlotsAsLeaf_ok (room : 32 ≤ m.blocksize.toNat) (divisor : m.keysize + m.valuesize ≠ 0) :
    ∃ s, m.getNumSlotsAsLeaf = .ok s ∧
      s.toNat = (m.blocksize.toNat - 32) / (m.keysize + m.valuesize).toNat := by
  have bound := m.blocksize.isLt
  have pairs := (m.keysize + m.valuesize).isLt
  have wide : ((m.keysize + m.valuesize).setWidth 64).toNat = (m.keysize + m.valuesize).toNat := by
    rw [BitVec.toNat_setWidth]
    exact Nat.mod_eq_of_lt (by omega)
  have small := Nat.div_le_self (m.blocksize.toNat - 32) (m.keysize + m.valuesize).toNat
  refine ⟨_, if_neg divisor, ?_⟩
  rw [BitVec.toNat_setWidth, BitVec.toNat_udiv, dataBytes_sub_four room, wide]
  exact Nat.mod_eq_of_lt (by omega)

/-- A node with keys whose sizes and number fit its block. -/
structure Fitting (m : NodeMetadata) : Prop where
  typed : m.Interior ∨ m.nodetype = btreeLeafNode
  room : 32 ≤ m.blocksize.toNat
  separators : m.keysize.toNat + 4 < 2 ^ 32
  pairs : m.keysize.toNat + m.valuesize.toNat < 2 ^ 32
  divisor : 0 < m.keysize.toNat + m.valuesize.toNat
  interior : m.Interior → m.numkeys ≤ m.getNumSlotsAsInterior
  leaf : m.nodetype = btreeLeafNode → ∀ s, m.getNumSlotsAsLeaf = .ok s → m.numkeys ≤ s

theorem not_interior (leaf : m.nodetype = btreeLeafNode) : ¬ m.Interior := by
  rintro (interior | root)
  · rw [leaf] at interior
    exact absurd interior (by decide)
  · rw [leaf] at root
    exact absurd root (by decide)

/-- All separators fit behind the first pointer. -/
theorem Fitting.interior_room (h : m.Fitting) (interior : m.Interior) :
    m.numkeys.toNat * (m.keysize.toNat + 4) + 32 ≤ m.blocksize.toNat := by
  have count := BitVec.le_def.mp (h.interior interior)
  rw [getNumSlotsAsInterior_toNat h.room] at count
  have product := (Nat.le_div_iff_mul_le (by omega)).mp count
  have room := h.room
  omega

theorem Fitting.pair_toNat (h : m.Fitting) :
    (m.keysize + m.valuesize).toNat = m.keysize.toNat + m.valuesize.toNat := by
  rw [BitVec.toNat_add, Nat.mod_eq_of_lt h.pairs]

theorem Fitting.leaf_room (h : m.Fitting) (leaf : m.nodetype = btreeLeafNode) :
    m.numkeys.toNat * (m.keysize.toNat + m.valuesize.toNat) + 32 ≤ m.blocksize.toNat := by
  have pair := h.pair_toNat
  have pos := h.divisor
  have divisor : m.keysize + m.valuesize ≠ 0 := by
    intro zero
    rw [zero] at pair
    have none : (0 : SizeT).toNat = 0 := rfl
    omega
  obtain ⟨s, slots, count⟩ := getNumSlotsAsLeaf_ok h.room divisor
  have le := BitVec.le_def.mp (h.leaf leaf s slots)
  rw [count, pair] at le
  have product := (Nat.le_div_iff_mul_le pos).mp le
  have room := h.room
  omega

end NodeMetadata

/-! ## Where the fields lie -/

inductive NodeField where
  | key (i : SizeT)
  | ptr (i : SizeT)
  | val (i : SizeT)
  deriving DecidableEq

namespace NodeField

/-- The fields that a node of this type and number of keys has. -/
def Accessible (m : NodeMetadata) : NodeField → Prop
  | key i => (m.Interior ∨ m.nodetype = btreeLeafNode) ∧ i < m.numkeys
  | ptr i => (m.Interior ∧ i ≤ m.numkeys) ∨ (m.nodetype = btreeLeafNode ∧ i = 0)
  | val i => m.nodetype = btreeLeafNode ∧ i < m.numkeys

def resolve (n : BTreeNode) : NodeField → Except Fault (Option Nat)
  | key i => n.resolveKey i
  | ptr i => n.resolvePtr i
  | val i => n.resolveVal i

def length (m : NodeMetadata) : NodeField → Nat
  | key _ => m.keysize.toNat
  | ptr _ => 4
  | val _ => m.valuesize.toNat

/-- The position of a field, over the integers. -/
def start (m : NodeMetadata) : NodeField → Nat
  | key i =>
      4 + i.toNat * if m.Interior then 4 + m.keysize.toNat else m.keysize.toNat + m.valuesize.toNat
  | ptr i => if m.Interior then i.toNat * (4 + m.keysize.toNat) else 0
  | val i => 4 + i.toNat * (m.keysize.toNat + m.valuesize.toNat) + m.keysize.toNat

variable {m : NodeMetadata} {n : BTreeNode} {f g : NodeField}

/-- Slots of one stride follow each other. -/
theorem stride {i j w : Nat} (lt : i < j) : i * w + w ≤ j * w := by
  calc i * w + w = (i + 1) * w := (Nat.succ_mul i w).symm
    _ ≤ j * w := Nat.mul_le_mul_right w lt

theorem stop_le (fit : m.Fitting) (acc : f.Accessible m) :
    f.start m + f.length m ≤ m.blocksize.toNat - 28 := by
  cases f with
  | key i =>
      obtain ⟨interior | leaf, lt⟩ := acc
      · have next := stride (w := 4 + m.keysize.toNat) (BitVec.lt_def.mp lt)
        have room := fit.interior_room interior
        rw [Nat.add_comm m.keysize.toNat] at room
        simp only [start, length, if_pos interior]
        omega
      · have next := stride (w := m.keysize.toNat + m.valuesize.toNat) (BitVec.lt_def.mp lt)
        have room := fit.leaf_room leaf
        simp only [start, length, if_neg (NodeMetadata.not_interior leaf)]
        omega
  | ptr i =>
      have room := fit.room
      rcases acc with ⟨interior, le⟩ | ⟨leaf, -⟩
      · have before := Nat.mul_le_mul_right (4 + m.keysize.toNat) (BitVec.le_def.mp le)
        have room := fit.interior_room interior
        rw [Nat.add_comm m.keysize.toNat] at room
        simp only [start, length, if_pos interior]
        omega
      · simp only [start, length, if_neg (NodeMetadata.not_interior leaf)]
        omega
  | val i =>
      obtain ⟨leaf, lt⟩ := acc
      have next := stride (w := m.keysize.toNat + m.valuesize.toNat) (BitVec.lt_def.mp lt)
      have room := fit.leaf_room leaf
      simp only [start, length]
      omega

def Apart (m : NodeMetadata) (f g : NodeField) : Prop :=
  f.start m + f.length m ≤ g.start m ∨ g.start m + g.length m ≤ f.start m

theorem Apart.symm (h : Apart m f g) : Apart m g f := Or.symm h

theorem ne_toNat {i j : SizeT} (ne : i ≠ j) : i.toNat < j.toNat ∨ j.toNat < i.toNat :=
  Nat.lt_or_gt_of_ne fun same => ne (BitVec.eq_of_toNat_eq same)

theorem key_apart {i j : SizeT} (ne : i ≠ j) : Apart m (key i) (key j) := by
  simp only [Apart, start, length]
  rcases ne_toNat ne with lt | gt
  · left
    have next := stride (w := if m.Interior then 4 + m.keysize.toNat
      else m.keysize.toNat + m.valuesize.toNat) lt
    split_ifs at next ⊢ <;> omega
  · right
    have next := stride (w := if m.Interior then 4 + m.keysize.toNat
      else m.keysize.toNat + m.valuesize.toNat) gt
    split_ifs at next ⊢ <;> omega

theorem ptr_apart {i j : SizeT} (hi : (ptr i).Accessible m) (hj : (ptr j).Accessible m) (ne : i ≠ j) :
    Apart m (ptr i) (ptr j) := by
  rcases hi with ⟨interior, -⟩ | ⟨leaf, rfl⟩
  · simp only [Apart, start, length, if_pos interior]
    rcases ne_toNat ne with lt | gt
    · left
      have next := stride (w := 4 + m.keysize.toNat) lt
      omega
    · right
      have next := stride (w := 4 + m.keysize.toNat) gt
      omega
  · rcases hj with ⟨interior, -⟩ | ⟨-, rfl⟩
    · exact absurd interior (NodeMetadata.not_interior leaf)
    · exact absurd rfl ne

theorem val_apart {i j : SizeT} (ne : i ≠ j) : Apart m (val i) (val j) := by
  simp only [Apart, start, length]
  rcases ne_toNat ne with lt | gt
  · left
    have next := stride (w := m.keysize.toNat + m.valuesize.toNat) lt
    omega
  · right
    have next := stride (w := m.keysize.toNat + m.valuesize.toNat) gt
    omega

/-- A pointer ends where the key of its number starts. -/
theorem key_ptr_apart {i j : SizeT} (hj : (ptr j).Accessible m) : Apart m (key i) (ptr j) := by
  simp only [Apart, start, length]
  rcases hj with ⟨interior, -⟩ | ⟨leaf, -⟩
  · simp only [if_pos interior]
    rcases Nat.lt_or_ge i.toNat j.toNat with lt | ge
    · left
      have next := stride (w := 4 + m.keysize.toNat) lt
      omega
    · right
      have before := Nat.mul_le_mul_right (4 + m.keysize.toNat) ge
      omega
  · simp only [if_neg (NodeMetadata.not_interior leaf)]
    omega

/-- A key ends where the value of its number starts. -/
theorem key_val_apart {i j : SizeT} (hj : (val j).Accessible m) : Apart m (key i) (val j) := by
  simp only [Apart, start, length, if_neg (NodeMetadata.not_interior hj.1)]
  rcases Nat.lt_or_ge j.toNat i.toNat with lt | ge
  · right
    have next := stride (w := m.keysize.toNat + m.valuesize.toNat) lt
    omega
  · left
    have before := Nat.mul_le_mul_right (m.keysize.toNat + m.valuesize.toNat) ge
    omega

theorem ptr_val_apart {i j : SizeT} (hj : (val j).Accessible m) : Apart m (ptr i) (val j) := by
  left
  simp only [start, length, if_neg (NodeMetadata.not_interior hj.1)]
  omega

theorem apart (hf : f.Accessible m) (hg : g.Accessible m) (ne : f ≠ g) : Apart m f g := by
  cases f with
  | key i =>
      cases g with
      | key j => exact key_apart fun same => ne (congrArg key same)
      | ptr j => exact key_ptr_apart hg
      | val j => exact key_val_apart hg
  | ptr i =>
      cases g with
      | key j => exact (key_ptr_apart hf).symm
      | ptr j => exact ptr_apart hf hg fun same => ne (congrArg ptr same)
      | val j => exact ptr_val_apart hg
  | val i =>
      cases g with
      | key j => exact (key_val_apart hf).symm
      | ptr j => exact (ptr_val_apart hf).symm
      | val j => exact val_apart fun same => ne (congrArg val same)

/-! ## What the `Resolve` functions yield -/

theorem pointer_some {d : List ByteT} (data : n.data = some d) (pos : Nat) : n.pointer pos = some pos := by
  rw [BTreeNode.pointer, if_neg]
  rintro ⟨null, -⟩
  rw [data] at null
  cases null

/-- The arithmetic of the `Resolve` functions does not wrap on the fields of a node that
fits its block. -/
theorem resolve_accessible {d : List ByteT} (data : n.data = some d) (fit : n.info.Fitting)
    (acc : f.Accessible n.info) : f.resolve n = .ok (some (f.start n.info)) := by
  have stop := stop_le fit acc
  have bound := n.info.blocksize.isLt
  cases f with
  | key i =>
      obtain ⟨interior | leaf, lt⟩ := acc
      · simp only [start, length, if_pos interior] at stop ⊢
        rw [resolve, BTreeNode.resolveKey, if_pos interior, if_pos lt, pointer_some data,
          Nat.mod_eq_of_lt (by omega)]
      · have other := NodeMetadata.not_interior leaf
        simp only [start, length, if_neg other] at stop ⊢
        rw [resolve, BTreeNode.resolveKey, if_neg other, if_pos leaf, if_pos lt, pointer_some data,
          BitVec.toNat_mul, fit.pair_toNat, Nat.mod_eq_of_lt (by omega)]
  | ptr i =>
      rcases acc with ⟨interior, le⟩ | ⟨leaf, rfl⟩
      · simp only [start, length, if_pos interior] at stop ⊢
        rw [resolve, BTreeNode.resolvePtr, if_pos interior, if_pos le, pointer_some data,
          Nat.mod_eq_of_lt (by omega)]
      · have other := NodeMetadata.not_interior leaf
        rw [resolve, BTreeNode.resolvePtr, if_neg other, if_pos leaf, if_pos rfl, pointer_some data,
          start, if_neg other]
  | val i =>
      obtain ⟨leaf, lt⟩ := acc
      simp only [start, length] at stop ⊢
      rw [resolve, BTreeNode.resolveVal, if_pos leaf, if_pos lt, pointer_some data,
        BitVec.toNat_mul, fit.pair_toNat, Nat.mod_eq_of_lt (by omega)]

/-- The other fields have no position. -/
theorem resolve_inaccessible (acc : ¬ f.Accessible n.info) :
    f.resolve n = .error .assertion ∨ f.resolve n = .ok none := by
  cases f with
  | key i =>
      simp only [resolve, BTreeNode.resolveKey]
      split_ifs with interior lt leaf lt
      · exact absurd ⟨Or.inl interior, lt⟩ acc
      · exact Or.inl rfl
      · exact absurd ⟨Or.inr leaf, lt⟩ acc
      · exact Or.inl rfl
      · exact Or.inr rfl
  | ptr i =>
      simp only [resolve, BTreeNode.resolvePtr]
      split_ifs with interior le leaf zero
      · exact absurd (Or.inl ⟨interior, le⟩) acc
      · exact Or.inl rfl
      · exact absurd (Or.inr ⟨leaf, zero⟩) acc
      · exact Or.inl rfl
      · exact Or.inr rfl
  | val i =>
      simp only [resolve, BTreeNode.resolveVal]
      split_ifs with leaf lt
      · exact absurd ⟨leaf, lt⟩ acc
      · exact Or.inl rfl
      · exact Or.inr rfl

theorem resolve_congr {n' : BTreeNode} (info : n'.info = n.info) (null : n'.data = none ↔ n.data = none)
    (f : NodeField) : f.resolve n' = f.resolve n := by
  have pointer (pos : Nat) : n'.pointer pos = n.pointer pos := by simp only [BTreeNode.pointer, null]
  cases f <;>
    simp only [resolve, BTreeNode.resolveKey, BTreeNode.resolvePtr, BTreeNode.resolveVal, info, pointer]

/-! ## Getting and setting -/

/-- The bytes that a `Get` function copies. -/
def content (n : BTreeNode) (f : NodeField) : Except Fault (Except ErrorT (List ByteT)) := do
  n.fetch (← f.resolve n) (f.length n.info)

theorem content_accessible {d : List ByteT} (data : n.data = some d) (fit : n.info.Fitting)
    (acc : f.Accessible n.info) :
    content n f = (inBounds (bytesAt d (f.start n.info) (f.length n.info))).map .ok := by
  simp only [content, resolve_accessible data fit acc, Runs.ok_bind, BTreeNode.fetch, data]

theorem content_inaccessible {n' : BTreeNode} (info : n'.info = n.info)
    (null : n'.data = none ↔ n.data = none) (acc : ¬ f.Accessible n.info) :
    content n' f = content n f := by
  have same := resolve_congr info null f
  rcases resolve_inaccessible acc with ends | none
  · rw [ends] at same
    simp only [content, same, ends, Runs.error_bind]
  · rw [none] at same
    simp only [content, same, none, Runs.ok_bind, BTreeNode.fetch]

theorem not_blank (fit : m.Fitting) : ¬ m.Blank := by
  have interior := fit.typed
  rintro (unallocated | super)
  · simp only [NodeMetadata.Interior, unallocated] at interior
    exact absurd interior (by decide)
  · simp only [NodeMetadata.Interior, super] at interior
    exact absurd interior (by decide)

/-- Copying bytes to a field leaves them there and every other field as it was. -/
theorem assign_ok (sized : n.WellSized n.info.blocksize) (fit : n.info.Fitting)
    (acc : f.Accessible n.info) {src : List ByteT} (length : src.length = f.length n.info) :
    ∃ n', n.assign (some (f.start n.info)) src (f.length n.info) = .ok (.noError, n') ∧
      n'.info = n.info ∧ n'.WellSized n'.info.blocksize ∧ content n' f = .ok (.ok src) ∧
      ∀ g, g ≠ f → content n' g = content n g := by
  obtain ⟨d, data, size⟩ := sized.data (not_blank fit)
  rw [BTreeNode.getNumDataBytes_toNat (by have := fit.room; omega)] at size
  have stop := stop_le fit acc
  have source : bytesAt src 0 (f.length n.info) = some src := by
    rw [← length]
    simpa using bytesAt_zero src []
  obtain ⟨out, put⟩ : ∃ out, putBytes d (f.start n.info) src = some out :=
    ⟨_, if_pos (by omega)⟩
  let n' : BTreeNode := { n with data := some out }
  have null : n'.data = none ↔ n.data = none := by simp [n', data]
  refine ⟨n', ?_, rfl, ⟨rfl, fun full => ⟨out, rfl, ?_⟩⟩, ?_, fun g ne => ?_⟩
  · simp only [BTreeNode.assign, data, source, inBounds, Runs.ok_bind, put, Runs.pure_eq_ok, n']
  · rw [putBytes_length put, size]
    exact (BTreeNode.getNumDataBytes_toNat (m := n.info) (by have := fit.room; omega)).symm
  · rw [content_accessible (n := n') rfl fit acc, ← length, bytesAt_putBytes put]
    rfl
  · by_cases other : g.Accessible n.info
    · have elsewhere := apart acc other ne.symm
      rw [Apart, ← length] at elsewhere
      rw [content_accessible (n := n') rfl fit other, content_accessible data fit other,
        bytesAt_putBytes_apart put elsewhere]
    · exact content_inaccessible rfl null other

end NodeField

namespace BTreeNode
open NodeField (content)

variable {n n' : BTreeNode} {i : SizeT}

/-! The `Get` functions, written over the bytes of their fields. -/

theorem getKey_eq (n : BTreeNode) (i : SizeT) :
    n.getKey i = content n (.key i) >>= fun bs => pure (bs.map Block.ofBytes) :=
  (bind_assoc _ _ _).symm

theorem getVal_eq (n : BTreeNode) (i : SizeT) :
    n.getVal i = content n (.val i) >>= fun bs => pure (bs.map Block.ofBytes) :=
  (bind_assoc _ _ _).symm

theorem getPtr_eq (n : BTreeNode) (i : SizeT) :
    n.getPtr i = content n (.ptr i) >>= fun bs =>
      match bs with
      | .error rc => return .error rc
      | .ok bs => return .ok (← inBounds (wordOfBytes bs)) :=
  (bind_assoc _ _ _).symm

theorem getKeyVal_congr (key : n'.getKey i = n.getKey i) (val : n'.getVal i = n.getVal i) :
    n'.getKeyVal i = n.getKeyVal i := by
  simp only [getKeyVal, key, val]

/-- Every `Get` of a field that was not written returns what it did before. -/
structure Unchanged (n n' : BTreeNode) (written : NodeField → Prop) : Prop where
  key : ∀ i, ¬ written (.key i) → n'.getKey i = n.getKey i
  ptr : ∀ i, ¬ written (.ptr i) → n'.getPtr i = n.getPtr i
  val : ∀ i, ¬ written (.val i) → n'.getVal i = n.getVal i
  keyVal : ∀ i, ¬ written (.key i) → ¬ written (.val i) → n'.getKeyVal i = n.getKeyVal i

theorem unchanged_of_content {written : NodeField → Prop}
    (same : ∀ f, ¬ written f → content n' f = content n f) : Unchanged n n' written := by
  have key (i : SizeT) (h : ¬ written (.key i)) : n'.getKey i = n.getKey i := by
    rw [getKey_eq, getKey_eq, same _ h]
  have val (i : SizeT) (h : ¬ written (.val i)) : n'.getVal i = n.getVal i := by
    rw [getVal_eq, getVal_eq, same _ h]
  refine ⟨key, fun i h => ?_, val, fun i hkey hval => getKeyVal_congr (key i hkey) (val i hval)⟩
  rw [getPtr_eq, getPtr_eq, same _ h]

/-- The laws of arrays for the fields of a node: they lie apart within the data bytes,
what is set is what one gets, and nothing else changes. -/
structure ArrayLaws (n : BTreeNode) : Prop where
  inside : ∀ f : NodeField, f.Accessible n.info → ∃ p, f.resolve n = .ok (some p) ∧
    p + f.length n.info ≤ n.info.blocksize.toNat - 28
  apart : ∀ (f g : NodeField) (p q : Nat), f.Accessible n.info → g.Accessible n.info → f ≠ g →
    f.resolve n = .ok (some p) → g.resolve n = .ok (some q) →
    p + f.length n.info ≤ q ∨ q + g.length n.info ≤ p
  setKey : ∀ (i : SizeT) (k : KeyT), (NodeField.key i).Accessible n.info →
    k.length = n.info.keysize.toNat → ∃ n', n.setKey i k = .ok (.noError, n') ∧
      n'.getKey i = .ok (.ok (Block.ofBytes k.data)) ∧ Unchanged n n' (· = .key i)
  setPtr : ∀ i ptr : SizeT, (NodeField.ptr i).Accessible n.info →
    ∃ n', n.setPtr i ptr = .ok (.noError, n') ∧ n'.getPtr i = .ok (.ok ptr) ∧ Unchanged n n' (· = .ptr i)
  setVal : ∀ (i : SizeT) (v : ValueT), (NodeField.val i).Accessible n.info →
    v.length = n.info.valuesize.toNat → ∃ n', n.setVal i v = .ok (.noError, n') ∧
      n'.getVal i = .ok (.ok (Block.ofBytes v.data)) ∧ Unchanged n n' (· = .val i)
  setKeyVal : ∀ (i : SizeT) (k : KeyT) (v : ValueT), (NodeField.val i).Accessible n.info →
    k.length = n.info.keysize.toNat → v.length = n.info.valuesize.toNat →
    ∃ n', n.setKeyVal i (k, v) = .ok (.noError, n') ∧
      n'.getKeyVal i = .ok (.ok (Block.ofBytes k.data, Block.ofBytes v.data)) ∧
      Unchanged n n' fun f => f = .key i ∨ f = .val i

section Laws

variable (sized : n.WellSized n.info.blocksize) (fit : n.info.Fitting)
include sized fit

theorem resolves {f : NodeField} (acc : f.Accessible n.info) :
    f.resolve n = .ok (some (f.start n.info)) := by
  obtain ⟨d, data, -⟩ := sized.data (NodeField.not_blank fit)
  exact NodeField.resolve_accessible data fit acc

theorem setKey_ok {i : SizeT} (acc : (NodeField.key i).Accessible n.info) {k : KeyT}
    (length : k.length = n.info.keysize.toNat) :
    ∃ n', n.setKey i k = .ok (.noError, n') ∧ n'.info = n.info ∧ n'.WellSized n'.info.blocksize ∧
      content n' (.key i) = .ok (.ok k.data) ∧ ∀ f, f ≠ .key i → content n' f = content n f := by
  obtain ⟨n', hassign, rest⟩ := NodeField.assign_ok sized fit acc length
  refine ⟨n', ?_, rest⟩
  have position : n.resolveKey i = _ := resolves sized fit acc
  simp only [setKey, position, Runs.ok_bind]
  exact hassign

theorem setPtr_ok {i : SizeT} (acc : (NodeField.ptr i).Accessible n.info) (ptr : SizeT) :
    ∃ n', n.setPtr i ptr = .ok (.noError, n') ∧ content n' (.ptr i) = .ok (.ok (wordBytes ptr)) ∧
      ∀ f, f ≠ .ptr i → content n' f = content n f := by
  obtain ⟨n', hassign, -, -, rest⟩ := NodeField.assign_ok sized fit acc (wordBytes_length ptr)
  refine ⟨n', ?_, rest⟩
  have position : n.resolvePtr i = _ := resolves sized fit acc
  simp only [setPtr, position, Runs.ok_bind]
  exact hassign

theorem setVal_ok {i : SizeT} (acc : (NodeField.val i).Accessible n.info) {v : ValueT}
    (length : v.length = n.info.valuesize.toNat) :
    ∃ n', n.setVal i v = .ok (.noError, n') ∧ content n' (.val i) = .ok (.ok v.data) ∧
      ∀ f, f ≠ .val i → content n' f = content n f := by
  obtain ⟨n', hassign, -, -, rest⟩ := NodeField.assign_ok sized fit acc length
  refine ⟨n', ?_, rest⟩
  have position : n.resolveVal i = _ := resolves sized fit acc
  simp only [setVal, position, Runs.ok_bind]
  exact hassign

theorem setKeyVal_ok {i : SizeT} (acc : (NodeField.val i).Accessible n.info) {k : KeyT} {v : ValueT}
    (keylength : k.length = n.info.keysize.toNat) (vallength : v.length = n.info.valuesize.toNat) :
    ∃ n', n.setKeyVal i (k, v) = .ok (.noError, n') ∧ content n' (.key i) = .ok (.ok k.data) ∧
      content n' (.val i) = .ok (.ok v.data) ∧
      ∀ f, f ≠ .key i → f ≠ .val i → content n' f = content n f := by
  obtain ⟨n1, hkey, info, sized1, key1, others1⟩ := setKey_ok sized fit ⟨Or.inr acc.1, acc.2⟩ keylength
  rw [← info] at fit acc vallength
  obtain ⟨n2, hval, val2, others2⟩ := setVal_ok sized1 fit acc vallength
  refine ⟨n2, ?_, ?_, val2, fun f notkey notval => ?_⟩
  · simp only [setKeyVal, hkey, Runs.ok_bind, ne_eq, not_true, if_false, hval]
  · rw [others2 _ (by simp), key1]
  · rw [others2 f notval, others1 f notkey]

end Laws

/-- A node whose sizes and number of keys fit its block obeys the laws. -/
theorem accessors_array_laws (n : BTreeNode) (sized : n.WellSized n.info.blocksize)
    (fit : n.info.Fitting) : n.ArrayLaws := by
  constructor
  · exact fun f acc => ⟨_, resolves sized fit acc, NodeField.stop_le fit acc⟩
  · intro f g p q hf hg ne hp hq
    rw [resolves sized fit hf] at hp
    rw [resolves sized fit hg] at hq
    cases hp
    cases hq
    exact NodeField.apart hf hg ne
  · intro i k acc length
    obtain ⟨n', hset, -, -, key, others⟩ := setKey_ok sized fit acc length
    refine ⟨n', hset, ?_, unchanged_of_content others⟩
    rw [getKey_eq, key]
    rfl
  · intro i ptr acc
    obtain ⟨n', hset, word, others⟩ := setPtr_ok sized fit acc ptr
    refine ⟨n', hset, ?_, unchanged_of_content others⟩
    simp only [getPtr_eq, word, Runs.ok_bind, wordOfBytes_wordBytes, inBounds, Runs.pure_eq_ok]
  · intro i v acc length
    obtain ⟨n', hset, val, others⟩ := setVal_ok sized fit acc length
    refine ⟨n', hset, ?_, unchanged_of_content others⟩
    rw [getVal_eq, val]
    rfl
  · intro i k v acc keylength vallength
    obtain ⟨n', hset, key, val, others⟩ := setKeyVal_ok sized fit acc keylength vallength
    refine ⟨n', hset, ?_, unchanged_of_content fun f h => ?_⟩
    · have gotkey : n'.getKey i = .ok (.ok (Block.ofBytes k.data)) := by
        rw [getKey_eq, key]
        rfl
      have gotval : n'.getVal i = .ok (.ok (Block.ofBytes v.data)) := by
        rw [getVal_eq, val]
        rfl
      simp only [getKeyVal, gotkey, gotval, Runs.ok_bind, Runs.pure_eq_ok]
      rfl
    · exact others f (fun same => h (Or.inl same)) fun same => h (Or.inr same)

/-- A leaf with as many pairs as fit. -/
def fullLeaf : BTreeNode :=
  ⟨⟨btreeLeafNode, 10, 20, 1024, 1, 2, 33⟩, some (List.replicate 996 0)⟩

theorem accessors_array_laws_full : fullLeaf.ArrayLaws := by
  have slots : fullLeaf.info.getNumSlotsAsLeaf = .ok 33 := rfl
  apply accessors_array_laws
  · exact ⟨rfl, fun _ => ⟨_, rfl, List.length_replicate⟩⟩
  · refine ⟨Or.inr rfl, by decide, by decide, by decide, by decide, ?_, ?_⟩
    · exact fun interior => absurd interior (NodeMetadata.not_interior rfl)
    · intro _ s hs
      rw [slots] at hs
      cases hs
      exact le_rfl

end BTreeNode
end BTreeLab
