import EECS339.Lib.Words

/-!
# Bit sets packed into bytes

Bit `i` lives in byte `i / 8`, most significant bit first.
-/
namespace PackedBits
open Words (Byte)

def byteCount (n : Nat) : Nat := n / 8 + (if n % 8 ≠ 0 then 1 else 0)

def getBit (bits : List Byte) (i : Nat) : Bool :=
  ((bits.getD (i / 8) 0 >>> (7 - i % 8)) &&& 1) != 0

def setBit (bits : List Byte) (i : Nat) : List Byte :=
  bits.modify (i / 8) (· ||| ((1 : Byte) <<< (7 - i % 8)))

def clearBit (bits : List Byte) (i : Nat) : List Byte :=
  bits.modify (i / 8) (· &&& ~~~((1 : Byte) <<< (7 - i % 8)))

theorem lt_byteCount {n i : Nat} (h : i < n) : i / 8 < byteCount n := by
  unfold byteCount
  split_ifs <;> omega

@[simp] theorem setBit_length (bits : List Byte) (i : Nat) :
    (setBit bits i).length = bits.length := List.length_modify _ _ _

@[simp] theorem clearBit_length (bits : List Byte) (i : Nat) :
    (clearBit bits i).length = bits.length := List.length_modify _ _ _

theorem getBit_eq (bits : List Byte) (i : Nat) :
    getBit bits i = (bits.getD (i / 8) 0).getLsbD (7 - i % 8) := by
  have low (x : Byte) : ((x &&& 1) != 0) = x.getLsbD 0 := by
    revert x; decide
  rw [getBit, low, BitVec.getLsbD_ushiftRight, Nat.add_zero]

theorem getD_modify (bits : List Byte) (f : Byte → Byte) (i j : Nat) (h : i < bits.length) :
    (bits.modify i f).getD j 0 = if i = j then f (bits.getD j 0) else bits.getD j 0 := by
  simp only [List.getD_eq_getElem?_getD, List.getElem?_modify]
  split_ifs with same
  · subst same
    simp [h]
  · simp

/-- The mask of position `i` has exactly that bit of its byte. -/
theorem getLsbD_mask (i j : Nat) :
    ((1 : Byte) <<< (7 - i % 8)).getLsbD (7 - j % 8) = decide (i % 8 = j % 8) := by
  have table : ∀ a < 8, ∀ b < 8, ((1 : Byte) <<< (7 - a)).getLsbD (7 - b) = decide (a = b) := by
    decide
  exact table _ (Nat.mod_lt _ (by omega)) _ (Nat.mod_lt _ (by omega))

theorem same_byte_iff {i j : Nat} (same : i / 8 = j / 8) : i % 8 = j % 8 ↔ i = j := by omega

theorem getBit_setBit {bits : List Byte} {i j : Nat} (h : i / 8 < bits.length) :
    getBit (setBit bits i) j = if i = j then true else getBit bits j := by
  rw [getBit_eq, getBit_eq, setBit, getD_modify bits _ _ _ h]
  by_cases same : i / 8 = j / 8
  · rw [if_pos same, BitVec.getLsbD_or, getLsbD_mask]
    by_cases eq : i = j <;> simp [eq, same_byte_iff same]
  · rw [if_neg same, if_neg (by intro e; exact same (by rw [e]))]

theorem getBit_clearBit {bits : List Byte} {i j : Nat} (h : i / 8 < bits.length) :
    getBit (clearBit bits i) j = if i = j then false else getBit bits j := by
  rw [getBit_eq, getBit_eq, clearBit, getD_modify bits _ _ _ h]
  by_cases same : i / 8 = j / 8
  · rw [if_pos same, BitVec.getLsbD_and, BitVec.getLsbD_not, getLsbD_mask]
    have inside : 7 - j % 8 < 8 := by omega
    by_cases eq : i = j <;> simp [eq, inside, same_byte_iff same]
  · rw [if_neg same, if_neg (by intro e; exact same (by rw [e]))]

/-! ## Ranges of bits -/

section Ranges

variable {change : List Byte → Nat → List Byte} {b : Bool}

theorem foldl_length (length : ∀ bits i, (change bits i).length = bits.length) (bits : List Byte)
    (range : List Nat) : (range.foldl change bits).length = bits.length := by
  induction range generalizing bits with
  | nil => rfl
  | cons i range ih => rw [List.foldl_cons, ih, length]

/-- Changing the bits of a range to `b` one after the other changes those bits and no
others, in whichever bytes they lie. -/
theorem getBit_foldl (length : ∀ bits i, (change bits i).length = bits.length)
    (one : ∀ bits i j, i / 8 < bits.length → getBit (change bits i) j = if i = j then b else getBit bits j)
    {bits : List Byte} {s k : Nat} (inside : ∀ i, s ≤ i → i < s + k → i / 8 < bits.length) (j : Nat) :
    getBit ((List.range' s k).foldl change bits) j =
      if s ≤ j ∧ j < s + k then b else getBit bits j := by
  induction k generalizing s bits with
  | zero => rw [List.range'_zero, List.foldl_nil, if_neg (by omega)]
  | succ k ih =>
      have first := one bits s j (inside s le_rfl (by omega))
      rw [List.range'_succ, List.foldl_cons, ih, first]
      · split_ifs <;> first | rfl | omega
      · intro i lo hi
        rw [length]
        exact inside i (by omega) (by omega)

end Ranges

theorem getBit_replicate_zero (n i : Nat) : getBit (List.replicate n 0) i = false := by
  rw [getBit_eq, List.getD_eq_getElem?_getD, List.getElem?_replicate]
  split_ifs <;> simp

end PackedBits
