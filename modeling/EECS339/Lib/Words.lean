import Mathlib

/-!
# Bytes, little-endian words and buffers

Byte strings are lists of 8-bit vectors, compared lexicographically as unsigned
characters. A 32-bit word occupies four bytes, least significant byte first.
-/
namespace Words

abbrev Byte := BitVec 8
abbrev Word := BitVec 32

/-- Unsigned comparison; the fields are the ones core Lean already declares. -/
instance bitVecLinearOrder {w : Nat} : LinearOrder (BitVec w) where
  le_refl := BitVec.le_refl
  le_trans _ _ _ := BitVec.le_trans
  le_antisymm _ _ := BitVec.le_antisymm
  le_total := BitVec.le_total
  lt_iff_le_not_ge a b := by
    simp only [BitVec.not_le]
    exact ⟨fun h => ⟨BitVec.le_of_lt h, h⟩, fun h => h.2⟩
  toDecidableLE := inferInstance
  toDecidableLT := inferInstance
  toDecidableEq := inferInstance
  compare_eq_compareOfLessAndEq _ _ := rfl

def wordBytes (w : Word) : List Byte :=
  [w.extractLsb' 0 8, w.extractLsb' 8 8, w.extractLsb' 16 8, w.extractLsb' 24 8]

/-- The word in the first four bytes; a shorter buffer holds no word. -/
def wordOfBytes : List Byte → Option Word
  | a :: b :: c :: d :: _ => some (d ++ c ++ b ++ a)
  | _ => none

@[simp] theorem wordBytes_length (w : Word) : (wordBytes w).length = 4 := rfl

@[simp] theorem wordOfBytes_append (w : Word) (rest : List Byte) :
    wordOfBytes (wordBytes w ++ rest) = some w := by
  simp only [wordBytes, List.cons_append, List.nil_append, wordOfBytes, Option.some.injEq]
  grind

@[simp] theorem wordOfBytes_wordBytes (w : Word) : wordOfBytes (wordBytes w) = some w := by
  simpa only [List.append_nil] using wordOfBytes_append w []

theorem wordBytes_append (a b c d : Byte) : wordBytes (d ++ c ++ b ++ a) = [a, b, c, d] := by
  have part (k : Nat) (x : Byte) (bit : ∀ i < 8, (d ++ c ++ b ++ a).getLsbD (k + i) = x.getLsbD i) :
      (d ++ c ++ b ++ a).extractLsb' k 8 = x := by
    apply BitVec.eq_of_getLsbD_eq
    intro i hi
    rw [BitVec.getLsbD_extractLsb', decide_eq_true hi, Bool.true_and, bit i hi]
  have first := part 0 a fun i hi => by
    rw [BitVec.getLsbD_append, if_pos (by omega), Nat.zero_add]
  have second := part 8 b fun i hi => by
    rw [BitVec.getLsbD_append, if_neg (by omega), BitVec.getLsbD_append, if_pos (by omega)]
    congr 1
    omega
  have third := part 16 c fun i hi => by
    rw [BitVec.getLsbD_append, if_neg (by omega), BitVec.getLsbD_append, if_neg (by omega),
      BitVec.getLsbD_append, if_pos (by omega)]
    congr 1
    omega
  have fourth := part 24 d fun i hi => by
    rw [BitVec.getLsbD_append, if_neg (by omega), BitVec.getLsbD_append, if_neg (by omega),
      BitVec.getLsbD_append, if_neg (by omega)]
    congr 1
    omega
  rw [wordBytes, first, second, third, fourth]

theorem exists_wordBytes {bs : List Byte} (h : 4 ≤ bs.length) : ∃ w rest, bs = wordBytes w ++ rest := by
  match bs, h with
  | a :: b :: c :: d :: rest, _ => exact ⟨d ++ c ++ b ++ a, rest, by rw [wordBytes_append]; rfl⟩

def takeWord (bs : List Byte) : Option (Word × List Byte) :=
  (wordOfBytes bs).map fun w => (w, bs.drop 4)

@[simp] theorem takeWord_append (w : Word) (rest : List Byte) :
    takeWord (wordBytes w ++ rest) = some (w, rest) := by
  rw [takeWord, wordOfBytes_append]
  rfl

/-! ## Buffers -/

/-- The `n` bytes from position `pos`, when the buffer has them all. -/
def bytesAt (buf : List Byte) (pos n : Nat) : Option (List Byte) :=
  if pos + n ≤ buf.length then some ((buf.drop pos).take n) else none

def putBytes (buf : List Byte) (pos : Nat) (bs : List Byte) : Option (List Byte) :=
  if pos + bs.length ≤ buf.length then
    some (buf.take pos ++ bs ++ buf.drop (pos + bs.length))
  else none

theorem bytesAt_append_right (front : List Byte) (buf : List Byte) (pos n : Nat) :
    bytesAt (front ++ buf) (front.length + pos) n = bytesAt buf pos n := by
  have hd : (front ++ buf).drop (front.length + pos) = buf.drop pos := by
    rw [List.drop_append, List.drop_eq_nil_of_le (by omega), List.nil_append]
    congr 1
    omega
  simp only [bytesAt, List.length_append, hd, Nat.add_assoc, Nat.add_le_add_iff_left]

theorem putBytes_zero {buf bs : List Byte} (h : bs.length ≤ buf.length) :
    putBytes buf 0 bs = some (bs ++ buf.drop bs.length) := by
  simp [putBytes, h]

theorem putBytes_append_right (front buf : List Byte) (pos : Nat) (bs : List Byte) :
    putBytes (front ++ buf) (front.length + pos) bs = (putBytes buf pos bs).map (front ++ ·) := by
  simp only [putBytes, List.length_append, Nat.add_assoc, Nat.add_le_add_iff_left,
    List.take_length_add_append, List.drop_length_add_append, List.append_assoc]
  split_ifs <;> rfl

theorem bytesAt_zero (bs rest : List Byte) : bytesAt (bs ++ rest) 0 bs.length = some bs := by
  simp [bytesAt]

theorem bytesAt_mid (front bs rest : List Byte) :
    bytesAt (front ++ (bs ++ rest)) front.length bs.length = some bs := by
  simpa only [Nat.add_zero, bytesAt_zero] using bytesAt_append_right front (bs ++ rest) 0 bs.length

theorem bytesAt_length {buf : List Byte} {pos n : Nat} {bs : List Byte}
    (h : bytesAt buf pos n = some bs) : bs.length = n := by
  unfold bytesAt at h
  split_ifs at h with hb
  · rw [← Option.some.inj h, List.length_take, List.length_drop]
    omega

theorem getElem?_putBytes {buf out bs : List Byte} {pos : Nat} (h : putBytes buf pos bs = some out)
    (i : Nat) : out[i]? =
      if i < pos then buf[i]? else if i < pos + bs.length then bs[i - pos]? else buf[i]? := by
  unfold putBytes at h
  split_ifs at h with room
  cases h
  simp only [List.getElem?_append, List.length_append, List.length_take, List.getElem?_take,
    List.getElem?_drop]
  split_ifs <;> first | rfl | omega | (congr 1; omega)

theorem putBytes_length {buf out bs : List Byte} {pos : Nat} (h : putBytes buf pos bs = some out) :
    out.length = buf.length := by
  unfold putBytes at h
  split_ifs at h with room
  cases h
  simp only [List.length_append, List.length_take, List.length_drop]
  omega

/-- What was put is found again. -/
theorem bytesAt_putBytes {buf out bs : List Byte} {pos : Nat} (h : putBytes buf pos bs = some out) :
    bytesAt out pos bs.length = some bs := by
  unfold putBytes at h
  split_ifs at h with room
  cases h
  rw [List.append_assoc]
  have front : (buf.take pos).length = pos := List.length_take_of_le (by omega)
  have found := bytesAt_mid (buf.take pos) bs (buf.drop (pos + bs.length))
  rwa [front] at found

/-- Bytes apart from it are not touched. -/
theorem bytesAt_putBytes_apart {buf out bs : List Byte} {pos q n : Nat}
    (h : putBytes buf pos bs = some out) (apart : pos + bs.length ≤ q ∨ q + n ≤ pos) :
    bytesAt out q n = bytesAt buf q n := by
  rw [bytesAt, bytesAt, putBytes_length h]
  split_ifs with inside
  · refine congrArg some (List.ext_getElem? fun i => ?_)
    rw [List.getElem?_take, List.getElem?_take, List.getElem?_drop, List.getElem?_drop,
      getElem?_putBytes h]
    split_ifs <;> first | rfl | omega
  · rfl

end Words
