import EECS339.Lib.Words

/-!
# Files as zero-extended byte contents

A regular file that keeps what is written to it: reads stop at the end of the
file, a write past the end leaves zeros in the gap, and setting the length either
cuts the file or extends it with zeros.
-/
open Words (Byte)

/-- The bytes of a file; positions past the end read as zero, so that two files
with the same bytes are equal. -/
structure ByteFile where
  size : Nat
  byte : Nat → Byte
  beyond : ∀ i, size ≤ i → byte i = 0

namespace ByteFile

theorem ext_bytes {f g : ByteFile} (size : f.size = g.size) (byte : ∀ i, f.byte i = g.byte i) :
    f = g := by
  cases f
  cases g
  cases size
  cases (funext byte : _ = _)
  rfl

def empty : ByteFile := ⟨0, fun _ => 0, fun _ _ => rfl⟩

/-- The `n` bytes from `pos`, with zeros past the end of the file. -/
def content (f : ByteFile) (pos n : Nat) : List Byte :=
  (List.range n).map fun i => f.byte (pos + i)

/-- A read of `n` bytes at `pos`: shorter only at the end of the file. -/
def read (f : ByteFile) (pos n : Nat) : List Byte := f.content pos (min n (f.size - pos))

def write (f : ByteFile) (pos : Nat) (bs : List Byte) : ByteFile where
  size := if bs = [] then f.size else max f.size (pos + bs.length)
  byte i := if pos ≤ i ∧ i < pos + bs.length then bs.getD (i - pos) 0 else f.byte i
  beyond i hi := by
    split_ifs at hi with he
    · subst he
      rw [if_neg (by simp only [List.length_nil]; omega)]
      exact f.beyond i hi
    · rw [if_neg (by omega)]
      exact f.beyond i (by omega)

def truncate (f : ByteFile) (n : Nat) : ByteFile where
  size := n
  byte i := if i < n then f.byte i else 0
  beyond i hi := if_neg (by omega)

@[simp] theorem content_length (f : ByteFile) (pos n : Nat) : (f.content pos n).length = n := by
  simp [content]

theorem content_congr {f g : ByteFile} {pos n : Nat}
    (h : ∀ i, pos ≤ i → i < pos + n → f.byte i = g.byte i) : f.content pos n = g.content pos n := by
  apply List.map_congr_left
  intro i hi
  have := List.mem_range.mp hi
  exact h _ (by omega) (by omega)

theorem byte_of_content_eq {f g : ByteFile} {pos n i : Nat}
    (h : f.content pos n = g.content pos n) (lo : pos ≤ i) (hi : i < pos + n) :
    f.byte i = g.byte i := by
  have at_i := congrArg (fun l => l[i - pos]?) h
  simpa [content, show i - pos < n by omega, show pos + (i - pos) = i by omega] using at_i

theorem read_of_le {f : ByteFile} {pos n : Nat} (h : pos + n ≤ f.size) :
    f.read pos n = f.content pos n := by
  rw [read, Nat.min_eq_left (by omega)]

@[simp] theorem read_length (f : ByteFile) (pos n : Nat) :
    (f.read pos n).length = min n (f.size - pos) := content_length _ _ _

theorem size_le_write (f : ByteFile) (pos : Nat) (bs : List Byte) :
    f.size ≤ (f.write pos bs).size := by
  simp only [write]
  split_ifs <;> omega

theorem write_size_ge (f : ByteFile) (pos : Nat) (bs : List Byte) (h : bs ≠ []) :
    pos + bs.length ≤ (f.write pos bs).size := by
  simp only [write, if_neg h]
  omega

@[simp] theorem write_nil (f : ByteFile) (pos : Nat) : f.write pos [] = f := by
  apply ext_bytes
  · simp [write]
  · intro i
    simp only [write, List.length_nil]
    exact if_neg (by omega)

theorem byte_write {f : ByteFile} {pos i : Nat} {bs : List Byte} (lo : pos ≤ i)
    (hi : i < pos + bs.length) : (f.write pos bs).byte i = bs.getD (i - pos) 0 := if_pos ⟨lo, hi⟩

theorem content_write_same (f : ByteFile) (pos : Nat) (bs : List Byte) :
    (f.write pos bs).content pos bs.length = bs := by
  apply List.ext_getElem
  · exact content_length _ _ _
  · intro i h1 h2
    simp [content, write, h2]

theorem content_write_disjoint {f : ByteFile} {pos n at' : Nat} {bs : List Byte}
    (h : pos + n ≤ at' ∨ at' + bs.length ≤ pos) :
    (f.write at' bs).content pos n = f.content pos n := by
  apply content_congr
  intro i lo hi
  simp only [write]
  rw [if_neg (by omega)]

theorem content_truncate_of_le {f : ByteFile} {len pos n : Nat} (h : f.size ≤ len) :
    (f.truncate len).content pos n = f.content pos n := by
  apply content_congr
  intro i lo hi
  simp only [truncate]
  split_ifs with hl
  · rfl
  · exact (f.beyond i (by omega)).symm

@[simp] theorem truncate_size (f : ByteFile) (n : Nat) : (f.truncate n).size = n := rfl

/-- The same bytes in a file at least as long. -/
structure Extends (f g : ByteFile) : Prop where
  size : f.size ≤ g.size
  content : ∀ pos n, g.content pos n = f.content pos n

theorem Extends.refl (f : ByteFile) : f.Extends f := ⟨le_rfl, fun _ _ => rfl⟩

theorem Extends.trans {f g h : ByteFile} (fg : f.Extends g) (gh : g.Extends h) : f.Extends h :=
  ⟨le_trans fg.size gh.size, fun pos n => (gh.content pos n).trans (fg.content pos n)⟩

theorem extends_truncate {f : ByteFile} {len : Nat} (h : f.size ≤ len) : f.Extends (f.truncate len) :=
  ⟨h, fun _ _ => content_truncate_of_le h⟩

end ByteFile
