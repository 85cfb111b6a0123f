import EECS339.Lib.Words

/-!
# Sizes, error codes and blocks

`global.h` and `block.cc`. A `SIZE_T` is a 32-bit unsigned integer and wraps; a
block is its bytes together with the two fields only the buffer cache uses.
-/
namespace BTreeLab
open Words

abbrev ByteT := Byte
abbrev SizeT := BitVec 32

inductive ErrorT where
  | noError
  | general
  | noMem
  | noSuchBlock
  | wrongSizeBlock
  | noFetch
  | notAnIndex
  | noSpace
  | conflict
  | nonexistent
  | size
  | implBug
  | badConfig
  | noFile
  | unimpl
  | insane
  deriving DecidableEq, Repr

/-- The constants of `global.h`. -/
def ErrorT.code : ErrorT → Int
  | .noError => 0
  | .general => -1
  | .noMem => -2
  | .noSuchBlock => -3
  | .wrongSizeBlock => -4
  | .noFetch => -5
  | .notAnIndex => -6
  | .noSpace => -7
  | .conflict => -8
  | .nonexistent => -9
  | .size => -10
  | .implBug => -11
  | .badConfig => -12
  | .noFile => -13
  | .unimpl => -14
  | .insane => -15

/-- How the process ends when it does not return: a failed `assert`, an integer
division by zero, an access through a null pointer, an access outside an array.
`outOfFuel` is not an ending: the recursion had not returned yet. -/
inductive Fault where
  | assertion
  | divisionByZero
  | nullPointer
  | outOfBounds
  | outOfFuel
  deriving DecidableEq, Repr

def text (s : String) : List ByteT := s.toList.map fun c => BitVec.ofNat 8 c.toNat

theorem text_newline : text "\n" = [10] := by decide

def endl : List ByteT := [10]

/-- What the code takes from the machine: the memory behind an array, byte by byte from its end
on (`none` where there is none, and the process is killed), and the arithmetic of doubles. A
double is the rational that it stands for; infinity is one above all times, NaN one below. -/
structure Machine where
  behindBitmap : Nat → Option ByteT
  behindBlock : List ByteT → Nat → Option ByteT
  add : ℚ → ℚ → ℚ
  mul : ℚ → ℚ → ℚ
  div : ℚ → ℚ → ℚ

namespace Machine

/-- Doubles are not rounded. -/
structure Exact (m : Machine) : Prop where
  add : m.add = (· + ·)
  mul : m.mul = (· * ·)
  div : m.div = (· / ·)

/-- Rounding keeps signs: adding a time makes no sum smaller, and products and quotients of times
are times. -/
structure Monotone (m : Machine) : Prop where
  add : ∀ a b, 0 ≤ b → a ≤ m.add a b
  mul : ∀ a b, 0 ≤ a → 0 ≤ b → 0 ≤ m.mul a b
  div : ∀ a b, 0 ≤ a → 0 < b → 0 ≤ m.div a b

theorem Exact.monotone {m : Machine} (h : m.Exact) : m.Monotone := by
  obtain ⟨add, mul, div⟩ := h
  refine ⟨fun a b nonneg => ?_, fun a b first second => ?_, fun a b first second => ?_⟩
  · rw [add]
    exact le_add_of_nonneg_right nonneg
  · rw [mul]
    exact mul_nonneg first second
  · rw [div]
    exact div_nonneg first second.le

/-- A page of zeros behind every array. -/
def small : Machine where
  behindBitmap k := if k < 4096 then some 0 else none
  behindBlock _ k := if k < 4096 then some 0 else none
  add := (· + ·)
  mul := (· * ·)
  div := (· / ·)

theorem small_exact : small.Exact := ⟨rfl, rfl, rfl⟩

end Machine

structure Block where
  data : List ByteT
  lastaccessed : ℚ
  dirty : Bool
  deriving DecidableEq

namespace Block

def length (b : Block) : Nat := b.data.length

def ofBytes (bs : List ByteT) : Block := ⟨bs, -1, false⟩

@[simp] theorem ofBytes_data (bs : List ByteT) : (ofBytes bs).data = bs := rfl

@[simp] theorem ofBytes_length (bs : List ByteT) : (ofBytes bs).length = bs.length := rfl

/-- `Block(size)`: the array is fresh memory, `fresh i` being what byte `i` holds. -/
def ofSize (size : Nat) (fresh : Nat → ByteT) : Block := ofBytes ((List.range size).map fresh)

end Block

/-- The sign of the result is that of the first difference among `n` bytes. -/
def memcmp : List ByteT → List ByteT → Nat → Except Fault Int
  | _, _, 0 => .ok 0
  | a :: as, b :: bs, n + 1 => if a = b then memcmp as bs n else .ok ((a.toNat : Int) - b.toNat)
  | _, _, _ + 1 => .error .outOfBounds

/-- `operator<`: the comparison length is the larger of the two lengths. -/
def Block.lt (a b : Block) : Except Fault Bool :=
  (memcmp a.data b.data (max a.length b.length)).map (· < 0)

def Block.eq (a b : Block) : Except Fault Bool :=
  (memcmp a.data b.data (max a.length b.length)).map (· = 0)

/-- On equally long operands the comparison stays inside both and decides the
lexicographic order. -/
theorem memcmp_sign {as bs : List ByteT} (same : as.length = bs.length) :
    ∃ r, memcmp as bs as.length = .ok r ∧ (r < 0 ↔ as < bs) ∧ (r = 0 ↔ as = bs) := by
  induction as generalizing bs with
  | nil =>
      cases bs with
      | nil => exact ⟨0, rfl, by simp, by simp⟩
      | cons b bs => simp at same
  | cons a as ih =>
      cases bs with
      | nil => simp at same
      | cons b bs =>
          by_cases eq : a = b
          · subst eq
            obtain ⟨r, hr, lt, zero⟩ := ih (by simpa using same)
            refine ⟨r, by simpa only [memcmp, List.length_cons, if_true] using hr, ?_, ?_⟩
            · rw [lt, List.cons_lt_cons_self]
            · rw [zero, List.cons_inj_right]
          · refine ⟨(a.toNat : Int) - b.toNat, by simp only [memcmp, List.length_cons, if_neg eq], ?_, ?_⟩
            · rw [List.cons_lt_cons_iff, BitVec.lt_def]
              constructor
              · intro h
                exact Or.inl (by omega)
              · rintro (h | h)
                · omega
                · exact absurd h.1 eq
            · have ne : a.toNat ≠ b.toNat := fun h => eq (BitVec.eq_of_toNat_eq h)
              simp only [List.cons.injEq, eq, false_and, iff_false]
              omega

theorem Block.lt_of_same_length {a b : Block} (same : a.length = b.length) :
    a.lt b = .ok (decide (a.data < b.data)) := by
  obtain ⟨r, hr, lt, -⟩ := memcmp_sign same
  rw [Block.lt, ← same, Nat.max_self]
  simp only [Block.length, hr, Except.map, lt]

theorem Block.eq_of_same_length {a b : Block} (same : a.length = b.length) :
    a.eq b = .ok (decide (a.data = b.data)) := by
  obtain ⟨r, hr, -, zero⟩ := memcmp_sign same
  rw [Block.eq, ← same, Nat.max_self]
  simp only [Block.length, hr, Except.map, zero]

end BTreeLab
