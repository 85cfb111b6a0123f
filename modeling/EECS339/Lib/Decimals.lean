import EECS339.Lib.Tokens

/-!
# Decimals

Digit strings and their values, fixed-point texts, and rounding to the nearest
integer with ties to even.
-/
namespace Decimals

def value (ds : List Char) : Nat := Nat.ofDigitChars 10 ds 0

def Digits (ds : List Char) : Prop := ∀ c ∈ ds, c.isDigit = true

/-- The digits at the start of a text, and what follows them. -/
def takeDigits (l : List Char) : List Char × List Char :=
  (l.takeWhile Char.isDigit, l.dropWhile Char.isDigit)

theorem Digits.take {u : List Char} (h : Digits u) (k : Nat) : Digits (u.take k) :=
  fun c m => h c (List.mem_of_mem_take m)

theorem Digits.drop {u : List Char} (h : Digits u) (k : Nat) : Digits (u.drop k) :=
  fun c m => h c (List.mem_of_mem_drop m)

theorem Digits.append {u v : List Char} (hu : Digits u) (hv : Digits v) : Digits (u ++ v) := by
  intro c m
  rcases List.mem_append.mp m with m | m
  · exact hu c m
  · exact hv c m

/-- The last `k` digits of `n`, zeros in front. -/
def padded : Nat → Nat → List Char
  | 0, _ => []
  | k + 1, n => padded k (n / 10) ++ [Nat.digitChar (n % 10)]

/-- `n` units of the `k`-th decimal place. -/
def fixed (k n : Nat) : List Char := Nat.toDigits 10 (n / 10 ^ k) ++ '.' :: padded k n

/-! ## Digit strings -/

variable {u v rest : List Char} {c : Char} {k n : Nat}

theorem digits_toDigits (n : Nat) : Digits (Nat.toDigits 10 n) := by
  intro c hc
  exact Nat.isDigit_of_mem_toDigits (by decide) (by decide) hc

theorem digits_padded (k n : Nat) : Digits (padded k n) := by
  induction k generalizing n with
  | zero => exact fun c hc => absurd hc List.not_mem_nil
  | succ k ih =>
      intro c hc
      rcases List.mem_append.mp hc with front | last
      · exact ih _ c front
      · rw [List.mem_singleton.mp last]
        exact digits_toDigits (n % 10) _ (by
          rw [Nat.toDigits_of_lt_base (Nat.mod_lt _ (by decide))]
          exact List.mem_singleton_self _)

@[simp] theorem length_padded (k n : Nat) : (padded k n).length = k := by
  induction k generalizing n with
  | zero => rfl
  | succ k ih => rw [padded, List.length_append, ih, List.length_singleton]

theorem value_append (u v : List Char) : value (u ++ v) = value u * 10 ^ v.length + value v := by
  rw [value, Nat.ofDigitChars_append, Nat.ofDigitChars_eq_ofDigitChars_zero, mul_comm]
  rfl

@[simp] theorem value_toDigits (n : Nat) : value (Nat.toDigits 10 n) = n :=
  Nat.ofDigitChars_ten_toDigits

theorem value_padded (k n : Nat) : value (padded k n) = n % 10 ^ k := by
  induction k generalizing n with
  | zero => rw [pow_zero, Nat.mod_one]; rfl
  | succ k ih =>
      have last : value [Nat.digitChar (n % 10)] = n % 10 := by
        rw [← Nat.toDigits_of_lt_base (Nat.mod_lt _ (by decide)), value_toDigits]
      rw [padded, value_append, ih, last, List.length_singleton, pow_one, pow_succ', Nat.mod_mul]
      ring

theorem value_lt (digits : Digits v) : value v < 10 ^ v.length := by
  induction v using List.reverseRecOn with
  | nil => exact Nat.one_pos
  | append_singleton v c ih =>
      have front := ih fun c hc => digits c (List.mem_append_left _ hc)
      have last : c.isDigit = true := digits c (List.mem_append_right _ (List.mem_singleton_self c))
      have small : value [c] < 10 := by
        simp only [Char.isDigit, ge_iff_le, Bool.and_eq_true, decide_eq_true_eq] at last
        have upper : c.toNat ≤ 57 := last.2
        simp only [value, Nat.ofDigitChars_cons, Nat.ofDigitChars_nil]
        change 10 * 0 + (c.toNat - 48) < 10
        omega
      rw [value_append, List.length_append, List.length_singleton, pow_one, pow_succ]
      omega

/-- Digits that are cut off divide the value. -/
theorem value_front (digits : Digits v) : value u = value (u ++ v) / 10 ^ v.length := by
  have positive : 0 < 10 ^ v.length := Nat.pow_pos (by decide)
  rw [value_append, mul_comm, Nat.mul_add_div positive, Nat.div_eq_of_lt (value_lt digits), add_zero]

theorem value_back (digits : Digits v) : value v = value (u ++ v) % 10 ^ v.length := by
  rw [value_append, Nat.mul_add_mod', Nat.mod_eq_of_lt (value_lt digits)]

theorem takeDigits_stop (digits : Digits u) (stop : c.isDigit = false) :
    takeDigits (u ++ c :: rest) = (u, c :: rest) := by
  obtain ⟨taken, dropped⟩ := Tokens.takeWhile_append_stop rest digits stop
  rw [takeDigits, taken, dropped]

theorem takeDigits_all (digits : Digits u) : takeDigits u = (u, []) := by
  rw [takeDigits, List.takeWhile_eq_self_iff.mpr digits, List.dropWhile_eq_nil_iff.mpr digits]

/-! ## Fixed-point texts -/

theorem length_fixed (k n : Nat) :
    (fixed k n).length = (Nat.toDigits 10 (n / 10 ^ k)).length + 1 + k := by
  rw [fixed, List.length_append, List.length_cons, length_padded]
  ring

theorem length_toDigits_le {m : Nat} (positive : 0 < m) :
    (Nat.toDigits 10 (n / 10 ^ k)).length ≤ m ↔ n < 10 ^ (m + k) := by
  rw [Nat.length_toDigits_le_iff (by decide) positive, Nat.div_lt_iff_lt_mul (Nat.pow_pos (by decide)),
    pow_add]

/-- Without the point, the digits of a fixed-point text are those of the number. -/
theorem value_fixed (k n : Nat) : value (Nat.toDigits 10 (n / 10 ^ k) ++ padded k n) = n := by
  rw [value_append, value_toDigits, value_padded, length_padded]
  exact Nat.div_add_mod' n (10 ^ k)

/-! ## Rounding -/

/-- The nearest integer, the even one of two that are equally near. -/
def roundEven (q : ℚ) : ℤ :=
  if q - ⌊q⌋ < 1 / 2 then ⌊q⌋
  else if 1 / 2 < q - ⌊q⌋ then ⌊q⌋ + 1
  else if Even ⌊q⌋ then ⌊q⌋ else ⌊q⌋ + 1

variable {q : ℚ} {m : ℤ}

theorem roundEven_near (q : ℚ) : (roundEven q : ℚ) - 1 / 2 ≤ q ∧ q ≤ roundEven q + 1 / 2 := by
  have low := Int.floor_le q
  have high := Int.lt_floor_add_one q
  unfold roundEven
  split_ifs with down up <;> constructor <;> push_cast <;> linarith

theorem roundEven_natCast (n : Nat) : roundEven (n : ℚ) = n := by
  obtain ⟨below, above⟩ := roundEven_near (n : ℚ)
  have low : roundEven (n : ℚ) < (n : ℤ) + 1 := by
    have : (roundEven (n : ℚ) : ℚ) < n + 1 := by linarith
    exact_mod_cast this
  have high : (n : ℤ) < roundEven (n : ℚ) + 1 := by
    have : (n : ℚ) < roundEven (n : ℚ) + 1 := by linarith
    exact_mod_cast this
  omega

theorem roundEven_tie (tie : q = (roundEven q : ℚ) - 1 / 2 ∨ q = roundEven q + 1 / 2) :
    Even (roundEven q) := by
  have low := Int.floor_le q
  have high := Int.lt_floor_add_one q
  unfold roundEven at tie ⊢
  split_ifs at tie ⊢ with down up even
  · rcases tie with tie | tie <;> linarith
  · push_cast at tie
    rcases tie with tie | tie <;> linarith
  · exact even
  · exact (Int.not_even_iff_odd.mp even).add_one

/-- Around an even number ties are rounded to it. -/
theorem roundEven_lt (even : Even m) : roundEven q < m ↔ q < m - 1 / 2 := by
  obtain ⟨low, high⟩ := roundEven_near q
  constructor
  · intro below
    have le : (roundEven q : ℚ) ≤ m - 1 := by exact_mod_cast Int.le_sub_one_of_lt below
    apply lt_of_le_of_ne (by linarith)
    intro tie
    have last : roundEven q = m - 1 := by
      have : (roundEven q : ℚ) = m - 1 := le_antisymm le (by linarith)
      exact_mod_cast this
    have odd := roundEven_tie (q := q) (Or.inr (by rw [last, tie]; push_cast; ring))
    rw [last] at odd
    exact Int.not_even_iff_odd.mpr (even.sub_odd odd_one) odd
  · intro below
    have : (roundEven q : ℚ) < m := by linarith
    exact_mod_cast this

theorem lt_roundEven (even : Even m) : m < roundEven q ↔ m + 1 / 2 < q := by
  obtain ⟨low, high⟩ := roundEven_near q
  constructor
  · intro above
    have le : (m : ℚ) + 1 ≤ roundEven q := by exact_mod_cast Int.add_one_le_of_lt above
    apply lt_of_le_of_ne (by linarith)
    intro tie
    have next : roundEven q = m + 1 := by
      have : (roundEven q : ℚ) = m + 1 := le_antisymm (by linarith) le
      exact_mod_cast this
    have odd := roundEven_tie (q := q) (Or.inl (by rw [next, ← tie]; push_cast; ring))
    rw [next] at odd
    exact Int.not_even_iff_odd.mpr (even.add_odd odd_one) odd
  · intro above
    have : (m : ℚ) < roundEven q := by linarith
    exact_mod_cast this

end Decimals
