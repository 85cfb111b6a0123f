import EECS339.Lib.FirstDifference
import EECS339.Block

/-!
# Comparing keys of any length

`operator<` and `operator==` give `memcmp` the larger of the two lengths. What comes
of that is said for a `memcmp` that stops at the first difference and for one that
looks at all the bytes it is given.
-/
namespace BTreeLab
open FirstDifference

abbrev Memcmp := List ByteT → List ByteT → Nat → Except Fault Int

/-- The same result, after a look at all `n` bytes of both operands. -/
def memcmpAll : Memcmp := fun as bs n =>
  if as.length < n ∨ bs.length < n then .error .outOfBounds else memcmp as bs n

namespace Block

/-- `operator<` on any `memcmp`. -/
def ltBy (cmp : Memcmp) (a b : Block) : Except Fault Bool :=
  (cmp a.data b.data (max a.length b.length)).map (· < 0)

def eqBy (cmp : Memcmp) (a b : Block) : Except Fault Bool :=
  (cmp a.data b.data (max a.length b.length)).map (· = 0)

variable {cmp : Memcmp} {a b c : Block} {as bs : List ByteT} {n : Nat}

def Less (cmp : Memcmp) (a b : Block) : Prop := ltBy cmp a b = .ok true

def Equal (cmp : Memcmp) (a b : Block) : Prop := eqBy cmp a b = .ok true

/-- The comparisons of `a` and `b` stay inside both and decide between three cases, one
of which is that the bytes are the same; with `c`, the order is transitive. -/
structure KeyOrder (cmp : Memcmp) (a b c : Block) : Prop where
  bounded : (∃ lt, ltBy cmp a b = .ok lt) ∧ (∃ eq, eqBy cmp a b = .ok eq) ∧ ∃ gt, ltBy cmp b a = .ok gt
  same : Equal cmp a b ↔ a.data = b.data
  some : Less cmp a b ∨ Equal cmp a b ∨ Less cmp b a
  one : ¬ (Less cmp a b ∧ Equal cmp a b) ∧ ¬ (Less cmp a b ∧ Less cmp b a) ∧
    ¬ (Equal cmp a b ∧ Less cmp b a)
  trans : Less cmp a b → Less cmp b c → Less cmp a c

/-- Neither operand is a beginning of the other, unless they are equally long. -/
def Comparable (a b : Block) : Prop :=
  a.length = b.length ∨ (¬ a.data <+: b.data ∧ ¬ b.data <+: a.data)

/-! ## Where `memcmp` ends -/

theorem memcmp_lt (before : Precedes as bs) (whole : as.length ≤ n) :
    ∃ r, memcmp as bs n = .ok r ∧ r < 0 := by
  induction before generalizing n with
  | @head x y as bs lt =>
      obtain ⟨n, rfl⟩ := Nat.exists_eq_add_of_lt (Nat.lt_of_succ_le whole)
      refine ⟨(x.toNat : Int) - y.toNat, ?_, ?_⟩
      · rw [memcmp, if_neg lt.ne]
      · have := BitVec.lt_def.mp lt
        omega
  | @cons x as bs rest ih =>
      obtain ⟨k, rfl⟩ := Nat.exists_eq_add_of_le' (le_trans (Nat.succ_le_succ (Nat.zero_le _)) whole)
      obtain ⟨r, ran, neg⟩ := ih (Nat.le_of_succ_le_succ whole)
      exact ⟨r, by rw [memcmp, if_pos rfl, ran], neg⟩

theorem memcmp_gt (before : Precedes bs as) (whole : bs.length ≤ n) :
    ∃ r, memcmp as bs n = .ok r ∧ 0 < r := by
  induction before generalizing n with
  | @head y x bs as lt =>
      obtain ⟨n, rfl⟩ := Nat.exists_eq_add_of_lt (Nat.lt_of_succ_le whole)
      refine ⟨(x.toNat : Int) - y.toNat, ?_, ?_⟩
      · rw [memcmp, if_neg lt.ne']
      · have := BitVec.lt_def.mp lt
        omega
  | @cons x bs as rest ih =>
      obtain ⟨k, rfl⟩ := Nat.exists_eq_add_of_le' (le_trans (Nat.succ_le_succ (Nat.zero_le _)) whole)
      obtain ⟨r, ran, pos⟩ := ih (Nat.le_of_succ_le_succ whole)
      exact ⟨r, by rw [memcmp, if_pos rfl, ran], pos⟩

/-- Behind the end of the shorter operand nothing may be read. -/
theorem memcmp_front (front : as <+: bs ∨ bs <+: as) (past : as.length < n ∨ bs.length < n) :
    memcmp as bs n = .error .outOfBounds := by
  induction n generalizing as bs with
  | zero => exact absurd past (by omega)
  | succ n ih =>
      cases as with
      | nil => rfl
      | cons x as =>
          cases bs with
          | nil => rfl
          | cons y bs =>
              simp only [List.length_cons, Nat.add_lt_add_iff_right] at past
              rcases front with front | front
              · obtain ⟨rfl, rest⟩ := List.cons_prefix_cons.mp front
                rw [memcmp, if_pos rfl, ih (Or.inl rest) past]
              · obtain ⟨rfl, rest⟩ := List.cons_prefix_cons.mp front
                rw [memcmp, if_pos rfl, ih (Or.inr rest) past]

/-- The four ways in which the comparison of two keys ends. -/
inductive Ends (as bs : List ByteT) : Except Fault Int → Prop
  | less {r : Int} (before : Precedes as bs) (neg : r < 0) : Ends as bs (.ok r)
  | greater {r : Int} (before : Precedes bs as) (pos : 0 < r) : Ends as bs (.ok r)
  | equal (same : as = bs) : Ends as bs (.ok 0)
  | overrun (front : as <+: bs ∨ bs <+: as) (other : as.length ≠ bs.length) :
      Ends as bs (.error .outOfBounds)

theorem memcmp_ends (as bs : List ByteT) : Ends as bs (memcmp as bs (max as.length bs.length)) := by
  rcases precedes_or_front as bs with before | before | front
  · obtain ⟨r, ran, neg⟩ := memcmp_lt before (le_max_left as.length bs.length)
    rw [ran]
    exact .less before neg
  · obtain ⟨r, ran, pos⟩ := memcmp_gt before (le_max_right as.length bs.length)
    rw [ran]
    exact .greater before pos
  · by_cases length : as.length = bs.length
    · have same : as = bs := by
        rcases front with front | front
        · exact front.eq_of_length length
        · exact (front.eq_of_length length.symm).symm
      subst same
      obtain ⟨r, ran, -, zero⟩ := memcmp_sign (rfl : as.length = as.length)
      rw [Nat.max_self, ran, zero.mpr rfl]
      exact .equal rfl
    · rw [memcmp_front front (by omega)]
      exact .overrun front length

/-! ## The two orders -/

theorem less_iff : Less memcmp a b ↔ Precedes a.data b.data := by
  have ends := memcmp_ends a.data b.data
  rw [Less, ltBy, Block.length, Block.length]
  generalize memcmp a.data b.data (max a.data.length b.data.length) = result at ends ⊢
  cases ends with
  | less before neg => simp [Except.map, before, neg]
  | greater before pos => simp [Except.map, before.asymm, pos.le]
  | equal same =>
      rw [same]
      simp only [Except.map, lt_irrefl, decide_false, Except.ok.injEq, Bool.false_eq_true, false_iff]
      exact fun self => self.asymm self
  | overrun front other =>
      simp only [Except.map, reduceCtorEq, false_iff]
      exact fun before => front.elim before.not_front.1 before.not_front.2

theorem equal_iff : Equal memcmp a b ↔ a.data = b.data := by
  have ends := memcmp_ends a.data b.data
  rw [Equal, eqBy, Block.length, Block.length]
  generalize memcmp a.data b.data (max a.data.length b.data.length) = result at ends ⊢
  cases ends with
  | less before neg =>
      have other : a.data ≠ b.data := fun same => before.not_front.1 (same ▸ List.prefix_rfl)
      simp [Except.map, other, neg.ne]
  | greater before pos =>
      have other : a.data ≠ b.data := fun same => before.not_front.1 (same ▸ List.prefix_rfl)
      simp [Except.map, other, pos.ne']
  | equal same => simp [Except.map, same]
  | overrun front other =>
      simp only [Except.map, reduceCtorEq, false_iff]
      exact fun same => other (congrArg List.length same)

theorem map_returns {α β : Type} {f : α → β} {x : Except Fault α} :
    (∃ y, x.map f = .ok y) ↔ ∃ r, x = .ok r := by
  constructor
  · rintro ⟨y, ran⟩
    cases x with
    | error e => cases ran
    | ok r => exact ⟨r, rfl⟩
  · rintro ⟨r, rfl⟩
    exact ⟨f r, rfl⟩

theorem memcmp_returns :
    (∃ r, memcmp a.data b.data (max a.length b.length) = .ok r) ↔ Comparable a b := by
  have ends := memcmp_ends a.data b.data
  rw [Block.length, Block.length, Comparable]
  generalize memcmp a.data b.data (max a.data.length b.data.length) = result at ends ⊢
  cases ends with
  | less before neg => exact iff_of_true ⟨_, rfl⟩ (Or.inr before.not_front)
  | greater before pos => exact iff_of_true ⟨_, rfl⟩ (Or.inr before.not_front.symm)
  | equal same => exact iff_of_true ⟨_, rfl⟩ (Or.inl (congrArg List.length same))
  | overrun front other =>
      refine iff_of_false (by simp) ?_
      rintro (length | ⟨apart, apart'⟩)
      · exact other length
      · exact front.elim apart apart'

theorem Comparable.symm (h : Comparable a b) : Comparable b a := h.imp Eq.symm And.symm

theorem keyOrder_memcmp : KeyOrder memcmp a b c ↔ Comparable a b := by
  constructor
  · exact fun h => memcmp_returns.mp (map_returns.mp h.bounded.1)
  · intro h
    have returns := memcmp_returns.mpr h
    refine ⟨⟨map_returns.mpr returns, map_returns.mpr returns,
      map_returns.mpr (memcmp_returns.mpr h.symm)⟩, equal_iff, ?_, ?_, ?_⟩
    · rw [less_iff, equal_iff, less_iff]
      rcases precedes_or_front a.data b.data with before | before | front
      · exact Or.inl before
      · exact Or.inr (Or.inr before)
      · rcases h with length | ⟨apart, apart'⟩
        · refine Or.inr (Or.inl ?_)
          rcases front with front | front
          · exact front.eq_of_length length
          · exact (front.eq_of_length length.symm).symm
        · exact (front.elim apart apart').elim
    · rw [less_iff, equal_iff, less_iff]
      refine ⟨?_, fun both => both.1.asymm both.2, ?_⟩
      · rintro ⟨before, same⟩
        rw [same] at before
        exact before.asymm before
      · rintro ⟨same, before⟩
        rw [same] at before
        exact before.asymm before
    · rw [less_iff, less_iff, less_iff]
      exact Precedes.trans

theorem memcmpAll_same (length : a.length = b.length) :
    memcmpAll a.data b.data (max a.length b.length) = memcmp a.data b.data (max a.length b.length) := by
  refine if_neg ?_
  simp only [Block.length] at length ⊢
  omega

theorem memcmpAll_other (length : a.length ≠ b.length) :
    memcmpAll a.data b.data (max a.length b.length) = .error .outOfBounds := by
  refine if_pos ?_
  simp only [Block.length] at length ⊢
  omega

theorem less_all_iff : Less memcmpAll a b ↔ a.length = b.length ∧ Less memcmp a b := by
  simp only [Less, ltBy]
  by_cases length : a.length = b.length
  · rw [memcmpAll_same length, and_iff_right length]
  · rw [memcmpAll_other length]
    exact iff_of_false (by simp [Except.map]) fun h => length h.1

theorem equal_all_iff : Equal memcmpAll a b ↔ Equal memcmp a b := by
  by_cases length : a.length = b.length
  · rw [Equal, eqBy, memcmpAll_same length]
    rfl
  · rw [equal_iff, Equal, eqBy, memcmpAll_other length]
    exact iff_of_false (by simp [Except.map]) fun same => length (congrArg List.length same)

theorem keyOrder_memcmpAll : KeyOrder memcmpAll a b c ↔ a.length = b.length := by
  constructor
  · intro h
    by_contra length
    obtain ⟨lt, ran⟩ := h.bounded.1
    rw [ltBy, memcmpAll_other length] at ran
    cases ran
  · intro length
    have h : KeyOrder memcmp a b c := keyOrder_memcmp.mpr (Or.inl length)
    have bounded := h.bounded
    refine ⟨?_, ?_, ?_, ?_, ?_⟩
    · simpa only [ltBy, eqBy, memcmpAll_same length, memcmpAll_same length.symm] using bounded
    · rw [equal_all_iff]
      exact h.same
    · rw [less_all_iff, equal_all_iff, less_all_iff]
      exact h.some.imp (⟨length, ·⟩) (.imp id (⟨length.symm, ·⟩))
    · rw [less_all_iff, equal_all_iff, less_all_iff]
      obtain ⟨first, second, third⟩ := h.one
      exact ⟨fun both => first ⟨both.1.2, both.2⟩, fun both => second ⟨both.1.2, both.2.2⟩,
        fun both => third ⟨both.1, both.2.2⟩⟩
    · rw [less_all_iff, less_all_iff, less_all_iff]
      exact fun first second => ⟨first.1.trans second.1, h.trans first.2 second.2⟩

/-- The comparison of two keys is bounded and a strict total order exactly if neither
key is a proper beginning of the other; for a `memcmp` that looks at all it is given,
exactly if they are equally long. -/
theorem keyOrder_iff (a b c : Block) : (KeyOrder memcmp a b c ↔ Comparable a b) ∧
    (KeyOrder memcmpAll a b c ↔ a.length = b.length) :=
  ⟨keyOrder_memcmp, keyOrder_memcmpAll⟩

/-- A key of one byte against one that starts with it, and the empty key. -/
theorem short_key_overruns :
    Block.lt (ofBytes (text "a")) (ofBytes (text "ab")) = .error .outOfBounds ∧
      Block.eq (ofBytes []) (ofBytes (text "a")) = .error .outOfBounds ∧
      ¬ KeyOrder memcmp (ofBytes (text "a")) (ofBytes (text "ab")) (ofBytes []) := by
  refine ⟨by decide, by decide, fun h => ?_⟩
  obtain ⟨lt, ran⟩ := h.bounded.1
  have outside : ltBy memcmp (ofBytes (text "a")) (ofBytes (text "ab")) = .error .outOfBounds := by decide
  rw [outside] at ran
  cases ran

end Block
end BTreeLab
