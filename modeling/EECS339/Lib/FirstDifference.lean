import Mathlib

/-!
# The order of the first difference

Two lists are ordered by the first position in which they differ. A list and its
beginning do not differ in any position that both have, so they are not ordered.
-/
namespace FirstDifference

variable {α : Type*} [LinearOrder α]

inductive Precedes : List α → List α → Prop
  | head {a b : α} {l m : List α} (lt : a < b) : Precedes (a :: l) (b :: m)
  | cons {a : α} {l m : List α} (rest : Precedes l m) : Precedes (a :: l) (a :: m)

variable {l m k : List α}

theorem Precedes.trans (h : Precedes l m) (h' : Precedes m k) : Precedes l k := by
  induction h generalizing k with
  | head lt =>
      cases h' with
      | head lt' => exact .head (lt.trans lt')
      | cons rest => exact .head lt
  | cons rest ih =>
      cases h' with
      | head lt => exact .head lt
      | cons rest' => exact .cons (ih rest')

theorem Precedes.asymm (h : Precedes l m) : ¬ Precedes m l := by
  induction h with
  | head lt =>
      intro back
      cases back with
      | head gt => exact lt_asymm lt gt
      | cons rest => exact lt_irrefl _ lt
  | cons rest ih =>
      intro back
      cases back with
      | head lt => exact lt_irrefl _ lt
      | cons rest' => exact ih rest'

/-- Ordered lists differ, so neither is the beginning of the other. -/
theorem Precedes.not_front (h : Precedes l m) : ¬ l <+: m ∧ ¬ m <+: l := by
  induction h with
  | head lt =>
      constructor
      · exact fun front => absurd (List.cons_prefix_cons.mp front).1 lt.ne
      · exact fun front => absurd (List.cons_prefix_cons.mp front).1 lt.ne'
  | cons rest ih =>
      constructor
      · exact fun front => ih.1 (List.cons_prefix_cons.mp front).2
      · exact fun front => ih.2 (List.cons_prefix_cons.mp front).2

/-- Any two lists are ordered or one is the beginning of the other. -/
theorem precedes_or_front (l m : List α) : Precedes l m ∨ Precedes m l ∨ l <+: m ∨ m <+: l := by
  induction l generalizing m with
  | nil => exact Or.inr (Or.inr (Or.inl List.nil_prefix))
  | cons a l ih =>
      cases m with
      | nil => exact Or.inr (Or.inr (Or.inr List.nil_prefix))
      | cons b m =>
          rcases lt_trichotomy a b with lt | rfl | gt
          · exact Or.inl (.head lt)
          · simp only [List.cons_prefix_cons, true_and]
            rcases ih m with before | behind | fronts
            · exact Or.inl (.cons before)
            · exact Or.inr (Or.inl (.cons behind))
            · exact Or.inr (Or.inr fronts)
          · exact Or.inr (Or.inl (.head gt))

end FirstDifference
