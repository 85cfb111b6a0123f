import Mathlib

/-!
# Tokens between separators

Reading a token skips separators and then takes what comes before the next one.
Cutting splits at the first occurrence of one separator and may yield an empty part.
-/
namespace Tokens

variable {α : Type*}

def token (sep : α → Bool) (l : List α) : List α × List α :=
  ((l.dropWhile sep).takeWhile fun a => !sep a, (l.dropWhile sep).dropWhile fun a => !sep a)

def IsToken (sep : α → Bool) (w : List α) : Prop := w ≠ [] ∧ ∀ a ∈ w, sep a = false

variable {sep : α → Bool} {w rest : List α} {s : α}

/-- For words that are given, both sides evaluate. -/
theorem IsToken.of_all (nonempty : w ≠ []) (whole : (w.all fun a => !sep a) = true) : IsToken sep w := by
  refine ⟨nonempty, fun a m => ?_⟩
  have inside := List.all_eq_true.mp whole a m
  rwa [Bool.not_eq_true'] at inside

theorem takeWhile_append_stop (rest : List α) {p : α → Bool} (all : ∀ a ∈ w, p a = true)
    (stop : p s = false) :
    (w ++ s :: rest).takeWhile p = w ∧ (w ++ s :: rest).dropWhile p = s :: rest := by
  induction w with
  | nil => simp [stop]
  | cons a w ih =>
      obtain ⟨first, others⟩ := List.forall_mem_cons.mp all
      obtain ⟨taken, dropped⟩ := ih others
      exact ⟨by simp [first, taken], by simp [first, dropped]⟩

/-- Where a run of elements ends is seen from the text behind it. -/
theorem append_stop_inj {p : α → Bool} {w' rest' : List α} {s' : α} (all : ∀ a ∈ w, p a = true)
    (all' : ∀ a ∈ w', p a = true) (stop : p s = false) (stop' : p s' = false)
    (same : w ++ s :: rest = w' ++ s' :: rest') : w = w' ∧ s = s' ∧ rest = rest' := by
  obtain ⟨taken, dropped⟩ := takeWhile_append_stop rest all stop
  obtain ⟨taken', dropped'⟩ := takeWhile_append_stop rest' all' stop'
  rw [same] at taken dropped
  rw [dropped'] at dropped
  obtain ⟨first, others⟩ := List.cons.inj dropped
  exact ⟨taken.symm.trans taken', first.symm, others.symm⟩

/-- What the elements have in common keeps others out. -/
theorem not_mem_of_all {p : α → Bool} {b : Bool} (all : ∀ a ∈ w, p a = b) (other : p s ≠ b) : s ∉ w :=
  fun m => other (all s m)

theorem token_append (hw : IsToken sep w) (hs : sep s = true) :
    token sep (w ++ s :: rest) = (w, s :: rest) := by
  obtain ⟨ne, all⟩ := hw
  have start : (w ++ s :: rest).dropWhile sep = w ++ s :: rest := by
    cases w with
    | nil => exact absurd rfl ne
    | cons a w => simp [(List.forall_mem_cons.mp all).1]
  have stop := takeWhile_append_stop rest (p := fun a => !sep a) (w := w) (s := s)
    (fun a m => by simp [all a m]) (by simp [hs])
  rw [token, start, stop.1, stop.2]

/-- The token may be the end of the text. -/
theorem token_tail {tail : List α} (hw : IsToken sep w) (ends : ∀ s ∈ tail.head?, sep s = true) :
    token sep (w ++ tail) = (w, tail) := by
  cases tail with
  | cons s rest => exact token_append hw (ends s rfl)
  | nil =>
      obtain ⟨ne, all⟩ := hw
      have start : w.dropWhile sep = w := by
        cases w with
        | nil => rfl
        | cons a w => simp [(List.forall_mem_cons.mp all).1]
      have whole : ∀ a ∈ w, (!sep a) = true := fun a m => by simp [all a m]
      rw [List.append_nil, token, start, List.takeWhile_eq_self_iff.mpr whole,
        List.dropWhile_eq_nil_iff.mpr whole]

theorem token_isToken {l : List α} (nonempty : (token sep l).1 ≠ []) : IsToken sep (token sep l).1 := by
  refine ⟨nonempty, ?_⟩
  intro a m
  simpa using List.mem_takeWhile_imp m

/-- Without a first token there is nothing for a second one. -/
theorem token_nil {l : List α} (empty : (token sep l).1 = []) : (token sep l).2 = [] := by
  simp only [token] at empty ⊢
  cases front : l.dropWhile sep with
  | nil => rfl
  | cons a rest =>
      have start : sep a = false := by
        have := List.head?_dropWhile_not sep l
        rw [front] at this
        simpa using this
      rw [front, List.takeWhile_cons_of_pos (by simp [start])] at empty
      cases empty

section Cut

variable [DecidableEq α]

/-- What comes before the first `c`, and what comes behind it if there is one. -/
def cut (c : α) : List α → List α × Option (List α)
  | [] => ([], none)
  | a :: l => if a = c then ([], some l) else (a :: (cut c l).1, (cut c l).2)

variable {c : α} {u l : List α}

theorem cut_append (free : c ∉ u) : cut c (u ++ c :: rest) = (u, some rest) := by
  induction u with
  | nil => simp [cut]
  | cons a u ih =>
      obtain ⟨ne, free⟩ := List.ne_and_not_mem_of_not_mem_cons free
      simp only [List.cons_append, cut, if_neg (Ne.symm ne), ih free]

theorem cut_none (free : c ∉ u) : cut c u = (u, none) := by
  induction u with
  | nil => rfl
  | cons a u ih =>
      obtain ⟨ne, free⟩ := List.ne_and_not_mem_of_not_mem_cons free
      simp only [cut, if_neg (Ne.symm ne), ih free]

theorem cut_free (c : α) (l : List α) : c ∉ (cut c l).1 := by
  induction l with
  | nil => exact List.not_mem_nil
  | cons a l ih =>
      rw [cut]
      split_ifs with same
      · exact List.not_mem_nil
      · exact List.not_mem_cons_of_ne_of_not_mem (Ne.symm same) ih

end Cut

/-! ## Greedy matches -/

section Longest

variable {β : Type*} {next : List α → Option β} {l : List α} {n : Nat}

/-- A nonempty part of at most `n` elements, as long as it can be if `next` is to
match what follows. -/
def longest (next : List α → Option β) (l : List α) : Nat → Option (List α × β)
  | 0 => none
  | n + 1 =>
      match next (l.drop (n + 1)) with
      | some b => some (l.take (n + 1), b)
      | none => longest next l n

/-- The longest part without separators that `next` can follow. -/
def word (sep : α → Bool) (next : List α → Option β) (l : List α) : Option (List α × β) :=
  longest next l (l.takeWhile fun a => !sep a).length

/-- A match of some length is found unless a longer one is. -/
theorem longest_of_match {m : Nat} {b : β} (pos : 1 ≤ m) (le : m ≤ n)
    (matches_ : next (l.drop m) = some b) :
    ∃ m' b', m ≤ m' ∧ m' ≤ n ∧ longest next l n = some (l.take m', b') ∧
      next (l.drop m') = some b' := by
  induction n with
  | zero => omega
  | succ n ih =>
      rw [longest]
      cases first : next (l.drop (n + 1)) with
      | some b' => exact ⟨n + 1, b', le, le_rfl, rfl, first⟩
      | none =>
          have lt : m ≠ n + 1 := by
            rintro rfl
            rw [first] at matches_
            cases matches_
          obtain ⟨m', b', ge, le', found⟩ := ih (by omega)
          exact ⟨m', b', ge, Nat.le_succ_of_le le', found⟩

end Longest

end Tokens
