import Mathlib

/-!
# Null-terminated chains

A chain starts at a head and follows links until it meets `nil`. Links live in
a store that other writes also change, so they are a relation.
-/
namespace LinkedChain

variable {κ : Type*}

def Chain (link : κ → κ → Prop) (nil : κ) : κ → List κ → Prop
  | head, [] => head = nil
  | head, x :: rest => head = x ∧ x ≠ nil ∧ ∃ next, link x next ∧ Chain link nil next rest

variable {link link' : κ → κ → Prop} {nil head x : κ} {l : List κ}

theorem Chain.ne_nil (h : Chain link nil head l) : ∀ y ∈ l, y ≠ nil := by
  induction l generalizing head with
  | nil => simp
  | cons z rest ih =>
      obtain ⟨-, ne, next, -, tail⟩ := h
      exact List.forall_mem_cons.mpr ⟨ne, ih tail⟩

theorem Chain.empty_iff (h : Chain link nil head l) : l = [] ↔ head = nil := by
  cases l with
  | nil => exact iff_of_true rfl h
  | cons z rest => exact iff_of_false (List.cons_ne_nil _ _) (h.1 ▸ h.2.1)

theorem Chain.congr (h : Chain link nil head l) (frame : ∀ y ∈ l, ∀ n, link y n → link' y n) :
    Chain link' nil head l := by
  induction l generalizing head with
  | nil => exact h
  | cons z rest ih =>
      obtain ⟨eq, ne, next, step, tail⟩ := h
      exact ⟨eq, ne, next, frame z List.mem_cons_self next step,
        ih tail fun y m => frame y (List.mem_cons_of_mem _ m)⟩

theorem Chain.push (h : Chain link nil head l) (ne : x ≠ nil) (new : link x head) :
    Chain link nil x (x :: l) := ⟨rfl, ne, head, new, h⟩

/-- The first cell of a chain that is not empty, and the chain behind its link. -/
theorem Chain.pop (h : Chain link nil head l) (ne : head ≠ nil) :
    ∃ next rest, l = head :: rest ∧ link head next ∧ Chain link nil next rest := by
  cases l with
  | nil => exact absurd h ne
  | cons z rest =>
      obtain ⟨rfl, -, next, step, tail⟩ := h
      exact ⟨next, rest, rfl, step, tail⟩

/-- Where links are functional the chain is determined by its head. -/
theorem Chain.unique (functional : ∀ y n m, link y n → link y m → n = m) {k : List κ}
    (h : Chain link nil head l) (h' : Chain link nil head k) : l = k := by
  induction l generalizing head k with
  | nil => exact ((h'.empty_iff).mpr h).symm
  | cons z rest ih =>
      obtain ⟨rfl, ne, next, step, tail⟩ := h
      obtain ⟨next', rest', rfl, step', tail'⟩ := h'.pop ne
      rw [functional _ _ _ step' step] at tail'
      rw [ih tail tail']

end LinkedChain
