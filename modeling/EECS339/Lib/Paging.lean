import Mathlib

/-!
# Paging without a bound

A write-back cache that gives a page up only when it is told to. A cache with a bound gives
pages up earlier: its calls are the same with flushes between them, and that can only cost
more transfers.
-/
namespace Paging

variable {κ : Type*}

inductive Call (κ : Type*) where
  | read (k : κ)
  | write (k : κ)
  | flush (k : κ)
  | forget
  | flushAll

namespace Call

def isRead : Call κ → Bool
  | .read _ => true
  | _ => false

def isWrite : Call κ → Bool
  | .write _ => true
  | _ => false

end Call

/-- The pages held, those of them that were changed, and the transfers so far. -/
structure Cache (κ : Type*) where
  held : Finset κ
  dirty : Finset κ
  loads : Nat
  stores : Nat

namespace Cache

def empty : Cache κ := ⟨∅, ∅, 0, 0⟩

variable {a b : Cache κ} {calls calls' : List (Call κ)}

/-- `a` holds what `b` holds and has not paid more for it. -/
structure Ahead (a b : Cache κ) : Prop where
  held : b.held ⊆ a.held
  dirty : b.dirty ⊆ a.dirty
  loads : a.loads ≤ b.loads
  stores : a.stores + a.dirty.card ≤ b.stores + b.dirty.card

theorem Ahead.refl (a : Cache κ) : Ahead a a := ⟨subset_rfl, subset_rfl, le_rfl, le_rfl⟩

theorem Ahead.paid (h : Ahead a b) : a.stores ≤ b.stores := by
  have fewer := Finset.card_le_card h.dirty
  have total := h.stores
  omega

/-- The second list is the first one with flushes between its calls. -/
inductive Early : List (Call κ) → List (Call κ) → Prop
  | nil : Early [] []
  | call {calls calls' : List (Call κ)} (call : Call κ) (rest : Early calls calls') :
      Early (call :: calls) (call :: calls')
  | flush {calls calls' : List (Call κ)} (k : κ) (rest : Early calls calls') :
      Early calls (.flush k :: calls')

theorem Early.append_left (calls : List (Call κ)) {rest rest' : List (Call κ)} (early : Early rest rest') :
    Early (calls ++ rest) (calls ++ rest') := by
  induction calls with
  | nil => exact early
  | cons call calls ih => exact .call call ih

/-- Flushes count for nothing else. -/
theorem Early.countP (early : Early calls calls') {p : Call κ → Bool} (others : ∀ k, p (.flush k) = false) :
    calls'.countP p = calls.countP p := by
  induction early with
  | nil => rfl
  | call call rest ih => rw [List.countP_cons, List.countP_cons, ih]
  | flush k rest ih => rw [List.countP_cons, ih, others, if_neg Bool.false_ne_true, Nat.add_zero]

/-! ## Calls -/

variable [DecidableEq κ]

/-- `forget` loses what was changed. -/
def next (a : Cache κ) : Call κ → Cache κ
  | .read k => { a with held := insert k a.held, loads := a.loads + ({k} \ a.held).card }
  | .write k => { a with held := insert k a.held, dirty := insert k a.dirty }
  | .flush k => { a with
      held := a.held.erase k, dirty := a.dirty.erase k, stores := a.stores + (a.dirty ∩ {k}).card }
  | .forget => { a with held := ∅, dirty := ∅ }
  | .flushAll => { a with held := ∅, dirty := ∅, stores := a.stores + a.dirty.card }

def run (a : Cache κ) (calls : List (Call κ)) : Cache κ := calls.foldl next a

@[simp] theorem run_nil (a : Cache κ) : a.run [] = a := rfl

@[simp] theorem run_cons (a : Cache κ) (call : Call κ) (calls : List (Call κ)) :
    a.run (call :: calls) = (a.next call).run calls := rfl

@[simp] theorem run_append (a : Cache κ) (calls calls' : List (Call κ)) :
    a.run (calls ++ calls') = (a.run calls).run calls' := List.foldl_append

/-! ## Costs -/

theorem card_flush (s : Finset κ) (k : κ) : (s ∩ {k}).card + (s.erase k).card = s.card := by
  rw [Finset.erase_eq, Nat.add_comm, Finset.card_sdiff_add_card_inter]

theorem next_loads_le (a : Cache κ) (call : Call κ) : (a.next call).loads ≤ a.loads + call.isRead.toNat := by
  cases call with
  | read k =>
      have one := Finset.card_le_card (Finset.sdiff_subset (s := {k}) (t := a.held))
      rw [Finset.card_singleton] at one
      exact Nat.add_le_add_left one _
  | _ => exact le_rfl

/-- A changed page is a store to come. -/
theorem next_stores_le (a : Cache κ) (call : Call κ) :
    (a.next call).stores + (a.next call).dirty.card ≤ a.stores + a.dirty.card + call.isWrite.toNat := by
  cases call with
  | read k => exact le_rfl
  | write k =>
      have one := Finset.card_insert_le k a.dirty
      simp only [next, Call.isWrite, Bool.toNat_true]
      omega
  | flush k =>
      have parts := card_flush a.dirty k
      simp only [next, Call.isWrite, Bool.toNat_false]
      omega
  | forget =>
      simp only [next, Call.isWrite, Finset.card_empty, Bool.toNat_false]
      omega
  | flushAll =>
      simp only [next, Call.isWrite, Finset.card_empty, Bool.toNat_false]
      omega

/-- What each call adds at most once is at most the number of such calls. -/
theorem run_le {f : Cache κ → Nat} {p : Call κ → Bool}
    (step : ∀ a call, f (a.next call) ≤ f a + (p call).toNat)
    (a : Cache κ) (calls : List (Call κ)) : f (a.run calls) ≤ f a + calls.countP p := by
  induction calls generalizing a with
  | nil => exact le_rfl
  | cons call calls ih =>
      have first := step a call
      have others := ih (a.next call)
      rw [run_cons, List.countP_cons]
      cases counted : p call with
      | true =>
          rw [counted, Bool.toNat_true] at first
          simp only [if_true]
          omega
      | false =>
          rw [counted, Bool.toNat_false] at first
          simp only [Bool.false_eq_true, if_false]
          omega

theorem run_loads_le (a : Cache κ) (calls : List (Call κ)) :
    (a.run calls).loads ≤ a.loads + calls.countP Call.isRead := run_le next_loads_le a calls

theorem run_stores_le (a : Cache κ) (calls : List (Call κ)) :
    (a.run calls).stores + (a.run calls).dirty.card ≤ a.stores + a.dirty.card + calls.countP Call.isWrite :=
  run_le (f := fun a => a.stores + a.dirty.card) next_stores_le a calls

/-! ## Flushing early -/

theorem Ahead.next (h : Ahead a b) (call : Call κ) : Ahead (a.next call) (b.next call) := by
  cases call with
  | read k =>
      refine ⟨Finset.insert_subset_insert k h.held, h.dirty, Nat.add_le_add h.loads ?_, h.stores⟩
      exact Finset.card_le_card (Finset.sdiff_subset_sdiff subset_rfl h.held)
  | write k =>
      refine ⟨Finset.insert_subset_insert k h.held, Finset.insert_subset_insert k h.dirty, h.loads, ?_⟩
      have total := h.stores
      change a.stores + (insert k a.dirty).card ≤ b.stores + (insert k b.dirty).card
      by_cases changed : k ∈ b.dirty
      · rw [Finset.insert_eq_of_mem changed, Finset.insert_eq_of_mem (h.dirty changed)]
        exact total
      · rw [Finset.card_insert_of_notMem changed]
        have one := Finset.card_insert_le k a.dirty
        omega
  | flush k =>
      refine ⟨Finset.erase_subset_erase k h.held, Finset.erase_subset_erase k h.dirty, h.loads, ?_⟩
      have total := h.stores
      have parts := card_flush a.dirty k
      have parts' := card_flush b.dirty k
      simp only [Cache.next]
      omega
  | forget => exact ⟨subset_rfl, subset_rfl, h.loads, Nat.add_le_add_right h.paid _⟩
  | flushAll => exact ⟨subset_rfl, subset_rfl, h.loads, h.stores⟩

theorem Ahead.flush (h : Ahead a b) (k : κ) : Ahead a (b.next (.flush k)) := by
  refine ⟨(Finset.erase_subset k _).trans h.held, (Finset.erase_subset k _).trans h.dirty, h.loads, ?_⟩
  have total := h.stores
  have parts := card_flush b.dirty k
  simp only [Cache.next]
  omega

theorem Ahead.run (h : Ahead a b) (early : Early calls calls') : Ahead (a.run calls) (b.run calls') := by
  induction early generalizing a b with
  | nil => exact h
  | call call rest ih => exact ih (h.next call)
  | flush k rest ih => exact ih (h.flush k)

end Cache
end Paging
