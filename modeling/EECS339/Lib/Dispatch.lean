import Mathlib

/-!
# Dispatch on a key

A series of independent conditionals on one key that no branch changes. With
distinct keys at most one branch is taken.
-/
namespace Dispatch

variable {κ σ : Type*} [DecidableEq κ] {handlers : List (κ × (σ → σ))} {k : κ} {f : σ → σ}

def dispatch (handlers : List (κ × (σ → σ))) (k : κ) (s : σ) : σ :=
  handlers.foldl (fun s h => if k = h.1 then h.2 s else s) s

theorem dispatch_none (absent : k ∉ handlers.map Prod.fst) (s : σ) : dispatch handlers k s = s := by
  induction handlers generalizing s with
  | nil => rfl
  | cons h handlers ih =>
      obtain ⟨ne, absent⟩ := List.ne_and_not_mem_of_not_mem_cons absent
      rw [dispatch, List.foldl_cons, if_neg ne]
      exact ih absent s

theorem dispatch_mem (distinct : (handlers.map Prod.fst).Nodup) (m : (k, f) ∈ handlers) (s : σ) :
    dispatch handlers k s = f s := by
  induction handlers generalizing s with
  | nil => cases m
  | cons h handlers ih =>
      obtain ⟨fresh, distinct⟩ := List.nodup_cons.mp distinct
      rw [dispatch, List.foldl_cons]
      rcases List.mem_cons.mp m with rfl | m
      · rw [if_pos rfl]
        exact dispatch_none fresh (f s)
      · have ne : k ≠ h.1 := fun same => fresh (same ▸ List.mem_map_of_mem m)
        rw [if_neg ne]
        exact ih distinct m s

/-- Nothing happens, or exactly what one handler does. -/
theorem dispatch_cases (distinct : (handlers.map Prod.fst).Nodup) (k : κ) (s : σ) :
    dispatch handlers k s = s ∨ ∃ f, (k, f) ∈ handlers ∧ dispatch handlers k s = f s := by
  by_cases known : k ∈ handlers.map Prod.fst
  · obtain ⟨⟨k', f⟩, m, rfl⟩ := List.mem_map.mp known
    exact Or.inr ⟨f, m, dispatch_mem distinct m s⟩
  · exact Or.inl (dispatch_none known s)

end Dispatch
