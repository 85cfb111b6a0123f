import Mathlib

/-!
# Write-back caching over a backing store

A cache maps some keys to a value and a dirty flag. What a reader sees is the
overlay of the cache on the store. Loading, dropping and writing back never
change the overlay as long as clean entries agree with the store.
-/
structure WriteBack (κ ν : Type*) where
  cached : κ → Option (ν × Bool)
  store : κ → ν

namespace WriteBack

variable {κ ν : Type*}

/-- The value a reader sees. -/
def overlay (w : WriteBack κ ν) (k : κ) : ν := ((w.cached k).map Prod.fst).getD (w.store k)

def Coherent (w : WriteBack κ ν) : Prop := ∀ k v, w.cached k = some (v, false) → w.store k = v

def clear (w : WriteBack κ ν) : WriteBack κ ν := { w with cached := fun _ => none }

/-- An entry that the store already holds. -/
def Saved (w : WriteBack κ ν) (k : κ) : Prop := ∀ v d, w.cached k = some (v, d) → w.store k = v

theorem overlay_of_none {w : WriteBack κ ν} {k : κ} (h : w.cached k = none) :
    w.overlay k = w.store k := by
  simp [overlay, h]

theorem overlay_of_some {w : WriteBack κ ν} {k : κ} {v : ν} {d : Bool}
    (h : w.cached k = some (v, d)) : w.overlay k = v := by
  simp [overlay, h]

theorem overlay_eq_store {w : WriteBack κ ν} {k : κ} (h : w.Saved k) : w.overlay k = w.store k := by
  cases hc : w.cached k with
  | none => exact overlay_of_none hc
  | some e => rw [overlay_of_some hc, h e.1 e.2 hc]

theorem overlay_clear {w : WriteBack κ ν} (h : ∀ k, w.Saved k) : w.clear.overlay = w.overlay := by
  funext k
  rw [overlay_eq_store (h k)]
  rfl

variable [DecidableEq κ]

/-- Replace or create the entry of `k`; the store is not touched. -/
def put (w : WriteBack κ ν) (k : κ) (v : ν) (dirty : Bool) : WriteBack κ ν :=
  { w with cached := Function.update w.cached k (some (v, dirty)) }

/-- Copy a dirty entry to the store and keep it cached. -/
def save (w : WriteBack κ ν) (k : κ) : WriteBack κ ν :=
  match w.cached k with
  | some (v, true) => { w with store := Function.update w.store k v }
  | _ => w

def drop (w : WriteBack κ ν) (k : κ) : WriteBack κ ν :=
  { w with cached := Function.update w.cached k none }

theorem overlay_put (w : WriteBack κ ν) (k : κ) (v : ν) (dirty : Bool) :
    (w.put k v dirty).overlay = Function.update w.overlay k v := by
  funext j
  by_cases same : j = k
  · subst same
    simp [overlay, put]
  · simp [overlay, put, same]

/-- A clean entry may only repeat the store. -/
theorem Coherent.put {w : WriteBack κ ν} (h : w.Coherent) {k : κ} {v : ν} {dirty : Bool}
    (clean : dirty = false → w.store k = v) : (w.put k v dirty).Coherent := by
  intro j u hj
  by_cases same : j = k
  · subst same
    simp only [WriteBack.put, Function.update_self, Option.some.injEq, Prod.mk.injEq] at hj
    rw [← hj.1]
    exact clean hj.2
  · exact h j u (by simpa [WriteBack.put, same] using hj)

@[simp] theorem save_cached (w : WriteBack κ ν) (k : κ) : (w.save k).cached = w.cached := by
  unfold save
  split <;> rfl

theorem overlay_save (w : WriteBack κ ν) (k : κ) : (w.save k).overlay = w.overlay := by
  funext j
  unfold save
  split
  · next v hk =>
      by_cases same : j = k
      · subst same
        simp [overlay, hk]
      · simp [overlay, same]
  · rfl

theorem Coherent.save {w : WriteBack κ ν} (h : w.Coherent) (k : κ) : (w.save k).Coherent := by
  intro j v hj
  rw [save_cached] at hj
  unfold WriteBack.save
  split
  · next u hk =>
      have other : j ≠ k := by
        rintro rfl
        rw [hk] at hj
        cases hj
      simpa [other] using h j v hj
  · exact h j v hj

theorem saved_save {w : WriteBack κ ν} (h : w.Coherent) (k : κ) : (w.save k).Saved k := by
  intro v d hk
  rw [save_cached] at hk
  unfold WriteBack.save
  cases d with
  | true => simp [hk]
  | false =>
      rw [hk]
      exact h k v hk

theorem Saved.save {w : WriteBack κ ν} {j : κ} (h : w.Saved j) (k : κ) : (w.save k).Saved j := by
  intro v d hj
  rw [save_cached] at hj
  unfold WriteBack.save
  split
  · next u hk =>
      by_cases same : j = k
      · subst same
        rw [hk] at hj
        cases hj
        simp
      · simpa [same] using h v d hj
  · exact h v d hj

/-- Dropping an entry the store already holds is invisible. -/
theorem overlay_drop {w : WriteBack κ ν} {k : κ} (h : w.Saved k) : (w.drop k).overlay = w.overlay := by
  funext j
  by_cases same : j = k
  · subst same
    rw [overlay_eq_store h]
    simp [overlay, drop]
  · simp [overlay, drop, same]

theorem Coherent.drop {w : WriteBack κ ν} (h : w.Coherent) (k : κ) : (w.drop k).Coherent := by
  intro j v hj
  by_cases same : j = k
  · subst same
    simp [WriteBack.drop] at hj
  · exact h j v (by simpa [WriteBack.drop, same] using hj)

end WriteBack
