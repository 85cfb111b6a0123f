import Mathlib

/-!
# Ancestors up to a root

Every element has at most one parent. A path follows the parents and stops at a root;
it meets no element twice. Such paths survive new elements, and the removal of elements
that are nobody's parent.
-/
namespace Ancestry

variable {α : Type*} {parent parent' : α → α → Prop} {root root' : α → Prop}

inductive Path (parent : α → α → Prop) (root : α → Prop) : α → List α → Prop
  | stop {a : α} (top : root a) : Path parent root a [a]
  | up {a b : α} {path : List α} (below : ¬ root a) (link : parent a b)
      (rest : Path parent root b path) : Path parent root a (a :: path)

variable {a b : α} {path path' : List α}

theorem Path.unique (functional : ∀ a b c, parent a b → parent a c → b = c)
    (h : Path parent root a path) (h' : Path parent root a path') : path = path' := by
  induction h generalizing path' with
  | stop top =>
      cases h' with
      | stop _ => rfl
      | up below _ _ => exact absurd top below
  | up below link rest ih =>
      cases h' with
      | stop top => exact absurd top below
      | up _ link' rest' =>
          cases functional _ _ _ link link'
          rw [ih rest']

/-- From every element of a path the rest of it leads on. -/
theorem Path.from_mem (h : Path parent root a path) (m : b ∈ path) :
    ∃ path', Path parent root b path' ∧ path'.length ≤ path.length := by
  induction h with
  | stop top =>
      cases List.mem_singleton.mp m
      exact ⟨_, .stop top, le_rfl⟩
  | up below link rest ih =>
      rcases List.mem_cons.mp m with rfl | m
      · exact ⟨_, .up below link rest, le_rfl⟩
      · obtain ⟨path', h', shorter⟩ := ih m
        exact ⟨path', h', shorter.trans (Nat.le_succ _)⟩

theorem Path.nodup (functional : ∀ a b c, parent a b → parent a c → b = c)
    (h : Path parent root a path) : path.Nodup := by
  induction h with
  | stop top => exact List.nodup_singleton _
  | up below link rest ih =>
      refine List.nodup_cons.mpr ⟨fun m => ?_, ih⟩
      -- A second visit would lead on by a path both shorter and the same.
      obtain ⟨path', h', shorter⟩ := rest.from_mem m
      have same := h'.unique functional (.up below link rest)
      rw [same] at shorter
      exact absurd shorter (Nat.not_succ_le_self _)

/-- A path stays among elements that are kept together with their parents. -/
theorem Path.restrict (keep : α → Prop) (kept : keep a) (roots : ∀ b, keep b → (root' b ↔ root b))
    (links : ∀ b c, keep b → ¬ root b → parent b c → keep c ∧ parent' b c)
    (h : Path parent root a path) : Path parent' root' a path := by
  induction h with
  | stop top => exact .stop ((roots _ kept).mpr top)
  | up below link rest ih =>
      obtain ⟨kept', link'⟩ := links _ _ kept below link
      exact .up (mt (roots _ kept).mp below) link' (ih kept')

theorem Path.mono (links : ∀ b c, parent b c → parent' b c) (h : Path parent root a path) :
    Path parent' root a path :=
  h.restrict (fun _ => True) trivial (fun _ _ => Iff.rfl) fun b c _ _ link => ⟨trivial, links b c link⟩

theorem Path.forall {P : α → Prop} (start : P a) (links : ∀ b c, parent b c → P c)
    (h : Path parent root a path) : ∀ b ∈ path, P b := by
  induction h with
  | stop top => simpa using start
  | up below link rest ih => exact List.forall_mem_cons.mpr ⟨start, ih (links _ _ link)⟩

end Ancestry
