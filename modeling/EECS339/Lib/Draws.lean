import Mathlib

/-!
# Programs that draw random numbers

The numbers come from a finite supply. A program that still asks when the supply is empty
has not finished, so what holds of every finished run holds whatever the numbers are.
-/
namespace Draws

variable {α β : Type}

abbrev Draw := StateT (List Nat) Option

/-- A number below `n`. -/
def rand (n : Nat) : Draw Nat
  | [] => none
  | d :: ds => some (d % n, ds)

/-- One of the elements. -/
def pick [Inhabited α] (l : List α) : Draw α := do
  let i ← rand l.length
  return l.getD i default

def times : Nat → Draw α → Draw (List α)
  | 0, _ => return []
  | n + 1, body => do
      let a ← body
      let rest ← times n body
      return a :: rest

/-- `do body while again`, given up after some attempts. -/
def doWhile : Nat → Draw α → (α → Bool) → Draw α
  | 0, _, _ => failure
  | tries + 1, body, again => do
      let a ← body
      if again a then doWhile tries body again else return a

/-- Whatever is drawn, the result has the property if there is one. -/
def Gives (x : Draw α) (P : α → Prop) : Prop := ∀ ds a ds', x ds = some (a, ds') → P a

variable {x : Draw α} {f : α → Draw β} {P Q : α → Prop} {R : β → Prop}

theorem Gives.mono (h : Gives x P) (imp : ∀ a, P a → Q a) : Gives x Q :=
  fun ds a ds' ran => imp a (h ds a ds' ran)

theorem gives_return {a : α} (h : P a) : Gives (pure a) P := by
  intro ds b ds' ran
  cases ran
  exact h

theorem Gives.bind (h : Gives x P) (next : ∀ a, P a → Gives (f a) R) : Gives (x >>= f) R := by
  intro ds b ds' ran
  obtain ⟨⟨a, ds1⟩, first, rest⟩ := Option.bind_eq_some_iff.mp ran
  exact next a (h ds a ds1 first) ds1 b ds' rest

theorem gives_rand {n : Nat} (pos : 0 < n) : Gives (rand n) fun i => i < n := by
  intro ds i ds' ran
  cases ds with
  | nil => cases ran
  | cons d ds =>
      cases ran
      exact Nat.mod_lt d pos

theorem gives_pick [Inhabited α] {l : List α} (nonempty : l ≠ []) : Gives (pick l) (· ∈ l) := by
  refine (gives_rand (List.length_pos_iff.mpr nonempty)).bind fun i inside => gives_return ?_
  rw [List.getD_eq_getElem _ _ inside]
  exact List.getElem_mem inside

theorem gives_times (h : Gives x P) (n : Nat) :
    Gives (times n x) fun l => l.length = n ∧ ∀ a ∈ l, P a := by
  induction n with
  | zero => exact gives_return ⟨rfl, by simp⟩
  | succ n ih =>
      refine h.bind fun a ha => ih.bind fun l hl => gives_return ⟨congrArg (· + 1) hl.1, ?_⟩
      exact List.forall_mem_cons.mpr ⟨ha, hl.2⟩

/-- The condition of the loop fails when it is left. -/
theorem gives_doWhile (h : Gives x P) (tries : Nat) (again : α → Bool) :
    Gives (doWhile tries x again) fun a => P a ∧ again a = false := by
  induction tries with
  | zero =>
      intro ds a ds' ran
      cases ran
  | succ tries ih =>
      refine h.bind fun a ha => ?_
      cases more : again a with
      | true => exact ih
      | false => exact gives_return ⟨ha, more⟩

end Draws
