import Mathlib

/-!
# Recency and time stamps

A history of accesses, the latest first, orders the keys that are present by their
last access. Stamps that never decrease along the history reflect this order, but
accesses with one stamp cannot be told apart by it.
-/
namespace Recency

variable {α τ : Type*} [DecidableEq α] [LinearOrder τ]

/-- The number of accesses after the last one to `a`. -/
def age (recent : List α) (a : α) : Nat := recent.idxOf a

/-- The present key whose last access comes first. -/
def Oldest (recent : List α) (present : α → Prop) (a : α) : Prop :=
  present a ∧ ∀ b, present b → b ≠ a → age recent b < age recent a

/-- Every present key was accessed, none after `now`, and an earlier last access never
has the greater stamp. -/
structure Stamped (recent : List α) (stamp : α → Option τ) (now : τ) : Prop where
  accessed : ∀ a t, stamp a = some t → a ∈ recent
  past : ∀ a t, stamp a = some t → t ≤ now
  ordered : ∀ a b s t, stamp a = some s → stamp b = some t → age recent b < age recent a → s ≤ t

variable {recent : List α} {present : α → Prop} {stamp stamp' : α → Option τ} {now now' s : τ} {a b : α}

@[simp] theorem age_cons_self (recent : List α) (a : α) : age (a :: recent) a = 0 :=
  List.idxOf_cons_self

theorem age_cons_of_ne (ne : b ≠ a) : age (b :: recent) a = age recent a + 1 :=
  List.idxOf_cons_ne recent ne

theorem oldest_unique (ha : Oldest recent present a) (hb : Oldest recent present b) : a = b := by
  by_contra ne
  exact lt_asymm (ha.2 b hb.1 (Ne.symm ne)) (hb.2 a ha.1 ne)

theorem exists_oldest (accessed : ∀ b, present b → b ∈ recent) (some : present a) :
    ∃ b, Oldest recent present b := by
  classical
  obtain ⟨b, hb, top⟩ := (recent.toFinset.filter present).exists_max_image (age recent)
    ⟨a, by simpa using ⟨accessed a some, some⟩⟩
  rw [Finset.mem_filter] at hb
  refine ⟨b, hb.2, fun m hm ne => lt_of_le_of_ne (top m (by simpa using ⟨accessed m hm, hm⟩)) ?_⟩
  intro same
  exact ne ((List.idxOf_inj (accessed m hm)).mp same)

theorem stamped_of_absent (absent : ∀ a, stamp a = none) : Stamped recent stamp now := by
  refine ⟨fun a t ha => ?_, fun a t ha => ?_, fun a b s t ha => ?_⟩ <;> simp [absent a] at ha

/-- An access gives its key the present time. -/
theorem Stamped.touch (h : Stamped recent stamp now) (a : α) :
    Stamped (a :: recent) (Function.update stamp a (some now)) now := by
  refine ⟨fun b t hb => ?_, fun b t hb => ?_, fun b c s t hb hc lt => ?_⟩
  · by_cases same : b = a
    · exact same ▸ List.mem_cons_self
    · rw [Function.update_of_ne same] at hb
      exact List.mem_cons_of_mem _ (h.accessed b t hb)
  · by_cases same : b = a
    · subst same
      rw [Function.update_self] at hb
      exact (Option.some.inj hb).ge
    · rw [Function.update_of_ne same] at hb
      exact h.past b t hb
  · have other : b ≠ a := by
      rintro rfl
      rw [age_cons_self] at lt
      exact absurd lt (Nat.not_lt_zero _)
    rw [Function.update_of_ne other] at hb
    by_cases same : c = a
    · subst same
      rw [Function.update_self] at hc
      exact Option.some.inj hc ▸ h.past b s hb
    · rw [Function.update_of_ne same] at hc
      rw [age_cons_of_ne (Ne.symm same), age_cons_of_ne (Ne.symm other)] at lt
      exact h.ordered b c s t hb hc (Nat.lt_of_succ_lt_succ lt)

/-- Time may pass and keys may go. -/
theorem Stamped.mono (h : Stamped recent stamp now) (later : now ≤ now')
    (fewer : ∀ a t, stamp' a = some t → stamp a = some t) : Stamped recent stamp' now' :=
  ⟨fun a t ha => h.accessed a t (fewer a t ha), fun a t ha => (h.past a t (fewer a t ha)).trans later,
    fun a b s t ha hb => h.ordered a b s t (fewer a s ha) (fewer b t hb)⟩

section Choice

variable [PartialOrder α]

/-- The least stamp, and the least key that has it. -/
def Least (stamp : α → Option τ) (a : α) (s : τ) : Prop :=
  stamp a = some s ∧ ∀ b t, stamp b = some t → s < t ∨ (s = t ∧ a ≤ b)

/-- Choosing the least stamp, and the least key among equals, finds the oldest key
exactly when that is the least of those that share its stamp. -/
theorem Stamped.oldest_iff (h : Stamped recent stamp now) (least : Least stamp a s) :
    Oldest recent (stamp · ≠ none) a ↔
      ∀ b t, Oldest recent (stamp · ≠ none) b → stamp b = some t → ∀ c, stamp c = some t → b ≤ c := by
  obtain ⟨ha, below⟩ := least
  have present : stamp a ≠ none := by simp [ha]
  constructor
  · intro oldest b t hb hbt c hc
    obtain rfl := oldest_unique oldest hb
    rw [ha] at hbt
    rcases below c t hc with lt | tie
    · exact absurd (Option.some.inj hbt) (ne_of_lt lt)
    · exact tie.2
  · intro first
    have accessed : ∀ b, stamp b ≠ none → b ∈ recent := by
      intro b hb
      obtain ⟨t, ht⟩ := Option.ne_none_iff_exists'.mp hb
      exact h.accessed b t ht
    obtain ⟨b, hb⟩ := exists_oldest accessed present
    obtain ⟨t, ht⟩ := Option.ne_none_iff_exists'.mp hb.1
    by_cases same : a = b
    · exact same ▸ hb
    · have le : t ≤ s := h.ordered b a t s ht ha (hb.2 a present same)
      rcases below b t ht with lt | ⟨tie, before⟩
      · exact absurd lt (not_lt.mpr le)
      · exact absurd (le_antisymm before (first b t hb ht a (tie ▸ ha))) same

end Choice

end Recency
