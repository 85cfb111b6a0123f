import Mathlib

/-!
# Search trees with separators

Values sit in the leaves. An inner node keeps a separator between consecutive
subtrees: what is left of it is at most the separator, what is right of it is
greater. A search goes left on equality.
-/
namespace SearchTree

universe u v

mutual

/-- `empty` is a node without separators, which has no subtree either. -/
inductive Tree (κ : Type u) (ν : Type v) where
  | empty
  | leaf (entries : List (κ × ν))
  | node (first : Tree κ ν) (sep : κ) (rest : Forest κ ν)

/-- The subtrees behind a separator and the separators between them. -/
inductive Forest (κ : Type u) (ν : Type v) where
  | last (t : Tree κ ν)
  | cons (t : Tree κ ν) (sep : κ) (rest : Forest κ ν)

end

variable {κ : Type u} {ν : Type v}

mutual

def Tree.entries : Tree κ ν → List (κ × ν)
  | .empty => []
  | .leaf es => es
  | .node t _ rest => t.entries ++ rest.entries

def Forest.entries : Forest κ ν → List (κ × ν)
  | .last t => t.entries
  | .cons t _ rest => t.entries ++ rest.entries

end

mutual

/-- A bound on the depth of a search. -/
def Tree.height : Tree κ ν → Nat
  | .empty => 0
  | .leaf _ => 0
  | .node t _ rest => max t.height rest.height + 1

def Forest.height : Forest κ ν → Nat
  | .last t => t.height
  | .cons t _ rest => max t.height rest.height

end

theorem Tree.height_node (t : Tree κ ν) (sep : κ) (rest : Forest κ ν) :
    (Tree.node t sep rest).height = (Forest.cons t sep rest).height + 1 := by
  rw [Tree.height, Forest.height]

mutual

/-- `P` holds of every separator and key, `Q` of every value. -/
def Tree.Each (P : κ → Prop) (Q : ν → Prop) : Tree κ ν → Prop
  | .empty => True
  | .leaf es => ∀ e ∈ es, P e.1 ∧ Q e.2
  | .node t sep rest => t.Each P Q ∧ P sep ∧ rest.Each P Q

def Forest.Each (P : κ → Prop) (Q : ν → Prop) : Forest κ ν → Prop
  | .last t => t.Each P Q
  | .cons t sep rest => t.Each P Q ∧ P sep ∧ rest.Each P Q

end

mutual

theorem Tree.Each.and {P P' : κ → Prop} {Q Q' : ν → Prop} {t : Tree κ ν} (h : t.Each P Q)
    (h' : t.Each P' Q') : t.Each (fun k => P k ∧ P' k) fun v => Q v ∧ Q' v := by
  match t with
  | .empty => trivial
  | .leaf es =>
      intro e m
      obtain ⟨p, q⟩ := h e m
      obtain ⟨p', q'⟩ := h' e m
      exact ⟨⟨p, p'⟩, q, q'⟩
  | .node t sep rest =>
      obtain ⟨first, p, others⟩ := h
      obtain ⟨first', p', others'⟩ := h'
      exact ⟨Tree.Each.and first first', ⟨p, p'⟩, Forest.Each.and others others'⟩

theorem Forest.Each.and {P P' : κ → Prop} {Q Q' : ν → Prop} {f : Forest κ ν} (h : f.Each P Q)
    (h' : f.Each P' Q') : f.Each (fun k => P k ∧ P' k) fun v => Q v ∧ Q' v := by
  match f with
  | .last t => exact Tree.Each.and (t := t) h h'
  | .cons t sep rest =>
      obtain ⟨first, p, others⟩ := h
      obtain ⟨first', p', others'⟩ := h'
      exact ⟨Tree.Each.and first first', ⟨p, p'⟩, Forest.Each.and others others'⟩

end

variable [LinearOrder κ]

mutual

/-- Keys increase strictly in the leaves, separators increase strictly, and every
subtree lies between its two separators. -/
def Tree.Ordered : Tree κ ν → Prop
  | .empty => True
  | .leaf es => es.Pairwise fun a b => a.1 < b.1
  | .node t sep rest => t.Ordered ∧ (∀ e ∈ t.entries, e.1 ≤ sep) ∧ rest.Ordered sep

def Forest.Ordered (lo : κ) : Forest κ ν → Prop
  | .last t => t.Ordered ∧ ∀ e ∈ t.entries, lo < e.1
  | .cons t sep rest =>
      lo < sep ∧ t.Ordered ∧ (∀ e ∈ t.entries, lo < e.1 ∧ e.1 ≤ sep) ∧ rest.Ordered sep

end

/-- The value next to the first occurrence of `k`. -/
def find (k : κ) (es : List (κ × ν)) : Option ν := (es.find? fun e => e.1 = k).map Prod.snd

mutual

def Tree.search (k : κ) : Tree κ ν → Option ν
  | .empty => none
  | .leaf es => find k es
  | .node t sep rest => if k ≤ sep then t.search k else rest.search k

def Forest.search (k : κ) : Forest κ ν → Option ν
  | .last t => t.search k
  | .cons t sep rest => if k ≤ sep then t.search k else rest.search k

end

def Forest.separators : Forest κ ν → List κ
  | .last _ => []
  | .cons _ sep rest => sep :: rest.separators

def Forest.child (k : κ) : Forest κ ν → Tree κ ν
  | .last t => t
  | .cons t sep rest => if k ≤ sep then t else rest.child k

theorem Forest.height_child (k : κ) (f : Forest κ ν) : (f.child k).height ≤ f.height := by
  match f with
  | .last t => rw [Forest.child, Forest.height]
  | .cons t sep rest =>
      rw [Forest.child, Forest.height]
      split_ifs
      · exact le_max_left _ _
      · exact (Forest.height_child k rest).trans (le_max_right _ _)

theorem Forest.search_child (k : κ) (f : Forest κ ν) : f.search k = (f.child k).search k := by
  match f with
  | .last t => rw [Forest.search, Forest.child]
  | .cons t sep rest =>
      rw [Forest.search, Forest.child, Forest.search_child k rest]
      split_ifs <;> rfl

theorem Tree.search_node (k sep : κ) (t : Tree κ ν) (rest : Forest κ ν) :
    (Tree.node t sep rest).search k = (Forest.cons t sep rest).search k := by
  rw [Tree.search, Forest.search]

/-! ## What a search finds -/

theorem find_append (k : κ) (l r : List (κ × ν)) : find k (l ++ r) = (find k l).or (find k r) := by
  rw [find, find, find, List.find?_append, Option.map_or]

theorem find_eq_none {k : κ} {es : List (κ × ν)} : find k es = none ↔ ∀ e ∈ es, e.1 ≠ k := by
  simp [find, List.find?_eq_none]

theorem Forest.lt_of_mem {lo : κ} {f : Forest κ ν} (h : f.Ordered lo) : ∀ e ∈ f.entries, lo < e.1 := by
  match f with
  | .last t =>
      rw [Forest.Ordered] at h
      rw [Forest.entries]
      exact h.2
  | .cons t sep rest =>
      rw [Forest.Ordered] at h
      rw [Forest.entries]
      intro e m
      rcases List.mem_append.mp m with left | right
      · exact (h.2.2.1 e left).1
      · exact h.1.trans (Forest.lt_of_mem h.2.2.2 e right)

/-- Left of the separator the right part holds nothing, and conversely. -/
theorem find_at_separator {k sep : κ} {l r : List (κ × ν)} (left : ∀ e ∈ l, e.1 ≤ sep)
    (right : ∀ e ∈ r, sep < e.1) :
    find k (l ++ r) = if k ≤ sep then find k l else find k r := by
  rw [find_append]
  split_ifs with le
  · have none : find k r = none := find_eq_none.mpr fun e m eq => absurd le (not_le.mpr (eq ▸ right e m))
    rw [none, Option.or_none]
  · have none : find k l = none := find_eq_none.mpr fun e m eq => le (eq ▸ left e m)
    rw [none, Option.none_or]

mutual

/-- In an ordered tree the descent finds what the whole list of entries holds. -/
theorem Tree.search_eq (k : κ) {t : Tree κ ν} (h : t.Ordered) : t.search k = find k t.entries := by
  match t with
  | .empty =>
      rw [Tree.search, Tree.entries]
      rfl
  | .leaf es => rw [Tree.search, Tree.entries]
  | .node t sep rest =>
      rw [Tree.Ordered] at h
      obtain ⟨first, left, right⟩ := h
      rw [Tree.search, Tree.entries, find_at_separator left (Forest.lt_of_mem right),
        Tree.search_eq k first, Forest.search_eq k right]

theorem Forest.search_eq (k : κ) {lo : κ} {f : Forest κ ν} (h : f.Ordered lo) :
    f.search k = find k f.entries := by
  match f with
  | .last t =>
      rw [Forest.Ordered] at h
      rw [Forest.search, Forest.entries, Tree.search_eq k h.1]
  | .cons t sep rest =>
      rw [Forest.Ordered] at h
      obtain ⟨-, first, between, right⟩ := h
      rw [Forest.search, Forest.entries,
        find_at_separator (fun e m => (between e m).2) (Forest.lt_of_mem right),
        Tree.search_eq k first, Forest.search_eq k right]

end

theorem pairwise_at_separator {sep : κ} {l r : List (κ × ν)} (hl : l.Pairwise fun a b => a.1 < b.1)
    (hr : r.Pairwise fun a b => a.1 < b.1) (left : ∀ e ∈ l, e.1 ≤ sep) (right : ∀ e ∈ r, sep < e.1) :
    (l ++ r).Pairwise fun a b => a.1 < b.1 :=
  List.pairwise_append.mpr ⟨hl, hr, fun a ha b hb => (left a ha).trans_lt (right b hb)⟩

mutual

theorem Tree.entries_increasing {t : Tree κ ν} (h : t.Ordered) :
    t.entries.Pairwise fun a b => a.1 < b.1 := by
  match t with
  | .empty =>
      rw [Tree.entries]
      exact List.Pairwise.nil
  | .leaf es =>
      rw [Tree.Ordered] at h
      rwa [Tree.entries]
  | .node t sep rest =>
      rw [Tree.Ordered] at h
      obtain ⟨first, left, right⟩ := h
      rw [Tree.entries]
      exact pairwise_at_separator (Tree.entries_increasing first) (Forest.entries_increasing right)
        left (Forest.lt_of_mem right)

theorem Forest.entries_increasing {lo : κ} {f : Forest κ ν} (h : f.Ordered lo) :
    f.entries.Pairwise fun a b => a.1 < b.1 := by
  match f with
  | .last t =>
      rw [Forest.Ordered] at h
      rw [Forest.entries]
      exact Tree.entries_increasing h.1
  | .cons t sep rest =>
      rw [Forest.Ordered] at h
      obtain ⟨-, first, between, right⟩ := h
      rw [Forest.entries]
      exact pairwise_at_separator (Tree.entries_increasing first) (Forest.entries_increasing right)
        (fun e m => (between e m).2) (Forest.lt_of_mem right)

end

theorem find_eq_some {k : κ} {v : ν} {es : List (κ × ν)} (h : es.Pairwise fun a b => a.1 < b.1) :
    find k es = some v ↔ (k, v) ∈ es := by
  induction es with
  | nil => simp [find]
  | cons e rest ih =>
      obtain ⟨later, tail⟩ := List.pairwise_cons.mp h
      by_cases eq : e.1 = k
      · subst eq
        have absent : (e.1, v) ∉ rest := fun m => lt_irrefl e.1 (later (e.1, v) m)
        simp only [find, List.find?_cons, decide_true, Option.map_some, Option.some.injEq,
          List.mem_cons, absent, or_false]
        constructor
        · rintro rfl
          rfl
        · intro same
          rw [← same]
      · have ne : (k, v) ≠ e := fun same => eq (by rw [← same])
        simpa [find, List.find?_cons, eq, ne] using ih tail

theorem Tree.search_eq_some {t : Tree κ ν} (h : t.Ordered) {k : κ} {v : ν} :
    t.search k = some v ↔ (k, v) ∈ t.entries := by
  rw [t.search_eq k h, find_eq_some (Tree.entries_increasing h)]

theorem Tree.search_eq_none {t : Tree κ ν} (h : t.Ordered) {k : κ} :
    t.search k = none ↔ ∀ e ∈ t.entries, e.1 ≠ k := by
  rw [t.search_eq k h, find_eq_none]

end SearchTree
