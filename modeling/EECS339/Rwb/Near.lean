import EECS339.Rwb.Rendering
import EECS339.Rwb.Session

/-!
# Nearby rows

The request that `ViewShift` of `rwb.js` makes for the checked boxes, and the `near`
page of `rwb.pl`. Latitudes, longitudes and bounds are the numbers that their texts
denote, and the database is taken to answer.
-/
namespace Rwb

/-! ## The tables -/

inductive Layer where
  | committees
  | candidates
  | individuals
  | opinions
  deriving DecidableEq

/-- A row of the join behind a query, with its select list as it is fetched; the empty
string is null. -/
structure GeoRow where
  latitude : Option ℚ
  longitude : Option ℚ
  cycle : Option {s : Str // s ≠ []}
  selected : Row
  deriving DecidableEq

structure Bounds where
  latne : ℚ
  longne : ℚ
  latsw : ℚ
  longsw : ℚ

/-- `cycle=?`. -/
def GeoRow.HasCycle (row : GeoRow) (cycle : Str) : Prop := row.cycle.map Subtype.val = some cycle

instance (row : GeoRow) (cycle : Str) : Decidable (row.HasCycle cycle) :=
  inferInstanceAs (Decidable (_ = _))

/-- `latitude>? and latitude<? and longitude>? and longitude<?`. -/
def Bounds.Between (b : Bounds) (row : GeoRow) : Prop :=
  (∃ lat ∈ row.latitude, b.latsw < lat ∧ lat < b.latne) ∧
    ∃ long ∈ row.longitude, b.longsw < long ∧ long < b.longne

instance (b : Bounds) (row : GeoRow) : Decidable (b.Between row) := by
  unfold Bounds.Between
  infer_instance

/-- The rows fetched for a layer; an opinion has no cycle. -/
def fetch (table : List GeoRow) (layer : Layer) (b : Bounds) (cycle : Str) : List GeoRow :=
  table.filter fun row => (layer = .opinions ∨ row.HasCycle cycle) ∧ b.Between row

/-! ## The page -/

namespace Layer

def name : Layer → String
  | committees => "committees"
  | candidates => "candidates"
  | individuals => "individuals"
  | opinions => "opinions"

def id : Layer → String
  | committees => "committee_data"
  | candidates => "candidate_data"
  | individuals => "individual_data"
  | opinions => "opinion_data"

def headers : Layer → List String
  | committees | candidates =>
      ["latitude", "longitude", "name", "party", "street1", "street2", "city", "state", "zip"]
  | individuals | opinions =>
      ["latitude", "longitude", "name", "city", "state", "zip", "employer", "amount"]

/-- The layers in the order in which they are printed. -/
def all : List Layer := [committees, candidates, individuals, opinions]

end Layer

structure NearParams where
  bounds : Bounds
  format : Option Str
  what : Option Str
  cycle : Option Str

/-- What follows a comma, with the space on both sides of the commas removed. -/
def trimParts : List Str → List Str
  | [] => []
  | [last] => [last.dropWhile isSpace]
  | part :: parts => (part.dropWhile isSpace).rdropWhile isSpace :: trimParts parts

/-- `split(/\s*,\s*/, $s)`, which drops empty parts at the end. -/
def splitCommas (s : Str) : List Str :=
  let parts := match s.splitOn ',' with
    | [] | [_] => [s]
    | first :: parts => first.rdropWhile isSpace :: trimParts parts
  parts.rdropWhile (· = [])

/-- The keys of `%what`. -/
def whatKeys : Option Str → List Str
  | none => Layer.all.map fun layer => layer.name.toList
  | some what =>
      if what = "all".toList then Layer.all.map fun layer => layer.name.toList else splitCommas what

/-- The layers that are printed, with their rows. -/
def near (tables : Layer → List GeoRow) (p : NearParams) : List (Layer × List GeoRow) :=
  let keys := whatKeys p.what
  let cycle := p.cycle.getD "1112".toList
  (Layer.all.filter fun layer => layer.name.toList ∈ keys).map fun layer =>
    (layer, fetch (tables layer) layer p.bounds cycle)

/-! ## The client -/

/-- The layers that have a box, in the order of the document. -/
def boxes : List Layer := [.committees, .candidates, .individuals]

def getCheckedData (checked : Layer → Bool) : Str :=
  join ", " ((boxes.filter checked).map fun layer => layer.name.toList)

/-- Of the values of the checked boxes. -/
def getCheckedCycles (cycles : List Str) : Str := join ", " cycles

def viewShift (b : Bounds) (checked : Layer → Bool) (cycles : List Str) : NearParams :=
  ⟨b, some "raw".toList, some (getCheckedData checked), some (getCheckedCycles cycles)⟩

/-! ## The layers that are asked for -/

/-- A word between the separators. -/
def IsWord (s : Str) : Prop := s ≠ [] ∧ ∀ c ∈ s, c ≠ ',' ∧ isSpace c = false

instance (s : Str) : Decidable (IsWord s) :=
  haveI := List.decidableBAll (fun c => c ≠ ',' ∧ isSpace c = false) s
  instDecidableAnd

theorem join_cons_cons (s s' : Str) (l : List Str) :
    join ", " (s :: s' :: l) = s ++ ',' :: ' ' :: join ", " (s' :: l) := by
  have sep : ", ".toList = [',', ' '] := by decide
  rw [join, join, sep, List.intercalate_cons_cons, List.append_assoc]
  rfl

theorem splitOn_join (s : Str) (l : List Str) (free : ∀ s' ∈ s :: l, ',' ∉ s') :
    (join ", " (s :: l)).splitOn ',' = s :: l.map (' ' :: ·) := by
  induction l generalizing s with
  | nil => rw [join_singleton, List.splitOn_eq_singleton (free s List.mem_cons_self), List.map_nil]
  | cons s' l ih =>
      obtain ⟨first, others⟩ := List.forall_mem_cons.mp free
      rw [join_cons_cons, List.splitOn_append_cons_self_of_not_mem first,
        List.splitOn_cons_eq_if_modifyHead, if_neg (by decide), ih s' others, List.modifyHead_cons,
          List.map_cons]

theorem rdropWhile_word {s : Str} (word : IsWord s) : s.rdropWhile isSpace = s := by
  apply List.rdropWhile_eq_self_iff.mpr
  intro nonempty
  rw [(word.2 _ (List.getLast_mem nonempty)).2]
  exact Bool.false_ne_true

theorem dropWhile_word {s : Str} (word : IsWord s) : (' ' :: s).dropWhile isSpace = s := by
  obtain ⟨nonempty, all⟩ := word
  cases s with
  | nil => exact absurd rfl nonempty
  | cons c s =>
      rw [List.dropWhile_cons_of_pos (by decide), List.dropWhile_cons_of_neg]
      rw [(all c List.mem_cons_self).2]
      exact Bool.false_ne_true

theorem trimParts_words {l : List Str} (words : ∀ s ∈ l, IsWord s) :
    trimParts (l.map (' ' :: ·)) = l := by
  induction l with
  | nil => rfl
  | cons s l ih =>
      obtain ⟨first, others⟩ := List.forall_mem_cons.mp words
      cases l with
      | nil => rw [List.map_singleton, trimParts, dropWhile_word first]
      | cons s' l =>
          rw [List.map_cons, List.map_cons, trimParts, ← List.map_cons, ih others, dropWhile_word first,
            rdropWhile_word first]
          exact List.cons_ne_nil _ _

/-- Joined words are split again. -/
theorem splitCommas_join {l : List Str} (words : ∀ s ∈ l, IsWord s) :
    splitCommas (join ", " l) = l := by
  have full : l.rdropWhile (fun s => decide (s = [])) = l := by
    apply List.rdropWhile_eq_self_iff.mpr
    intro nonempty empty
    exact (words _ (List.getLast_mem nonempty)).1 (of_decide_eq_true empty)
  cases l with
  | nil => rfl
  | cons s l =>
      have parts := splitOn_join s l fun s' m comma => ((words s' m).2 ',' comma).1 rfl
      obtain ⟨first, others⟩ := List.forall_mem_cons.mp words
      cases l with
      | nil =>
          rw [splitCommas, parts, join_singleton]
          exact full
      | cons s' l =>
          rw [splitCommas, parts, List.map_cons]
          simp only
          rw [← List.map_cons, trimParts_words others, rdropWhile_word first]
          exact full

theorem name_word (layer : Layer) : IsWord layer.name.toList := by
  cases layer <;> decide

theorem name_injective {layer layer' : Layer} (same : layer.name.toList = layer'.name.toList) :
    layer = layer' := by
  revert same
  cases layer <;> cases layer' <;> decide

theorem whatKeys_checked (checked : Layer → Bool) :
    whatKeys (some (getCheckedData checked)) =
      (boxes.filter checked).map fun layer => layer.name.toList := by
  have split : splitCommas (getCheckedData checked) =
      (boxes.filter checked).map fun layer => layer.name.toList := by
    apply splitCommas_join
    intro s m
    obtain ⟨layer, -, rfl⟩ := List.mem_map.mp m
    exact name_word layer
  rw [whatKeys, if_neg, split]
  intro all
  rw [all] at split
  have inside : "all".toList ∈ (boxes.filter checked).map fun layer => layer.name.toList := by
    rw [← split]
    decide
  obtain ⟨layer, -, same⟩ := List.mem_map.mp inside
  revert same
  cases layer <;> decide

/-- The layers that are printed are those with a checked box. -/
theorem near_viewShift (tables : Layer → List GeoRow) (b : Bounds) (checked : Layer → Bool)
    (cycles : List Str) : near tables (viewShift b checked cycles) =
      (boxes.filter checked).map fun layer =>
        (layer, fetch (tables layer) layer b (getCheckedCycles cycles)) := by
  have member : ∀ layer : Layer, (layer.name.toList ∈ (boxes.filter checked).map fun layer =>
      layer.name.toList) ↔ layer ∈ boxes.filter checked := by
    intro layer
    refine ⟨fun m => ?_, fun m => List.mem_map_of_mem m⟩
    obtain ⟨layer', m, same⟩ := List.mem_map.mp m
    exact name_injective same ▸ m
  have layers : Layer.all.filter (fun layer => decide (layer ∈ boxes.filter checked)) =
      boxes.filter checked := by
    have split : Layer.all = boxes ++ [.opinions] := rfl
    have noBox : Layer.opinions ∉ boxes.filter checked := fun m =>
      absurd (List.mem_of_mem_filter m) (by decide)
    rw [split, List.filter_append, List.filter_singleton, decide_eq_false noBox, cond_false,
      List.append_nil]
    exact List.filter_congr fun layer m => by simp [List.mem_filter, m]
  simp only [near, viewShift, whatKeys_checked, member, layers, Option.getD_some]

/-! ## The cycles that are asked for -/

theorem length_le_join {c : Str} {cycles : List Str} (m : c ∈ cycles) :
    c.length ≤ (getCheckedCycles cycles).length := by
  rw [getCheckedCycles]
  induction cycles with
  | nil => cases m
  | cons s l ih =>
      cases l with
      | nil => rw [join_singleton, List.mem_singleton.mp m]
      | cons s' l =>
          rw [join_cons_cons, List.length_append, List.length_cons, List.length_cons]
          rcases List.mem_cons.mp m with rfl | m
          · exact Nat.le_add_right _ _
          · exact (ih m).trans (by omega)

/-- The joined text of several cycles is none of them. -/
theorem single_of_mem {cycles : List Str} (m : getCheckedCycles cycles ∈ cycles) :
    cycles.length = 1 := by
  cases cycles with
  | nil => cases m
  | cons s l =>
      cases l with
      | nil => rfl
      | cons s' l =>
          have length : (getCheckedCycles (s :: s' :: l)).length =
              s.length + 2 + (getCheckedCycles (s' :: l)).length := by
            rw [getCheckedCycles, join_cons_cons, List.length_append, List.length_cons,
              List.length_cons, getCheckedCycles]
            omega
          rcases List.mem_cons.mp m with same | m
          · have := congrArg List.length same
            omega
          · have := length_le_join m
            omega

/-- Inside the bounds of the map; bounds that cross the 180th meridian have their west
in the east. -/
def Bounds.Contains (b : Bounds) (row : GeoRow) : Prop :=
  (∃ lat ∈ row.latitude, b.latsw < lat ∧ lat < b.latne) ∧
    ∃ long ∈ row.longitude,
      if b.longsw ≤ b.longne then b.longsw < long ∧ long < b.longne
      else b.longsw < long ∨ long < b.longne

instance (b : Bounds) (row : GeoRow) : Decidable (b.Contains row) := by
  unfold Bounds.Contains
  infer_instance

variable {b : Bounds} {row : GeoRow}

theorem Bounds.contains_iff (straight : b.longsw ≤ b.longne) : b.Contains row ↔ b.Between row := by
  simp only [Contains, Between, if_pos straight]

theorem Bounds.straight (between : b.Between row) : b.longsw ≤ b.longne := by
  obtain ⟨-, long, -, west, east⟩ := between
  exact (west.trans east).le

/-- The cycle of the row is checked. -/
def GeoRow.Checked (row : GeoRow) (cycles : List Str) : Prop := ∃ cycle ∈ cycles, row.HasCycle cycle

instance (row : GeoRow) (cycles : List Str) : Decidable (row.Checked cycles) :=
  inferInstanceAs (Decidable (∃ _ ∈ _, _))

theorem GeoRow.HasCycle.unique {c c' : Str} (h : row.HasCycle c) (h' : row.HasCycle c') : c = c' :=
  Option.some.inj (h.symm.trans h')

/-- Between the bounds with the joined text for a cycle is inside with a checked cycle
just in case one cycle is checked and the bounds are straight, or there is neither. -/
theorem row_iff (cycles : List Str) :
    ((row.HasCycle (getCheckedCycles cycles) ∧ b.Between row) ↔ (row.Checked cycles ∧ b.Contains row)) ↔
      (cycles.length = 1 ∧ b.longsw ≤ b.longne) ∨
        (¬ (row.Checked cycles ∧ b.Contains row) ∧
          ¬ (row.HasCycle (getCheckedCycles cycles) ∧ b.Between row)) := by
  constructor
  · intro same
    by_cases wanted : row.Checked cycles ∧ b.Contains row
    · obtain ⟨joined, between⟩ := same.mpr wanted
      obtain ⟨⟨cycle, m, has⟩, -⟩ := wanted
      rw [has.unique joined] at m
      exact Or.inl ⟨single_of_mem m, b.straight between⟩
    · exact Or.inr ⟨wanted, mt same.mp wanted⟩
  · rintro (⟨single, straight⟩ | ⟨notWanted, notFetched⟩)
    · obtain ⟨cycle, rfl⟩ := List.length_eq_one_iff.mp single
      rw [b.contains_iff straight, getCheckedCycles, join_singleton, GeoRow.Checked]
      simp only [List.mem_singleton, exists_eq_left]
    · exact iff_of_false notFetched notWanted

/-- What the map should show: for each checked layer its rows inside the bounds that
have a checked cycle. -/
def wanted (tables : Layer → List GeoRow) (b : Bounds) (checked : Layer → Bool) (cycles : List Str) :
    List (Layer × List GeoRow) :=
  (boxes.filter checked).map fun layer =>
    (layer, (tables layer).filter fun row => row.Checked cycles ∧ b.Contains row)

theorem filter_eq_iff {α : Type*} {p q : α → Bool} {l : List α} :
    l.filter p = l.filter q ↔ ∀ a ∈ l, p a = true ↔ q a = true := by
  constructor
  · intro same a m
    have member : a ∈ l.filter p ↔ a ∈ l.filter q := by rw [same]
    simpa only [List.mem_filter, m, true_and] using member
  · exact fun same => List.filter_congr fun a m => Bool.eq_iff_iff.mpr (same a m)

/-- The page has what the map should show exactly where one cycle is checked and the
bounds do not cross the 180th meridian, or where there is nothing to show and no row
has the joined text of the checked cycles for its cycle. -/
theorem near_wanted_iff (tables : Layer → List GeoRow) (b : Bounds) (checked : Layer → Bool)
    (cycles : List Str) :
    near tables (viewShift b checked cycles) = wanted tables b checked cycles ↔
      (cycles.length = 1 ∧ b.longsw ≤ b.longne) ∨
        ∀ layer ∈ boxes, checked layer → ∀ row ∈ tables layer,
          ¬ (row.Checked cycles ∧ b.Contains row) ∧
            ¬ (row.HasCycle (getCheckedCycles cycles) ∧ b.Between row) := by
  have layers : near tables (viewShift b checked cycles) = wanted tables b checked cycles ↔
      ∀ layer ∈ boxes, checked layer → ∀ row ∈ tables layer,
        ((row.HasCycle (getCheckedCycles cycles) ∧ b.Between row) ↔
          (row.Checked cycles ∧ b.Contains row)) := by
    rw [near_viewShift, wanted, List.map_inj_left]
    apply forall_congr'
    intro layer
    rw [List.mem_filter, and_imp]
    apply forall_congr'
    intro box
    have cycled : layer ≠ .opinions := by
      rintro rfl
      exact absurd box (by decide)
    simp only [Prod.mk.injEq, true_and, fetch, filter_eq_iff, cycled, false_or, decide_eq_true_eq]
  simp only [layers, row_iff]
  by_cases one : cycles.length = 1 ∧ b.longsw ≤ b.longne
  · simp only [one, true_or, and_self, implies_true]
  · simp only [one, false_or]

def smallBounds : Bounds := ⟨43, -87, 41, -89⟩

def smallRow : GeoRow :=
  ⟨some 42, some (-88), some ⟨"1112".toList, by decide⟩, [some "42".toList, some "-88".toList]⟩

def smallTables (layer : Layer) : List GeoRow := if layer = .committees then [smallRow] else []

/-- With two checked cycles a row of the first is not found. -/
theorem two_cycles_not_found :
    near smallTables (viewShift smallBounds (· = .committees) ["1112".toList, "1314".toList]) ≠
      wanted smallTables smallBounds (· = .committees) ["1112".toList, "1314".toList] := by
  decide +kernel

end Rwb
