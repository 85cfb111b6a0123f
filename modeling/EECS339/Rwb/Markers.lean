import EECS339.Rwb.Rendering

/-!
# Markers on the map

What `rwb.js` makes of the raw data of a table: one marker for each line of the text,
the empty one behind the last newline included.
-/
namespace Rwb

/-! ## The document -/

/-- What follows the first occurrence of a tag. -/
def behindTag (tag : Str) : Str → Option Str
  | [] => if tag = [] then some [] else none
  | c :: rest => if tag <+: c :: rest then some ((c :: rest).drop tag.length) else behindTag tag rest

def dropNewline : Str → Str
  | '\n' :: rest => rest
  | s => s

/-- The text of the element with the given id: without a newline directly behind the
opening tag, up to the next tag. -/
def elementText (id : String) (document : Str) : Option Str :=
  (behindTag (openPre id) document).map fun rest => (dropNewline rest).takeWhile (· ≠ '<')

/-! ## The client -/

/-- What a marker is created with. -/
structure Marker where
  lat : Option Str
  long : Option Str
  title : Str
  deriving DecidableEq

def marker (tag : Str) (cols : List Str) : Marker :=
  ⟨cols[0]?, cols[1]?, tag ++ '\n' :: join "\n" cols⟩

/-- The markers behind the call; `none` where there is no such element. -/
def updateMapById (id : String) (tag document : Str) (markers : List Marker) : Option (List Marker) :=
  (elementText id document).map fun html =>
    (html.splitOn '\n').foldl (fun markers row => markers ++ [marker tag (row.splitOn '\t')]) markers

/-- The boxes that are created for the election cycles: one for each line but the last. -/
def createCycles (document : Str) : Option (List Str) :=
  (elementText "cycle_data" document).map fun text => (text.splitOn '\n').dropLast

/-! ## Raw data in the document -/

def special : List Char := ['\t', '\n', '<', '>', '&', '"']

def Plain (s : Str) : Prop := ∀ c ∈ special, c ∉ s

instance (s : Str) : Decidable (Plain s) := List.decidableBAll (fun c => c ∉ s) special

def PlainRows (rows : List Row) : Prop := ∀ row ∈ rows, ∀ field ∈ row, Plain (shown field)

instance (rows : List Row) : Decidable (PlainRows rows) :=
  List.decidableBAll (fun row => ∀ field ∈ row, Plain (shown field)) rows

variable {id : String} {tag : Str} {rows : List Row} {row : Row}

theorem plain_shown (plain : PlainRows rows) (m : row ∈ rows) : ∀ s ∈ row.map shown, Plain s := by
  intro s hs
  obtain ⟨field, hfield, rfl⟩ := List.mem_map.mp hs
  exact plain row m field hfield

def line (row : Row) : Str := join "\t" (row.map shown)

theorem not_mem_join {c : Char} {l : List Str} (free : ∀ s ∈ l, c ∉ s) (other : c ≠ '\t') :
    c ∉ join "\t" l := by
  have sep : "\t".toList = ['\t'] := by decide
  rw [join, sep]
  induction l with
  | nil => exact List.not_mem_nil
  | cons s l ih =>
      obtain ⟨first, others⟩ := List.forall_mem_cons.mp free
      cases l with
      | nil => rwa [List.intercalate_singleton]
      | cons s' l =>
          rw [List.intercalate_cons_cons, List.append_assoc, List.singleton_append]
          intro m
          rcases List.mem_append.mp m with m | m
          · exact first m
          · rcases List.mem_cons.mp m with same | m
            · exact other same
            · exact ih others m

theorem line_free {c : Char} (plain : PlainRows rows) (m : c ∈ special) (other : c ≠ '\t') :
    ∀ row ∈ rows, c ∉ line row :=
  fun _ hrow => not_mem_join (fun s hs => plain_shown plain hrow s hs c m) other

theorem behindTag_openPre (rest : Str) : behindTag (openPre id) (openPre id ++ rest) = some rest := by
  have start : openPre id = '<' :: (openPre id).tail := by
    rw [openPre, String.toList_append, String.toList_append]
    rfl
  have prefix_ : openPre id <+: openPre id ++ rest := List.prefix_append _ _
  rw [start, List.cons_append] at prefix_ ⊢
  rw [behindTag, if_pos prefix_, ← List.cons_append, List.drop_left]

/-- The text is the lines, each with a newline behind it. -/
theorem elementText_makeRaw (plain : PlainRows rows) :
    elementText id (makeRaw id (.table rows)) = some (rows.flatMap fun row => line row ++ ['\n']) := by
  have close : "</pre>\n".toList = '<' :: "/pre>\n".toList := by decide
  have free : ∀ c ∈ rows.flatMap fun row => line row ++ ['\n'], decide (c ≠ '<') = true := by
    intro c m
    refine decide_eq_true ?_
    rintro rfl
    obtain ⟨row, hrow, m⟩ := List.mem_flatMap.mp m
    rcases List.mem_append.mp m with m | m
    · exact line_free plain (by decide) (by decide) row hrow m
    · exact absurd m (by decide)
  rw [elementText, makeRaw, List.append_assoc, List.append_assoc, behindTag_openPre, Option.map_some,
    List.singleton_append, dropNewline, close]
  refine congrArg some ((List.takeWhile_append_of_pos free).trans ?_)
  rw [List.takeWhile_cons_of_neg (by decide), List.append_nil]

theorem splitOn_lines {lines : List Str} (free : ∀ l ∈ lines, '\n' ∉ l) :
    (lines.flatMap fun l => l ++ ['\n']).splitOn '\n' = lines ++ [[]] := by
  induction lines with
  | nil => rfl
  | cons l lines ih =>
      obtain ⟨first, others⟩ := List.forall_mem_cons.mp free
      rw [List.flatMap_cons, List.append_assoc, List.singleton_append,
        List.splitOn_append_cons_self_of_not_mem first, ih others, List.cons_append]

theorem splitOn_text (plain : PlainRows rows) :
    (rows.flatMap fun row => line row ++ ['\n']).splitOn '\n' = rows.map line ++ [[]] := by
  have free : ∀ l ∈ rows.map line, '\n' ∉ l := by
    intro l m
    obtain ⟨row, hrow, rfl⟩ := List.mem_map.mp m
    exact line_free plain (by decide) (by decide) row hrow
  rw [← splitOn_lines free, List.flatMap_map]

theorem splitOn_line (plain : PlainRows rows) (m : row ∈ rows) (fields : row ≠ []) :
    (line row).splitOn '\t' = row.map shown := by
  have sep : "\t".toList = ['\t'] := by decide
  rw [line, join, sep]
  refine List.splitOn_intercalate '\t' (fun s hs => ?_) (mt List.map_eq_nil_iff.mp fields)
  exact plain_shown plain m s hs '\t' (by decide)

/-- One marker for each line and one for the empty text behind the last newline. -/
theorem updateMapById_lines (plain : PlainRows rows) (markers : List Marker) :
    updateMapById id tag (makeRaw id (.table rows)) markers =
      some (markers ++ (rows.map line).map (fun row => marker tag (row.splitOn '\t')) ++
        [marker tag [[]]]) := by
  rw [updateMapById, elementText_makeRaw plain, Option.map_some, splitOn_text plain,
    List.foldl_append_eq_append, ← List.flatMap_def, ← List.map_eq_flatMap, List.map_append,
    List.append_assoc]
  rfl

/-- The marker of a row. -/
def rowMarker (tag : Str) (row : Row) : Marker := marker tag (row.map shown)

/-- For no list of rows are the markers those of the rows. -/
theorem markers_not_rows (id : String) (tag : Str) (rows : List Row) (markers : List Marker)
    (plain : PlainRows rows) : updateMapById id tag (makeRaw id (.table rows)) markers ≠
      some (markers ++ rows.map (rowMarker tag)) := by
  rw [updateMapById_lines plain]
  intro same
  have length := congrArg List.length (Option.some.inj same)
  simp only [List.length_append, List.length_map, List.length_singleton] at length
  omega

theorem markers_not_rows_small :
    updateMapById "committee_data" "COMMITTEE".toList
        (makeRaw "committee_data" (.table [[some "41.9".toList, some "-87.6".toList]])) [] ≠
      some ([] ++ [[some "41.9".toList, some "-87.6".toList]].map (rowMarker "COMMITTEE".toList)) :=
  markers_not_rows "committee_data" "COMMITTEE".toList [[some "41.9".toList, some "-87.6".toList]] []
    (by decide)

/-- Without rows there is a marker all the same. -/
theorem marker_without_rows :
    updateMapById "committee_data" "COMMITTEE".toList (makeRaw "committee_data" (.table [])) [] =
        some [⟨some [], none, "COMMITTEE\n".toList⟩] ∧
      updateMapById "committee_data" "COMMITTEE".toList (makeRaw "committee_data" (.table [])) [] ≠
        some ([] ++ [].map (rowMarker "COMMITTEE".toList)) := by
  decide

end Rwb
