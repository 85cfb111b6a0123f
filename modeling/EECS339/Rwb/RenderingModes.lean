import EECS339.Lib.Decimals
import EECS339.Rwb.Rendering

/-!
# One list in three modes

A row is a table of one row, a column a table of rows of one field each. In `MakeTable`
the row is put between the tags as it stands, in scalar context.
-/
namespace Rwb

variable {id : String} {headers : Option (List Str)} {list : Row} {field : Option Str}

/-- A column as a table. -/
def singletons (list : Row) : List Row := list.map fun field => [field]

/-- A defined value appears, an undefined one as `(null)`. -/
def Appears (list : Row) (out : Str) : Prop := ∀ field ∈ list, shown field <:+: out

/-- Everything but the row of `MakeTable`. -/
structure OtherModesAgree (id : String) (headers : Option (List Str)) (list : Row) : Prop where
  tableCol : makeTable id headers (.col list) = makeTable id headers (.table (singletons list))
  rawRow : makeRaw id (.row list) = makeRaw id (.table [list])
  rawCol : makeRaw id (.col list) = makeRaw id (.table (singletons list))
  table : Appears list (makeTable id headers (.table [list])) ∧
    Appears list (makeTable id headers (.col list))
  raw : Appears list (makeRaw id (.row list)) ∧ Appears list (makeRaw id (.col list))

structure ModesAgree (id : String) (headers : Option (List Str)) (list : Row) : Prop where
  tableRow : makeTable id headers (.row list) = makeTable id headers (.table [list])
  appears : Appears list (makeTable id headers (.row list))
  others : OtherModesAgree id headers list

/-! ## Tables -/

/-- The opening tag and the header. -/
def tableFront (id : String) (headers : Option (List Str)) : Str :=
  ("<table id=\"" ++ id ++ "\" border>").toList ++ match headers with
    | some headers => element "tr" (headers.flatMap fun h => element "td" (element "b" h))
    | none => []

def tableRow (r : Row) : Str := element "tr" (r.flatMap fun field => element "td" (shown field))

theorem makeTable_row (nonempty : list ≠ []) : makeTable id headers (.row list) =
    tableFront id headers ++ element "tr" (toString list.length).toList ++ "</table>".toList :=
  if_pos (Or.inr nonempty)

theorem makeTable_rows {rows : List Row} (nonempty : rows ≠ []) :
    makeTable id headers (.table rows) =
      tableFront id headers ++ rows.flatMap tableRow ++ "</table>".toList :=
  if_pos (Or.inr nonempty)

theorem makeTable_col (nonempty : list ≠ []) : makeTable id headers (.col list) =
    tableFront id headers ++ (list.flatMap fun field => element "tr" (element "td" (shown field))) ++
      "</table>".toList :=
  if_pos (Or.inr nonempty)

theorem singletons_ne_nil (nonempty : list ≠ []) : singletons list ≠ [] :=
  mt List.map_eq_nil_iff.mp nonempty

theorem tableCol_agrees (nonempty : list ≠ []) :
    makeTable id headers (.col list) = makeTable id headers (.table (singletons list)) := by
  rw [makeTable_col nonempty, makeTable_rows (singletons_ne_nil nonempty), singletons,
    List.flatMap_map]
  simp only [tableRow, List.flatMap_singleton]

/-- A number is no field. -/
theorem count_ne_fields (nonempty : list ≠ []) :
    (toString list.length).toList ≠ list.flatMap fun field => element "td" (shown field) := by
  intro same
  obtain ⟨field, rest, rfl⟩ := List.exists_cons_of_ne_nil nonempty
  have start : '<' ∈ (field :: rest).flatMap fun field => element "td" (shown field) := by
    rw [List.flatMap_cons]
    exact List.mem_append_left _ (by simp [element])
  rw [← same, Nat.toString_eq_repr, Nat.toList_repr] at start
  exact absurd (Decimals.digits_toDigits _ '<' start) (by decide)

theorem tableRow_disagrees (nonempty : list ≠ []) :
    makeTable id headers (.row list) ≠ makeTable id headers (.table [list]) := by
  rw [makeTable_row nonempty, makeTable_rows (List.cons_ne_nil list []), List.flatMap_singleton, tableRow]
  intro same
  have body := List.append_cancel_left (List.append_cancel_right same)
  exact count_ne_fields nonempty (List.append_cancel_left (List.append_cancel_right body))

/-! ## Raw data -/

theorem join_newline (l : List Str) (nonempty : l ≠ []) :
    join "\n" l ++ ['\n'] = l.flatMap fun s => s ++ ['\n'] := by
  have sep : "\n".toList = ['\n'] := by decide
  rw [join, sep]
  induction l with
  | nil => exact absurd rfl nonempty
  | cons s l ih =>
      cases l with
      | nil => simp
      | cons s' l =>
          rw [List.intercalate_cons_cons, List.append_assoc, ih (List.cons_ne_nil s' l)]
          rfl

theorem rawCol_agrees (nonempty : list ≠ []) :
    makeRaw id (.col list) = makeRaw id (.table (singletons list)) := by
  simp only [makeRaw, join_newline (list.map shown) (mt List.map_eq_nil_iff.mp nonempty), singletons,
    List.flatMap_map, List.map_singleton, join_singleton]

theorem rawRow_agrees : makeRaw id (.row list) = makeRaw id (.table [list]) := by
  simp only [makeRaw, List.flatMap_singleton]

/-! ## Fields -/

theorem infix_element (tag : String) {s content : Str} (m : s <:+: content) :
    s <:+: element tag content :=
  m.trans ⟨("<" ++ tag ++ ">").toList, ("</" ++ tag ++ ">").toList, rfl⟩

theorem infix_flatMap {s : Str} {f : Option Str → Str} (m : field ∈ list) (inside : s <:+: f field) :
    s <:+: list.flatMap f := by
  rw [List.flatMap_def]
  exact inside.trans (List.infix_of_mem_flatten (List.mem_map_of_mem m))

theorem infix_join (sep : String) {s : Str} {l : List Str} (m : s ∈ l) : s <:+: join sep l := by
  rw [join]
  induction l with
  | nil => exact absurd m List.not_mem_nil
  | cons s' l ih =>
      cases l with
      | nil =>
          rw [List.intercalate_singleton, List.mem_singleton.mp m]
      | cons s'' l =>
          rw [List.intercalate_cons_cons, List.append_assoc]
          rcases List.mem_cons.mp m with rfl | m
          · exact (List.prefix_append _ _).isInfix
          · exact (ih m).trans (List.suffix_append_of_suffix (List.suffix_append _ _)).isInfix

theorem appears_table : Appears list (makeTable id headers (.table [list])) := by
  intro field m
  rw [makeTable_rows (List.cons_ne_nil list []), List.flatMap_singleton]
  have inside : shown field <:+: tableRow list :=
    infix_element "tr" (infix_flatMap m (infix_element "td" List.infix_rfl))
  exact inside.trans ⟨_, _, rfl⟩

theorem appears_col (nonempty : list ≠ []) : Appears list (makeTable id headers (.col list)) := by
  intro field m
  rw [makeTable_col nonempty]
  have inside : shown field <:+: list.flatMap fun field => element "tr" (element "td" (shown field)) :=
    infix_flatMap m (infix_element "tr" (infix_element "td" List.infix_rfl))
  exact inside.trans ⟨_, _, rfl⟩

theorem appears_raw (sep : String) : Appears list
    (openPre id ++ ['\n'] ++ (join sep (list.map shown) ++ ['\n']) ++ "</pre>\n".toList) := by
  intro field m
  have inside : shown field <:+: join sep (list.map shown) := infix_join sep (List.mem_map_of_mem m)
  refine inside.trans ⟨openPre id ++ ['\n'], '\n' :: "</pre>\n".toList, ?_⟩
  simp only [List.append_assoc, List.cons_append, List.nil_append]

/-- `MakeTable` prints the length of a row and no field of it; the other modes agree. -/
theorem modes_agree_never (id : String) (headers : Option (List Str)) (list : Row)
    (nonempty : list ≠ []) : ¬ ModesAgree id headers list ∧ OtherModesAgree id headers list :=
  ⟨fun h => tableRow_disagrees nonempty h.tableRow, tableCol_agrees nonempty, rawRow_agrees,
    rawCol_agrees nonempty, ⟨appears_table, appears_col nonempty⟩,
    appears_raw "\t", appears_raw "\n"⟩

theorem modes_agree_never_small : ¬ ModesAgree "t" none [some "x".toList, none] ∧
    OtherModesAgree "t" none [some "x".toList, none] :=
  modes_agree_never "t" none [some "x".toList, none] (by decide)

/-- A row of one name and an undefined field comes out as their number. -/
theorem row_prints_its_length : makeTable "t" none (.row [some "x".toList, none]) =
      "<table id=\"t\" border><tr>2</tr></table>".toList ∧
    makeTable "t" none (.table [[some "x".toList, none]]) =
      "<table id=\"t\" border><tr><td>x</td><td>(null)</td></tr></table>".toList ∧
    ¬ ModesAgree "t" none [some "x".toList, none] := by
  have row : makeTable "t" none (.row [some "x".toList, none]) =
      "<table id=\"t\" border><tr>2</tr></table>".toList := by decide
  have table : makeTable "t" none (.table [[some "x".toList, none]]) =
      "<table id=\"t\" border><tr><td>x</td><td>(null)</td></tr></table>".toList := by decide
  refine ⟨row, table, fun h => ?_⟩
  have same := h.tableRow
  rw [row, table] at same
  exact absurd same (by decide)

end Rwb
