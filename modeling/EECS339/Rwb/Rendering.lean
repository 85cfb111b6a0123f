import EECS339.Rwb.Database

/-!
# Tables and raw data

`MakeTable` and `MakeRaw` of `rwb.pl`. A row or a column is a list of scalars, a table
a list of rows; a scalar may be undefined.
-/
namespace Rwb

abbrev Row := List (Option Str)

inductive Items where
  | row (list : Row)
  | col (list : Row)
  | table (rows : List Row)

def join (sep : String) (l : List Str) : Str := sep.toList.intercalate l

theorem join_singleton (sep : String) (s : Str) : join sep [s] = s := List.intercalate_singleton

/-- `defined($_) ? $_ : "(null)"`. -/
def shown (field : Option Str) : Str := field.getD "(null)".toList

def element (tag : String) (content : Str) : Str :=
  ("<" ++ tag ++ ">").toList ++ content ++ ("</" ++ tag ++ ">").toList

def Items.IsEmpty : Items → Prop
  | .row list | .col list => list = []
  | .table rows => rows = []

instance (items : Items) : Decidable items.IsEmpty := by
  cases items <;> exact inferInstanceAs (Decidable (_ = _))

/-- In a row the list is concatenated, so only its length is printed. -/
def makeTable (id : String) (headers : Option (List Str)) (items : Items) : Str :=
  if headers.isSome ∨ ¬ items.IsEmpty then
    let header := match headers with
      | some headers => element "tr" (headers.flatMap fun h => element "td" (element "b" h))
      | none => []
    let body := match items with
      | .row list => element "tr" (toString list.length).toList
      | .col list => list.flatMap fun field => element "tr" (element "td" (shown field))
      | .table rows =>
          rows.flatMap fun r => element "tr" (r.flatMap fun field => element "td" (shown field))
    ("<table id=\"" ++ id ++ "\" border>").toList ++ header ++ body ++ "</table>".toList
  else "(none)".toList

def openPre (id : String) : Str := ("<pre id=\"" ++ id ++ "\">").toList

def makeRaw (id : String) (items : Items) : Str :=
  let out := match items with
    | .row list => join "\t" (list.map shown) ++ ['\n']
    | .col list => join "\n" (list.map shown) ++ ['\n']
    | .table rows => rows.flatMap fun r => join "\t" (r.map shown) ++ ['\n']
  openPre id ++ ['\n'] ++ out ++ "</pre>\n".toList

end Rwb
