import EECS339.Rwb.Markers
import EECS339.Rwb.Near

/-!
# The map in the browser

The callbacks of `rwb.js` and the requests they make. The server takes the requests and
answers them from tables that change in the meantime, and the answers come in any order.
-/
namespace Rwb

/-! ## The near page where queries fail -/

/-- What the page has of a layer; nothing where the query has failed. -/
def nearAnswer (tables : Layer → Option (List GeoRow)) (p : NearParams) (layer : Layer) :
    Option (List GeoRow) :=
  if (whatKeys p.what).contains layer.name.toList then
    (tables layer).map fun table => fetch table layer p.bounds (p.cycle.getD "1112".toList)
  else none

def layerText (format : Option Str) (layer : Layer) (rows : List GeoRow) : Str :=
  let items := Items.table (rows.map GeoRow.selected)
  if format.getD "table".toList = "table".toList then
    ("<h2>Nearby " ++ layer.name ++ "</h2>").toList ++
      makeTable layer.id (some (layer.headers.map String.toList)) items
  else makeRaw layer.id items

def nearReply (tables : Layer → Option (List GeoRow)) (p : NearParams) : Str :=
  Layer.all.flatMap fun layer =>
    match nearAnswer tables p layer with
    | none => []
    | some rows => layerText p.format layer rows

/-! ## The client -/

/-- What the division `color` says. -/
inductive Status where
  | waiting
  | querying (b : Bounds)
  | updating
  | ready

inductive Background where
  | white
  | blue
  | red

structure Color where
  background : Background
  html : Status

/-- Of a marker that has been made it is known whether it is on the map; `markers` is a list
of such markers. A cycle has a box in front of the boxes of the layers. -/
structure Client where
  bounds : Bounds
  usermark : ℚ × ℚ
  objects : List (Marker × Bool)
  markers : List Nat
  color : Color
  data : Str
  checked : Layer → Bool
  cycles : List (Str × Bool)

def Layer.tag : Layer → Str
  | committees => "COMMITTEE".toList
  | candidates => "CANDIDATE".toList
  | individuals => "INDIVIDUAL".toList
  | opinions => "OPINION".toList

namespace Client

/-- The markers on the map. -/
def onMap (c : Client) : List Marker := (c.objects.filter Prod.snd).map Prod.fst

def checkedCycles (c : Client) : List Str := (c.cycles.filter Prod.snd).map Prod.fst

/-- `markers.push(new google.maps.Marker({map: map, ..}))`. -/
def push (c : Client) (m : Marker) : Client :=
  { c with objects := c.objects ++ [(m, true)], markers := c.markers ++ [c.objects.length] }

/-- An exception where there is no such element. -/
def updateMapById (id : String) (tag : Str) (c : Client) : Option Client :=
  (elementText id c.data).map fun html =>
    (html.splitOn '\n').foldl (fun c row => c.push (marker tag (row.splitOn '\t'))) c

/-- `markers.pop().setMap(null)` as long as there are any. -/
def clearMarkers (c : Client) : Client :=
  { c with
    objects := c.markers.foldr (fun i objects => objects.modify i fun o => (o.1, false)) c.objects
    markers := [] }

/-- `if (whatparam.indexOf(..) > -1) { UpdateMapById(..); }`; an exception leaves what has been
drawn before it. -/
def updateCategories (whatparam : Str) : List Layer → Client → Except Client Client
  | [], c => .ok c
  | layer :: layers, c =>
      if layer.name.toList <:+: whatparam then
        match c.updateMapById layer.id layer.tag with
        | none => .error c
        | some c => updateCategories whatparam layers c
      else updateCategories whatparam layers c

/-- `heads` is `Math.random()>0.5`. -/
def updateMap (heads : Bool) (c : Client) : Client :=
  let c := { c with color := ⟨.white, .updating⟩ }.clearMarkers
  let whatparam := getCheckedData c.checked
  match updateCategories whatparam boxes c with
  | .error c => c
  | .ok c => { c with color := ⟨if heads then .blue else .red, .ready⟩ }

def newData (heads : Bool) (data : Str) (c : Client) : Client := updateMap heads { c with data }

/-- The request, and what becomes of the client. -/
def viewShift (c : Client) : NearParams × Client :=
  (Rwb.viewShift c.bounds c.checked c.checkedCycles, { c with color := ⟨.white, .querying c.bounds⟩ })

def reposition (lat long : ℚ) (c : Client) : Client := { c with usermark := (lat, long) }

/-- The boxes of the cycles stand in the opposite order: each one goes in directly behind the
map. -/
def start (b : Bounds) (lat long : ℚ) (document : Str) : Client where
  bounds := b
  usermark := (lat, long)
  objects := []
  markers := []
  color := ⟨.white, .waiting⟩
  data := []
  checked := fun _ => false
  cycles := (((createCycles document).getD []).map fun cycle => (cycle, false)).reverse

end Client

/-! ## The client, the server and what is under way -/

/-- A request whose answer has not come back, with the answer once the server has it. -/
structure Exchange (α : Type) where
  request : NearParams
  response : Option α

structure Site where
  client : Client
  exchanges : List (Exchange Str)

inductive Event where
  | move (b : Bounds)
  | check (layer : Layer)
  | checkCycle (i : Nat)
  | viewShift
  | answer (i : Nat) (tables : Layer → Option (List GeoRow))
  | deliver (i : Nat) (heads : Bool)
  | lose (i : Nat)
  | reposition (lat long : ℚ)

namespace Exchange

variable {α β : Type}

/-- A request is answered once. -/
def answer (page : NearParams → α) (x : Exchange α) : Exchange α :=
  { x with response := some (x.response.getD (page x.request)) }

def map (f : α → β) (x : Exchange α) : Exchange β := ⟨x.request, x.response.map f⟩

end Exchange

def toggle (checked : Layer → Bool) (layer : Layer) : Layer → Bool :=
  Function.update checked layer (!checked layer)

def toggleCycle (cycles : List (Str × Bool)) (i : Nat) : List (Str × Bool) :=
  cycles.modify i fun box => (box.1, !box.2)

namespace Site

def start (b : Bounds) (lat long : ℚ) (document : Str) : Site := ⟨.start b lat long document, []⟩

/-- An event that cannot happen changes nothing. -/
def next (s : Site) : Event → Site
  | .move b => { s with client.bounds := b }
  | .check layer => { s with client.checked := toggle s.client.checked layer }
  | .checkCycle i => { s with client.cycles := toggleCycle s.client.cycles i }
  | .viewShift =>
      let (request, client) := s.client.viewShift
      ⟨client, s.exchanges ++ [⟨request, none⟩]⟩
  | .answer i tables => { s with exchanges := s.exchanges.modify i (Exchange.answer (nearReply tables)) }
  | .deliver i heads =>
      match s.exchanges[i]?.bind Exchange.response with
      | none => s
      | some data => ⟨s.client.newData heads data, s.exchanges.eraseIdx i⟩
  | .lose i => { s with exchanges := s.exchanges.eraseIdx i }
  | .reposition lat long => { s with client := s.client.reposition lat long }

def run (s : Site) (events : List Event) : Site := events.foldl next s

end Site

/-! ## What the map stands for -/

/-- The rows of the layers that have been drawn, and whether all of them have. -/
structure Picture where
  parts : List (Layer × List GeoRow)
  whole : Bool

/-- Each layer ends in the marker of an empty text. -/
def layerMarkers (part : Layer × List GeoRow) : List Marker :=
  part.2.map (fun row => rowMarker part.1.tag row.selected) ++ [marker part.1.tag [[]]]

def pictureMarkers (parts : List (Layer × List GeoRow)) : List Marker := parts.flatMap layerMarkers

/-- The rows that an answer has for a layer, if it has any text for it. -/
abbrev Answer := Layer → Option (List GeoRow)

/-- The layers of the checked boxes, up to the first one without an answer. -/
def drawn (a : Answer) : List Layer → Picture
  | [] => ⟨[], true⟩
  | layer :: layers =>
      match a layer with
      | none => ⟨[], false⟩
      | some rows => { drawn a layers with parts := (layer, rows) :: (drawn a layers).parts }

/-- Rows instead of texts and markers. -/
structure View where
  bounds : Bounds
  checked : Layer → Bool
  cycles : List (Str × Bool)
  status : Status
  parts : List (Layer × List GeoRow)
  exchanges : List (Exchange Answer)

namespace View

def start (b : Bounds) (cycles : List (Str × Bool)) : View := ⟨b, fun _ => false, cycles, .waiting, [], []⟩

def request (v : View) : NearParams :=
  Rwb.viewShift v.bounds v.checked ((v.cycles.filter Prod.snd).map Prod.fst)

def receive (v : View) (a : Answer) : View :=
  let picture := drawn a (boxes.filter v.checked)
  { v with
    status := if picture.whole then .ready else .updating
    parts := picture.parts }

def next (v : View) : Event → View
  | .move b => { v with bounds := b }
  | .check layer => { v with checked := toggle v.checked layer }
  | .checkCycle i => { v with cycles := toggleCycle v.cycles i }
  | .viewShift =>
      { v with
        status := .querying v.bounds
        exchanges := v.exchanges ++ [⟨v.request, none⟩] }
  | .answer i tables => { v with exchanges := v.exchanges.modify i (Exchange.answer (nearAnswer tables)) }
  | .deliver i _ =>
      match v.exchanges[i]?.bind Exchange.response with
      | none => v
      | some a => { v.receive a with exchanges := v.exchanges.eraseIdx i }
  | .lose i => { v with exchanges := v.exchanges.eraseIdx i }
  | .reposition _ _ => v

def run (v : View) (events : List Event) : View := events.foldl next v

end View

/-- The texts in the tables need no escapes. -/
def Presentable (tables : Layer → Option (List GeoRow)) : Prop :=
  ∀ layer, ∀ table ∈ tables layer, ∀ row ∈ table, row.selected ≠ [] ∧
  ∀ field ∈ row.selected, Plain (shown field)

def Event.Legal : Event → Prop
  | .answer _ tables => Presentable tables
  | _ => True

/-! ## The document -/

variable {id : String} {tag : Str} {rows : List Row}

theorem elementText_element {body rest : Str} (free : '<' ∉ body) :
    elementText id (openPre id ++ '\n' :: (body ++ ("</pre>\n".toList ++ rest))) = some body := by
  have close : "</pre>\n".toList = '<' :: "/pre>\n".toList := by decide
  have inside : ∀ c ∈ body, decide (c ≠ '<') = true := fun c m =>
    decide_eq_true fun same => free (same ▸ m)
  rw [elementText, behindTag_openPre, Option.map_some, dropNewline, close, List.cons_append,
    List.takeWhile_append_of_pos inside, List.takeWhile_cons_of_neg (by decide), List.append_nil]

theorem openPre_cons (id : String) : openPre id = '<' :: 'p' :: (openPre id).tail.tail := by
  rw [openPre, String.toList_append, String.toList_append]
  rfl

theorem behindTag_cons {c : Char} {rest : Str} (other : ¬ openPre id <+: c :: rest) :
    behindTag (openPre id) (c :: rest) = behindTag (openPre id) rest := by
  rw [behindTag, if_neg other]

theorem behindTag_free {s : Str} (free : '<' ∉ s) (rest : Str) :
    behindTag (openPre id) (s ++ rest) = behindTag (openPre id) rest := by
  induction s with
  | nil => rfl
  | cons c s ih =>
      obtain ⟨first, others⟩ := not_or.mp (mt List.mem_cons.mpr free)
      rw [List.cons_append, behindTag_cons, ih others]
      rw [openPre_cons, List.cons_prefix_cons]
      exact fun same => first same.1

theorem behindTag_close (rest : Str) :
    behindTag (openPre id) ("</pre>\n".toList ++ rest) = behindTag (openPre id) rest := by
  have close : "</pre>\n".toList = '<' :: "/pre>\n".toList := by decide
  have slash : "/pre>\n".toList = '/' :: "pre>\n".toList := by decide
  rw [close, List.cons_append, behindTag_cons, behindTag_free (by decide)]
  rw [openPre_cons, List.cons_prefix_cons, slash, List.cons_append, List.cons_prefix_cons]
  exact fun same => absurd same.2.1 (by decide)

theorem behindTag_open {layer layer' : Layer} (other : layer ≠ layer') (rest : Str) :
    behindTag (openPre layer.id) (openPre layer'.id ++ rest) = behindTag (openPre layer.id) rest := by
  have clash : ¬ openPre layer.id <+: openPre layer'.id ++ rest := by
    intro first
    rcases List.prefix_or_prefix_of_prefix first (List.prefix_append _ rest) with first | first
    all_goals
      revert other first
      cases layer <;> cases layer' <;> decide
  have body : '<' ∉ (openPre layer'.id).tail := by cases layer' <;> decide
  have start : openPre layer'.id = '<' :: (openPre layer'.id).tail := by
    rw [openPre_cons]
    rfl
  rw [start, List.cons_append] at clash ⊢
  rw [behindTag_cons clash, behindTag_free body]

/-- What the text has of a layer. -/
def layerRaw (a : Answer) (layer : Layer) : Str :=
  match a layer with
  | none => []
  | some rows => makeRaw layer.id (.table (rows.map GeoRow.selected))

def rawText (a : Answer) : Str := Layer.all.flatMap (layerRaw a)

theorem nearReply_raw (tables : Layer → Option (List GeoRow)) {p : NearParams}
    (raw : p.format = some "raw".toList) : nearReply tables p = rawText (nearAnswer tables p) := by
  rw [nearReply, rawText]
  congr 1
  funext layer
  rw [layerRaw]
  cases nearAnswer tables p layer with
  | none => rfl
  | some rows =>
      simp only [layerText, raw, Option.getD_some]
      exact if_neg (by decide)

theorem Presentable.plain {a : Answer} (h : Presentable a) {layer : Layer} {table : List GeoRow}
    (has : a layer = some table) : PlainRows (table.map GeoRow.selected) := by
  intro row m
  obtain ⟨r, hr, rfl⟩ := List.mem_map.mp m
  exact (h layer table has r hr).2

theorem Presentable.fields {a : Answer} (h : Presentable a) {layer : Layer} {table : List GeoRow}
    (has : a layer = some table) : ∀ row ∈ table.map GeoRow.selected, row ≠ [] := by
  intro row m
  obtain ⟨r, hr, rfl⟩ := List.mem_map.mp m
  exact (h layer table has r hr).1

theorem Presentable.nearAnswer {tables : Layer → Option (List GeoRow)} (h : Presentable tables)
    (p : NearParams) : Presentable (nearAnswer tables p) := by
  intro layer table has row m
  rw [Rwb.nearAnswer] at has
  split at has
  · obtain ⟨whole, found, rfl⟩ := Option.map_eq_some_iff.mp has
    exact h layer whole found row (List.mem_of_mem_filter m)
  · cases has

/-- The lines of a layer. -/
def rawLines (rows : List Row) : Str := rows.flatMap fun row => line row ++ ['\n']

theorem rawLines_free (plain : PlainRows rows) : '<' ∉ rawLines rows := by
  intro m
  obtain ⟨row, hrow, m⟩ := List.mem_flatMap.mp m
  rcases List.mem_append.mp m with m | m
  · exact line_free plain (by decide) (by decide) row hrow m
  · exact absurd m (by decide)

theorem makeRaw_append (id : String) (rows : List Row) (rest : Str) : makeRaw id (.table rows) ++ rest =
    openPre id ++ '\n' :: (rawLines rows ++ ("</pre>\n".toList ++ rest)) := by
  simp only [makeRaw, List.append_assoc, List.singleton_append]
  rfl

variable {a : Answer} {layer : Layer}

theorem behindTag_layerRaw (h : Presentable a) {layer' : Layer} (other : layer ≠ layer') (rest : Str) :
    behindTag (openPre layer.id) (layerRaw a layer' ++ rest) = behindTag (openPre layer.id) rest := by
  rw [layerRaw]
  cases has : a layer' with
  | none => rfl
  | some rows =>
      have newline : ∀ s : Str, '\n' :: s = ['\n'] ++ s := fun s => rfl
      simp only
      rw [makeRaw_append, behindTag_open other, newline, behindTag_free (by decide),
        behindTag_free (rawLines_free (h.plain has)), behindTag_close]

theorem behindTag_absent (h : Presentable a) {layers : List Layer} (absent : layer ∉ layers) :
    behindTag (openPre layer.id) (layers.flatMap (layerRaw a)) = none := by
  induction layers with
  | nil =>
      rw [List.flatMap_nil, behindTag, openPre_cons]
      exact if_neg (List.cons_ne_nil _ _)
  | cons layer' layers ih =>
      obtain ⟨first, others⟩ := not_or.mp (mt List.mem_cons.mpr absent)
      rw [List.flatMap_cons, behindTag_layerRaw h first, ih others]

/-- The element of a layer is what has been printed of it, wherever that stands. -/
theorem elementText_layers (h : Presentable a) {layers : List Layer} (distinct : layers.Nodup)
    (m : layer ∈ layers) : elementText layer.id (layers.flatMap (layerRaw a)) =
      (a layer).map fun rows => rawLines (rows.map GeoRow.selected) := by
  induction layers with
  | nil => cases m
  | cons layer' layers ih =>
      obtain ⟨absent, distinct⟩ := List.nodup_cons.mp distinct
      rw [List.flatMap_cons]
      by_cases same : layer = layer'
      · subst same
        cases has : a layer with
        | none => rw [layerRaw, has, List.nil_append, elementText, behindTag_absent h absent]; rfl
        | some rows =>
            rw [layerRaw, has]
            simp only
            rw [makeRaw_append, elementText_element (rawLines_free (h.plain has)), Option.map_some]
      · rw [elementText, behindTag_layerRaw h same, ← elementText]
        exact ih distinct ((List.mem_cons.mp m).resolve_left same)

theorem elementText_rawText (h : Presentable a) (layer : Layer) : elementText layer.id (rawText a) =
    (a layer).map fun rows => rawLines (rows.map GeoRow.selected) :=
  elementText_layers h (by decide) (by cases layer <;> decide)

/-- One marker for each row, and one for the empty text behind the last newline. -/
theorem rawLines_markers (plain : PlainRows rows) (fields : ∀ row ∈ rows, row ≠ []) (tag : Str) :
    ((rawLines rows).splitOn '\n').map (fun row => marker tag (row.splitOn '\t')) =
      rows.map (rowMarker tag) ++ [marker tag [[]]] := by
  have rowMarkers :
      rows.map ((fun row => marker tag (row.splitOn '\t')) ∘ line) = rows.map (rowMarker tag) :=
    List.map_congr_left fun row m => congrArg (marker tag) (splitOn_line plain m (fields row m))
  rw [rawLines, splitOn_text plain, List.map_append, List.map_map, rowMarkers]
  rfl

end Rwb
