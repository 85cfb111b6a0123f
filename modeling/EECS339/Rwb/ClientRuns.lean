import EECS339.Rwb.Client

/-!
# What the map shows

Whatever the order of events, the markers on the map are those of the rows that the view
has, and once an undisturbed client has its last answer these are the rows of the place
it shows.
-/
namespace Rwb

/-! ## The list of markers -/

/-- The markers on the map are the ones in the list, in its order, and were made last. -/
def Tracks (objects : List (Marker × Bool)) (markers : List Nat) (ms : List Marker) : Prop :=
  ∃ off : List Marker, objects = off.map (·, false) ++ ms.map (·, true) ∧
    markers = List.range' off.length ms.length

variable {objects : List (Marker × Bool)} {markers : List Nat} {ms : List Marker}

theorem Tracks.onMap {c : Client} (h : Tracks c.objects c.markers ms) : c.onMap = ms := by
  obtain ⟨off, same, -⟩ := h
  have hidden : ((off.map fun m => (m, false)).filter Prod.snd) = [] := by
    rw [List.filter_map, List.map_eq_nil_iff]
    exact List.filter_eq_nil_iff.mpr fun m _ => Bool.false_ne_true
  have seen : ((ms.map fun m => (m, true)).filter Prod.snd) = ms.map fun m => (m, true) := by
    refine List.filter_eq_self.mpr fun o m => ?_
    obtain ⟨_, -, rfl⟩ := List.mem_map.mp m
    rfl
  rw [Client.onMap, same, List.filter_append, hidden, seen, List.nil_append, List.map_map]
  exact List.map_id ms

/-- The list names the markers that are on the map. -/
theorem Tracks.listed (h : Tracks objects markers ms) :
    markers.map (objects[·]?) = ms.map fun m => some (m, true) := by
  obtain ⟨off, rfl, rfl⟩ := h
  refine List.ext_getElem (by simp) fun i hi hi' => ?_
  rw [List.length_map, List.length_range'] at hi
  rw [List.getElem_map, List.getElem_range', Nat.one_mul, List.getElem_map,
    List.getElem?_append_right (by rw [List.length_map]; exact Nat.le_add_right _ _), List.length_map,
    Nat.add_sub_cancel_left, List.getElem?_map, List.getElem?_eq_getElem hi, Option.map_some]

theorem Tracks.empty : Tracks [] [] [] := ⟨[], rfl, rfl⟩

theorem modify_front {α : Type} (front : List α) (a : α) (rest : List α) (f : α → α) :
    (front ++ a :: rest).modify front.length f = front ++ f a :: rest := by
  induction front with
  | nil => rfl
  | cons b front ih => rw [List.cons_append, List.length_cons, List.modify_succ_cons, ih]; rfl

/-- From the last one in the list on, every marker is taken off the map. -/
theorem take_off (front : List (Marker × Bool)) (ms : List Marker) :
    (List.range' front.length ms.length).foldr
        (fun i objects => objects.modify i fun o => (o.1, false)) (front ++ ms.map (·, true)) =
      front ++ ms.map (·, false) := by
  induction ms generalizing front with
  | nil => rfl
  | cons m ms ih =>
      have rest := ih (front ++ [(m, true)])
      rw [List.length_append, List.length_singleton, List.append_assoc, List.append_assoc] at rest
      rw [List.length_cons, List.range'_succ, List.foldr_cons, List.map_cons, List.map_cons]
      exact (congrArg _ rest).trans (modify_front front (m, true) _ _)

def boxed (committees candidates individuals : Bool) : Layer → Bool
  | .committees => committees
  | .candidates => candidates
  | .individuals => individuals
  | .opinions => false

/-- The value names a layer just in case its box is checked. -/
theorem name_infix_iff (checked : Layer → Bool) {layer : Layer} (box : layer ∈ boxes) :
    layer.name.toList <:+: getCheckedData checked ↔ checked layer = true := by
  have small : ∀ x y z : Bool, ∀ layer ∈ boxes,
      layer.name.toList <:+: getCheckedData (boxed x y z) ↔ boxed x y z layer = true := by decide
  have same : ∀ layer ∈ boxes,
      checked layer = boxed (checked .committees) (checked .candidates) (checked .individuals) layer := by
    intro layer box
    cases layer with
    | opinions => exact absurd box (by decide)
    | _ => rfl
  rw [getCheckedData, List.filter_congr same, ← getCheckedData, same layer box]
  exact small _ _ _ layer box

namespace Client

variable {c : Client}

theorem clearMarkers_tracks (h : Tracks c.objects c.markers ms) :
    ∃ off, c.clearMarkers = { c with objects := off, markers := [] } ∧ Tracks off [] [] := by
  obtain ⟨off, objects, markers⟩ := h
  refine ⟨_, rfl, off ++ ms, ?_, rfl⟩
  have cleared := take_off (off.map (·, false)) ms
  rw [List.length_map] at cleared
  rw [objects, markers, cleared, List.map_append, List.map_nil, List.append_nil]

theorem push_tracks (h : Tracks c.objects c.markers ms) (m : Marker) :
    Tracks (c.push m).objects (c.push m).markers (ms ++ [m]) := by
  obtain ⟨off, objects, markers⟩ := h
  refine ⟨off, ?_, ?_⟩
  · rw [push, objects, List.map_append, List.append_assoc]
    rfl
  · change c.markers ++ [c.objects.length] = _
    rw [objects, markers, List.length_append, List.length_append, List.length_map, List.length_map,
      List.length_singleton, List.range'_concat, Nat.one_mul]

/-- Only the markers differ. -/
structure Redrawn (c c' : Client) : Prop where
  bounds : c'.bounds = c.bounds
  checked : c'.checked = c.checked
  cycles : c'.cycles = c.cycles
  color : c'.color = c.color
  data : c'.data = c.data

theorem Redrawn.refl (c : Client) : Redrawn c c := ⟨rfl, rfl, rfl, rfl, rfl⟩

theorem Redrawn.trans {c' c'' : Client} (h : Redrawn c c') (h' : Redrawn c' c'') : Redrawn c c'' :=
  ⟨h'.bounds.trans h.bounds, h'.checked.trans h.checked, h'.cycles.trans h.cycles, h'.color.trans h.color,
    h'.data.trans h.data⟩

theorem foldl_push (f : Str → Marker) (texts : List Str) (h : Tracks c.objects c.markers ms) :
    let c' := texts.foldl (fun c text => c.push (f text)) c
    Redrawn c c' ∧ Tracks c'.objects c'.markers (ms ++ texts.map f) := by
  induction texts generalizing c ms with
  | nil => exact ⟨.refl c, by rwa [List.map_nil, List.append_nil]⟩
  | cons text texts ih =>
      obtain ⟨same, tracks⟩ := ih (push_tracks h (f text))
      rw [List.append_assoc] at tracks
      have first : Redrawn c (c.push (f text)) := ⟨rfl, rfl, rfl, rfl, rfl⟩
      exact ⟨first.trans same, tracks⟩

variable {a : Answer}

theorem updateMapById_none {layer : Layer} (data : c.data = rawText a) (h : Presentable a)
    (missing : a layer = none) : c.updateMapById layer.id layer.tag = none := by
  rw [updateMapById, data, elementText_rawText h, missing]
  rfl

theorem updateMapById_some {layer : Layer} {rows : List GeoRow} (data : c.data = rawText a)
    (h : Presentable a) (has : a layer = some rows) (tracks : Tracks c.objects c.markers ms) :
    ∃ c', c.updateMapById layer.id layer.tag = some c' ∧ Redrawn c c' ∧
      Tracks c'.objects c'.markers (ms ++ layerMarkers (layer, rows)) := by
  have pushed := foldl_push (fun row => marker layer.tag (row.splitOn '\t'))
    ((rawLines (rows.map GeoRow.selected)).splitOn '\n') tracks
  rw [rawLines_markers (h.plain has) (h.fields has), List.map_map] at pushed
  refine ⟨_, ?_, pushed⟩
  rw [updateMapById, data, elementText_rawText h, has, Option.map_some, Option.map_some]

/-- The checked layers are drawn in order, up to the first one without an element. -/
theorem updateCategories_draws (checked : Layer → Bool) {layers : List Layer}
    (box : ∀ layer ∈ layers, layer ∈ boxes)
    (data : c.data = rawText a) (h : Presentable a) (tracks : Tracks c.objects c.markers ms) :
    let picture := drawn a (layers.filter checked)
    ∃ c', updateCategories (getCheckedData checked) layers c =
        (if picture.whole then .ok c' else .error c') ∧ Redrawn c c' ∧
      Tracks c'.objects c'.markers (ms ++ pictureMarkers picture.parts) := by
  induction layers generalizing c ms with
  | nil => exact ⟨c, rfl,
        .refl c, by rwa [List.filter_nil, drawn, pictureMarkers, List.flatMap_nil, List.append_nil]⟩
  | cons layer layers ih =>
      obtain ⟨first, others⟩ := List.forall_mem_cons.mp box
      rw [updateCategories, List.filter_cons]
      by_cases on : checked layer = true
      · rw [if_pos ((name_infix_iff checked first).mpr on), if_pos on, drawn]
        cases has : a layer with
        | none =>
            rw [updateMapById_none data h has]
            exact ⟨c, rfl, .refl c, by rwa [pictureMarkers, List.flatMap_nil, List.append_nil]⟩
        | some rows =>
            obtain ⟨c1, drew, same1, tracks1⟩ := updateMapById_some data h has tracks
            obtain ⟨c2, rest, same2, tracks2⟩ := ih others (same1.data.trans data) tracks1
            rw [drew]
            refine ⟨c2, rest, same1.trans same2, ?_⟩
            rwa [pictureMarkers, List.flatMap_cons, ← List.append_assoc]
      · rw [if_neg (mt (name_infix_iff checked first).mp on), if_neg on]
        exact ih others data tracks

/-- The old markers go, and what is drawn in their place are the rows of the answer. -/
theorem newData_draws (heads : Bool) (h : Presentable a) (tracks : Tracks c.objects c.markers ms) :
    let picture := drawn a (boxes.filter c.checked)
    let c' := c.newData heads (rawText a)
    Tracks c'.objects c'.markers (pictureMarkers picture.parts) ∧
      c'.color.html = (if picture.whole then .ready else .updating) ∧
      c'.bounds = c.bounds ∧ c'.checked = c.checked ∧ c'.cycles = c.cycles := by
  obtain ⟨off, cleared, empty⟩ := clearMarkers_tracks
    (c := { c with data := rawText a, color := ⟨.white, .updating⟩ }) tracks
  obtain ⟨c', drew, same, shown⟩ := updateCategories_draws c.checked
    (c := { c with data := rawText a, color := ⟨.white, .updating⟩, objects := off, markers := [] })
    (fun layer (m : layer ∈ boxes) => m) rfl h empty
  simp only [newData, updateMap, cleared, drew]
  cases whole : (drawn a (boxes.filter c.checked)).whole with
  | true => exact ⟨shown, rfl, same.bounds, same.checked, same.cycles⟩
  | false => exact ⟨shown, congrArg Color.html same.color, same.bounds, same.checked, same.cycles⟩

end Client

/-! ## Runs -/

/-- The request is for raw data, and there is nothing in the answer that needs escapes. -/
structure Asked (x : Exchange Answer) : Prop where
  raw : x.request.format = some "raw".toList
  presentable : ∀ a ∈ x.response, Presentable a

/-- The client shows the view. -/
structure Shows (s : Site) (v : View) : Prop where
  bounds : s.client.bounds = v.bounds
  checked : s.client.checked = v.checked
  cycles : s.client.cycles = v.cycles
  status : s.client.color.html = v.status
  tracks : Tracks s.client.objects s.client.markers (pictureMarkers v.parts)
  exchanges : s.exchanges = v.exchanges.map (Exchange.map rawText)
  asked : ∀ x ∈ v.exchanges, Asked x

variable {s : Site} {v : View}

theorem map_modify {α β : Type} (f : α → β) {g : β → β} {g' : α → α} {l : List α}
    (agree : ∀ x ∈ l, g (f x) = f (g' x)) (i : Nat) : (l.map f).modify i g = (l.modify i g').map f := by
  induction l generalizing i with
  | nil => cases i <;> rfl
  | cons x l ih =>
      obtain ⟨first, others⟩ := List.forall_mem_cons.mp agree
      cases i with
      | zero => rw [List.map_cons, List.modify_zero_cons, List.modify_zero_cons, List.map_cons, first]
      | succ i => rw [List.map_cons, List.modify_succ_cons, List.modify_succ_cons, List.map_cons, ih others i]

theorem mem_modify {α : Type} {f : α → α} {l : List α} {i : Nat} {y : α} (m : y ∈ l.modify i f) :
    y ∈ l ∨ ∃ x ∈ l, f x = y := by
  induction l generalizing i with
  | nil => cases i <;> exact Or.inl m
  | cons x l ih =>
      cases i with
      | zero =>
          rw [List.modify_zero_cons] at m
          rcases List.mem_cons.mp m with rfl | m
          · exact Or.inr ⟨x, List.mem_cons_self, rfl⟩
          · exact Or.inl (List.mem_cons_of_mem x m)
      | succ i =>
          rw [List.modify_succ_cons] at m
          rcases List.mem_cons.mp m with rfl | m
          · exact Or.inl List.mem_cons_self
          · rcases ih m with m | ⟨x', m, same⟩
            · exact Or.inl (List.mem_cons_of_mem x m)
            · exact Or.inr ⟨x', List.mem_cons_of_mem x m, same⟩

/-- The server writes the rows it has found for a request. -/
theorem answer_map {x : Exchange Answer} (h : Asked x) (tables : Layer → Option (List GeoRow)) :
    (x.map rawText).answer (nearReply tables) = (x.answer (nearAnswer tables)).map rawText := by
  obtain ⟨request, response⟩ := x
  cases response with
  | none =>
      simp only [Exchange.map, Exchange.answer, Option.map_none, Option.getD_none, Option.map_some]
      rw [nearReply_raw tables h.raw]
  | some a => rfl

theorem Asked.answer {x : Exchange Answer} (h : Asked x) {tables : Layer → Option (List GeoRow)}
    (legal : Presentable tables) : Asked (x.answer (nearAnswer tables)) := by
  refine ⟨h.raw, ?_⟩
  obtain ⟨request, response⟩ := x
  rintro a ⟨⟩
  cases response with
  | none => exact legal.nearAnswer request
  | some a => exact h.presentable a rfl

theorem response_map (l : List (Exchange Answer)) (i : Nat) :
    (l.map (Exchange.map rawText))[i]?.bind Exchange.response =
      (l[i]?.bind Exchange.response).map rawText := by
  rw [List.getElem?_map]
  cases l[i]? <;> rfl

theorem Shows.next (h : Shows s v) {e : Event} (legal : e.Legal) : Shows (s.next e) (v.next e) := by
  cases e with
  | move b => exact { h with bounds := rfl }
  | check layer => exact { h with checked := congrArg (toggle · layer) h.checked }
  | checkCycle i => exact { h with cycles := congrArg (toggleCycle · i) h.cycles }
  | viewShift =>
      have same : Rwb.viewShift s.client.bounds s.client.checked s.client.checkedCycles = v.request := by
        rw [View.request, Client.checkedCycles, h.bounds, h.checked, h.cycles]
      refine { h with status := congrArg Status.querying h.bounds, exchanges := ?_, asked := ?_ }
      · simp only [Site.next, View.next, Client.viewShift, same, h.exchanges, List.map_append]
        rfl
      · intro x m
        rcases List.mem_append.mp m with m | m
        · exact h.asked x m
        · obtain rfl := List.mem_singleton.mp m
          exact ⟨rfl, by rintro a ⟨⟩⟩
  | answer i tables =>
      refine { h with exchanges := ?_, asked := ?_ }
      · simp only [Site.next, View.next, h.exchanges]
        exact map_modify _ (fun x m => answer_map (h.asked x m) tables) i
      · intro x m
        rcases mem_modify m with old | ⟨x', old, rfl⟩
        · exact h.asked x old
        · exact (h.asked x' old).answer legal
  | deliver i heads =>
      simp only [Site.next, View.next, h.exchanges, response_map]
      cases found : v.exchanges[i]?.bind Exchange.response with
      | none => exact h
      | some a =>
          obtain ⟨x, at_, response⟩ := Option.bind_eq_some_iff.mp found
          have m := List.mem_of_getElem? at_
          obtain ⟨tracks, status, bounds, checked, cycles⟩ :=
            Client.newData_draws heads ((h.asked x m).presentable a response) h.tracks
          rw [h.checked] at tracks status
          exact ⟨bounds.trans h.bounds, checked.trans h.checked, cycles.trans h.cycles, status, tracks,
            List.eraseIdx_map _ _ _, fun x m => h.asked x (List.mem_of_mem_eraseIdx m)⟩
  | lose i =>
      refine { h with exchanges := ?_, asked := fun x m => h.asked x (List.mem_of_mem_eraseIdx m) }
      simp only [Site.next, View.next, h.exchanges]
      exact List.eraseIdx_map _ _ _
  | reposition lat long => exact { h with }

theorem Shows.run (h : Shows s v) {events : List Event} (legal : ∀ e ∈ events, e.Legal) :
    Shows (s.run events) (v.run events) :=
  List.foldl_rel h fun e m _ _ related => related.next (legal e m)

theorem Shows.start (b : Bounds) (lat long : ℚ) (document : Str) :
    Shows (.start b lat long document) (.start b (Client.start b lat long document).cycles) :=
  ⟨rfl, rfl, rfl, rfl, .empty, rfl, fun _ m => absurd m List.not_mem_nil⟩

/-- In every run the markers on the map are the ones in the list, and they are those of the
rows in the view. -/
theorem map_shows_view (b : Bounds) (lat long : ℚ) (document : Str) (events : List Event)
    (legal : ∀ e ∈ events, e.Legal) :
    let site := (Site.start b lat long document).run events
    let view := (View.start b (Client.start b lat long document).cycles).run events
    site.client.onMap = pictureMarkers view.parts ∧
      site.client.markers.map (site.client.objects[·]?) =
        site.client.onMap.map (fun m => some (m, true)) ∧
      site.client.color.html = view.status ∧
      site.exchanges = view.exchanges.map (Exchange.map rawText) := by
  have h := (Shows.start b lat long document).run legal
  have onMap := h.tracks.onMap
  exact ⟨onMap, onMap ▸ h.tracks.listed, h.status, h.exchanges⟩

theorem smallTables_presentable : Presentable fun layer => some (smallTables layer) := by
  rintro layer table ⟨⟩ row m
  cases layer with
  | committees =>
      obtain rfl := List.mem_singleton.mp m
      decide
  | _ => cases m

def smallDocument : Str := makeRaw "cycle_data" (.table [[some "1112".toList]])

/-- The box of the committees and that of the cycle are checked, and a request is made. -/
def smallEvents : List Event := [.check .committees, .checkCycle 0, .viewShift]

def smallAnswer : List Event :=
  [.answer 0 fun layer => some (smallTables layer), .deliver 0 true]

theorem small_legal : ∀ e ∈ smallEvents ++ smallAnswer, e.Legal := by
  simp only [smallEvents, smallAnswer, List.cons_append, List.nil_append, List.forall_mem_cons]
  exact ⟨trivial, trivial, trivial, smallTables_presentable, trivial, fun _ m => absurd m List.not_mem_nil⟩

theorem map_shows_view_small :
    let site := (Site.start smallBounds 42 (-88) smallDocument).run (smallEvents ++ smallAnswer)
    site.client.onMap = [rowMarker "COMMITTEE".toList smallRow.selected, marker "COMMITTEE".toList [[]]] ∧
      site.client.markers.length = 2 := by
  obtain ⟨onMap, listed, -⟩ := map_shows_view smallBounds 42 (-88) smallDocument (smallEvents ++ smallAnswer)
    small_legal
  have parts : pictureMarkers ((View.start smallBounds
      (Client.start smallBounds 42 (-88) smallDocument).cycles).run (smallEvents ++ smallAnswer)).parts =
        [rowMarker "COMMITTEE".toList smallRow.selected, marker "COMMITTEE".toList [[]]] := by decide
  have two := congrArg List.length listed
  rw [List.length_map, List.length_map, onMap, parts] at two
  exact ⟨onMap.trans parts, two⟩

/-! ## Answers to the requests of the client -/

theorem drawn_whole_iff {a : Answer} {layers : List Layer} :
    (drawn a layers).whole = true ↔ ∀ layer ∈ layers, (a layer).isSome := by
  induction layers with
  | nil => exact iff_of_true rfl fun _ m => absurd m List.not_mem_nil
  | cons layer layers ih =>
      rw [List.forall_mem_cons, ← ih, drawn]
      cases a layer with
      | none => exact iff_of_false Bool.false_ne_true fun all => absurd all.1 Bool.false_ne_true
      | some rows => exact (and_iff_right rfl).symm

theorem drawn_all {a : Answer} {f : Layer → List GeoRow} {layers : List Layer}
    (all : ∀ layer ∈ layers, a layer = some (f layer)) :
    drawn a layers = ⟨layers.map fun layer => (layer, f layer), true⟩ := by
  induction layers with
  | nil => rfl
  | cons layer layers ih =>
      obtain ⟨first, others⟩ := List.forall_mem_cons.mp all
      rw [drawn, first, ih others]
      rfl

/-- Asked for are the layers whose boxes are checked. -/
theorem nearAnswer_viewShift (tables : Layer → List GeoRow) (b : Bounds) (checked : Layer → Bool)
    (cycles : List Str) {layer : Layer} (box : layer ∈ boxes) :
    nearAnswer (fun layer => some (tables layer)) (viewShift b checked cycles) layer =
      if checked layer then some (fetch (tables layer) layer b (getCheckedCycles cycles)) else none := by
  have asked : layer.name.toList ∈ whatKeys (some (getCheckedData checked)) ↔ checked layer = true := by
    rw [whatKeys_checked]
    refine ⟨fun m => ?_, fun on => List.mem_map_of_mem (List.mem_filter.mpr ⟨box, on⟩)⟩
    obtain ⟨layer', m, same⟩ := List.mem_map.mp m
    exact name_injective same ▸ (List.mem_filter.mp m).2
  simp only [nearAnswer, List.contains_iff_mem, viewShift, asked, Option.map_some, Option.getD_some]

/-- A layer whose box was not checked is missing. -/
theorem whole_viewShift_iff (tables : Layer → List GeoRow) (b : Bounds) (checked checked' : Layer → Bool)
    (cycles : List Str) :
    (drawn (nearAnswer (fun layer => some (tables layer)) (viewShift b checked cycles))
        (boxes.filter checked')).whole = true ↔
      ∀ layer ∈ boxes, checked' layer = true → checked layer = true := by
  rw [drawn_whole_iff]
  simp only [List.mem_filter, and_imp]
  refine forall₃_congr fun layer box _ => ?_
  rw [nearAnswer_viewShift tables b checked cycles box]
  cases checked layer with
  | false => exact iff_of_false Bool.false_ne_true Bool.false_ne_true
  | true => exact iff_of_true rfl rfl

/-- With the boxes of the request the whole page is drawn. -/
theorem drawn_viewShift (tables : Layer → List GeoRow) (b : Bounds) (checked : Layer → Bool)
    (cycles : List Str) :
    drawn (nearAnswer (fun layer => some (tables layer)) (viewShift b checked cycles))
      (boxes.filter checked) =
      ⟨near tables (viewShift b checked cycles), true⟩ := by
  rw [near_viewShift]
  refine drawn_all fun layer m => ?_
  obtain ⟨box, on⟩ := List.mem_filter.mp m
  rw [nearAnswer_viewShift tables b checked cycles box, if_pos on]

/-- No query fails. -/
def Event.Up : Event → Prop
  | .answer _ tables => ∃ tables' : Layer → List GeoRow, tables = fun layer => some (tables' layer)
  | _ => True

/-- The client has made the request, and no query for its answer has failed. -/
def FromClient (x : Exchange Answer) : Prop :=
  ∃ b checked cycles, x.request = viewShift b checked cycles ∧
    ∀ a ∈ x.response, ∃ tables : Layer → List GeoRow, a =
      nearAnswer (fun layer => some (tables layer)) x.request

theorem FromClient.answer {x : Exchange Answer} (h : FromClient x) (tables : Layer → List GeoRow) :
    FromClient (x.answer (nearAnswer fun layer => some (tables layer))) := by
  obtain ⟨b, checked, cycles, request, response⟩ := h
  refine ⟨b, checked, cycles, request, ?_⟩
  obtain ⟨request, _ | a⟩ := x
  · rintro a ⟨⟩
    exact ⟨tables, rfl⟩
  · rintro a ⟨⟩
    exact response a rfl

theorem fromClient_next (h : ∀ x ∈ v.exchanges, FromClient x) {e : Event} (up : e.Up) :
    ∀ x ∈ (v.next e).exchanges, FromClient x := by
  cases e with
  | move b => exact h
  | check layer => exact h
  | checkCycle i => exact h
  | reposition lat long => exact h
  | viewShift =>
      intro x m
      rcases List.mem_append.mp m with m | m
      · exact h x m
      · obtain rfl := List.mem_singleton.mp m
        exact ⟨_, _, _, rfl, by rintro a ⟨⟩⟩
  | answer i tables =>
      obtain ⟨tables, rfl⟩ := up
      intro x m
      rcases mem_modify m with old | ⟨x', old, rfl⟩
      · exact h x old
      · exact (h x' old).answer tables
  | lose i => exact fun x m => h x (List.mem_of_mem_eraseIdx m)
  | deliver i heads =>
      simp only [View.next]
      cases v.exchanges[i]?.bind Exchange.response with
      | none => exact h
      | some a => exact fun x m => h x (List.mem_of_mem_eraseIdx m)

theorem fromClient_run (h : ∀ x ∈ v.exchanges, FromClient x) {events : List Event} (up : ∀ e ∈ events, e.Up) :
    ∀ x ∈ (v.run events).exchanges, FromClient x := by
  induction events generalizing v with
  | nil => exact h
  | cons e events ih =>
      obtain ⟨first, others⟩ := List.forall_mem_cons.mp up
      exact ih (fromClient_next h first) others

/-- An answer is drawn to the end just in case every box that is checked by then was checked when
the request was made. Else an exception leaves the display at "Updating Display...". -/
theorem update_ends_iff (b : Bounds) (lat long : ℚ) (document : Str) (events : List Event)
    (legal : ∀ e ∈ events, e.Legal) (up : ∀ e ∈ events, e.Up) :
    let site := (Site.start b lat long document).run events
    ∀ (i : Nat) (heads : Bool) (p : NearParams) (data : Str), site.exchanges[i]? = some ⟨p, some data⟩ →
      let site' := site.next (.deliver i heads)
      (site'.client.color.html = .ready ∨ site'.client.color.html = .updating) ∧
        ∃ checked, p.what = some (getCheckedData checked) ∧
          (site'.client.color.html = .ready ↔
            ∀ layer ∈ boxes, site.client.checked layer = true → checked layer = true) := by
  intro site i heads p data arrives site'
  have h := (Shows.start b lat long document).run legal
  have fromClient := fromClient_run (v := .start b (Client.start b lat long document).cycles)
    (fun x m => absurd m List.not_mem_nil) up
  generalize (View.start b (Client.start b lat long document).cycles).run events = v at h fromClient
  change Shows site v at h
  have pending : v.exchanges[i]?.map (Exchange.map rawText) = some ⟨p, some data⟩ := by
    rw [← arrives, h.exchanges, List.getElem?_map]
  obtain ⟨⟨_, response⟩, at_, same⟩ := Option.map_eq_some_iff.mp pending
  obtain ⟨rfl, answered⟩ := Exchange.mk.inj same
  obtain ⟨a, rfl, -⟩ := Option.map_eq_some_iff.mp answered
  have m := List.mem_of_getElem? at_
  obtain ⟨b', checked, cycles, rfl, answers⟩ := fromClient _ m
  obtain ⟨tables, found⟩ := answers a rfl
  change a = nearAnswer _ (viewShift b' checked cycles) at found
  subst found
  have received : v.next (.deliver i heads) =
      { v.receive (nearAnswer (fun layer => some (tables layer)) (viewShift b' checked cycles)) with
        exchanges := v.exchanges.eraseIdx i } := by
    simp only [View.next, at_, Option.bind_some]
  have status := (h.next (e := .deliver i heads) trivial).status
  rw [received] at status
  have html : site'.client.color.html = if ∀ layer ∈ boxes, site.client.checked layer = true →
    checked layer = true
      then .ready else .updating := by
    rw [h.checked]
    exact status.trans (if_congr (whole_viewShift_iff tables b' checked v.checked cycles) rfl rfl)
  refine ⟨?_, checked, rfl, ?_⟩
  · rw [html]
    exact (ite_eq_or_eq _ _ _)
  · rw [html]
    split
    · next all => exact iff_of_true rfl all
    · next some_ => exact iff_of_false Status.noConfusion some_

/-- The box of the candidates is checked after the request. -/
def lateCheck : List Event :=
  smallEvents ++ [.answer 0 fun layer => some (smallTables layer), .check .candidates]

theorem lateCheck_legal : ∀ e ∈ lateCheck, e.Legal := by
  simp only [lateCheck, smallEvents, List.cons_append, List.nil_append, List.forall_mem_cons]
  exact ⟨trivial, trivial, trivial, smallTables_presentable, trivial, fun _ m => absurd m List.not_mem_nil⟩

theorem lateCheck_up : ∀ e ∈ lateCheck, e.Up := by
  simp only [lateCheck, smallEvents, List.cons_append, List.nil_append, List.forall_mem_cons]
  exact ⟨trivial, trivial, trivial, ⟨_, rfl⟩, trivial, fun _ m => absurd m List.not_mem_nil⟩

theorem update_ends_iff_small :
    let site := (Site.start smallBounds 42 (-88) smallDocument).run lateCheck
    ∃ checked, getCheckedData checked = "committees".toList ∧
      ((site.next (.deliver 0 true)).client.color.html = .ready ↔
        ∀ layer ∈ boxes, site.client.checked layer = true → checked layer = true) := by
  obtain ⟨-, checked, what, ready⟩ := update_ends_iff smallBounds 42 (-88) smallDocument lateCheck
    lateCheck_legal lateCheck_up 0 true
      (viewShift smallBounds (toggle (fun _ => false) .committees) ["1112".toList])
    (nearReply (fun layer => some (smallTables layer))
      (viewShift smallBounds (toggle (fun _ => false) .committees) ["1112".toList])) rfl
  have asked : getCheckedData (toggle (fun _ => false) .committees) = "committees".toList := by decide
  exact ⟨checked, (Option.some.inj what).symm.trans asked, ready⟩

/-! ## An undisturbed client -/

/-- The answers come in the order of the requests, none is lost, and nobody touches the map. -/
def Event.Settling : Event → Prop
  | .answer _ tables => ∃ tables' : Layer → List GeoRow, tables = fun layer => some (tables' layer)
  | .deliver i _ => i = 0
  | .reposition _ _ => True
  | _ => False

/-- The server has answered the last request from tables with `P`. -/
def AnsweredFrom (P : (Layer → List GeoRow) → Prop) (p : NearParams) (a : Answer) : Prop :=
  ∃ tables, P tables ∧ a = nearAnswer (fun layer => some (tables layer)) p

/-- The last request is the last one under way, or what it has brought is drawn. -/
def Settles (P : (Layer → List GeoRow) → Prop) (p : NearParams) (v : View) : Prop :=
  v.request = p ∧
    ((∃ front response, v.exchanges = front ++ [⟨p, response⟩] ∧ ∀ a ∈ response, AnsweredFrom P p a) ∨
      (v.exchanges = [] ∧ ∃ a, AnsweredFrom P p a ∧
        v.parts = (drawn a (boxes.filter v.checked)).parts ∧
        v.status = if (drawn a (boxes.filter v.checked)).whole then .ready else .updating))

theorem modify_last {α : Type} (front : List α) (x : α) (f : α → α) (i : Nat) :
    ∃ front' x', (front ++ [x]).modify i f = front' ++ [x'] ∧ (x' = x ∨ i = front.length ∧ x' = f x) := by
  induction front generalizing i with
  | nil =>
      cases i with
      | zero => exact ⟨[], f x, rfl, Or.inr ⟨rfl, rfl⟩⟩
      | succ i =>
          refine ⟨[], x, ?_, Or.inl rfl⟩
          rw [List.nil_append, List.modify_succ_cons, List.modify_nil]
  | cons y front ih =>
      cases i with
      | zero => exact ⟨f y :: front, x, rfl, Or.inl rfl⟩
      | succ i =>
          obtain ⟨front', x', same, last⟩ := ih i
          refine ⟨y :: front', x', ?_, last.imp_right fun h => ⟨congrArg Nat.succ h.1, h.2⟩⟩
          rw [List.cons_append, List.modify_succ_cons, same, List.cons_append]

/-- The `i`-th request is the last one under way, it is `p`, and it has no answer yet. -/
def Awaits {α : Type} (p : NearParams) (exchanges : List (Exchange α)) (i : Nat) : Prop :=
  exchanges.length = i + 1 ∧ exchanges[i]? = some ⟨p, none⟩

variable {P : (Layer → List GeoRow) → Prop} {p : NearParams}

theorem Settles.next (h : Settles P p v) {e : Event} (settling : e.Settling)
    (from_ : ∀ i (tables : Layer → List GeoRow), e = .answer i (fun layer => some (tables layer)) →
      Awaits p v.exchanges i → P tables) :
    Settles P p (v.next e) := by
  obtain ⟨request, cases_⟩ := h
  cases e with
  | move b => exact absurd settling not_false
  | check layer => exact absurd settling not_false
  | checkCycle i => exact absurd settling not_false
  | viewShift => exact absurd settling not_false
  | lose i => exact absurd settling not_false
  | reposition lat long => exact ⟨request, cases_⟩
  | answer i tables =>
      obtain ⟨tables, rfl⟩ := settling
      refine ⟨request, ?_⟩
      rcases cases_ with ⟨front, response, under, answers⟩ | ⟨none_, done⟩
      · obtain ⟨front', x', same, last⟩ := modify_last front ⟨p, response⟩
          (Exchange.answer (nearAnswer fun layer => some (tables layer))) i
        rw [← under] at same
        rcases last with rfl | ⟨rfl, rfl⟩
        · exact Or.inl ⟨front', response, same, answers⟩
        · refine Or.inl ⟨front', _, same, ?_⟩
          rintro a ⟨⟩
          cases response with
          | none =>
              have awaits : Awaits p v.exchanges front.length := by
                rw [under, Awaits, List.length_append, List.getElem?_append_right le_rfl, Nat.sub_self]
                exact ⟨rfl, rfl⟩
              exact ⟨tables, from_ _ tables rfl awaits, rfl⟩
          | some a => exact answers a rfl
      · refine Or.inr ⟨?_, done⟩
        simp only [View.next, none_]
        cases i <;> rfl
  | deliver i heads =>
      obtain rfl := settling
      rcases cases_ with ⟨front, response, under, answers⟩ | ⟨none_, done⟩
      · cases front with
        | nil =>
            cases response with
            | none =>
                have same : v.next (.deliver 0 heads) = v := by simp [View.next, under]
                rw [same]
                exact ⟨request, Or.inl ⟨[], none, under, answers⟩⟩
            | some a =>
                have same : v.next (.deliver 0 heads) = { v.receive a with exchanges := [] } := by
                  simp [View.next, under]
                rw [same]
                exact ⟨request, Or.inr ⟨rfl, a, answers a rfl, rfl, rfl⟩⟩
        | cons x front =>
            cases arrived : x.response with
            | none =>
                have same : v.next (.deliver 0 heads) = v := by simp [View.next, under, arrived]
                rw [same]
                exact ⟨request, Or.inl ⟨x :: front, response, under, answers⟩⟩
            | some a =>
                have same : v.next (.deliver 0 heads) =
                    { v.receive a with exchanges := front ++ [⟨p, response⟩] } := by
                  simp [View.next, under, arrived]
                rw [same]
                exact ⟨request, Or.inl ⟨front, response, rfl, answers⟩⟩
      · have same : v.next (.deliver 0 heads) = v := by simp [View.next, none_]
        rw [same]
        exact ⟨request, Or.inr ⟨none_, done⟩⟩

theorem Settles.run (h : Settles P p v) {events : List Event} (settling : ∀ e ∈ events, e.Settling)
    (from_ : ∀ front i (tables : Layer → List GeoRow) back,
      events = front ++ .answer i (fun layer => some (tables layer)) :: back →
        Awaits p (v.run front).exchanges i → P tables) : Settles P p (v.run events) := by
  induction events generalizing v with
  | nil => exact h
  | cons e events ih =>
      obtain ⟨first, others⟩ := List.forall_mem_cons.mp settling
      have here := h.next first fun i tables same awaits => from_ [] i tables events (same ▸ rfl) awaits
      exact ih here others fun front i tables back same awaits =>
        from_ (e :: front) i tables back (same ▸ rfl) awaits

/-- Once the last request of an undisturbed client is answered, the map shows what the server had
for the place, the boxes and the cycles when it answered; with one checked cycle and away from the
180th meridian these are the rows that it should show. -/
theorem map_catches_up (b : Bounds) (lat long : ℚ) (document : Str) (before after : List Event)
    (legal : ∀ e ∈ before ++ .viewShift :: after, e.Legal) (settling : ∀ e ∈ after, e.Settling) :
    let site := (Site.start b lat long document).run (before ++ .viewShift :: after)
    let c := site.client
    site.exchanges = [] →
      c.color.html = .ready ∧
        ∃ front i back, ∃ tables : Layer → List GeoRow,
          after = front ++ .answer i (fun layer => some (tables layer)) :: back ∧
          Awaits (viewShift c.bounds c.checked c.checkedCycles)
            ((Site.start b lat long document).run (before ++ .viewShift :: front)).exchanges i ∧
          c.onMap = pictureMarkers (near tables (viewShift c.bounds c.checked c.checkedCycles)) ∧
          (c.checkedCycles.length = 1 → c.bounds.longsw ≤ c.bounds.longne →
            c.onMap = pictureMarkers (wanted tables c.bounds c.checked c.checkedCycles)) := by
  intro site c quiet
  -- what client and view have under way at any moment of the settling is the same
  have shows (front back : List Event) (same : after = front ++ back) :
      Shows ((Site.start b lat long document).run (before ++ .viewShift :: front))
        ((((View.start b (Client.start b lat long document).cycles).run before).next .viewShift).run
          front) := by
    have start := Shows.start b lat long document
    have h : Shows ((Site.start b lat long document).run (before ++ .viewShift :: front)) _ :=
      start.run fun e m => legal e (by
        rw [same, ← List.cons_append, ← List.append_assoc]
        exact List.mem_append_left back m)
    rwa [View.run, List.foldl_append, List.foldl_cons, ← View.run, ← View.run] at h
  have h := shows after [] (List.append_nil after).symm
  change Shows site _ at h
  generalize (View.start b (Client.start b lat long document).cycles).run before = v at h shows
  let answered (tables : Layer → List GeoRow) : Prop := ∃ front i back,
    after = front ++ .answer i (fun layer => some (tables layer)) :: back ∧
      Awaits v.request ((v.next .viewShift).run front).exchanges i
  have settles : Settles answered v.request (v.next .viewShift) :=
    ⟨rfl, Or.inl ⟨v.exchanges, none, rfl, by rintro a ⟨⟩⟩⟩
  have settled := settles.run settling fun front i tables back same awaits => ⟨front, i, back, same, awaits⟩
  generalize (v.next .viewShift).run after = v' at h settled
  have empty : v'.exchanges = [] := List.map_eq_nil_iff.mp (h.exchanges.symm.trans quiet)
  obtain ⟨request, ⟨front, response, under, -⟩ | ⟨-, a, ⟨tables, by_, rfl⟩, parts, status⟩⟩ := settled
  · rw [empty] at under
    exact absurd under.symm (List.append_ne_nil_of_right_ne_nil front (List.cons_ne_nil _ _))
  · obtain ⟨front, i, back, same, length, last⟩ := by_
    have asked : v.request = viewShift c.bounds c.checked c.checkedCycles := by
      rw [← request, View.request, Client.checkedCycles, h.bounds, h.checked, h.cycles]
    rw [asked, ← h.checked, drawn_viewShift] at parts status
    have onMap : c.onMap = pictureMarkers (near tables (viewShift c.bounds c.checked c.checkedCycles)) :=
      h.tracks.onMap.trans (congrArg pictureMarkers parts)
    have awaits : Awaits (viewShift c.bounds c.checked c.checkedCycles)
        ((Site.start b lat long document).run (before ++ .viewShift :: front)).exchanges i := by
      rw [Awaits, (shows front _ same).exchanges, List.length_map, List.getElem?_map, last, ← asked]
      exact ⟨length, rfl⟩
    refine ⟨h.status.trans status, front, i, back, tables, same, awaits, onMap, fun one straight => ?_⟩
    rw [onMap, (near_wanted_iff tables c.bounds c.checked c.checkedCycles).mpr (Or.inl ⟨one, straight⟩)]

theorem map_catches_up_small :
    let site := (Site.start smallBounds 42 (-88) smallDocument).run (smallEvents ++ smallAnswer)
    site.client.color.html = .ready ∧ ∃ tables : Layer → List GeoRow,
      site.client.onMap = pictureMarkers (wanted tables smallBounds site.client.checked ["1112".toList]) := by
  obtain ⟨ready, -, -, -, tables, -, -, -, shown⟩ := map_catches_up smallBounds 42 (-88) smallDocument
    [.check .committees, .checkCycle 0] smallAnswer small_legal (by
      simp only [smallAnswer, List.forall_mem_cons]
      exact ⟨⟨_, rfl⟩, rfl, fun _ m => absurd m List.not_mem_nil⟩) rfl
  exact ⟨ready, tables, shown rfl (by decide)⟩

def emptyBounds : Bounds := ⟨1, 1, 0, 0⟩

/-- An answer that is overtaken stays: the map has moved to where there is nothing, and it shows the
row of the place it has left. -/
example :
    let site := (Site.start smallBounds 42 (-88) smallDocument).run
      (smallEvents ++ [.move emptyBounds, .viewShift, .answer 0 fun layer => some (smallTables layer),
        .answer 1 fun layer => some (smallTables layer), .deliver 1 true, .deliver 0 true])
    site.exchanges.length = 0 ∧
      site.client.onMap = [rowMarker "COMMITTEE".toList smallRow.selected,
        marker "COMMITTEE".toList [[]]] := by
  decide

end Rwb
