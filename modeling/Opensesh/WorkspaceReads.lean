/-
Reading what was written: a workspace's table has its fields back, and a restored workspace that
is saved opens as it was.
-/
import Opensesh.WorkspaceRestore

namespace Opensesh.Workspaces

open List
open Layout (Axis PaneId)
open Records (putAll Unknown lookup_putAll wellFormed_putAll)
open Fields (Form)

mutual

/-- A layout that was read is well formed. -/
theorem readNode_fits : ∀ (content : Content) (node : Layout.Node F64),
    readNode content = some node → ∀ id : Int, id ∈ node.panes → -2 ^ 31 ≤ id ∧ id < 2 ^ 31
  | .map entries, node, h, id, hid => by
      rw [readNode] at h
      split at h
      · rename_i pane hpane
        obtain rfl := Option.some.inj h
        obtain rfl := mem_singleton.mp hid
        obtain ⟨content, -, hcontent⟩ := Option.bind_eq_some_iff.mp hpane
        cases content with
        | integer value =>
          rw [readPane, Option.ite_none_right_eq_some, Option.some.injEq] at hcontent
          exact hcontent.2 ▸ hcontent.1
        | _ => cases hcontent
      · simp only [Option.bind_eq_bind, Option.bind_eq_some_iff] at h
        obtain ⟨axis, -, ratio, -, first, hfirst, second, hsecond, heq⟩ := h
        obtain rfl := Option.some.inj heq
        rcases mem_append.mp hid with hid | hid
        · exact readNodes_fit entries "first" first (Option.join_eq_some_iff.mp hfirst) id hid
        · exact readNodes_fit entries "second" second (Option.join_eq_some_iff.mp hsecond) id hid
  | .integer _, _, h, _, _ => by cases h
  | .float _, _, h, _, _ => by cases h
  | .text _, _, h, _, _ => by cases h
  | .other, _, h, _, _ => by cases h

theorem readNodes_fit : ∀ (entries : List (String × Content)) (key : String)
    (node : Layout.Node F64), (readNodes entries).lookup key = some (some node) →
    ∀ id : Int, id ∈ node.panes → -2 ^ 31 ≤ id ∧ id < 2 ^ 31
  | [], _, _, h, _, _ => by cases h
  | (name, content) :: rest, key, node, h, id, hid => by
      rw [readNodes, lookup_cons] at h
      split at h
      · exact readNode_fits content node (Option.some.inj h) id hid
      · exact readNodes_fit rest key node h id hid

end

section

variable {α : Type} {read : Value → Option α} {value : Value}

/-- Every item of a list was read. -/
theorem readItems_some {items : List Value} {found : List α} (h : readItems read items = some found)
    {x : α} (hx : x ∈ found) : ∃ item, read item = some x := by
  induction items generalizing found with
  | nil =>
    obtain rfl := Option.some.inj h
    exact absurd hx not_mem_nil
  | cons item items ih =>
    simp only [readItems, Option.bind_eq_bind, Option.bind_eq_some_iff] at h
    obtain ⟨first, hfirst, others, hothers, heq⟩ := h
    obtain rfl := Option.some.inj heq
    rcases mem_cons.mp hx with rfl | hx
    · exact ⟨item, hfirst⟩
    · exact ih hothers hx

variable {found : List α} {x : α} {field : Option Value} {index : Nat}

theorem readList_some (h : readOr (readList read) [] field = some found) (hx : x ∈ found) :
    ∃ item, read item = some x := by
  cases field with
  | none =>
    obtain rfl := Option.some.inj h
    exact absurd hx not_mem_nil
  | some value =>
    cases value with
    | array items => exact readItems_some h hx
    | _ => cases h

/-- An index fits the integers of TOML. -/
theorem readIndex_lt (h : readIndex value = some index) : index < 2 ^ 63 := by
  cases value with
  | integer value =>
    rw [readIndex, Option.ite_none_right_eq_some, Option.some.injEq] at h
    omega
  | _ => cases h

theorem readOr_index_lt (h : readOr readIndex 0 field = some index) : index < 2 ^ 63 := by
  cases field with
  | none =>
    obtain rfl := Option.some.inj h
    norm_num
  | some value => exact readIndex_lt h

end

theorem TabState.fits_of_read {value : Value} {tab : TabState}
    (h : TabState.read value = some tab) : tab.Fits := by
  simp only [TabState.read, Option.bind_eq_bind, Option.bind_eq_some_iff] at h
  obtain ⟨field, -, title, -, color, -, pinned, -, focused, hfocused, zoomed, hzoomed, layout,
    ⟨node, -, hlayout⟩, panes, -, heq⟩ := h
  obtain rfl := Option.some.inj heq
  refine ⟨readNode_fits _ layout hlayout, readOr_index_lt hfocused, fun index hindex => ?_⟩
  obtain rfl : zoomed = some index := hindex
  cases hfield : field "zoomed" 4 with
  | none =>
    rw [hfield] at hzoomed
    cases hzoomed
  | some value =>
    rw [hfield, readOr] at hzoomed
    obtain ⟨read, hread, heq⟩ := Option.map_eq_some_iff.mp hzoomed
    exact readIndex_lt (Option.some.inj heq ▸ hread)

variable {window : WindowState} {workspace : Workspace} {node : Layout.Node F64} {α : Type}
  {write : α → Value} {items : List α} {fields : List (String × Option Value)}

theorem WindowState.fits_of_read {value : Value} (h : WindowState.read value = some window) :
    window.Fits := by
  simp only [WindowState.read, Option.bind_eq_bind, Option.bind_eq_some_iff] at h
  obtain ⟨field, -, currentTab, hcurrent, tabs, htabs, heq⟩ := h
  obtain rfl := Option.some.inj heq
  refine ⟨readOr_index_lt hcurrent, fun tab htab => ?_⟩
  obtain ⟨item, hitem⟩ := readList_some htabs htab
  exact TabState.fits_of_read hitem

/-- Whatever was read fits. -/
theorem Workspace.fits_of_read {value : Value} (h : Workspace.read value = some workspace) :
    workspace.Fits := by
  simp only [Workspace.read, Option.bind_eq_bind, Option.bind_eq_some_iff] at h
  obtain ⟨field, -, version, hversion, name, -, windows, hwindows, heq⟩ := h
  obtain rfl := Option.some.inj heq
  refine ⟨?_, fun window hwindow => ?_⟩
  · cases hfield : field "schema_version" 0 with
    | none =>
      rw [hfield] at hversion
      obtain rfl := Option.some.inj hversion
      exact (by decide : -2 ^ 63 ≤ Workspaces.schemaVersion ∧ Workspaces.schemaVersion < 2 ^ 63)
    | some value =>
      rw [hfield, readOr] at hversion
      cases value with
      | integer value =>
        rw [readVersion, Option.ite_none_right_eq_some, Option.some.injEq] at hversion
        exact hversion.2 ▸ hversion.1
      | _ => cases hversion
  · obtain ⟨item, hitem⟩ := readList_some hwindows hwindow
    exact WindowState.fits_of_read hitem

theorem readNode_split (axis : Axis) (ratio : F64) (first second : Content) :
    readNode (.map [("first", first), ("ratio", .float ratio), ("second", second),
      ("split", .text (axisName axis))]) = (do
        let first ← readNode first
        let second ← readNode second
        some (.split axis ratio first second)) := by
  rw [readNode]
  cases axis <;> rfl

theorem readNode_pane {id : Int} (hid : -2 ^ 31 ≤ id ∧ id < 2 ^ 31) :
    readNode (.map [("pane", .integer id)]) = some (.pane id) := by
  have hread : ([("pane", Content.integer id)].lookup "pane").bind readPane = some id := if_pos hid
  rw [readNode, hread]

/-- A layout reads back from its table. -/
theorem readNode_writeNode (h : ∀ id : Int, id ∈ node.panes → -2 ^ 31 ≤ id ∧ id < 2 ^ 31) :
    readNode (ofValue (writeNode node)) = some node := by
  induction node with
  | pane id =>
    have hcontent : ofValue (writeNode (.pane id)) = .map [("pane", .integer id)] := rfl
    rw [hcontent, readNode_pane (h id (mem_singleton_self id))]
  | split axis ratio first second ihf ihs =>
    have hcontent : ofValue (writeNode (.split axis ratio first second)) =
        .map [("first", ofValue (writeNode first)), ("ratio", .float ratio),
          ("second", ofValue (writeNode second)), ("split", .text (axisName axis))] := rfl
    rw [hcontent, readNode_split, ihf fun id hid => h id (mem_append_left _ hid),
      ihs fun id hid => h id (mem_append_right _ hid)]
    rfl

theorem readItems_map {α : Type} {read : Value → Option α} {write : α → Value} {items : List α}
    (h : ∀ item ∈ items, read (write item) = some item) :
    readItems read (items.map write) = some items := by
  induction items with
  | nil => rfl
  | cons item items ih =>
    rw [forall_mem_cons] at h
    rw [map_cons, readItems, h.1, ih h.2]
    rfl

theorem readOr_writeText (text : String) :
    readOr Form.text.read "" (writeText text) = some text := by
  rw [writeText]
  split_ifs with hempty
  · rw [hempty]
    rfl
  · rfl

theorem readIndex_integer {index : Nat} (h : index < 2 ^ 63) :
    readIndex (.integer index) = some index := by
  rw [readIndex, if_pos (by omega), Int.toNat_natCast]

theorem lookup_fields {key : String} (hkey : key ∈ fields.map Prod.fst) :
    (putAll fields []).lookup key = (fields.lookup key).join :=
  lookup_putAll ⟨wellFormed_empty, fun _ _ => rfl⟩ hkey

theorem readOr_text (unset text : String) :
    readOr Form.text.read unset (some (.string text)) = some text := rfl

theorem readOr_some (read : Value → Option α) (unset : α) (value : Value) :
    readOr read unset (some value) = read value := rfl

/-- A pane reads back from its table. -/
theorem PaneState.read_toTable (pane : PaneState) :
    PaneState.read (.table pane.toTable) = some pane := by
  have hlookup : ∀ key ∈ ["kind", "host", "target", "profile", "directory"],
      pane.toTable.lookup key = (pane.fields.lookup key).join := fun key hkey =>
    lookup_fields hkey
  have hkind : pane.toTable.lookup "kind" = some (.string pane.kind) := hlookup "kind" (.head _)
  have hhost : pane.toTable.lookup "host" = writeText pane.host :=
    hlookup "host" (.tail _ (.head _))
  have htarget : pane.toTable.lookup "target" = writeText pane.target :=
    hlookup "target" (.tail _ (.tail _ (.head _)))
  have hprofile : pane.toTable.lookup "profile" = writeText pane.profile :=
    hlookup "profile" (.tail _ (.tail _ (.tail _ (.head _))))
  have hdirectory : pane.toTable.lookup "directory" = writeText pane.directory :=
    hlookup "directory" (.tail _ (.tail _ (.tail _ (.tail _ (.head _)))))
  simp only [PaneState.read, fieldsOf, Option.bind_eq_bind, Option.bind_some, hkind, hhost,
    htarget, hprofile, hdirectory, readOr_text, readOr_writeText]

theorem readOr_index {index : Nat} (h : index < 2 ^ 63) :
    readOr readIndex 0 (some (.integer index)) = some index := by
  rw [readOr_some]
  exact readIndex_integer h

theorem readOr_zoomed {zoomed : Option Nat} (h : ∀ index ∈ zoomed, index < 2 ^ 63) :
    readOr (fun value => (readIndex value).map some) none
      (zoomed.map fun zoomed : Nat => .integer zoomed) = some zoomed := by
  cases zoomed with
  | none => rfl
  | some zoomed =>
    rw [Option.map_some, readOr_some, readIndex_integer (h zoomed rfl)]
    rfl

theorem readOr_flag (flag : Bool) : readOr Form.flag.read false
    (if flag = true then some (.boolean true) else none) = some flag := by
  cases flag <;> rfl

theorem readOr_array {read : Value → Option α} (h : ∀ item ∈ items, read (write item) = some item) :
    readOr (readList read) [] (some (.array (items.map write))) = some items := by
  rw [readOr_some, readList]
  exact readItems_map h

/-- A tab reads back from its table. -/
theorem TabState.read_toTable {tab : TabState} (h : tab.Fits) :
    TabState.read (.table tab.toTable) = some tab := by
  have hlookup : ∀ key ∈ ["title", "color", "pinned", "focused", "zoomed", "layout", "pane"],
      tab.toTable.lookup key = (tab.fields.lookup key).join := fun key hkey =>
    lookup_fields hkey
  have htitle : tab.toTable.lookup "title" = writeText tab.title := hlookup "title" (.head _)
  have hcolor : tab.toTable.lookup "color" = writeText tab.color :=
    hlookup "color" (.tail _ (.head _))
  have hpinned : tab.toTable.lookup "pinned" =
      if tab.pinned = true then some (.boolean true) else none :=
    hlookup "pinned" (.tail _ (.tail _ (.head _)))
  have hfocused : tab.toTable.lookup "focused" = some (.integer tab.focused) :=
    hlookup "focused" (.tail _ (.tail _ (.tail _ (.head _))))
  have hzoomed : tab.toTable.lookup "zoomed" = tab.zoomed.map fun zoomed : Nat => .integer zoomed :=
    hlookup "zoomed" (.tail _ (.tail _ (.tail _ (.tail _ (.head _)))))
  have hlayout : tab.toTable.lookup "layout" = some (writeNode tab.layout) :=
    hlookup "layout" (.tail _ (.tail _ (.tail _ (.tail _ (.tail _ (.head _))))))
  have hpanes : tab.toTable.lookup "pane" =
      some (.array (tab.panes.map fun pane => .table pane.toTable)) :=
    hlookup "pane" (.tail _ (.tail _ (.tail _ (.tail _ (.tail _ (.tail _ (.head _)))))))
  have hitems := readOr_array fun pane (_ : pane ∈ tab.panes) => pane.read_toTable
  simp only [TabState.read, fieldsOf, Option.bind_eq_bind, Option.bind_some, htitle, hcolor,
    hpinned, hfocused, hzoomed, hlayout, hpanes, readOr_writeText, readOr_flag,
    readOr_index h.focused, readOr_zoomed h.zoomed, readNode_writeNode h.panes, hitems]

theorem WindowState.read_table {table : Table}
    (hcurrent : readOr readIndex 0 (table.lookup "current_tab") = some window.currentTab)
    (htabs : readOr (readList TabState.read) [] (table.lookup "tab") = some window.tabs) :
    WindowState.read (.table table) = some window := by
  simp only [WindowState.read, fieldsOf, Option.bind_eq_bind, Option.bind_some]
  rw [hcurrent, Option.bind_some, htabs, Option.bind_some]

theorem WindowState.read_toTable (h : window.Fits) :
    WindowState.read (.table window.toTable) = some window := by
  have hlookup : ∀ key ∈ ["current_tab", "tab"],
      window.toTable.lookup key = (window.fields.lookup key).join := fun key hkey =>
    lookup_fields hkey
  have hcurrent : window.toTable.lookup "current_tab" = some (.integer window.currentTab) :=
    hlookup "current_tab" (.head _)
  have htabs : window.toTable.lookup "tab" =
      some (.array (window.tabs.map fun tab => .table tab.toTable)) :=
    hlookup "tab" (.tail _ (.head _))
  refine WindowState.read_table ?_ ?_
  · rw [hcurrent, readOr_index h.currentTab]
  · rw [htabs]
    exact readOr_array fun tab htab => TabState.read_toTable (h.tabs tab htab)

/-- A workspace reads back from its table. -/
theorem Workspace.read_toTable (h : workspace.Fits) :
    Workspace.read (.table workspace.toTable) = some workspace := by
  have hlookup : ∀ key ∈ ["schema_version", "name", "window"],
      workspace.toTable.lookup key = (workspace.fields.lookup key).join := fun key hkey =>
    lookup_fields hkey
  have hversion : workspace.toTable.lookup "schema_version" =
      some (.integer workspace.schemaVersion) := hlookup "schema_version" (.head _)
  have hname : workspace.toTable.lookup "name" = some (.string workspace.name) :=
    hlookup "name" (.tail _ (.head _))
  have hwindows : workspace.toTable.lookup "window" =
      some (.array (workspace.windows.map fun window => .table window.toTable)) :=
    hlookup "window" (.tail _ (.tail _ (.head _)))
  have hitems := readOr_array fun window (hwindow : window ∈ workspace.windows) =>
    WindowState.read_toTable (h.windows window hwindow)
  have hnumber : readOr readVersion Workspaces.schemaVersion
      (some (.integer workspace.schemaVersion)) = some workspace.schemaVersion := by
    rw [readOr_some, readVersion, if_pos h.version]
  simp only [Workspace.read, fieldsOf, Option.bind_eq_bind, Option.bind_some, hversion, hname,
    hwindows, readOr_text, hnumber, hitems]

theorem writableEntries_iff (entries : List (String × Value)) :
    writableEntries entries = true ↔ ∀ entry ∈ entries, writable entry.2 = true := by
  induction entries with
  | nil => exact ⟨fun _ _ hmem => absurd hmem not_mem_nil, fun _ => rfl⟩
  | cons entry entries ih =>
    rw [writableEntries, Bool.and_eq_true, ih, forall_mem_cons]

theorem writableItems_map (h : ∀ item ∈ items, writable (write item) = true) :
    writableItems (items.map write) = true := by
  induction items with
  | nil => rfl
  | cons item items ih =>
    rw [forall_mem_cons] at h
    rw [map_cons, writableItems, h.1, ih h.2]
    rfl

/-- Whether a field's value, if it has one, is kept by the file. -/
def Storable (value : Option Value) : Prop :=
  wellFormedOpt value ∧ ∀ held, value = some held → writable held = true

theorem storable_none : Storable none := ⟨wellFormedOpt_none, fun _ h => by cases h⟩

theorem storable_some {value : Value} (hformed : value.wellFormed = true)
    (hwritable : writable value = true) : Storable (some value) :=
  ⟨(wellFormedOpt_some _).mpr hformed, fun _ h => Option.some.inj h ▸ hwritable⟩

theorem storable_string (text : String) : Storable (some (.string text)) := storable_some rfl rfl

theorem storable_writeText (text : String) : Storable (writeText text) := by
  rw [writeText]
  split_ifs
  · exact storable_none
  · exact storable_string text

theorem storable_index {index : Nat} (h : index < 2 ^ 63) : Storable (some (.integer index)) :=
  storable_some rfl (by rw [writable, decide_eq_true_eq]; omega)

theorem storable_array {toTable : α → Table}
    (h : ∀ item ∈ items, Storable (some (.table (toTable item)))) :
    Storable (some (.array (items.map fun item => .table (toTable item)))) := by
  refine storable_some ?_ (writableItems_map fun item hitem => (h item hitem).2 _ rfl)
  rw [Value.wellFormed, wellFormedItems_iff, forall_mem_map]
  exact fun item hitem => (wellFormedOpt_some _).mp (h item hitem).1

/-- A table of storable fields. -/
theorem storable_putAll (h : ∀ field ∈ fields, Storable field.2) :
    Storable (some (.table (putAll fields []))) := by
  have hunknown : Unknown (fields.map Prod.fst) [] := ⟨wellFormed_empty, fun _ _ => rfl⟩
  have hformed := wellFormed_putAll (fun field hfield => (h field hfield).1) hunknown
  refine storable_some hformed ?_
  rw [writable, writableEntries_iff]
  rintro ⟨key, value⟩ hmem
  have hlookup := (lookup_eq_some_iff_mem ((wellFormed_table _).mp hformed).1.nodup).mpr hmem
  by_cases hkey : key ∈ fields.map Prod.fst
  · rw [lookup_fields hkey] at hlookup
    obtain ⟨before, after, heq, -⟩ := lookup_eq_some_iff.mp (Option.join_eq_some_iff.mp hlookup)
    refine (h (key, some value) ?_).2 value rfl
    rw [heq]
    exact mem_append_right _ mem_cons_self
  · rw [putAll, lookup_writeAll, if_neg hkey] at hlookup
    cases hlookup

theorem storable_table {entries : List (String × Value)} (hascending : Ascending entries)
    (h : ∀ entry ∈ entries, Storable (some entry.2)) : Storable (some (.table entries)) := by
  refine storable_some ((wellFormed_table _).mpr ⟨hascending, fun key value hmem => ?_⟩) ?_
  · exact (wellFormedOpt_some _).mp (h (key, value) hmem).1
  · rw [writable, writableEntries_iff]
    exact fun entry hentry => (h entry hentry).2 _ rfl

/-- A layout can be stored. -/
theorem storable_writeNode (hratios : RatiosWithin node)
    (hpanes : ∀ id : Int, id ∈ node.panes → -2 ^ 31 ≤ id ∧ id < 2 ^ 31) :
    Storable (some (writeNode node)) := by
  induction node with
  | pane id =>
    have hid := hpanes id (mem_singleton_self id)
    have hinteger : Storable (some (.integer id)) :=
      storable_some rfl (by rw [writable, decide_eq_true_eq]; omega)
    refine storable_table (pairwise_singleton _ _) ?_
    rw [forall_mem_singleton]
    exact hinteger
  | split axis ratio first second ihf ihs =>
    obtain ⟨hratio, hfirst, hsecond⟩ := hratios
    have hfloat : Storable (some (.float ratio)) :=
      storable_some rfl (by rw [writable, isNan_of_inRange hratio]; rfl)
    have hkeys : List.Pairwise (· < ·) ["first", "ratio", "second", "split"] := by decide
    refine storable_table hkeys ?_
    rw [forall_mem_cons, forall_mem_cons, forall_mem_cons, forall_mem_singleton]
    exact ⟨ihf hfirst fun id hid => hpanes id (mem_append_left _ hid), hfloat,
      ihs hsecond fun id hid => hpanes id (mem_append_right _ hid),
      storable_string (axisName axis)⟩

theorem PaneState.storable (pane : PaneState) : Storable (some (.table pane.toTable)) := by
  refine storable_putAll ?_
  simp only [PaneState.fields, forall_mem_cons]
  exact ⟨storable_string _, storable_writeText _, storable_writeText _, storable_writeText _,
    storable_writeText _, fun _ hmem => absurd hmem not_mem_nil⟩

theorem TabState.storable {tab : TabState} (hfits : tab.Fits) (hratios : RatiosWithin tab.layout) :
    Storable (some (.table tab.toTable)) := by
  have hflag : Storable (if tab.pinned = true then some (.boolean true) else none) := by
    split_ifs
    · exact storable_some rfl rfl
    · exact storable_none
  have hzoomed : Storable (tab.zoomed.map fun zoomed : Nat => .integer zoomed) := by
    cases hsome : tab.zoomed with
    | none => exact storable_none
    | some zoomed => exact storable_index (hfits.zoomed zoomed hsome)
  refine storable_putAll ?_
  simp only [TabState.fields, forall_mem_cons]
  exact ⟨storable_writeText _, storable_writeText _, hflag, storable_index hfits.focused, hzoomed,
    storable_writeNode hratios hfits.panes, storable_array fun pane _ => pane.storable,
    fun _ hmem => absurd hmem not_mem_nil⟩

theorem WindowState.storable (hfits : window.Fits) (hwhole : window.Whole) :
    Storable (some (.table window.toTable)) := by
  refine storable_putAll ?_
  simp only [WindowState.fields, forall_mem_cons]
  exact ⟨storable_index hfits.currentTab,
    storable_array fun tab htab =>
      TabState.storable (hfits.tabs tab htab) (hwhole.tabs tab htab).ratios,
    fun _ hmem => absurd hmem not_mem_nil⟩

/-- A whole workspace can be stored. -/
theorem Workspace.storable (hfits : workspace.Fits)
    (hwhole : ∀ window ∈ workspace.windows, window.Whole) :
    Storable (some (.table workspace.toTable)) := by
  refine storable_putAll ?_
  simp only [Workspace.fields, forall_mem_cons]
  exact ⟨storable_some rfl (by rw [writable, decide_eq_true_eq]; exact hfits.version),
    storable_string _, storable_array fun window hwindow =>
      WindowState.storable (hfits.windows window hwindow) (hwhole window hwindow),
    fun _ hmem => absurd hmem not_mem_nil⟩

section

variable {τ : Type} {toml : TomlText τ}

variable {workspace : Workspace}

theorem opens_saved (hlawful : toml.Lawful) (hfits : workspace.Fits)
    (hwhole : ∀ window ∈ workspace.windows, window.tabs ≠ [] ∧ window.Whole) :
    ∃ text, toTomlString toml workspace = .ok text ∧
      fromTomlStr toml text = .ok (workspace, newerWarning workspace.schemaVersion) := by
  have hstorable := Workspace.storable hfits fun window hwindow => (hwhole window hwindow).2
  obtain ⟨text, hprint, hparse⟩ := hlawful workspace.toTable
    ((wellFormedOpt_some _).mp hstorable.1) (hstorable.2 _ rfl)
  refine ⟨text, hprint, ?_⟩
  rw [fromTomlStr, hparse]
  dsimp only
  rw [Workspace.read_toTable hfits]
  dsimp only
  rw [Workspace.restore_of_whole hfits hwhole]

/-- What is opened is what the file says without the tabs whose layout is broken and the windows
left without tabs: each window shows the tab the file names, if that was kept, and each tab's panes
are those of its layout, which is in bounds. Saved and opened again it is the same. -/
structure OpensAsSaid (toml : TomlText τ) (said workspace : Workspace) : Prop where
  version : workspace.schemaVersion = said.schemaVersion
  name : workspace.name = said.name
  windows : workspace.windows = (said.windows.map WindowState.restored).filter
    fun window => !window.tabs.isEmpty
  kept : ∀ window ∈ said.windows,
    window.restored.tabs = (window.tabs.filter TabState.Restorable).map TabState.repaired
  shown : ∀ window ∈ said.windows, window.ShowsNamed
  whole : ∀ window ∈ workspace.windows, window.tabs ≠ [] ∧
    window.currentTab < window.tabs.length ∧
    ∀ tab ∈ window.tabs, tab.layout.panes.Perm (indexes tab.panes.length) ∧
      RatiosWithin tab.layout ∧ tab.focused < tab.panes.length ∧
      ∀ zoomed ∈ tab.zoomed, zoomed < tab.panes.length
  again : ∃ saved, toTomlString toml workspace = .ok saved ∧
    fromTomlStr toml saved = .ok (workspace, [])

theorem newerWarning_eq_nil_iff (version : Int) :
    newerWarning version = [] ↔ version ≤ schemaVersion := by
  rw [newerWarning]
  by_cases hnewer : version > schemaVersion
  · rw [if_pos hnewer]
    exact iff_of_false (cons_ne_nil _ _) (not_le.mpr hnewer)
  · rw [if_neg hnewer]
    exact iff_of_true rfl (not_lt.mp hnewer)

/-- A file opens as it says and says no more when saved, if and only if it is not of a newer
version and each of its windows names a tab that is still found by its number. -/
theorem opens_as_said_iff (hlawful : toml.Lawful) {text : τ} {table : Table} {said : Workspace}
    (hparse : toml.parse text = .ok table) (hsaid : Workspace.read (.table table) = some said) :
    (∃ workspace warnings, fromTomlStr toml text = .ok (workspace, warnings) ∧
      OpensAsSaid toml said workspace) ↔
    said.schemaVersion ≤ schemaVersion ∧ ∀ window ∈ said.windows, window.Aligned := by
  have hfits := Workspace.fits_of_read hsaid
  have hopened : fromTomlStr toml text = .ok said.restore := by
    rw [fromTomlStr, hparse]
    dsimp only
    rw [hsaid]
  have hwhole : ∀ window ∈ said.restored.windows, window.tabs ≠ [] ∧ window.Whole :=
    fun window hwindow => Workspace.whole_restored hwindow
  obtain ⟨saved, hsaved, hagain⟩ := opens_saved hlawful hfits.restored hwhole
  constructor
  · rintro ⟨workspace, warnings, hworkspace, hopens⟩
    rw [hopened] at hworkspace
    obtain rfl : said.restored = workspace :=
      (restore_eq hfits).symm.trans (congrArg Prod.fst (Except.ok.inj hworkspace))
    refine ⟨?_, fun window hwindow => (window.showsNamed_iff).mp (hopens.shown window hwindow)⟩
    obtain ⟨saved', hsaved', hagain'⟩ := hopens.again
    obtain rfl := Except.ok.inj (hsaved.symm.trans hsaved')
    exact (newerWarning_eq_nil_iff said.restored.schemaVersion).mp
      (congrArg Prod.snd (Except.ok.inj (hagain.symm.trans hagain')))
  · rintro ⟨hversion, haligned⟩
    refine ⟨said.restored, said.restore.2, ?_, rfl, rfl, rfl, fun _ _ => rfl,
      fun window hwindow => (window.showsNamed_iff).mpr (haligned window hwindow),
      fun window hwindow => ?_, saved, hsaved, ?_⟩
    · rw [hopened, ← restore_eq hfits]
    · obtain ⟨hne, htabs, hcurrent⟩ := hwhole window hwindow
      exact ⟨hne, hcurrent, fun tab htab => ⟨(htabs tab htab).restorable,
        (htabs tab htab).ratios, (htabs tab htab).focused, (htabs tab htab).zoomed⟩⟩
    · rw [hagain, (newerWarning_eq_nil_iff said.restored.schemaVersion).mpr hversion]

end

namespace RestoreWitness

/-- Files that are their tables. -/
def toml : TomlText Table := ⟨.ok, .ok, fun _ => "not a workspace"⟩

theorem lawful : toml.Lawful := fun table _ _ => ⟨table, rfl, rfl⟩

def tab (title : String) (pane : PaneId) : TabState :=
  ⟨title, "", false, 0, none, .pane pane, [⟨"local", "", "", "", ""⟩]⟩

/-- The first of three tabs is broken, and the second is the one shown. -/
def broken : Workspace := ⟨1, "work", [⟨1, [tab "a" 3, tab "b" 0, tab "c" 0]⟩]⟩

/-- The tabs behind the ones shown are broken, and in one window all of them. -/
def aligned : Workspace :=
  ⟨1, "work", [⟨1, [tab "a" 0, tab "b" 0, tab "c" 3]⟩, ⟨0, [tab "d" (-1)]⟩]⟩

theorem tab_fits (title : String) {pane : Int} (h : -2 ^ 31 ≤ pane ∧ pane < 2 ^ 31) :
    (tab title pane).Fits :=
  ⟨fun _ hid => mem_singleton.mp hid ▸ h, by norm_num [tab], fun _ hzoomed => by cases hzoomed⟩

theorem broken_fits : broken.Fits := by
  refine ⟨⟨by decide, by decide⟩, forall_mem_singleton.mpr ⟨by decide, ?_⟩⟩
  simp only [forall_mem_cons]
  exact ⟨tab_fits "a" (by decide), tab_fits "b" (by decide), tab_fits "c" (by decide),
    fun _ hmem => absurd hmem not_mem_nil⟩

theorem aligned_fits : aligned.Fits := by
  refine ⟨⟨by decide, by decide⟩, forall_mem_cons.mpr ⟨⟨by decide, ?_⟩,
    forall_mem_singleton.mpr ⟨by decide, forall_mem_singleton.mpr (tab_fits "d" (by decide))⟩⟩⟩
  simp only [forall_mem_cons]
  exact ⟨tab_fits "a" (by decide), tab_fits "b" (by decide), tab_fits "c" (by decide),
    fun _ hmem => absurd hmem not_mem_nil⟩

/-- The file names the tab `b`, which is kept, and the third tab is shown. -/
theorem other_tab_shown :
    (∃ workspace warnings, fromTomlStr toml broken.toTable = .ok (workspace, warnings) ∧
      workspace.windows = [⟨1, [tab "b" 0, tab "c" 0]⟩]) ∧
    ¬ ∃ workspace warnings, fromTomlStr toml broken.toTable = .ok (workspace, warnings) ∧
      OpensAsSaid toml broken workspace := by
  have hopened : fromTomlStr toml broken.toTable = .ok broken.restore := by
    have hparse : toml.parse broken.toTable = .ok broken.toTable := rfl
    rw [fromTomlStr, hparse]
    dsimp only
    rw [Workspace.read_toTable broken_fits]
  refine ⟨⟨_, _, hopened, by decide⟩, ?_⟩
  rintro ⟨workspace, warnings, -, hopens⟩
  have hshown := hopens.shown _ (mem_singleton_self _) (tab "b" 0) rfl (by decide)
  exact absurd hshown.1 (by decide)

/-- The broken tabs and the window of one are dropped, and the second tab stays the one shown. -/
theorem aligned_opens :
    ∃ workspace warnings, fromTomlStr toml aligned.toTable = .ok (workspace, warnings) ∧
      OpensAsSaid toml aligned workspace := by
  refine (opens_as_said_iff lawful rfl (Workspace.read_toTable aligned_fits)).mpr
    ⟨by decide, forall_mem_cons.mpr ⟨?_, forall_mem_singleton.mpr ?_⟩⟩
  · intro shown hshown _
    exact .inl (by decide)
  · intro shown hshown hkept
    obtain rfl := Option.some.inj hshown
    exact absurd hkept (by decide)

end RestoreWitness

end Opensesh.Workspaces
