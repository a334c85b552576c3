/-
A workspace restored is the one that was shown: what is accepted has each pane once, and the
windows that come back from a file show the same under other ids.
-/
import Opensesh.WorkspaceQml
import Opensesh.HostsTidy

namespace Opensesh.Workspaces

open List

section

variable {ids : List Int} {id : Int} {index : Nat}

theorem getElem?_of_indexOf (h : indexOf ids id = some index) : ids[index]? = some id := by
  induction ids generalizing index with
  | nil => cases h
  | cons other ids ih =>
    rw [indexOf] at h
    split at h
    · rename_i found hfound
      obtain rfl := Option.some.inj h
      exact ih hfound
    · rw [Option.ite_none_right_eq_some] at h
      obtain ⟨rfl, h⟩ := h
      obtain rfl := Option.some.inj h
      rfl

theorem indexOf_isSome : (indexOf ids id).isSome = true ↔ id ∈ ids := by
  induction ids with
  | nil => exact ⟨fun h => absurd h Bool.false_ne_true, fun h => absurd h not_mem_nil⟩
  | cons other ids ih =>
    rw [indexOf]
    split
    · rename_i found hfound
      rw [hfound] at ih
      exact ⟨fun _ => mem_cons_of_mem _ (ih.mp rfl), fun _ => rfl⟩
    · rename_i hnone
      rw [hnone] at ih
      have hnot : id ∉ ids := fun h => by cases ih.mpr h
      by_cases heq : other = id
      · rw [if_pos heq]
        exact ⟨fun _ => heq ▸ mem_cons_self, fun _ => rfl⟩
      · rw [if_neg heq]
        refine ⟨fun h => absurd h Bool.false_ne_true, fun h => ?_⟩
        exact absurd ((mem_cons.mp h).resolve_left fun hid => heq hid.symm) hnot

theorem exists_indexOf (h : id ∈ ids) : ∃ index, indexOf ids id = some index :=
  Option.isSome_iff_exists.mp (indexOf_isSome.mpr h)

theorem indexOf_of_nodup (hnodup : ids.Nodup) (h : ids[index]? = some id) :
    indexOf ids id = some index := by
  obtain ⟨found, hfound⟩ := exists_indexOf (mem_of_getElem? h)
  have hplace := getElem?_of_indexOf hfound
  have hlt := (List.getElem?_eq_some_iff.mp hplace).1
  rw [hfound, (List.getElem?_inj hlt hnodup).mp (hplace.trans h.symm)]

theorem indexOf_lt (h : indexOf ids id = some index) : index < ids.length :=
  (List.getElem?_eq_some_iff.mp (getElem?_of_indexOf h)).1

/-- The places of all ids are all places. -/
theorem map_indexOf (hnodup : ids.Nodup) :
    (ids.map fun id => ((indexOf ids id).map Int.ofNat).getD id) = indexes ids.length := by
  refine ext_getElem? fun index => ?_
  rw [List.getElem?_map, indexes, List.getElem?_map]
  by_cases hlt : index < ids.length
  · have hid : ids[index]? = some ids[index] := List.getElem?_eq_getElem hlt
    rw [hid, List.getElem?_range hlt, Option.map_some, indexOf_of_nodup hnodup hid]
    rfl
  · rw [List.getElem?_eq_none (by omega), List.getElem?_eq_none (by rw [length_range]; omega)]
    rfl

theorem indexOf_map {map : Int → Int} (hid : id ∈ ids) (hnodup : ids.Nodup)
    (hinj : ∀ id ∈ ids, ∀ id' ∈ ids, map id = map id' → id = id') :
    indexOf (ids.map map) (map id) = indexOf ids id := by
  obtain ⟨index, hindex⟩ := exists_indexOf hid
  have hplace := getElem?_of_indexOf hindex
  have hnodup' : (ids.map map).Nodup :=
    hnodup.map_on fun id hid id' hid' heq => hinj id hid id' hid' heq
  rw [hindex]
  refine indexOf_of_nodup hnodup' ?_
  rw [List.getElem?_map, hplace]
  rfl

end

section

variable {map : Int → Int} {node : Layout.Node F64}

theorem panes_mapPanes : (mapPanes map node).panes = node.panes.map map := by
  induction node with
  | pane id => rfl
  | split axis ratio first second ihf ihs =>
    rw [mapPanes, Layout.Node.panes, ihf, ihs, Layout.Node.panes, map_append]

theorem ratiosWithin_mapPanes : RatiosWithin (mapPanes map node) ↔ RatiosWithin node := by
  induction node with
  | pane id => exact Iff.rfl
  | split axis ratio first second ihf ihs =>
    rw [mapPanes, RatiosWithin, RatiosWithin, ihf, ihs]

theorem mapPanes_mapPanes (map' : Int → Int) :
    mapPanes map' (mapPanes map node) = mapPanes (fun id => map' (map id)) node := by
  induction node with
  | pane id => rfl
  | split axis ratio first second ihf ihs => rw [mapPanes, mapPanes, ihf, ihs, mapPanes]

theorem mapPanes_congr {map' : Int → Int} (h : ∀ id ∈ node.panes, map id = map' id) :
    mapPanes map node = mapPanes map' node := by
  induction node with
  | pane id => rw [mapPanes, mapPanes, h id (mem_singleton_self id)]
  | split axis ratio first second ihf ihs =>
    rw [mapPanes, mapPanes, ihf fun id hid => h id (mem_append_left _ hid),
      ihs fun id hid => h id (mem_append_right _ hid)]

theorem exists_mem_panes (node : Layout.Node F64) : ∃ id : Int, id ∈ node.panes := by
  induction node with
  | pane id => exact ⟨id, mem_singleton_self id⟩
  | split axis ratio first second ihf ihs =>
    obtain ⟨id, hid⟩ := ihf
    exact ⟨id, mem_append_left _ hid⟩

theorem readNode_nodeJson (hratios : RatiosWithin node)
    (hpanes : ∀ id : Int, id ∈ node.panes → -2 ^ 31 ≤ id ∧ id < 2 ^ 31) :
    readNode (nodeJson node).content = some node := by
  induction node with
  | pane id =>
    have hcontent : (nodeJson (.pane id)).content = .map [("pane", .integer id)] := rfl
    rw [hcontent, readNode_pane (hpanes id (mem_singleton_self id))]
  | split axis ratio first second ihf ihs =>
    obtain ⟨hratio, hfirst, hsecond⟩ := hratios
    have hfinite : ratio.isFinite = true := by
      obtain ⟨hmin, hmax⟩ := bounds_toNat
      obtain ⟨hlow, hhigh⟩ := hratio
      rw [F64.isFinite, decide_eq_true_eq]
      omega
    have hcontent : (nodeJson (.split axis ratio first second)).content =
        .map [("first", (nodeJson first).content), ("ratio", .float ratio),
          ("second", (nodeJson second).content), ("split", .text (axisName axis))] := by
      rw [nodeJson, ratioJson, if_pos hfinite]
      rfl
    rw [hcontent, readNode_split, ihf hfirst fun id hid => hpanes id (mem_append_left _ hid),
      ihs hsecond fun id hid => hpanes id (mem_append_right _ hid)]
    rfl

end

namespace ShownTab

/-- A tab each of whose panes is in its layout once, and nothing else. -/
structure Consistent (tab : ShownTab) : Prop where
  nodup : tab.ids.Nodup
  layout : tab.layout.panes.Perm tab.ids
  ratios : RatiosWithin tab.layout
  focused : tab.focused ∈ tab.ids
  zoomed : ∀ id ∈ tab.zoomed, id ∈ tab.ids
  count : tab.ids.length ≤ 2 ^ 31
  range : ∀ id ∈ tab.ids, -2 ^ 31 ≤ id ∧ id < 2 ^ 31
  kinds : ∀ pane ∈ tab.panes, pane.state.kind ≠ ""

/-- The tab as a file has it. -/
def toState (tab : ShownTab) : TabState where
  title := tab.title
  color := tab.color
  pinned := tab.pinned
  focused := (indexOf tab.ids tab.focused).getD 0
  zoomed := tab.zoomed.bind (indexOf tab.ids)
  layout := mapPanes (fun id => ((indexOf tab.ids id).map Int.ofNat).getD id) tab.layout
  panes := tab.panes.map ShownPane.state

variable {tab : ShownTab}

theorem Consistent.whole (h : tab.Consistent) : tab.toState.Whole := by
  have hlength : tab.toState.panes.length = tab.ids.length := by
    rw [toState, ids, length_map, length_map]
  refine ⟨?_, ratiosWithin_mapPanes.mpr h.ratios, ?_, ?_⟩
  · change (mapPanes _ tab.layout).panes.Perm (indexes tab.toState.panes.length)
    rw [panes_mapPanes, hlength, ← map_indexOf h.nodup]
    exact h.layout.map _
  · obtain ⟨index, hindex⟩ := exists_indexOf h.focused
    change (indexOf tab.ids tab.focused).getD 0 < tab.toState.panes.length
    rw [hindex, hlength]
    exact indexOf_lt hindex
  · intro index hindex
    obtain ⟨id, -, hid⟩ := Option.bind_eq_some_iff.mp hindex
    rw [hlength]
    exact indexOf_lt hid

theorem Consistent.fits (h : tab.Consistent) : tab.toState.Fits := by
  have hwhole := h.whole
  have hcount := h.count
  have hlength : tab.toState.panes.length = tab.ids.length := by
    rw [toState, ids, length_map, length_map]
  refine ⟨fun id hid => ?_, ?_, fun index hindex => ?_⟩
  · obtain ⟨hzero, hlt⟩ := mem_indexes.mp (hwhole.restorable.mem_iff.mp hid)
    omega
  · have hlt := hwhole.focused
    omega
  · have hlt := hwhole.zoomed index hindex
    omega

/-- Other ids, all different, change nothing in the file. -/
theorem Consistent.toState_rename {map : Int → Int} (h : tab.Consistent)
    (hinj : ∀ id ∈ tab.ids, ∀ id' ∈ tab.ids, map id = map id' → id = id') :
    (tab.rename map).toState = tab.toState := by
  have hids : (tab.rename map).ids = tab.ids.map map := by
    rw [ids, rename, ids, map_map, map_map]
    rfl
  have hfocused : indexOf (tab.ids.map map) (map tab.focused) = indexOf tab.ids tab.focused :=
    indexOf_map h.focused h.nodup hinj
  have hzoomed : (tab.zoomed.map map).bind (indexOf (tab.ids.map map)) =
      tab.zoomed.bind (indexOf tab.ids) := by
    cases hsome : tab.zoomed with
    | none => rfl
    | some id => exact indexOf_map (h.zoomed id hsome) h.nodup hinj
  have hlayout : mapPanes (fun id => ((indexOf (tab.ids.map map) id).map Int.ofNat).getD id)
      (mapPanes map tab.layout) =
        mapPanes (fun id => ((indexOf tab.ids id).map Int.ofNat).getD id) tab.layout := by
    rw [mapPanes_mapPanes]
    refine mapPanes_congr fun id hid => ?_
    have hmem := h.layout.mem_iff.mp hid
    obtain ⟨index, hindex⟩ := exists_indexOf hmem
    rw [indexOf_map hmem h.nodup hinj, hindex]
    rfl
  have hpanes : (tab.rename map).panes.map ShownPane.state = tab.panes.map ShownPane.state := by
    rw [rename, map_map]
    rfl
  have hstate : (tab.rename map).toState = ⟨tab.title, tab.color, tab.pinned,
      (indexOf (tab.rename map).ids (map tab.focused)).getD 0,
      (tab.zoomed.map map).bind (indexOf (tab.rename map).ids),
      mapPanes (fun id => ((indexOf (tab.rename map).ids id).map Int.ofNat).getD id)
        (mapPanes map tab.layout), (tab.rename map).panes.map ShownPane.state⟩ := rfl
  rw [hstate, hids, hfocused, hzoomed, hlayout, hpanes]
  rfl

theorem Consistent.rename {map : Int → Int} (h : tab.Consistent)
    (hinj : ∀ id ∈ tab.ids, ∀ id' ∈ tab.ids, map id = map id' → id = id')
    (hrange : ∀ id ∈ tab.ids, -2 ^ 31 ≤ map id ∧ map id < 2 ^ 31) :
    (tab.rename map).Consistent := by
  have hids : (tab.rename map).ids = tab.ids.map map := by
    rw [ids, ShownTab.rename, ids, map_map, map_map]
    rfl
  refine ⟨?_, ?_, ratiosWithin_mapPanes.mpr h.ratios, ?_, ?_, ?_, ?_, ?_⟩
  · rw [hids]
    exact h.nodup.map_on fun id hid id' hid' heq => hinj id hid id' hid' heq
  · rw [hids]
    change (mapPanes map tab.layout).panes.Perm _
    rw [panes_mapPanes]
    exact h.layout.map map
  · rw [hids]
    exact mem_map_of_mem h.focused
  · rw [hids]
    intro id hid
    obtain ⟨old, hold, rfl⟩ := Option.map_eq_some_iff.mp hid
    exact mem_map_of_mem (h.zoomed old hold)
  · rw [hids, length_map]
    exact h.count
  · rw [hids, forall_mem_map]
    exact hrange
  · intro pane hpane
    obtain ⟨old, hold, rfl⟩ := mem_map.mp hpane
    exact h.kinds old hold

end ShownTab

theorem paneId_range {json : Json} {key : String} {id : Int} (h : json.paneId key = some id) :
    -2 ^ 31 ≤ id ∧ id < 2 ^ 31 :=
  of_decide_eq_true (Option.filter_eq_some_iff.mp h).2

theorem kind_paneState (pane : Json) : (paneState pane).kind ≠ "" := by
  change (if pane.text "kind" = "" then "local" else pane.text "kind") ≠ ""
  split_ifs with hempty
  · decide
  · exact hempty

theorem shownPanes_of_fromQml {index : Nat} {panes : List Json} {ids : List Int}
    {states : List PaneState} (h : panesFromQml index panes = .ok (ids, states)) :
    ∃ found, shownPanes panes = some found ∧ ids = found.map ShownPane.id ∧
      states = found.map ShownPane.state := by
  induction panes generalizing index ids states with
  | nil =>
    obtain ⟨rfl, rfl⟩ := Prod.mk.inj (Except.ok.inj h)
    exact ⟨[], rfl, rfl, rfl⟩
  | cons pane panes ih =>
    rw [panesFromQml] at h
    split at h
    · cases h
    · rename_i id hid
      split at h
      · cases h
      · cases hrest : panesFromQml (index + 1) panes with
        | error error =>
          rw [hrest] at h
          cases h
        | ok rest =>
          obtain ⟨found, hfound, hids, hstates⟩ := ih hrest
          rw [hrest] at h
          obtain ⟨rfl, rfl⟩ := Prod.mk.inj (Except.ok.inj h)
          refine ⟨⟨id, paneState pane⟩ :: found, ?_, ?_, ?_⟩
          · rw [shownPanes, hid, hfound]
            rfl
          · rw [map_cons, ← hids]
          · rw [map_cons, ← hstates]

theorem fromQml_of_shownPanes {index : Nat} {panes : List Json} {found : List ShownPane}
    (h : shownPanes panes = some found) (hcount : index + found.length ≤ 2 ^ 31) :
    panesFromQml index panes = .ok (found.map ShownPane.id, found.map ShownPane.state) := by
  induction panes generalizing index found with
  | nil =>
    obtain rfl := Option.some.inj h
    rfl
  | cons pane panes ih =>
    simp only [shownPanes, Option.bind_eq_bind, Option.bind_eq_some_iff] at h
    obtain ⟨id, hid, others, hothers, heq⟩ := h
    obtain rfl := Option.some.inj heq
    rw [length_cons] at hcount
    have hrest := @ih (index + 1) others hothers (by omega)
    rw [panesFromQml, hid]
    dsimp only
    rw [if_neg (by omega), hrest]
    rfl

theorem mem_shownPanes {panes : List Json} {found : List ShownPane}
    (h : shownPanes panes = some found) {pane : ShownPane} (hpane : pane ∈ found) :
    (-2 ^ 31 ≤ pane.id ∧ pane.id < 2 ^ 31) ∧ pane.state.kind ≠ "" := by
  induction panes generalizing found with
  | nil =>
    obtain rfl := Option.some.inj h
    exact absurd hpane not_mem_nil
  | cons json panes ih =>
    simp only [shownPanes, Option.bind_eq_bind, Option.bind_eq_some_iff] at h
    obtain ⟨id, hid, others, hothers, heq⟩ := h
    obtain rfl := Option.some.inj heq
    rcases mem_cons.mp hpane with rfl | hpane
    · exact ⟨paneId_range hid, kind_paneState json⟩
    · exact ih hothers hpane

/-- The place of a pane that is named, or of the first one. -/
theorem indexOf_focused {ids : List Int} (hnodup : ids.Nodup) (hsome : ids ≠ [])
    (named : Option Int) :
    indexOf ids ((named.filter fun id => ids.contains id).getD (ids.headD 0)) =
      some ((named.bind (indexOf ids)).getD 0) := by
  have hfirst : indexOf ids (ids.headD 0) = some 0 := by
    cases ids with
    | nil => exact absurd rfl hsome
    | cons id ids => exact indexOf_of_nodup hnodup rfl
  cases named with
  | none => exact hfirst
  | some id =>
    by_cases hid : id ∈ ids
    · obtain ⟨index, hindex⟩ := exists_indexOf hid
      rw [Option.filter_some, if_pos (contains_iff_mem.mpr hid), Option.getD_some,
        Option.bind_some, hindex]
      rfl
    · have hnone : indexOf ids id = none :=
        Option.not_isSome_iff_eq_none.mp fun h => hid (indexOf_isSome.mp h)
      rw [Option.filter_some, if_neg fun h => hid (contains_iff_mem.mp h),
        Option.getD_none, Option.bind_some, hnone]
      exact hfirst

theorem indexOf_zoomed {ids : List Int} (named : Option Int) :
    (named.filter fun id => ids.contains id).bind (indexOf ids) = named.bind (indexOf ids) := by
  cases named with
  | none => rfl
  | some id =>
    by_cases hid : id ∈ ids
    · rw [Option.filter_some, if_pos (contains_iff_mem.mpr hid)]
    · have hnone : indexOf ids id = none :=
        Option.not_isSome_iff_eq_none.mp fun h => hid (indexOf_isSome.mp h)
      rw [Option.filter_some, if_neg fun h => hid (contains_iff_mem.mp h), Option.bind_some, hnone]
      rfl

theorem any_isNone_indexOf {panes ids : List Int} :
    (panes.any fun id => (indexOf ids id).isNone) = true ↔ ∃ id ∈ panes, id ∉ ids := by
  rw [any_eq_true]
  refine exists_congr fun id => and_congr_right fun _ => ?_
  rw [Option.isNone_iff_eq_none, ← Option.not_isSome_iff_eq_none, indexOf_isSome]

/-- What a tab is checked as, when its panes are told apart. -/
theorem ShownTab.toState_of {json : Json} {found : List ShownPane} {node : Layout.Node F64}
    (hnodup : (found.map ShownPane.id).Nodup) (hsome : found.map ShownPane.id ≠ []) :
    (ShownTab.of json found node).toState = {
      title := json.text "title"
      color := json.text "color"
      pinned := ((json.get "pinned").bind Json.asBool).getD false
      focused := ((json.paneId "focused").bind (indexOf (found.map ShownPane.id))).getD 0
      zoomed := (json.paneId "zoomed").bind (indexOf (found.map ShownPane.id))
      layout := mapPanes
        (fun id => ((indexOf (found.map ShownPane.id) id).map Int.ofNat).getD id) (fix node)
      panes := found.map ShownPane.state } := by
  have hfocused := indexOf_focused hnodup hsome (json.paneId "focused")
  have hzoomed := @indexOf_zoomed (found.map ShownPane.id) (json.paneId "zoomed")
  have hstate : (ShownTab.of json found node).toState = ⟨json.text "title", json.text "color",
      ((json.get "pinned").bind Json.asBool).getD false,
      (indexOf (found.map ShownPane.id) (((json.paneId "focused").filter fun id =>
        (found.map ShownPane.id).contains id).getD ((found.map ShownPane.id).headD 0))).getD 0,
      ((json.paneId "zoomed").filter fun id => (found.map ShownPane.id).contains id).bind
        (indexOf (found.map ShownPane.id)),
      mapPanes (fun id => ((indexOf (found.map ShownPane.id) id).map Int.ofNat).getD id) (fix node),
      found.map ShownPane.state⟩ := rfl
  rw [hstate, hfocused, hzoomed, Option.getD_some]

theorem ShownTab.of_named {json : Json} {found : List ShownPane} {node : Layout.Node F64}
    (hsome : found.map ShownPane.id ≠ []) :
    (ShownTab.of json found node).focused ∈ (ShownTab.of json found node).ids ∧
      ∀ id ∈ (ShownTab.of json found node).zoomed, id ∈ (ShownTab.of json found node).ids := by
  constructor
  · change ((json.paneId "focused").filter fun id => (found.map ShownPane.id).contains id).getD
      ((found.map ShownPane.id).headD 0) ∈ found.map ShownPane.id
    cases hfilter : (json.paneId "focused").filter fun id =>
        (found.map ShownPane.id).contains id with
    | none =>
      cases hids : found.map ShownPane.id with
      | nil => exact absurd hids hsome
      | cons id ids => exact mem_cons_self
    | some id => exact contains_iff_mem.mp (Option.filter_eq_some_iff.mp hfilter).2
  · intro id hid
    exact contains_iff_mem.mp (Option.filter_eq_some_iff.mp hid).2

/-- A tab's JSON shows a tab that can be kept. -/
structure ShownTab.Reads (json : Json) (tab : ShownTab) : Prop where
  shown : shownTab json = some tab
  consistent : tab.Consistent

theorem reads_of_tabFromQml {json : Json} {state : TabState} (h : tabFromQml json = .ok state) :
    ∃ tab, ShownTab.Reads json tab ∧ state = tab.toState := by
  rw [tabFromQml] at h
  split at h
  · cases h
  rename_i panes hpanes
  split at h
  · cases h
  rename_i ids states hread
  split at h
  · cases h
  rename_i node hnode
  rw [fromNode_eq] at h
  by_cases hnodup : node.panes.Nodup
  swap
  · rw [if_neg hnodup] at h
    cases h
  rw [if_pos hnodup] at h
  dsimp only at h
  split at h
  · cases h
  rename_i hlisted
  obtain ⟨found, hfound, rfl, rfl⟩ := shownPanes_of_fromQml hread
  rw [any_isNone_indexOf, panes_fix] at hlisted
  have hsubset : ∀ id ∈ node.panes, id ∈ found.map ShownPane.id := fun id hid => by
    by_contra hnot
    exact hlisted ⟨id, hid, hnot⟩
  obtain ⟨hrestorable, hcount, hrepaired⟩ := TabState.restorable_of_validate h
  have hlength := hrestorable.length_eq
  rw [panes_mapPanes, panes_fix, length_map, indexes, length_map, length_range,
    length_map] at hlength
  rw [length_map] at hcount
  have hperm : node.panes.Perm (found.map ShownPane.id) :=
    (List.Nodup.subperm hnodup hsubset).perm_of_length_le (by rw [length_map]; omega)
  have hids : (found.map ShownPane.id).Nodup := hperm.nodup_iff.mp hnodup
  have hsome : found.map ShownPane.id ≠ [] := by
    obtain ⟨id, hid⟩ := exists_mem_panes node
    exact ne_nil_of_mem (hsubset id hid)
  obtain ⟨hfocused, hzoomed⟩ := @ShownTab.of_named json found node hsome
  have hconsistent : (ShownTab.of json found node).Consistent := by
    refine ⟨hids, ?_, ratiosWithin_fix node, hfocused, hzoomed, ?_, ?_, fun pane hpane =>
      (mem_shownPanes hfound hpane).2⟩
    · change (fix node).panes.Perm _
      rw [panes_fix]
      exact hperm
    · change (found.map ShownPane.id).length ≤ 2 ^ 31
      rw [length_map]
      exact hcount
    · change ∀ id ∈ found.map ShownPane.id, _
      rw [forall_mem_map]
      exact fun pane hpane => (mem_shownPanes hfound hpane).1
  refine ⟨.of json found node, ⟨?_, hconsistent⟩, ?_⟩
  · rw [shownTab, hpanes, Option.bind_eq_bind, Option.bind_some, hfound, Option.bind_eq_bind,
      Option.bind_some, hnode]
    rfl
  · rw [hrepaired, ← ShownTab.toState_of hids hsome]
    exact hconsistent.whole.repaired_eq

theorem ShownTab.Reads.tabFromQml_eq {json : Json} {tab : ShownTab} (h : ShownTab.Reads json tab) :
    tabFromQml json = .ok tab.toState := by
  obtain ⟨hshown, hconsistent⟩ := h
  simp only [shownTab, Option.bind_eq_bind, Option.bind_eq_some_iff] at hshown
  obtain ⟨panes, hpanes, found, hfound, node, hnode, heq⟩ := hshown
  obtain rfl := Option.some.inj heq
  have hids : (found.map ShownPane.id).Nodup := hconsistent.nodup
  have hcount : found.length ≤ 2 ^ 31 := by
    have h := hconsistent.count
    rwa [ids, length_map] at h
  have hperm : node.panes.Perm (found.map ShownPane.id) := by
    have h := hconsistent.layout
    rwa [show (ShownTab.of json found node).layout = fix node from rfl, panes_fix] at h
  have hsome : found.map ShownPane.id ≠ [] := by
    obtain ⟨id, hid⟩ := exists_mem_panes node
    exact ne_nil_of_mem (hperm.mem_iff.mp hid)
  have hlisted : ¬ ((fix node).panes.any fun id =>
      (indexOf (found.map ShownPane.id) id).isNone) = true := by
    rw [any_isNone_indexOf, panes_fix]
    rintro ⟨id, hid, hnot⟩
    exact hnot (hperm.mem_iff.mp hid)
  have hbind : (json.get "panes").bind Json.asArray = some panes :=
    Option.bind_eq_some_iff.mpr hpanes
  rw [tabFromQml, hbind]
  dsimp only
  rw [fromQml_of_shownPanes hfound (by omega)]
  dsimp only
  rw [hnode]
  dsimp only
  rw [fromNode_eq, if_pos (hperm.nodup_iff.mpr hids)]
  dsimp only
  rw [if_neg hlisted, ← ShownTab.toState_of hids hsome,
    TabState.validate_of_restorable hconsistent.whole.restorable hconsistent.fits,
    hconsistent.whole.repaired_eq]

def ShownWindow.toState (window : ShownWindow) : WindowState :=
  ⟨window.currentTab, window.tabs.map ShownTab.toState⟩

theorem reads_of_tabsFromQml {tabs : List Json} {states : List TabState}
    (h : tabsFromQml tabs = .ok states) :
    ∃ found, shownTabs tabs = some found ∧ (∀ tab ∈ found, tab.Consistent) ∧
      states = found.map ShownTab.toState := by
  induction tabs generalizing states with
  | nil =>
    obtain rfl := Except.ok.inj h
    exact ⟨[], rfl, fun _ hmem => absurd hmem not_mem_nil, rfl⟩
  | cons json tabs ih =>
    rw [tabsFromQml] at h
    split at h
    · cases h
    · rename_i state hstate
      cases hrest : tabsFromQml tabs with
      | error error =>
        rw [hrest] at h
        cases h
      | ok rest =>
        rw [hrest] at h
        obtain rfl := Except.ok.inj h
        obtain ⟨found, hfound, hall, rfl⟩ := ih hrest
        obtain ⟨tab, ⟨hshown, hconsistent⟩, rfl⟩ := reads_of_tabFromQml hstate
        refine ⟨tab :: found, ?_, forall_mem_cons.mpr ⟨hconsistent, hall⟩, rfl⟩
        rw [shownTabs, hshown, hfound]
        rfl

theorem tabsFromQml_of_shown {tabs : List Json} {found : List ShownTab}
    (h : shownTabs tabs = some found) (hall : ∀ tab ∈ found, tab.Consistent) :
    tabsFromQml tabs = .ok (found.map ShownTab.toState) := by
  induction tabs generalizing found with
  | nil =>
    obtain rfl := Option.some.inj h
    rfl
  | cons json tabs ih =>
    simp only [shownTabs, Option.bind_eq_bind, Option.bind_eq_some_iff] at h
    obtain ⟨tab, htab, others, hothers, heq⟩ := h
    obtain rfl := Option.some.inj heq
    rw [forall_mem_cons] at hall
    have hfirst := ShownTab.Reads.tabFromQml_eq ⟨htab, hall.1⟩
    rw [tabsFromQml, hfirst]
    dsimp only
    rw [ih hothers hall.2]
    rfl

theorem reads_of_windowFromQml {window : Json} {state : WindowState}
    (h : windowFromQml window = .ok state) :
    ∃ found, shownWindow window = some found ∧ (∀ tab ∈ found.tabs, tab.Consistent) ∧
      state = found.toState := by
  rw [windowFromQml] at h
  split at h
  · cases h
  · rename_i tabs htabs
    cases hstates : tabsFromQml tabs with
    | error error =>
      rw [hstates] at h
      cases h
    | ok states =>
      rw [hstates] at h
      obtain rfl := Except.ok.inj h
      obtain ⟨found, hfound, hall, rfl⟩ := reads_of_tabsFromQml hstates
      refine ⟨⟨if ((window.get "currentTab").bind Json.asU64).getD 0 < found.length then
        ((window.get "currentTab").bind Json.asU64).getD 0 else 0, found⟩, ?_, hall, ?_⟩
      · rw [shownWindow, htabs, Option.bind_eq_bind, Option.bind_some, hfound]
        rfl
      · rw [ShownWindow.toState]
        dsimp only
        rw [length_map]
        by_cases hlt : ((window.get "currentTab").bind Json.asU64).getD 0 < found.length
        · rw [if_neg (Nat.not_le.mpr hlt), if_pos hlt]
        · rw [if_pos (Nat.not_lt.mp hlt), if_neg hlt]

theorem windowFromQml_of_shown {window : Json} {found : ShownWindow}
    (h : shownWindow window = some found) (hall : ∀ tab ∈ found.tabs, tab.Consistent) :
    windowFromQml window = .ok found.toState := by
  simp only [shownWindow, Option.bind_eq_bind, Option.bind_eq_some_iff] at h
  obtain ⟨tabs, htabs, shownTabs, hshown, heq⟩ := h
  obtain rfl := Option.some.inj heq
  have hbind : (window.get "tabs").bind Json.asArray = some tabs :=
    Option.bind_eq_some_iff.mpr htabs
  rw [windowFromQml, hbind]
  dsimp only
  rw [tabsFromQml_of_shown hshown hall, ShownWindow.toState]
  by_cases hlt : ((window.get "currentTab").bind Json.asU64).getD 0 < shownTabs.length
  · rw [if_pos hlt]
    exact congrArg Except.ok (congrArg (WindowState.mk · _)
      (if_neg (Nat.not_le.mpr (by rwa [length_map]))))
  · rw [if_neg hlt]
    exact congrArg Except.ok (congrArg (WindowState.mk · _)
      (if_pos (by rw [length_map]; exact Nat.not_lt.mp hlt)))

/-- Whether a window is kept. -/
def ShownWindow.hasTabs (window : ShownWindow) : Bool := !window.tabs.isEmpty

theorem reads_of_windowsFromQml {windows : List Json} {states : List WindowState}
    (h : windowsFromQml windows = .ok states) :
    ∃ found, shownWindows windows = some found ∧
      (∀ window ∈ found, ∀ tab ∈ window.tabs, tab.Consistent) ∧
      states = (found.filter ShownWindow.hasTabs).map ShownWindow.toState := by
  induction windows generalizing states with
  | nil =>
    obtain rfl := Except.ok.inj h
    exact ⟨[], rfl, fun _ hmem => absurd hmem not_mem_nil, rfl⟩
  | cons json windows ih =>
    rw [windowsFromQml] at h
    split at h
    · cases h
    · rename_i state hstate
      cases hrest : windowsFromQml windows with
      | error error =>
        rw [hrest] at h
        cases h
      | ok rest =>
        rw [hrest] at h
        obtain rfl := Except.ok.inj h
        obtain ⟨found, hfound, hall, rfl⟩ := ih hrest
        obtain ⟨window, hwindow, hconsistent, rfl⟩ := reads_of_windowFromQml hstate
        refine ⟨window :: found, ?_, forall_mem_cons.mpr ⟨hconsistent, hall⟩, ?_⟩
        · rw [shownWindows, hwindow, hfound]
          rfl
        · rw [filter_cons, ShownWindow.hasTabs, ShownWindow.toState]
          cases htabs : window.tabs with
          | nil => rfl
          | cons tab tabs =>
            simp only [isEmpty_cons, Bool.not_false, if_true, map_cons,
              Bool.false_eq_true, if_false, ShownWindow.toState, htabs]

theorem windowsFromQml_of_shown {windows : List Json} {found : List ShownWindow}
    (h : shownWindows windows = some found)
    (hall : ∀ window ∈ found, window.tabs ≠ [] ∧ ∀ tab ∈ window.tabs, tab.Consistent) :
    windowsFromQml windows = .ok (found.map ShownWindow.toState) := by
  induction windows generalizing found with
  | nil =>
    obtain rfl := Option.some.inj h
    rfl
  | cons json windows ih =>
    simp only [shownWindows, Option.bind_eq_bind, Option.bind_eq_some_iff] at h
    obtain ⟨window, hwindow, others, hothers, heq⟩ := h
    obtain rfl := Option.some.inj heq
    rw [forall_mem_cons] at hall
    rw [windowsFromQml, windowFromQml_of_shown hwindow hall.1.2]
    dsimp only
    rw [ih hothers hall.2]
    have hsome : window.toState.tabs.isEmpty = false := by
      rw [ShownWindow.toState]
      cases htabs : window.tabs with
      | nil => exact absurd htabs hall.1.1
      | cons tab tabs => rfl
    change Except.ok (if window.toState.tabs.isEmpty = true then _ else _) = _
    rw [hsome]
    rfl

section

variable {ids : Nat → Int} {total next : Nat}

/-- The first `total` new ids are positive, all different, and of 32 bits. -/
structure Fresh (ids : Nat → Int) (total : Nat) : Prop where
  inj : ∀ i < total, ∀ j < total, ids i = ids j → i = j
  pos : ∀ i < total, 0 < ids i
  lt : ∀ i < total, ids i < 2 ^ 31

/-- The new id of a pane of a tab whose ids start at `next`. -/
def newId (ids : Nat → Int) (next : Nat) (tab : ShownTab) (id : Int) : Int :=
  idOf ids next tab.panes.length ((indexOf tab.ids id).getD 0)

theorem newId_of_index {tab : ShownTab} {id : Int} {index : Nat}
    (h : indexOf tab.ids id = some index) : newId ids next tab id = ids (next + index) := by
  have hlt := indexOf_lt h
  rw [ShownTab.ids, length_map] at hlt
  rw [newId, h, Option.getD_some, idOf, if_pos hlt]

theorem newId_eq {tab : ShownTab} (hnext : next + tab.panes.length ≤ total) {id : Int}
    (hid : id ∈ tab.ids) : ∃ index, indexOf tab.ids id = some index ∧
      newId ids next tab id = ids (next + index) ∧ next + index < total := by
  obtain ⟨index, hindex⟩ := exists_indexOf hid
  have hlt := indexOf_lt hindex
  rw [ShownTab.ids, length_map] at hlt
  exact ⟨index, hindex, newId_of_index hindex, by omega⟩

theorem newId_inj (hfresh : Fresh ids total) (tab : ShownTab)
    (hnext : next + tab.panes.length ≤ total) :
    ∀ id ∈ tab.ids, ∀ id' ∈ tab.ids, newId ids next tab id = newId ids next tab id' → id = id' := by
  intro id hid id' hid' heq
  obtain ⟨index, hindex, hnew, hlt⟩ := @newId_eq ids total next tab hnext id hid
  obtain ⟨index', hindex', hnew', hlt'⟩ := @newId_eq ids total next tab hnext id' hid'
  rw [hnew, hnew'] at heq
  have hsame := hfresh.inj _ hlt _ hlt' heq
  obtain rfl : index = index' := by omega
  exact Option.some.inj ((getElem?_of_indexOf hindex).symm.trans (getElem?_of_indexOf hindex'))

theorem newId_pos (hfresh : Fresh ids total) {tab : ShownTab}
    (hnext : next + tab.panes.length ≤ total) {id : Int} (hid : id ∈ tab.ids) :
    0 < newId ids next tab id := by
  obtain ⟨index, -, hnew, hlt⟩ := @newId_eq ids total next tab hnext id hid
  rw [hnew]
  exact hfresh.pos _ hlt

theorem newId_range (hfresh : Fresh ids total) (tab : ShownTab)
    (hnext : next + tab.panes.length ≤ total) :
    ∀ id ∈ tab.ids, -2 ^ 31 ≤ newId ids next tab id ∧ newId ids next tab id < 2 ^ 31 := by
  intro id hid
  have hpos := newId_pos hfresh hnext hid
  obtain ⟨index, -, hnew, hlt⟩ := @newId_eq ids total next tab hnext id hid
  have hbound := hfresh.lt _ hlt
  rw [← hnew] at hbound
  omega

theorem paneId_integer {entries : List (String × Json)} {key : String} {id : Int}
    (hlookup : entries.lookup key = some (.integer id)) (h : -2 ^ 31 ≤ id ∧ id < 2 ^ 31) :
    (Json.object entries).paneId key = some id := by
  rw [Json.paneId, Json.get, hlookup, Option.bind_some, Json.asI64, if_pos (by omega),
    Option.filter_some, if_pos (decide_eq_true h)]

theorem paneState_paneToQml {id : Int} {pane : PaneState} (h : pane.kind ≠ "") :
    paneState (paneToQml id pane) = pane := by
  have htext : (paneToQml id pane).text "kind" = pane.kind := rfl
  rw [paneState, htext, if_neg h]
  rfl

theorem shownPanes_mapIdx {newIds : Nat → Int} (offset : Nat) {states : List PaneState}
    (hkinds : ∀ pane ∈ states, pane.kind ≠ "")
    (hrange : ∀ index < states.length, -2 ^ 31 ≤ newIds (offset + index) ∧
      newIds (offset + index) < 2 ^ 31) :
    shownPanes (states.mapIdx fun index pane => paneToQml (newIds (offset + index)) pane) =
      some (states.mapIdx fun index pane => ⟨newIds (offset + index), pane⟩) := by
  induction states generalizing offset with
  | nil => rfl
  | cons pane states ih =>
    rw [forall_mem_cons] at hkinds
    have hid : (paneToQml (newIds (offset + 0)) pane).paneId "id" =
        some (newIds (offset + 0)) := paneId_integer rfl (hrange 0 (Nat.succ_pos _))
    have hrest := ih (offset + 1) hkinds.2 fun index hindex => by
      rw [Nat.add_assoc, Nat.add_comm 1 index]
      exact hrange (index + 1) (Nat.succ_lt_succ hindex)
    simp only [Nat.add_assoc, Nat.add_comm 1] at hrest
    rw [mapIdx_cons, shownPanes, hid, hrest, paneState_paneToQml hkinds.1, mapIdx_cons]
    rfl

theorem mapIdx_newId {tab : ShownTab} (hnodup : tab.ids.Nodup) :
    (tab.panes.map ShownPane.state).mapIdx
        (fun index pane => (⟨idOf ids next tab.panes.length index, pane⟩ : ShownPane)) =
      tab.panes.map fun pane => { pane with id := newId ids next tab pane.id } := by
  refine ext_getElem? fun index => ?_
  rw [List.getElem?_mapIdx, List.getElem?_map, List.getElem?_map]
  cases hpane : tab.panes[index]? with
  | none => rfl
  | some pane =>
    have hid : tab.ids[index]? = some pane.id := by
      rw [ShownTab.ids, List.getElem?_map, hpane]
      rfl
    have hlt := (List.getElem?_eq_some_iff.mp hpane).1
    rw [Option.map_some, Option.map_some, Option.map_some,
      newId_of_index (indexOf_of_nodup hnodup hid), idOf, if_pos hlt]

theorem layout_tabToQml {tab : ShownTab} (h : tab.Consistent) :
    fromNode tab.toState.layout = .ok tab.toState.layout ∧
      mapPanes (idAt ids next tab.panes.length) tab.toState.layout =
        mapPanes (newId ids next tab) tab.layout := by
  have hwhole := h.whole
  constructor
  · rw [fromNode_eq, if_pos (hwhole.restorable.nodup_iff.mpr (nodup_indexes _)),
      fix_of_ratiosWithin hwhole.ratios]
  · rw [ShownTab.toState, mapPanes_mapPanes]
    refine mapPanes_congr fun id hid => ?_
    obtain ⟨index, hindex⟩ := exists_indexOf (h.layout.mem_iff.mp hid)
    rw [newId, hindex]
    exact if_pos (Int.natCast_nonneg index)

theorem ids_rename (tab : ShownTab) (map : Int → Int) : (tab.rename map).ids = tab.ids.map map := by
  rw [ShownTab.ids, ShownTab.rename, ShownTab.ids, map_map, map_map]
  rfl

theorem filter_contains {ids : List Int} {id : Int} (h : id ∈ ids) :
    (some id).filter (fun id => ids.contains id) = some id := by
  rw [Option.filter_some, if_pos (contains_iff_mem.mpr h)]

theorem shownTab_tabToQml (hfresh : Fresh ids total) {tab : ShownTab} (h : tab.Consistent)
    (hnext : next + tab.panes.length ≤ total) :
    shownTab (tabToQml ids next tab.toState) = some (tab.rename (newId ids next tab)) := by
  have hlength : tab.toState.panes.length = tab.panes.length := length_map _
  obtain ⟨hfrom, hlayout⟩ := @layout_tabToQml ids next tab h
  have hrename := h.rename (newId_inj hfresh tab hnext) (newId_range hfresh tab hnext)
  have hmember : ∀ index < tab.panes.length,
      -2 ^ 31 ≤ idOf ids next tab.panes.length (0 + index) ∧
        idOf ids next tab.panes.length (0 + index) < 2 ^ 31 := fun index hindex => by
    have hpos := hfresh.pos (next + index) (by omega)
    have hlt := hfresh.lt (next + index) (by omega)
    rw [Nat.zero_add, idOf, if_pos hindex]
    omega
  have hpanes := @shownPanes_mapIdx (idOf ids next tab.panes.length) 0
    (tab.panes.map ShownPane.state) (forall_mem_map.mpr fun pane hpane => h.kinds pane hpane)
    (by rwa [length_map])
  simp only [Nat.zero_add] at hpanes
  rw [mapIdx_newId h.nodup] at hpanes
  have hnode : readNode (nodeJson (mapPanes (newId ids next tab) tab.layout)).content =
      some (mapPanes (newId ids next tab) tab.layout) := by
    refine readNode_nodeJson (ratiosWithin_mapPanes.mpr h.ratios) fun id hid => ?_
    rw [panes_mapPanes, mem_map] at hid
    obtain ⟨old, hold, rfl⟩ := hid
    exact newId_range hfresh tab hnext old (h.layout.mem_iff.mp hold)
  have hzoomed : (tab.toState.zoomed.map (idOf ids next tab.panes.length)).getD 0 =
      (tab.zoomed.map (newId ids next tab)).getD 0 := by
    rw [ShownTab.toState]
    cases hsome : tab.zoomed with
    | none => rfl
    | some id =>
      obtain ⟨index, hindex⟩ := exists_indexOf (h.zoomed id hsome)
      rw [Option.bind_some, hindex, Option.map_some, Option.map_some, newId, hindex]
      rfl
  obtain ⟨entries, hentries⟩ : ∃ entries, entries = [("color", Json.string tab.color),
      ("focused", .integer (newId ids next tab tab.focused)),
      ("id", .integer (ids (next + tab.panes.length))),
      ("layout", nodeJson (mapPanes (newId ids next tab) tab.layout)),
      ("panes", .array ((tab.panes.map ShownPane.state).mapIdx fun index pane =>
        paneToQml (idOf ids next tab.panes.length index) pane)),
      ("pinned", .boolean tab.pinned), ("title", .string tab.title),
      ("zoomed", .integer ((tab.zoomed.map (newId ids next tab)).getD 0))] := ⟨_, rfl⟩
  have hjson : tabToQml ids next tab.toState = .object entries := by
    rw [tabToQml, hentries, hlength, hfrom, hzoomed]
    dsimp only
    rw [hlayout]
    rfl
  have hpanesAt : (Json.object entries).get "panes" =
      some (.array ((tab.panes.map ShownPane.state).mapIdx fun index pane =>
        paneToQml (idOf ids next tab.panes.length index) pane)) := by
    rw [hentries]
    rfl
  have hlayoutAt : (Json.object entries).get "layout" =
      some (nodeJson (mapPanes (newId ids next tab) tab.layout)) := by
    rw [hentries]
    rfl
  have htitle : (Json.object entries).text "title" = tab.title := by
    rw [hentries]
    rfl
  have hcolor : (Json.object entries).text "color" = tab.color := by
    rw [hentries]
    rfl
  have hpinned : (((Json.object entries).get "pinned").bind Json.asBool).getD false =
      tab.pinned := by
    rw [hentries]
    rfl
  have hfocusedAt : entries.lookup "focused" =
      some (.integer (newId ids next tab tab.focused)) := by
    rw [hentries]
    rfl
  have hzoomedAt : entries.lookup "zoomed" =
      some (.integer ((tab.zoomed.map (newId ids next tab)).getD 0)) := by
    rw [hentries]
    rfl
  have hids : (tab.panes.map fun pane => { pane with id := newId ids next tab pane.id }).map
      ShownPane.id = tab.ids.map (newId ids next tab) := ids_rename tab (newId ids next tab)
  have hfocused : (((Json.object entries).paneId "focused").filter fun id =>
      (tab.ids.map (newId ids next tab)).contains id) = some (newId ids next tab tab.focused) := by
    rw [paneId_integer hfocusedAt (newId_range hfresh tab hnext _ h.focused)]
    exact filter_contains (mem_map_of_mem h.focused)
  have hzoomedId : (((Json.object entries).paneId "zoomed").filter fun id =>
      (tab.ids.map (newId ids next tab)).contains id) = tab.zoomed.map (newId ids next tab) := by
    cases hsome : tab.zoomed with
    | none =>
      rw [hsome, Option.map_none, Option.getD_none] at hzoomedAt
      have hnot : ¬ (tab.ids.map (newId ids next tab)).contains 0 = true := by
        rw [contains_iff_mem, mem_map]
        rintro ⟨id, hid, heq⟩
        have hpos := newId_pos hfresh hnext hid
        omega
      rw [paneId_integer hzoomedAt (by decide), Option.filter_some]
      exact if_neg hnot
    | some id =>
      have hid := h.zoomed id hsome
      rw [hsome] at hzoomedAt
      rw [paneId_integer hzoomedAt (newId_range hfresh tab hnext id hid)]
      exact filter_contains (mem_map_of_mem hid)
  have hratios : fix (mapPanes (newId ids next tab) tab.layout) =
      mapPanes (newId ids next tab) tab.layout :=
    fix_of_ratiosWithin (ratiosWithin_mapPanes.mpr h.ratios)
  rw [hjson, shownTab, hpanesAt, hlayoutAt]
  simp only [Option.bind_eq_bind, Option.bind_some, Json.asArray, hpanes, Option.getD_some, hnode]
  rw [ShownTab.of, htitle, hcolor, hpinned, hids, hfocused, hzoomedId, hratios]
  rfl

end

section

variable {ids : Nat → Int} {total next : Nat}

/-- How many ids tabs take: one for each pane, and one for the tab. -/
def idCount (tabs : List TabState) : Nat := (tabs.map fun tab => tab.panes.length + 1).sum

theorem tabsToQml_snd (next : Nat) (tabs : List TabState) :
    (tabsToQml ids next tabs).2 = next + idCount tabs := by
  induction tabs generalizing next with
  | nil => rfl
  | cons tab tabs ih =>
    have hcount : idCount (tab :: tabs) = tab.panes.length + 1 + idCount tabs := rfl
    rw [hcount, tabsToQml]
    dsimp only
    rw [ih]
    omega

theorem shownTabs_tabsToQml (hfresh : Fresh ids total) {tabs : List ShownTab}
    (hall : ∀ tab ∈ tabs, tab.Consistent)
    (hnext : next + idCount (tabs.map ShownTab.toState) ≤ total) :
    ∃ back, shownTabs (tabsToQml ids next (tabs.map ShownTab.toState)).1 = some back ∧
      List.Forall₂ ShownTab.SameTab tabs back ∧ (∀ tab ∈ back, tab.Consistent) ∧
      back.map ShownTab.toState = tabs.map ShownTab.toState := by
  induction tabs generalizing next with
  | nil => exact ⟨[], rfl, .nil, fun _ hmem => absurd hmem not_mem_nil, rfl⟩
  | cons tab tabs ih =>
    rw [forall_mem_cons] at hall
    have hlength : tab.toState.panes.length = tab.panes.length := length_map _
    have hcount : idCount ((tab :: tabs).map ShownTab.toState) =
        tab.toState.panes.length + 1 + idCount (tabs.map ShownTab.toState) := rfl
    rw [hcount] at hnext
    obtain ⟨back, hback, hsame, hconsistent, hstates⟩ :=
      @ih (next + tab.toState.panes.length + 1) hall.2 (by omega)
    have hinj := newId_inj hfresh tab (by omega : next + tab.panes.length ≤ total)
    refine ⟨tab.rename (newId ids next tab) :: back, ?_, .cons ⟨_, hinj, rfl⟩ hsame,
      forall_mem_cons.mpr ⟨hall.1.rename hinj (newId_range hfresh tab (by omega)), hconsistent⟩,
      ?_⟩
    · rw [map_cons, tabsToQml, shownTabs, shownTab_tabToQml hfresh hall.1 (by omega), hback]
      rfl
    · rw [map_cons, map_cons, hall.1.toState_rename hinj, hstates]

/-- What a window that is kept looks like. -/
structure ShownWindow.Kept (window : ShownWindow) : Prop where
  some : window.tabs ≠ []
  tabs : ∀ tab ∈ window.tabs, tab.Consistent
  currentTab : window.currentTab < window.tabs.length

theorem asU64_natCast {index : Nat} (h : index < 2 ^ 64) :
    Json.asU64 (.integer index) = some index := by
  rw [Json.asU64, if_pos (by omega), Int.toNat_natCast]

theorem shownWindow_eq {window : Json} {items : List Json} {tabs : List ShownTab}
    {currentTab : Nat} (hitems : (window.get "tabs").bind Json.asArray = some items)
    (htabs : shownTabs items = some tabs)
    (hcurrent : (window.get "currentTab").bind Json.asU64 = some currentTab)
    (hlt : currentTab < tabs.length) : shownWindow window = some ⟨currentTab, tabs⟩ := by
  rw [shownWindow, hitems, hcurrent, Option.bind_eq_bind, Option.bind_some, htabs,
    Option.bind_eq_bind, Option.bind_some, Option.getD_some]
  dsimp only
  rw [if_pos hlt]

theorem shownWindow_toQml (hfresh : Fresh ids total) {window : ShownWindow} (h : window.Kept)
    (hmemory : window.tabs.length ≤ 2 ^ 63) (hnext : next + idCount window.toState.tabs ≤ total) :
    ∃ back, shownWindow (.object [("currentTab", .integer window.currentTab),
        ("tabs", .array (tabsToQml ids next window.toState.tabs).1)]) = some back ∧
      SameWindow window back ∧ back.Kept ∧ back.toState = window.toState := by
  obtain ⟨tabs, htabs, hsame, hconsistent, hstates⟩ := shownTabs_tabsToQml hfresh h.tabs hnext
  have hlength := hsame.length_eq
  have hcurrent := h.currentTab
  have hnumber : (Json.get (.object [("currentTab", .integer window.currentTab),
      ("tabs", .array (tabsToQml ids next window.toState.tabs).1)]) "currentTab").bind
        Json.asU64 = some window.currentTab := by
    have hget : Json.get (.object [("currentTab", .integer window.currentTab),
        ("tabs", .array (tabsToQml ids next window.toState.tabs).1)]) "currentTab" =
          some (.integer window.currentTab) := rfl
    rw [hget, Option.bind_some, asU64_natCast (by omega)]
  refine ⟨⟨window.currentTab, tabs⟩, shownWindow_eq rfl htabs hnumber (by omega), ⟨rfl, hsame⟩, ⟨?_, hconsistent, ?_⟩, ?_⟩
  · intro hnil
    rw [show tabs = [] from hnil, length_nil] at hlength
    exact h.some (length_eq_zero_iff.mp hlength)
  · change window.currentTab < tabs.length
    omega
  · rw [ShownWindow.toState, hstates]
    rfl

theorem shownWindows_windowsToQml (hfresh : Fresh ids total) {windows : List ShownWindow}
    (hall : ∀ window ∈ windows, window.Kept)
    (hmemory : ∀ window ∈ windows, window.tabs.length ≤ 2 ^ 63)
    (hnext : next + (windows.map fun window => idCount window.toState.tabs).sum ≤ total) :
    ∃ back, shownWindows (windowsToQml ids next (windows.map ShownWindow.toState)) = some back ∧
      List.Forall₂ SameWindow windows back ∧ (∀ window ∈ back, window.Kept) ∧
      back.map ShownWindow.toState = windows.map ShownWindow.toState := by
  induction windows generalizing next with
  | nil => exact ⟨[], rfl, .nil, fun _ hmem => absurd hmem not_mem_nil, rfl⟩
  | cons window windows ih =>
    rw [forall_mem_cons] at hall hmemory
    rw [map_cons, sum_cons] at hnext
    obtain ⟨first, hfirst, hsame, hkept, hstate⟩ :=
      shownWindow_toQml hfresh hall.1 hmemory.1 (by omega : next + _ ≤ total)
    have hafter := @tabsToQml_snd ids next window.toState.tabs
    obtain ⟨back, hback, hrest, hall', hstates⟩ :=
      @ih (tabsToQml ids next window.toState.tabs).2 hall.2 hmemory.2 (by omega)
    refine ⟨first :: back, ?_, .cons hsame hrest, forall_mem_cons.mpr ⟨hkept, hall'⟩, ?_⟩
    · rw [map_cons, windowsToQml, shownWindows]
      change (shownWindow (.object [("currentTab", .integer window.currentTab), _])).bind _ = _
      rw [hfirst, Option.bind_some, hback]
      rfl
    · rw [map_cons, map_cons, hstate, hstates]

theorem currentTab_lt {windows : List Json} {found : List ShownWindow}
    (h : shownWindows windows = some found) {window : ShownWindow} (hwindow : window ∈ found)
    (hsome : window.tabs ≠ []) : window.currentTab < window.tabs.length := by
  induction windows generalizing found with
  | nil =>
    obtain rfl := Option.some.inj h
    exact absurd hwindow not_mem_nil
  | cons json windows ih =>
    simp only [shownWindows, Option.bind_eq_bind, Option.bind_eq_some_iff] at h
    obtain ⟨first, hfirst, others, hothers, heq⟩ := h
    obtain rfl := Option.some.inj heq
    rcases mem_cons.mp hwindow with rfl | hwindow
    · simp only [shownWindow, Option.bind_eq_bind, Option.bind_eq_some_iff] at hfirst
      obtain ⟨tabs, -, shown, -, heq⟩ := hfirst
      obtain rfl := Option.some.inj heq
      have hpos := length_pos_iff.mpr hsome
      dsimp only at hpos ⊢
      split_ifs with hlt
      · exact hlt
      · exact hpos
    · exact ih hothers hwindow

theorem ShownWindow.Kept.whole {window : ShownWindow} (h : window.Kept) :
    window.toState.tabs ≠ [] ∧ window.toState.Whole := by
  have htabs : window.toState.tabs = window.tabs.map ShownTab.toState := rfl
  refine ⟨?_, ?_, ?_⟩
  · rw [htabs]
    exact fun hnil => h.some (map_eq_nil_iff.mp hnil)
  · rw [htabs, forall_mem_map]
    exact fun tab htab => (h.tabs tab htab).whole
  · rw [htabs, length_map]
    exact h.currentTab

theorem ShownWindow.Kept.fits {window : ShownWindow} (h : window.Kept)
    (hmemory : window.tabs.length ≤ 2 ^ 63) : window.toState.Fits := by
  have hcurrent := h.currentTab
  refine ⟨?_, forall_mem_map.mpr fun tab htab => (h.tabs tab htab).fits⟩
  change window.currentTab < 2 ^ 63
  omega

theorem workspaceFromQml_eq {json : Json} {entries : List (String × Json)} {windows : List Json}
    {states : List WindowState} (hobject : json.asObject = some entries)
    (hwindows : (json.get "windows").bind Json.asArray = some windows)
    (hstates : windowsFromQml windows = .ok states) :
    workspaceFromQml json = .ok ⟨schemaVersion, trim (json.text "name"), states⟩ := by
  rw [workspaceFromQml, hobject, hwindows]
  dsimp only
  rw [hstates]
  rfl

/-- For every JSON that is accepted: each tab's panes are told apart and are those of its layout;
the workspace is saved and opens as it is; with new ids it shows what the JSON shows, without the
windows that have no tabs; and that is accepted as the same workspace. -/
theorem restored_as_shown {τ : Type} {toml : TomlText τ} (hlawful : toml.Lawful)
    {json : Json} {workspace : Workspace} (h : workspaceFromQml json = .ok workspace)
    (hfresh : Fresh ids (workspace.windows.map fun window => idCount window.tabs).sum)
    (hmemory : ∀ window ∈ workspace.windows, window.tabs.length ≤ 2 ^ 63) :
    ∃ said text back, shownIn json = some said ∧
      (∀ window ∈ said.windows, ∀ tab ∈ window.tabs,
        tab.ids.Nodup ∧ tab.layout.panes.Perm tab.ids) ∧
      toTomlString toml workspace = .ok text ∧
      fromTomlStr toml text = .ok (workspace, []) ∧
      shownIn (workspaceToQml ids workspace) = some back ∧ back.name = said.name ∧
      List.Forall₂ SameWindow (said.windows.filter ShownWindow.hasTabs) back.windows ∧
      workspaceFromQml (workspaceToQml ids workspace) = .ok workspace := by
  rw [workspaceFromQml] at h
  split at h
  · cases h
  split at h
  · cases h
  rename_i windows hwindows
  cases hstates : windowsFromQml windows with
  | error error =>
    rw [hstates] at h
    cases h
  | ok states =>
    rw [hstates] at h
    obtain rfl := Except.ok.inj h
    obtain ⟨found, hfound, hall, rfl⟩ := reads_of_windowsFromQml hstates
    have hkept : ∀ window ∈ found.filter ShownWindow.hasTabs, window.Kept := by
      intro window hwindow
      obtain ⟨hmem, hsome⟩ := List.mem_filter.mp hwindow
      have hne : window.tabs ≠ [] := fun hnil => by
        rw [ShownWindow.hasTabs, hnil] at hsome
        cases hsome
      exact ⟨hne, hall window hmem, currentTab_lt hfound hmem hne⟩
    have hshort : ∀ window ∈ found.filter ShownWindow.hasTabs,
        window.tabs.length ≤ 2 ^ 63 := fun window hwindow => by
      have hle := hmemory window.toState (List.mem_map_of_mem hwindow)
      rwa [ShownWindow.toState, List.length_map] at hle
    have hfits : Workspace.Fits ⟨schemaVersion, trim (json.text "name"),
        (found.filter ShownWindow.hasTabs).map ShownWindow.toState⟩ :=
      ⟨(by decide : -2 ^ 63 ≤ Workspaces.schemaVersion ∧ Workspaces.schemaVersion < 2 ^ 63),
        List.forall_mem_map.mpr fun window hwindow =>
          (hkept window hwindow).fits (hshort window hwindow)⟩
    obtain ⟨text, htext, hopened⟩ := opens_saved hlawful hfits
      (List.forall_mem_map.mpr fun window hwindow => (hkept window hwindow).whole)
    obtain ⟨back, hback, hsame, hbackKept, hbackStates⟩ :=
      @shownWindows_windowsToQml ids _ 0 hfresh _ hkept hshort (by
        rw [List.map_map, Nat.zero_add]
        exact le_refl _)
    have hagain := windowsFromQml_of_shown hback fun window hwindow =>
      ⟨(hbackKept window hwindow).some, (hbackKept window hwindow).tabs⟩
    have htrim : trim (trim (json.text "name")) = trim (json.text "name") := trim_trim _
    have hwindowsAt : (workspaceToQml ids ⟨schemaVersion, trim (json.text "name"),
        (found.filter ShownWindow.hasTabs).map ShownWindow.toState⟩).get "windows" =
          some (.array (windowsToQml ids 0
            ((found.filter ShownWindow.hasTabs).map ShownWindow.toState))) := rfl
    have hnameAt : (workspaceToQml ids ⟨schemaVersion, trim (json.text "name"),
        (found.filter ShownWindow.hasTabs).map ShownWindow.toState⟩).text "name" =
          trim (json.text "name") := rfl
    have hshown : shownIn (workspaceToQml ids ⟨schemaVersion, trim (json.text "name"),
        (found.filter ShownWindow.hasTabs).map ShownWindow.toState⟩) =
          some ⟨trim (json.text "name"), back⟩ := by
      rw [shownIn, hwindowsAt, hnameAt, htrim, Option.bind_eq_bind, Option.bind_some,
        Json.asArray, Option.bind_eq_bind, Option.bind_some, hback]
      rfl
    refine ⟨⟨trim (json.text "name"), found⟩, text, _, ?_, fun window hwindow tab htab =>
      ⟨(hall window hwindow tab htab).nodup, (hall window hwindow tab htab).layout⟩, htext,
      hopened, hshown, rfl, hsame, ?_⟩
    · rw [shownIn, hwindows, Option.bind_eq_bind, Option.bind_some, hfound]
      rfl
    · rw [workspaceFromQml_eq rfl (congrArg (Option.bind · Json.asArray) hwindowsAt) hagain,
        hnameAt, htrim, hbackStates]

end

namespace ShownWitness

open RestoreWitness (toml lawful)

def pane (id : Int) : Json := .object [("id", .integer id), ("kind", .string "ssh")]

/-- Two panes side by side, the second one focused and maximized. -/
def split : Json := .object [("currentTab", .integer 0), ("tabs", .array [.object [
  ("focused", .integer 7), ("layout", .object [("first", .object [("pane", .integer 7)]),
    ("ratio", .float ⟨0x3FE0000000000000⟩), ("second", .object [("pane", .integer 5)]),
    ("split", .string "horizontal")]),
  ("panes", .array [pane 5, pane 7]), ("zoomed", .integer 7)]])]

/-- A name with spaces around it, and a window without tabs. -/
def sample : Json := .object [("name", .string " work "),
  ("windows", .array [split, .object [("tabs", .array [])]])]

def sshPane : PaneState := ⟨"ssh", "", "", "", ""⟩

def saved : Workspace := ⟨1, "work", [⟨0, [⟨"", "", false, 1, some 1,
  .split .horizontal ⟨0x3FE0000000000000⟩ (.pane 1) (.pane 0), [sshPane, sshPane]⟩]⟩]⟩

theorem saved_sample : workspaceFromQml sample = .ok saved := rfl

/-- Ids from 100 on. -/
def ids (index : Nat) : Int := 100 + index

theorem fresh {total : Nat} (h : total ≤ 2 ^ 30) : Fresh ids total := by
  refine ⟨fun i _ j _ heq => ?_, fun i _ => ?_, fun i hi => ?_⟩
  · rw [ids, ids] at heq
    omega
  · rw [ids]
    omega
  · rw [ids]
    omega

/-- The name that comes back is not the one that was shown. -/
theorem name_trimmed : ∃ workspace, workspaceFromQml sample = .ok workspace ∧
    sample.text "name" = " work " ∧
    (workspaceToQml ids workspace).text "name" = "work" :=
  ⟨saved, saved_sample, rfl, rfl⟩

theorem sample_restored : ∃ said text back, shownIn sample = some said ∧
    toTomlString toml saved = .ok text ∧ fromTomlStr toml text = .ok (saved, []) ∧
    shownIn (workspaceToQml ids saved) = some back ∧
    List.Forall₂ SameWindow (said.windows.filter ShownWindow.hasTabs) back.windows := by
  obtain ⟨said, text, back, hsaid, -, htext, hopened, hback, -, hsame, -⟩ :=
    restored_as_shown lawful saved_sample (fresh (by decide)) (by decide)
  exact ⟨said, text, back, hsaid, htext, hopened, hback, hsame⟩

end ShownWitness

end Opensesh.Workspaces
