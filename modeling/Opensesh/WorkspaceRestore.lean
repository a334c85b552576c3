/-
What a saved workspace keeps: the windows and tabs left when a file is opened, and that what is
written opens as it was.
-/
import Opensesh.WorkspaceFile

namespace Opensesh.Workspaces

open List
open Layout (Axis PaneId)
open Records (putAll)
open Fields (Form)

/-- A ratio that both children can live with. -/
def InRange (ratio : F64) : Prop :=
  minRatio.bits.toNat ≤ ratio.bits.toNat ∧ ratio.bits.toNat ≤ maxRatio.bits.toNat

def RatiosWithin : Layout.Node F64 → Prop
  | .pane _ => True
  | .split _ ratio first second => InRange ratio ∧ RatiosWithin first ∧ RatiosWithin second

theorem bounds_toNat : minRatio.bits.toNat = 0x3FA999999999999A ∧
    maxRatio.bits.toNat = 0x3FEE666666666666 := ⟨rfl, rfl⟩

theorem inRange_clampRatio (ratio : F64) : InRange (clampRatio ratio) := by
  obtain ⟨hmin, hmax⟩ := bounds_toNat
  rw [clampRatio]
  split_ifs with hfinite hlow hhigh
  · exact ⟨le_refl _, by omega⟩
  · exact ⟨by omega, le_refl _⟩
  · obtain ⟨-, hlow⟩ := not_or.mp hlow
    exact ⟨by omega, by omega⟩
  · exact ⟨by decide, by decide⟩

variable {ratio : F64} {n : Nat}

theorem clampRatio_of_inRange (h : InRange ratio) : clampRatio ratio = ratio := by
  obtain ⟨hmin, hmax⟩ := bounds_toNat
  obtain ⟨hlow, hhigh⟩ := h
  have hfinite : ratio.isFinite = true := by
    rw [F64.isFinite, decide_eq_true_eq]
    omega
  have hpositive : ¬ (ratio.isNegative = true ∨ ratio.bits.toNat < minRatio.bits.toNat) := by
    rw [F64.isNegative, decide_eq_true_eq]
    omega
  rw [clampRatio, if_pos hfinite, if_neg hpositive, if_neg (by omega)]

theorem isNan_of_inRange (h : InRange ratio) : ratio.isNan = false := by
  obtain ⟨hmin, hmax⟩ := bounds_toNat
  obtain ⟨hlow, hhigh⟩ := h
  rw [F64.isNan, decide_eq_false_iff_not]
  omega

theorem ratiosWithin_fix (node : Layout.Node F64) : RatiosWithin (fix node) := by
  induction node with
  | pane id => trivial
  | split axis ratio first second ihf ihs => exact ⟨inRange_clampRatio ratio, ihf, ihs⟩

theorem fix_of_ratiosWithin {node : Layout.Node F64} (h : RatiosWithin node) : fix node = node := by
  induction node with
  | pane id => rfl
  | split axis ratio first second ihf ihs =>
    obtain ⟨hratio, hfirst, hsecond⟩ := h
    rw [fix, clampRatio_of_inRange hratio, ihf hfirst, ihs hsecond]

theorem panes_fix (node : Layout.Node F64) : (fix node).panes = node.panes := by
  induction node with
  | pane id => rfl
  | split axis ratio first second ihf ihs =>
    rw [fix, Layout.Node.panes, ihf, ihs, Layout.Node.panes]

theorem fromNode_eq (root : Layout.Node F64) :
    fromNode root = if root.panes.Nodup then .ok (fix root)
      else .error "a pane appears twice in the layout" := by
  rw [fromNode, panes_fix]
  by_cases hnodup : root.panes.Nodup
  · have hsorted : (root.panes.insertionSort (· ≤ ·)).Nodup :=
      (root.panes.perm_insertionSort (· ≤ ·)).nodup_iff.mpr hnodup
    have hself := (destutter_eq_self_iff (· ≠ ·) _).mpr hsorted.isChain
    rw [if_pos hnodup, if_neg]
    rw [hself, (root.panes.perm_insertionSort (· ≤ ·)).length_eq]
    exact not_not.mpr rfl
  · rw [if_neg hnodup, if_pos]
    exact fun hlength => hnodup (Layout.nodup_of_length_destutter hlength)

/-- The numbers below `n`, as pane ids. -/
def indexes (n : Nat) : List Int := (List.range n).map fun index : Nat => (index : Int)

/-- Whether a tab can be restored: each index of its panes is in the layout once, and nothing
else is. -/
def TabState.Restorable (tab : TabState) : Prop := tab.layout.panes.Perm (indexes tab.panes.length)

instance (tab : TabState) : Decidable tab.Restorable := inferInstanceAs (Decidable (List.Perm _ _))

/-- The tab with what can be fixed. -/
def TabState.repaired (tab : TabState) : TabState :=
  { tab with
    layout := fix tab.layout
    focused := if tab.focused ≥ tab.panes.length then 0 else tab.focused
    zoomed := tab.zoomed.filter fun zoomed => zoomed < tab.panes.length }

theorem nodup_indexes (n : Nat) : (indexes n).Nodup := nodup_range.map fun _ _ h => Int.ofNat.inj h

theorem mem_indexes {id : Int} : id ∈ indexes n ↔ 0 ≤ id ∧ id < n := by
  rw [indexes, mem_map]
  constructor
  · rintro ⟨index, hindex, rfl⟩
    have hlt := mem_range.mp hindex
    omega
  · rintro ⟨hzero, hlt⟩
    exact ⟨id.toNat, mem_range.mpr (by omega), Int.toNat_of_nonneg hzero⟩

theorem sorted_indexes (n : Nat) : (indexes n).Pairwise (· ≤ ·) := by
  rw [indexes, pairwise_map]
  exact pairwise_lt_range.imp fun hlt => by omega

theorem paneOf_of_lt {index : Nat} (h : index < 2 ^ 31) : paneOf index = index := by
  rw [paneOf]
  omega

theorem map_paneOf (h : n ≤ 2 ^ 31) : (List.range n).map paneOf = indexes n := by
  refine map_congr_left fun index hindex => ?_
  have hlt := mem_range.mp hindex
  exact paneOf_of_lt (by omega)

/-- More indexes than there are pane ids are not all different. -/
theorem le_of_nodup_paneOf (h : ((List.range n).map paneOf).Nodup) : n ≤ 2 ^ 31 := by
  by_contra hlt
  have hsame : paneOf (2 ^ 31 - 1) = paneOf (2 ^ 31) := by decide
  have hinj := inj_on_of_nodup_map h (mem_range.mpr (by omega : 2 ^ 31 - 1 < n))
    (mem_range.mpr (by omega : 2 ^ 31 < n)) hsame
  omega

theorem insertionSort_eq {panes : List PaneId} :
    panes.insertionSort (· ≤ ·) = indexes n ↔ panes.Perm (indexes n) := by
  constructor
  · intro h
    exact h ▸ (panes.perm_insertionSort (· ≤ ·)).symm
  · intro h
    exact ((panes.perm_insertionSort (· ≤ ·)).trans h).eq_of_pairwise
      (fun _ _ _ _ hab hba => le_antisymm hab hba) (panes.pairwise_insertionSort (· ≤ ·))
      (sorted_indexes n)

namespace TabState

variable {tab tab' : TabState}

/-- Whether the layout's pane ids are numbers of 32 bits, and the indexes of 63. -/
structure Fits (tab : TabState) : Prop where
  panes : ∀ id : Int, id ∈ tab.layout.panes → -2 ^ 31 ≤ id ∧ id < 2 ^ 31
  focused : tab.focused < 2 ^ 63
  zoomed : ∀ zoomed ∈ tab.zoomed, zoomed < 2 ^ 63

theorem Restorable.pos (h : tab.Restorable) : 0 < tab.panes.length := by
  have hsome : ∃ id : Int, id ∈ tab.layout.panes := by
    cases hlayout : tab.layout with
    | pane id => exact ⟨id, mem_singleton_self id⟩
    | split axis ratio first second =>
      have hlength := Layout.Node.length_panes (Layout.Node.split axis ratio first second)
      exact exists_mem_of_length_pos (by omega)
  obtain ⟨id, hid⟩ := hsome
  obtain ⟨hzero, hlt⟩ := mem_indexes.mp (h.mem_iff.mp hid)
  omega

theorem Restorable.le (h : tab.Restorable) (hfits : tab.Fits) : tab.panes.length ≤ 2 ^ 31 := by
  have hpos := h.pos
  have hlast : ((tab.panes.length - 1 : Nat) : Int) ∈ indexes tab.panes.length :=
    mem_indexes.mpr ⟨by omega, by omega⟩
  have hlt := (hfits.panes _ (h.mem_iff.mpr hlast)).2
  omega

/-- The check passes for the tabs that can be restored. -/
theorem validate_of_restorable (h : tab.Restorable) (hfits : tab.Fits) :
    tab.validate = .ok tab.repaired := by
  have hnodup : tab.layout.panes.Nodup := h.nodup_iff.mpr (nodup_indexes _)
  have hused : (fix tab.layout).panes.insertionSort (· ≤ ·) =
      (List.range tab.panes.length).map paneOf := by
    rw [panes_fix, map_paneOf (h.le hfits), insertionSort_eq]
    exact h
  rw [validate, fromNode_eq, if_pos hnodup]
  dsimp only
  rw [if_neg (not_not.mpr hused)]
  rfl

/-- It passes for no others. -/
theorem restorable_of_validate (h : tab.validate = .ok tab') :
    tab.Restorable ∧ tab.panes.length ≤ 2 ^ 31 ∧ tab' = tab.repaired := by
  rw [validate, fromNode_eq] at h
  by_cases hnodup : tab.layout.panes.Nodup
  · rw [if_pos hnodup] at h
    dsimp only at h
    split at h
    · cases h
    · rename_i hused
      rw [not_not, panes_fix] at hused
      have hsorted := (tab.layout.panes.perm_insertionSort (· ≤ ·)).nodup_iff.mpr hnodup
      rw [hused] at hsorted
      have hle := le_of_nodup_paneOf hsorted
      rw [map_paneOf hle, insertionSort_eq] at hused
      exact ⟨hused, hle, (Except.ok.inj h).symm⟩
  · rw [if_neg hnodup] at h
    cases h

theorem Restorable.repaired (h : tab.Restorable) : tab.repaired.Restorable := by
  rw [Restorable, TabState.repaired, panes_fix]
  exact h

theorem focused_repaired (h : tab.Restorable) : tab.repaired.focused < tab.panes.length := by
  have hpos := h.pos
  change (if tab.focused ≥ tab.panes.length then 0 else tab.focused) < tab.panes.length
  split_ifs with hge
  · exact hpos
  · omega

theorem zoomed_repaired {zoomed : Nat} (h : zoomed ∈ tab.repaired.zoomed) :
    zoomed < tab.panes.length ∧ zoomed ∈ tab.zoomed := by
  obtain ⟨hzoomed, hlt⟩ := Option.filter_eq_some_iff.mp h
  exact ⟨of_decide_eq_true hlt, hzoomed⟩

theorem Fits.repaired (h : tab.Fits) : tab.repaired.Fits := by
  refine ⟨?_, ?_, fun zoomed hzoomed => h.zoomed zoomed (zoomed_repaired hzoomed).2⟩
  · change ∀ id : Int, id ∈ (fix tab.layout).panes → _
    rw [panes_fix]
    exact h.panes
  · change (if tab.focused ≥ tab.panes.length then 0 else tab.focused) < 2 ^ 63
    split_ifs with hge
    · norm_num
    · exact h.focused

end TabState

/-- A window with the tabs that can be restored. -/
def WindowState.restored (window : WindowState) : WindowState :=
  let tabs := (window.tabs.filter TabState.Restorable).map TabState.repaired
  ⟨if window.currentTab ≥ tabs.length then 0 else window.currentTab, tabs⟩

structure WindowState.Fits (window : WindowState) : Prop where
  currentTab : window.currentTab < 2 ^ 63
  tabs : ∀ tab ∈ window.tabs, tab.Fits

structure Workspace.Fits (workspace : Workspace) : Prop where
  version : -2 ^ 63 ≤ workspace.schemaVersion ∧ workspace.schemaVersion < 2 ^ 63
  windows : ∀ window ∈ workspace.windows, window.Fits

theorem keepTabs_eq {tabs : List TabState} (h : ∀ tab ∈ tabs, tab.Fits) (w t : Nat) :
    (keepTabs w t tabs).1 = (tabs.filter TabState.Restorable).map TabState.repaired := by
  induction tabs generalizing t with
  | nil => rfl
  | cons tab tabs ih =>
    have hrest := ih (fun tab htab => h tab (mem_cons_of_mem _ htab)) (t + 1)
    rw [keepTabs]
    by_cases hrestorable : tab.Restorable
    · rw [TabState.validate_of_restorable hrestorable (h tab mem_cons_self)]
      dsimp only
      rw [filter_cons, if_pos (decide_eq_true hrestorable), map_cons, hrest]
    · cases hvalidate : tab.validate with
      | ok tab' => exact absurd (TabState.restorable_of_validate hvalidate).1 hrestorable
      | error reason =>
        dsimp only
        rw [filter_cons, if_neg (by simpa using hrestorable), hrest]

theorem keepTabs_warnings {tabs : List TabState} (h : ∀ tab ∈ tabs, tab.Fits)
    (hall : ∀ tab ∈ tabs, tab.Restorable) (w t : Nat) : (keepTabs w t tabs).2 = [] := by
  induction tabs generalizing t with
  | nil => rfl
  | cons tab tabs ih =>
    rw [forall_mem_cons] at h hall
    rw [keepTabs, TabState.validate_of_restorable hall.1 h.1]
    exact ih h.2 hall.2 (t + 1)

variable {windows : List WindowState} {workspace : Workspace} {window : WindowState}

theorem keepWindows_eq (h : ∀ window ∈ windows, window.Fits) (w : Nat) :
    (keepWindows w windows).1 = windows.map WindowState.restored := by
  induction windows generalizing w with
  | nil => rfl
  | cons window windows ih =>
    rw [forall_mem_cons] at h
    rw [keepWindows, map_cons, WindowState.restored, ← keepTabs_eq h.1.tabs w 0, ← ih h.2 (w + 1)]

theorem keepWindows_warnings (h : ∀ window ∈ windows, window.Fits)
    (hall : ∀ window ∈ windows, ∀ tab ∈ window.tabs, tab.Restorable) (w : Nat) :
    (keepWindows w windows).2 = [] := by
  induction windows generalizing w with
  | nil => rfl
  | cons window windows ih =>
    rw [forall_mem_cons] at h hall
    rw [keepWindows]
    dsimp only
    rw [keepTabs_warnings h.1.tabs hall.1, ih h.2 hall.2]
    rfl

/-- The workspace without what is broken. -/
def Workspace.restored (workspace : Workspace) : Workspace :=
  { workspace with windows :=
    (workspace.windows.map WindowState.restored).filter fun window => !window.tabs.isEmpty }

theorem restore_eq (h : workspace.Fits) : workspace.restore.1 = workspace.restored := by
  rw [Workspace.restore, Workspace.restored, ← keepWindows_eq h.windows 0]

/-- A tab as a restored workspace has it. -/
structure TabState.Whole (tab : TabState) : Prop where
  restorable : tab.Restorable
  ratios : RatiosWithin tab.layout
  focused : tab.focused < tab.panes.length
  zoomed : ∀ zoomed ∈ tab.zoomed, zoomed < tab.panes.length

structure WindowState.Whole (window : WindowState) : Prop where
  tabs : ∀ tab ∈ window.tabs, tab.Whole
  currentTab : window.currentTab < window.tabs.length

theorem TabState.Restorable.whole {tab : TabState} (h : tab.Restorable) : tab.repaired.Whole :=
  ⟨h.repaired, ratiosWithin_fix tab.layout, TabState.focused_repaired h, fun _ hzoomed =>
    (TabState.zoomed_repaired hzoomed).1⟩

theorem TabState.Whole.repaired_eq {tab : TabState} (h : tab.Whole) : tab.repaired = tab := by
  have hfocused : (if tab.focused ≥ tab.panes.length then 0 else tab.focused) = tab.focused :=
    if_neg (Nat.not_le.mpr h.focused)
  have hzoomed : tab.zoomed.filter (fun zoomed => zoomed < tab.panes.length) = tab.zoomed := by
    cases hsome : tab.zoomed with
    | none => rfl
    | some zoomed =>
      rw [Option.filter_eq_some_iff]
      exact ⟨rfl, decide_eq_true (h.zoomed zoomed hsome)⟩
  rw [TabState.repaired, fix_of_ratiosWithin h.ratios, hfocused, hzoomed]

theorem WindowState.Whole.restored_eq (h : window.Whole) : window.restored = window := by
  have hall : window.tabs.filter TabState.Restorable = window.tabs :=
    List.filter_eq_self.mpr fun tab htab => decide_eq_true (h.tabs tab htab).restorable
  have hmap : window.tabs.map TabState.repaired = window.tabs :=
    (map_congr_left fun tab htab => (h.tabs tab htab).repaired_eq).trans (map_id _)
  rw [restored, hall, hmap, if_neg (Nat.not_le.mpr h.currentTab)]

theorem WindowState.whole_restored (window : WindowState)
    (hsome : window.restored.tabs ≠ []) : window.restored.Whole := by
  refine ⟨fun tab htab => ?_, ?_⟩
  · obtain ⟨raw, hraw, rfl⟩ := mem_map.mp htab
    exact (of_decide_eq_true (mem_filter.mp hraw).2).whole
  · have hpos := length_pos_iff.mpr hsome
    change (if window.currentTab ≥ window.restored.tabs.length then 0 else window.currentTab) <
      window.restored.tabs.length
    split_ifs with hge
    · exact hpos
    · omega

theorem Workspace.whole_restored (h : window ∈ workspace.restored.windows) :
    window.tabs ≠ [] ∧ window.Whole := by
  obtain ⟨hmem, hsome⟩ := mem_filter.mp h
  obtain ⟨raw, -, rfl⟩ := mem_map.mp hmem
  have hne : raw.restored.tabs ≠ [] := by
    intro hnil
    rw [hnil] at hsome
    cases hsome
  exact ⟨hne, raw.whole_restored hne⟩

theorem Workspace.restored_eq (h : ∀ window ∈ workspace.windows, window.tabs ≠ [] ∧ window.Whole) :
    workspace.restored = workspace := by
  have hmap : workspace.windows.map WindowState.restored = workspace.windows :=
    (map_congr_left fun window hwindow => (h window hwindow).2.restored_eq).trans (map_id _)
  have hfilter : workspace.windows.filter (fun window => !window.tabs.isEmpty) =
      workspace.windows := by
    rw [List.filter_eq_self]
    intro window hwindow
    have hne := (h window hwindow).1
    cases htabs : window.tabs with
    | nil => exact absurd htabs hne
    | cons tab tabs => rfl
  rw [Workspace.restored, hmap, hfilter]

/-- Restoring it changes nothing, and nothing is said of its tabs. -/
theorem Workspace.restore_of_whole (hfits : workspace.Fits)
    (h : ∀ window ∈ workspace.windows, window.tabs ≠ [] ∧ window.Whole) :
    workspace.restore = (workspace, newerWarning workspace.schemaVersion) := by
  have hwarnings := keepWindows_warnings hfits.windows (fun window hwindow tab htab =>
    ((h window hwindow).2.tabs tab htab).restorable) 0
  refine Prod.ext ((restore_eq hfits).trans (Workspace.restored_eq h)) ?_
  change newerWarning _ ++ (keepWindows 0 workspace.windows).2 = _
  rw [hwarnings, List.append_nil]

theorem WindowState.Fits.restored (h : window.Fits) : window.restored.Fits := by
  refine ⟨?_, fun tab htab => ?_⟩
  · change (if window.currentTab ≥ window.restored.tabs.length then 0 else window.currentTab) < _
    split_ifs with hge
    · norm_num
    · exact h.currentTab
  · obtain ⟨raw, hraw, rfl⟩ := mem_map.mp htab
    exact (h.tabs raw (mem_filter.mp hraw).1).repaired

theorem Workspace.Fits.restored (h : workspace.Fits) : workspace.restored.Fits := by
  refine ⟨h.version, fun window hwindow => ?_⟩
  obtain ⟨raw, hraw, rfl⟩ := mem_map.mp (mem_filter.mp hwindow).1
  exact (h.windows raw hraw).restored

/-- How many of the tabs before the one a file names are kept. -/
def WindowState.keptBefore (window : WindowState) : Nat :=
  ((window.tabs.take window.currentTab).filter TabState.Restorable).length

/-- The tab the file names is the one shown, if it is kept. -/
def WindowState.ShowsNamed (window : WindowState) : Prop :=
  ∀ tab ∈ window.tabs[window.currentTab]?, tab.Restorable →
    window.restored.currentTab = window.keptBefore ∧
      window.restored.tabs[window.restored.currentTab]? = some tab.repaired

/-- The tab a file names is broken or not there, or no tab before it is broken, or all are and the
tabs that are left are too few for its number. -/
def WindowState.Aligned (window : WindowState) : Prop :=
  ∀ tab ∈ window.tabs[window.currentTab]?, tab.Restorable →
    (∀ earlier ∈ window.tabs.take window.currentTab, earlier.Restorable) ∨
    ((∀ earlier ∈ window.tabs.take window.currentTab, ¬ earlier.Restorable) ∧
      (window.tabs.filter TabState.Restorable).length ≤ window.currentTab)

/-- A kept tab stands behind the kept ones of the tabs before it. -/
theorem WindowState.filter_split {tab : TabState} {n : Nat} (htab : window.tabs[n]? = some tab)
    (hkept : tab.Restorable) :
    window.tabs.filter TabState.Restorable = (window.tabs.take n).filter TabState.Restorable ++
      tab :: (window.tabs.drop (n + 1)).filter TabState.Restorable := by
  obtain ⟨hlt, hget⟩ := List.getElem?_eq_some_iff.mp htab
  have hsplit := congrArg (List.filter fun tab => decide (TabState.Restorable tab))
    (take_append_drop n window.tabs)
  rw [filter_append, drop_eq_getElem_cons hlt, hget] at hsplit
  rw [← hsplit, filter_cons_of_pos (by exact decide_eq_true hkept)]

theorem WindowState.getElem?_keptBefore {tab : TabState}
    (htab : window.tabs[window.currentTab]? = some tab) (hkept : tab.Restorable) :
    window.restored.tabs[window.keptBefore]? = some tab.repaired := by
  have htabs : window.restored.tabs =
      (window.tabs.filter TabState.Restorable).map TabState.repaired := rfl
  rw [htabs, filter_split htab hkept, map_append, map_cons, keptBefore,
    List.getElem?_append_right (Nat.le_of_eq (length_map _)), length_map, Nat.sub_self]
  rfl

theorem WindowState.showsNamed_iff (window : WindowState) : window.ShowsNamed ↔ window.Aligned := by
  refine forall_congr' fun tab => forall_congr' fun htab => forall_congr' fun hkept => ?_
  have hlt := (List.getElem?_eq_some_iff.mp htab).1
  have hfilter := congrArg List.length (filter_split htab hkept)
  rw [length_append, length_cons] at hfilter
  have hall : (∀ earlier ∈ window.tabs.take window.currentTab, earlier.Restorable) ↔
      window.keptBefore = window.currentTab := by
    have hlength := length_take_of_le (Nat.le_of_lt hlt)
    rw [← forall_congr' fun tab => imp_congr_right fun _ => @decide_eq_true_iff tab.Restorable _,
      ← length_filter_eq_length_iff, hlength, keptBefore]
  have hnone : (∀ earlier ∈ window.tabs.take window.currentTab, ¬ earlier.Restorable) ↔
      window.keptBefore = 0 := by
    rw [keptBefore, length_eq_zero_iff, filter_eq_nil_iff]
    exact forall_congr' fun _ => forall_congr' fun _ => not_congr decide_eq_true_iff.symm
  have hcurrent : window.restored.currentTab =
      if window.currentTab ≥ (window.tabs.filter TabState.Restorable).length then 0
      else window.currentTab := by
    rw [restored, length_map]
  have hshown : window.restored.currentTab = window.keptBefore →
      window.restored.tabs[window.restored.currentTab]? = some tab.repaired := fun h =>
    h ▸ getElem?_keptBefore htab hkept
  rw [hall, hnone, and_iff_left_of_imp hshown, hcurrent]
  have hbefore : window.keptBefore + 1 ≤ (window.tabs.filter TabState.Restorable).length := by
    rw [hfilter, keptBefore]
    omega
  split_ifs <;> omega

end Opensesh.Workspaces
