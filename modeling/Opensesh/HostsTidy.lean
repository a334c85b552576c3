/-
The libraries that `check` accepts as they are: well formed, with names, addresses and
tags already tidied. What `check` gives is such a library.
-/
import Opensesh.Groups

namespace Opensesh

open List

theorem trim_eq (text : String) : trim text = String.ofList (Text.trim text.toList) := rfl

theorem trim_trim (text : String) : trim (trim text) = trim text := by
  rw [trim_eq, trim_eq, String.toList_ofList, Text.trim_trim]

section Tags

variable (lower : String → String)

/-- One tag of `cleanTags`. -/
def cleanTag (kept : List String × List String) (tag : String) : List String × List String :=
  if trim tag = "" ∨ lower (trim tag) ∈ kept.2 then kept
  else (kept.1 ++ [trim tag], lower (trim tag) :: kept.2)

theorem cleanTags_eq (tags : List String) :
    cleanTags lower tags = (tags.foldl (cleanTag lower) ([], [])).1 := rfl

/-- Tags told apart whatever their case, each trimmed and not empty. -/
structure CleanTags (tags : List String) : Prop where
  trimmed : ∀ tag ∈ tags, trim tag = tag ∧ tag ≠ ""
  nodup : (tags.map lower).Nodup

/-- Each tag goes in once, trimmed. -/
theorem cleanTag_keeps {kept : List String × List String}
    (h : CleanTags lower kept.1 ∧ kept.2 = (kept.1.map lower).reverse) (tag : String) :
    CleanTags lower (cleanTag lower kept tag).1 ∧
      (cleanTag lower kept tag).2 = ((cleanTag lower kept tag).1.map lower).reverse := by
  obtain ⟨hclean, hseen⟩ := h
  unfold cleanTag
  split
  · exact ⟨hclean, hseen⟩
  · rename_i hnew
    rw [not_or, hseen, mem_reverse] at hnew
    refine ⟨⟨?_, ?_⟩, by simp [hseen]⟩
    · intro other hother
      rcases mem_append.mp hother with hold | hlast
      · exact hclean.trimmed other hold
      · obtain rfl := mem_singleton.mp hlast
        exact ⟨trim_trim tag, hnew.1⟩
    · rw [map_append, map_singleton]
      refine nodup_append'.mpr ⟨hclean.nodup, by simp, ?_⟩
      intro other hother hlast
      obtain rfl := mem_singleton.mp hlast
      exact hnew.2 hother

theorem cleanTags_clean (tags : List String) : CleanTags lower (cleanTags lower tags) := by
  have hfold : ∀ kept : List String × List String,
      CleanTags lower kept.1 ∧ kept.2 = (kept.1.map lower).reverse →
      CleanTags lower (tags.foldl (cleanTag lower) kept).1 := by
    induction tags with
    | nil => exact fun _ h => h.1
    | cons tag rest ih => exact fun kept h => ih _ (cleanTag_keeps lower h tag)
  exact hfold ([], []) ⟨⟨by simp, by simp⟩, rfl⟩

variable {tags : List String}

theorem foldl_cleanTag (kept : List String × List String) (h : CleanTags lower tags)
    (hnew : ∀ tag ∈ tags, lower tag ∉ kept.2) :
    (tags.foldl (cleanTag lower) kept).1 = kept.1 ++ tags := by
  induction tags generalizing kept with
  | nil => simp
  | cons tag rest ih =>
    obtain ⟨htrim, hsome⟩ := h.trimmed tag mem_cons_self
    obtain ⟨hlone, hnodup⟩ := nodup_cons.mp h.nodup
    have hstep : cleanTag lower kept tag = (kept.1 ++ [tag], lower tag :: kept.2) := by
      rw [cleanTag, htrim, if_neg]
      exact not_or.mpr ⟨hsome, hnew tag mem_cons_self⟩
    rw [foldl_cons, hstep, ih]
    · simp
    · exact ⟨fun other hother => h.trimmed other (mem_cons_of_mem _ hother), hnodup⟩
    · intro other hother hin
      rcases mem_cons.mp hin with heq | hold
      · exact hlone (heq ▸ mem_map_of_mem hother)
      · exact hnew other (mem_cons_of_mem _ hother) hold

/-- Clean tags are those the check keeps. -/
theorem cleanTags_eq_self_iff : cleanTags lower tags = tags ↔ CleanTags lower tags := by
  constructor
  · intro heq
    exact heq ▸ cleanTags_clean lower tags
  · intro h
    rw [cleanTags_eq, foldl_cleanTag lower ([], []) h (by simp)]
    rfl

end Tags

section Tidy

variable {τ : Type} (format : HostsFormat τ)

/-- A group that `check` leaves as it is, where its ids and parents are. -/
def Group.Tidy (group : Group) : Prop := trim group.name = group.name ∧ group.name ≠ ""

structure Host.Tidy (lower : String → String) (host : Host) : Prop where
  owned : host.isLinked = false
  name : trim host.name = host.name ∧ host.name ≠ ""
  address : trim host.address = host.address
  tags : CleanTags lower host.tags

/-- A library that `check` accepts as it is. -/
structure HostsFile.Tidy (file : HostsFile) : Prop where
  wellFormed : file.WellFormed
  groups : ∀ group ∈ file.groups, group.Tidy
  hosts : ∀ host ∈ file.hosts, host.Tidy format.lower

/-- The ids `new_id` makes: valid ones, and not those of linked hosts. -/
structure NewIds : Prop where
  valid : ∀ made, validHostId (format.newId made) = true
  owned : ∀ made, linkedPrefix.toList.isPrefixOf (format.newId made).toList = false

variable {format}

/-- A checked group has a trimmed name. -/
theorem tidy_checkedGroup (id : String) (group : Group) : (checkedGroup id group).Tidy := by
  unfold Group.Tidy checkedGroup
  dsimp only
  split
  · exact ⟨by decide, by decide⟩
  · rename_i hsome
    exact ⟨trim_trim _, hsome⟩

theorem tidy_checkedHost (groupIds : List String) (id : String) (host : Host)
    (hid : linkedPrefix.toList.isPrefixOf id.toList = false) :
    (checkedHost format groupIds id host).Tidy format.lower where
  owned := hid
  name := by
    unfold checkedHost
    dsimp only
    split
    · rename_i hsome
      exact ⟨trim_trim _, hsome⟩
    · split
      · exact ⟨by decide, by decide⟩
      · rename_i hsome
        exact ⟨trim_trim _, hsome⟩
  address := trim_trim _
  tags := cleanTags_clean _ _

theorem tidy_keptGroups (groups : List Group) (state : Checked Group)
    (h : ∀ group ∈ state.kept, group.Tidy) :
    ∀ group ∈ (groups.foldl (checkGroup format) state).kept, group.Tidy := by
  induction groups generalizing state with
  | nil => exact h
  | cons head rest ih =>
    refine ih _ fun group hgroup => ?_
    rw [checkGroup_eq] at hgroup
    dsimp only at hgroup
    split at hgroup
    · exact h group hgroup
    · rcases mem_append.mp hgroup with hold | hnew
      · exact h group hold
      · obtain rfl := mem_singleton.mp hnew
        exact tidy_checkedGroup _ head

theorem owned_givenId (hnew : NewIds format) (host : Host) (made : Nat) :
    linkedPrefix.toList.isPrefixOf
      (givenId format (validHostId host.id && !host.isLinked) host.id made).toList =
        false := by
  cases hvalid : (validHostId host.id && !host.isLinked) with
  | true =>
    rw [Bool.and_eq_true, Bool.not_eq_true'] at hvalid
    exact hvalid.2
  | false => exact hnew.owned made

/-- Checked hosts have ids of their own. -/
theorem tidy_keptHosts (hnew : NewIds format) (groupIds : List String) (hosts : List Host)
    (state : Checked Host) (h : ∀ host ∈ state.kept, host.Tidy format.lower) :
    ∀ host ∈ (hosts.foldl (checkHost format groupIds) state).kept, host.Tidy format.lower := by
  induction hosts generalizing state with
  | nil => exact h
  | cons head rest ih =>
    refine ih _ fun host hhost => ?_
    have howned := owned_givenId hnew head state.made
    rw [checkHost_eq] at hhost
    dsimp only at hhost
    generalize givenId format (validHostId head.id && !head.isLinked) head.id
      state.made = id at howned hhost
    split at hhost
    · exact h host hhost
    · rcases mem_append.mp hhost with hold | hlast
      · exact h host hold
      · obtain rfl := mem_singleton.mp hlast
        exact tidy_checkedHost groupIds id head howned

theorem names_cutLoop (groups : List Group) (index : Nat) :
    (cutLoop groups index).map Group.name = groups.map Group.name := by
  unfold cutLoop
  split
  · rw [map_map]
    refine map_congr_left fun group _ => ?_
    dsimp only [Function.comp]
    split <;> rfl
  · rfl

theorem names_cutLoops (groups : List Group) (indexes : List Nat) :
    (indexes.foldl cutLoop groups).map Group.name = groups.map Group.name := by
  induction indexes generalizing groups with
  | nil => rfl
  | cons index rest ih => rw [foldl_cons, ih, names_cutLoop]

theorem name_knownParent (ids : List String) (group : Group) :
    (knownParent ids group).name = group.name := by
  unfold knownParent
  split
  · split <;> rfl
  · rfl

/-- What was checked is tidy. -/
theorem tidy_check (hnew : NewIds format) (file : HostsFile) : (file.check format).Tidy format where
  wellFormed := wellFormed_check format file hnew.valid
  groups := by
    have hkept : ∀ group ∈ (keptGroups format file.groups).kept, group.Tidy :=
      tidy_keptGroups file.groups ⟨[], [], 0⟩ (by simp)
    have hnames : (file.check format).groups.map Group.name =
        (keptGroups format file.groups).kept.map Group.name := by
      rw [groups_check, names_cutLoops, knownGroups, map_map]
      exact map_congr_left fun group _ => name_knownParent _ group
    intro group hmem
    have hname : group.name ∈ (keptGroups format file.groups).kept.map Group.name :=
      hnames ▸ mem_map_of_mem hmem
    obtain ⟨old, hold, heq⟩ := mem_map.mp hname
    unfold Group.Tidy
    rw [← heq]
    exact hkept old hold
  hosts := by
    rw [hosts_check]
    exact tidy_keptHosts hnew _ file.hosts _ (by simp)

theorem checkedGroup_of_tidy {group : Group} (h : group.Tidy) :
    checkedGroup group.id group = group := by
  unfold checkedGroup
  rw [h.1, if_neg h.2]

theorem filter_eq_self {α : Type} {p : α → Bool} {value : Option α}
    (h : ∀ x ∈ value, p x = true) : value.filter p = value := by
  cases value with
  | none => rfl
  | some x => rw [Option.filter_some, if_pos (h x rfl)]

variable {groupIds : List String} {file : HostsFile}

theorem checkedHost_of_tidy {host : Host} (h : host.Tidy format.lower)
    (hgroup : ∀ group ∈ host.group, group ∈ groupIds) (hport : host.port ≠ some 0) :
    checkedHost format groupIds host.id host = host := by
  have hkeptGroup : (host.group.filter fun group => group ∈ groupIds) = host.group :=
    filter_eq_self fun group hmem => by simpa using hgroup group hmem
  have hkeptPort : (host.port.filter fun port => port ≠ 0) = host.port := by
    refine filter_eq_self fun port hsome => ?_
    simpa using fun hzero : port = 0 => hport (hzero ▸ hsome)
  unfold checkedHost
  rw [h.address, h.name.1, if_pos h.name.2, hkeptGroup, hkeptPort,
    (cleanTags_eq_self_iff format.lower).mpr h.tags]

theorem foldl_checkGroup {groups : List Group} (state : Checked Group)
    (htidy : ∀ group ∈ groups, group.Tidy ∧ validHostId group.id = true)
    (hnodup : (groups.map Group.id).Nodup) (hnew : ∀ group ∈ groups, group.id ∉ state.ids) :
    groups.foldl (checkGroup format) state =
      ⟨state.kept ++ groups, (groups.map Group.id).reverse ++ state.ids, state.made⟩ := by
  induction groups generalizing state with
  | nil => simp
  | cons group rest ih =>
    obtain ⟨hgroup, hvalid⟩ := htidy group mem_cons_self
    obtain ⟨hlone, hrest⟩ := nodup_cons.mp hnodup
    have hstep : checkGroup format state group =
        ⟨state.kept ++ [group], group.id :: state.ids, state.made⟩ := by
      rw [checkGroup_eq, hvalid]
      simp only [givenId, madeAfter, if_true]
      rw [if_neg (hnew group mem_cons_self), checkedGroup_of_tidy hgroup]
    rw [foldl_cons, hstep, ih]
    · simp
    · exact fun other hother => htidy other (mem_cons_of_mem _ hother)
    · exact hrest
    · intro other hother hin
      rcases mem_cons.mp hin with heq | hold
      · exact hlone (heq ▸ mem_map_of_mem hother)
      · exact hnew other (mem_cons_of_mem _ hother) hold

theorem foldl_checkHost {hosts : List Host} (state : Checked Host)
    (htidy : ∀ host ∈ hosts, host.Tidy format.lower ∧ validHostId host.id = true ∧
      (∀ group ∈ host.group, group ∈ groupIds) ∧ host.port ≠ some 0)
    (hnodup : (hosts.map Host.id).Nodup) (hnew : ∀ host ∈ hosts, host.id ∉ state.ids) :
    (hosts.foldl (checkHost format groupIds) state).kept = state.kept ++ hosts := by
  induction hosts generalizing state with
  | nil => simp
  | cons host rest ih =>
    obtain ⟨hhost, hvalid, hgroup, hport⟩ := htidy host mem_cons_self
    obtain ⟨hlone, hrest⟩ := nodup_cons.mp hnodup
    have hstep : checkHost format groupIds state host =
        ⟨state.kept ++ [host], host.id :: state.ids, state.made⟩ := by
      rw [checkHost_eq, hvalid, hhost.owned]
      simp only [givenId, madeAfter, Bool.not_false, Bool.and_self, if_true]
      rw [if_neg (hnew host mem_cons_self), checkedHost_of_tidy hhost hgroup hport]
    rw [foldl_cons, hstep, ih]
    · simp
    · exact fun other hother => htidy other (mem_cons_of_mem _ hother)
    · exact hrest
    · intro other hother hin
      rcases mem_cons.mp hin with heq | hold
      · exact hlone (heq ▸ mem_map_of_mem hother)
      · exact hnew other (mem_cons_of_mem _ hother) hold

theorem cutLoop_of_forest (h : file.Forest) (index : Nat) :
    cutLoop file.groups index = file.groups := by
  have hparents : ∀ id parent, parentOf file.groups id = some parent →
      parent ∈ file.groups.map Group.id := by
    intro id parent hup
    obtain ⟨group, hmem, -, hparent⟩ := parentOf_eq_some hup
    exact h.parents group hmem parent hparent
  cases hgroup : file.groups[index]? with
  | none => simp [cutLoop, hgroup, closesLoop]
  | some group =>
    rcases cutLoop_cases file.groups index hgroup hparents with
      ⟨hsame, -⟩ | ⟨id, -, hcycle, -⟩
    · exact hsame
    · obtain ⟨next, hup, -⟩ := Relation.TransGen.head'_iff.mp hcycle
      obtain ⟨looped, hmem, rfl, -⟩ := parentOf_eq_some hup
      exact absurd hcycle (h.climbs looped hmem).not_cycle

theorem cutLoops_of_forest (h : file.Forest) (indexes : List Nat) :
    indexes.foldl cutLoop file.groups = file.groups := by
  induction indexes with
  | nil => rfl
  | cons index rest ih => rw [foldl_cons, cutLoop_of_forest h, ih]

theorem knownParents_of_forest (h : file.Forest) :
    file.groups.map (knownParent (file.groups.map Group.id)) = file.groups := by
  refine (map_congr_left fun group hmem => ?_).trans (map_id _)
  refine knownParent_of_known fun parent hparent => ⟨h.parents group hmem parent hparent, ?_⟩
  rintro rfl
  exact (h.climbs group hmem).not_cycle (.single ((h.parentOf_eq hmem).trans hparent))

variable {file : HostsFile}

theorem keptGroups_of_tidy (h : file.Tidy format) :
    keptGroups format file.groups = ⟨file.groups, (file.groups.map Group.id).reverse, 0⟩ := by
  have hnodup := h.wellFormed.forest.nodup
  rw [keptGroups, foldl_checkGroup ⟨[], [], 0⟩ (fun group hmem => ⟨h.groups group hmem, ?_⟩)
    hnodup (by simp)]
  · simp
  · exact h.wellFormed.valid _ (mem_append_left _ (mem_map_of_mem hmem))

theorem knownGroups_of_tidy (h : file.Tidy format) :
    knownGroups format file.groups = file.groups := by
  rw [knownGroups, keptGroups_of_tidy h]
  exact knownParents_of_forest h.wellFormed.forest

/-- A tidy file is left as it is. -/
theorem check_of_tidy (h : file.Tidy format) : file.check format = file := by
  have hgroups : (file.check format).groups = file.groups := by
    rw [groups_check, knownGroups_of_tidy h, cutLoops_of_forest h.wellFormed.forest]
  have hhosts : (file.check format).hosts = file.hosts := by
    obtain ⟨-, hnodup, hdisjoint⟩ := nodup_append'.mp h.wellFormed.nodup
    rw [hosts_check, keptHosts, keptGroups_of_tidy h, foldl_checkHost]
    · rfl
    · exact fun host hmem => ⟨h.hosts host hmem,
        h.wellFormed.valid _ (mem_append_right _ (mem_map_of_mem hmem)),
        h.wellFormed.hostGroups host hmem, h.wellFormed.ports host hmem⟩
    · exact hnodup
    · intro host hmem hin
      exact hdisjoint (mem_reverse.mp hin) (mem_map_of_mem hmem)
  calc file.check format
      = { file with
          groups := (file.check format).groups, hosts := (file.check format).hosts } := rfl
    _ = file := by rw [hgroups, hhosts]

theorem check_eq_self_iff (hnew : NewIds format) (file : HostsFile) :
    file.check format = file ↔ file.Tidy format := by
  constructor
  · intro heq
    exact heq ▸ tidy_check hnew file
  · exact check_of_tidy

end Tidy

end Opensesh
