/-
Loading `hosts.toml` always gives a well-formed library: ids told apart,
references that name groups, and groups whose parents end at the top.
-/
import Opensesh.HostsSync
import Opensesh.Forest

namespace Opensesh

open List

/-- The parent of the group with an id. -/
def parentOf (groups : List Group) (id : String) : Option String :=
  (groups.find? fun group => group.id == id).bind Group.parent

/-- The ids of groups and hosts. -/
def HostsFile.ids (file : HostsFile) : List String :=
  file.groups.map Group.id ++ file.hosts.map Host.id

structure HostsFile.WellFormed (file : HostsFile) : Prop where
  nodup : file.ids.Nodup
  valid : ∀ id ∈ file.ids, validHostId id = true
  parents : ∀ group ∈ file.groups, ∀ parent ∈ group.parent, parent ∈ file.groups.map Group.id
  climbs : ∀ group ∈ file.groups, Climbs (parentOf file.groups) group.id
  hostGroups : ∀ host ∈ file.hosts, ∀ group ∈ host.group, group ∈ file.groups.map Group.id
  ports : ∀ host ∈ file.hosts, host.port ≠ some 0

/-- The chain of parents of an id: each is the id of one group, and the last
group is at the top. -/
inductive Chain (groups : List Group) : String → List String → Prop
  | top {group : Group} (hmem : group ∈ groups)
      (hlone : (groups.map Group.id).count group.id = 1)
      (htop : group.parent = none) : Chain groups group.id [group.id]
  | up {group : Group} {parent : String} {rest : List String}
      (hmem : group ∈ groups) (hlone : (groups.map Group.id).count group.id = 1)
      (hup : group.parent = some parent) (hrest : Chain groups parent rest) :
      Chain groups group.id (group.id :: rest)

theorem find_of_nodup {groups : List Group} (hnodup : (groups.map Group.id).Nodup)
    {group : Group} (hmem : group ∈ groups) :
    groups.find? (fun other => other.id == group.id) = some group := by
  induction groups with
  | nil => cases hmem
  | cons head rest ih =>
    rw [map_cons, nodup_cons] at hnodup
    rcases mem_cons.mp hmem with rfl | hrest
    · simp
    · have hne : head.id ≠ group.id := fun heq => hnodup.1 (heq ▸ mem_map_of_mem hrest)
      rw [List.find?_cons_of_neg (by simpa using hne)]
      exact ih hnodup.2 hrest

variable {groups : List Group} {id : String}

theorem parentOf_of_nodup (hnodup : (groups.map Group.id).Nodup) {group : Group}
    (hmem : group ∈ groups) : parentOf groups group.id = group.parent := by
  rw [parentOf, find_of_nodup hnodup hmem, Option.bind_some]

theorem parentOf_eq_some {parent : String} (h : parentOf groups id = some parent) :
    ∃ group ∈ groups, group.id = id ∧ group.parent = some parent := by
  obtain ⟨group, hfind, hparent⟩ := Option.bind_eq_some_iff.mp h
  exact ⟨group, mem_of_find?_eq_some hfind, by simpa using List.find?_some hfind, hparent⟩

theorem split_of_count {group : Group} (hmem : group ∈ groups)
    (hlone : (groups.map Group.id).count group.id = 1) :
    ∃ before after, groups = before ++ group :: after ∧
      group.id ∉ before.map Group.id ∧ group.id ∉ after.map Group.id := by
  obtain ⟨before, after, rfl⟩ := append_of_mem hmem
  refine ⟨before, after, rfl, ?_⟩
  rw [map_append, map_cons, count_append, count_cons_self] at hlone
  refine ⟨count_eq_zero.mp ?_, count_eq_zero.mp ?_⟩ <;> omega

theorem parentOf_of_count {group : Group} (hmem : group ∈ groups)
    (hlone : (groups.map Group.id).count group.id = 1) :
    parentOf groups group.id = group.parent := by
  obtain ⟨before, after, rfl, hbefore, -⟩ := split_of_count hmem hlone
  have hnone : before.find? (fun other => other.id == group.id) = none := by
    rw [List.find?_eq_none]
    intro other hother heq
    exact hbefore (mem_map.mpr ⟨other, hother, by simpa using heq⟩)
  rw [parentOf, List.find?_append, hnone]
  simp

theorem Chain.climbs {ids : List String} (h : Chain groups id ids) :
    Climbs (parentOf groups) id := by
  induction h with
  | top hmem hlone htop => exact .top ((parentOf_of_count hmem hlone).trans htop)
  | up hmem hlone hup _ ih =>
    exact .up ((parentOf_of_count hmem hlone).trans hup) ih

section Ids

variable {τ : Type} (format : HostsFormat τ)

/-- The id an entry gets. -/
def givenId (valid : Bool) (id : String) (made : Nat) : String :=
  if valid then id else format.newId made

/-- How many ids were made once an entry has its own. -/
def madeAfter (valid : Bool) (made : Nat) : Nat := if valid then made else made + 1

/-- A group as it is kept. -/
def checkedGroup (id : String) (group : Group) : Group :=
  { group with
    id
    name := if trim group.name = "" then "Group" else trim group.name }

/-- A host as it is kept. -/
def checkedHost (groupIds : List String) (id : String) (host : Host) : Host :=
  { host with
    id
    address := trim host.address
    name := if trim host.name ≠ "" then trim host.name
      else if trim host.address = "" then "Host" else trim host.address
    group := host.group.filter fun group => group ∈ groupIds
    port := host.port.filter fun port => port ≠ 0
    tags := cleanTags format.lower host.tags }

theorem id_checkedGroup (id : String) (group : Group) : (checkedGroup id group).id = id := rfl

theorem parent_checkedGroup (id : String) (group : Group) :
    (checkedGroup id group).parent = group.parent := rfl

theorem rest_checkedGroup (id : String) (group : Group) :
    (checkedGroup id group).rest = group.rest := rfl

theorem id_checkedHost (groupIds : List String) (id : String) (host : Host) :
    (checkedHost format groupIds id host).id = id := rfl

theorem checkGroup_eq (state : Checked Group) (group : Group) :
    checkGroup format state group =
      let valid := validHostId group.id
      let id := givenId format valid group.id state.made
      if id ∈ state.ids then { state with made := madeAfter valid state.made }
      else ⟨state.kept ++ [checkedGroup id group], id :: state.ids,
        madeAfter valid state.made⟩ := rfl

theorem checkHost_eq (groupIds : List String) (state : Checked Host) (host : Host) :
    checkHost format groupIds state host =
      let valid := validHostId host.id && !host.isLinked
      let id := givenId format valid host.id state.made
      if id ∈ state.ids then { state with made := madeAfter valid state.made }
      else ⟨state.kept ++ [checkedHost format groupIds id host], id :: state.ids,
        madeAfter valid state.made⟩ := rfl

/-- What the loops of `check` keep: entries with valid ids told apart from each
other's and from those taken before. -/
structure Kept {α : Type} (idOf : α → String) (taken : List String)
    (state : Checked α) : Prop where
  ids : ∀ id, id ∈ state.ids ↔ id ∈ taken ∨ id ∈ state.kept.map idOf
  nodup : (taken ++ state.kept.map idOf).Nodup
  valid : ∀ entry ∈ state.kept, validHostId (idOf entry) = true

variable {taken : List String} {state : Checked Group}

theorem Kept.append {α : Type} {idOf : α → String} {state : Checked α} (h : Kept idOf taken state)
    {entry : α} {id : String} {made : Nat} (hid : idOf entry = id) (hnew : id ∉ state.ids)
    (hvalid : validHostId id = true) :
    Kept idOf taken ⟨state.kept ++ [entry], id :: state.ids, made⟩ where
  ids other := by
    rw [mem_cons, h.ids, map_append, mem_append, map_singleton,
      mem_singleton, hid, or_comm, or_assoc]
  nodup := by
    rw [h.ids] at hnew
    rw [map_append, ← List.append_assoc]
    refine nodup_append'.mpr ⟨h.nodup, nodup_singleton _, ?_⟩
    intro other hother hentry
    obtain rfl := mem_singleton.mp hentry
    rw [hid] at hother
    exact hnew (mem_append.mp hother)
  valid other hother := by
    rcases mem_append.mp hother with hold | hlast
    · exact h.valid other hold
    · obtain rfl := mem_singleton.mp hlast
      rwa [hid]

theorem valid_givenId (hnew : ∀ n, validHostId (format.newId n) = true) (valid : Bool) {id : String}
    {made : Nat} (h : valid = true → validHostId id = true) :
    validHostId (givenId format valid id made) = true := by
  cases valid with
  | true => exact h rfl
  | false => exact hnew made

theorem kept_checkGroup (hnew : ∀ n, validHostId (format.newId n) = true)
    (h : Kept Group.id taken state) (group : Group) :
    Kept Group.id taken (checkGroup format state group) := by
  have hvalid : validHostId (givenId format (validHostId group.id) group.id state.made) = true :=
    valid_givenId format hnew _ fun h => h
  rw [checkGroup_eq]
  dsimp only
  generalize givenId format (validHostId group.id) group.id state.made = id at hvalid ⊢
  split
  · exact ⟨h.ids, h.nodup, h.valid⟩
  · rename_i hid
    exact h.append (id_checkedGroup id group) hid hvalid

theorem kept_checkHost (hnew : ∀ n, validHostId (format.newId n) = true) (groupIds : List String)
    {state : Checked Host} (h : Kept Host.id taken state) (host : Host) :
    Kept Host.id taken (checkHost format groupIds state host) := by
  have hvalid : validHostId (givenId format (validHostId host.id && !host.isLinked)
      host.id state.made) = true :=
    valid_givenId format hnew _ fun h => (Bool.and_eq_true _ _ ▸ h).1
  rw [checkHost_eq]
  dsimp only
  generalize givenId format (validHostId host.id && !host.isLinked) host.id state.made =
    id at hvalid ⊢
  split
  · exact ⟨h.ids, h.nodup, h.valid⟩
  · rename_i hid
    exact h.append (id_checkedHost format groupIds id host) hid hvalid

theorem kept_groups (hnew : ∀ n, validHostId (format.newId n) = true) (groups : List Group)
    (h : Kept Group.id [] state) : Kept Group.id [] (groups.foldl (checkGroup format) state) := by
  induction groups generalizing state with
  | nil => exact h
  | cons group rest ih => exact ih (kept_checkGroup format hnew h group)

theorem kept_hosts (hnew : ∀ n, validHostId (format.newId n) = true) (groupIds : List String)
    (hosts : List Host) {state : Checked Host} (h : Kept Host.id taken state) :
    Kept Host.id taken (hosts.foldl (checkHost format groupIds) state) := by
  induction hosts generalizing state with
  | nil => exact h
  | cons host rest ih => exact ih (kept_checkHost format hnew groupIds h host)

theorem hosts_checked (groupIds : List String) (hosts : List Host) (state : Checked Host)
    (h : ∀ host ∈ state.kept, (∀ group ∈ host.group, group ∈ groupIds) ∧ host.port ≠ some 0) :
    ∀ host ∈ (hosts.foldl (checkHost format groupIds) state).kept,
      (∀ group ∈ host.group, group ∈ groupIds) ∧ host.port ≠ some 0 := by
  induction hosts generalizing state with
  | nil => exact h
  | cons head rest ih =>
    refine ih _ fun host hhost => ?_
    rw [checkHost_eq] at hhost
    dsimp only at hhost
    split at hhost
    · exact h host hhost
    · rcases mem_append.mp hhost with hold | hnew
      · exact h host hold
      · obtain rfl := mem_singleton.mp hnew
        constructor
        · intro group hgroup
          simpa using (Option.mem_filter_iff.mp hgroup).2
        · intro hport
          simpa using (Option.filter_eq_some_iff.mp hport).2

end Ids

section Parents

variable {ids : List String}

theorem id_knownParent (group : Group) : (knownParent ids group).id = group.id := by
  unfold knownParent
  split
  · split <;> rfl
  · rfl

theorem ids_knownParent (groups : List Group) :
    (groups.map (knownParent ids)).map Group.id = groups.map Group.id := by
  rw [map_map]
  exact map_congr_left fun group _ => id_knownParent group

theorem parent_knownParent (group : Group) : ∀ parent ∈ (knownParent ids group).parent,
    group.parent = some parent ∧ parent ∈ ids ∧ parent ≠ group.id := by
  intro parent hparent
  unfold knownParent at hparent
  split at hparent
  · rename_i old hold
    split at hparent
    · cases hparent
    · rename_i hknown
      rw [not_or, not_not] at hknown
      rw [hold] at hparent
      obtain rfl := Option.some.inj hparent
      exact ⟨hold, hknown⟩
  · rename_i hnone
    rw [hnone] at hparent
    cases hparent

theorem knownParent_of_known {group : Group} (h : ∀ parent ∈ group.parent,
    parent ∈ ids ∧ parent ≠ group.id) : knownParent ids group = group := by
  unfold knownParent
  split
  · rename_i parent hparent
    obtain ⟨hmem, hne⟩ := h parent hparent
    rw [if_neg (by simp [hmem, hne])]
  · rfl

end Parents

section Loops

variable (groups : List Group)

theorem closesLoop_eq (steps : Nat) (seen : List String) (current : Option String) :
    closesLoop groups steps seen current = firstTwice (parentOf groups) steps seen current := by
  induction steps generalizing seen current with
  | zero => rfl
  | succ steps ih =>
    cases current with
    | none => rfl
    | some id =>
      rw [closesLoop, firstTwice, ih]
      rfl

/-- The groups with one moved to the top. -/
def cutAt (id : String) : List Group :=
  groups.map fun group => if group.id = id then { group with parent := none } else group

theorem ids_cutAt (id : String) : (cutAt groups id).map Group.id = groups.map Group.id := by
  rw [cutAt, map_map]
  refine map_congr_left fun group _ => ?_
  dsimp only [Function.comp]
  split <;> rfl

theorem parentOf_cutAt (id other : String) :
    parentOf (cutAt groups id) other =
      if other = id then none else parentOf groups other := by
  induction groups with
  | nil => simp [cutAt, parentOf]
  | cons group rest ih =>
    rw [cutAt, parentOf] at ih ⊢
    rw [map_cons, parentOf]
    by_cases hgroup : group.id = other
    · subst other
      by_cases hid : group.id = id <;> simp [hid]
    · have hne : ((if group.id = id then { group with parent := none }
          else group : Group).id == other) = false := by
        split <;> simpa using hgroup
      rw [List.find?_cons_of_neg (by simp [hne]), List.find?_cons_of_neg (by simpa using hgroup)]
      exact ih

theorem cutLoop_cases (index : Nat) {group : Group} (hgroup : groups[index]? = some group)
    (hparents : ∀ id parent, parentOf groups id = some parent → parent ∈ groups.map Group.id) :
    cutLoop groups index = groups ∧ Climbs (parentOf groups) group.id ∨
      ∃ id, cutLoop groups index = cutAt groups id ∧
        Relation.TransGen (Up (parentOf groups)) id id ∧
        Climbs (parentOf (cutAt groups id)) group.id := by
  have hmem : group.id ∈ groups.map Group.id := mem_map_of_mem (mem_of_getElem? hgroup)
  cases hloop : closesLoop groups (groups.length + 1) [] (some group.id) with
  | none =>
    refine Or.inl ⟨by simp [cutLoop, hgroup, hloop], ?_⟩
    rw [closesLoop_eq] at hloop
    exact climbs_of_firstTwice_none hparents nodup_nil (nil_subset _) hmem (by simp) hloop
  | some id =>
    refine Or.inr ⟨id, by simp [cutLoop, hgroup, hloop, cutAt], ?_, ?_⟩
    · rw [closesLoop_eq] at hloop
      exact firstTwice_cycle (by simp) hloop
    · rw [closesLoop_eq] at hloop
      refine climbs_of_firstTwice hloop ?_ fun other hother => ?_
      · rw [parentOf_cutAt, if_pos rfl]
      · rw [parentOf_cutAt, if_neg hother]

/-- What cutting loops keeps: the ids, and parents but for those cut. -/
structure CutOf (cut : List Group) : Prop where
  ids : cut.map Group.id = groups.map Group.id
  parents : ∀ id, parentOf cut id = parentOf groups id ∨ parentOf cut id = none
  /-- Groups whose parents end at the top are not cut. -/
  kept : ∀ group ∈ groups, Climbs (parentOf groups) group.id → group ∈ cut

variable {groups}

theorem CutOf.refl : CutOf groups groups := ⟨rfl, fun _ => Or.inl rfl, fun _ hmem _ => hmem⟩

variable {cut : List Group}

theorem CutOf.climbs (h : CutOf groups cut) {id : String} (hid : Climbs (parentOf groups) id) :
    Climbs (parentOf cut) id :=
  hid.of_cut h.parents

theorem CutOf.cutAt (h : CutOf groups cut) {id : String}
    (hcycle : Relation.TransGen (Up (parentOf cut)) id id) :
    CutOf groups (cutAt cut id) where
  ids := (ids_cutAt cut id).trans h.ids
  parents other := by
    rw [parentOf_cutAt]
    split
    · exact Or.inr rfl
    · exact h.parents other
  kept group hmem hclimbs := by
    have hne : group.id ≠ id := by
      rintro rfl
      exact (h.climbs hclimbs).not_cycle hcycle
    exact mem_map.mpr ⟨group, h.kept group hmem hclimbs, if_neg hne⟩

/-- After a walk from each of the first groups, their parents end at the top. -/
theorem cutLoops (hparents : ∀ id parent, parentOf groups id = some parent →
    parent ∈ groups.map Group.id) (count : Nat) :
    CutOf groups ((List.range count).foldl cutLoop groups) ∧
      ∀ index < count, ∀ group, groups[index]? = some group →
        Climbs (parentOf ((List.range count).foldl cutLoop groups)) group.id := by
  induction count with
  | zero => exact ⟨.refl, fun index hindex => absurd hindex (Nat.not_lt_zero index)⟩
  | succ count ih =>
    obtain ⟨hcut, hclimbs⟩ := ih
    rw [range_succ, foldl_append, foldl_cons, foldl_nil]
    generalize (List.range count).foldl cutLoop groups = cut at hcut hclimbs ⊢
    have hids : ∀ index : Nat, cut[index]?.map Group.id = groups[index]?.map Group.id := by
      intro index
      rw [← List.getElem?_map, ← List.getElem?_map, hcut.ids]
    cases hgroup : cut[count]? with
    | none =>
      have hsame : cutLoop cut count = cut := by
        simp [cutLoop, hgroup, closesLoop]
      rw [hsame]
      refine ⟨hcut, fun index hindex group hat => ?_⟩
      rcases Nat.lt_succ_iff_lt_or_eq.mp hindex with hlt | rfl
      · exact hclimbs index hlt group hat
      · have hnone := hids index
        rw [hgroup, hat] at hnone
        cases hnone
    | some found =>
      have hknown : ∀ id parent, parentOf cut id = some parent → parent ∈ cut.map Group.id := by
        intro id parent hparent
        rw [hcut.ids]
        rcases hcut.parents id with h | h
        · exact hparents id parent (h.symm.trans hparent)
        · rw [h] at hparent
          cases hparent
      have hsameId : ∀ group, groups[count]? = some group → found.id = group.id := by
        intro group hat
        have hboth := hids count
        rw [hgroup, hat] at hboth
        exact Option.some.inj hboth
      rcases cutLoop_cases cut count hgroup hknown with
        ⟨hsame, htop⟩ | ⟨id, hsame, hcycle, htop⟩
      · rw [hsame]
        refine ⟨hcut, fun index hindex group hat => ?_⟩
        rcases Nat.lt_succ_iff_lt_or_eq.mp hindex with hlt | rfl
        · exact hclimbs index hlt group hat
        · rwa [← hsameId group hat]
      · rw [hsame]
        refine ⟨hcut.cutAt hcycle, fun index hindex group hat => ?_⟩
        rcases Nat.lt_succ_iff_lt_or_eq.mp hindex with hlt | rfl
        · refine (hclimbs index hlt group hat).of_cut fun other => ?_
          rw [parentOf_cutAt]
          split
          · exact Or.inr rfl
          · exact Or.inl rfl
        · rwa [← hsameId group hat]

end Loops

section Stay

variable {τ : Type} (format : HostsFormat τ)

/-- Ids come from the groups read or were made. -/
def FromInput (read : List String) (state : Checked Group) : Prop :=
  ∀ id ∈ state.ids, id ∈ read ∨ ∃ made < state.made, id = format.newId made

theorem le_madeAfter (valid : Bool) (made : Nat) : made ≤ madeAfter valid made := by
  cases valid with
  | true => exact le_rfl
  | false => exact Nat.le_succ made

theorem givenId_cases (id : String) (made : Nat) :
    givenId format (validHostId id) id made = id ∧ validHostId id = true ∨
      givenId format (validHostId id) id made = format.newId made ∧
        madeAfter (validHostId id) made = made + 1 := by
  cases hvalid : validHostId id with
  | true => exact Or.inl ⟨rfl, rfl⟩
  | false => exact Or.inr ⟨rfl, rfl⟩

theorem fromInput_checkGroup {read : List String} {state : Checked Group}
    (h : FromInput format read state) (group : Group) :
    FromInput format (read ++ [group.id]) (checkGroup format state group) := by
  have hmore := le_madeAfter (validHostId group.id) state.made
  have hgiven := givenId_cases format group.id state.made
  rw [checkGroup_eq]
  dsimp only
  generalize madeAfter (validHostId group.id) state.made = made at hmore hgiven ⊢
  generalize givenId format (validHostId group.id) group.id state.made = id at hgiven ⊢
  have hold : ∀ other ∈ state.ids, other ∈ read ++ [group.id] ∨
      ∃ n < made, other = format.newId n := by
    intro other hother
    rcases h other hother with hread | ⟨n, hlt, rfl⟩
    · exact Or.inl (mem_append_left _ hread)
    · exact Or.inr ⟨n, hlt.trans_le hmore, rfl⟩
  unfold FromInput
  split
  · exact hold
  · intro other hother
    rcases mem_cons.mp hother with rfl | hother
    · rcases hgiven with ⟨rfl, -⟩ | ⟨hnew, hmade⟩
      · exact Or.inl (mem_append_right _ (mem_singleton_self _))
      · exact Or.inr ⟨state.made, hmade ▸ Nat.lt_succ_self _, hnew⟩
    · exact hold other hother

theorem fromInput_groups (groups : List Group) (read : List String)
    {state : Checked Group} (h : FromInput format read state) :
    FromInput format (read ++ groups.map Group.id) (groups.foldl (checkGroup format) state) := by
  induction groups generalizing read state with
  | nil => simpa using h
  | cons group rest ih =>
    have hrest := ih (read ++ [group.id]) (fromInput_checkGroup format h group)
    rwa [List.append_assoc] at hrest

theorem kept_of_kept (groups : List Group) {state : Checked Group} {group : Group}
    (h : group ∈ state.kept) :
    group ∈ (groups.foldl (checkGroup format) state).kept := by
  induction groups generalizing state with
  | nil => exact h
  | cons head rest ih =>
    refine ih ?_
    rw [checkGroup_eq]
    dsimp only
    split
    · exact h
    · exact mem_append_left _ h

theorem made_groups (groups : List Group) (state : Checked Group) :
    (groups.foldl (checkGroup format) state).made ≤ state.made + groups.length := by
  induction groups generalizing state with
  | nil => exact le_rfl
  | cons group rest ih =>
    have hstep : (checkGroup format state group).made ≤ state.made + 1 := by
      rw [checkGroup_eq]
      dsimp only
      split <;> (unfold madeAfter; dsimp only; split <;> omega)
    have hrest := ih (checkGroup format state group)
    rw [foldl_cons, length_cons]
    omega

/-- The groups the first loop of `check` keeps. -/
def keptGroups (groups : List Group) : Checked Group := groups.foldl (checkGroup format) ⟨[], [], 0⟩

theorem group_kept (groups : List Group)
    (hapart : ∀ i < groups.length, ∀ j < i, format.newId i ≠ format.newId j)
    (hfresh : ∀ made, format.newId made ∉ groups.map Group.id) {group : Group}
    (hmem : group ∈ groups) (hlone : (groups.map Group.id).count group.id = 1) :
    ∃ made, checkedGroup (givenId format (validHostId group.id) group.id made) group ∈
      (keptGroups format groups).kept := by
  obtain ⟨before, after, rfl, hbefore, -⟩ := split_of_count hmem hlone
  rw [keptGroups, foldl_append, foldl_cons]
  have hinput : FromInput format (before.map Group.id)
      (before.foldl (checkGroup format) ⟨[], [], 0⟩) :=
    fromInput_groups format before [] (by
      intro id hid
      cases hid)
  have hmade := made_groups format before ⟨[], [], 0⟩
  generalize before.foldl (checkGroup format) ⟨[], [], 0⟩ = state at hinput hmade ⊢
  have hlt : state.made < (before ++ group :: after).length := by
    rw [length_append, length_cons]
    dsimp only at hmade
    omega
  refine ⟨state.made, kept_of_kept format after ?_⟩
  have hnew : givenId format (validHostId group.id) group.id state.made ∉ state.ids := by
    intro hid
    rcases givenId_cases format group.id state.made with ⟨heq, -⟩ | ⟨heq, -⟩
    · rw [heq] at hid
      rcases hinput _ hid with hread | ⟨made, -, heqMade⟩
      · exact hbefore hread
      · exact hfresh made (heqMade ▸ mem_map_of_mem hmem)
    · rw [heq] at hid
      rcases hinput _ hid with hread | ⟨made, hold, heqMade⟩
      · refine hfresh state.made ?_
        rw [map_append]
        exact mem_append_left _ hread
      · exact hapart state.made hlt made hold heqMade
  rw [checkGroup_eq]
  dsimp only
  rw [if_neg hnew]
  exact mem_append_right _ (mem_singleton_self _)

/-- The groups once references to unknown groups are cut. -/
def knownGroups (groups : List Group) : List Group :=
  let kept := (keptGroups format groups).kept
  kept.map (knownParent (kept.map Group.id))

theorem kept_start : Kept Group.id [] (⟨[], [], 0⟩ : Checked Group) := ⟨by simp, by simp, by simp⟩

variable {groups : List Group}

theorem ids_knownGroups : (knownGroups format groups).map Group.id =
    (keptGroups format groups).kept.map Group.id :=
  ids_knownParent _

theorem nodup_knownGroups (hnew : ∀ made, validHostId (format.newId made) = true) :
    ((knownGroups format groups).map Group.id).Nodup := by
  rw [ids_knownGroups]
  exact (kept_groups format hnew groups kept_start).nodup

variable {id : String}

theorem mem_knownGroups {group : Group}
    (hkept : checkedGroup id group ∈ (keptGroups format groups).kept)
    (hparent : ∀ parent ∈ group.parent,
      parent ∈ (knownGroups format groups).map Group.id ∧ parent ≠ id) :
    checkedGroup id group ∈ knownGroups format groups := by
  rw [ids_knownGroups] at hparent
  exact mem_map.mpr ⟨_, hkept, knownParent_of_known hparent⟩

theorem group_stays (hnew : ∀ made, validHostId (format.newId made) = true) {group : Group}
    (hkept : checkedGroup id group ∈ (keptGroups format groups).kept)
    (hparent : ∀ parent ∈ group.parent, (parent ∈ (knownGroups format groups).map Group.id ∧
    Climbs (parentOf (knownGroups format groups)) parent) ∧ parent ≠ id) :
    checkedGroup id group ∈ knownGroups format groups ∧
      Climbs (parentOf (knownGroups format groups)) id := by
  have hknown := mem_knownGroups format hkept fun parent hmem =>
    ⟨(hparent parent hmem).1.1, (hparent parent hmem).2⟩
  have hup := parentOf_of_nodup (nodup_knownGroups format hnew) hknown
  rw [id_checkedGroup] at hup
  refine ⟨hknown, ?_⟩
  cases htop : group.parent with
  | none => exact .top (hup.trans htop)
  | some parent => exact .up (hup.trans htop) (hparent parent htop).1.2

theorem Chain.mem {ids : List String} (h : Chain groups id ids) : id ∈ groups.map Group.id := by
  cases h with
  | top hmem _ _ => exact mem_map_of_mem hmem
  | up hmem _ _ _ => exact mem_map_of_mem hmem

theorem Chain.ne_of_parent {group : Group} {parent : String} {ids : List String}
    (h : Chain groups parent ids) (hmem : group ∈ groups)
    (hlone : (groups.map Group.id).count group.id = 1)
    (hup : group.parent = some parent) : parent ≠ group.id := by
  rintro rfl
  exact h.climbs.not_cycle (.single ((parentOf_of_count hmem hlone).trans hup))

section Fresh

variable (hnew : ∀ made, validHostId (format.newId made) = true)
  (hapart : ∀ i < groups.length, ∀ j < i, format.newId i ≠ format.newId j)
  (hfresh : ∀ made, format.newId made ∉ groups.map Group.id)

include hnew hapart hfresh

/-- A chain of groups with valid ids is still there once references to unknown
groups are cut. -/
theorem Chain.known {id : String} {ids : List String} (hchain : Chain groups id ids)
    (hvalid : ∀ id ∈ ids, validHostId id = true) :
    id ∈ (knownGroups format groups).map Group.id ∧
      Climbs (parentOf (knownGroups format groups)) id := by
  induction hchain with
  | @top group hmem hlone htop =>
    obtain ⟨made, hkept⟩ := group_kept format groups hapart hfresh hmem hlone
    rw [givenId, if_pos (hvalid group.id (mem_singleton_self _))] at hkept
    obtain ⟨hknown, hclimbs⟩ := group_stays format hnew hkept (by simp [htop])
    exact ⟨mem_map.mpr ⟨_, hknown, id_checkedGroup _ _⟩, hclimbs⟩
  | @up group parent rest hmem hlone hup hrest ih =>
    obtain ⟨made, hkept⟩ := group_kept format groups hapart hfresh hmem hlone
    rw [givenId, if_pos (hvalid group.id mem_cons_self)] at hkept
    obtain ⟨hknown, hclimbs⟩ := group_stays format hnew hkept (by
      intro other hother
      obtain rfl := Option.some.inj (hup.symm.trans hother)
      exact ⟨ih fun id hid => hvalid id (mem_cons_of_mem _ hid), hrest.ne_of_parent hmem hlone hup⟩)
    exact ⟨mem_map.mpr ⟨_, hknown, id_checkedGroup _ _⟩, hclimbs⟩

/-- A group under a chain of groups with valid ids is as it was, but for its
name and an id made where it has no valid one. -/
theorem Chain.stays {group : Group} (hmem : group ∈ groups)
    (hlone : (groups.map Group.id).count group.id = 1)
    (hparent : ∀ parent ∈ group.parent, ∃ ids, Chain groups parent ids ∧
      ∀ id ∈ ids, validHostId id = true) :
    ∃ made, checkedGroup (givenId format (validHostId group.id) group.id made) group ∈
        knownGroups format groups ∧
      Climbs (parentOf (knownGroups format groups))
        (givenId format (validHostId group.id) group.id made) := by
  obtain ⟨made, hkept⟩ := group_kept format groups hapart hfresh hmem hlone
  refine ⟨made, group_stays format hnew hkept fun parent hup => ?_⟩
  obtain ⟨ids, hchain, hvalid⟩ := hparent parent hup
  refine ⟨hchain.known format hnew hapart hfresh hvalid, ?_⟩
  rcases givenId_cases format group.id made with ⟨heq, -⟩ | ⟨heq, -⟩
  · rw [heq]
    exact hchain.ne_of_parent hmem hlone hup
  · rw [heq]
    rintro rfl
    exact hfresh made hchain.mem

end Fresh

end Stay

section Whole

variable {τ : Type} (format : HostsFormat τ) (file : HostsFile)

theorem groups_check : (file.check format).groups =
    (List.range (knownGroups format file.groups).length).foldl cutLoop
      (knownGroups format file.groups) := rfl

/-- The hosts the loop over hosts keeps. -/
def keptHosts : Checked Host :=
  file.hosts.foldl
    (checkHost format ((keptGroups format file.groups).kept.map Group.id))
    ⟨[], (keptGroups format file.groups).ids, (keptGroups format file.groups).made⟩

theorem hosts_check : (file.check format).hosts = (keptHosts format file).kept := rfl

theorem parents_knownGroups (id parent : String)
    (h : parentOf (knownGroups format file.groups) id = some parent) :
    parent ∈ (knownGroups format file.groups).map Group.id := by
  obtain ⟨group, hmem, -, hparent⟩ := parentOf_eq_some h
  obtain ⟨old, -, rfl⟩ := mem_map.mp hmem
  rw [ids_knownGroups]
  exact (parent_knownParent old parent hparent).2.1

theorem cutOf_check : CutOf (knownGroups format file.groups) (file.check format).groups ∧
    ∀ group ∈ knownGroups format file.groups,
      Climbs (parentOf (file.check format).groups) group.id := by
  rw [groups_check]
  obtain ⟨hcut, hclimbs⟩ := cutLoops (parents_knownGroups format file)
    (knownGroups format file.groups).length
  refine ⟨hcut, fun group hmem => ?_⟩
  obtain ⟨index, hlt, hat⟩ := mem_iff_getElem.mp hmem
  exact hclimbs index hlt group (by rw [List.getElem?_eq_getElem hlt, hat])

theorem kept_keptGroups (hnew : ∀ made, validHostId (format.newId made) = true)
    (groups : List Group) : Kept Group.id [] (keptGroups format groups) :=
  kept_groups format hnew groups kept_start

theorem kept_keptHosts (hnew : ∀ made, validHostId (format.newId made) = true) :
    Kept Host.id ((keptGroups format file.groups).kept.map Group.id) (keptHosts format file) := by
  have hgroups := kept_keptGroups format hnew file.groups
  exact kept_hosts format hnew _ file.hosts
    ⟨by simpa using hgroups.ids, by simpa using hgroups.nodup, by simp⟩

theorem keptHosts_checked : ∀ host ∈ (keptHosts format file).kept,
    (∀ group ∈ host.group, group ∈ (keptGroups format file.groups).kept.map Group.id) ∧
      host.port ≠ some 0 :=
  hosts_checked format _ file.hosts
    ⟨[], (keptGroups format file.groups).ids, (keptGroups format file.groups).made⟩
    (by simp)

theorem ids_check : (file.check format).groups.map Group.id =
    (keptGroups format file.groups).kept.map Group.id :=
  (cutOf_check format file).1.ids.trans (ids_knownGroups format)

theorem wellFormed_check (hnew : ∀ made, validHostId (format.newId made) = true) :
    (file.check format).WellFormed := by
  obtain ⟨hcut, hclimbs⟩ := cutOf_check format file
  have hgroups := kept_keptGroups format hnew file.groups
  have hhosts := kept_keptHosts format file hnew
  have hnodup : ((file.check format).groups.map Group.id).Nodup := by
    rw [ids_check]
    simpa using hgroups.nodup
  refine ⟨?_, ?_, ?_, ?_, ?_, ?_⟩
  · rw [HostsFile.ids, ids_check, hosts_check]
    exact hhosts.nodup
  · intro id hid
    rw [HostsFile.ids, ids_check, hosts_check] at hid
    rcases mem_append.mp hid with hid | hid
    · obtain ⟨group, hmem, rfl⟩ := mem_map.mp hid
      exact hgroups.valid group hmem
    · obtain ⟨host, hmem, rfl⟩ := mem_map.mp hid
      exact hhosts.valid host hmem
  · intro group hmem parent hparent
    rw [hcut.ids]
    have hup := parentOf_of_nodup hnodup hmem
    rcases hcut.parents group.id with hsame | hnone
    · exact parents_knownGroups format file group.id parent (hsame.symm.trans (hup.trans hparent))
    · cases hnone.symm.trans (hup.trans hparent)
  · intro group hmem
    have hid : group.id ∈ (knownGroups format file.groups).map Group.id :=
      hcut.ids ▸ mem_map_of_mem hmem
    obtain ⟨old, hold, heq⟩ := mem_map.mp hid
    exact heq ▸ hclimbs old hold
  · intro host hmem group hgroup
    rw [hosts_check] at hmem
    rw [ids_check]
    exact (keptHosts_checked format file host hmem).1 group hgroup
  · intro host hmem
    rw [hosts_check] at hmem
    exact (keptHosts_checked format file host hmem).2

theorem trim_ne_of_valid {id : String} (h : validHostId id = true) : trim id ≠ "" := by
  rw [validHostId, Bool.and_eq_true, Bool.and_eq_true] at h
  simpa using h.1.1

/-- `check` makes a library well formed, and leaves a group where it is when the
chain above it is of groups told apart, with valid ids, up to the top. -/
theorem check_well_formed (hnew : ∀ made, validHostId (format.newId made) = true)
    (hapart : ∀ i < file.groups.length, ∀ j < i, format.newId i ≠ format.newId j)
    (hfresh : ∀ made, format.newId made ∉ file.groups.map Group.id) :
    (file.check format).WellFormed ∧ (∀ id ∈ (file.check format).ids, id ≠ "") ∧
      ∀ group ∈ file.groups, (file.groups.map Group.id).count group.id = 1 →
        (∀ parent ∈ group.parent, ∃ above, Chain file.groups parent above ∧
          ∀ id ∈ above, validHostId id = true) →
        ∃ kept ∈ (file.check format).groups, kept.parent = group.parent ∧
          kept.rest = group.rest ∧
          (validHostId group.id = true → kept.id = group.id) := by
  have hwell := wellFormed_check format file hnew
  refine ⟨hwell, ?_, ?_⟩
  · rintro id hid rfl
    exact trim_ne_of_valid (hwell.valid _ hid) rfl
  · intro group hmem hlone hparent
    obtain ⟨made, hknown, hclimbs⟩ := Chain.stays format hnew hapart hfresh hmem hlone hparent
    have hid : validHostId group.id = true →
        givenId format (validHostId group.id) group.id made = group.id := by
      intro hvalid
      rw [hvalid, givenId, if_pos rfl]
    generalize givenId format (validHostId group.id) group.id made = id at hknown hclimbs hid
    rw [← id_checkedGroup id group] at hclimbs
    exact ⟨_, (cutOf_check format file).1.kept _ hknown hclimbs,
      parent_checkedGroup id group, rest_checkedGroup id group, hid⟩

end Whole

namespace HostsCheckWitness

/-- Ids made one after the other. -/
def format : HostsFormat Document :=
  { HostsSyncWitness.format with
    newId := fun count => String.ofList (List.replicate (count % 8 + 1) 'i') }

def group (id : String) (parent : Option String) : Group := ⟨id, id, parent, .empty⟩

def file (groups : List Group) : HostsFile := ⟨groups, [], [], false, .empty⟩

/-- A group without an id gets one, so the group under it names an unknown one. -/
def blank : HostsFile := file [group "" none, group "b" (some "")]

theorem group_moved :
    Chain blank.groups "b" ["b", ""] ∧ ("b", some "") ∈
        blank.groups.map (fun group => (group.id, group.parent)) ∧
      ("b", some "") ∉ (blank.check format).groups.map (fun group => (group.id, group.parent)) := by
  refine ⟨?_, by decide, by decide⟩
  exact @Chain.up _ (group "b" (some "")) _ _
    (List.mem_cons_of_mem _ List.mem_cons_self) (by decide) rfl
    (@Chain.top _ (group "" none) List.mem_cons_self (by decide) rfl)

/-- Two groups that hold each other, and one above another. -/
def nested : HostsFile :=
  file [group "x" (some "y"), group "y" (some "x"), group "a" none, group "b" (some "a")]

theorem nested_checked : (nested.check format).WellFormed ∧
    ∃ kept ∈ (nested.check format).groups, kept.parent = some "a" ∧ kept.id = "b" := by
  have hids : ∀ made < 8, validHostId (format.newId made) = true ∧
      format.newId made ∉ nested.groups.map Group.id := by decide
  have hmod : ∀ made, format.newId made = format.newId (made % 8) := by
    simp [format]
  have hchecked := check_well_formed format nested
    (fun made => hmod made ▸ (hids _ (Nat.mod_lt made (by decide))).1) (by decide)
    (fun made => hmod made ▸ (hids _ (Nat.mod_lt made (by decide))).2)
  refine ⟨hchecked.1, ?_⟩
  obtain ⟨kept, hmem, hparent, -, hid⟩ := hchecked.2.2 (group "b" (some "a"))
    (by simp [nested, file]) (by decide) (by
      intro parent hparent
      obtain rfl := Option.some.inj hparent
      exact ⟨["a"], @Chain.top _ (group "a" none) (by simp [nested, file]) (by decide)
        rfl, by decide⟩)
  exact ⟨kept, hmem, hparent, hid (by decide)⟩

end HostsCheckWitness

end Opensesh
