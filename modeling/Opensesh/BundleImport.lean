/-
The hosts and groups of a bundle with new ids, every reference following, and the groups put
so that parents come before their children.
-/
import Opensesh.HostImport

namespace Opensesh.Saved.Bundle

open List

/-- The pairs of a hash map, those written later over those before. -/
def get (entries : List (String × String)) (key : String) : Option String :=
  entries.reverse.lookup key

section

variable (newId : Nat → String) (file : HostsFile) (identities : String → Option String)
  (known : String → Bool)

/-- New ids for old ones, made one after the other. -/
def renames (start : Nat) (ids : List String) : List (String × String) :=
  ids.mapIdx fun index id => (id, newId (start + index))

def groupIds : List (String × String) := renames newId 0 (file.groups.map Group.id)

def hostIds : List (String × String) := renames newId file.groups.length (file.hosts.map Host.id)

/-- An identity as it is named here, and whether it was dropped. -/
def identity (id : Option String) : Option String × Bool :=
  match id with
  | none => (none, false)
  | some old =>
    -- None, even if the group has one.
    if old = "" then (some old, false)
    else match identities old with
      | some new => (some new, false)
      | none => if known old then (some old, false) else (none, true)

def jumps (list : Option (List String)) : Option (List String) :=
  list.map fun list => list.map fun jump => (get (hostIds newId file) jump).getD jump

/-- The id that would be made if one was missing; none is. -/
def spare : String := newId (file.groups.length + file.hosts.length)

def importGroup (group : Group) : Group :=
  { group with
    id := (get (groupIds newId file) group.id).getD (spare newId file)
    parent := group.parent.bind (get (groupIds newId file))
    defaults := { group.defaults with
      identity := (identity identities known group.defaults.identity).1
      jump := jumps newId file group.defaults.jump } }

def importHost (host : Host) : Host :=
  { host with
    id := (get (hostIds newId file) host.id).getD (spare newId file)
    group := host.group.bind (get (groupIds newId file))
    identity := (identity identities known host.identity).1
    jump := jumps newId file host.jump }

/-- How many identities are dropped. -/
def droppedIdentities : Nat :=
  (file.groups.countP fun group => (identity identities known group.defaults.identity).2) +
    file.hosts.countP fun host => (identity identities known host.identity).2

end

/-- Moves the groups whose parents are placed behind those placed before; the others stay. -/
def pass (placed : List String) (ordered : List Group) :
    List Group → List String × List Group × List Group
  | [] => (placed, ordered, [])
  | group :: rest =>
    if group.parent.all (placed.contains ·) then
      pass (group.id :: placed) (ordered ++ [group]) rest
    else
      let (placed, ordered, left) := pass placed ordered rest
      (placed, ordered, group :: left)

theorem length_pass_le (placed : List String) (ordered groups : List Group) :
    (pass placed ordered groups).2.2.length ≤ groups.length := by
  induction groups generalizing placed ordered with
  | nil => exact Nat.le_refl _
  | cons group rest ih =>
    rw [pass]
    split
    · exact Nat.le_succ_of_le (ih _ _)
    · exact Nat.succ_le_succ (ih _ _)

/-- Places groups until none are left; where none of them can be, they form a cycle or stand
below one, and all go to the top. -/
def parentsFirstFrom (placed : List String) (ordered groups : List Group) : List Group :=
  if groups.isEmpty then ordered
  else
    let after := pass placed ordered groups
    if after.2.2.length = groups.length then
      after.2.1 ++ after.2.2.map fun group => { group with parent := none }
    else parentsFirstFrom after.1 after.2.1 after.2.2
termination_by groups.length
decreasing_by exact Nat.lt_of_le_of_ne (length_pass_le placed ordered groups) ‹_›

def parentsFirst (groups : List Group) : List Group := parentsFirstFrom [] [] groups

/-- What `to_imported` gives: the library's part and the warnings. -/
def toImported (newId : Nat → String) (file : HostsFile) (identities : String → Option String)
    (known : String → Bool) : Imported × List String :=
  let dropped := droppedIdentities file identities known
  (⟨parentsFirst (file.groups.map (importGroup newId file identities known)),
      file.hosts.map (importHost newId file identities known)⟩,
    if 0 < dropped then
      [toString dropped ++ " keychain identities aren't on this computer; import the bundle with its keychain to bring them"]
    else [])

/-- Each group's parent stands before it. -/
def Ordered (groups : List Group) : Prop :=
  ∀ before group after, groups = before ++ group :: after →
    ∀ parent ∈ group.parent, parent ∈ before.map Group.id

variable {groups ordered : List Group} {placed ids : List String} {entries : List (String × String)}
  {key : String} {newId : Nat → String} {start : Nat}

theorem Ordered.append {group : Group} (h : Ordered groups)
    (hparent : ∀ parent ∈ group.parent, parent ∈ groups.map Group.id) :
    Ordered (groups ++ [group]) := by
  intro before other after heq parent hup
  rcases eq_nil_or_concat after with rfl | ⟨front, last, rfl⟩
  · obtain ⟨rfl, hother⟩ := append_inj' heq rfl
    obtain rfl := (List.cons.inj hother).1
    exact hparent parent hup
  · have hshape : groups ++ [group] = (before ++ other :: front) ++ [last] := by
      rw [heq, concat_eq_append, List.append_assoc, cons_append]
    obtain ⟨rfl, -⟩ := append_inj' hshape rfl
    exact h before other front rfl parent hup

theorem Ordered.append_tops {tops : List Group} (h : Ordered groups)
    (htops : ∀ group ∈ tops, group.parent = none) : Ordered (groups ++ tops) := by
  induction tops generalizing groups with
  | nil => rwa [List.append_nil]
  | cons group rest ih =>
    rw [append_cons]
    refine ih (h.append fun parent hup => ?_) fun other hother =>
      htops other (mem_cons_of_mem _ hother)
    rw [htops group mem_cons_self] at hup
    cases hup

/-- What is placed during a pass: the ids of the groups in their order. -/
structure Placed (placed : List String) (ordered : List Group) : Prop where
  ids : ∀ id, id ∈ placed ↔ id ∈ ordered.map Group.id
  ordered : Ordered ordered

theorem Placed.add {group : Group} (h : Placed placed ordered)
    (hready : group.parent.all (placed.contains ·) = true) :
    Placed (group.id :: placed) (ordered ++ [group]) := by
  refine ⟨fun id => ?_, h.ordered.append fun parent hup => ?_⟩
  · rw [mem_cons, h.ids, map_append, mem_append, or_comm]
    simp
  · rw [Option.mem_def.mp hup] at hready
    exact (h.ids parent).mp (by simpa using hready)

theorem Placed.pass {placed : List String} {ordered : List Group} (h : Placed placed ordered)
    (groups : List Group) :
    Placed (pass placed ordered groups).1 (pass placed ordered groups).2.1 := by
  induction groups generalizing placed ordered with
  | nil => exact h
  | cons group rest ih =>
    rw [Bundle.pass]
    split
    · rename_i hready
      exact ih (h.add hready)
    · exact ih h

theorem perm_pass (placed : List String) (ordered groups : List Group) :
    ((pass placed ordered groups).2.1 ++ (pass placed ordered groups).2.2).Perm
      (ordered ++ groups) := by
  induction groups generalizing placed ordered with
  | nil => exact List.Perm.refl _
  | cons group rest ih =>
    rw [pass]
    split
    · have hgroup := ih (group.id :: placed) (ordered ++ [group])
      rwa [← append_cons] at hgroup
    · refine perm_middle.trans ?_
      exact ((ih placed ordered).cons group).trans perm_middle.symm

/-- A group with its parent, or at the top. -/
def Cut (old new : Group) : Prop := new = old ∨ new = { old with parent := none }

/-- Whatever the parents are, the groups are all there, each once, with their parents or at the
top, and parents come first. -/
theorem parentsFirstFrom_keeps (h : Placed placed ordered) (groups : List Group) :
    Ordered (parentsFirstFrom placed ordered groups) ∧
      ∃ all, all.Perm (ordered ++ groups) ∧
        List.Forall₂ Cut all (parentsFirstFrom placed ordered groups) := by
  have hsame : ∀ list : List Group, List.Forall₂ Cut list list := fun list =>
    forall₂_same.mpr fun group _ => Or.inl rfl
  fun_induction parentsFirstFrom placed ordered groups with
  | case1 placed ordered groups hempty =>
    rw [List.isEmpty_iff.mp hempty, List.append_nil]
    exact ⟨h.ordered, ordered, List.Perm.refl _, hsame _⟩
  | case2 placed ordered groups hsome after hstuck =>
    refine ⟨(h.pass groups).ordered.append_tops fun group hmem => ?_,
      after.2.1 ++ after.2.2, perm_pass placed ordered groups,
      rel_append (hsame _) ?_⟩
    · obtain ⟨old, -, rfl⟩ := mem_map.mp hmem
      rfl
    · exact forall₂_map_right_iff.mpr (forall₂_same.mpr fun group _ => Or.inr rfl)
  | case3 placed ordered groups hsome after hmoved ih =>
    obtain ⟨hordered, all, hperm, hcut⟩ := ih (h.pass groups)
    exact ⟨hordered, all, hperm.trans (perm_pass placed ordered groups), hcut⟩

theorem pass_shrinks (ordered : List Group)
    (h : ∃ group ∈ groups, group.parent.all (placed.contains ·) = true) :
    (pass placed ordered groups).2.2.length < groups.length := by
  obtain ⟨ready, hmem, hready⟩ := h
  induction groups generalizing placed ordered with
  | nil => cases hmem
  | cons group rest ih =>
    rw [pass]
    split
    · exact Nat.lt_succ_of_le (length_pass_le _ _ _)
    · rename_i hnot
      rcases mem_cons.mp hmem with rfl | hrest
      · exact absurd hready hnot
      · exact Nat.succ_lt_succ (ih ordered hrest hready)

/-- Groups whose parents are among them, up to the top. -/
structure Rooted (parent : String → Option String) (groups : List Group) : Prop where
  parents : ∀ group ∈ groups, parent group.id = group.parent
  known : ∀ group ∈ groups, ∀ up ∈ group.parent, up ∈ groups.map Group.id
  climbs : ∀ group ∈ groups, Climbs parent group.id

theorem Rooted.perm {parent : String → Option String} {others : List Group}
    (h : Rooted parent groups) (hperm : others.Perm groups) : Rooted parent others :=
  ⟨fun group hmem => h.parents group (hperm.subset hmem),
    fun group hmem up hup => (hperm.map Group.id).symm.subset
      (h.known group (hperm.subset hmem) up hup),
    fun group hmem => h.climbs group (hperm.subset hmem)⟩

theorem Rooted.exists_ready {parent : String → Option String} {placed : List String}
    {ordered groups : List Group} (h : Rooted parent (ordered ++ groups))
    (hplaced : Placed placed ordered) (hsome : groups ≠ []) :
    ∃ group ∈ groups, group.parent.all (placed.contains ·) = true := by
  obtain ⟨first, rest, rfl⟩ := exists_cons_of_ne_nil hsome
  have hclimb := h.climbs first (mem_append_right _ mem_cons_self)
  obtain ⟨id, hid⟩ : ∃ id, id = first.id := ⟨_, rfl⟩
  have hstart : ∃ group ∈ first :: rest, group.id = id := ⟨first, mem_cons_self, hid.symm⟩
  rw [← hid] at hclimb
  clear hid
  induction hclimb with
  | top htop =>
    obtain ⟨group, hmem, rfl⟩ := hstart
    rw [h.parents group (mem_append_right _ hmem)] at htop
    exact ⟨group, hmem, by rw [htop]; rfl⟩
  | @up id up hup _ ih =>
    obtain ⟨group, hmem, rfl⟩ := hstart
    rw [h.parents group (mem_append_right _ hmem)] at hup
    have hknown := h.known group (mem_append_right _ hmem) up hup
    rw [map_append, mem_append] at hknown
    rcases hknown with hdone | hleft
    · refine ⟨group, hmem, ?_⟩
      rw [hup]
      simpa using (hplaced.ids up).mpr hdone
    · obtain ⟨next, hnext, heq⟩ := mem_map.mp hleft
      exact ih ⟨next, hnext, heq⟩

theorem Rooted.parentsFirstFrom {parent : String → Option String} {placed : List String}
    {ordered groups : List Group} (h : Rooted parent (ordered ++ groups))
    (hplaced : Placed placed ordered) :
    (parentsFirstFrom placed ordered groups).Perm (ordered ++ groups) := by
  fun_induction Bundle.parentsFirstFrom placed ordered groups with
  | case1 placed ordered groups hempty =>
    rw [List.isEmpty_iff.mp hempty, List.append_nil]
  | case2 placed ordered groups hsome after hstuck =>
    have hready := h.exists_ready hplaced fun hnil => hsome (List.isEmpty_iff.mpr hnil)
    exact absurd hstuck (Nat.ne_of_lt (pass_shrinks ordered hready))
  | case3 placed ordered groups hsome after hmoved ih =>
    have hperm := perm_pass placed ordered groups
    exact (ih (h.perm hperm) (hplaced.pass groups)).trans hperm

theorem get_of_nodup {value : String} (hnodup : (entries.map Prod.fst).Nodup)
    (hmem : (key, value) ∈ entries) : get entries key = some value := by
  rw [get, Opensesh.lookup_eq_some_iff_mem]
  · exact mem_reverse.mpr hmem
  · rwa [map_reverse, nodup_reverse]

theorem get_eq_none (h : key ∉ entries.map Prod.fst) : get entries key = none := by
  rw [get, lookup_eq_none_iff]
  intro entry hentry
  have hne : key ≠ entry.1 := fun heq => h (heq ▸ mem_map_of_mem (mem_reverse.mp hentry))
  simpa using hne

theorem fst_renames (newId : Nat → String) (start : Nat) (ids : List String) :
    (renames newId start ids).map Prod.fst = ids := by
  apply ext_getElem
  · simp [renames]
  · intro index hleft hright
    simp [renames]

theorem get_renames (hnodup : ids.Nodup) {index : Nat} (hindex : index < ids.length) :
    get (renames newId start ids) ids[index] = some (newId (start + index)) := by
  refine get_of_nodup ((fst_renames newId start ids).symm ▸ hnodup) ?_
  rw [renames, mem_mapIdx]
  exact ⟨index, hindex, rfl⟩

theorem map_get_renames (newId : Nat → String) (start : Nat) (spare : String) (hnodup : ids.Nodup) :
    ids.map (fun id => (get (renames newId start ids) id).getD spare) =
      (List.range ids.length).map fun index => newId (start + index) := by
  apply ext_getElem
  · simp
  · intro index hleft hright
    rw [length_map] at hleft
    rw [getElem_map, get_renames hnodup hleft, Option.getD_some, getElem_map, getElem_range]

theorem get_renames_of_mem (hnodup : ids.Nodup) {id : String} (hid : id ∈ ids) (spare : String) :
    get (renames newId start ids) id = some ((get (renames newId start ids) id).getD spare) := by
  obtain ⟨index, hindex, rfl⟩ := getElem_of_mem hid
  rw [get_renames hnodup hindex, Option.getD_some]

section

variable (newId : Nat → String) (file : HostsFile) (identities : String → Option String)
  (known : String → Bool)

/-- What a group's id becomes. -/
def groupName (id : String) : String := (get (groupIds newId file) id).getD (spare newId file)

def hostName (id : String) : String := (get (hostIds newId file) id).getD (spare newId file)

/-- The identity here for one of the bundle's, if there is one. -/
def identityHere (old : String) : Option String :=
  if old = "" then some old
  else (identities old).or (if known old then some old else none)

/-- Jumps by a host's id follow it; others are addresses or names. -/
def jumpHere (jump : String) : String :=
  if jump ∈ file.hosts.map Host.id then hostName newId file jump else jump

/-- A group of the bundle as it is named here. -/
def renamedGroup (group : Group) : Group :=
  { group with
    id := groupName newId file group.id
    parent := group.parent.map (groupName newId file)
    defaults := { group.defaults with
      identity := group.defaults.identity.bind (identityHere identities known)
      jump := group.defaults.jump.map (List.map (jumpHere newId file)) } }

def renamedHost (host : Host) : Host :=
  { host with
    id := hostName newId file host.id
    group := host.group.map (groupName newId file)
    identity := host.identity.bind (identityHere identities known)
    jump := host.jump.map (List.map (jumpHere newId file)) }

/-- The identities of the groups and hosts that are not known here. -/
def lostIdentities : List String :=
  (file.groups.filterMap (fun group => group.defaults.identity) ++
    file.hosts.filterMap Host.identity).filter fun old => (identityHere identities known old).isNone

theorem identity_eq (id : Option String) :
    (identity identities known id).1 = id.bind (identityHere identities known) ∧
      (identity identities known id).2 =
        id.any fun old => (identityHere identities known old).isNone := by
  cases id with
  | none => exact ⟨rfl, rfl⟩
  | some old =>
    by_cases hempty : old = ""
    · simp [identity, identityHere, hempty]
    · cases hhere : identities old <;> cases hknown : known old <;>
        simp [identity, identityHere, hempty, hhere, hknown]

theorem countP_identity {α : Type} (items : List α) (identityOf : α → Option String) :
    items.countP (fun item => (identity identities known (identityOf item)).2) =
      ((items.filterMap identityOf).filter fun old =>
        (identityHere identities known old).isNone).length := by
  induction items with
  | nil => rfl
  | cons item rest ih =>
    rw [countP_cons, ih, (identity_eq identities known _).2, filterMap_cons]
    cases identityOf item with
    | none => rfl
    | some old =>
      cases hhere : (identityHere identities known old).isNone <;> simp [hhere]

theorem droppedIdentities_eq : droppedIdentities file identities known =
    (lostIdentities file identities known).length := by
  rw [droppedIdentities, lostIdentities, filter_append, length_append,
    countP_identity identities known file.groups fun group => group.defaults.identity,
    countP_identity identities known file.hosts Host.identity]

variable {file}

theorem jumps_eq (hhosts : (file.hosts.map Host.id).Nodup) (list : Option (List String)) :
    jumps newId file list = list.map (List.map (jumpHere newId file)) := by
  rw [jumps]
  congr 1
  funext list
  refine map_congr_left fun jump _ => ?_
  rw [jumpHere]
  split
  · rename_i hmem
    exact (congrArg (Option.getD · jump)
      (get_renames_of_mem hhosts hmem (spare newId file))).trans rfl
  · rename_i hnot
    rw [hostIds, get_eq_none (by rwa [fst_renames]), Option.getD_none]

theorem groupRef_eq (hgroups : (file.groups.map Group.id).Nodup) {reference : Option String}
    (hknown : ∀ id ∈ reference, id ∈ file.groups.map Group.id) :
    reference.bind (get (groupIds newId file)) = reference.map (groupName newId file) := by
  cases reference with
  | none => rfl
  | some id => exact get_renames_of_mem hgroups (hknown id rfl) _

end

theorem climbs_renamed {parent parent' : String → Option String} {name : String → String}
    {ids : List String} (hparent : ∀ id ∈ ids, parent' (name id) = (parent id).map name)
    (hclosed : ∀ id ∈ ids, ∀ up ∈ parent id, up ∈ ids) {id : String} (hid : id ∈ ids)
    (hclimb : Climbs parent id) : Climbs parent' (name id) := by
  induction hclimb with
  | top htop =>
    refine Climbs.top ?_
    rw [hparent _ hid, htop, Option.map_none]
  | @up id up hup _ ih =>
    refine Climbs.up ?_ (ih (hclosed id hid up hup))
    rw [hparent id hid, hup, Option.map_some]

section

variable {newId : Nat → String} {file : HostsFile} {identities : String → Option String}
  {known : String → Bool}

theorem map_checked_groups (file : HostsFile) :
    file.checked.groups.map Opensesh.Group.id = file.groups.map Group.id := by
  simp only [HostsFile.checked, map_map]
  rfl

theorem map_checked_hosts (file : HostsFile) :
    file.checked.hosts.map Opensesh.Host.id = file.hosts.map Host.id := by
  simp only [HostsFile.checked, map_map]
  rfl

theorem nodup_ids (h : file.checked.WellFormed) :
    (file.groups.map Group.id).Nodup ∧ (file.hosts.map Host.id).Nodup := by
  have hnodup := h.nodup
  rw [Opensesh.HostsFile.ids, map_checked_groups, map_checked_hosts] at hnodup
  exact ⟨hnodup.of_append_left, hnodup.of_append_right⟩

theorem importGroup_eq (h : file.checked.WellFormed) {group : Group} (hmem : group ∈ file.groups) :
    importGroup newId file identities known group =
      renamedGroup newId file identities known group := by
  have hparent : ∀ up ∈ group.parent, up ∈ file.groups.map Group.id := by
    rw [← map_checked_groups]
    exact h.parents group.plain (mem_map_of_mem hmem)
  rw [importGroup, renamedGroup, groupRef_eq newId (nodup_ids h).1 hparent,
    jumps_eq newId (nodup_ids h).2, (identity_eq identities known _).1]
  rfl

theorem importHost_eq (h : file.checked.WellFormed) {host : Host} (hmem : host ∈ file.hosts) :
    importHost newId file identities known host = renamedHost newId file identities known host := by
  have hgroup : ∀ up ∈ host.group, up ∈ file.groups.map Group.id := by
    rw [← map_checked_groups]
    exact h.hostGroups host.plain (mem_map_of_mem hmem)
  rw [importHost, renamedHost, groupRef_eq newId (nodup_ids h).1 hgroup,
    jumps_eq newId (nodup_ids h).2, (identity_eq identities known _).1]
  rfl

theorem new_ids (h : file.checked.WellFormed) :
    file.groups.map (fun group => groupName newId file group.id) ++
        file.hosts.map (fun host => hostName newId file host.id) =
      (List.range (file.groups.length + file.hosts.length)).map newId := by
  have hgroups := map_get_renames newId 0 (spare newId file) (nodup_ids h).1
  have hhosts := map_get_renames newId file.groups.length (spare newId file) (nodup_ids h).2
  rw [map_map, length_map] at hgroups hhosts
  rw [range_add, map_append, map_map]
  simp only [Nat.zero_add] at hgroups
  exact congrArg₂ (· ++ ·) hgroups hhosts

theorem nodup_new_ids (h : file.checked.WellFormed) (hnew : Function.Injective newId) :
    (file.groups.map (fun group => groupName newId file group.id) ++
      file.hosts.map fun host => hostName newId file host.id).Nodup := by
  rw [new_ids h]
  exact nodup_range.map hnew

theorem rooted_renamed (h : file.checked.WellFormed) (hnew : Function.Injective newId) :
    ∃ parent, Rooted parent (file.groups.map (renamedGroup newId file identities known)) := by
  let renamed := file.groups.map (renamedGroup newId file identities known)
  have hids : renamed.map Group.id = file.groups.map fun group =>
      groupName newId file group.id := by
    simp only [renamed, map_map]
    rfl
  have hnodup : ((renamed.map Group.plain).map Opensesh.Group.id).Nodup := by
    rw [map_map]
    exact hids ▸ (nodup_new_ids h hnew).of_append_left
  have hparents : ∀ group ∈ renamed,
      parentOf (renamed.map Group.plain) group.id = group.parent := fun group hmem =>
    parentOf_of_nodup hnodup (mem_map_of_mem hmem)
  refine ⟨parentOf (renamed.map Group.plain), hparents, ?_, ?_⟩
  · intro group hmem up hup
    obtain ⟨old, hold, rfl⟩ := mem_map.mp hmem
    obtain ⟨oldUp, hoptional, rfl⟩ := Option.map_eq_some_iff.mp hup
    have hknown := h.parents old.plain (mem_map_of_mem hold) oldUp hoptional
    rw [map_checked_groups] at hknown
    obtain ⟨above, habove, rfl⟩ := mem_map.mp hknown
    rw [hids]
    exact mem_map.mpr ⟨above, habove, rfl⟩
  · intro group hmem
    obtain ⟨old, hold, rfl⟩ := mem_map.mp hmem
    have hplain : ((file.checked.groups).map Opensesh.Group.id).Nodup := by
      rw [map_checked_groups]
      exact (nodup_ids h).1
    have hup : ∀ other ∈ file.groups, parentOf file.checked.groups other.id = other.parent :=
      fun other hother => parentOf_of_nodup hplain (mem_map_of_mem hother)
    refine @climbs_renamed (parentOf file.checked.groups) _ (groupName newId file)
      (file.groups.map Group.id) ?_ ?_ old.id (mem_map_of_mem hold)
      (h.climbs old.plain (mem_map_of_mem hold))
    · intro id hid
      obtain ⟨other, hother, rfl⟩ := mem_map.mp hid
      rw [hup other hother]
      exact hparents _ (mem_map_of_mem hother)
    · intro id hid up hparent
      obtain ⟨other, hother, rfl⟩ := mem_map.mp hid
      rw [hup other hother] at hparent
      rw [← map_checked_groups]
      exact h.parents other.plain (mem_map_of_mem hother) up hparent

/-- A bundle's library comes in with new ids that are all different, each group and host once,
and every group, parent and jump by id following its own; parents come first. Identities are
mapped, kept or dropped, and those dropped are counted. Putting parents first loses no group
whatever its parent is. -/
theorem to_imported_renames (newId : Nat → String) (file : HostsFile)
    (identities : String → Option String) (known : String → Bool)
    (hnew : Function.Injective newId) (hfresh : ∀ made, newId made ∉ file.checked.ids)
    (hchecked : file.checked.WellFormed) :
    (toImported newId file identities known).1.groups.Perm
        (file.groups.map (renamedGroup newId file identities known)) ∧
      (toImported newId file identities known).1.hosts =
        file.hosts.map (renamedHost newId file identities known) ∧
      (file.groups.map (fun group => groupName newId file group.id) ++
        file.hosts.map fun host => hostName newId file host.id).Nodup ∧
      (∀ id ∈ file.groups.map (fun group => groupName newId file group.id) ++
        file.hosts.map (fun host => hostName newId file host.id), id ∉ file.checked.ids) ∧
      Ordered (toImported newId file identities known).1.groups ∧
      (toImported newId file identities known).2 =
        (if lostIdentities file identities known = [] then []
        else [toString (lostIdentities file identities known).length ++
          " keychain identities aren't on this computer; import the bundle with its keychain to bring them"]) ∧
      ∀ groups : List Group, Ordered (parentsFirst groups) ∧
        ∃ all, all.Perm groups ∧ List.Forall₂ Cut all (parentsFirst groups) := by
  have hstart : Placed [] [] := by
    refine ⟨fun id => Iff.rfl, fun before group after heq => ?_⟩
    cases before <;> cases heq
  have hgroups : file.groups.map (importGroup newId file identities known) =
      file.groups.map (renamedGroup newId file identities known) :=
    List.map_congr_left fun group hmem => importGroup_eq hchecked hmem
  refine ⟨?_, ?_, ?_, ?_, ?_, ?_, ?_⟩
  · obtain ⟨parent, hrooted⟩ := @rooted_renamed newId file identities known hchecked hnew
    rw [toImported, hgroups]
    exact @Rooted.parentsFirstFrom parent [] [] _ hrooted hstart
  · exact List.map_congr_left fun host hmem => importHost_eq hchecked hmem
  · exact nodup_new_ids hchecked hnew
  · intro id hid
    rw [new_ids hchecked] at hid
    obtain ⟨made, -, rfl⟩ := List.mem_map.mp hid
    exact hfresh made
  · exact (parentsFirstFrom_keeps hstart _).1
  · simp only [toImported, droppedIdentities_eq]
    cases lostIdentities file identities known <;> rfl
  · exact fun groups => parentsFirstFrom_keeps hstart groups

end

namespace Witness

open ImportWitness (made bastion)
open ResolveWitness (bare)

/-- A group in another, a bastion in it and a host behind that. -/
def library : HostsFile :=
  ⟨[{ Group.new "db" "Databases" with parent := some "top" }, .new "top" "Servers"],
    [{ bastion "b" with group := some "db", identity := some "key" },
      { bare with id := "h", jump := some ["b", "me@edge"] }], .empty⟩

theorem made_injective : Function.Injective made := by
  intro count other heq
  have hlength := congrArg (fun text => text.toList.length) heq
  simpa [made] using hlength

theorem made_fresh (count : Nat) : made count ∉ library.checked.ids := by
  intro hmem
  have hfirst : ∀ id ∈ library.checked.ids, id.toList.head? ≠ some 'n' := by decide
  exact hfirst _ hmem (by simp [made, replicate_succ])

theorem library_checked : library.checked.WellFormed := by
  have htop : Climbs (parentOf library.checked.groups) "top" := .top (by decide)
  refine ⟨by decide, by decide, by decide, ?_, by decide, by decide⟩
  intro group hmem
  have hid : group.id = "db" ∨ group.id = "top" := by
    simp only [HostsFile.checked, library, map_cons, map_nil, mem_cons,
      not_mem_nil, or_false] at hmem
    rcases hmem with rfl | rfl
    · exact Or.inl rfl
    · exact Or.inr rfl
  rcases hid with hid | hid
  · rw [hid]
    exact .up (by decide) htop
  · rwa [hid]

theorem library_imported :
    (toImported made library (fun _ => none) fun _ => false).1.groups.Perm
        (library.groups.map (renamedGroup made library (fun _ => none) fun _ => false)) ∧
      (toImported made library (fun _ => none) fun _ => false).1.hosts =
        library.hosts.map (renamedHost made library (fun _ => none) fun _ => false) ∧
      lostIdentities library (fun _ => none) (fun _ => false) = ["key"] := by
  obtain ⟨hgroups, hhosts, -⟩ := to_imported_renames made library (fun _ => none)
    (fun _ => false) made_injective made_fresh library_checked
  exact ⟨hgroups, hhosts, by decide⟩

end Witness

end Opensesh.Saved.Bundle
