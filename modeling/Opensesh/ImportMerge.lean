/-
Imports merged: what two importers read as one, with the folders of the second joined to those of
the first by their paths.
-/
import Opensesh.HostsFile
import Opensesh.Keyed
import Mathlib.Data.List.Induction

namespace Opensesh.ImportMerge

open List

/-- What an importer read: groups as folders, and hosts in them. -/
structure Imported where
  groups : List Group
  hosts : List Host
  warnings : List String

/-- The names of the folders above, from the inside. -/
def namesUp (groups : List Group) : Nat → Option String → List String
  | 0, _ => []
  | steps + 1, parent =>
    match parent.bind fun id => findKey Group.id id groups with
    | none => []
    | some up => up.name :: namesUp groups steps up.parent

/-- The folder names from the top down to a group. -/
def Imported.pathOf (imported : Imported) (group : Group) : List String :=
  (group.name :: namesUp imported.groups imported.groups.length group.parent).reverse

/-- What is in a map under a key; what was put there last is in front. -/
def valueAt {K V : Type} [DecidableEq K] (map : List (K × V)) (key : K) : Option V :=
  (findKey Prod.fst key map).map Prod.snd

/-- Groups with their ids by folder path, and how many ids were made. -/
structure Folders where
  groups : List Group
  byPath : List (List String × String)
  made : Nat

def fromGroups (paths : List (String × List String)) (byPath : List (List String × String)) :
    List Group → List (List String × String)
  | [] => byPath
  | group :: rest =>
    let path := (group.parent.bind (valueAt paths)).getD [] ++ [group.name]
    fromGroups ((group.id, path) :: paths) ((path, group.id) :: byPath) rest

section

variable (newId : Nat → String)

/-- The group of a path, made when it is missing, with those above it. -/
def Folders.group (folders : Folders) (above : List String) (parent : Option String) :
    List String → Folders × Option String
  | [] => (folders, parent)
  | name :: rest =>
    match valueAt folders.byPath (above ++ [name]) with
    | some id => folders.group (above ++ [name]) (some id) rest
    | none =>
      let id := newId folders.made
      Folders.group
        ⟨folders.groups ++ [⟨id, name, parent, .empty⟩], (above ++ [name], id) :: folders.byPath,
          folders.made + 1⟩ (above ++ [name]) (some id) rest

/-- Joins one group of the other import, and keeps its new id. -/
def joinGroup (other : Imported) (state : Folders × List (String × String)) (group : Group) :
    Folders × List (String × String) :=
  let found := state.1.group newId [] none (other.pathOf group)
  (found.1, found.2.elim state.2 fun id => (group.id, id) :: state.2)

/-- A host of the other import, in the group its own became. -/
def rejoin (renamed : List (String × String)) (host : Host) : Host :=
  { host with group := host.group.bind (valueAt renamed) }

/-- Adds what another import read, its folders by their paths. -/
def Imported.extend (imported other : Imported) : Imported :=
  let joined := other.groups.foldl (joinGroup newId other)
    (⟨imported.groups, fromGroups [] [] imported.groups, 0⟩, [])
  { groups := joined.1.groups
    hosts := imported.hosts ++ other.hosts.map (rejoin joined.2)
    warnings := imported.warnings ++ other.warnings }

end

def ParentsFirst (known : List String) : List Group → Prop
  | [] => True
  | group :: rest =>
    (∀ parent ∈ group.parent, parent ∈ known) ∧ ParentsFirst (known ++ [group.id]) rest

/-- Groups with ids of their own, parents before their children. -/
def Sound (groups : List Group) : Prop := (groups.map Group.id).Nodup ∧ ParentsFirst [] groups

/-- The folder path of the group with an id. -/
inductive Path (groups : List Group) : String → List String → Prop
  | top {group : Group} (hmem : group ∈ groups) (htop : group.parent = none) :
      Path groups group.id [group.name]
  | inside {group : Group} {up : String} {path : List String} (hmem : group ∈ groups)
      (hup : group.parent = some up) (h : Path groups up path) :
      Path groups group.id (path ++ [group.name])

section Paths

variable {groups front : List Group} {group : Group} {id : String} {path other : List String}

theorem parentsFirst_snoc {known : List String} : ParentsFirst known (front ++ [group]) ↔
    ParentsFirst known front ∧ ∀ parent ∈ group.parent, parent ∈ known ++ front.map Group.id := by
  induction front generalizing known with
  | nil => simp [ParentsFirst]
  | cons first front ih => simp [ParentsFirst, ih, and_assoc]

theorem Sound.before (h : Sound (front ++ [group])) : Sound front ∧
    group.id ∉ front.map Group.id ∧ ∀ parent ∈ group.parent, parent ∈ front.map Group.id := by
  obtain ⟨hids, hparents⟩ := h
  rw [map_append, nodup_append'] at hids
  obtain ⟨hfront, hparent⟩ := parentsFirst_snoc.mp hparents
  exact ⟨⟨hids.1, hfront⟩, fun hmem => hids.2.2 hmem (mem_singleton_self _), hparent⟩

theorem Path.mono (h : Path front id path) (hsubset : front ⊆ groups) : Path groups id path := by
  induction h with
  | top hmem htop => exact .top (hsubset hmem) htop
  | inside hmem hup h ih => exact .inside (hsubset hmem) hup ih

theorem Path.mem (h : Path groups id path) : ∃ group ∈ groups, group.id = id := by
  cases h with
  | top hmem htop => exact ⟨_, hmem, rfl⟩
  | inside hmem hup h => exact ⟨_, hmem, rfl⟩

theorem Sound.path_unique (hsound : Sound groups) (h : Path groups id path)
    (hother : Path groups id other) : path = other := by
  have hone : ∀ {left right : Group}, left ∈ groups → right ∈ groups → left.id = right.id →
      left = right := fun hleft hright => inj_on_of_nodup_map hsound.1 hleft hright
  induction h generalizing other with
  | @top group hmem htop =>
    generalize hid : group.id = id at hother
    cases hother with
    | top hmem' htop' => rw [hone hmem hmem' hid]
    | inside hmem' hup' h' =>
      rw [hone hmem hmem' hid, hup'] at htop
      cases htop
  | @inside group up path hmem hup h ih =>
    generalize hid : group.id = id at hother
    cases hother with
    | top hmem' htop' =>
      rw [hone hmem hmem' hid, htop'] at hup
      cases hup
    | inside hmem' hup' h' =>
      obtain rfl := hone hmem hmem' hid
      obtain rfl := Option.some.inj (hup.symm.trans hup')
      rw [ih h']

theorem Sound.exists_path (h : Sound groups) (hmem : group ∈ groups) :
    ∃ path, Path groups group.id path ∧ path.length ≤ groups.length := by
  induction groups using List.reverseRecOn generalizing group with
  | nil => cases hmem
  | append_singleton front last ih =>
    obtain ⟨hfront, -, hparent⟩ := h.before
    rw [length_append, length_singleton]
    rcases mem_append.mp hmem with hold | hlast
    · obtain ⟨path, hpath, hlength⟩ := ih hfront hold
      exact ⟨path, hpath.mono (subset_append_left _ _), Nat.le_succ_of_le hlength⟩
    · obtain rfl := mem_singleton.mp hlast
      cases hup : group.parent with
      | none => exact ⟨_, .top hmem hup, Nat.le_add_left _ _⟩
      | some up =>
        obtain ⟨above, habove, rfl⟩ := mem_map.mp (hparent up hup)
        obtain ⟨path, hpath, hlength⟩ := ih hfront habove
        refine ⟨_, .inside hmem hup (hpath.mono (subset_append_left _ _)), ?_⟩
        rw [length_append, length_singleton]
        exact Nat.add_le_add_right hlength 1

theorem Sound.namesUp (h : Sound groups) (hpath : Path groups id path) {steps : Nat}
    (hsteps : path.length ≤ steps) : namesUp groups steps (some id) = path.reverse := by
  have hfind : ∀ {group : Group}, group ∈ groups → findKey Group.id group.id groups = some group :=
    fun hmem => (findKey_eq_some_iff h.1).mpr ⟨hmem, rfl⟩
  induction hpath generalizing steps with
  | @top group hmem htop =>
    obtain ⟨steps, rfl⟩ := Nat.exists_eq_add_of_le' hsteps
    rw [length_singleton, ImportMerge.namesUp, Option.bind_some, hfind hmem]
    dsimp only
    rw [htop]
    cases steps <;> rfl
  | @inside group up path hmem hup hpath ih =>
    rw [length_append, length_singleton] at hsteps
    obtain ⟨steps, rfl⟩ := Nat.exists_eq_add_of_lt hsteps
    rw [ImportMerge.namesUp, Option.bind_some, hfind hmem]
    dsimp only
    rw [hup, ih (Nat.le_add_right _ _), reverse_append]
    rfl

theorem Sound.pathOf {imported : Imported} (h : Sound imported.groups)
    (hmem : group ∈ imported.groups) :
    Path imported.groups group.id (imported.pathOf group) := by
  obtain ⟨path, hpath, hlength⟩ := h.exists_path hmem
  have hnames := h.namesUp hpath (Nat.le_succ_of_le hlength)
  rw [ImportMerge.namesUp, Option.bind_some, (findKey_eq_some_iff h.1).mpr ⟨hmem, rfl⟩] at hnames
  dsimp only at hnames
  rw [Imported.pathOf, hnames, reverse_reverse]
  exact hpath

theorem Sound.left {rest : List Group} (h : Sound (front ++ rest)) : Sound front := by
  induction rest using List.reverseRecOn with
  | nil => rwa [List.append_nil] at h
  | append_singleton rest last ih =>
    rw [← List.append_assoc] at h
    exact ih h.before.1

/-- A path of the groups before the last one, or that one's. -/
theorem Sound.path_before (h : Sound (front ++ [group])) (hpath : Path (front ++ [group]) id path) :
    id = group.id ∨ Path front id path := by
  obtain ⟨other, hmem, rfl⟩ := hpath.mem
  rcases mem_append.mp hmem with hold | hlast
  · obtain ⟨known, hknown, -⟩ := h.before.1.exists_path hold
    have hsame := h.path_unique hpath (hknown.mono (subset_append_left _ _))
    exact .inr (hsame ▸ hknown)
  · exact .inl (by rw [mem_singleton.mp hlast])

end Paths

/-- A map that knows every path, each as that of its group. -/
def Knows (groups : List Group) (byPath : List (List String × String)) : Prop :=
  (∀ path id, valueAt byPath path = some id → Path groups id path) ∧
    ∀ id path, Path groups id path → valueAt byPath path ≠ none

theorem valueAt_cons {K V : Type} [DecidableEq K] (key other : K) (value : V)
    (map : List (K × V)) :
    valueAt ((key, value) :: map) other = if key = other then some value else valueAt map other := by
  rw [valueAt, findKey_cons]
  split <;> rfl

theorem Knows.cons {front : List Group} {group : Group} {path : List String}
    {byPath : List (List String × String)} (h : Knows front byPath)
    (hsound : Sound (front ++ [group])) (hpath : Path (front ++ [group]) group.id path) :
    Knows (front ++ [group]) ((path, group.id) :: byPath) := by
  refine ⟨fun other id hother => ?_, fun id other hother => ?_⟩
  · rw [valueAt_cons] at hother
    split at hother
    · rename_i heq
      rw [← heq, ← Option.some.inj hother]
      exact hpath
    · exact (h.1 other id hother).mono (subset_append_left _ _)
  · rw [valueAt_cons]
    split
    · exact nofun
    · rename_i hne
      rcases hsound.path_before hother with rfl | hold
      · exact absurd (hsound.path_unique hpath hother) hne
      · exact h.2 id other hold

theorem knows_fromGroups {front rest : List Group} {paths : List (String × List String)}
    {byPath : List (List String × String)} (hsound : Sound (front ++ rest))
    (hpaths : ∀ group ∈ front, ∃ path, valueAt paths group.id = some path ∧ Path front group.id path)
    (hknows : Knows front byPath) : Knows (front ++ rest) (fromGroups paths byPath rest) := by
  induction rest generalizing front paths byPath with
  | nil => rwa [List.append_nil]
  | cons group rest ih =>
    rw [append_cons] at hsound ⊢
    have hlast := hsound.left
    have hmem : group ∈ front ++ [group] := mem_append_right _ (mem_singleton_self _)
    have hpath : Path (front ++ [group]) group.id
        ((group.parent.bind (valueAt paths)).getD [] ++ [group.name]) := by
      cases hup : group.parent with
      | none => exact .top hmem hup
      | some up =>
        obtain ⟨above, habove, rfl⟩ := mem_map.mp (hlast.before.2.2 up hup)
        obtain ⟨path, hvalue, hknown⟩ := hpaths above habove
        rw [Option.bind_some, hvalue, Option.getD_some]
        exact .inside hmem hup (hknown.mono (subset_append_left _ _))
    rw [fromGroups]
    refine ih hsound (fun other hother => ?_) (hknows.cons hlast hpath)
    rw [valueAt_cons]
    rcases mem_append.mp hother with hold | hnew
    · obtain ⟨path, hvalue, hknown⟩ := hpaths other hold
      have hne : group.id ≠ other.id := fun heq => hlast.before.2.1 (heq ▸ mem_map_of_mem hold)
      exact ⟨path, by rw [if_neg hne, hvalue], hknown.mono (subset_append_left _ _)⟩
    · obtain rfl := mem_singleton.mp hnew
      exact ⟨_, if_pos rfl, hpath⟩

section Made

variable {newId : Nat → String} {base : List Group} {folders : Folders}

/-- What holds while groups are added to those of `base`. -/
structure Grown (newId : Nat → String) (base : List Group) (folders : Folders) : Prop where
  sound : Sound folders.groups
  knows : Knows folders.groups folders.byPath
  added : ∃ added, folders.groups = base ++ added ∧ ∀ group ∈ added,
    (∃ count, group.id = newId count) ∧
      ∀ path, Path folders.groups group.id path → ∀ id, ¬ Path base id path
  fresh : ∀ count, folders.made ≤ count → newId count ∉ folders.groups.map Group.id

/-- Where a new group goes: at the top, or in the group of the path above it. -/
def Above (groups : List Group) (path : List String) : Option String → Prop
  | none => path = []
  | some id => Path groups id path

theorem Grown.create (hnew : Function.Injective newId) (h : Grown newId base folders)
    {above : List String} {parent : Option String} (habove : Above folders.groups above parent)
    {name : String} (hmissing : valueAt folders.byPath (above ++ [name]) = none) :
    Grown newId base ⟨folders.groups ++ [⟨newId folders.made, name, parent, .empty⟩],
      (above ++ [name], newId folders.made) :: folders.byPath, folders.made + 1⟩ ∧
    Path (folders.groups ++ [⟨newId folders.made, name, parent, .empty⟩]) (newId folders.made)
      (above ++ [name]) := by
  have hfresh := h.fresh folders.made (Nat.le_refl _)
  obtain ⟨added, hgroups, hadded⟩ := h.added
  generalize hgroup : (⟨newId folders.made, name, parent, .empty⟩ : Group) = group
  have hid : group.id = newId folders.made := by rw [← hgroup]
  have hmem : group ∈ folders.groups ++ [group] := mem_append_right _ (mem_singleton_self _)
  have hsound : Sound (folders.groups ++ [group]) := by
    refine ⟨?_, parentsFirst_snoc.mpr ⟨h.sound.2, fun up hup => ?_⟩⟩
    · rw [map_append, map_singleton, hid]
      exact nodup_append'.mpr ⟨h.sound.1, nodup_singleton _, disjoint_singleton.mpr hfresh⟩
    · rw [← hgroup] at hup
      obtain rfl : parent = some up := hup
      obtain ⟨other, hother, rfl⟩ := habove.mem
      exact mem_map_of_mem hother
  have hpath : Path (folders.groups ++ [group]) group.id (above ++ [name]) := by
    have hname : group.name = name := by rw [← hgroup]
    have hparent : group.parent = parent := by rw [← hgroup]
    cases parent with
    | none =>
      rw [show above = [] from habove, ← hname]
      exact .top hmem hparent
    | some up =>
      rw [← hname]
      exact .inside hmem hparent (Path.mono habove (subset_append_left _ _))
  refine ⟨⟨hsound, hid ▸ h.knows.cons hsound hpath, ⟨added ++ [group], ?_, ?_⟩, ?_⟩, hid ▸ hpath⟩
  · rw [hgroups, List.append_assoc]
  · intro other hother
    rcases mem_append.mp hother with hold | hlast
    · refine ⟨(hadded other hold).1, fun path hpathOther id hbase => ?_⟩
      rcases hsound.path_before hpathOther with heq | hbefore
      · refine hfresh (hid ▸ heq ▸ mem_map_of_mem ?_)
        rw [hgroups]
        exact mem_append_right _ hold
      · exact (hadded other hold).2 path hbefore id hbase
    · obtain rfl := mem_singleton.mp hlast
      refine ⟨⟨_, hid⟩, fun path hpathOther id hbase => ?_⟩
      rw [hsound.path_unique hpathOther hpath] at hbase
      refine h.knows.2 id _ (hbase.mono ?_) hmissing
      rw [hgroups]
      exact subset_append_left _ _
  · intro count hcount hin
    rw [map_append, map_singleton, hid] at hin
    rcases mem_append.mp hin with hold | hlast
    · exact h.fresh count (Nat.le_of_succ_le hcount) hold
    · have heq := hnew (mem_singleton.mp hlast)
      exact absurd hcount (by rw [heq]; exact Nat.not_succ_le_self _)

theorem group_grown (hnew : Function.Injective newId) (h : Grown newId base folders)
    {above rest : List String} {parent : Option String}
    (habove : Above folders.groups above parent) :
    Grown newId base (folders.group newId above parent rest).1 ∧
      folders.groups ⊆ (folders.group newId above parent rest).1.groups ∧
      Above (folders.group newId above parent rest).1.groups (above ++ rest)
        (folders.group newId above parent rest).2 := by
  induction rest generalizing folders above parent with
  | nil =>
    rw [List.append_nil]
    exact ⟨h, List.Subset.refl _, habove⟩
  | cons name rest ih =>
    rw [Folders.group, append_cons above name rest]
    split
    · rename_i id hvalue
      exact ih h (h.knows.1 _ id hvalue)
    · rename_i hmissing
      obtain ⟨hgrown, hpath⟩ := h.create hnew habove hmissing
      obtain ⟨hlater, hsubset, hend⟩ := @ih _ hgrown _ (some _) hpath
      exact ⟨hlater, List.Subset.trans (subset_append_left _ _) hsubset, hend⟩

/-- What the groups of the other import became. -/
structure Joined (newId : Nat → String) (base : List Group) (other : Imported) (front : List Group)
    (state : Folders × List (String × String)) : Prop where
  grown : Grown newId base state.1
  renamed : ∀ group ∈ front, ∃ id, valueAt state.2 group.id = some id ∧
    Path state.1.groups id (other.pathOf group)
  known : ∀ id, valueAt state.2 id ≠ none → id ∈ front.map Group.id

theorem Joined.next (hnew : Function.Injective newId) {other : Imported} {front : List Group}
    {state : Folders × List (String × String)} (h : Joined newId base other front state)
    {group : Group} (hfront : group.id ∉ front.map Group.id) :
    Joined newId base other (front ++ [group]) (joinGroup newId other state group) := by
  obtain ⟨hgrown, hsubset, hend⟩ := @group_grown newId base state.1 hnew h.grown []
    (other.pathOf group) none rfl
  rw [joinGroup]
  cases hid : (state.1.group newId [] none (other.pathOf group)).2 with
  | none =>
    rw [hid] at hend
    have hnil : other.pathOf group = [] := hend
    rw [Imported.pathOf, reverse_cons] at hnil
    exact absurd hnil (concat_ne_nil _ _)
  | some id =>
    rw [hid] at hend
    refine ⟨hgrown, fun known hknown => ?_, fun known hknown => ?_⟩
    · rw [Option.elim_some, valueAt_cons]
      rcases mem_append.mp hknown with hold | hlast
      · obtain ⟨id, hvalue, hpath⟩ := h.renamed known hold
        have hne : group.id ≠ known.id := fun heq => hfront (heq ▸ mem_map_of_mem hold)
        exact ⟨id, by rw [if_neg hne, hvalue], hpath.mono hsubset⟩
      · obtain rfl := mem_singleton.mp hlast
        exact ⟨id, if_pos rfl, hend⟩
    · rw [Option.elim_some, valueAt_cons] at hknown
      rw [map_append, mem_append]
      split at hknown
      · rename_i heq
        exact .inr (by rw [← heq]; exact mem_singleton_self _)
      · exact .inl (h.known known hknown)

theorem joined_all (hnew : Function.Injective newId) {imported other : Imported}
    (himported : Sound imported.groups) (hother : Sound other.groups)
    (hfresh : ∀ count, newId count ∉ imported.groups.map Group.id) :
    Joined newId imported.groups other other.groups (other.groups.foldl (joinGroup newId other)
      (⟨imported.groups, fromGroups [] [] imported.groups, 0⟩, [])) := by
  have hstart : Grown newId imported.groups
      ⟨imported.groups, fromGroups [] [] imported.groups, 0⟩ :=
    ⟨himported, @knows_fromGroups [] _ _ _ himported nofun ⟨nofun, fun _ _ hpath => by
      obtain ⟨group, hmem, -⟩ := hpath.mem
      cases hmem⟩, ⟨[], (List.append_nil _).symm, nofun⟩, fun count _ => hfresh count⟩
  have hall : ∀ (rest front : List Group) (state : Folders × List (String × String)),
      Sound (front ++ rest) → Joined newId imported.groups other front state →
        Joined newId imported.groups other (front ++ rest)
          (rest.foldl (joinGroup newId other) state) := by
    intro rest
    induction rest with
    | nil => exact fun front state _ h => by rwa [List.append_nil]
    | cons group rest ih =>
      intro front state hsound h
      rw [append_cons] at hsound ⊢
      exact ih _ _ hsound (h.next hnew hsound.left.before.2.1)
  exact hall other.groups [] _ hother ⟨hstart, nofun, fun id hid => absurd rfl hid⟩

end Made

/-- The folder path of a host, when its group is there. -/
def Imported.folder (imported : Imported) (host : Host) : Option (List String) :=
  (host.group.bind fun id => findKey Group.id id imported.groups).map imported.pathOf

def ungrouped (host : Host) : Host := { host with group := none }

theorem folder_of_path {imported : Imported} (h : Sound imported.groups) {host : Host} {id : String}
    (hgroup : host.group = some id) {path : List String} (hpath : Path imported.groups id path) :
    imported.folder host = some path := by
  obtain ⟨group, hmem, rfl⟩ := hpath.mem
  rw [Imported.folder, hgroup, Option.bind_some, (findKey_eq_some_iff h.1).mpr ⟨hmem, rfl⟩,
    Option.map_some, h.path_unique (h.pathOf hmem) hpath]

theorem folder_eq_none {imported : Imported} {host : Host}
    (h : ∀ id ∈ host.group, id ∉ imported.groups.map Group.id) : imported.folder host = none := by
  rw [Imported.folder]
  cases hgroup : host.group with
  | none => rfl
  | some id => rw [Option.bind_some, findKey_eq_none_iff.mpr (h id hgroup), Option.map_none]

/-- Joined imports keep every host in its folder: the hosts of both stand one after the other with
the folder paths they had, the groups are sound, those of the first as they were in front, and no
new group has a path that one of these has. -/
theorem extend_keeps {newId : Nat → String} (hnew : Function.Injective newId)
    {imported other : Imported} (himported : Sound imported.groups) (hother : Sound other.groups)
    (hfresh : ∀ count, newId count ∉ imported.groups.map Group.id ∧
      ∀ host ∈ imported.hosts, host.group ≠ some (newId count)) :
    Sound (imported.extend newId other).groups ∧
      (imported.extend newId other).hosts.map ungrouped =
        (imported.hosts ++ other.hosts).map ungrouped ∧
      (imported.extend newId other).hosts.map (imported.extend newId other).folder =
        imported.hosts.map imported.folder ++ other.hosts.map other.folder ∧
      ∃ added, (imported.extend newId other).groups = imported.groups ++ added ∧
        ∀ group ∈ added, (imported.extend newId other).pathOf group ∉
          imported.groups.map imported.pathOf := by
  have hjoined := joined_all hnew himported hother fun count => (hfresh count).1
  generalize hstate : other.groups.foldl (joinGroup newId other)
    (⟨imported.groups, fromGroups [] [] imported.groups, 0⟩, []) = state at hjoined
  have hextend : imported.extend newId other = ⟨state.1.groups,
      imported.hosts ++ other.hosts.map (rejoin state.2),
      imported.warnings ++ other.warnings⟩ := by rw [Imported.extend, hstate]
  rw [hextend]
  have hsound := hjoined.grown.sound
  obtain ⟨added, hgroups, hadded⟩ := hjoined.grown.added
  have hsubset : imported.groups ⊆ state.1.groups := hgroups ▸ List.subset_append_left _ _
  refine ⟨hsound, ?_, ?_, added, hgroups, fun group hgroup hin => ?_⟩
  · rw [List.map_append, List.map_append, List.map_map]
    rfl
  · rw [List.map_append, List.map_map]
    refine congrArg₂ _ (List.map_congr_left fun host hhost => ?_)
      (List.map_congr_left fun host hhost => ?_)
    · cases hgroup : host.group with
      | none => rw [Imported.folder, Imported.folder, hgroup]; rfl
      | some id =>
        by_cases hin : id ∈ imported.groups.map Group.id
        · obtain ⟨group, hmem, rfl⟩ := List.mem_map.mp hin
          have hpath := himported.pathOf hmem
          rw [folder_of_path himported hgroup hpath,
            @folder_of_path ⟨_, _, _⟩ hsound _ _ hgroup _ (hpath.mono hsubset)]
        · have hid : ∀ own ∈ host.group, own = id := fun own hown =>
            Option.some.inj (hown.symm.trans hgroup)
          have hbefore : imported.folder host = none :=
            folder_eq_none fun own hown => by rwa [hid own hown]
          rw [hbefore]
          refine folder_eq_none fun own hown hmade => ?_
          rw [hid own hown, hgroups, List.map_append] at hmade
          obtain ⟨group, hgroup', rfl⟩ :=
            List.mem_map.mp ((List.mem_append.mp hmade).resolve_left hin)
          obtain ⟨count, hcount⟩ := (hadded group hgroup').1
          exact (hfresh count).2 host hhost (hgroup.trans (congrArg some hcount))
    · cases hgroup : host.group with
      | none =>
        have hnone : (rejoin state.2 host).group = none := by
          rw [rejoin, hgroup, Option.bind_none]
        rw [Imported.folder, hgroup, Option.bind_none, Option.map_none]
        exact folder_eq_none fun own hown => nomatch hnone.symm.trans hown
      | some id =>
        by_cases hin : id ∈ other.groups.map Group.id
        · obtain ⟨group, hmem, rfl⟩ := List.mem_map.mp hin
          obtain ⟨own, hvalue, hpath⟩ := hjoined.renamed group hmem
          rw [folder_of_path hother hgroup (hother.pathOf hmem)]
          exact @folder_of_path ⟨_, _, _⟩ hsound _ own
            (by rw [rejoin, hgroup, Option.bind_some, hvalue]) _ hpath
        · have hbefore : other.folder host = none := folder_eq_none fun own hown => by
            rwa [Option.some.inj (hown.symm.trans hgroup)]
          rw [hbefore]
          refine folder_eq_none fun own hown _ => ?_
          have hvalue : (rejoin state.2 host).group = some own := hown
          rw [rejoin, hgroup, Option.bind_some] at hvalue
          dsimp only at hvalue
          exact hin (hjoined.known id (by rw [hvalue]; exact nofun))
  · obtain ⟨known, hknown, hsame⟩ := List.mem_map.mp hin
    have hmem : group ∈ state.1.groups := hgroups ▸ List.mem_append_right _ hgroup
    have hpath := himported.pathOf hknown
    rw [hsame] at hpath
    have hmade := @Sound.pathOf group ⟨state.1.groups, imported.hosts ++
      other.hosts.map (rejoin state.2), imported.warnings ++ other.warnings⟩ hsound hmem
    exact (hadded group hgroup).2 _ hmade known.id hpath

namespace ImportWitness

def made (count : Nat) : String := String.ofList (List.replicate (count + 1) 'n')

theorem made_injective : Function.Injective made := fun first second h => by
  have hlength := congrArg (fun text => text.toList.length) h
  simpa [made] using hlength

def bare (id : String) (group : Option String) : Host := ⟨id, id, "", group, none, [], .empty⟩

/-- Hosts in Prod and in Prod / Web. -/
def first : Imported :=
  ⟨[⟨"1", "Prod", none, .empty⟩, ⟨"2", "Web", some "1", .empty⟩],
    [bare "a" (some "2"), bare "b" (some "1")], []⟩

/-- Hosts in Prod / Web, in Prod / Db and in no folder. -/
def second : Imported :=
  ⟨[⟨"1", "Prod", none, .empty⟩, ⟨"7", "Db", some "1", .empty⟩, ⟨"2", "Web", some "1", .empty⟩],
    [bare "c" (some "2"), bare "d" (some "7"), bare "e" none], []⟩

theorem sound_first : Sound first.groups := ⟨by decide, by simp [ParentsFirst, first]⟩

theorem sound_second : Sound second.groups := ⟨by decide, by simp [ParentsFirst, second]⟩

theorem made_fresh (count : Nat) : made count ∉ first.groups.map Group.id ∧
    ∀ host ∈ first.hosts, host.group ≠ some (made count) := by
  have hne : ∀ known : Char, known ≠ 'n' → made count ≠ String.ofList [known] := by
    intro known hknown heq
    have hchars := congrArg String.toList heq
    simp only [made, String.toList_ofList, replicate_succ, List.cons.injEq] at hchars
    exact hknown hchars.1.symm
  have hone : made count ≠ "1" := hne '1' (by decide)
  have htwo : made count ≠ "2" := hne '2' (by decide)
  simp [first, bare, hone, htwo, Ne.symm hone, Ne.symm htwo]

theorem folders_kept :
    (first.extend made second).hosts.map (first.extend made second).folder =
      first.hosts.map first.folder ++ second.hosts.map second.folder :=
  (extend_keeps made_injective sound_first sound_second made_fresh).2.2.1

end ImportWitness

end Opensesh.ImportMerge
