/-
Adding the hosts of another program to the library: which ones are left out, and when the
library stays one that `check` accepts and no jump host of a new host is lost.
-/
import Opensesh.EditsFrame
import Opensesh.HostEditor

namespace Opensesh

open List

theorem tidy_appendGroups {τ : Type} {format : HostsFormat τ} {file : HostsFile}
    (h : file.Tidy format) {groups : List Group} (htidy : ∀ group ∈ groups, group.Tidy)
    (hnodup : (groups.map Group.id).Nodup)
    (hfresh : ∀ group ∈ groups, file.Fresh group.id)
    (hparents : ∀ before group after, groups = before ++ group :: after →
      ∀ parent ∈ group.parent, parent ∈ (file.groups ++ before).map Group.id) :
    ({ file with groups := file.groups ++ groups } : HostsFile).Tidy format := by
  induction groups generalizing file with
  | nil =>
    rw [List.append_nil]
    exact h
  | cons group rest ih =>
    obtain ⟨hfirst, hrest⟩ := forall_mem_cons.mp htidy
    obtain ⟨hnew, hnewRest⟩ := forall_mem_cons.mp hfresh
    rw [map_cons, nodup_cons] at hnodup
    have hone := tidy_appendGroup h hfirst hnew.unused hnew.valid fun parent hparent => by
      have hknown := hparents [] group rest rfl parent hparent
      rwa [List.append_nil] at hknown
    have hall := ih hone hrest hnodup.2 ?_ ?_
    · rw [append_cons]
      exact hall
    · intro other hother
      have hother' := hnewRest other hother
      refine ⟨hother'.valid, hother'.owned, fun hin => hother'.unused ?_⟩
      rw [HostsFile.ids, map_append, List.append_assoc] at hin
      rcases mem_append.mp hin with hold | hin
      · exact mem_append_left _ hold
      · rcases mem_append.mp hin with hsame | hhost
        · refine absurd ?_ hnodup.1
          rw [← mem_singleton.mp hsame]
          exact mem_map_of_mem hother
        · exact mem_append_right _ hhost
    · intro before other after heq parent hparent
      have hknown := hparents (group :: before) other after (by rw [heq]; rfl) parent hparent
      rwa [append_cons] at hknown

end Opensesh

namespace Opensesh.Saved

open List

/-- Hosts read from another program, with the folders they were in as groups. -/
structure Imported where
  /-- Parents before their children. -/
  groups : List Group
  hosts : List Host

/-- What `apply` did. -/
structure Applied where
  added : Nat
  /-- Saved already, or not valid. -/
  skipped : Nat
  /-- The new group's id, empty when nothing was added. -/
  group : String

/-- Whether the library has a host already: same name, protocol and address. -/
def Host.sameAs (saved host : Host) : Bool :=
  !saved.isLinked && saved.name == host.name && saved.protocol == host.protocol &&
    HostsFile.sameName saved.address host.address

def HostsFile.isSaved (library : HostsFile) (host : Host) : Bool :=
  library.hosts.any fun saved => saved.sameAs host

def Group.new (id name : String) : Group :=
  { id, name, parent := none, color := "", notes := "", defaults := .empty, extra := .empty }

namespace Importing

section

variable (newId : Nat → String) (file : HostsFile) (imported : Imported) (groupName : String)

/-- The hosts to add, each with an id and a group; the ids made before are counted. -/
def prepare (root : String) : Nat → List Host → List Host
  | _, [] => []
  | made, host :: rest =>
    let group := host.group.or (some root)
    if host.id = "" then { host with id := newId made, group } :: prepare root (made + 1) rest
    else { host with group } :: prepare root made rest

def rootGroup : Group := .new (newId 0) (trim groupName)

/-- The folders, those at the top inside the new group. -/
def folders : List Group :=
  imported.groups.map fun group => { group with parent := group.parent.or (some (newId 0)) }

def incoming : List Host := prepare newId (newId 0) 1 imported.hosts

/-- What the hosts are checked against: the library with the new groups in it. -/
def checkCopy : HostsFile :=
  { file with
    groups := file.groups ++ rootGroup newId groupName :: folders newId imported }

/-- Adds the hosts and folders in a new group. Hosts saved already, and hosts that are not
valid, are skipped. -/
def apply : HostsFile × Applied :=
  let root := rootGroup newId groupName
  let hosts := incoming newId imported
  let saved := hosts.countP file.isSaved
  let fresh := hosts.filter fun host => !file.isSaved host
  let groups := folders newId imported
  let check := checkCopy newId file imported groupName
  let (valid, invalid) := fresh.partition fun host => (check.validateHost host).isEmpty
  let skipped := saved + invalid.length
  if valid.isEmpty then (file, ⟨0, skipped, ""⟩)
  else
    let place := file.hosts.findIdx Host.isLinked
    ({ file with
        groups := file.groups ++ root :: groups
        hosts := file.hosts.take place ++ valid ++ file.hosts.drop place },
      ⟨valid.length, skipped, root.id⟩)

end

end Importing

def Host.plain (host : Host) : Opensesh.Host :=
  ⟨host.id, host.name, host.address, host.group, host.port.map Fin.val, host.tags, .empty⟩

theorem isLinked_plain (host : Host) : host.plain.isLinked = host.isLinked := by
  rw [Opensesh.Host.isLinked, Host.isLinked]
  rfl

/-- The fields of a library that `check` looks at. -/
def HostsFile.checked (file : HostsFile) : Opensesh.HostsFile :=
  ⟨file.groups.map Group.plain, file.hosts.map Host.plain, [], false, .empty⟩

namespace Importing

section

variable {τ : Type} (format : HostsFormat τ) (newId : Nat → String) (file : HostsFile)
  (imported : Imported) (groupName : String)

/-- `check` accepts a library as it is. -/
def Accepted : Prop := file.checked.check format = file.checked

/-- The ids that are new to the library. -/
def newIds : List String :=
  newId 0 :: (imported.groups.map Group.id ++ (incoming newId imported).map Host.id)

/-- What importers give: folders with their parents before them, hosts in these folders, and
new ids, which are no host's name either. -/
structure Formed : Prop where
  parents : ∀ before group after, imported.groups = before ++ group :: after →
    ∀ parent ∈ group.parent, parent ∈ before.map Group.id
  hostGroups : ∀ host ∈ imported.hosts, ∀ group ∈ host.group, group ∈ imported.groups.map Group.id
  nodup : (newIds newId imported).Nodup
  fresh : ∀ id ∈ newIds newId imported, file.checked.Fresh id
  unnamed : ∀ target ∈ incoming newId imported,
    ∀ host ∈ file.hosts ++ incoming newId imported, HostsFile.sameName host.name target.id = false

/-- A host as it was read, with an id and a group. -/
def Placed (own host : Host) : Prop :=
  host = { own with id := host.id, group := own.group.or (some (newId 0)) } ∧
    (own.id ≠ "" → host.id = own.id)

/-- The library with everything that is imported but a host itself. -/
def withOthers (host : Host) : HostsFile :=
  { checkCopy newId file imported groupName with
    hosts := file.hosts ++ (incoming newId imported).filter fun other => other.id ≠ host.id }

/-- What an import keeps when it adds the `chosen` hosts. -/
structure Keeps (after : HostsFile × Applied) (chosen : List Host) : Prop where
  groups : file.groups <+: after.1.groups
  hosts : file.hosts.Sublist after.1.hosts
  accepted : Accepted format after.1
  placed : List.Forall₂ (Placed newId) imported.hosts (incoming newId imported)
  taken : chosen.Sublist (incoming newId imported)
  added : after.1.hosts.Perm (file.hosts ++ chosen)
  counts : after.2.added = chosen.length ∧ after.2.added + after.2.skipped = imported.hosts.length
  folders : ∀ host ∈ chosen, ∀ group ∈ host.group, group ∈ after.1.groups.map Group.id
  skipped : ∀ host ∈ incoming newId imported, host ∉ chosen →
    file.isSaved host = true ∨
      (withOthers newId file imported groupName host).validateHost host ≠ []
  links : ∀ host ∈ chosen, ∀ jump ∈ host.jump, ∀ hop ∈ jump,
    ∀ target ∈ incoming newId imported, trim hop = target.id →
      ∃ found, after.1.findHost hop = some found ∧
        (found = target ∨ found ∈ file.hosts ∧ found.sameAs target = true)

/-- The hosts that are neither saved already nor invalid in the library with the new groups. -/
def addable : List Host :=
  (incoming newId imported).filter fun host => !file.isSaved host &&
    ((checkCopy newId file imported groupName).validateHost host).isEmpty

/-- When an import keeps what it should. -/
structure Settled : Prop where
  names : addable newId file imported groupName ≠ [] →
    trim groupName ≠ "" ∧ ∀ group ∈ imported.groups, group.plain.Tidy
  tidy : ∀ host ∈ addable newId file imported groupName,
    trim host.name = host.name ∧ trim host.address = host.address ∧ CleanTags format.lower host.tags
  /-- A jump host of the same import that the library does not have is an endpoint too. -/
  hops : ∀ host ∈ incoming newId imported, file.isSaved host = false →
    (withOthers newId file imported groupName host).validateHost host = [] →
      ∀ jump ∈ host.jump, ∀ hop ∈ jump, file.findHost hop = none →
        (withOthers newId file imported groupName host).findHost hop ≠ none →
          failsWith (Target.parseEndpoint (Text.trim hop.toList)) = false
  /-- The jump hosts of what is added, by their new ids, are added. -/
  links : ∀ host ∈ addable newId file imported groupName, ∀ jump ∈ host.jump, ∀ hop ∈ jump,
    ∀ target ∈ incoming newId imported, trim hop = target.id →
      target ∈ addable newId file imported groupName

end

section

variable {newId : Nat → String} {file : HostsFile} {imported : Imported} {groupName : String}

theorem placed_prepare (made : Nat) (hosts : List Host) :
    List.Forall₂ (Placed newId) hosts (prepare newId (newId 0) made hosts) := by
  induction hosts generalizing made with
  | nil => exact .nil
  | cons host hosts ih =>
    rw [prepare]
    split
    next hempty => exact .cons ⟨rfl, fun h => absurd hempty h⟩ (ih _)
    next => exact .cons ⟨rfl, fun _ => rfl⟩ (ih _)

theorem placed_incoming : List.Forall₂ (Placed newId) imported.hosts (incoming newId imported) :=
  placed_prepare 1 imported.hosts

theorem length_incoming : (incoming newId imported).length = imported.hosts.length :=
  placed_incoming.length_eq.symm

theorem exists_placed {hosts prepared : List Host}
    (h : List.Forall₂ (Placed newId) hosts prepared) {host : Host} (hhost : host ∈ prepared) :
    ∃ own ∈ hosts, Placed newId own host := by
  induction h with
  | nil => cases hhost
  | cons hfirst _ ih =>
    rcases mem_cons.mp hhost with rfl | hrest
    · exact ⟨_, mem_cons_self, hfirst⟩
    · obtain ⟨own, hown, hplaced⟩ := ih hrest
      exact ⟨own, mem_cons_of_mem _ hown, hplaced⟩

theorem ids_folders : (folders newId imported).map Group.id = imported.groups.map Group.id := by
  rw [folders, map_map]
  rfl

theorem group_incoming (h : Formed newId file imported) {host : Host}
    (hhost : host ∈ incoming newId imported) : ∀ group ∈ host.group,
      group ∈ (rootGroup newId groupName :: folders newId imported).map Group.id := by
  intro group hgroup
  obtain ⟨own, hown, heq, -⟩ := exists_placed placed_incoming hhost
  rw [heq] at hgroup
  rw [map_cons, ids_folders]
  rcases Option.or_eq_some_iff.mp hgroup with hset | ⟨-, hroot⟩
  · exact mem_cons_of_mem _ (h.hostGroups own hown group hset)
  · obtain rfl := Option.some.inj hroot
    exact mem_cons_self

theorem valid_eq : ((incoming newId imported).filter fun host => !file.isSaved host).filter
    (fun host => ((checkCopy newId file imported groupName).validateHost host).isEmpty) =
      addable newId file imported groupName := by
  rw [addable, filter_filter]
  exact filter_congr fun host _ => Bool.and_comm _ _

theorem counted : (addable newId file imported groupName).length +
    ((incoming newId imported).countP file.isSaved +
      (((incoming newId imported).filter fun host => !file.isSaved host).filter fun host =>
        !((checkCopy newId file imported groupName).validateHost host).isEmpty).length) =
      imported.hosts.length := by
  have hfresh := length_eq_length_filter_add
    (l := (incoming newId imported).filter fun host => !file.isSaved host)
    fun host => ((checkCopy newId file imported groupName).validateHost host).isEmpty
  have hall := length_eq_length_filter_add (l := incoming newId imported)
    fun host => !file.isSaved host
  rw [valid_eq] at hfresh
  simp only [Bool.not_not] at hall
  rw [← countP_eq_length_filter (p := file.isSaved)] at hall
  rw [← @length_incoming newId, hall, hfresh]
  omega

theorem apply_eq : apply newId file imported groupName =
    if addable newId file imported groupName = [] then
      (file, ⟨0, imported.hosts.length, ""⟩)
    else
      ({ file with
          groups := file.groups ++ rootGroup newId groupName :: folders newId imported
          hosts := file.hosts.take (file.hosts.findIdx Host.isLinked) ++
            addable newId file imported groupName ++
              file.hosts.drop (file.hosts.findIdx Host.isLinked) },
        ⟨(addable newId file imported groupName).length,
          imported.hosts.length - (addable newId file imported groupName).length,
          newId 0⟩) := by
  have hcount := @counted newId file imported groupName
  unfold apply
  simp only [partition_eq_filter_filter, valid_eq]
  by_cases hnone : addable newId file imported groupName = []
  · rw [if_pos hnone, if_pos (by rw [hnone]; rfl), ← hcount, hnone]
    simp [Function.comp_def]
  · rw [if_neg hnone, if_neg (by simpa using hnone), ← hcount]
    simp [Function.comp_def, rootGroup, Group.new]

theorem hosts_apply (howned : ∀ host ∈ file.hosts, host.isLinked = false) :
    (apply newId file imported groupName).1.hosts =
      file.hosts ++ addable newId file imported groupName := by
  rw [apply_eq]
  split
  next hnone => rw [hnone, List.append_nil]
  next =>
    have hplace : file.hosts.findIdx Host.isLinked = file.hosts.length :=
      findIdx_eq_length.mpr howned
    dsimp only
    rw [hplace, take_length, drop_length, List.append_nil]

theorem groups_apply (hsome : addable newId file imported groupName ≠ []) :
    (apply newId file imported groupName).1.groups =
      file.groups ++ rootGroup newId groupName :: folders newId imported := by
  rw [apply_eq, if_neg hsome]

theorem prefix_groups_apply : file.groups <+: (apply newId file imported groupName).1.groups := by
  rw [apply_eq]
  split
  · exact prefix_rfl
  · exact prefix_append _ _

theorem counts_apply : (apply newId file imported groupName).2.added =
      (addable newId file imported groupName).length ∧
    (apply newId file imported groupName).2.added +
      (apply newId file imported groupName).2.skipped = imported.hosts.length := by
  have hcount := @counted newId file imported groupName
  rw [apply_eq]
  split
  next hnone => exact ⟨by rw [hnone]; rfl, Nat.zero_add _⟩
  next => exact ⟨rfl, by dsimp only; omega⟩

theorem validateHost_eq_nil_iff {library : HostsFile} {host : Host} :
    library.validateHost host = [] ↔ host.problemsBefore = [] ∧
      (∀ jump ∈ host.jump, ∀ hop ∈ jump, library.badHop hop = false) ∧
      (∀ group ∈ host.group, (library.group group).isSome = true) ∧ host.problemsAfter = [] := by
  rw [HostsFile.validateHost]
  simp only [append_eq_nil_iff, ite_eq_right_iff, cons_ne_self, imp_false, and_assoc]
  refine and_congr_right fun _ => and_congr ?_ (and_congr ?_ Iff.rfl)
  · cases host.jump <;> simp
  · cases host.group <;> simp [Option.isSome_iff_ne_none]

theorem badHop_eq_false_iff {library : HostsFile} {hop : String} :
    library.badHop hop = false ↔ library.findHost hop ≠ none ∨
      failsWith (Target.parseEndpoint (Text.trim hop.toList)) = false := by
  rw [HostsFile.badHop, Bool.and_eq_false_iff, Option.isNone_eq_false_iff,
    Option.isSome_iff_ne_none]

/-- A host that is valid beside everything that comes in is valid beside the library alone
exactly when its jump hosts are known or endpoints. -/
theorem valid_copy_iff {host : Host}
    (hvalid : (withOthers newId file imported groupName host).validateHost host = []) :
    (checkCopy newId file imported groupName).validateHost host = [] ↔
      ∀ jump ∈ host.jump, ∀ hop ∈ jump, file.findHost hop = none →
        (withOthers newId file imported groupName host).findHost hop ≠ none →
          failsWith (Target.parseEndpoint (Text.trim hop.toList)) = false := by
  rw [validateHost_eq_nil_iff] at hvalid ⊢
  obtain ⟨hbefore, hhops, hgroup, hafter⟩ := hvalid
  constructor
  · rintro ⟨-, hcopy, -⟩ jump hjump hop hhop hnone -
    exact (badHop_eq_false_iff.mp (hcopy jump hjump hop hhop)).resolve_left (not_not.mpr hnone)
  · intro h
    refine ⟨hbefore, fun jump hjump hop hhop => badHop_eq_false_iff.mpr ?_, hgroup, hafter⟩
    by_cases hnone : file.findHost hop = none
    · right
      by_cases hothers : (withOthers newId file imported groupName host).findHost hop = none
      · exact (badHop_eq_false_iff.mp (hhops jump hjump hop hhop)).resolve_left
          (not_not.mpr hothers)
      · exact h jump hjump hop hhop hnone hothers
    · exact Or.inl hnone

variable {τ : Type} {format : HostsFormat τ}

theorem accepted_iff (hnew : NewIds format) (library : HostsFile) :
    Accepted format library ↔ library.checked.Tidy format :=
  check_eq_self_iff hnew library.checked

theorem owned_of_tidy (h : file.checked.Tidy format) :
    ∀ host ∈ file.hosts, host.isLinked = false := by
  intro host hhost
  have hplain := h.hosts host.plain (mem_map_of_mem hhost)
  rw [← isLinked_plain]
  exact hplain.owned

theorem mem_addable {host : Host} :
    host ∈ addable newId file imported groupName ↔
      host ∈ incoming newId imported ∧ file.isSaved host = false ∧
        (checkCopy newId file imported groupName).validateHost host = [] := by
  rw [addable, mem_filter, Bool.and_eq_true, Bool.not_eq_true', List.isEmpty_iff]

theorem addable_sublist :
    (addable newId file imported groupName).Sublist (incoming newId imported) :=
  filter_sublist

theorem nodup_incoming (h : Formed newId file imported) :
    ((incoming newId imported).map Host.id).Nodup :=
  (nodup_append'.mp (nodup_cons.mp h.nodup).2).2.1

theorem fresh_incoming (h : Formed newId file imported) {host : Host}
    (hhost : host ∈ incoming newId imported) : file.checked.Fresh host.id :=
  h.fresh _ (mem_cons_of_mem _ (mem_append_right _ (mem_map_of_mem hhost)))

theorem ids_newGroups_plain :
    ((rootGroup newId groupName :: folders newId imported).map Group.plain).map
      Opensesh.Group.id = newId 0 :: imported.groups.map Group.id := by
  rw [← ids_folders, map_map]
  rfl

theorem ids_plain (hosts : List Host) :
    (hosts.map Host.plain).map Opensesh.Host.id = hosts.map Host.id := by
  rw [map_map]
  rfl

theorem named_of_valid {host : Host} (h : host.problemsBefore = []) :
    trim host.name ≠ "" ∧ host.port ≠ some 0 := by
  rw [Host.problemsBefore] at h
  simp only [append_eq_nil_iff, ite_eq_right_iff, cons_ne_self, imp_false] at h
  exact ⟨h.1.1.1.1, h.1.2⟩

/-- The ids of the library and the ids of what is added differ. -/
theorem nodup_added (h : file.checked.Tidy format) (hformed : Formed newId file imported) :
    (file.checked.groups.map Opensesh.Group.id ++
        ((rootGroup newId groupName :: folders newId imported).map Group.plain).map
          Opensesh.Group.id ++
      ((file.hosts.map Host.plain).map Opensesh.Host.id ++
        ((addable newId file imported groupName).map Host.plain).map Opensesh.Host.id)).Nodup := by
  have hsublist : (newId 0 :: imported.groups.map Group.id ++
      (addable newId file imported groupName).map Host.id).Sublist (newIds newId imported) :=
    (addable_sublist.map Host.id).append_left (newId 0 :: imported.groups.map Group.id)
  rw [ids_newGroups_plain, ids_plain (addable newId file imported groupName), List.append_assoc]
  refine ((perm_append_comm_assoc _ _ _).append_left _).nodup_iff.mpr ?_
  rw [← List.append_assoc]
  refine nodup_append'.mpr ⟨h.wellFormed.nodup, hformed.nodup.sublist hsublist, ?_⟩
  exact fun id hold hadded => (hformed.fresh id (hsublist.subset hadded)).unused hold

theorem tidy_withGroups (h : file.checked.Tidy format) (hformed : Formed newId file imported)
    (hname : trim groupName ≠ "") (hgroups : ∀ group ∈ imported.groups, group.plain.Tidy) :
    ({ file.checked with groups := file.checked.groups ++
      (rootGroup newId groupName :: folders newId imported).map Group.plain } :
        Opensesh.HostsFile).Tidy format := by
  have hids := @ids_newGroups_plain newId imported groupName
  refine tidy_appendGroups h ?_ ?_ ?_ ?_
  · intro group hgroup
    obtain ⟨group, hmem, rfl⟩ := mem_map.mp hgroup
    rcases mem_cons.mp hmem with rfl | hfolder
    · exact ⟨trim_trim _, hname⟩
    · obtain ⟨own, hown, rfl⟩ := mem_map.mp hfolder
      exact hgroups own hown
  · rw [hids]
    have hnodup := hformed.nodup
    rw [newIds, ← cons_append] at hnodup
    exact (nodup_append'.mp hnodup).1
  · intro group hgroup
    refine hformed.fresh _ ?_
    have hmem := mem_map_of_mem (f := Opensesh.Group.id) hgroup
    rw [hids] at hmem
    exact mem_append_left _ hmem
  · intro before group after heq parent hparent
    rw [map_append, mem_append]
    right
    rw [map_cons, folders, map_map] at heq
    cases before with
    | nil =>
      obtain ⟨rfl, -⟩ := List.cons.inj heq
      cases hparent
    | cons first before =>
      obtain ⟨rfl, hrest⟩ := List.cons.inj heq
      obtain ⟨above, below, hgroups, rfl, hbelow⟩ := map_eq_append_iff.mp hrest
      obtain ⟨own, below, rfl, rfl, -⟩ := map_eq_cons_iff.mp hbelow
      rw [map_cons, map_map]
      rcases Option.or_eq_some_iff.mp hparent with hset | ⟨-, hroot⟩
      · exact mem_cons_of_mem _ (hformed.parents above own below hgroups parent hset)
      · obtain rfl := Option.some.inj hroot
        exact mem_cons_self

theorem accepted_apply_iff (hnew : NewIds format) (haccepted : Accepted format file)
    (hformed : Formed newId file imported) :
    Accepted format (apply newId file imported groupName).1 ↔
      (addable newId file imported groupName ≠ [] →
        trim groupName ≠ "" ∧ ∀ group ∈ imported.groups, group.plain.Tidy) ∧
      ∀ host ∈ addable newId file imported groupName,
        trim host.name = host.name ∧ trim host.address = host.address ∧
          CleanTags format.lower host.tags := by
  have htidy := (accepted_iff hnew file).mp haccepted
  have howned := owned_of_tidy htidy
  by_cases hnone : addable newId file imported groupName = []
  · rw [apply_eq, if_pos hnone, hnone]
    refine iff_of_true haccepted ⟨fun h => absurd rfl h, fun host hhost => ?_⟩
    exact absurd hhost not_mem_nil
  rw [accepted_iff hnew, HostsFile.checked, hosts_apply howned, groups_apply hnone,
    map_append, map_append]
  constructor
  · intro h
    refine ⟨fun _ => ⟨?_, fun group hgroup => ?_⟩, fun host hhost => ?_⟩
    · exact (h.groups (rootGroup newId groupName).plain (by simp)).2
    · refine h.groups { group.plain with parent := group.parent.or (some (newId 0)) } ?_
      refine mem_append_right _ (mem_cons_of_mem _ (mem_map.mpr ?_))
      exact ⟨_, mem_map_of_mem hgroup, rfl⟩
    · have hplain := h.hosts host.plain (mem_append_right _ (mem_map_of_mem hhost))
      exact ⟨hplain.name.1, hplain.address, hplain.tags⟩
  · rintro ⟨hnames, hhosts⟩
    obtain ⟨hname, hgroups⟩ := hnames hnone
    have hwith := tidy_withGroups htidy hformed hname hgroups
    refine hwith.withHosts ?_ ?_
    · rw [map_append, map_append]
      exact nodup_added htidy hformed
    · intro host hhost
      rcases mem_append.mp hhost with hold | hadded
      · exact hwith.fits hold
      · obtain ⟨host, hadd, rfl⟩ := mem_map.mp hadded
        obtain ⟨hin, -, hvalid⟩ := mem_addable.mp hadd
        obtain ⟨hbefore, -⟩ := validateHost_eq_nil_iff.mp hvalid
        obtain ⟨htrim, haddress, htags⟩ := hhosts host hadd
        obtain ⟨hname, hport⟩ := named_of_valid hbefore
        have hfresh := fresh_incoming hformed hin
        refine ⟨⟨hfresh.owned, ⟨htrim, ?_⟩, haddress, htags⟩, hfresh.valid, ?_, ?_⟩
        · rwa [htrim] at hname
        · intro group hgroup
          rw [map_append]
          refine mem_append_right _ ?_
          rw [map_map]
          exact @group_incoming newId file imported groupName hformed host hin group hgroup
        · intro hzero
          obtain ⟨port, hset, heq⟩ := Option.map_eq_some_iff.mp hzero
          exact hport (hset.trans (congrArg some (Fin.ext heq)))

theorem nodup_hosts (h : file.checked.Tidy format) (hformed : Formed newId file imported) :
    ((file.hosts ++ addable newId file imported groupName).map Host.id).Nodup := by
  have hold := (nodup_append'.mp h.wellFormed.nodup).2.1
  rw [HostsFile.checked, ids_plain] at hold
  rw [map_append]
  refine nodup_append'.mpr
    ⟨hold, (nodup_incoming hformed).sublist (addable_sublist.map Host.id), ?_⟩
  intro id hin hadded
  obtain ⟨host, hhost, rfl⟩ := mem_map.mp hadded
  refine (fresh_incoming hformed (addable_sublist.subset hhost)).unused ?_
  refine mem_append_right _ ?_
  rw [HostsFile.checked, ids_plain]
  exact hin

theorem findHost_added (h : file.checked.Tidy format) (hformed : Formed newId file imported)
    {hop : String} {target : Host} (htarget : target ∈ addable newId file imported groupName)
    (hhop : trim hop = target.id) :
    (apply newId file imported groupName).1.findHost hop = some target := by
  have hfound : (apply newId file imported groupName).1.host (trim hop) = some target := by
    rw [HostsFile.host, hosts_apply (owned_of_tidy h), hhop]
    exact (findKey_eq_some_iff (nodup_hosts h hformed)).mpr ⟨mem_append_right _ htarget, rfl⟩
  rw [HostsFile.findHost, hfound, Option.some_or]

theorem findHost_skipped (h : file.checked.Tidy format) (hformed : Formed newId file imported)
    {hop : String} {target : Host} (htarget : target ∈ incoming newId imported)
    (hskipped : target ∉ addable newId file imported groupName) (hhop : trim hop = target.id) :
    (apply newId file imported groupName).1.findHost hop = none := by
  have hin : ∀ host ∈ file.hosts ++ addable newId file imported groupName,
      host ∈ file.hosts ++ incoming newId imported := fun host hhost =>
    (append_sublist_append_left _).mpr addable_sublist |>.subset hhost
  rw [HostsFile.findHost, Option.or_eq_none_iff, HostsFile.host, hosts_apply (owned_of_tidy h),
    hhop, List.find?_eq_none, List.find?_eq_none]
  constructor
  · intro host hhost heq
    rw [beq_iff_eq] at heq
    rcases mem_append.mp hhost with hold | hadded
    · refine (fresh_incoming hformed htarget).unused (mem_append_right _ ?_)
      rw [HostsFile.checked, ← heq]
      exact mem_map_of_mem (mem_map_of_mem hold)
    · have hsame := inj_on_of_nodup_map (nodup_incoming hformed)
        (addable_sublist.subset hadded) htarget heq
      exact hskipped (hsame ▸ hadded)
  · intro host hhost
    rw [hformed.unnamed target htarget host (hin host hhost)]
    exact Bool.false_ne_true

theorem settled_of_keeps (hnew : NewIds format) (haccepted : Accepted format file)
    (hformed : Formed newId file imported) {chosen : List Host}
    (h : Keeps format newId file imported groupName (apply newId file imported groupName) chosen) :
    Settled format newId file imported groupName := by
  have htidy := (accepted_iff hnew file).mp haccepted
  have howned := owned_of_tidy htidy
  have hvalid := @accepted_apply_iff newId file imported groupName _ _ hnew haccepted hformed
  have hperm : chosen.Perm (addable newId file imported groupName) := by
    have hadded := h.added
    rw [hosts_apply howned] at hadded
    exact ((perm_append_left_iff _).mp hadded).symm
  obtain ⟨hnames, hhosts⟩ := hvalid.mp h.accepted
  refine ⟨hnames, hhosts, fun host hhost hsaved hknown => ?_, ?_⟩
  · have hadd : host ∈ addable newId file imported groupName := by
      by_contra hnot
      rcases h.skipped host hhost (fun hin => hnot (hperm.mem_iff.mp hin)) with hold | hbad
      · rw [hsaved] at hold
        cases hold
      · exact hbad hknown
    exact (valid_copy_iff hknown).mp (mem_addable.mp hadd).2.2
  · intro host hhost jump hjump hop hhop target htarget heq
    by_contra hskipped
    obtain ⟨found, hfound, -⟩ :=
      h.links host (hperm.mem_iff.mpr hhost) jump hjump hop hhop target htarget heq
    rw [findHost_skipped htidy hformed htarget hskipped heq] at hfound
    cases hfound

theorem keeps_of_settled (hnew : NewIds format) (haccepted : Accepted format file)
    (hformed : Formed newId file imported) (h : Settled format newId file imported groupName) :
    Keeps format newId file imported groupName (apply newId file imported groupName)
      (addable newId file imported groupName) := by
  have htidy := (accepted_iff hnew file).mp haccepted
  have howned := owned_of_tidy htidy
  have hvalid := @accepted_apply_iff newId file imported groupName _ _ hnew haccepted hformed
  refine ⟨prefix_groups_apply, ?_, hvalid.mpr ⟨h.names, h.tidy⟩, placed_incoming,
    addable_sublist, ?_, counts_apply, ?_, ?_, ?_⟩
  · rw [hosts_apply howned]
    exact sublist_append_left _ _
  · rw [hosts_apply howned]
  · intro host hhost group hgroup
    rw [groups_apply (ne_nil_of_mem hhost), map_append]
    exact mem_append_right _ (group_incoming hformed (addable_sublist.subset hhost) group hgroup)
  · intro host hhost hskipped
    by_contra hnot
    obtain ⟨hsaved, hknown⟩ := not_or.mp hnot
    rw [not_not] at hknown
    refine hskipped (mem_addable.mpr ⟨hhost, Bool.eq_false_iff.mpr hsaved, ?_⟩)
    exact (valid_copy_iff hknown).mpr (h.hops host hhost (Bool.eq_false_iff.mpr hsaved) hknown)
  · intro host hhost jump hjump hop hhop target htarget heq
    have htarget := h.links host hhost jump hjump hop hhop target htarget heq
    exact ⟨target, findHost_added htidy hformed htarget heq, Or.inl rfl⟩

/-- An import keeps what it should exactly when it is settled. -/
theorem apply_keeps_iff (hnew : NewIds format) (haccepted : Accepted format file)
    (hformed : Formed newId file imported) :
    (∃ chosen, Keeps format newId file imported groupName
      (apply newId file imported groupName) chosen) ↔
        Settled format newId file imported groupName :=
  ⟨fun ⟨_, h⟩ => settled_of_keeps hnew haccepted hformed h,
    fun h => ⟨_, keeps_of_settled hnew haccepted hformed h⟩⟩

end

end Importing

namespace ImportWitness

open HostsCheckWitness (format)
open ResolveWitness (bare)
open Importing

def made (count : Nat) : String := String.ofList (List.replicate (count + 1) 'n')

def bastion (id : String) : Host :=
  { bare with id, name := "bastion", address := "bastion.example.com" }

/-- A host that is reached through the bastion. -/
def inner : Host := { bare with id := "m2", jump := some ["m1"] }

/-- A bastion and a host behind it. -/
def pair : Imported := ⟨[], [bastion "m1", inner]⟩

/-- A host as it comes in, in the new group. -/
def placed (host : Host) : Host := { host with group := some (made 0) }

theorem mem_inner : placed inner ∈ incoming made pair := mem_cons_of_mem _ mem_cons_self

def saved : HostsFile := ⟨[], [bastion "b"], .empty⟩

def other : HostsFile := ⟨[], [{ bastion "b" with name := "other" }], .empty⟩

theorem accepted_single {host : Host} (hvalid : validHostId host.id = true)
    (howned : host.plain.isLinked = false) (hname : trim host.name = host.name ∧ host.name ≠ "")
    (haddress : trim host.address = host.address) (hrest : host.group = none ∧ host.tags = [] ∧
      host.port = none) : Accepted format ⟨[], [host], .empty⟩ := by
  obtain ⟨hgroup, htags, hport⟩ := hrest
  rw [accepted_iff EditsWitness.newIds]
  refine ⟨⟨nodup_singleton _, ?_, nofun, nofun, ?_, ?_⟩, nofun, ?_⟩
  · exact forall_mem_singleton.mpr hvalid
  · refine forall_mem_singleton.mpr fun group h => ?_
    exact absurd (hgroup.symm.trans h) nofun
  · refine forall_mem_singleton.mpr fun h => ?_
    rw [Host.plain, hport] at h
    cases h
  · refine forall_mem_singleton.mpr ⟨howned, hname, haddress, ?_⟩
    rw [Host.plain, htags]
    exact ⟨nofun, nodup_nil⟩

theorem pair_formed {library : HostsFile}
    (hfresh : ∀ id ∈ newIds made pair, validHostId id = true ∧
      linkedPrefix.toList.isPrefixOf id.toList = false ∧ id ∉ library.checked.ids)
    (hnames : ∀ target ∈ incoming made pair, ∀ host ∈ library.hosts ++ incoming made pair,
      HostsFile.sameName host.name target.id = false) : Formed made library pair where
  parents before group after heq := by
    have hlength := congrArg List.length heq
    simp [pair] at hlength
  hostGroups := by
    intro host hhost group hgroup
    simp only [pair, mem_cons, not_mem_nil, or_false] at hhost
    rcases hhost with rfl | rfl <;> cases hgroup
  nodup := by decide
  fresh id hid := ⟨(hfresh id hid).1, (hfresh id hid).2.1, (hfresh id hid).2.2⟩
  unnamed := hnames

/-- The bastion is saved already: the host behind it keeps an id that no host has. -/
theorem saved_unlinked : Accepted format saved ∧ Formed made saved pair ∧
    ¬ ∃ chosen, Keeps format made saved pair "Imported"
      (apply made saved pair "Imported") chosen := by
  have haccepted : Accepted format saved :=
    accepted_single (by decide) (by decide) (by decide) (by decide) (by decide)
  have hformed : Formed made saved pair := pair_formed (by decide) (by decide)
  refine ⟨haccepted, hformed, fun ⟨chosen, h⟩ => ?_⟩
  have hsettled := settled_of_keeps EditsWitness.newIds haccepted hformed h
  have hinner : placed inner ∈ addable made saved pair "Imported" :=
    mem_addable.mpr ⟨mem_inner, by decide, by decide⟩
  have hbastion := hsettled.links _ hinner ["m1"] rfl "m1" List.mem_cons_self
    (placed (bastion "m1")) List.mem_cons_self (by decide)
  exact absurd (mem_addable.mp hbastion).2.1 (by decide)

theorem addable_other : addable made other pair "Imported" =
    [placed (bastion "m1"), placed inner] := by
  have hfirst : placed (bastion "m1") ∈ addable made other pair "Imported" :=
    mem_addable.mpr ⟨mem_cons_self, by decide, by decide⟩
  have hsecond : placed inner ∈ addable made other pair "Imported" :=
    mem_addable.mpr ⟨mem_inner, by decide, by decide⟩
  refine List.filter_eq_self.mpr fun host hhost => ?_
  rcases mem_cons.mp hhost with rfl | hlast
  · exact (mem_filter.mp hfirst).2
  · rw [mem_singleton.mp hlast]
    exact (mem_filter.mp hsecond).2

/-- Both are new: the host behind the bastion goes through the bastion that was added. -/
theorem other_linked : ∃ chosen, Keeps format made other pair "Imported"
    (apply made other pair "Imported") chosen := by
  have haccepted : Accepted format other :=
    accepted_single (by decide) (by decide) (by decide) (by decide) (by decide)
  have hhop : failsWith (Target.parseEndpoint (Text.trim "m1".toList)) = false := by decide
  have hjump : ∀ host ∈ incoming made pair, ∀ jump ∈ host.jump, ∀ hop ∈ jump, hop = "m1" := by
    decide
  refine (apply_keeps_iff EditsWitness.newIds haccepted
    (pair_formed (by decide) (by decide))).mpr ⟨?_, ?_, ?_, ?_⟩
  · exact fun _ => ⟨by decide, List.forall_mem_nil _⟩
  · rw [addable_other]
    have htrimmed : ∀ host ∈ [placed (bastion "m1"), placed inner],
        trim host.name = host.name ∧ trim host.address = host.address ∧ host.tags = [] := by
      decide
    intro host hhost
    obtain ⟨hname, haddress, htags⟩ := htrimmed host hhost
    exact ⟨hname, haddress, htags ▸ ⟨nofun, List.nodup_nil⟩⟩
  · intro host hhost _ _ jump hin hop hmem _ _
    rw [hjump host hhost jump hin hop hmem]
    exact hhop
  · intro host _ _ _ _ _ target htarget _
    rw [addable_other]
    exact htarget

end ImportWitness

end Opensesh.Saved
