/-
Every edit keeps the library well formed and tidied, so loading it again changes nothing.
-/
import Opensesh.Edits

namespace Opensesh

open List

section UpdateFirst

variable {α β : Type} {p : α → Bool} {change : α → α} {l : List α}

theorem mem_updateFirst {x : α} (h : x ∈ updateFirst p change l) :
    x ∈ l ∨ ∃ y ∈ l, p y = true ∧ x = change y := by
  induction l with
  | nil => exact .inl h
  | cons entry rest ih =>
    rw [updateFirst] at h
    split at h
    · rename_i hentry
      rcases mem_cons.mp h with rfl | hrest
      · exact .inr ⟨entry, mem_cons_self, hentry, rfl⟩
      · exact .inl (mem_cons_of_mem _ hrest)
    · rcases mem_cons.mp h with rfl | hrest
      · exact .inl mem_cons_self
      · rcases ih hrest with hold | ⟨y, hy, hchanged⟩
        · exact .inl (mem_cons_of_mem _ hold)
        · exact .inr ⟨y, mem_cons_of_mem _ hy, hchanged⟩

theorem map_updateFirst {f : α → β} (hsame : ∀ y ∈ l, p y = true → f (change y) = f y) :
    (updateFirst p change l).map f = l.map f := by
  induction l with
  | nil => rfl
  | cons entry rest ih =>
    rw [updateFirst]
    split
    · rename_i hentry
      rw [map_cons, map_cons, hsame entry mem_cons_self hentry]
    · rw [map_cons, map_cons, ih fun y hy => hsame y (mem_cons_of_mem _ hy)]

/-- What does not meet the condition, before or after, is as it was. -/
theorem filter_updateFirst {q : α → Bool} (hold : ∀ y ∈ l, p y = true → q y = false)
    (hnew : ∀ y ∈ l, p y = true → q (change y) = false) :
    (updateFirst p change l).filter q = l.filter q := by
  induction l with
  | nil => rfl
  | cons entry rest ih =>
    have hrest := ih (fun y hy => hold y (mem_cons_of_mem _ hy))
      fun y hy => hnew y (mem_cons_of_mem _ hy)
    rw [updateFirst]
    split
    · rename_i hentry
      have hbefore := hold entry mem_cons_self hentry
      have hafter := hnew entry mem_cons_self hentry
      rw [filter_cons_of_neg (by simp [hafter]), filter_cons_of_neg (by simp [hbefore])]
    · rw [filter_cons, filter_cons, hrest]

variable {groups : List Group} {id : String}

/-- The group found after one was changed. -/
theorem find?_updateFirst {change : Group → Group}
    (hid : ∀ group, group.id = id → (change group).id = id) (other : String) :
    (updateFirst (fun group => group.id == id) change groups).find?
        (fun group => group.id == other) =
      if other = id then (groups.find? fun group => group.id == id).map change
      else groups.find? fun group => group.id == other := by
  induction groups with
  | nil => simp [updateFirst]
  | cons head rest ih =>
    rw [updateFirst]
    by_cases hhead : head.id = id
    · have hchanged := hid head hhead
      by_cases hother : other = id
      · simp [hhead, hother, hchanged]
      · have hne : ¬ id = other := fun heq => hother heq.symm
        simp [hhead, hother, hchanged, hne]
    · rw [if_neg (by simpa using hhead), List.find?_cons, List.find?_cons, List.find?_cons, ih]
      have hne : (head.id == id) = false := by simpa using hhead
      rw [hne]
      by_cases hother : other = id
      · subst hother
        simp only [hne, if_pos]
      · rw [if_neg hother, if_neg hother]

theorem parentOf_updateFirst {change : Group → Group}
    (hid : ∀ group, group.id = id → (change group).id = id) {other : String} (hother : other ≠ id) :
    parentOf (updateFirst (fun group => group.id == id) change groups) other =
      parentOf groups other := by
  rw [parentOf, find?_updateFirst hid, if_neg hother, parentOf]

theorem parentOf_updateFirst_self {change : Group → Group} {parent : String}
    (hid : ∀ group, group.id = id → (change group).id = id)
    (h : parentOf (updateFirst (fun group => group.id == id) change groups) id = some parent) :
    ∃ group ∈ groups, group.id = id ∧ (change group).parent = some parent := by
  rw [parentOf, find?_updateFirst hid, if_pos rfl] at h
  obtain ⟨changed, hchanged, hparent⟩ := Option.bind_eq_some_iff.mp h
  obtain ⟨group, hgroup, rfl⟩ := Option.map_eq_some_iff.mp hchanged
  exact ⟨group, mem_of_find?_eq_some hgroup, by simpa using List.find?_some hgroup, hparent⟩

end UpdateFirst

theorem toList_numberedName (name : String) (n : Nat) :
    (numberedName name n).toList = name.toList ++ [' ', '('] ++ Nat.toDigits 10 n ++ [')'] := by
  simp [numberedName, String.toList_append, ← Nat.toList_repr]

/-- A free name is a numbered one. -/
theorem freeName_cases (taken : List String) (name : String) (tries n : Nat) :
    ∃ m, freeName taken name tries n = numberedName name m := by
  induction tries generalizing n with
  | zero => exact ⟨n, rfl⟩
  | succ tries ih =>
    rw [freeName]
    split
    · exact ih (n + 1)
    · exact ⟨n, rfl⟩

theorem trim_numberedName {name : String} (h : trim name = name ∧ name ≠ "") (n : Nat) :
    trim (numberedName name n) = numberedName name n ∧ numberedName name n ≠ "" := by
  have hname : Text.trim name.toList = name.toList := by
    rw [← String.ofList_inj, String.ofList_toList]
    exact h.1
  cases htext : name.toList with
  | nil => exact absurd (String.toList_eq_nil_iff.mp htext) h.2
  | cons c rest =>
    have hhead : isWhitespace c = false := by
      refine @Text.head?_trim name.toList c ?_
      rw [hname, htext]
      rfl
    constructor
    · rw [trim_eq, Text.trim_eq_self, String.ofList_toList]
      · rw [toList_numberedName, htext]
        simpa using hhead
      · rw [toList_numberedName, List.getLast?_append]
        rintro c' hlast
        obtain rfl : ')' = c' := by simpa using hlast
        decide
    · intro hempty
      have hlist := congrArg String.toList hempty
      rw [toList_numberedName, htext] at hlist
      simp at hlist

section Kept

variable {τ : Type} {format : HostsFormat τ} {editor : HostsEditor} {file : HostsFile}

/-- A host that a library with these groups can hold. -/
structure Host.Fits (format : HostsFormat τ) (groupIds : List String) (host : Host) :
    Prop where
  tidy : host.Tidy format.lower
  valid : validHostId host.id = true
  group : ∀ group ∈ host.group, group ∈ groupIds
  port : host.port ≠ some 0

theorem HostsFile.Tidy.fits (h : file.Tidy format) {host : Host} (hmem : host ∈ file.hosts) :
    host.Fits format (file.groups.map Group.id) :=
  ⟨h.hosts host hmem,
    h.wellFormed.valid _ (mem_append_right _ (mem_map_of_mem hmem)),
    h.wellFormed.hostGroups host hmem, h.wellFormed.ports host hmem⟩

/-- Other hosts in a file that stays tidy. -/
theorem HostsFile.Tidy.withHosts (h : file.Tidy format) {hosts : List Host}
    (hnodup : (file.groups.map Group.id ++ hosts.map Host.id).Nodup)
    (hfits : ∀ host ∈ hosts, host.Fits format (file.groups.map Group.id)) :
    ({ file with hosts := hosts } : HostsFile).Tidy format where
  wellFormed :=
    { nodup := hnodup
      valid := by
        intro id hid
        rcases mem_append.mp hid with hgroup | hhost
        · exact h.wellFormed.valid id (mem_append_left _ hgroup)
        · obtain ⟨host, hmem, rfl⟩ := mem_map.mp hhost
          exact (hfits host hmem).valid
      parents := h.wellFormed.parents
      climbs := h.wellFormed.climbs
      hostGroups := fun host hmem => (hfits host hmem).group
      ports := fun host hmem => (hfits host hmem).port }
  groups := h.groups
  hosts := fun host hmem => (hfits host hmem).tidy

/-- Hosts changed under the same ids. -/
theorem HostsFile.Tidy.withSameIds (h : file.Tidy format) {hosts : List Host}
    (hids : hosts.map Host.id = file.hosts.map Host.id)
    (hfits : ∀ host ∈ hosts, host.Fits format (file.groups.map Group.id)) :
    ({ file with hosts := hosts } : HostsFile).Tidy format :=
  h.withHosts (hids ▸ h.wellFormed.nodup) hfits

/-- A new host at some place. -/
theorem HostsFile.Tidy.withInserted (h : file.Tidy format) {host : Host} {place : Nat}
    (hplace : place ≤ file.hosts.length) (hnew : host.id ∉ file.ids)
    (hfits : host.Fits format (file.groups.map Group.id)) :
    ({ file with hosts := file.hosts.insertIdx place host } : HostsFile).Tidy format := by
  have hperm := perm_insertIdx host file.hosts hplace
  refine h.withHosts ?_ fun other hother => ?_
  · have hids : (file.groups.map Group.id ++
        (file.hosts.insertIdx place host).map Host.id).Perm (host.id :: file.ids) :=
      ((hperm.map Host.id).append_left _).trans perm_middle
    exact hids.nodup_iff.mpr (nodup_cons.mpr ⟨hnew, h.wellFormed.nodup⟩)
  · rcases mem_cons.mp (hperm.mem_iff.mp hother) with rfl | hold
    · exact hfits
    · exact h.fits hold

theorem host_eq_some {id : String} {host : Host} (h : file.host id = some host) :
    host ∈ file.hosts ∧ host.id = id :=
  ⟨mem_of_find?_eq_some h, by simpa using List.find?_some h⟩

theorem group_eq_some {id : String} {group : Group} (h : file.group id = some group) :
    group ∈ file.groups ∧ group.id = id :=
  ⟨mem_of_find?_eq_some h, by simpa using List.find?_some h⟩

theorem mem_ids_of_group {id : String} (h : (file.group id).isSome = true) :
    id ∈ file.groups.map Group.id := by
  obtain ⟨group, hgroup⟩ := Option.isSome_iff_exists.mp h
  obtain ⟨hmem, rfl⟩ := group_eq_some hgroup
  exact mem_map_of_mem hmem

theorem beforeLinked_le (hosts : List Host) : beforeLinked hosts ≤ hosts.length := findIdx_le_length

/-- A host that fits is stored. -/
theorem tidy_putHost (h : file.Tidy format) {host : Host}
    (hfits : ∀ rest, ({ host with rest := rest } : Host).Fits format (file.groups.map Group.id))
    (hid : host.id ∉ file.ids ∨ (file.host host.id).isSome = true) :
    (file.putHost editor host).Tidy format := by
  unfold HostsFile.putHost
  split
  · refine h.withSameIds (map_updateFirst fun existing _ hexisting => ?_) fun other hother => ?_
    · exact (beq_iff_eq.mp hexisting).symm
    · rcases mem_updateFirst hother with hold | ⟨existing, -, -, rfl⟩
      · exact h.fits hold
      · exact hfits _
  · rename_i hnone
    exact h.withInserted (beforeLinked_le _) (hid.resolve_right hnone) (hfits host.rest)

/-- An accepted host fits under a valid id. -/
theorem fits_of_valid {host : Host} {saved : Host}
    (hjson : hostFromJson format editor host = .ok saved)
    (hvalid : file.validateHost editor saved = []) {id : String} (rest : Document)
    (hid : validHostId id = true)
    (howned : linkedPrefix.toList.isPrefixOf id.toList = false) :
    ({ saved with id := id, rest := rest } : Host).Fits format (file.groups.map Group.id) := by
  unfold hostFromJson at hjson
  split at hjson
  · cases hjson
  · obtain rfl := Except.ok.inj hjson
    simp only [HostsFile.validateHost, append_eq_nil_iff, ite_eq_right_iff,
      cons_ne_self, imp_false] at hvalid
    obtain ⟨⟨⟨hname, hport⟩, hgroup⟩, -⟩ := hvalid
    rw [trim_trim] at hname
    refine ⟨⟨howned, ⟨trim_trim _, hname⟩, trim_trim _, cleanTags_clean _ _⟩, hid, ?_, hport⟩
    intro group hmem
    dsimp only at hmem hgroup
    refine mem_ids_of_group (Option.isSome_iff_ne_none.mpr fun hnone => hgroup ?_)
    rw [Option.mem_def.mp hmem, Option.any_some, hnone]
    rfl

theorem id_hostFromJson {host saved : Host}
    (hjson : hostFromJson format editor host = .ok saved) : saved.id = host.id := by
  unfold hostFromJson at hjson
  split at hjson
  · cases hjson
  · obtain rfl := Except.ok.inj hjson
    rfl

theorem tidy_saveHost (h : file.Tidy format) {newId : String} {host : Host}
    (hfresh : file.Fresh newId) (hid : host.id = "" ∨ host.id ∈ file.hosts.map Host.id) :
    (file.saveHost format editor newId host).Tidy format := by
  unfold HostsFile.saveHost
  cases hjson : hostFromJson format editor host with
  | error problems => exact h
  | ok saved =>
    have hsame := id_hostFromJson hjson
    dsimp only
    split
    · exact h
    rename_i hproblems
    rw [not_not] at hproblems
    split
    · exact tidy_putHost h (fun rest => fits_of_valid hjson hproblems rest hfresh.valid
        hfresh.owned) (.inl hfresh.unused)
    rename_i hsome
    split
    · exact h
    rename_i howned
    rw [Bool.or_eq_true, not_or, Bool.not_eq_true] at howned
    rw [hsame] at hsome
    obtain ⟨existing, hmem, hexisting⟩ := mem_map.mp (hid.resolve_left hsome)
    have hvalid : validHostId saved.id = true := by
      rw [hsame, ← hexisting]
      exact (h.fits hmem).valid
    refine tidy_putHost h (fun rest => ?_) (.inr ?_)
    · exact fits_of_valid hjson hproblems rest hvalid howned.1
    · rw [hsame, HostsFile.host, List.find?_isSome]
      exact ⟨existing, hmem, by simpa using hexisting⟩

theorem tidy_deleteHosts (h : file.Tidy format) (ids : List String) :
    (file.deleteHosts ids).Tidy format := by
  have hsub := filter_sublist (l := file.hosts)
    (p := fun host => host.isLinked || !ids.contains host.id)
  refine h.withHosts ?_ fun host hmem => h.fits (hsub.subset hmem)
  exact h.wellFormed.nodup.sublist ((hsub.map Host.id).append_left _)

theorem tidy_moveHosts (h : file.Tidy format) (ids : List String) (group : String) :
    (file.moveHosts ids group).Tidy format := by
  unfold HostsFile.moveHosts
  split
  · exact h
  rename_i hknown
  have htarget : ∀ target ∈ (if group = "" then none else some group),
      target ∈ file.groups.map Group.id := by
    intro target htarget
    by_cases hempty : group = ""
    · simp [hempty] at htarget
    · obtain rfl : group = target := by simpa [hempty] using htarget
      refine mem_ids_of_group (Option.isSome_iff_ne_none.mpr fun hnone => hknown ?_)
      simp [hempty, hnone]
  dsimp only
  generalize (if group = "" then none else some group) = target at htarget
  refine h.withSameIds ?_ fun host hmem => ?_
  · rw [map_map]
    refine map_congr_left fun host _ => ?_
    dsimp only [Function.comp]
    split <;> rfl
  · obtain ⟨old, hold, rfl⟩ := mem_map.mp hmem
    have hfits := h.fits hold
    split
    · exact ⟨⟨hfits.tidy.owned, hfits.tidy.name, hfits.tidy.address, hfits.tidy.tags⟩,
        hfits.valid, htarget, hfits.port⟩
    · exact hfits

theorem tidy_setFavorite (h : file.Tidy format) (ids : List String) (favorite : Bool) :
    (file.setFavorite editor ids favorite).Tidy format := by
  refine h.withSameIds ?_ fun host hmem => ?_
  · rw [map_map]
    refine map_congr_left fun host _ => ?_
    dsimp only [Function.comp]
    split <;> rfl
  · obtain ⟨old, hold, rfl⟩ := mem_map.mp hmem
    have hfits := h.fits hold
    split
    · exact ⟨⟨hfits.tidy.owned, hfits.tidy.name, hfits.tidy.address, hfits.tidy.tags⟩,
        hfits.valid, hfits.group, hfits.port⟩
    · exact hfits

/-- A copied host keeps the file tidy. -/
theorem tidy_duplicateHost (h : file.Tidy format) {newId : String} (id : String)
    (hfresh : file.Fresh newId) : (file.duplicateHost editor newId id).Tidy format := by
  unfold HostsFile.duplicateHost
  cases hsource : file.host id with
  | none => exact h
  | some source =>
    obtain ⟨hmem, -⟩ := host_eq_some hsource
    have hfits := h.fits hmem
    obtain ⟨n, hname⟩ := freeName_cases (file.hosts.map Host.name) source.name file.hosts.length 2
    dsimp only
    refine h.withInserted ?_ hfresh.unused ⟨⟨hfresh.owned, ?_, hfits.tidy.address,
      hfits.tidy.tags⟩, hfresh.valid, hfits.group, hfits.port⟩
    · split
      · rename_i index hindex
        exact (List.findIdx?_eq_some_iff_getElem.mp hindex).1
      · exact beforeLinked_le _
    · dsimp only
      rw [hfits.tidy.owned, if_neg (by simp), hname]
      exact trim_numberedName hfits.tidy.name n

/-- Other groups that are a forest as well. -/
theorem HostsFile.Tidy.withGroups (h : file.Tidy format) {groups : List Group}
    (hids : groups.map Group.id = file.groups.map Group.id)
    (hgroups : ∀ group ∈ groups, group.Tidy ∧
      ∀ parent ∈ group.parent, parent ∈ file.groups.map Group.id)
    (hclimbs : ∀ id ∈ file.groups.map Group.id, Climbs (parentOf groups) id) :
    ({ file with groups := groups } : HostsFile).Tidy format where
  wellFormed :=
    { nodup := by
        rw [HostsFile.ids, hids]
        exact h.wellFormed.nodup
      valid := by
        rw [HostsFile.ids, hids]
        exact h.wellFormed.valid
      parents := fun group hmem parent hparent => by
        rw [hids]
        exact (hgroups group hmem).2 parent hparent
      climbs := fun group hmem => hclimbs group.id (hids ▸ mem_map_of_mem hmem)
      hostGroups := fun host hmem group hgroup => by
        rw [hids]
        exact h.wellFormed.hostGroups host hmem group hgroup
      ports := h.wellFormed.ports }
  groups := fun group hmem => (hgroups group hmem).1
  hosts := h.hosts

/-- Nothing but a new group is below a group that is not there yet. -/
theorem HostsFile.Forest.mem_of_reach (h : file.Forest) {id other : String}
    (hid : id ∈ file.groups.map Group.id)
    (hreach : Relation.ReflTransGen (Up (parentOf file.groups)) id other) :
    other ∈ file.groups.map Group.id := by
  rcases Relation.ReflTransGen.cases_tail hreach with rfl | ⟨z, -, hup⟩
  · exact hid
  · obtain ⟨group, hmem, -, hparent⟩ := parentOf_eq_some hup
    exact h.parents group hmem other hparent

theorem HostsFile.Forest.climbs_of_mem (h : file.Forest) {id : String}
    (hid : id ∈ file.groups.map Group.id) : Climbs (parentOf file.groups) id := by
  obtain ⟨group, hmem, rfl⟩ := mem_map.mp hid
  exact h.climbs group hmem

/-- The parent that passes the check is a group outside the subtree. -/
structure ValidParent (file : HostsFile) (id : String) (parent : Option String) : Prop where
  known : ∀ target ∈ parent, target ∈ file.groups.map Group.id
  outside : id ≠ "" → ∀ target ∈ parent, target ∉ file.subtree id

/-- A group without errors makes no loop. -/
theorem validParent_of_valid {group : Group} (hvalid : file.validateGroup editor group = []) :
    trim group.name ≠ "" ∧ ValidParent file group.id group.parent := by
  unfold HostsFile.validateGroup at hvalid
  rw [append_eq_nil_iff, append_eq_nil_iff] at hvalid
  obtain ⟨⟨hname, hparent⟩, -⟩ := hvalid
  have hsome : trim group.name ≠ "" := by
    intro hempty
    rw [if_pos hempty] at hname
    cases hname
  cases hup : group.parent with
  | none => exact ⟨hsome, ⟨by simp, by simp⟩⟩
  | some parent =>
    rw [hup] at hparent
    dsimp only at hparent
    split at hparent
    · cases hparent
    rename_i hgood
    rw [Bool.or_eq_true, not_or, Option.isNone_iff_eq_none] at hgood
    refine ⟨hsome, ⟨fun target htarget => ?_, fun hid target htarget hin => ?_⟩⟩
    · obtain rfl := Option.some.inj htarget
      exact mem_ids_of_group (Option.isSome_iff_ne_none.mpr hgood.1)
    · obtain rfl := Option.some.inj htarget
      exact hgood.2 (by simp [hid, hin])

/-- Every group still climbs to the top. -/
theorem climbs_of_validParent (h : file.Forest) {groups : List Group} {id : String} (hid : id ≠ "")
    (hsame : ∀ other, other ≠ id → parentOf groups other = parentOf file.groups other)
    {parent : Option String} (hvalid : ValidParent file id parent)
    (hparent : ∀ target, parentOf groups id = some target → parent = some target) {other : String}
    (hother : Climbs (parentOf file.groups) other) :
    Climbs (parentOf groups) other := by
  refine hother.of_moved hsame fun target htarget => ?_
  have htarget := hparent target htarget
  have hknown := hvalid.known target htarget
  refine ⟨h.climbs_of_mem hknown, fun hreach => ?_⟩
  exact hvalid.outside hid target htarget (h.mem_subtree.mpr (.inr ⟨hknown, hreach⟩))

theorem ne_of_valid {id : String} (h : validHostId id = true) : id ≠ "" := by
  rintro rfl
  exact trim_ne_of_valid h rfl

theorem HostsFile.Tidy.validGroup (h : file.Tidy format) {id : String}
    (hid : id ∈ file.groups.map Group.id) : validHostId id = true :=
  h.wellFormed.valid id (mem_append_left _ hid)

/-- A group changed, its parent valid. -/
theorem tidy_updateGroup (h : file.Tidy format) {id : String} {change : Group → Group}
    {parent : Option String} (hmem : id ∈ file.groups.map Group.id)
    (hid : ∀ group, group.id = id → (change group).id = id)
    (hparent : ∀ group, (change group).parent = parent)
    (htidy : ∀ group ∈ file.groups, group.id = id → (change group).Tidy)
    (hvalid : ValidParent file id parent) :
    ({ file with
      groups := updateFirst (fun group => group.id == id) change file.groups } :
        HostsFile).Tidy format := by
  refine h.withGroups ?_ ?_ ?_
  · refine map_updateFirst fun group _ hgroup => ?_
    have hsame := beq_iff_eq.mp hgroup
    rw [hid group hsame, hsame]
  · intro group hgroup
    rcases mem_updateFirst hgroup with hold | ⟨old, hold, hsame, rfl⟩
    · exact ⟨h.groups group hold, h.wellFormed.parents group hold⟩
    · rw [hparent]
      exact ⟨htidy old hold (beq_iff_eq.mp hsame), hvalid.known⟩
  · intro other hother
    refine climbs_of_validParent h.wellFormed.forest (ne_of_valid (h.validGroup hmem))
      (fun other hne => parentOf_updateFirst hid hne) hvalid (fun target htarget => ?_)
      (h.wellFormed.forest.climbs_of_mem hother)
    obtain ⟨group, -, -, hup⟩ := parentOf_updateFirst_self hid htarget
    rw [← hparent group, hup]

theorem parentOf_append {groups : List Group} {group : Group} {other : String}
    (hother : other ≠ group.id) :
    parentOf (groups ++ [group]) other = parentOf groups other := by
  have hne : (group.id == other) = false := by simpa using fun heq => hother heq.symm
  rw [parentOf, List.find?_append, List.find?_cons, hne, parentOf]
  simp

theorem tidy_appendGroup (h : file.Tidy format) {group : Group} (hgroup : group.Tidy)
    (hnew : group.id ∉ file.ids) (hid : validHostId group.id = true)
    (hknown : ∀ parent ∈ group.parent, parent ∈ file.groups.map Group.id) :
    ({ file with groups := file.groups ++ [group] } : HostsFile).Tidy format := by
  have hforest := h.wellFormed.forest
  have hfresh : group.id ∉ file.groups.map Group.id := fun hin => hnew (mem_append_left _ hin)
  have hids : (file.groups ++ [group]).map Group.id = file.groups.map Group.id ++ [group.id] := by
    rw [map_append, map_singleton]
  have hself : parentOf (file.groups ++ [group]) group.id = group.parent := by
    have hnone : file.groups.find? (fun other => other.id == group.id) = none := by
      rw [List.find?_eq_none]
      intro other hother heq
      exact hfresh (beq_iff_eq.mp heq ▸ mem_map_of_mem hother)
    rw [parentOf, List.find?_append, hnone]
    simp
  have hclimbs : ∀ other ∈ file.groups.map Group.id,
      Climbs (parentOf (file.groups ++ [group])) other := by
    intro other hother
    refine (hforest.climbs_of_mem hother).of_moved (fun z hz => parentOf_append hz) ?_
    intro parent hparent
    have hin := hknown parent (hself ▸ hparent)
    exact ⟨hforest.climbs_of_mem hin, fun hreach => hfresh (hforest.mem_of_reach hin hreach)⟩
  refine ⟨⟨?_, ?_, ?_, ?_, ?_, h.wellFormed.ports⟩, ?_, h.hosts⟩
  · have hperm : ((file.groups ++ [group]).map Group.id ++ file.hosts.map Host.id).Perm
        (group.id :: file.ids) := by
      rw [hids, List.append_assoc]
      exact perm_middle
    exact hperm.nodup_iff.mpr (nodup_cons.mpr ⟨hnew, h.wellFormed.nodup⟩)
  · intro id hin
    rw [HostsFile.ids, hids, List.append_assoc] at hin
    rcases mem_append.mp hin with hold | hrest
    · exact h.wellFormed.valid id (mem_append_left _ hold)
    · rcases mem_append.mp hrest with hlast | hhost
      · obtain rfl := mem_singleton.mp hlast
        exact hid
      · exact h.wellFormed.valid id (mem_append_right _ hhost)
  · intro other hother parent hparent
    rw [hids]
    rcases mem_append.mp hother with hold | hlast
    · exact mem_append_left _ (h.wellFormed.parents other hold parent hparent)
    · obtain rfl := mem_singleton.mp hlast
      exact mem_append_left _ (hknown parent hparent)
  · intro other hother
    rcases mem_append.mp hother with hold | hlast
    · exact hclimbs other.id (mem_map_of_mem hold)
    · obtain rfl := mem_singleton.mp hlast
      cases hup : other.parent with
      | none => exact .top (hself.trans hup)
      | some parent => exact .up (hself.trans hup) (hclimbs parent (hknown parent hup))
  · intro host hhost group hgroup
    rw [hids]
    exact mem_append_left _ (h.wellFormed.hostGroups host hhost group hgroup)
  · intro other hother
    rcases mem_append.mp hother with hold | hlast
    · exact h.groups other hold
    · obtain rfl := mem_singleton.mp hlast
      exact hgroup

theorem tidy_putGroup (h : file.Tidy format) {group : Group}
    (htidy : ∀ rest, ({ group with rest := rest } : Group).Tidy)
    (hvalid : ValidParent file group.id group.parent)
    (hid : group.id ∉ file.ids ∧ validHostId group.id = true ∨
      group.id ∈ file.groups.map Group.id) :
    (file.putGroup editor group).Tidy format := by
  unfold HostsFile.putGroup
  split
  · rename_i hsome
    exact tidy_updateGroup h (mem_ids_of_group hsome) (fun _ _ => rfl) (fun _ => rfl)
      (fun _ _ _ => htidy _) hvalid
  · rename_i hnone
    have hunknown : group.id ∉ file.groups.map Group.id := by
      intro hin
      obtain ⟨old, hold, hsame⟩ := mem_map.mp hin
      refine hnone ?_
      rw [HostsFile.group, List.find?_isSome]
      exact ⟨old, hold, by simpa using hsame⟩
    obtain ⟨hnew, hgood⟩ := hid.resolve_right hunknown
    exact tidy_appendGroup h (htidy group.rest) hnew hgood hvalid.known

theorem tidy_saveGroup (h : file.Tidy format) {newId : String} {group : Group}
    (hfresh : file.Fresh newId) (hid : group.id = "" ∨ group.id ∈ file.groups.map Group.id) :
    (file.saveGroup editor newId group).Tidy format := by
  unfold HostsFile.saveGroup
  dsimp only
  split
  · exact h
  rename_i hproblems
  rw [not_not] at hproblems
  obtain ⟨hname, hvalid⟩ := validParent_of_valid hproblems
  have htidy : (groupFromJson editor group).Tidy :=
    ⟨trim_trim _, fun hempty => hname (by rw [hempty]; rfl)⟩
  split
  · refine tidy_putGroup h (fun _ => htidy) ⟨hvalid.known, fun _ target htarget hin => ?_⟩
      (.inl ⟨hfresh.unused, hfresh.valid⟩)
    -- A fresh id has no group below it.
    rcases h.wellFormed.forest.mem_subtree.mp hin with rfl | ⟨hknown, hreach⟩
    · exact hfresh.unused (mem_append_left _ (hvalid.known _ htarget))
    · exact hfresh.unused (mem_append_left _ (h.wellFormed.forest.mem_of_reach hknown hreach))
  · rename_i hsome
    exact tidy_putGroup h (fun _ => htidy) hvalid (.inr (hid.resolve_left hsome))

theorem tidy_moveGroup (h : file.Tidy format) (id parent : String) :
    (file.moveGroup editor id parent).Tidy format := by
  unfold HostsFile.moveGroup
  cases hgroup : file.group id with
  | none => exact h
  | some group =>
    obtain ⟨hmem, rfl⟩ := group_eq_some hgroup
    dsimp only
    generalize (if parent = "" then none else some parent) = target
    split
    · exact h
    rename_i hproblems
    rw [not_not] at hproblems
    obtain ⟨-, hvalid⟩ := validParent_of_valid hproblems
    exact tidy_updateGroup h (mem_map_of_mem hmem) (fun _ hsame => hsame)
      (fun _ => rfl) (fun old hold _ => h.groups old hold) hvalid

/-- A group under the deleted one goes to its parent. -/
def Group.reparent (group deleted : Group) : Group :=
  if group.parent = some deleted.id then { group with parent := deleted.parent } else group

def Host.regroup (host : Host) (deleted : Group) : Host :=
  if host.group = some deleted.id then { host with group := deleted.parent } else host

@[simp] theorem id_reparent (group deleted : Group) : (group.reparent deleted).id = group.id := by
  unfold Group.reparent
  split <;> rfl

@[simp] theorem name_reparent (group deleted : Group) :
    (group.reparent deleted).name = group.name := by
  unfold Group.reparent
  split <;> rfl

theorem parent_reparent (group deleted : Group) :
    (group.reparent deleted).parent =
      if group.parent = some deleted.id then deleted.parent else group.parent := by
  unfold Group.reparent
  split <;> rfl

@[simp] theorem id_regroup (host : Host) (deleted : Group) :
    (host.regroup deleted).id = host.id := by
  unfold Host.regroup
  split <;> rfl

theorem eraseP_eq_filter {groups : List Group} (hnodup : (groups.map Group.id).Nodup)
    (id : String) : groups.eraseP (fun group => group.id == id) =
      groups.filter fun group => group.id ≠ id := by
  induction groups with
  | nil => rfl
  | cons head rest ih =>
    obtain ⟨hlone, hrest⟩ := nodup_cons.mp hnodup
    by_cases hhead : head.id = id
    · have hkeep : rest.filter (fun group => group.id ≠ id) = rest := by
        refine List.filter_eq_self.mpr fun group hmem => ?_
        simpa using fun heq : group.id = id => hlone (hhead.trans heq.symm ▸ mem_map_of_mem hmem)
      rw [eraseP_cons_of_pos (by simpa using hhead),
        filter_cons_of_neg (by simpa using hhead), hkeep]
    · rw [eraseP_cons_of_neg (by simpa using hhead),
        filter_cons_of_pos (by simpa using hhead), ih hrest]

/-- The library without a group, whose members go to its parent. -/
def HostsFile.without (file : HostsFile) (deleted : Group) : HostsFile :=
  { file with
    groups := (file.groups.filter fun group => group.id ≠ deleted.id).map
      fun group => group.reparent deleted
    hosts := file.hosts.map fun host => host.regroup deleted }

variable {deleted : Group}

/-- Deleting a group moves its content up. -/
theorem deleteGroup_eq (h : file.Tidy format) (hmem : deleted ∈ file.groups) :
    file.deleteGroup deleted.id = file.without deleted := by
  have hforest := h.wellFormed.forest
  rw [HostsFile.deleteGroup, hforest.group_eq hmem, eraseP_eq_filter hforest.nodup]
  rfl

theorem deleteGroup_unknown {id : String} (hid : id ∉ file.groups.map Group.id) :
    file.deleteGroup id = file := by
  have hnone : file.group id = none := by
    rw [HostsFile.group, List.find?_eq_none]
    intro group hmem heq
    exact hid (beq_iff_eq.mp heq ▸ mem_map_of_mem hmem)
  rw [HostsFile.deleteGroup, hnone]

theorem ids_without (deleted : Group) :
    (file.without deleted).groups.map Group.id =
      (file.groups.map Group.id).filter fun id => id ≠ deleted.id := by
  rw [HostsFile.without, map_map, filter_map]
  exact map_congr_left fun group _ => id_reparent group deleted

theorem hostIds_without (deleted : Group) :
    (file.without deleted).hosts.map Host.id = file.hosts.map Host.id := by
  rw [HostsFile.without, map_map]
  exact map_congr_left fun host _ => id_regroup host deleted

theorem parentOf_without {other : String} (hother : other ≠ deleted.id) :
    parentOf (file.without deleted).groups other =
      if parentOf file.groups other = some deleted.id then deleted.parent
      else parentOf file.groups other := by
  have hfind : (file.without deleted).groups.find? (fun group => group.id == other) =
      (file.groups.find? fun group => group.id == other).map
        fun group => group.reparent deleted := by
    have hsame : ((fun group => group.id == other) ∘ fun group => group.reparent deleted) =
        fun group : Group => group.id == other := by
      funext group
      simp
    rw [HostsFile.without, List.find?_map, hsame, List.find?_filter]
    congr 2
    funext group
    by_cases heq : group.id = other
    · simp [heq, hother]
    · simp [heq]
  rw [parentOf, hfind, parentOf]
  cases file.groups.find? fun group => group.id == other with
  | none => simp
  | some group => exact parent_reparent group deleted

/-- Paths lose the deleted group alone. -/
theorem path_without (h : file.Forest) (hmem : deleted ∈ file.groups) {other : String}
    {above : List String} (hother : other ≠ deleted.id)
    (hpath : Path (parentOf file.groups) other above) :
    Path (parentOf (file.without deleted).groups) other (above.filter (· ≠ deleted.id)) := by
  have hup := h.parentOf_eq hmem
  refine hpath.of_removed (fun z hz hunder => ?_) (fun z hz hunder => ?_) hother
  · rw [parentOf_without hz, if_pos hunder, hup]
  · rw [parentOf_without hz, if_neg hunder]

theorem parent_ne_self (h : file.Forest) {group : Group} (hmem : group ∈ file.groups) :
    group.parent ≠ some group.id := fun hself =>
  (h.climbs group hmem).not_cycle (.single ((h.parentOf_eq hmem).trans hself))

theorem mem_ids_without (h : file.Forest) (hmem : deleted ∈ file.groups) {target : Option String}
    (htarget : ∀ id ∈ target, id ∈ file.groups.map Group.id) :
    ∀ id ∈ (if target = some deleted.id then deleted.parent else target),
      id ∈ (file.without deleted).groups.map Group.id := by
  intro id hid
  rw [ids_without]
  split at hid
  · refine mem_filter.mpr ⟨h.parents deleted hmem id hid, ?_⟩
    simpa using fun heq : id = deleted.id => parent_ne_self h hmem (heq ▸ hid)
  · rename_i hother
    refine mem_filter.mpr ⟨htarget id hid, ?_⟩
    simpa using fun heq : id = deleted.id => hother (heq ▸ hid)

theorem tidy_without (h : file.Tidy format) (hmem : deleted ∈ file.groups) :
    (file.without deleted).Tidy format := by
  have hforest := h.wellFormed.forest
  have hsub : ((file.without deleted).ids).Sublist file.ids := by
    rw [HostsFile.ids, ids_without, hostIds_without]
    exact filter_sublist.append_right _
  have hgroups : ∀ group ∈ (file.without deleted).groups,
      ∃ old ∈ file.groups, old.id ≠ deleted.id ∧ group = old.reparent deleted := by
    intro group hgroup
    obtain ⟨old, hold, rfl⟩ := mem_map.mp hgroup
    obtain ⟨hin, hne⟩ := mem_filter.mp hold
    exact ⟨old, hin, by simpa using hne, rfl⟩
  refine ⟨⟨h.wellFormed.nodup.sublist hsub, ?_, ?_, ?_, ?_, ?_⟩, ?_, ?_⟩
  · exact fun id hid => h.wellFormed.valid id (hsub.subset hid)
  · intro group hgroup parent hparent
    obtain ⟨old, hold, -, rfl⟩ := hgroups group hgroup
    rw [parent_reparent] at hparent
    exact mem_ids_without hforest hmem (hforest.parents old hold) parent hparent
  · intro group hgroup
    obtain ⟨old, hold, hne, rfl⟩ := hgroups group hgroup
    obtain ⟨above, hpath⟩ := (hforest.climbs old hold).path
    rw [id_reparent]
    exact (path_without hforest hmem hne hpath).climbs
  · intro host hhost group hgroup
    obtain ⟨old, hold, rfl⟩ := mem_map.mp hhost
    refine mem_ids_without hforest hmem (h.wellFormed.hostGroups old hold) group ?_
    unfold Host.regroup at hgroup
    split at hgroup
    · rename_i hin
      rwa [if_pos hin]
    · rename_i hout
      rwa [if_neg hout]
  · intro host hhost
    obtain ⟨old, hold, rfl⟩ := mem_map.mp hhost
    unfold Host.regroup
    split <;> exact h.wellFormed.ports old hold
  · intro group hgroup
    obtain ⟨old, hold, -, rfl⟩ := hgroups group hgroup
    unfold Group.Tidy
    rw [name_reparent]
    exact h.groups old hold
  · intro host hhost
    obtain ⟨old, hold, rfl⟩ := mem_map.mp hhost
    obtain ⟨howned, hname, haddress, htags⟩ := h.hosts old hold
    unfold Host.regroup
    split <;> exact ⟨howned, hname, haddress, htags⟩

theorem tidy_deleteGroup (h : file.Tidy format) (id : String) :
    (file.deleteGroup id).Tidy format := by
  by_cases hid : id ∈ file.groups.map Group.id
  · obtain ⟨deleted, hmem, rfl⟩ := mem_map.mp hid
    rw [deleteGroup_eq h hmem]
    exact tidy_without h hmem
  · rw [deleteGroup_unknown hid]
    exact h

/-- Each edit keeps the file tidy. -/
theorem tidy_apply (h : file.Tidy format) {edit : Edit} (hallows : file.Allows edit) :
    (file.apply format editor edit).Tidy format := by
  cases edit with
  | saveHost newId host =>
    rw [HostsFile.apply]
    exact tidy_saveHost h hallows.1 hallows.2
  | saveGroup newId group =>
    rw [HostsFile.apply]
    exact tidy_saveGroup h hallows.1 hallows.2
  | deleteHosts ids =>
    rw [HostsFile.apply]
    exact tidy_deleteHosts h ids
  | deleteGroup id =>
    rw [HostsFile.apply]
    exact tidy_deleteGroup h id
  | moveHosts ids group =>
    rw [HostsFile.apply]
    exact tidy_moveHosts h ids group
  | moveGroup id parent =>
    rw [HostsFile.apply]
    exact tidy_moveGroup h id parent
  | duplicateHost newId id =>
    rw [HostsFile.apply]
    exact tidy_duplicateHost h id hallows
  | setFavorite ids favorite =>
    rw [HostsFile.apply]
    exact tidy_setFavorite h ids favorite

end Kept

end Opensesh
