/-
What an edit leaves alone, and what deleting a group does to the chains of the others.
With it, over any run of edits: the library stays well formed, is accepted as it is, and
the groups found downwards are those whose chain goes up through the group.
-/
import Opensesh.EditsKept

namespace Opensesh

/-- The hosts an edit may add, change or delete. -/
def Edit.hostIds (file : HostsFile) : Edit → List String
  | .saveHost newId host => [if host.id = "" then newId else host.id]
  | .deleteHosts ids => ids
  | .deleteGroup id => (file.hosts.filter fun host => host.group = some id).map Host.id
  | .moveHosts ids _ => ids
  | .duplicateHost newId _ => [newId]
  | .setFavorite ids _ => ids
  | _ => []

/-- The groups an edit may add, change or delete. -/
def Edit.groupIds (file : HostsFile) : Edit → List String
  | .saveGroup newId group => [if group.id = "" then newId else group.id]
  | .deleteGroup id =>
    id :: (file.groups.filter fun group => group.parent = some id).map Group.id
  | .moveGroup id _ => [id]
  | _ => []

/-- Every other host and group is there as before, in the same order. -/
structure Edit.Frame (edit : Edit) (file next : HostsFile) : Prop where
  hosts : (next.hosts.filter fun host => host.id ∉ edit.hostIds file) =
    file.hosts.filter fun host => host.id ∉ edit.hostIds file
  groups : (next.groups.filter fun group => group.id ∉ edit.groupIds file) =
    file.groups.filter fun group => group.id ∉ edit.groupIds file

/-- The members of a deleted group go to its parent, and the chains of other groups lose
it and nothing else. -/
structure HostsFile.Deleted (file : HostsFile) (deleted : Group) (next : HostsFile) :
    Prop where
  gone : deleted.id ∉ next.groups.map Group.id
  hosts : next.hosts = file.hosts.map fun host =>
    if host.group = some deleted.id then { host with group := deleted.parent } else host
  groups : ∀ group ∈ file.groups, group.id ≠ deleted.id →
    (if group.parent = some deleted.id then { group with parent := deleted.parent }
      else group) ∈ next.groups
  chains : ∀ other ∈ file.groups.map Group.id, other ≠ deleted.id →
    (next.groupChain (some other)).map Group.id =
      ((file.groupChain (some other)).map Group.id).filter (· ≠ deleted.id)

section Lists

variable {α : Type} {q : α → Bool}

theorem filter_insertIdx {x : α} (hx : q x = false) (l : List α) (place : Nat) :
    (l.insertIdx place x).filter q = l.filter q := by
  induction l generalizing place with
  | nil => cases place <;> simp [List.insertIdx_succ_nil, hx]
  | cons y rest ih =>
    cases place with
    | zero => simp [hx]
    | succ place =>
      rw [List.insertIdx_succ_cons, List.filter_cons, List.filter_cons, ih]

/-- A change that leaves alone what passes a test, before and after. -/
theorem filter_map_same {f : α → α} {l : List α} (htest : ∀ x ∈ l, q (f x) = q x)
    (hsame : ∀ x ∈ l, q x = true → f x = x) : (l.map f).filter q = l.filter q := by
  induction l with
  | nil => rfl
  | cons x rest ih =>
    have hrest := ih (fun y hy => htest y (List.mem_cons_of_mem _ hy))
      fun y hy => hsame y (List.mem_cons_of_mem _ hy)
    have hx := htest x List.mem_cons_self
    rw [List.map_cons]
    cases hq : q x with
    | true =>
      rw [List.filter_cons_of_pos (hx.trans hq), List.filter_cons_of_pos hq, hrest,
        hsame x List.mem_cons_self hq]
    | false =>
      rw [List.filter_cons_of_neg (by rw [hx, hq]; simp),
        List.filter_cons_of_neg (by rw [hq]; simp), hrest]

end Lists

section Frames

variable {τ : Type} {format : HostsFormat τ} {editor : HostsEditor} {file : HostsFile}

theorem frame_refl (edit : Edit) : edit.Frame file file := ⟨rfl, rfl⟩

theorem hosts_putHost {host : Host} (ids : List String) (hid : host.id ∈ ids) :
    ((file.putHost editor host).hosts.filter fun other => other.id ∉ ids) =
      file.hosts.filter fun other => other.id ∉ ids := by
  unfold HostsFile.putHost
  split
  · refine filter_updateFirst (fun existing _ hsame => ?_) fun existing _ _ => ?_
    · simpa [beq_iff_eq.mp hsame] using hid
    · simpa using hid
  · exact filter_insertIdx (by simpa using hid) _ _

theorem groups_putHost (host : Host) : (file.putHost editor host).groups = file.groups := by
  unfold HostsFile.putHost
  split <;> rfl

theorem frame_saveHost (newId : String) (host : Host) :
    (Edit.saveHost newId host).Frame file (file.saveHost format editor newId host) := by
  unfold HostsFile.saveHost
  cases hjson : hostFromJson format editor host with
  | error problems => exact frame_refl _
  | ok saved =>
    have hsame := id_hostFromJson hjson
    dsimp only
    split
    · exact frame_refl _
    split
    · rename_i hempty
      refine ⟨hosts_putHost _ ?_, by rw [groups_putHost]⟩
      simp [Edit.hostIds, ← hsame, hempty]
    rename_i hsome
    split
    · exact frame_refl _
    · refine ⟨hosts_putHost _ ?_, by rw [groups_putHost]⟩
      simp [Edit.hostIds, ← hsame, hsome]

theorem frame_saveGroup (newId : String) (group : Group) :
    (Edit.saveGroup newId group).Frame file (file.saveGroup editor newId group) := by
  have hput : ∀ saved : Group, saved.id ∈ (Edit.saveGroup newId group).groupIds file →
      (Edit.saveGroup newId group).Frame file (file.putGroup editor saved) := by
    intro saved hid
    unfold HostsFile.putGroup
    split
    · refine ⟨rfl, filter_updateFirst (fun existing _ hsame => ?_) fun _ _ _ => ?_⟩
      · simpa [beq_iff_eq.mp hsame] using hid
      · simpa using hid
    · refine ⟨rfl, ?_⟩
      dsimp only
      rw [List.filter_append, List.filter_cons_of_neg (by simpa using hid)]
      simp
  unfold HostsFile.saveGroup
  dsimp only
  split
  · exact frame_refl _
  refine hput _ ?_
  by_cases hempty : group.id = ""
  · simp [Edit.groupIds, groupFromJson, hempty]
  · simp [Edit.groupIds, groupFromJson, hempty]

theorem frame_deleteHosts (ids : List String) :
    (Edit.deleteHosts ids).Frame file (file.deleteHosts ids) := by
  refine ⟨?_, rfl⟩
  rw [HostsFile.deleteHosts, List.filter_filter]
  refine List.filter_congr fun host _ => ?_
  by_cases hid : host.id ∈ ids <;> simp [Edit.hostIds, hid]

theorem frame_moveHosts (ids : List String) (group : String) :
    (Edit.moveHosts ids group).Frame file (file.moveHosts ids group) := by
  unfold HostsFile.moveHosts
  split
  · exact frame_refl _
  dsimp only
  generalize (if group = "" then none else some group) = target
  refine ⟨filter_map_same (fun host _ => ?_) fun host _ hother => ?_, rfl⟩
  · split <;> rfl
  · have hid : host.id ∉ ids := of_decide_eq_true hother
    have hskip : ids.contains host.id = false := by simpa using hid
    rw [hskip, Bool.false_and, Bool.false_and]
    rfl

theorem frame_setFavorite (ids : List String) (favorite : Bool) :
    (Edit.setFavorite ids favorite).Frame file (file.setFavorite editor ids favorite) := by
  refine ⟨filter_map_same (fun host _ => ?_) fun host _ hother => ?_, rfl⟩
  · split <;> rfl
  · have hid : host.id ∉ ids := of_decide_eq_true hother
    have hskip : ids.contains host.id = false := by simpa using hid
    rw [hskip, Bool.false_and, Bool.false_and]
    rfl

theorem frame_duplicateHost (newId id : String) :
    (Edit.duplicateHost newId id).Frame file (file.duplicateHost editor newId id) := by
  unfold HostsFile.duplicateHost
  cases file.host id with
  | none => exact frame_refl _
  | some source => exact ⟨filter_insertIdx (by simp [Edit.hostIds]) _ _, rfl⟩

theorem frame_moveGroup (id parent : String) :
    (Edit.moveGroup id parent).Frame file (file.moveGroup editor id parent) := by
  unfold HostsFile.moveGroup
  cases hgroup : file.group id with
  | none => exact frame_refl _
  | some group =>
    obtain ⟨-, hid⟩ := group_eq_some hgroup
    dsimp only
    generalize (if parent = "" then none else some parent) = target
    split
    · exact frame_refl _
    refine ⟨rfl, filter_updateFirst (fun existing _ hsame => ?_) fun existing _ hsame => ?_⟩
    · simp [Edit.groupIds, beq_iff_eq.mp hsame, hid]
    · simp [Edit.groupIds, beq_iff_eq.mp hsame, hid]

theorem frame_deleteGroup (h : file.Tidy format) (id : String) :
    (Edit.deleteGroup id).Frame file (file.deleteGroup id) := by
  by_cases hid : id ∈ file.groups.map Group.id
  · obtain ⟨deleted, hmem, rfl⟩ := List.mem_map.mp hid
    rw [deleteGroup_eq h hmem]
    constructor
    · refine filter_map_same (fun host _ => by rw [id_regroup]) fun host hhost hother => ?_
      have hout : host.group ≠ some deleted.id := by
        intro hin
        have hmember : host.id ∈ (Edit.deleteGroup deleted.id).hostIds file :=
          List.mem_map_of_mem (List.mem_filter.mpr ⟨hhost, by simpa using hin⟩)
        simp [hmember] at hother
      rw [Host.regroup, if_neg hout]
    · rw [HostsFile.without, filter_map_same, List.filter_filter]
      · refine List.filter_congr fun group _ => ?_
        by_cases hself : group.id = deleted.id <;> simp [Edit.groupIds, hself]
      · exact fun group _ => by rw [id_reparent]
      · intro group hgroup hother
        have hout : group.parent ≠ some deleted.id := by
          intro hin
          have hmember : group.id ∈ (Edit.deleteGroup deleted.id).groupIds file :=
            List.mem_cons_of_mem _ (List.mem_map_of_mem (List.mem_filter.mpr
              ⟨(List.mem_filter.mp hgroup).1, by simpa using hin⟩))
          simp [hmember] at hother
        rw [Group.reparent, if_neg hout]
  · rw [deleteGroup_unknown hid]
    exact frame_refl _

theorem frame_apply (h : file.Tidy format) (edit : Edit) :
    edit.Frame file (file.apply format editor edit) := by
  unfold HostsFile.apply
  cases edit with
  | saveHost newId host => exact frame_saveHost newId host
  | saveGroup newId group => exact frame_saveGroup newId group
  | deleteHosts ids => exact frame_deleteHosts ids
  | deleteGroup id => exact frame_deleteGroup h id
  | moveHosts ids group => exact frame_moveHosts ids group
  | moveGroup id parent => exact frame_moveGroup id parent
  | duplicateHost newId id => exact frame_duplicateHost newId id
  | setFavorite ids favorite => exact frame_setFavorite ids favorite

theorem deleted_deleteGroup (h : file.Tidy format) {deleted : Group}
    (hmem : deleted ∈ file.groups) : file.Deleted deleted (file.deleteGroup deleted.id) := by
  have hforest := h.wellFormed.forest
  have hafter := (tidy_without h hmem).wellFormed.forest
  rw [deleteGroup_eq h hmem]
  refine ⟨?_, rfl, fun group hgroup hne => ?_, fun other hother hne => ?_⟩
  · rw [ids_without]
    simp
  · exact List.mem_map.mpr ⟨group, List.mem_filter.mpr ⟨hgroup, by simpa using hne⟩, rfl⟩
  · obtain ⟨above, hpath, hchain⟩ := hforest.path hother
    have hin : other ∈ (file.without deleted).groups.map Group.id := by
      rw [ids_without]
      exact List.mem_filter.mpr ⟨hother, by simpa using hne⟩
    rw [hafter.groupChain_ids hin (path_without hforest hmem hne hpath), hchain]

end Frames

section Runs

variable {τ : Type} (format : HostsFormat τ) (editor : HostsEditor)

theorem tidy_run {start file : HostsFile} {edits : List (Bool × Edit)}
    (hrun : GoodRun (HostsFile.modify format editor) (fun file event => file.Allows event.2)
      start edits file) (hstart : start.Tidy format) : file.Tidy format := by
  refine hrun.invariant (p := fun file => file.Tidy format) ?_ hstart
  intro before after event htidy hallows hstep
  obtain rfl := Option.some.inj hstep
  split
  · exact htidy
  · exact tidy_apply htidy hallows

/-- Whatever the edits, the library stays well formed: `check` accepts it as it is, with
all its hosts saved, and finds below a group the groups whose chain goes through it. An
edit leaves every other host and group alone, and a deleted group's members go to its
parent. -/
theorem edits_keep_well_formed (hnew : NewIds format) {start file : HostsFile}
    (hstart : start.check format = start) {edits : List (Bool × Edit)}
    (hrun : GoodRun (HostsFile.modify format editor) (fun file event => file.Allows event.2)
      start edits file) :
    file.WellFormed ∧ file.check format = file ∧ file.saved = file.hosts ∧
      (∀ id other, other ∈ file.subtree id ↔ other = id ∨
        other ∈ file.groups.map Group.id ∧ id ∈ (file.groupChain (some other)).map Group.id) ∧
      (∀ edit : Edit, edit.Frame file (file.apply format editor edit)) ∧
      ∀ deleted ∈ file.groups, file.Deleted deleted
        (file.apply format editor (.deleteGroup deleted.id)) := by
  have htidy := tidy_run format editor hrun ((check_eq_self_iff hnew start).mp hstart)
  refine ⟨htidy.wellFormed, check_of_tidy htidy, ?_, ?_, frame_apply htidy, ?_⟩
  · exact List.filter_eq_self.mpr fun host hmem => by simp [(htidy.hosts host hmem).owned]
  · exact fun id other => htidy.wellFormed.forest.mem_subtree_iff_chain
  · exact fun deleted hmem => deleted_deleteGroup htidy hmem

end Runs

namespace EditsWitness

open HostsCheckWitness

/-- An editor that leaves the other fields alone and finds nothing wrong with them. -/
def editor : HostsEditor where
  tidyHost := id
  tidyGroup := id
  hostProblems _ _ := []
  groupProblems _ _ := []
  keepExtra rest _ := rest
  favorite _ := false
  setFavorite _ rest := rest

def host (id : String) (group : Option String) : Host := ⟨id, id, id, group, none, [], .empty⟩

/-- A group in a group, with a host in it. -/
def library : HostsFile :=
  { file [group "a" none, group "b" (some "a")] with hosts := [host "h" (some "b")] }

/-- A group can't go into one that is inside it; a new host gets its id; the members of a
deleted group go to its parent. -/
def edits : List (Bool × Edit) :=
  [(false, .moveGroup "a" "b"), (false, .saveHost "n" { host "new" none with id := "" }),
    (false, .deleteGroup "b")]

example : ((runFrom (HostsFile.modify format editor) library edits).map fun file =>
    (file.groups.map fun group => (group.id, group.parent),
      file.hosts.map fun host => (host.id, host.group))) =
    some ([("a", none)], [("h", some "a"), ("n", none)]) := by decide

theorem newIds : NewIds format := by
  have hids : ∀ made < 8, validHostId (format.newId made) = true ∧
      linkedPrefix.toList.isPrefixOf (format.newId made).toList = false := by decide
  have hmod : ∀ made, format.newId made = format.newId (made % 8) := by simp [format]
  exact ⟨fun made => hmod made ▸ (hids _ (Nat.mod_lt made (by decide))).1,
    fun made => hmod made ▸ (hids _ (Nat.mod_lt made (by decide))).2⟩

theorem good_edits {file : HostsFile}
    (hrun : runFrom (HostsFile.modify format editor) library edits = some file) :
    GoodRun (HostsFile.modify format editor) (fun file event => file.Allows event.2)
      library edits file := by
  obtain rfl := Option.some.inj hrun
  refine .cons trivial rfl (.cons ⟨⟨by decide, by decide, by decide⟩, .inl rfl⟩ rfl
    (.cons trivial rfl (.nil _)))

theorem library_stays : ∃ file,
    runFrom (HostsFile.modify format editor) library edits = some file ∧
      file.check format = file := by
  refine ⟨_, rfl, ?_⟩
  have hstart : library.check format = library := rfl
  exact (edits_keep_well_formed format editor newIds hstart (good_edits rfl)).2.1

end EditsWitness

end Opensesh
