/-
The groups above a group and the groups inside one. In a well-formed library walking up
from a group and collecting downwards from one see the same forest.
-/
import Opensesh.HostsCheck

namespace Opensesh

open List

/-- The group with `id`. -/
def HostsFile.group (file : HostsFile) (id : String) : Option Group :=
  file.groups.find? fun group => group.id == id

/-- The host with `id`. -/
def HostsFile.host (file : HostsFile) (id : String) : Option Host :=
  file.hosts.find? fun host => host.id == id

/-- The groups from a group up to the top. Stops at a loop. -/
def groupChainFrom (file : HostsFile) : Nat → List Group → Option Group → List Group
  | 0, chain, _ => chain
  | _, chain, none => chain
  | steps + 1, chain, some group =>
    if chain.any fun seen => seen.id == group.id then chain
    else groupChainFrom file steps (chain ++ [group]) (group.parent.bind file.group)

def HostsFile.groupChain (file : HostsFile) (group : Option String) : List Group :=
  groupChainFrom file (file.groups.length + 1) [] (group.bind file.group)

/-- Adds the groups whose parent is found, in the order of the file. -/
def subtreeRound (groups : List Group) (found : List String) : List String :=
  groups.foldl (fun found group =>
    if group.parent.any fun parent => found.contains parent then found.insert group.id
    else found) found

/-- Rounds until one adds nothing. -/
def subtreeFrom (groups : List Group) : Nat → List String → List String
  | 0, found => found
  | rounds + 1, found =>
    let next := subtreeRound groups found
    if next.length = found.length then next else subtreeFrom groups rounds next

/-- `id` and every group inside it, at any depth. -/
def HostsFile.subtree (file : HostsFile) (id : String) : List String :=
  subtreeFrom file.groups (file.groups.length + 1) [id]

section Chains

variable {file : HostsFile}

/-- The ids of groups differ and their parents are groups, up to the top. -/
structure HostsFile.Forest (file : HostsFile) : Prop where
  nodup : (file.groups.map Group.id).Nodup
  parents : ∀ group ∈ file.groups, ∀ parent ∈ group.parent, parent ∈ file.groups.map Group.id
  climbs : ∀ group ∈ file.groups, Climbs (parentOf file.groups) group.id

theorem HostsFile.WellFormed.forest (h : file.WellFormed) : file.Forest :=
  ⟨(nodup_append'.mp h.nodup).1, h.parents, h.climbs⟩

variable (h : file.Forest)

include h

theorem HostsFile.Forest.group_eq {group : Group} (hmem : group ∈ file.groups) :
    file.group group.id = some group :=
  find_of_nodup h.nodup hmem

theorem HostsFile.Forest.parentOf_eq {group : Group} (hmem : group ∈ file.groups) :
    parentOf file.groups group.id = group.parent :=
  parentOf_of_nodup h.nodup hmem

variable {above : List String}

/-- The walk up collects the path to the top. -/
theorem groupChainFrom_ids {group : Group} (steps : Nat) (chain : List Group)
    (hmem : group ∈ file.groups) (hpath : Path (parentOf file.groups) group.id above)
    (hnew : ∀ seen ∈ chain, seen.id ∉ above) (hsteps : above.length ≤ steps) :
    (groupChainFrom file steps chain (some group)).map Group.id = chain.map Group.id ++ above := by
  induction above generalizing group steps chain with
  | nil => cases hpath
  | cons id above ih =>
    cases steps with
    | zero => simp at hsteps
    | succ steps =>
      have hid : id = group.id := by cases hpath <;> rfl
      subst hid
      have hseen : (chain.any fun seen => seen.id == group.id) = false := by
        rw [any_eq_false]
        intro seen hchain heq
        exact hnew seen hchain (by simp [beq_iff_eq.mp heq])
      rw [groupChainFrom, hseen]
      simp only [Bool.false_eq_true, if_false]
      have hnodup := hpath.nodup
      cases hpath with
      | top htop =>
        rw [h.parentOf_eq hmem] at htop
        rw [htop, Option.bind_none]
        cases steps <;> simp [groupChainFrom]
      | up hup hy =>
        rw [h.parentOf_eq hmem] at hup
        obtain ⟨next, hnext, hname⟩ := mem_map.mp (h.parents group hmem _ hup)
        subst hname
        rw [hup, Option.bind_some, h.group_eq hnext, ih steps _ hnext hy]
        · simp
        · intro seen hchain
          rcases mem_append.mp hchain with hold | hlast
          · exact fun hin => hnew seen hold (mem_cons_of_mem _ hin)
          · obtain rfl := mem_singleton.mp hlast
            exact (nodup_cons.mp hnodup).1
        · simpa using hsteps

theorem HostsFile.Forest.path_length {id : String} (hid : id ∈ file.groups.map Group.id)
    (hpath : Path (parentOf file.groups) id above) : above.length ≤ file.groups.length := by
  have hsub : above ⊆ file.groups.map Group.id := by
    intro other hother
    rcases Relation.ReflTransGen.cases_tail (hpath.mem_iff.mp hother) with rfl | ⟨z, -, hup⟩
    · exact hid
    · obtain ⟨group, hmem, -, hparent⟩ := parentOf_eq_some hup
      exact h.parents group hmem other hparent
  simpa using (subperm_of_subset hpath.nodup hsub).length_le

theorem HostsFile.Forest.groupChain_ids {id : String} (hid : id ∈ file.groups.map Group.id)
    (hpath : Path (parentOf file.groups) id above) :
    (file.groupChain (some id)).map Group.id = above := by
  have hlength := h.path_length hid hpath
  obtain ⟨group, hmem, rfl⟩ := mem_map.mp hid
  rw [HostsFile.groupChain, Option.bind_some, h.group_eq hmem,
    groupChainFrom_ids h _ [] hmem hpath (by simp) (hlength.trans (Nat.le_succ _))]
  rfl

theorem HostsFile.Forest.path {id : String} (hid : id ∈ file.groups.map Group.id) :
    ∃ above, Path (parentOf file.groups) id above ∧
      (file.groupChain (some id)).map Group.id = above := by
  obtain ⟨group, hmem, rfl⟩ := mem_map.mp hid
  obtain ⟨above, hpath⟩ := (h.climbs group hmem).path
  exact ⟨above, hpath, h.groupChain_ids hid hpath⟩

end Chains

section Subtrees

variable {groups : List Group}

theorem subset_subtreeRound (found : List String) : found ⊆ subtreeRound groups found := by
  induction groups generalizing found with
  | nil => exact fun _ hx => hx
  | cons group rest ih =>
    intro id hid
    rw [subtreeRound, foldl_cons]
    refine ih _ ?_
    split
    · exact mem_insert_of_mem hid
    · exact hid

variable {found : List String} {p : String → Prop} {file : HostsFile}

theorem nodup_subtreeRound (hnodup : found.Nodup) : (subtreeRound groups found).Nodup := by
  induction groups generalizing found with
  | nil => exact hnodup
  | cons group rest ih =>
    rw [subtreeRound, foldl_cons]
    refine ih ?_
    split
    · exact hnodup.insert
    · exact hnodup

/-- A round that starts from found ids leaves a group out only when its parent is not
among them. -/
theorem mem_subtreeRound {group : Group} (hmem : group ∈ groups) {parent : String}
    (hparent : group.parent = some parent) (hfound : parent ∈ found) :
    group.id ∈ subtreeRound groups found := by
  induction groups generalizing found with
  | nil => cases hmem
  | cons head rest ih =>
    rw [subtreeRound, foldl_cons]
    rcases mem_cons.mp hmem with rfl | hrest
    · have hany : (group.parent.any fun parent => found.contains parent) = true := by
        simpa [hparent] using hfound
      rw [hany, if_pos rfl]
      exact subset_subtreeRound _ mem_insert_self
    · refine ih hrest ?_
      split
      · exact mem_insert_of_mem hfound
      · exact hfound

theorem subtreeRound_induction (hfound : ∀ id ∈ found, p id)
    (hunder : ∀ group ∈ groups, ∀ parent ∈ group.parent, p parent → p group.id) :
    ∀ id ∈ subtreeRound groups found, p id := by
  induction groups generalizing found with
  | nil => exact hfound
  | cons head rest ih =>
    rw [subtreeRound, foldl_cons]
    refine ih ?_ fun group hmem => hunder group (mem_cons_of_mem _ hmem)
    split
    · rename_i hany
      intro id hid
      rcases mem_insert_iff.mp hid with rfl | hold
      · cases hparent : head.parent with
        | none => simp [hparent] at hany
        | some parent =>
          refine hunder head mem_cons_self parent hparent (hfound parent ?_)
          simpa [hparent] using hany
      · exact hfound id hold
    · exact hfound

theorem subset_subtreeFrom (rounds : Nat) (found : List String) :
    found ⊆ subtreeFrom groups rounds found := by
  induction rounds generalizing found with
  | zero => exact fun _ hx => hx
  | succ rounds ih =>
    intro id hid
    have hround : found ⊆ subtreeRound groups found := subset_subtreeRound found
    have hnext := hround hid
    rw [subtreeFrom]
    split
    · exact hnext
    · exact ih _ hnext

theorem subtreeFrom_induction (rounds : Nat) (hfound : ∀ id ∈ found, p id)
    (hunder : ∀ group ∈ groups, ∀ parent ∈ group.parent, p parent → p group.id) :
    ∀ id ∈ subtreeFrom groups rounds found, p id := by
  induction rounds generalizing found with
  | zero => exact hfound
  | succ rounds ih =>
    have hnext := subtreeRound_induction hfound hunder
    rw [subtreeFrom]
    split
    · exact hnext
    · exact ih hnext

/-- With a round for each group left out and one more, every group under a found one
is found. -/
theorem subtreeFrom_closed {rounds : Nat} (hnodup : found.Nodup) {all : List String}
    (hall : found ⊆ all) (hgroups : groups.map Group.id ⊆ all)
    (hrounds : all.length < found.length + rounds) {group : Group} (hmem : group ∈ groups)
    {parent : String} (hparent : group.parent = some parent)
    (hfound : parent ∈ subtreeFrom groups rounds found) :
    group.id ∈ subtreeFrom groups rounds found := by
  induction rounds generalizing found with
  | zero =>
    have hle := (subperm_of_subset hnodup hall).length_le
    omega
  | succ rounds ih =>
    have hsubset : found ⊆ subtreeRound groups found := subset_subtreeRound found
    have hnext : (subtreeRound groups found).Nodup := nodup_subtreeRound hnodup
    rw [subtreeFrom] at hfound ⊢
    split at hfound
    · rename_i hlength
      -- The round added nothing: what it found was found before it.
      have hperm := (subperm_of_subset hnodup hsubset).perm_of_length_le hlength.le
      rw [if_pos hlength]
      exact mem_subtreeRound hmem hparent (hperm.mem_iff.mpr hfound)
    · rename_i hlength
      rw [if_neg hlength]
      refine ih hnext ?_ ?_ hfound
      · exact subtreeRound_induction (fun id hid => hall hid) fun group hmem _ _ _ =>
          hgroups (mem_map_of_mem hmem)
      · have hle := (subperm_of_subset hnodup hsubset).length_le
        omega

theorem mem_subtree_of_parent {id : String} {group : Group} (hmem : group ∈ file.groups)
    {parent : String} (hparent : group.parent = some parent) (hfound : parent ∈ file.subtree id) :
    group.id ∈ file.subtree id :=
  have hall : [id] ⊆ id :: file.groups.map Group.id := by simp
  subtreeFrom_closed (by simp) hall (by simp) (by simp) hmem hparent hfound

/-- The groups inside `id` are those whose path to the top goes through it. -/
theorem HostsFile.Forest.mem_subtree (h : file.Forest) {id other : String} :
    other ∈ file.subtree id ↔ other = id ∨
      other ∈ file.groups.map Group.id ∧
        Relation.ReflTransGen (Up (parentOf file.groups)) other id := by
  constructor
  · refine subtreeFrom_induction _ (p := fun other => other = id ∨
      other ∈ file.groups.map Group.id ∧
        Relation.ReflTransGen (Up (parentOf file.groups)) other id) (by simp) ?_ other
    intro group hmem parent hparent hinside
    have hup : Up (parentOf file.groups) group.id parent := (h.parentOf_eq hmem).trans hparent
    refine .inr ⟨mem_map_of_mem hmem, ?_⟩
    rcases hinside with rfl | ⟨-, hreach⟩
    · exact .single hup
    · exact .head hup hreach
  · have hself : id ∈ file.subtree id := subset_subtreeFrom _ _ (by simp)
    rintro (rfl | ⟨-, hreach⟩)
    · exact hself
    · induction hreach using Relation.ReflTransGen.head_induction_on with
      | refl => exact hself
      | head hup _ ih =>
        obtain ⟨group, hmem, rfl, hparent⟩ := parentOf_eq_some hup
        exact mem_subtree_of_parent hmem hparent ih

theorem HostsFile.Forest.mem_subtree_iff_chain (h : file.Forest) {id other : String} :
    other ∈ file.subtree id ↔ other = id ∨
      other ∈ file.groups.map Group.id ∧ id ∈ (file.groupChain (some other)).map Group.id := by
  rw [h.mem_subtree]
  refine or_congr_right (and_congr_right fun hother => ?_)
  obtain ⟨above, hpath, hchain⟩ := h.path hother
  rw [hchain, hpath.mem_iff]

end Subtrees

end Opensesh
