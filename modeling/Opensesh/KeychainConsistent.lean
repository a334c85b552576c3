/-
What checking a keychain gives, whatever the file holds: valid ids told apart, hosts with
something saved for them, and nothing that refers to what is not there.
-/
import Opensesh.KeychainGarbage

namespace Opensesh.Vault

open List

namespace KeychainFile

section Entries

variable {α : Type} {kind : EntryKind α} {newId : Nat → String}

/-- What `check` has kept of these entries, with ids that are valid, told apart and none of those
taken before. -/
structure KeptApart (kind : EntryKind α) (entries : List α) (before : List String)
    (state : Checking α) : Prop where
  old : ∀ id ∈ before, id ∈ state.ids
  taken : ∀ entry ∈ state.kept, kind.id entry ∈ state.ids
  apart : ∀ entry ∈ state.kept, kind.id entry ∉ before
  valid : ∀ entry ∈ state.kept, validId (kind.id entry) = true
  checked : ∀ entry ∈ state.kept, ∃ id, ∃ given ∈ entries, entry = kind.checked id given
  nodup : (state.kept.map kind.id).Nodup

variable {entries : List α} {before : List String} {state : Checking α}

theorem checkEntry_apart (hid : ∀ id entry, kind.id (kind.checked id entry) = id)
    (hnew : ∀ n, validId (newId n) = true) (h : KeptApart kind entries before state) (index : Nat)
    {entry : α} (hentry : entry ∈ entries) :
    KeptApart kind entries before (checkEntry newId kind index state entry) := by
  have hvalid : validId (givenEntryId newId state (kind.id entry)) = true := by
    rw [givenEntryId]
    split
    · assumption
    · exact hnew _
  have htakeIds : ∀ label, (takeId state label (kind.id entry)).ids = state.ids := by
    intro label
    rw [takeId]
    split <;> rfl
  have htakeKept : ∀ label, (takeId state label (kind.id entry)).kept = state.kept := by
    intro label
    rw [takeId]
    split <;> rfl
  rw [checkEntry]
  generalize givenEntryId newId state (kind.id entry) = id at hvalid
  dsimp only
  rw [htakeIds, htakeKept]
  split
  · exact ⟨by simpa [Checking.warn, htakeIds] using h.old,
      by simpa [Checking.warn, htakeIds, htakeKept] using h.taken,
      by simpa [Checking.warn, htakeKept] using h.apart,
      by simpa [Checking.warn, htakeKept] using h.valid,
      by simpa [Checking.warn, htakeKept] using h.checked,
      by simpa [Checking.warn, htakeKept] using h.nodup⟩
  · rename_i hfresh
    refine ⟨fun other hother => mem_cons_of_mem _ (h.old other hother), ?_, ?_, ?_, ?_, ?_⟩
    · rw [forall_mem_append, forall_mem_singleton, hid]
      exact ⟨fun other hother => mem_cons_of_mem _ (h.taken other hother), mem_cons_self⟩
    · rw [forall_mem_append, forall_mem_singleton, hid]
      exact ⟨h.apart, fun hmem => hfresh (h.old id hmem)⟩
    · rw [forall_mem_append, forall_mem_singleton, hid]
      exact ⟨h.valid, hvalid⟩
    · rw [forall_mem_append, forall_mem_singleton]
      exact ⟨h.checked, id, entry, hentry, rfl⟩
    · rw [map_append, map_singleton, hid]
      refine nodup_append'.mpr ⟨h.nodup, nodup_singleton _, ?_⟩
      intro other hother hlast
      obtain rfl := mem_singleton.mp hlast
      obtain ⟨given, hgiven, rfl⟩ := mem_map.mp hother
      exact hfresh (h.taken given hgiven)

theorem checkEntries_apart {rest : List α} (hid : ∀ id entry, kind.id (kind.checked id entry) = id)
    (hnew : ∀ n, validId (newId n) = true) (h : KeptApart kind entries before state) (index : Nat)
    (hrest : ∀ entry ∈ rest, entry ∈ entries) :
    KeptApart kind entries before (checkEntries newId kind index state rest) := by
  induction rest generalizing index state with
  | nil => exact h
  | cons entry rest ih =>
    rw [forall_mem_cons] at hrest
    exact ih (checkEntry_apart hid hnew h index hrest.1) (index + 1) hrest.2

theorem KeptApart.new (kind : EntryKind α) (entries : List α) (before : List String) (made : Nat)
    (warnings : List Warning) : KeptApart kind entries before ⟨[], before, made, warnings⟩ :=
  ⟨fun _ hid => hid, by simp, by simp, by simp, by simp, nodup_nil⟩

/-- What is said of entries that are kept. -/
def saidOf (kind : EntryKind α) (index : Nat) (entries : List α) : List Warning :=
  (entries.zipIdx index).flatMap fun entry => kind.warnings (kind.label ++ s!"[{entry.2}]") entry.1

theorem checkEntries_same {entries : List α} {state : Checking α} (index : Nat)
    (hvalid : ∀ entry ∈ entries, validId (kind.id entry) = true)
    (hnodup : (entries.map kind.id).Nodup)
    (hfresh : ∀ entry ∈ entries, kind.id entry ∉ state.ids)
    (hsame : ∀ entry ∈ entries, kind.checked (kind.id entry) entry = entry) :
    checkEntries newId kind index state entries =
      { kept := state.kept ++ entries
        ids := (entries.map kind.id).reverse ++ state.ids
        made := state.made
        warnings := state.warnings ++ saidOf kind index entries } := by
  induction entries generalizing index state with
  | nil => simp [checkEntries, saidOf]
  | cons entry rest ih =>
    rw [forall_mem_cons] at hvalid hfresh hsame
    rw [map_cons, nodup_cons] at hnodup
    have hstep : checkEntry newId kind index state entry =
        { kept := state.kept ++ [entry]
          ids := kind.id entry :: state.ids
          made := state.made
          warnings := state.warnings ++ kind.warnings (kind.label ++ s!"[{index}]") entry } := by
      rw [checkEntry, givenEntryId, takeId, if_pos hvalid.1, if_pos hvalid.1]
      dsimp only
      rw [if_neg hfresh.1, hsame.1]
      rfl
    rw [checkEntries, hstep, ih (index + 1) hvalid.2 hnodup.2 ?_ hsame.2]
    · simp [saidOf, zipIdx_cons]
    · intro other hother hmem
      rcases mem_cons.mp hmem with heq | hold
      · exact hnodup.1 (heq ▸ mem_map_of_mem hother)
      · exact hfresh.2 other hother hold

end Entries

section Hosts

variable {τ κ : Type} {format : KeychainFormat τ κ}

/-- What `check` has kept of the entries of hosts. -/
structure KeptHosts (format : KeychainFormat τ κ) (entries : List HostSecrets)
    (state : Checking HostSecrets) : Prop where
  taken : ∀ entry ∈ state.kept, entry.host ∈ state.ids
  checked : ∀ entry ∈ state.kept, entry.isEmpty = false ∧
    ∃ given ∈ entries, entry = checkedHost format given ∧ trim given.host ≠ "" ∧
      (trim given.host).utf8ByteSize ≤ maxEntryIdLen
  nodup : (state.kept.map HostSecrets.host).Nodup

theorem KeptHosts.new (entries : List HostSecrets) : KeptHosts format entries ⟨[], [], 0, []⟩ :=
  ⟨by simp, by simp, nodup_nil⟩

variable {entries : List HostSecrets} {state : Checking HostSecrets}

theorem checkHost_kept (h : KeptHosts format entries state) (index : Nat) {entry : HostSecrets}
    (hentry : entry ∈ entries) : KeptHosts format entries (checkHost format index state entry) := by
  rw [checkHost]
  dsimp only
  split
  · exact ⟨h.taken, h.checked, h.nodup⟩
  · rename_i hvalid
    rw [not_or, Nat.not_lt] at hvalid
    split
    · exact ⟨h.taken, h.checked, h.nodup⟩
    · rename_i hfresh
      cases hempty : (checkedHost format entry).isEmpty with
      | true =>
        have hkept : (state.kept ++ [checkedHost format entry].filter fun entry =>
            !entry.isEmpty) = state.kept := by simp [hempty]
        rw [hkept]
        exact ⟨fun other hother => mem_cons_of_mem _ (h.taken other hother), h.checked, h.nodup⟩
      | false =>
        have hkept : (state.kept ++ [checkedHost format entry].filter fun entry =>
            !entry.isEmpty) = state.kept ++ [checkedHost format entry] := by simp [hempty]
        rw [hkept]
        refine ⟨?_, ?_, ?_⟩
        · rw [forall_mem_append, forall_mem_singleton]
          exact ⟨fun other hother => mem_cons_of_mem _ (h.taken other hother), mem_cons_self⟩
        · rw [forall_mem_append, forall_mem_singleton]
          exact ⟨h.checked, hempty, entry, hentry, rfl, hvalid⟩
        · rw [map_append, map_singleton]
          refine nodup_append'.mpr ⟨h.nodup, nodup_singleton _, ?_⟩
          intro other hother hlast
          obtain rfl := mem_singleton.mp hlast
          obtain ⟨given, hgiven, heq⟩ := mem_map.mp hother
          exact hfresh (heq ▸ h.taken given hgiven : (checkedHost format entry).host ∈ state.ids)

theorem checkHosts_apart {rest : List HostSecrets} (h : KeptHosts format entries state)
    (index : Nat) (hrest : ∀ entry ∈ rest, entry ∈ entries) :
    KeptHosts format entries (checkHosts format index state rest) := by
  induction rest generalizing index state with
  | nil => exact h
  | cons entry rest ih =>
    rw [forall_mem_cons] at hrest
    exact ih (checkHost_kept h index hrest.1) (index + 1) hrest.2

/-- An entry of a host that checking leaves as it is. -/
structure SettledHost (format : KeychainFormat τ κ) (entry : HostSecrets) : Prop where
  named : entry.host ≠ "" ∧ entry.host.utf8ByteSize ≤ maxEntryIdLen
  same : checkedHost format entry = entry
  filled : entry.isEmpty = false

theorem refWarning_known {reference : Option String}
    (h : knownRef format reference = reference) (key : String) :
    refWarning format reference key = [] := by
  rw [refWarning, if_pos]
  cases reference with
  | none => rfl
  | some text =>
    have hkeep := (Option.filter_eq_some_iff.mp h).2
    rw [Option.all_some, hkeep]

theorem checkHosts_same (index : Nat) (hsettled : ∀ entry ∈ entries, SettledHost format entry)
    (hnodup : (entries.map HostSecrets.host).Nodup)
    (hfresh : ∀ entry ∈ entries, entry.host ∉ state.ids) :
    checkHosts format index state entries =
      { kept := state.kept ++ entries
        ids := (entries.map HostSecrets.host).reverse ++ state.ids
        made := state.made
        warnings := state.warnings } := by
  induction entries generalizing index state with
  | nil => simp [checkHosts]
  | cons entry rest ih =>
    rw [forall_mem_cons] at hsettled hfresh
    rw [map_cons, nodup_cons] at hnodup
    obtain ⟨hnamed, hsame, hfilled⟩ := hsettled.1
    have htrim : trim entry.host = entry.host := congrArg HostSecrets.host hsame
    have hwarnings : ∀ label, hostWarnings format label entry = [] := by
      intro label
      rw [hostWarnings, refWarning_known (congrArg HostSecrets.password hsame),
        refWarning_known (congrArg HostSecrets.keyPassphrase hsame)]
      rfl
    have hstep : checkHost format index state entry =
        { kept := state.kept ++ [entry]
          ids := entry.host :: state.ids
          made := state.made
          warnings := state.warnings } := by
      rw [checkHost]
      dsimp only
      rw [htrim, if_neg (by rw [not_or, Nat.not_lt]; exact hnamed), if_neg hfresh.1, hsame,
        hwarnings]
      simp [Checking.warn, hfilled]
    rw [checkHosts, hstep, ih (index + 1) hsettled.2 hnodup.2 ?_]
    · simp
    · intro other hother hmem
      rcases mem_cons.mp hmem with heq | hold
      · exact hnodup.1 (heq ▸ mem_map_of_mem hother)
      · exact hfresh.2 other hother hold

end Hosts

section Consistent

variable {τ κ : Type} (format : KeychainFormat τ κ) {newId : Nat → String}

structure Consistent (file : KeychainFile) : Prop where
  valid : ∀ id ∈ file.keys.map KeyEntry.id ++ file.identities.map Identity.id, validId id = true
  distinct : (file.keys.map KeyEntry.id ++ file.identities.map Identity.id).Nodup
  hosts : ∀ entry ∈ file.hosts, entry.host ≠ "" ∧ entry.isEmpty = false
  hostsDistinct : (file.hosts.map HostSecrets.host).Nodup
  references : ∀ text ∈ file.references, (parseRef format text).isSome = true
  keys : ∀ identity ∈ file.identities, ∀ id, identity.key = some id → ∃ key ∈ file.keys, key.id = id

variable {format}

theorem isSome_of_knownRef {reference : Option String} {text : String}
    (h : knownRef format reference = some text) : (parseRef format text).isSome = true :=
  (Option.filter_eq_some_iff.mp h).2

theorem refreshFromPublic_id (key : KeyEntry) : (refreshFromPublic format key).id = key.id := by
  rw [refreshFromPublic]
  split <;> rfl

theorem keyKind_id (id : String) (key : KeyEntry) :
    (keyKind format).id ((keyKind format).checked id key) = id :=
  refreshFromPublic_id { key with id }

section Check

variable (format newId) (file : KeychainFile)

/-- The loops of `check`. -/
def keysChecked : Checking KeyEntry :=
  checkEntries newId (keyKind format) 0 ⟨[], [], 0, []⟩ file.keys

def identitiesChecked : Checking Identity :=
  checkEntries newId (identityKind format ((keysChecked format newId file).kept.map KeyEntry.id)) 0
    ⟨[], (keysChecked format newId file).ids, (keysChecked format newId file).made, []⟩
    file.identities

def hostsChecked : Checking HostSecrets := checkHosts format 0 ⟨[], [], 0, []⟩ file.hosts

theorem check_eq : check format newId file =
    ({ file with
        keys := (keysChecked format newId file).kept
        identities := (identitiesChecked format newId file).kept
        hosts := (hostsChecked format file).kept },
      (keysChecked format newId file).warnings ++ (identitiesChecked format newId file).warnings ++
        (hostsChecked format file).warnings) := rfl

variable {newId}

theorem keysChecked_apart (hnew : ∀ n, validId (newId n) = true) :
    KeptApart (keyKind format) file.keys [] (keysChecked format newId file) :=
  checkEntries_apart keyKind_id hnew (KeptApart.new _ _ [] 0 []) 0 fun _ hentry => hentry

theorem identitiesChecked_apart (hnew : ∀ n, validId (newId n) = true) :
    KeptApart (identityKind format ((keysChecked format newId file).kept.map KeyEntry.id))
      file.identities (keysChecked format newId file).ids (identitiesChecked format newId file) :=
  checkEntries_apart (fun _ _ => rfl) hnew (KeptApart.new _ _ _ _ []) 0 fun _ hentry => hentry

theorem hostsChecked_kept : KeptHosts format file.hosts (hostsChecked format file) :=
  checkHosts_apart (KeptHosts.new _) 0 fun _ hentry => hentry

end Check

theorem check_consistent (hnew : ∀ n, validId (newId n) = true) (file : KeychainFile) :
    Consistent format (check format newId file).1 := by
  have hkeys := keysChecked_apart format file hnew
  have hidentities := identitiesChecked_apart format file hnew
  have hhosts := hostsChecked_kept format file
  rw [check_eq]
  refine ⟨?_, ?_, ?_, hhosts.nodup, ?_, ?_⟩
  · rw [forall_mem_append, forall_mem_map, forall_mem_map]
    exact ⟨hkeys.valid, hidentities.valid⟩
  · refine nodup_append'.mpr ⟨hkeys.nodup, hidentities.nodup, ?_⟩
    intro id hinKeys hinIdentities
    obtain ⟨key, hkey, rfl⟩ := mem_map.mp hinKeys
    obtain ⟨identity, hidentity, heq⟩ := mem_map.mp hinIdentities
    have htaken : key.id ∈ (keysChecked format newId file).ids := hkeys.taken key hkey
    rw [← heq] at htaken
    exact hidentities.apart identity hidentity htaken
  · intro entry hentry
    obtain ⟨hfilled, given, -, rfl, hne, -⟩ := hhosts.checked entry hentry
    exact ⟨hne, hfilled⟩
  · intro text htext
    simp only [references, mem_append, mem_filterMap, mem_flatMap, Option.mem_toList] at htext
    rcases htext with (⟨identity, hidentity, heq⟩ | ⟨key, hkey, heq⟩) | ⟨entry, hentry, heq⟩
    · obtain ⟨id, given, -, rfl⟩ := hidentities.checked identity hidentity
      exact isSome_of_knownRef heq
    · obtain ⟨id, given, -, rfl⟩ := hkeys.checked key hkey
      exact isSome_of_knownRef heq
    · obtain ⟨-, given, -, rfl, -⟩ := hhosts.checked entry hentry
      exact heq.elim isSome_of_knownRef isSome_of_knownRef
  · intro identity hidentity id hkey
    obtain ⟨own, given, -, rfl⟩ := hidentities.checked identity hidentity
    have hmem := (Option.filter_eq_some_iff.mp hkey).2
    rw [contains_iff_mem] at hmem
    obtain ⟨key, hkey, heq⟩ := mem_map.mp hmem
    exact ⟨key, hkey, heq⟩

end Consistent

end KeychainFile

end Opensesh.Vault
