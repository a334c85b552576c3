/-
What loading `keychain.toml` keeps of it: the secrets the loaded file refers to are those
of the entries that can be read and that have an id of their own.
-/
import Opensesh.KeychainFile
import Opensesh.Keyed

namespace Opensesh.Vault

open List

namespace KeychainFile

section Entries

variable {α γ : Type} {kind : EntryKind α} {newId : Nat → String}

/-- An id that an entry keeps; another is replaced. -/
def ownId (id : String) : Option String := if validId id then some id else none

def EntryKind.ownId (kind : EntryKind α) (entry : α) : Option String :=
  KeychainFile.ownId (kind.id entry)

/-- The ids met are these and the ones made so far. -/
def Met (newId : Nat → String) (state : Checking α) (taken : List String) : Prop :=
  ∀ id, id ∈ state.ids ↔ id ∈ taken ∨ ∃ n < state.made, id = newId n

/-- The ids made are all different, and none of these entries has one. -/
structure FreshIds (newId : Nat → String) (ids : List String) : Prop where
  injective : Function.Injective newId
  fresh : ∀ n, newId n ∉ ids

theorem FreshIds.of_subset {ids others : List String} (h : FreshIds newId ids)
    (hsubset : ∀ id ∈ others, id ∈ ids) : FreshIds newId others :=
  ⟨h.injective, fun n hmem => h.fresh n (hsubset _ hmem)⟩

theorem checkEntry_kept {index : Nat} {state : Checking α} {taken : List String} {entry : α}
    (hmet : Met newId state taken) (hinjective : Function.Injective newId)
    (htaken : ∀ n, newId n ∉ taken) (hentry : ∀ n, newId n ≠ kind.id entry) :
    let next := checkEntry newId kind index state entry
    match kind.ownId entry with
    | none => (∃ id, next.kept = state.kept ++ [kind.checked id entry]) ∧ Met newId next taken
    | some id => if id ∈ taken then next.kept = state.kept ∧ Met newId next taken
      else next.kept = state.kept ++ [kind.checked id entry] ∧ Met newId next (id :: taken) := by
  dsimp only
  rw [EntryKind.ownId, ownId, checkEntry, givenEntryId, takeId]
  by_cases hvalid : validId (kind.id entry) = true
  · simp only [hvalid, if_true]
    have hids : kind.id entry ∈ state.ids ↔ kind.id entry ∈ taken := by
      rw [hmet]
      refine or_iff_left ?_
      rintro ⟨n, -, heq⟩
      exact hentry n heq.symm
    by_cases hmem : kind.id entry ∈ taken
    · rw [if_pos (hids.mpr hmem), if_pos hmem]
      exact ⟨rfl, hmet⟩
    · rw [if_neg (mt hids.mp hmem), if_neg hmem]
      refine ⟨rfl, fun id => ?_⟩
      simp only [mem_cons, Checking.warn, hmet id, or_assoc]
  · simp only [hvalid, if_false, Bool.false_eq_true]
    have hnew : newId state.made ∉ state.ids := by
      rw [hmet]
      rintro (hmem | ⟨n, hn, heq⟩)
      · exact htaken _ hmem
      · exact absurd (hinjective heq) (Nat.ne_of_gt hn)
    rw [if_neg hnew]
    refine ⟨⟨_, rfl⟩, fun id => ?_⟩
    simp only [mem_cons, Checking.warn, hmet id]
    constructor
    · rintro (rfl | hmem | ⟨n, hn, rfl⟩)
      · exact Or.inr ⟨state.made, Nat.lt_succ_self _, rfl⟩
      · exact Or.inl hmem
      · exact Or.inr ⟨n, Nat.lt_succ_of_lt hn, rfl⟩
    · rintro (hmem | ⟨n, hn, rfl⟩)
      · exact Or.inr (Or.inl hmem)
      · rcases Nat.lt_succ_iff_lt_or_eq.mp hn with hlt | rfl
        · exact Or.inr (Or.inr ⟨n, hlt, rfl⟩)
        · exact Or.inl rfl

/-- What can be seen of the entries that are kept is what can be seen of those with new
ids. -/
theorem checkEntries_kept {view : α → List γ}
    (hview : ∀ id entry, view (kind.checked id entry) = view entry) {entries : List α}
    {index : Nat} {state : Checking α} {taken : List String} (hmet : Met newId state taken)
    (hfresh : FreshIds newId (taken ++ entries.map kind.id)) :
    let last := checkEntries newId kind index state entries
    last.kept.flatMap view = state.kept.flatMap view ++
        (keepNew kind.ownId taken entries).flatMap view ∧
      ∀ id, id ∈ last.ids ↔
        (id ∈ taken ∨ id ∈ entries.filterMap kind.ownId) ∨ ∃ n < last.made, id = newId n := by
  induction entries generalizing index state taken with
  | nil => exact ⟨(List.append_nil _).symm, fun id => by simpa [checkEntries] using hmet id⟩
  | cons entry rest ih =>
    have hentry : ∀ n, newId n ≠ kind.id entry := fun n heq =>
      hfresh.fresh n (mem_append_right _ (by simp [heq]))
    have hstep := @checkEntry_kept α kind newId index state taken entry hmet
      hfresh.injective (fun n hmem => hfresh.fresh n (mem_append_left _ hmem)) hentry
    have hrest : ∀ id ∈ taken ++ rest.map kind.id, id ∈ taken ++ (entry :: rest).map kind.id := by
      intro id hmem
      rw [map_cons]
      rcases mem_append.mp hmem with hleft | hright
      · exact mem_append_left _ hleft
      · exact mem_append_right _ (mem_cons_of_mem _ hright)
    dsimp only at hstep ih ⊢
    rw [checkEntries, keepNew]
    cases hid : kind.ownId entry with
    | none =>
      rw [hid] at hstep
      obtain ⟨⟨id, hkept⟩, hmet⟩ := hstep
      obtain ⟨hlast, hids⟩ := @ih (index + 1) _ _ hmet (hfresh.of_subset hrest)
      rw [hlast, hkept, filterMap_cons_none hid]
      refine ⟨?_, hids⟩
      rw [flatMap_append, flatMap_singleton, hview, List.append_assoc]
      rfl
    | some id =>
      rw [hid] at hstep
      dsimp only at hstep ⊢
      by_cases hmem : id ∈ taken
      · rw [if_pos hmem] at hstep ⊢
        obtain ⟨hkept, hmet⟩ := hstep
        obtain ⟨hlast, hids⟩ := @ih (index + 1) _ _ hmet (hfresh.of_subset hrest)
        rw [hlast, hkept, filterMap_cons_some hid]
        refine ⟨rfl, fun other => (hids other).trans ?_⟩
        rw [mem_cons]
        refine or_congr_left ⟨Or.imp_right Or.inr, ?_⟩
        rintro (htaken | rfl | hin)
        · exact Or.inl htaken
        · exact Or.inl hmem
        · exact Or.inr hin
      · rw [if_neg hmem] at hstep ⊢
        obtain ⟨hkept, hmet⟩ := hstep
        have hown : kind.id entry = id := by
          rw [EntryKind.ownId, ownId] at hid
          split at hid
          · exact Option.some.inj hid
          · cases hid
        have hsubset : ∀ other ∈ (id :: taken) ++ rest.map kind.id,
            other ∈ taken ++ (entry :: rest).map kind.id := by
          intro other hother
          rcases mem_cons.mp hother with rfl | hother
          · exact mem_append_right _ (by simp [hown])
          · exact hrest other hother
        obtain ⟨hlast, hids⟩ := @ih (index + 1) _ _ hmet (hfresh.of_subset hsubset)
        rw [hlast, hkept, filterMap_cons_some hid]
        refine ⟨?_, fun other => (hids other).trans ?_⟩
        · rw [flatMap_append, flatMap_singleton, hview, List.append_assoc]
          rfl
        · rw [mem_cons, mem_cons]
          refine or_congr_left ?_
          constructor
          · rintro ((rfl | htaken) | hin)
            · exact Or.inr (Or.inl rfl)
            · exact Or.inl htaken
            · exact Or.inr (Or.inr hin)
          · rintro (htaken | rfl | hin)
            · exact Or.inl (Or.inr htaken)
            · exact Or.inl (Or.inl rfl)
            · exact Or.inr hin

end Entries

section References

variable {τ κ : Type} (format : KeychainFormat τ κ)

/-- The secrets these texts refer to. -/
def refsOf (references : List String) : List Ulid := references.filterMap (parseRef format)

theorem refsOf_knownRef (reference : Option String) :
    refsOf format (knownRef format reference).toList = refsOf format reference.toList := by
  cases reference with
  | none => rfl
  | some text =>
    rw [knownRef, Option.filter_some]
    cases href : parseRef format text with
    | some id => simp
    | none => simp [refsOf, href]

def keyRefs (key : KeyEntry) : List Ulid := refsOf format key.secret.toList

def identityRefs (identity : Identity) : List Ulid := refsOf format identity.password.toList

def hostRefs (entry : HostSecrets) : List Ulid :=
  refsOf format (entry.password.toList ++ entry.keyPassphrase.toList)

theorem refs_checkedKey (id : String) (key : KeyEntry) :
    keyRefs format (checkedKey format id key) = keyRefs format key := by
  have hsecret : (checkedKey format id key).secret = knownRef format key.secret := by
    rw [checkedKey, refreshFromPublic]
    dsimp only
    split
    · rfl
    · rfl
  rw [keyRefs, hsecret, refsOf_knownRef]
  rfl

theorem refs_checkedIdentity (keyIds : List String) (id : String) (identity : Identity) :
    identityRefs format (checkedIdentity format keyIds id identity) =
      identityRefs format identity :=
  refsOf_knownRef format identity.password

theorem refs_checkedHost (entry : HostSecrets) :
    hostRefs format (checkedHost format entry) = hostRefs format entry := by
  rw [hostRefs, refsOf, filterMap_append]
  exact (congr (congrArg _ (refsOf_knownRef format entry.password))
    (refsOf_knownRef format entry.keyPassphrase)).trans filterMap_append.symm

theorem filterMap_parseRef {α : Type} (reference : α → Option String) (items : List α) :
    (items.filterMap reference).filterMap (parseRef format) =
      items.flatMap fun item => refsOf format (reference item).toList := by
  induction items with
  | nil => rfl
  | cons item items ih =>
    rw [flatMap_cons, ← ih]
    cases hitem : reference item with
    | none =>
      rw [filterMap_cons_none hitem]
      rfl
    | some text =>
      rw [filterMap_cons_some hitem, ← singleton_append, filterMap_append]
      rfl

theorem mem_secretIds {file : KeychainFile} {id : Ulid} :
    id ∈ file.secretIds format ↔ (∃ identity ∈ file.identities, id ∈ identityRefs format identity) ∨
      (∃ key ∈ file.keys, id ∈ keyRefs format key) ∨
      ∃ entry ∈ file.hosts, id ∈ hostRefs format entry := by
  rw [secretIds, references, filterMap_append, filterMap_append,
    filterMap_parseRef, filterMap_parseRef, filterMap_flatMap, mem_append,
    mem_append, or_assoc, mem_flatMap, mem_flatMap, mem_flatMap]
  rfl

end References

section Hosts

variable {τ κ : Type} {format : KeychainFormat τ κ}

def validHost (entry : HostSecrets) : Bool :=
  decide (trim entry.host ≠ "" ∧ (trim entry.host).utf8ByteSize ≤ maxEntryIdLen)

theorem hostRefs_of_isEmpty {entry : HostSecrets} (h : entry.isEmpty = true) :
    hostRefs format entry = [] := by
  rw [HostSecrets.isEmpty, Bool.and_eq_true, Option.isNone_iff_eq_none,
    Option.isNone_iff_eq_none] at h
  rw [hostRefs, h.1, h.2]
  rfl

theorem checkHosts_kept {entries : List HostSecrets} {index : Nat}
    {state : Checking HostSecrets} :
    (checkHosts format index state entries).kept.flatMap (hostRefs format) =
      state.kept.flatMap (hostRefs format) ++
        (keepNew (fun entry => some (trim entry.host)) state.ids
          (entries.filter validHost)).flatMap (hostRefs format) := by
  induction entries generalizing index state with
  | nil => exact (List.append_nil _).symm
  | cons entry rest ih =>
    rw [checkHosts, ih, checkHost]
    by_cases hvalid : trim entry.host = "" ∨ maxEntryIdLen < (trim entry.host).utf8ByteSize
    · have hskip : validHost entry = false := by
        rw [validHost, decide_eq_false_iff_not, not_and_or, not_not, not_le]
        exact hvalid
      rw [if_pos hvalid, filter_cons_of_neg (by simp [hskip])]
      rfl
    · have hkeep : validHost entry = true := by
        rw [validHost, decide_eq_true_iff]
        rw [not_or, not_lt] at hvalid
        exact hvalid
      rw [if_neg hvalid, filter_cons_of_pos hkeep, keepNew]
      dsimp only
      by_cases hmem : trim entry.host ∈ state.ids
      · rw [if_pos hmem, if_pos hmem]
        rfl
      · rw [if_neg hmem, if_neg hmem, flatMap_cons]
        dsimp only
        rw [flatMap_append, List.append_assoc, ← refs_checkedHost]
        cases hempty : (checkedHost format entry).isEmpty with
        | false => simp [hempty]
        | true =>
          rw [hostRefs_of_isEmpty hempty]
          simp [hempty]

end Hosts

section File

variable {τ κ : Type} (format : KeychainFormat τ κ)

def keysIn (root : Table) : List KeyEntry := (entriesOf readKey root "key").1

def identitiesIn (root : Table) : List Identity := (entriesOf readIdentity root "identity").1

def hostsIn (root : Table) : List HostSecrets := (entriesOf readHost root "host").1

/-- A secret is referred to by an entry that loading keeps: one that can be read, whose id,
when it is valid, no entry before it has. -/
inductive KeptRef (root : Table) (id : Ulid) : Prop
  | key {before after : List KeyEntry} {key : KeyEntry}
      (hkeys : keysIn root = before ++ key :: after)
      (hnew : ∀ own, ownId key.id = some own → own ∉ before.filterMap fun other => ownId other.id)
      (href : id ∈ keyRefs format key)
  | identity {before after : List Identity} {identity : Identity}
      (hidentities : identitiesIn root = before ++ identity :: after)
      (hnew : ∀ own, ownId identity.id = some own →
        own ∉ (keysIn root).filterMap (fun key => ownId key.id) ∧
        own ∉ before.filterMap fun other => ownId other.id)
      (href : id ∈ identityRefs format identity)
  | host {before after : List HostSecrets} {entry : HostSecrets}
      (hhosts : (hostsIn root).filter validHost = before ++ entry :: after)
      (hnew : trim entry.host ∉ before.map fun other => trim other.host)
      (href : id ∈ hostRefs format entry)

variable {format} {newId : Nat → String}

/-- What `check` carries from the keys to the identities. -/
def checkedKeys (format : KeychainFormat τ κ) (newId : Nat → String) (root : Table) :
    Checking KeyEntry :=
  checkEntries newId (keyKind format) 0 ⟨[], [], 0, []⟩ (keysIn root)

def checkedIdentities (format : KeychainFormat τ κ) (newId : Nat → String) (root : Table) :
    Checking Identity :=
  checkEntries newId (identityKind format ((checkedKeys format newId root).kept.map KeyEntry.id))
    0 ⟨[], (checkedKeys format newId root).ids, (checkedKeys format newId root).made, []⟩
    (identitiesIn root)

/-- The ids made are none of the file's. -/
def FreshFor (newId : Nat → String) (root : Table) : Prop :=
  FreshIds newId ((keysIn root).map KeyEntry.id ++ (identitiesIn root).map Identity.id)

theorem mem_filterMap_ownId {α : Type} {entries : List α} {idOf : α → String} {id : String}
    (h : id ∈ entries.filterMap fun entry => ownId (idOf entry)) : id ∈ entries.map idOf := by
  obtain ⟨entry, hmem, hid⟩ := mem_filterMap.mp h
  rw [ownId] at hid
  split at hid
  · exact Option.some.inj hid ▸ mem_map_of_mem hmem
  · cases hid

theorem refs_checkedKeys {root : Table} (hfresh : FreshFor newId root) :
    (checkedKeys format newId root).kept.flatMap (keyRefs format) =
        (keepNew (fun key => ownId key.id) [] (keysIn root)).flatMap (keyRefs format) ∧
      Met newId (⟨[], (checkedKeys format newId root).ids,
        (checkedKeys format newId root).made, []⟩ : Checking Identity)
        ((keysIn root).filterMap fun key => ownId key.id) := by
  obtain ⟨hkept, hids⟩ := @checkEntries_kept KeyEntry Ulid (keyKind format) newId
    (keyRefs format) (refs_checkedKey format) (keysIn root) 0 ⟨[], [], 0, []⟩ []
    (fun id => by simp) (hfresh.of_subset fun id hmem => mem_append_left _ hmem)
  refine ⟨hkept, fun id => (hids id).trans ?_⟩
  simp only [not_mem_nil, false_or]
  rfl

theorem refs_checkedIdentities {root : Table} (hfresh : FreshFor newId root) :
    (checkedIdentities format newId root).kept.flatMap (identityRefs format) =
      (keepNew (fun identity => ownId identity.id)
        ((keysIn root).filterMap fun key => ownId key.id) (identitiesIn root)).flatMap
          (identityRefs format) := by
  refine (checkEntries_kept (refs_checkedIdentity format _) (refs_checkedKeys hfresh).2
    (hfresh.of_subset fun id hmem => ?_)).1
  rcases mem_append.mp hmem with hkey | hidentity
  · exact mem_append_left _ (mem_filterMap_ownId hkey)
  · exact mem_append_right _ hidentity

/-- The secrets a loaded file refers to. -/
theorem mem_secretIds_fromRoot {root : Table} {id : Ulid} (hfresh : FreshFor newId root) :
    id ∈ (fromRoot format newId root).1.secretIds format ↔ KeptRef format root id := by
  have hkeys : (∃ key ∈ (checkedKeys format newId root).kept, id ∈ keyRefs format key) ↔
      ∃ key ∈ keepNew (fun key => ownId key.id) [] (keysIn root), id ∈ keyRefs format key := by
    rw [← mem_flatMap, (refs_checkedKeys hfresh).1, mem_flatMap]
  have hidentities : (∃ identity ∈ (checkedIdentities format newId root).kept,
      id ∈ identityRefs format identity) ↔ ∃ identity ∈ keepNew (fun identity =>
        ownId identity.id) ((keysIn root).filterMap fun key => ownId key.id)
        (identitiesIn root), id ∈ identityRefs format identity := by
    rw [← mem_flatMap, refs_checkedIdentities hfresh, mem_flatMap]
  have hhosts : (∃ entry ∈ (checkHosts format 0 ⟨[], [], 0, []⟩ (hostsIn root)).kept,
      id ∈ hostRefs format entry) ↔ ∃ entry ∈ keepNew (fun entry => some (trim entry.host)) []
        ((hostsIn root).filter validHost), id ∈ hostRefs format entry := by
    rw [← mem_flatMap, checkHosts_kept, flatMap_nil, List.nil_append, mem_flatMap]
  refine (mem_secretIds format).trans (Iff.trans (or_congr hidentities (or_congr hkeys hhosts)) ?_)
  simp only [mem_keepNew]
  constructor
  · rintro (⟨identity, ⟨before, after, hsplit, hnew⟩, href⟩ |
      ⟨key, ⟨before, after, hsplit, hnew⟩, href⟩ | ⟨entry, ⟨before, after, hsplit, hnew⟩, href⟩)
    · exact .identity hsplit hnew href
    · exact .key hsplit (fun own hown => (hnew own hown).2) href
    · have hnew := (hnew _ rfl).2
      rw [filterMap_eq_map'] at hnew
      exact .host hsplit hnew href
  · rintro (⟨hsplit, hnew, href⟩ | ⟨hsplit, hnew, href⟩ | ⟨hsplit, hnew, href⟩)
    · exact Or.inr (Or.inl ⟨_, ⟨_, _, hsplit, fun own hown => ⟨by simp, hnew own hown⟩⟩, href⟩)
    · exact Or.inl ⟨_, ⟨_, _, hsplit, hnew⟩, href⟩
    · refine Or.inr (Or.inr ⟨_, ⟨_, _, hsplit, fun own hown => ⟨by simp, ?_⟩⟩, href⟩)
      obtain rfl := Option.some.inj hown
      rw [filterMap_eq_map']
      exact hnew

end File

end KeychainFile

end Opensesh.Vault
