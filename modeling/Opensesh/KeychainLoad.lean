/-
A keychain that is loaded, written and loaded again: what it is written as gives it as it was,
and says nothing of it but which public keys are none.
-/
import Opensesh.KeychainConsistent
import Opensesh.HostsTidy
import Opensesh.RecordFile

namespace Opensesh.Vault

open List

namespace KeychainFile

section Tables

open Records (Unknown)

variable {keys : List String} {known extra : Table}

theorem nodup_written (hsub : (known.map Prod.fst).Sublist keys) (hkeys : keys.Nodup)
    (hextra : Unknown keys extra) : ((known ++ extra).map Prod.fst).Nodup := by
  rw [map_append]
  refine nodup_append'.mpr ⟨hsub.nodup hkeys, hextra.ascending.nodup, fun key hknown hmem => ?_⟩
  exact lookup_eq_none_iff_not_mem.mp (hextra.absent key (hsub.subset hknown)) hmem

theorem perm_tableOf (hsub : (known.map Prod.fst).Sublist keys) (hkeys : keys.Nodup)
    (hextra : Unknown keys extra) : (tableOf known extra).Perm (known ++ extra) := by
  have hperm := perm_insertAll (nodup_written hsub hkeys hextra)
    (fun _ _ => (rfl : ([] : Table).lookup _ = none))
  rwa [List.append_nil] at hperm

theorem ascending_tableOf : Ascending (tableOf known extra) := ascending_insertAll _ ascending_nil

/-- Known keys come from the fields, others from `extra`. -/
theorem lookup_tableOf (hsub : (known.map Prod.fst).Sublist keys) (hkeys : keys.Nodup)
    (hextra : Unknown keys extra) (key : String) :
    (tableOf known extra).lookup key =
      if key ∈ keys then known.lookup key else extra.lookup key := by
  have hsame : (tableOf known extra).lookup key = (known ++ extra).lookup key := by
    refine Option.ext fun value => ?_
    rw [lookup_eq_some_iff_mem ascending_tableOf.nodup,
      lookup_eq_some_iff_mem (nodup_written hsub hkeys hextra),
      (perm_tableOf hsub hkeys hextra).mem_iff]
  rw [hsame, lookup_append]
  split
  · rename_i hmem
    rw [hextra.absent key hmem, Option.or_none]
  · rename_i hmem
    rw [lookup_eq_none_iff_not_mem.mpr fun hknown => hmem (hsub.subset hknown), Option.none_or]

/-- What is unknown reads back. -/
theorem unknown_tableOf (hsub : (known.map Prod.fst).Sublist keys) (hkeys : keys.Nodup)
    (hextra : Unknown keys extra) : unknown (tableOf known extra) keys = extra := by
  refine Ascending.ext (ascending_filter _ ascending_tableOf) hextra.ascending fun key => ?_
  rw [unknown, lookup_filter_key fun key => !(keys.contains key), lookup_tableOf hsub hkeys hextra]
  by_cases hmem : key ∈ keys
  · rw [if_neg (by simpa using hmem), hextra.absent key hmem]
  · rw [if_pos (by simpa using hmem), if_neg hmem]

theorem wellFormed_tableOf (hsub : (known.map Prod.fst).Sublist keys) (hkeys : keys.Nodup)
    (hextra : Unknown keys extra) (hknown : ∀ entry ∈ known, entry.2.wellFormed = true) :
    (Value.table (tableOf known extra)).wellFormed = true := by
  refine (wellFormed_table _).mpr ⟨ascending_tableOf, fun key value hmem => ?_⟩
  rcases mem_append.mp ((perm_tableOf hsub hkeys hextra).mem_iff.mp hmem) with hold | hnew
  · exact hknown _ hold
  · exact ((wellFormed_table _).mp hextra.wellFormed).2 key value hnew

theorem textEntry_keys (key text : String) : ((textEntry key text).map Prod.fst).Sublist [key] := by
  rw [textEntry]
  split
  · exact nil_sublist _
  · exact List.Sublist.refl _

theorem optionalEntry_keys (key : String) (value : Option String) :
    ((optionalEntry key value).map Prod.fst).Sublist [key] := by
  cases value with
  | none => exact nil_sublist _
  | some text => exact List.Sublist.refl _

@[simp] theorem lookup_textEntry (key text other : String) :
    (textEntry key text).lookup other =
      if other = key ∧ text ≠ "" then some (.string text) else none := by
  rw [textEntry]
  split
  · rename_i hempty
    rw [if_neg fun h => h.2 hempty]
    rfl
  · rename_i hfull
    rw [lookup_cons_ite]
    by_cases hkey : other = key
    · rw [if_pos hkey, if_pos ⟨hkey, hfull⟩]
    · rw [if_neg hkey, if_neg fun h => hkey h.1]
      rfl

@[simp] theorem lookup_optionalEntry (key other : String) (value : Option String) :
    (optionalEntry key value).lookup other = if other = key then value.map .string else none := by
  cases value with
  | none => simp [optionalEntry]
  | some text => simp [optionalEntry, lookup_cons_ite]

variable {table : Table}

theorem readText_some {key text : String} (h : table.lookup key = some (.string text)) :
    readText table key = some text := by
  rw [readText, h]

theorem readText_textEntry {key text : String}
    (h : table.lookup key = if text ≠ "" then some (.string text) else none) :
    readText table key = some text := by
  rw [readText, h]
  by_cases hempty : text = ""
  · rw [if_neg (not_not.mpr hempty), hempty]
  · rw [if_pos hempty]

theorem readOptional_map {key : String} {value : Option String}
    (h : table.lookup key = value.map .string) : readOptional table key = some value := by
  rw [readOptional, h]
  cases value <;> rfl

theorem identity_keys (identity : Identity) :
    (([("id", Value.string identity.id), ("name", .string identity.name)] ++
      textEntry "user" identity.user ++ optionalEntry "password" identity.password ++
      optionalEntry "key" identity.key ++ textEntry "notes" identity.notes).map
        Prod.fst).Sublist identityKeys := by
  simp only [map_append]
  exact (((((List.Sublist.refl ["id", "name"]).append (textEntry_keys _ _)).append
    (optionalEntry_keys _ _)).append (optionalEntry_keys _ _)).append (textEntry_keys _ _) :)

/-- An identity reads back. -/
theorem readIdentity_writeIdentity {identity : Identity} (h : Unknown identityKeys identity.extra) :
    readIdentity (.table (writeIdentity identity)) = some identity := by
  have hlookup := lookup_tableOf (identity_keys identity) (by decide) h
  have hunknown := unknown_tableOf (identity_keys identity) (by decide) h
  change ∀ key, (writeIdentity identity).lookup key = _ at hlookup
  change unknown (writeIdentity identity) identityKeys = _ at hunknown
  have hid : readText (writeIdentity identity) "id" = some identity.id :=
    readText_some (by rw [hlookup]; simp [identityKeys])
  have hname : readText (writeIdentity identity) "name" = some identity.name :=
    readText_some (by rw [hlookup]; simp [identityKeys, lookup_cons_ite])
  have huser : readText (writeIdentity identity) "user" = some identity.user :=
    readText_textEntry (by rw [hlookup]; simp [identityKeys, lookup_append, lookup_cons_ite])
  have hpassword : readOptional (writeIdentity identity) "password" = some identity.password :=
    readOptional_map (by rw [hlookup]; simp [identityKeys, lookup_append, lookup_cons_ite])
  have hkey : readOptional (writeIdentity identity) "key" = some identity.key :=
    readOptional_map (by rw [hlookup]; simp [identityKeys, lookup_append, lookup_cons_ite])
  have hnotes : readText (writeIdentity identity) "notes" = some identity.notes :=
    readText_textEntry (by rw [hlookup]; simp [identityKeys, lookup_append, lookup_cons_ite])
  rw [readIdentity, Value.asTable, Option.bind_eq_bind, Option.bind_some, hid, hname, huser,
    hpassword, hkey, hnotes, hunknown]
  rfl

def createdEntry (created : Int) : Table :=
  if created = 0 then [] else [("created", .integer created)]

theorem createdEntry_keys (created : Int) :
    ((createdEntry created).map Prod.fst).Sublist ["created"] := by
  rw [createdEntry]
  split
  · exact nil_sublist _
  · exact List.Sublist.refl _

@[simp] theorem lookup_createdEntry (created : Int) (other : String) :
    (createdEntry created).lookup other =
      if other = "created" ∧ created ≠ 0 then some (.integer created) else none := by
  rw [createdEntry]
  split
  · rename_i hzero
    rw [if_neg fun h => h.2 hzero]
    rfl
  · rename_i hne
    rw [lookup_cons_ite]
    by_cases hkey : other = "created"
    · rw [if_pos hkey, if_pos ⟨hkey, hne⟩]
    · rw [if_neg hkey, if_neg fun h => hkey h.1]
      rfl

theorem key_keys (key : KeyEntry) :
    (([("id", Value.string key.id), ("name", .string key.name),
      ("algorithm", .string key.algorithm), ("bits", .integer key.bits),
      ("public", .string key.publicLine), ("fingerprint", .string key.fingerprint)] ++
      optionalEntry "private" key.secret ++ textEntry "origin" key.origin ++
      createdEntry key.created).map Prod.fst).Sublist keyKeys := by
  simp only [map_append]
  exact (((List.Sublist.refl ["id", "name", "algorithm", "bits", "public", "fingerprint"]).append
    (optionalEntry_keys _ _)).append (textEntry_keys _ _)).append (createdEntry_keys _)

/-- A key reads back. -/
theorem readKey_writeKey {key : KeyEntry} (h : Unknown keyKeys key.extra)
    (hbits : key.bits ≤ 4294967295) : readKey (.table (writeKey key)) = some key := by
  have hlookup := lookup_tableOf (key_keys key) (by decide) h
  have hunknown := unknown_tableOf (key_keys key) (by decide) h
  change ∀ name, (writeKey key).lookup name = _ at hlookup
  change unknown (writeKey key) keyKeys = _ at hunknown
  have hid : readText (writeKey key) "id" = some key.id :=
    readText_some (by rw [hlookup]; simp [keyKeys])
  have hname : readText (writeKey key) "name" = some key.name :=
    readText_some (by rw [hlookup]; simp [keyKeys, lookup_cons_ite])
  have halgorithm : readText (writeKey key) "algorithm" = some key.algorithm :=
    readText_some (by rw [hlookup]; simp [keyKeys, lookup_cons_ite])
  have hinteger : readInteger (writeKey key) "bits" = some (key.bits : Int) := by
    have hfound : (writeKey key).lookup "bits" = some (.integer key.bits) := by
      rw [hlookup]
      simp [keyKeys, lookup_cons_ite]
    rw [readInteger, hfound]
  have hsize : readU32 (writeKey key) "bits" = some key.bits := by
    rw [readU32, hinteger, Option.bind_eq_bind, Option.bind_some, if_pos ⟨by omega, by omega⟩,
      Int.toNat_natCast]
  have hpublic : readText (writeKey key) "public" = some key.publicLine :=
    readText_some (by rw [hlookup]; simp [keyKeys, lookup_cons_ite])
  have hfingerprint : readText (writeKey key) "fingerprint" = some key.fingerprint :=
    readText_some (by rw [hlookup]; simp [keyKeys, lookup_cons_ite])
  have hsecret : readOptional (writeKey key) "private" = some key.secret :=
    readOptional_map (by rw [hlookup]; simp [keyKeys, lookup_append, lookup_cons_ite])
  have horigin : readText (writeKey key) "origin" = some key.origin :=
    readText_textEntry (by rw [hlookup]; simp [keyKeys, lookup_append, lookup_cons_ite])
  have hcreated : readInteger (writeKey key) "created" = some key.created := by
    have hfound : (writeKey key).lookup "created" =
        if key.created ≠ 0 then some (.integer key.created) else none := by
      rw [hlookup]
      simp [keyKeys, lookup_append, lookup_cons_ite]
    rw [readInteger, hfound]
    by_cases hzero : key.created = 0
    · rw [if_neg (not_not.mpr hzero), hzero]
    · rw [if_pos hzero]
  rw [readKey, Value.asTable, Option.bind_eq_bind, Option.bind_some, hid, hname, halgorithm,
    hsize, hpublic, hfingerprint, hsecret, horigin, hcreated, hunknown]
  rfl

theorem host_keys (entry : HostSecrets) :
    (([("host", Value.string entry.host)] ++ optionalEntry "password" entry.password ++
      optionalEntry "key_passphrase" entry.keyPassphrase).map Prod.fst).Sublist hostKeys := by
  simp only [map_append]
  exact ((List.Sublist.refl ["host"]).append (optionalEntry_keys _ _)).append
    (optionalEntry_keys _ _)

/-- The secrets of a host read back. -/
theorem readHost_writeHost {entry : HostSecrets} (h : Unknown hostKeys entry.extra) :
    readHost (.table (writeHost entry)) = some entry := by
  have hlookup := lookup_tableOf (host_keys entry) (by decide) h
  have hunknown := unknown_tableOf (host_keys entry) (by decide) h
  change ∀ name, (writeHost entry).lookup name = _ at hlookup
  change unknown (writeHost entry) hostKeys = _ at hunknown
  have hhost : readText (writeHost entry) "host" = some entry.host :=
    readText_some (by rw [hlookup]; simp [hostKeys])
  have hpassword : readOptional (writeHost entry) "password" = some entry.password :=
    readOptional_map (by rw [hlookup]; simp [hostKeys, lookup_append, lookup_cons_ite])
  have hpassphrase : readOptional (writeHost entry) "key_passphrase" = some entry.keyPassphrase :=
    readOptional_map (by rw [hlookup]; simp [hostKeys, lookup_append, lookup_cons_ite])
  rw [readHost, Value.asTable, Option.bind_eq_bind, Option.bind_some, hhost, hpassword,
    hpassphrase, hunknown]
  rfl

def fileKeys : List String := ["schema_version", "identity", "key", "host"]

variable {τ κ : Type} {format : KeychainFormat τ κ} {newId : Nat → String}

/-- A keychain that checking leaves as it is. -/
structure Settled (format : KeychainFormat τ κ) (file : KeychainFile) : Prop where
  consistent : Consistent format file
  keys : ∀ key ∈ file.keys, checkedKey format key.id key = key ∧ key.bits ≤ 4294967295 ∧
    Unknown keyKeys key.extra
  identities : ∀ identity ∈ file.identities,
    checkedIdentity format (file.keys.map KeyEntry.id) identity.id identity = identity ∧
      Unknown identityKeys identity.extra
  hosts : ∀ entry ∈ file.hosts, SettledHost format entry ∧ Unknown hostKeys entry.extra
  extra : Unknown fileKeys file.extra

theorem checkedKey_same {key : KeyEntry} (h : checkedKey format key.id key = key) :
    knownRef format key.secret = key.secret := by
  have hsecret : knownRef format (refreshFromPublic format key).secret = key.secret :=
    congrArg KeyEntry.secret h
  have hrefresh : (refreshFromPublic format key).secret = key.secret := by
    rw [refreshFromPublic]
    split <;> rfl
  rwa [hrefresh] at hsecret

theorem identityWarnings_same {keyIds : List String} {identity : Identity}
    (h : checkedIdentity format keyIds identity.id identity = identity) (label : String) :
    identityWarnings format keyIds label identity = [] := by
  have hpassword : knownRef format identity.password = identity.password :=
    congrArg Identity.password h
  have hkey : identity.key.filter (fun key => keyIds.contains key) = identity.key :=
    congrArg Identity.key h
  rw [identityWarnings, refWarning_known hpassword, if_pos]
  · rfl
  · cases hid : identity.key with
    | none => rfl
    | some id =>
      rw [hid] at hkey
      have hcontains : keyIds.contains id = true := (Option.filter_eq_some_iff.mp hkey).2
      rw [Option.all_some, hcontains]

variable {α : Type} {entries : List α} {root : Table} {file : KeychainFile}

theorem saidOf_nil {kind : EntryKind α}
    (h : ∀ entry ∈ entries, ∀ label, kind.warnings label entry = []) (index : Nat) :
    saidOf kind index entries = [] := by
  rw [saidOf, flatMap_eq_nil_iff]
  intro entry hentry
  exact h entry.1 (fst_mem_of_mem_zipIdx hentry) _

/-- A settled file passes unchanged. -/
theorem check_settled {file : KeychainFile} (h : Settled format file) :
    check format newId file = (file, saidOf (keyKind format) 0 file.keys) := by
  obtain ⟨hkeysValid, hidentitiesValid⟩ := forall_mem_append.mp h.consistent.valid
  rw [forall_mem_map] at hkeysValid hidentitiesValid
  obtain ⟨hkeysNodup, hidentitiesNodup, hapart⟩ := nodup_append'.mp h.consistent.distinct
  have hkeys : keysChecked format newId file =
      ⟨file.keys, (file.keys.map KeyEntry.id).reverse, 0, saidOf (keyKind format) 0 file.keys⟩ := by
    have hsame := @checkEntries_same _ (keyKind format) newId file.keys ⟨[], [], 0, []⟩ 0
      hkeysValid hkeysNodup (by simp) (fun key hkey => (h.keys key hkey).1)
    rw [keysChecked, hsame]
    simp [keyKind]
  have hidentities : identitiesChecked format newId file =
      ⟨file.identities, (file.identities.map Identity.id).reverse ++
        (file.keys.map KeyEntry.id).reverse, 0, []⟩ := by
    rw [identitiesChecked, hkeys]
    dsimp only
    have hsame := @checkEntries_same _ (identityKind format (file.keys.map KeyEntry.id)) newId
      file.identities ⟨[], (file.keys.map KeyEntry.id).reverse, 0, []⟩ 0 hidentitiesValid
      hidentitiesNodup ?_ (fun identity hidentity => (h.identities identity hidentity).1)
    · rw [hsame, saidOf_nil fun identity hidentity label =>
        identityWarnings_same (h.identities identity hidentity).1 label]
      simp [identityKind]
    · intro identity hidentity hmem
      rw [mem_reverse] at hmem
      exact hapart hmem (mem_map_of_mem hidentity)
  have hhosts : hostsChecked format file =
      ⟨file.hosts, (file.hosts.map HostSecrets.host).reverse, 0, []⟩ := by
    rw [hostsChecked, checkHosts_same 0 (fun entry hentry => (h.hosts entry hentry).1)
      h.consistent.hostsDistinct (by simp)]
    simp
  rw [check_eq, hkeys, hidentities, hhosts]
  simp

theorem entriesOf_tables {read : Value → Option α} {write : α → Table}
    (h : ∀ entry ∈ entries, read (.table (write entry)) = some entry) {key : String}
    (hroot : root.lookup key = if entries.map write = [] then none
      else some (.array ((entries.map write).map Value.table))) :
    entriesOf read root key = (entries, []) := by
  rw [entriesOf, hroot]
  by_cases hempty : entries.map write = []
  · rw [if_pos hempty, map_eq_nil_iff.mp hempty]
  · rw [if_neg hempty]
    dsimp only
    refine Prod.ext ?_ ?_
    · rw [map_map, filterMap_map]
      exact (filterMap_congr fun entry hentry => h entry hentry).trans filterMap_some
    · refine filterMap_eq_nil_iff.mpr fun item hitem => ?_
      obtain ⟨table, htable, heq⟩ := mem_map.mp (fst_mem_of_mem_zipIdx hitem)
      obtain ⟨entry, hentry, rfl⟩ := mem_map.mp htable
      rw [← heq, h entry hentry]

theorem lookup_insertTables (root : Table) (key other : String) (tables : List Table)
    (h : root.lookup key = none) : (insertTables root key tables).lookup other =
      if other = key then
        if tables = [] then none else some (.array (tables.map Value.table))
      else root.lookup other := by
  rw [insertTables]
  split
  · split
    · rename_i heq
      rw [heq, h]
    · rfl
  · rw [lookup_insertEntry]

/-- Each list is under its name. -/
theorem lookup_toRoot (h : Unknown fileKeys file.extra) (key : String) :
    file.toRoot.lookup key =
      if key = "host" then
        if file.hosts.map writeHost = [] then none
        else some (.array ((file.hosts.map writeHost).map Value.table))
      else if key = "key" then
        if file.keys.map writeKey = [] then none
        else some (.array ((file.keys.map writeKey).map Value.table))
      else if key = "identity" then
        if file.identities.map writeIdentity = [] then none
        else some (.array ((file.identities.map writeIdentity).map Value.table))
      else if key = "schema_version" then some (.integer keychainSchemaVersion)
      else file.extra.lookup key := by
  have hidentity : (insertEntry "schema_version" (.integer keychainSchemaVersion)
      file.extra).lookup "identity" = none := by
    rw [lookup_insertEntry, if_neg (by decide), h.absent _ (by decide)]
  have hkey : (insertTables (insertEntry "schema_version" (.integer keychainSchemaVersion)
      file.extra) "identity" (file.identities.map writeIdentity)).lookup "key" = none := by
    rw [lookup_insertTables _ _ _ _ hidentity, if_neg (by decide), lookup_insertEntry,
      if_neg (by decide), h.absent _ (by decide)]
  have hhost : (insertTables (insertTables (insertEntry "schema_version"
      (.integer keychainSchemaVersion) file.extra) "identity"
      (file.identities.map writeIdentity)) "key" (file.keys.map writeKey)).lookup "host" =
        none := by
    rw [lookup_insertTables _ _ _ _ hkey, if_neg (by decide), lookup_insertTables _ _ _ _ hidentity,
      if_neg (by decide), lookup_insertEntry, if_neg (by decide), h.absent _ (by decide)]
  rw [toRoot, lookup_insertTables _ _ _ _ hhost, lookup_insertTables _ _ _ _ hkey,
    lookup_insertTables _ _ _ _ hidentity, lookup_insertEntry]

theorem wellFormed_insertTables {key : String} {tables : List Table}
    (hroot : (Value.table root).wellFormed = true)
    (h : ∀ table ∈ tables, (Value.table table).wellFormed = true) :
    (Value.table (insertTables root key tables)).wellFormed = true := by
  rw [insertTables]
  split
  · exact hroot
  · refine wellFormed_insertEntry hroot ((wellFormed_array _).mpr ?_)
    rw [forall_mem_map]
    exact h

theorem wellFormed_textEntry (key text : String) :
    ∀ entry ∈ textEntry key text, entry.2.wellFormed = true := by
  rw [textEntry]
  split
  · simp
  · simp [Value.wellFormed]

theorem wellFormed_optionalEntry (key : String) (value : Option String) :
    ∀ entry ∈ optionalEntry key value, entry.2.wellFormed = true := by
  cases value <;> simp [optionalEntry, Value.wellFormed]

theorem wellFormed_createdEntry (created : Int) :
    ∀ entry ∈ createdEntry created, entry.2.wellFormed = true := by
  rw [createdEntry]
  split
  · simp
  · simp [Value.wellFormed]

theorem wellFormed_toRoot (h : Settled format file) :
    (Value.table file.toRoot).wellFormed = true := by
  refine wellFormed_insertTables (wellFormed_insertTables (wellFormed_insertTables
    (wellFormed_insertEntry h.extra.wellFormed rfl) ?_) ?_) ?_
  · rw [forall_mem_map]
    intro identity hidentity
    refine wellFormed_tableOf (identity_keys identity) (by decide)
      (h.identities identity hidentity).2 ?_
    simp only [forall_mem_append]
    exact ⟨⟨⟨⟨by simp [Value.wellFormed], wellFormed_textEntry _ _⟩, wellFormed_optionalEntry _ _⟩,
      wellFormed_optionalEntry _ _⟩, wellFormed_textEntry _ _⟩
  · rw [forall_mem_map]
    intro key hkey
    refine wellFormed_tableOf (key_keys key) (by decide) (h.keys key hkey).2.2 ?_
    simp only [forall_mem_append]
    exact ⟨⟨⟨by simp [Value.wellFormed], wellFormed_optionalEntry _ _⟩,
      wellFormed_textEntry _ _⟩, wellFormed_createdEntry key.created⟩
  · rw [forall_mem_map]
    intro entry hentry
    refine wellFormed_tableOf (host_keys entry) (by decide) (h.hosts entry hentry).2 ?_
    simp only [forall_mem_append]
    exact ⟨⟨by simp [Value.wellFormed], wellFormed_optionalEntry _ _⟩, wellFormed_optionalEntry _ _⟩

theorem unknown_toRoot (h : Settled format file) : unknown file.toRoot fileKeys = file.extra := by
  have hasc := ((wellFormed_table _).mp (wellFormed_toRoot h)).1
  refine Ascending.ext (ascending_filter _ hasc) h.extra.ascending fun key => ?_
  rw [unknown, lookup_filter_key fun key => !(fileKeys.contains key)]
  by_cases hmem : key ∈ fileKeys
  · rw [if_neg (by simpa using hmem), h.extra.absent key hmem]
  · rw [if_pos (by simpa using hmem), lookup_toRoot h.extra]
    simp only [fileKeys, mem_cons, not_mem_nil, or_false, not_or] at hmem
    rw [if_neg hmem.2.2.2, if_neg hmem.2.2.1, if_neg hmem.2.1, if_neg hmem.1]

/-- A settled file reads back from its table. -/
theorem fromRoot_toRoot (h : Settled format file) :
    fromRoot format newId file.toRoot =
      ({ file with readOnly := false }, saidOf (keyKind format) 0 file.keys) := by
  have hlookup := lookup_toRoot h.extra
  have hidentities : entriesOf readIdentity file.toRoot "identity" = (file.identities, []) := by
    refine entriesOf_tables (fun identity hidentity =>
      readIdentity_writeIdentity (h.identities identity hidentity).2) ?_
    rw [hlookup, if_neg (by decide), if_neg (by decide), if_pos rfl]
  have hkeys : entriesOf readKey file.toRoot "key" = (file.keys, []) := by
    refine entriesOf_tables (fun key hkey =>
      readKey_writeKey (h.keys key hkey).2.2 (h.keys key hkey).2.1) ?_
    rw [hlookup, if_neg (by decide), if_pos rfl]
  have hhosts : entriesOf readHost file.toRoot "host" = (file.hosts, []) := by
    refine entriesOf_tables (fun entry hentry => readHost_writeHost (h.hosts entry hentry).2) ?_
    rw [hlookup, if_pos rfl]
  have hversion : versionOf file.toRoot = (keychainSchemaVersion, []) := by
    rw [versionOf, hlookup, if_neg (by decide), if_neg (by decide), if_neg (by decide), if_pos rfl]
  have hsettled : Settled format { file with readOnly := false } :=
    ⟨⟨h.consistent.valid, h.consistent.distinct, h.consistent.hosts, h.consistent.hostsDistinct,
      h.consistent.references, h.consistent.keys⟩, h.keys, h.identities, h.hosts, h.extra⟩
  have hunknown := unknown_toRoot h
  rw [fileKeys] at hunknown
  have hchecked := @check_settled _ _ format newId _ hsettled
  rw [fromRoot, hidentities, hkeys, hhosts, hversion, hunknown]
  dsimp only
  rw [show decide (keychainSchemaVersion < keychainSchemaVersion) = false from rfl, hchecked]
  rfl

end Tables

section Loaded

open Records (Unknown)

variable {τ κ : Type} {format : KeychainFormat τ κ} {newId : Nat → String}

/-- What the library for public keys promises: a line it writes says what it was written of. -/
structure PublicCodec (format : KeychainFormat τ κ) : Prop where
  again : ∀ {line info}, format.publicInfo line = some info →
    format.publicInfo (trim info.publicLine) = some info
  bits : ∀ {line info}, format.publicInfo line = some info → info.bits ≤ 4294967295
  fingerprint : ∀ {line info}, format.publicInfo line = some info →
    trim info.fingerprint = info.fingerprint

/-- What the TOML library promises: a table that is written is read as it was. -/
structure TomlCodec (format : KeychainFormat τ κ) : Prop where
  reads : ∀ {root text}, (Value.table root).wellFormed = true → format.print root = .ok text →
    format.parse (format.header text) = .ok root
  parsed : ∀ {text root}, format.parse text = .ok root → (Value.table root).wellFormed = true

/-- A key that gets no name, or one that is no different when it is trimmed. -/
def NamedWell (format : KeychainFormat τ κ) (key : KeyEntry) : Prop :=
  format.publicInfo (trim key.publicLine) = none → trim key.name = "" →
    trim key.fingerprint = key.fingerprint ∨ trim key.fingerprint = ""

theorem unknown_unknown {table : Table} (h : (Value.table table).wellFormed = true)
    (keys : List String) : Unknown keys (unknown table keys) := by
  obtain ⟨hasc, hvalues⟩ := (wellFormed_table table).mp h
  refine ⟨(wellFormed_table _).mpr ⟨ascending_filter _ hasc, fun key value hmem =>
    hvalues key value (mem_of_mem_filter hmem)⟩, fun key hkey => ?_⟩
  rw [unknown, lookup_filter_key fun key => !(keys.contains key), if_neg (by simpa using hkey)]

theorem knownRef_knownRef (reference : Option String) :
    knownRef format (knownRef format reference) = knownRef format reference := by
  rw [knownRef, knownRef, Option.filter_filter]
  simp

/-- A second look at the public half changes nothing. -/
theorem refresh_refresh (hcodec : PublicCodec format) (key : KeyEntry) :
    refreshFromPublic format (refreshFromPublic format key) = refreshFromPublic format key := by
  cases hinfo : format.publicInfo (trim key.publicLine) with
  | none =>
    have hsame : refreshFromPublic format key = key := by rw [refreshFromPublic, hinfo]
    rw [hsame, hsame]
  | some info =>
    have hfirst : refreshFromPublic format key = { key with
        algorithm := info.algorithm
        bits := info.bits
        fingerprint := info.fingerprint
        publicLine := info.publicLine } := by rw [refreshFromPublic, hinfo]
    rw [hfirst, refreshFromPublic, hcodec.again hinfo]

theorem refresh_congr {key : KeyEntry} (name : String) (secret : Option String) :
    refreshFromPublic format { key with name, secret } =
      { refreshFromPublic format key with name, secret } := by
  rw [refreshFromPublic, refreshFromPublic]
  cases format.publicInfo (trim key.publicLine) <;> rfl

theorem name_again {name fingerprint : String}
    (h : trim name = "" → trim fingerprint = fingerprint ∨ trim fingerprint = "")
    {given : String} (hgiven : given = if trim name = "" then
      if fingerprint = "" then "Key" else fingerprint else trim name) :
    (if trim given = "" then if fingerprint = "" then "Key" else fingerprint
      else trim given) = given := by
  subst hgiven
  by_cases hname : trim name = ""
  · rw [if_pos hname]
    by_cases hprint : fingerprint = ""
    · rw [if_pos hprint, if_neg (by decide)]
      decide
    · rw [if_neg hprint]
      rcases h hname with hsame | hblank
      · rw [hsame, if_neg hprint]
      · rw [if_pos hblank]
  · rw [if_neg hname, trim_trim, if_neg hname]

/-- A checked key passes unchanged. -/
theorem checkedKey_again (hcodec : PublicCodec format) {id : String} {key : KeyEntry}
    (hnamed : NamedWell format key) :
    checkedKey format (checkedKey format id key).id (checkedKey format id key) =
      checkedKey format id key := by
  have hname : trim (refreshFromPublic format { key with id }).name = "" →
      trim (refreshFromPublic format { key with id }).fingerprint =
          (refreshFromPublic format { key with id }).fingerprint ∨
        trim (refreshFromPublic format { key with id }).fingerprint = "" := by
    rw [refreshFromPublic]
    cases hinfo : format.publicInfo (trim key.publicLine) with
    | none => exact hnamed hinfo
    | some info => exact fun _ => Or.inl (hcodec.fingerprint hinfo)
  have hrefresh : refreshFromPublic format (checkedKey format id key) =
      checkedKey format id key := by
    rw [checkedKey, refresh_congr, refresh_refresh hcodec]
  have hagain : checkedKey format (checkedKey format id key).id (checkedKey format id key) =
      { checkedKey format id key with
        secret := knownRef format (checkedKey format id key).secret
        name := if trim (checkedKey format id key).name = "" then
          if (checkedKey format id key).fingerprint = "" then "Key"
          else (checkedKey format id key).fingerprint
        else trim (checkedKey format id key).name } := by
    conv_lhs => rw [checkedKey, hrefresh]
  rw [hagain, checkedKey, knownRef_knownRef, name_again hname rfl]

theorem checkedIdentity_again (keyIds : List String) (id : String) (identity : Identity) :
    checkedIdentity format keyIds id (checkedIdentity format keyIds id identity) =
      checkedIdentity format keyIds id identity := by
  have hname : ∀ name user : String,
      (if trim (if trim name = "" then if trim user = "" then "Identity" else trim user
          else trim name) = "" then
        if trim user = "" then "Identity" else trim user
      else trim (if trim name = "" then if trim user = "" then "Identity" else trim user
          else trim name)) =
        if trim name = "" then if trim user = "" then "Identity" else trim user
        else trim name := by
    intro name user
    by_cases hname : trim name = ""
    · rw [if_pos hname]
      by_cases huser : trim user = ""
      · rw [if_pos huser]
        decide
      · rw [if_neg huser, trim_trim, if_neg huser]
    · rw [if_neg hname, trim_trim, if_neg hname]
  have hkey : (identity.key.filter fun key => keyIds.contains key).filter
      (fun key => keyIds.contains key) = identity.key.filter fun key => keyIds.contains key := by
    rw [Option.filter_filter]
    simp
  simp only [checkedIdentity, knownRef_knownRef, trim_trim, hkey, hname]

theorem checkedHost_again (entry : HostSecrets) :
    checkedHost format (checkedHost format entry) = checkedHost format entry := by
  simp only [checkedHost, knownRef_knownRef, trim_trim]

variable {root : Table}

theorem mem_entriesOf {α : Type} {read : Value → Option α} {key : String}
    (hroot : (Value.table root).wellFormed = true) {entry : α}
    (hentry : entry ∈ (entriesOf read root key).1) :
    ∃ value : Value, value.wellFormed = true ∧ read value = some entry := by
  rw [entriesOf] at hentry
  split at hentry
  · cases hentry
  · rename_i items hitems
    obtain ⟨value, hvalue, hread⟩ := mem_filterMap.mp hentry
    obtain ⟨hasc, hvalues⟩ := (wellFormed_table root).mp hroot
    have hwell := hvalues key _ ((lookup_eq_some_iff_mem hasc.nodup).mp hitems)
    exact ⟨value, (wellFormed_array items).mp hwell value hvalue, hread⟩
  · cases hentry

theorem unknown_readIdentity {value : Value} (hvalue : value.wellFormed = true)
    {identity : Identity} (h : readIdentity value = some identity) :
    Unknown identityKeys identity.extra := by
  obtain ⟨table, htable, id, -, name, -, user, -, password, -, key, -, notes, -, rfl⟩ := by
    simpa only [readIdentity, Option.bind_eq_bind, Option.bind_eq_some_iff, Option.some.injEq]
      using h
  cases value with
  | table entries =>
    obtain rfl := Option.some.inj htable
    exact unknown_unknown hvalue _
  | _ => cases htable

theorem unknown_readKey {value : Value} (hvalue : value.wellFormed = true) {key : KeyEntry}
    (h : readKey value = some key) : key.bits ≤ 4294967295 ∧ Unknown keyKeys key.extra := by
  obtain ⟨table, htable, id, -, name, -, algorithm, -, bits, hbits, publicLine, -, fingerprint, -,
      secret, -, origin, -, created, -, rfl⟩ := by
    simpa only [readKey, Option.bind_eq_bind, Option.bind_eq_some_iff, Option.some.injEq] using h
  obtain ⟨number, -, hnumber⟩ := Option.bind_eq_some_iff.mp hbits
  refine ⟨?_, ?_⟩
  · split at hnumber
    · rename_i hrange
      obtain rfl := Option.some.inj hnumber
      dsimp only
      omega
    · cases hnumber
  · cases value with
    | table entries =>
      obtain rfl := Option.some.inj htable
      exact unknown_unknown hvalue _
    | _ => cases htable

theorem unknown_readHost {value : Value} (hvalue : value.wellFormed = true) {entry : HostSecrets}
    (h : readHost value = some entry) : Unknown hostKeys entry.extra := by
  obtain ⟨table, htable, host, -, password, -, keyPassphrase, -, rfl⟩ := by
    simpa only [readHost, Option.bind_eq_bind, Option.bind_eq_some_iff, Option.some.injEq] using h
  cases value with
  | table entries =>
    obtain rfl := Option.some.inj htable
    exact unknown_unknown hvalue _
  | _ => cases htable

/-- What was read is settled. -/
theorem fromRoot_settled (hcodec : PublicCodec format) (hnew : ∀ n, validId (newId n) = true)
    (hroot : (Value.table root).wellFormed = true)
    (hnamed : ∀ key ∈ keysIn root, NamedWell format key) :
    Settled format (fromRoot format newId root).1 := by
  have hconsistent : Consistent format (fromRoot format newId root).1 := check_consistent hnew _
  refine ⟨hconsistent, ?_, ?_, ?_, unknown_unknown hroot _⟩
  · intro key hkey
    obtain ⟨id, given, hgiven, rfl⟩ := (keysChecked_apart format _ hnew).checked key hkey
    obtain ⟨value, hvalue, hread⟩ := mem_entriesOf hroot hgiven
    obtain ⟨hbits, hunknown⟩ := unknown_readKey hvalue hread
    refine ⟨checkedKey_again hcodec (hnamed given hgiven), ?_, ?_⟩
    · change (refreshFromPublic format { given with id }).bits ≤ _
      rw [refreshFromPublic]
      cases hinfo : format.publicInfo (trim given.publicLine) with
      | none => exact hbits
      | some info => exact hcodec.bits hinfo
    · change Unknown keyKeys (refreshFromPublic format { given with id }).extra
      rw [refreshFromPublic]
      cases format.publicInfo (trim given.publicLine) <;> exact hunknown
  · intro identity hidentity
    obtain ⟨id, given, hgiven, rfl⟩ :=
      (identitiesChecked_apart format _ hnew).checked identity hidentity
    obtain ⟨value, hvalue, hread⟩ := mem_entriesOf hroot hgiven
    have hunknown : Unknown identityKeys given.extra := unknown_readIdentity hvalue hread
    exact ⟨checkedIdentity_again _ id given, hunknown⟩
  · intro entry hentry
    obtain ⟨hfilled, given, hgiven, rfl, hnamed⟩ :=
      (hostsChecked_kept format _).checked entry hentry
    obtain ⟨value, hvalue, hread⟩ := mem_entriesOf hroot hgiven
    have hunknown : Unknown hostKeys given.extra := unknown_readHost hvalue hread
    exact ⟨⟨hnamed, checkedHost_again given, hfilled⟩, hunknown⟩

/-- A warning about a key whose public half is no public key. -/
def PublicWarning (format : KeychainFormat τ κ) (file : KeychainFile) (warning : Warning) : Prop :=
  ∃ (index : Nat) (key : KeyEntry), file.keys[index]? = some key ∧
    format.publicInfo (trim key.publicLine) = none ∧
    warning = ⟨s!"key[{index}]" ++ ".public", "not an OpenSSH public key"⟩

/-- Loading what a keychain is written as gives `again`, and says nothing else of it. -/
def LoadsAs (format : KeychainFormat τ κ) (file again : KeychainFile) : Prop :=
  ∀ (newId : Nat → String) (text : τ), toTomlString format file = .ok text →
    ∃ warnings, fromTomlStr format newId text = .ok (again, warnings) ∧
      ∀ warning ∈ warnings, PublicWarning format file warning

theorem publicWarning_of_said {file : KeychainFile} (h : Settled format file) :
    ∀ warning ∈ saidOf (keyKind format) 0 file.keys, PublicWarning format file warning := by
  intro warning hwarning
  obtain ⟨⟨key, index⟩, hmem, hsaid⟩ := mem_flatMap.mp hwarning
  have hindex : file.keys[index]? = some key := by
    rwa [mk_mem_zipIdx_iff_getElem?] at hmem
  have hkey : key ∈ file.keys := mem_of_getElem? hindex
  have hsecret : refWarning format key.secret (s!"key[{index}]" ++ ".private") = [] :=
    refWarning_known (checkedKey_same (h.keys key hkey).1) _
  change warning ∈ keyWarnings format s!"key[{index}]" key at hsaid
  rw [keyWarnings, hsecret, List.append_nil] at hsaid
  cases hinfo : format.publicInfo (trim key.publicLine) with
  | some info =>
    rw [hinfo, Option.isSome_some, if_pos rfl] at hsaid
    cases hsaid
  | none =>
    rw [hinfo, Option.isSome_none, if_neg (by simp)] at hsaid
    exact ⟨index, key, hindex, hinfo, mem_singleton.mp hsaid⟩

/-- A settled file loads as itself. -/
theorem loadsAs_of_settled (htoml : TomlCodec format) {file : KeychainFile}
    (h : Settled format file) : LoadsAs format file { file with readOnly := false } := by
  intro newId text hwritten
  obtain ⟨body, hbody, rfl⟩ : ∃ body, format.print file.toRoot = .ok body ∧
      format.header body = text := by
    rw [toTomlString] at hwritten
    cases hprint : format.print file.toRoot with
    | error message =>
      rw [hprint] at hwritten
      cases hwritten
    | ok body =>
      rw [hprint] at hwritten
      exact ⟨body, rfl, Except.ok.inj hwritten⟩
  refine ⟨saidOf (keyKind format) 0 file.keys, ?_, publicWarning_of_said h⟩
  rw [fromTomlStr, htoml.reads (wellFormed_toRoot h) hbody]
  exact congrArg Except.ok (fromRoot_toRoot h)

/-- What loading gives is consistent whatever the file holds, and what it is then written as is
loaded as it was, but as a file of this version. -/
theorem load_keychain (hcodec : PublicCodec format) (htoml : TomlCodec format)
    (hnew : ∀ n, validId (newId n) = true) {text : τ} {root : Table}
    (hparse : format.parse text = .ok root) :
    ∃ file warnings, fromTomlStr format newId text = .ok (file, warnings) ∧
      Consistent format file ∧
      ((∀ key ∈ keysIn root, NamedWell format key) →
        LoadsAs format file { file with readOnly := false }) := by
  refine ⟨(fromRoot format newId root).1, (fromRoot format newId root).2, ?_,
    check_consistent hnew _, fun hnamed => ?_⟩
  · rw [fromTomlStr, hparse]
    rfl
  · exact loadsAs_of_settled htoml (fromRoot_settled hcodec hnew (htoml.parsed hparse) hnamed)

end Loaded

end KeychainFile

namespace LoadWitness

open KeychainFile

def publicLine : String :=
  "ssh-ed25519 AAAAC3NzaC1lZDI1NTE5AAAAILe9VcEbeBsMzEOqblf52t8GYOnR1OJ+CXnuQ6QH1FSu deploy"

def info : KeyInfo :=
  ⟨"ssh-ed25519", "Ed25519", 256, publicLine, "SHA256:UDxmtQLIzpXCPooHEx8wgoQ55igaQ4VQbDU/uaFKbNQ",
    "deploy"⟩

/-- Texts that are tables, and the one public key that is met. -/
def format : KeychainFormat Table (List UInt8) :=
  { GarbageWitness.format with
    parse := fun text =>
      if (Value.table text).wellFormed then .ok text else .error "duplicate key"
    publicInfo := fun line => if line = publicLine then some info else none }

def newIds (made : Nat) : String :=
  if made = 0 then "01ARZ3NDEKTSV4RRFFQ69G5FAV" else "01BX5ZZKBKACTAV9WEVGEMMVRZ"

theorem validId_newIds (made : Nat) : validId (newIds made) = true := by
  rw [newIds]
  split <;> decide

theorem publicCodec : PublicCodec format := by
  have hinfo : ∀ {line found}, format.publicInfo line = some found → found = info := by
    intro line found h
    change (if line = publicLine then some info else none) = some found at h
    split at h
    · exact (Option.some.inj h).symm
    · cases h
  refine ⟨fun h => ?_, fun h => ?_, fun h => ?_⟩
  · obtain rfl := hinfo h
    rfl
  · rw [hinfo h]
    decide
  · rw [hinfo h]
    decide

theorem tomlCodec : TomlCodec format := by
  refine ⟨fun hwell hprint => ?_, fun hparse => ?_⟩
  · obtain rfl := Except.ok.inj hprint
    exact if_pos hwell
  · change (if _ then _ else _) = _ at hparse
    split at hparse
    · obtain rfl := Except.ok.inj hparse
      assumption
    · cases hparse

/-- A key without an id or a name, one whose public half is none, two identities of one id, and
hosts with a secret that is no reference. -/
def mixed : Table :=
  [("host", .array [
      .table [("host", .string "web"), ("password", .string "hunter2")],
      .table [("host", .string " db "), ("password", .string ("vault:" ++ GarbageWitness.ulidText))],
      .table [("host", .string "db")]]),
    ("identity", .array [
      .table [("id", .string "A"), ("key", .string "K"), ("user", .string " root ")],
      .table [("id", .string "A"), ("name", .string "again")],
      .table [("id", .string "K"), ("name", .string "taken")]]),
    ("key", .array [
      .table [("public", .string (publicLine ++ "\n"))],
      .table [("id", .string "K"), ("name", .string "old"), ("public", .string "ssh-dss")]])]

theorem mixed_named : ∀ key ∈ keysIn mixed, NamedWell format key := by
  intro key hkey
  have hkeys : keysIn mixed = [⟨"", "", "", 0, publicLine ++ "\n", "", none, "", 0, []⟩,
      ⟨"K", "old", "", 0, "ssh-dss", "", none, "", 0, []⟩] := rfl
  rw [hkeys, mem_pair] at hkey
  rcases hkey with rfl | rfl
  · exact fun _ _ => Or.inl rfl
  · exact fun _ hblank => absurd hblank (by decide)

theorem load_mixed : ∃ file warnings,
    fromTomlStr format newIds mixed = .ok (file, warnings) ∧ KeychainFile.Consistent format file ∧
      LoadsAs format file { file with readOnly := false } := by
  have hparse : format.parse mixed = .ok mixed := by decide
  obtain ⟨file, warnings, hload, hconsistent, hsame⟩ :=
    load_keychain publicCodec tomlCodec validId_newIds hparse
  exact ⟨file, warnings, hload, hconsistent, hsame mixed_named⟩

/-- A file of a newer version. -/
def newerFile : Table := [("schema_version", .integer 2)]

/-- A key with no name, whose fingerprint has a blank before it. -/
def blankName : Table :=
  [("key", .array [.table [("fingerprint", .string " SHA256:x"), ("id", .string "K")]])]

def loaded (root : Table) : KeychainFile := (fromRoot format newIds root).1

/-- A file of a newer version is no longer read-only once it is written, and a fingerprint that
was taken as a name loses its blank. -/
theorem not_the_same : PublicCodec format ∧ TomlCodec format ∧
    (∀ made, validId (newIds made) = true) ∧
    (fromTomlStr format newIds newerFile).map Prod.fst = .ok (loaded newerFile) ∧
    ¬ LoadsAs format (loaded newerFile) (loaded newerFile) ∧
    (fromTomlStr format newIds blankName).map Prod.fst = .ok (loaded blankName) ∧
    ¬ LoadsAs format (loaded blankName) (loaded blankName) := by
  have hread : ∀ file warnings, format.parse file.toRoot = .ok file.toRoot →
      fromTomlStr format newIds file.toRoot = .ok (file, warnings) →
        (fromRoot format newIds file.toRoot).1 = file := by
    intro file warnings hparse hload
    rw [fromTomlStr, hparse] at hload
    exact congrArg Prod.fst (Except.ok.inj hload)
  refine ⟨publicCodec, tomlCodec, validId_newIds, rfl, fun h => ?_, rfl, fun h => ?_⟩
  · obtain ⟨warnings, hload, -⟩ := h newIds _ rfl
    have hsame := hread (loaded newerFile) warnings rfl hload
    exact absurd (congrArg KeychainFile.readOnly hsame) (by decide)
  · obtain ⟨warnings, hload, -⟩ := h newIds _ rfl
    have hsame := hread (loaded blankName) warnings rfl hload
    exact absurd (congrArg (fun file => file.keys.map KeyEntry.name) hsame) (by decide)

end LoadWitness

end Opensesh.Vault
