/-
`config.toml` as a whole: reading a text field by field, keeping what this
version does not know, and writing it back.  Reading what was written gives the
same settings.
-/
import Opensesh.Settings

namespace Opensesh

open Option

/-- The entries of a table; none when it is missing or not a table. -/
def entriesOf : Option Value → Table
  | some (.table entries) => entries
  | _ => []

def sectionOf (root : Table) (name : String) : Table := entriesOf (root.lookup name)

/-- The setting that stands under a key of a section. -/
def knownField (name key : String) : Option Field :=
  Field.all.find? fun field => field.setting.sectionName == name && field.setting.key == key

theorem knownField_eq_some {name key : String} {field : Field} :
    knownField name key = some field ↔
      field.setting.sectionName = name ∧ field.setting.key = key := by
  constructor
  · intro h
    simpa using List.find?_some h
  · rintro ⟨rfl, rfl⟩
    cases hfound : knownField field.setting.sectionName field.setting.key with
    | none =>
      have hnone := List.find?_eq_none.mp hfound field field.mem_all
      simp at hnone
    | some other =>
      have hplace := List.find?_some hfound
      simp only [Bool.and_eq_true, beq_iff_eq] at hplace
      rw [List.inj_on_of_nodup_map Field.places_nodup other.mem_all
        field.mem_all (Prod.ext hplace.1 hplace.2)]

/-- Keys that are not sections of settings. -/
def isOther (name : String) : Bool := name ≠ "schema_version" && name ∉ sectionNames

/-- What this version does not know of a section. -/
def unknownEntries (name : String) (entries : Table) : Table :=
  entries.filter fun entry => (knownField name entry.1).isNone

theorem lookup_unknownEntries (name key : String) (entries : Table) :
    (unknownEntries name entries).lookup key =
      if (knownField name key).isNone then entries.lookup key else none :=
  lookup_filter_key (fun key => (knownField name key).isNone) entries key

theorem wellFormed_of_lookup {entries : Table} (hasc : Ascending entries)
    (h : ∀ key value, entries.lookup key = some value →
      value.wellFormed = true) : (Value.table entries).wellFormed = true :=
  (wellFormed_table entries).mpr ⟨hasc, fun key value hmem =>
    h key value ((lookup_eq_some_iff_mem hasc.nodup).mpr hmem)⟩

theorem wellFormed_entriesOf {value : Option Value} (h : wellFormedOpt value) :
    (Value.table (entriesOf value)).wellFormed = true := by
  rcases value with _ | value
  · exact wellFormed_empty
  · cases value with
    | table entries => rwa [wellFormedOpt_some] at h
    | _ => exact wellFormed_empty

theorem wellFormed_sectionOf (root : Document) (name : String) :
    (Value.table (sectionOf root.table name)).wellFormed = true :=
  wellFormed_entriesOf (root.wellFormedOpt_lookup name)

theorem sameOpt_entriesOf {x y : Option Value} (hx : wellFormedOpt x)
    (hy : wellFormedOpt y) (h : sameOpt x y = true) (key : String) :
    sameOpt ((entriesOf x).lookup key) ((entriesOf y).lookup key) = true := by
  rcases x with _ | x <;> rcases y with _ | y
  · rfl
  · cases h
  · cases h
  · rw [wellFormedOpt_some] at hx hy
    cases x with
    | table xs =>
      cases y with
      | table ys =>
        exact (same_table_iff ((wellFormed_table xs).mp hx).1
          ((wellFormed_table ys).mp hy).1).mp h key
      | _ => simp [sameOpt, same] at h
    | _ => cases y <;> first | rfl | simp [sameOpt, same] at h

/-- Unknown keys only: no section is there without some. -/
def OnlyUnknown (extra : Document) : Prop :=
  extra.table.lookup "schema_version" = none ∧
    ∀ name ∈ sectionNames, ∀ value, extra.table.lookup name = some value →
      ∃ entries, value = .table entries ∧ entries ≠ [] ∧
        ∀ key, (knownField name key).isSome → entries.lookup key = none

/-- The whole `config.toml`: usable settings, and what this version doesn't
know, written back as it was read. -/
structure Config where
  value : Field → Value
  extra : Document
  usable : ∀ field, field.setting.accept (value field) = some (value field)
  onlyUnknown : OnlyUnknown extra

/-- A setting as a text gives it: its default when missing or not usable. -/
def readField (root : Table) (field : Field) : Value :=
  (((sectionOf root field.setting.sectionName).lookup field.setting.key).bind
    field.setting.accept).getD field.setting.fallback

theorem readField_usable (root : Table) (field : Field) :
    field.setting.accept (readField root field) = some (readField root field) := by
  rw [readField]
  cases hread : ((sectionOf root field.setting.sectionName).lookup
      field.setting.key).bind field.setting.accept with
  | none => exact field.setting.accept_fallback
  | some value =>
    obtain ⟨found, -, haccept⟩ := bind_eq_some_iff.mp hread
    exact field.setting.accept_accept haccept

/-- What is left of a section that has unknown keys. -/
def leftover (root : Table) (name : String) : Option Value :=
  let rest := unknownEntries name (sectionOf root name)
  if rest.isEmpty then none else some (.table rest)

/-- What `from_toml_str` keeps aside. -/
def extraTable (root : Table) : Table :=
  writeAll (leftover root) sectionNames (root.filter fun entry => isOther entry.1)

theorem lookup_extraTable (root : Table) (name : String) :
    (extraTable root).lookup name =
      if name ∈ sectionNames then leftover root name
      else if name = "schema_version" then none
      else root.lookup name := by
  rw [extraTable, lookup_writeAll, lookup_filter_key isOther]
  by_cases hname : name ∈ sectionNames
  · simp [hname, isOther]
  · by_cases hversion : name = "schema_version" <;> simp [hname, hversion, isOther]

theorem wellFormed_unknownEntries (name : String) {entries : Table}
    (h : (Value.table entries).wellFormed = true) :
    (Value.table (unknownEntries name entries)).wellFormed = true := by
  obtain ⟨hasc, hvalues⟩ := (wellFormed_table entries).mp h
  refine (wellFormed_table _).mpr ⟨ascending_filter _ hasc, ?_⟩
  exact fun key value hmem => hvalues key value (List.mem_filter.mp hmem).1

theorem leftover_eq_some {root : Table} {name : String} {value : Value} :
    leftover root name = some value ↔
      unknownEntries name (sectionOf root name) ≠ [] ∧
        value = .table (unknownEntries name (sectionOf root name)) := by
  simp only [leftover, ite_none_left_eq_some, List.isEmpty_iff, some.injEq]
  exact and_congr_right fun _ => eq_comm

theorem wellFormed_extraTable (root : Document) :
    (Value.table (extraTable root.table)).wellFormed = true := by
  refine wellFormed_of_lookup (ascending_writeAll _ _
    (ascending_filter _ root.ascending)) fun key value hvalue => ?_
  rw [lookup_extraTable] at hvalue
  split at hvalue
  · obtain ⟨-, rfl⟩ := leftover_eq_some.mp hvalue
    exact wellFormed_unknownEntries key (wellFormed_sectionOf root key)
  · rw [ite_none_left_eq_some] at hvalue
    have hwf := root.wellFormedOpt_lookup key
    rwa [hvalue.2, wellFormedOpt_some] at hwf

def readExtra (root : Document) : Document := ⟨extraTable root.table, wellFormed_extraTable root⟩

theorem onlyUnknown_readExtra (root : Document) : OnlyUnknown (readExtra root) := by
  refine ⟨?_, fun name hname value hvalue => ?_⟩
  · change (extraTable root.table).lookup "schema_version" = none
    rw [lookup_extraTable, if_neg (by decide), if_pos rfl]
  · change (extraTable root.table).lookup name = some value at hvalue
    rw [lookup_extraTable, if_pos hname] at hvalue
    obtain ⟨hsome, rfl⟩ := leftover_eq_some.mp hvalue
    refine ⟨_, rfl, hsome, fun key hknown => ?_⟩
    rw [lookup_unknownEntries, if_neg]
    simpa [isSome_iff_ne_none] using hknown

namespace Config

/-- `Config::from_toml_str` on a parsed text. -/
def fromRoot (root : Document) : Config where
  value := readField root.table
  extra := readExtra root
  usable := readField_usable root.table
  onlyUnknown := onlyUnknown_readExtra root

/-- `Config::default`. -/
def default : Config := fromRoot .empty

/-- Unknown settings go back where they were read from; known keys take
precedence. -/
def keepUnknown (known unknown : Table) : Table :=
  writeAll (fun key =>
    if (known.lookup key).isSome then none else unknown.lookup key)
    (unknown.map Prod.fst) known

theorem lookup_keepUnknown (known unknown : Table) (key : String) :
    (keepUnknown known unknown).lookup key = (known.lookup key).or (unknown.lookup key) := by
  rw [keepUnknown, lookup_writeAll]
  by_cases hmem : key ∈ unknown.map Prod.fst
  · cases hknown : known.lookup key <;> simp [hmem]
  · have hnone := lookup_eq_none_iff_not_mem.mpr hmem
    simp [hmem, hnone]

/-- The known settings of a section. -/
def knownTable (config : Config) (name : String) : Table :=
  writeAll (fun key => (knownField name key).map config.value)
    ((Field.all.filter fun field => field.setting.sectionName = name).map
      fun field => field.setting.key) []

def sectionTable (config : Config) (name : String) : Table :=
  keepUnknown (config.knownTable name) (sectionOf config.extra.table name)

/-- `to_toml_string` before it is printed. -/
def rootTable (config : Config) : Table :=
  writeAll (fun name => some (.table (config.sectionTable name))) sectionNames
    (insertEntry "schema_version" (.integer schemaVersion)
      (config.extra.table.filter fun entry => isOther entry.1))

theorem lookup_knownTable (config : Config) (name key : String) :
    (config.knownTable name).lookup key = (knownField name key).map config.value := by
  rw [knownTable, lookup_writeAll]
  split
  · simp
  · rename_i hkey
    cases hknown : knownField name key with
    | none => rfl
    | some field =>
      obtain ⟨rfl, rfl⟩ := knownField_eq_some.mp hknown
      refine absurd (List.mem_map.mpr ⟨field, ?_, rfl⟩) hkey
      simp [field.mem_all]

theorem lookup_sectionTable (config : Config) (name key : String) :
    (config.sectionTable name).lookup key =
      ((knownField name key).map config.value).or
        ((sectionOf config.extra.table name).lookup key) := by
  rw [sectionTable, lookup_keepUnknown, lookup_knownTable]

theorem lookup_rootTable (config : Config) (name : String) :
    config.rootTable.lookup name =
      if name ∈ sectionNames then some (.table (config.sectionTable name))
      else if name = "schema_version" then some (.integer schemaVersion)
      else config.extra.table.lookup name := by
  rw [rootTable, lookup_writeAll, lookup_insertEntry, lookup_filter_key isOther]
  by_cases hname : name ∈ sectionNames
  · simp [hname]
  · by_cases hversion : name = "schema_version" <;> simp [hname, hversion, isOther]

theorem wellFormed_sectionTable (config : Config) (name : String) :
    (Value.table (config.sectionTable name)).wellFormed = true := by
  have hextra := (wellFormed_table _).mp (wellFormed_sectionOf config.extra name)
  refine wellFormed_of_lookup (ascending_writeAll _ _ (ascending_writeAll _ _
    ascending_nil)) fun key value hvalue => ?_
  change (config.sectionTable name).lookup key = some value at hvalue
  rw [lookup_sectionTable] at hvalue
  cases hknown : knownField name key with
  | some field =>
    obtain rfl : config.value field = value := by simpa [hknown] using hvalue
    exact field.setting.wellFormed_accept (config.usable field)
  | none =>
    have hlookup : (sectionOf config.extra.table name).lookup key =
        some value := by simpa [hknown] using hvalue
    exact hextra.2 key value ((lookup_eq_some_iff_mem hextra.1.nodup).mp hlookup)

def toRoot (config : Config) : Document where
  table := config.rootTable
  wellFormed := by
    refine wellFormed_of_lookup (ascending_writeAll _ _ (ascending_insertEntry _ _
      (ascending_filter _ config.extra.ascending))) fun key value hvalue => ?_
    change config.rootTable.lookup key = some value at hvalue
    rw [lookup_rootTable] at hvalue
    split at hvalue
    · obtain rfl := Option.some.inj hvalue
      exact config.wellFormed_sectionTable key
    · split at hvalue
      · obtain rfl := Option.some.inj hvalue
        rfl
      · have hwf := config.extra.wellFormedOpt_lookup key
        rwa [hvalue, wellFormedOpt_some] at hwf

end Config

/-- A key of the file: of a section, or at the top. -/
inductive Key where
  | inSection (name key : String)
  | top (name : String)

namespace Key

/-- The version is not a setting, and a section is not a key. -/
def Valid : Key → Prop
  | .inSection name _ => name ≠ "schema_version"
  | .top name => isOther name = true

instance (key : Key) : Decidable key.Valid := by
  cases key <;> unfold Valid <;> infer_instance

/-- The setting it is, if this version knows it. -/
def field : Key → Option Field
  | .inSection name key => knownField name key
  | .top _ => none

end Key

namespace Document

def get (d : Document) : Key → Option Value
  | .inSection name key => (sectionOf d.table name).lookup key
  | .top name => d.table.lookup name

theorem wellFormedOpt_get (d : Document) (key : Key) : wellFormedOpt (d.get key) := by
  cases key with
  | inSection name key =>
    exact Opensesh.wellFormedOpt_lookup (wellFormed_sectionOf d name) key
  | top name => exact d.wellFormedOpt_lookup name

theorem Same.sectionOf {d e : Document} (h : d.Same e) (name key : String) :
    sameOpt ((Opensesh.sectionOf d.table name).lookup key)
      ((Opensesh.sectionOf e.table name).lookup key) = true :=
  sameOpt_entriesOf (d.wellFormedOpt_lookup name) (e.wellFormedOpt_lookup name) (h name) key

theorem Same.get {d e : Document} (h : d.Same e) (key : Key) :
    sameOpt (d.get key) (e.get key) = true := by
  cases key with
  | inSection name key => exact h.sectionOf name key
  | top name => exact h name

end Document

namespace Config

/-- The same settings, and unknown ones that are the same. -/
structure Same (c c' : Config) : Prop where
  value : ∀ field, c.value field = c'.value field
  extra : c.extra.Same c'.extra

theorem Same.refl (c : Config) : c.Same c := ⟨fun _ => rfl, .refl c.extra⟩

theorem Same.symm {c c' : Config} (h : c.Same c') : c'.Same c :=
  ⟨fun field => (h.value field).symm, h.extra.symm⟩

theorem Same.trans {c c' c'' : Config} (h : c.Same c') (h' : c'.Same c'') : c.Same c'' :=
  ⟨fun field => (h.value field).trans (h'.value field), h.extra.trans h'.extra⟩

theorem sectionOf_congr {root root' : Table} {name : String}
    (h : root.lookup name = root'.lookup name) :
    sectionOf root name = sectionOf root' name := by
  rw [sectionOf, h, ← sectionOf]

theorem knownField_eq_none {name : String} (hname : name ∉ sectionNames)
    (key : String) : knownField name key = none := by
  cases hknown : knownField name key with
  | none => rfl
  | some field =>
    obtain ⟨rfl, -⟩ := knownField_eq_some.mp hknown
    exact absurd field.sectionName_mem hname

/-- What is written under a key: the setting, else what was kept aside. -/
theorem get_toRoot (config : Config) {key : Key} (hkey : key.Valid) :
    config.toRoot.get key = (key.field.map config.value).or (config.extra.get key) := by
  cases key with
  | inSection name key =>
    change (sectionOf config.rootTable name).lookup key =
      ((knownField name key).map config.value).or ((sectionOf config.extra.table name).lookup key)
    by_cases hname : name ∈ sectionNames
    · rw [sectionOf, lookup_rootTable, if_pos hname]
      exact config.lookup_sectionTable name key
    · have hsame : config.rootTable.lookup name = config.extra.table.lookup name := by
        rw [lookup_rootTable, if_neg hname, if_neg hkey]
      rw [knownField_eq_none hname, sectionOf_congr hsame]
      rfl
  | top name =>
    have hother : name ≠ "schema_version" ∧ name ∉ sectionNames := by
      simpa [Key.Valid, isOther] using hkey
    change config.rootTable.lookup name = config.extra.table.lookup name
    rw [lookup_rootTable, if_neg hother.2, if_neg hother.1]

/-- What is kept aside under a key: what the text has, but for settings. -/
theorem get_readExtra (root : Document) {key : Key} (hkey : key.Valid) :
    (readExtra root).get key =
      if key.field.isNone then root.get key else none := by
  cases key with
  | inSection name key =>
    change (sectionOf (extraTable root.table) name).lookup key =
      if (knownField name key).isNone then
        (sectionOf root.table name).lookup key
      else none
    by_cases hname : name ∈ sectionNames
    · rw [← lookup_unknownEntries, sectionOf, lookup_extraTable, if_pos hname]
      cases hleft : leftover root.table name with
      | some value =>
        obtain ⟨-, rfl⟩ := leftover_eq_some.mp hleft
        rfl
      | none =>
        have hnil : unknownEntries name (sectionOf root.table name) = [] := by
          simpa [leftover] using hleft
        rw [hnil]
        rfl
    · have hsame : (extraTable root.table).lookup name = root.table.lookup name := by
        rw [lookup_extraTable, if_neg hname, if_neg hkey]
      rw [knownField_eq_none hname, sectionOf_congr hsame]
      rfl
  | top name =>
    have hother : name ≠ "schema_version" ∧ name ∉ sectionNames := by
      simpa [Key.Valid, isOther] using hkey
    change (extraTable root.table).lookup name = root.table.lookup name
    rw [lookup_extraTable, if_neg hother.2, if_neg hother.1]

theorem readField_eq {key : Key} {field : Field} (hkey : key.field = some field)
    (root : Document) : readField root.table field =
      ((root.get key).bind field.setting.accept).getD field.setting.fallback := by
  cases key with
  | inSection name key =>
    obtain ⟨rfl, rfl⟩ := knownField_eq_some.mp hkey
    rfl
  | top name => cases hkey

theorem bind_accept_of_sameOpt (setting : Setting) {x y : Option Value}
    (h : sameOpt x y = true) : x.bind setting.accept = y.bind setting.accept := by
  cases x with
  | none =>
    cases y with
    | none => rfl
    | some y => cases h
  | some x =>
    cases y with
    | none => cases h
    | some y => exact setting.accept_same h

theorem sameOpt_value (config : Config) (field : Field) :
    sameOpt (some (config.value field)) (some (config.value field)) = true :=
  same_refl _ (field.setting.wellFormed_accept (config.usable field))

/-- Texts that agree on a key give the same under it. -/
theorem get_toRoot_fromRoot {d e : Document} {key : Key} (hkey : key.Valid)
    (h : sameOpt (d.get key) (e.get key) = true) :
    sameOpt ((fromRoot d).toRoot.get key) ((fromRoot e).toRoot.get key) = true := by
  rw [get_toRoot _ hkey, get_toRoot _ hkey]
  change sameOpt ((key.field.map (readField d.table)).or ((readExtra d).get key))
    ((key.field.map (readField e.table)).or ((readExtra e).get key)) = true
  rw [get_readExtra d hkey, get_readExtra e hkey]
  cases hfield : key.field with
  | none => simpa using h
  | some field =>
    rw [map_some, map_some, readField_eq hfield,
      bind_accept_of_sameOpt field.setting h, ← readField_eq hfield]
    exact sameOpt_value (fromRoot e) field

/-- The same settings are written the same. -/
theorem Same.get_toRoot {c c' : Config} (h : c.Same c') {key : Key} (hkey : key.Valid) :
    sameOpt (c.toRoot.get key) (c'.toRoot.get key) = true := by
  rw [Config.get_toRoot _ hkey, Config.get_toRoot _ hkey]
  cases hfield : key.field with
  | none => exact h.extra.get key
  | some field =>
    rw [map_some, map_some, h.value]
    exact sameOpt_value c' field

/-- A section's leftovers are the same when the section is. -/
theorem leftover_of_same {d e : Document} (h : d.Same e) (name : String) :
    sameOpt (leftover d.table name) (leftover e.table name) = true := by
  have hd := wellFormed_unknownEntries name (wellFormed_sectionOf d name)
  have he := wellFormed_unknownEntries name (wellFormed_sectionOf e name)
  have hsame : same
      (.table (unknownEntries name (sectionOf d.table name)))
      (.table (unknownEntries name (sectionOf e.table name))) = true := by
    refine (same_table_iff ((wellFormed_table _).mp hd).1
      ((wellFormed_table _).mp he).1).mpr fun key => ?_
    rw [lookup_unknownEntries, lookup_unknownEntries]
    split
    · exact h.sectionOf name key
    · rfl
  have hlength : (unknownEntries name (sectionOf d.table name)).length =
      (unknownEntries name (sectionOf e.table name)).length := by
    rw [same, Bool.and_eq_true, beq_iff_eq] at hsame
    exact hsame.1
  simp only [leftover, List.isEmpty_iff, ← List.length_eq_zero_iff, hlength]
  split
  · rfl
  · exact hsame

/-- Texts that are the same give the same settings. -/
theorem fromRoot_of_same {d e : Document} (h : d.Same e) : (fromRoot d).Same (fromRoot e) := by
  refine ⟨fun field => ?_, fun name => ?_⟩
  · exact congrArg (Option.getD · field.setting.fallback)
      (bind_accept_of_sameOpt field.setting (h.sectionOf _ _))
  · change sameOpt ((extraTable d.table).lookup name) ((extraTable e.table).lookup name) = true
    rw [lookup_extraTable, lookup_extraTable]
    split
    · exact leftover_of_same h name
    · split
      · rfl
      · exact h name

/-- What was kept aside of a section comes back. -/
theorem leftover_rootTable (config : Config) {name : String} (hname : name ∈ sectionNames) :
    leftover config.rootTable name = config.extra.table.lookup name := by
  have hsection : sectionOf config.rootTable name = config.sectionTable name := by
    rw [sectionOf, lookup_rootTable, if_pos hname, entriesOf]
  have hextra := (wellFormed_table _).mp (wellFormed_sectionOf config.extra name)
  have hrest : unknownEntries name (config.sectionTable name) =
      sectionOf config.extra.table name := by
    refine Ascending.ext (ascending_filter _ ((wellFormed_table _).mp
      (config.wellFormed_sectionTable name)).1) hextra.1 fun key => ?_
    rw [lookup_unknownEntries, lookup_sectionTable]
    cases hknown : knownField name key with
    | none => simp
    | some field =>
      cases hlookup : config.extra.table.lookup name with
      | none => simp [sectionOf, entriesOf, hlookup]
      | some value =>
        obtain ⟨entries, rfl, -, hnone⟩ := config.onlyUnknown.2 name hname value hlookup
        simp [sectionOf, entriesOf, hlookup, hnone key (by simp [hknown])]
  rw [leftover, hsection, hrest]
  cases hlookup : config.extra.table.lookup name with
  | none => simp [sectionOf, entriesOf, hlookup]
  | some value =>
    obtain ⟨entries, rfl, hsome, -⟩ := config.onlyUnknown.2 name hname value hlookup
    simp [sectionOf, entriesOf, hlookup, hsome]

/-- Reading what was written gives the same settings. -/
theorem fromRoot_toRoot (config : Config) : (fromRoot config.toRoot).Same config := by
  refine ⟨fun field => ?_, fun name => ?_⟩
  · have hkey : (Key.inSection field.setting.sectionName field.setting.key).Valid := fun heq => by
      have hmem := field.sectionName_mem
      rw [heq] at hmem
      exact absurd hmem (by decide)
    have hfield : (Key.inSection field.setting.sectionName
        field.setting.key).field = some field := knownField_eq_some.mpr ⟨rfl, rfl⟩
    change readField config.toRoot.table field = config.value field
    rw [readField_eq hfield, get_toRoot _ hkey, hfield]
    simp [config.usable]
  · change sameOpt ((extraTable config.rootTable).lookup name)
      (config.extra.table.lookup name) = true
    have hrefl := sameOpt_refl _ (config.extra.wellFormedOpt_lookup name)
    rw [lookup_extraTable]
    by_cases hname : name ∈ sectionNames
    · rw [if_pos hname, config.leftover_rootTable hname]
      exact hrefl
    · rw [if_neg hname]
      by_cases hversion : name = "schema_version"
      · subst name
        rw [if_pos rfl, config.onlyUnknown.1]
        rfl
      · rw [if_neg hversion, lookup_rootTable, if_neg hname, if_neg hversion]
        exact hrefl

end Config

end Opensesh
