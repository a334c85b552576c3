/-
Settings files that are one array of tables, a record each: what cannot be used is left out
with a warning, and when what was written reads back as it was.
-/
import Opensesh.HostsFile

namespace Opensesh.Records

open List

/-- What a warning is about, and what it says. -/
structure Warning where
  key : String
  message : String
deriving DecidableEq

/-- The name of a value's type. -/
def typeStr : Value → String
  | .string _ => "string"
  | .integer _ => "integer"
  | .float _ => "float"
  | .boolean _ => "boolean"
  | .datetime _ => "datetime"
  | .array _ => "array"
  | .table _ => "table"

/-- The library for texts, with a file's header. -/
structure TextFormat (τ : Type) where
  parse : τ → Except String Table
  print : Table → τ

/-- What is printed reads as it was. -/
def TextFormat.Lawful {τ : Type} (format : TextFormat τ) : Prop :=
  ∀ table, (Value.table table).wellFormed = true → format.parse (format.print table) = .ok table

/-- Whether a table has none of the keys this version knows. -/
structure Unknown (keys : List String) (table : Table) : Prop where
  wellFormed : (Value.table table).wellFormed = true
  absent : ∀ key ∈ keys, table.lookup key = none

/-- Ids that are kept as they are. -/
structure GoodId (id : String) : Prop where
  ne : id ≠ ""
  trimmed : trim id = id
  printable : id.toList.any isControl = false

/-- The layout a file was written with. -/
def version (root : Table) : Int :=
  ((root.lookup "schema_version").bind Value.asInteger).getD schemaVersion

/-- Puts values under their keys; a key without one is left out. -/
def putAll (fields : List (String × Option Value)) (table : Table) : Table :=
  writeAll (fun key => (fields.lookup key).join) (fields.map Prod.fst) table

variable {p : Prop} {table : Table} {fields : List (String × Option Value)}

/-- No problem was found where neither the first check nor those after it found one. -/
theorem ite_some_eq_none {α : Type} [Decidable p] {problem : α} {rest : Option α} :
    (if p then some problem else rest) = none ↔ ¬ p ∧ rest = none := by
  split
  case isTrue hp => exact ⟨fun h => (nomatch h), fun h => absurd hp h.1⟩
  case isFalse hp => exact ⟨fun h => ⟨hp, h⟩, fun h => h.2⟩

theorem wellFormedOpt_ite [Decidable p] {value other : Option Value} (hvalue : wellFormedOpt value)
    (hother : wellFormedOpt other) : wellFormedOpt (if p then value else other) := by
  split
  · exact hvalue
  · exact hother

/-- What is left of a table when the known keys are taken out. -/
def unknown (keys : List String) (table : Table) : Table := table.filter fun entry => entry.1 ∉ keys

theorem lookup_putAll {fields : List (String × Option Value)} {table : Table}
    (hunknown : Unknown (fields.map Prod.fst) table) {key : String}
    (hkey : key ∈ fields.map Prod.fst) :
    (putAll fields table).lookup key = (fields.lookup key).join := by
  rw [putAll, lookup_writeAll, if_pos hkey, hunknown.absent key hkey, Option.or_none]

theorem Unknown.ascending {keys : List String} (h : Unknown keys table) :
    Ascending table := ((wellFormed_table _).mp h.wellFormed).1

theorem ascending_putAll (fields : List (String × Option Value)) (h : Ascending table) :
    Ascending (putAll fields table) := ascending_writeAll _ _ h

theorem unknown_putAll (hunknown : Unknown (fields.map Prod.fst) table) :
    unknown (fields.map Prod.fst) (putAll fields table) = table := by
  have hasc := hunknown.ascending
  refine Ascending.ext (ascending_filter _ (ascending_putAll fields hasc)) hasc fun key => ?_
  rw [unknown, lookup_filter_key fun key => decide (key ∉ fields.map Prod.fst)]
  by_cases hkey : key ∈ fields.map Prod.fst
  · rw [if_neg (by simpa using hkey), hunknown.absent key hkey]
  · rw [if_pos (by simpa using hkey), putAll, lookup_writeAll, if_neg hkey]

theorem wellFormed_putAll (hfields : ∀ field ∈ fields, wellFormedOpt field.2)
    (hunknown : Unknown (fields.map Prod.fst) table) :
    (Value.table (putAll fields table)).wellFormed = true := by
  have hasc := ascending_putAll fields hunknown.ascending
  refine (wellFormed_table _).mpr ⟨hasc, fun key value hmem => ?_⟩
  have hvalue := (lookup_eq_some_iff_mem hasc.nodup).mpr hmem
  by_cases hkey : key ∈ fields.map Prod.fst
  · rw [lookup_putAll hunknown hkey] at hvalue
    obtain ⟨before, after, heq, -⟩ := lookup_eq_some_iff.mp (Option.join_eq_some_iff.mp hvalue)
    refine hfields (key, some value) ?_ value rfl
    rw [heq]
    exact mem_append_right _ mem_cons_self
  · rw [putAll, lookup_writeAll, if_neg hkey] at hvalue
    exact ((wellFormed_table _).mp hunknown.wellFormed).2 key value
      ((lookup_eq_some_iff_mem hunknown.ascending.nodup).mp hvalue)

/-- How one kind of record is read and written. -/
structure Kind (α : Type) where
  /-- The array it is kept in. -/
  name : String
  id : α → String
  fromTable : Table → Nat → Option α × List Warning
  toTable : α → Table
  notTable : Value → String

namespace Kind

variable {α : Type} (kind : Kind α)

/-- The place of the record with an index. -/
def place (index : Nat) : String := kind.name ++ "[" ++ toString index ++ "]"

/-- The usable records of the entries from an index on, after those seen before. -/
def loadFrom (seen : List α) (index : Nat) : List Value → List α × List Warning
  | [] => (seen, [])
  | .table table :: rest =>
    let (found, warnings) := kind.fromTable table index
    match found with
    | some record =>
      if seen.any fun other => kind.id other = kind.id record then
        let (records, more) := loadFrom seen (index + 1) rest
        (records, warnings ++
          ⟨kind.place index ++ ".id", "used twice; the second is skipped"⟩ :: more)
      else
        let (records, more) := loadFrom (seen ++ [record]) (index + 1) rest
        (records, warnings ++ more)
    | none =>
      let (records, more) := loadFrom seen (index + 1) rest
      (records, warnings ++ more)
  | other :: rest =>
    let (records, more) := loadFrom seen (index + 1) rest
    (records, ⟨kind.place index, kind.notTable other⟩ :: more)

/-- The records of a file's table. -/
def load (root : Table) : List α × List Warning :=
  match root.lookup kind.name with
  | none => ([], [])
  | some (.array entries) => kind.loadFrom [] 0 entries
  | some other =>
    ([], [⟨kind.name, "expected an array of tables, found " ++ typeStr other⟩])

/-- The keys of a file that are kept as they are. -/
def others (root : Table) : Table := removeEntry kind.name (removeEntry "schema_version" root)

/-- The table of a file with the records and the other keys. -/
def toRoot (records : List α) (extra : Table) : Table :=
  insertEntry kind.name (.array (records.map fun record => .table (kind.toTable record)))
    (insertEntry "schema_version" (.integer schemaVersion) extra)

theorem loadFrom_nodup {seen : List α} (hseen : (seen.map kind.id).Nodup) (index : Nat)
    (entries : List Value) : ((kind.loadFrom seen index entries).1.map kind.id).Nodup := by
  induction entries generalizing seen index with
  | nil => exact hseen
  | cons entry rest ih =>
    cases entry with
    | table table =>
      rw [loadFrom]
      rcases kind.fromTable table index with ⟨_ | record, warnings⟩
      · exact ih hseen (index + 1)
      · dsimp only
        split
        · exact ih hseen (index + 1)
        · rename_i hnew
          refine ih ?_ (index + 1)
          rw [map_append, nodup_append']
          refine ⟨hseen, nodup_singleton _, ?_⟩
          rw [map_singleton, disjoint_singleton]
          intro hmem
          obtain ⟨other, hother, hid⟩ := mem_map.mp hmem
          exact hnew (any_eq_true.mpr ⟨other, hother, decide_eq_true hid⟩)
    | _ => exact ih hseen (index + 1)

theorem load_nodup (root : Table) : ((kind.load root).1.map kind.id).Nodup := by
  have hnil : (([] : List α).map kind.id).Nodup := nodup_nil
  unfold load
  split
  · exact hnil
  · exact kind.loadFrom_nodup hnil 0 _
  · exact hnil

/-- The entries records are written as. -/
def written (records : List α) : List Value :=
  records.map fun record => .table (kind.toTable record)

theorem wellFormed_toRoot {records : List α} {extra : Table}
    (hrecords : ∀ record ∈ records, (Value.table (kind.toTable record)).wellFormed = true)
    (hextra : (Value.table extra).wellFormed = true) :
    (Value.table (kind.toRoot records extra)).wellFormed = true := by
  refine wellFormed_insertEntry (wellFormed_insertEntry hextra rfl) ?_
  rw [wellFormed_array]
  intro value hvalue
  obtain ⟨record, hrecord, rfl⟩ := mem_map.mp hvalue
  exact hrecords record hrecord

theorem load_toRoot (records : List α) (extra : Table) :
    kind.load (kind.toRoot records extra) = kind.loadFrom [] 0 (kind.written records) := by
  have hlookup : (kind.toRoot records extra).lookup kind.name =
      some (.array (kind.written records)) := by
    rw [toRoot, lookup_insertEntry, if_pos rfl]
    rfl
  rw [load, hlookup]

variable {kind} {same : α → α → Prop}

variable {records seen : List α}

/-- Records whose tables read back are read back in order. -/
theorem loadFrom_written
    (hread : ∀ record ∈ records, ∀ index, ∃ found,
    kind.fromTable (kind.toTable record) index = (some found, []) ∧ same record found)
    (hid : ∀ record found, same record found → kind.id found = kind.id record)
    (hnodup : (seen.map kind.id ++ records.map kind.id).Nodup) (index : Nat) :
    ∃ found, kind.loadFrom seen index (kind.written records) = (seen ++ found, []) ∧
      List.Forall₂ same records found := by
  induction records generalizing seen index with
  | nil => exact ⟨[], by rw [List.append_nil]; rfl, .nil⟩
  | cons record records ih =>
    obtain ⟨found, hfound, hsame⟩ := hread record mem_cons_self index
    have hsameId := hid record found hsame
    have hnodup' : ((seen ++ [found]).map kind.id ++ records.map kind.id).Nodup := by
      rw [map_append, map_singleton, hsameId, List.append_assoc]
      exact hnodup
    obtain ⟨rest, hrest, hall⟩ := ih (fun other hother =>
      hread other (mem_cons_of_mem _ hother)) hnodup' (index + 1)
    have hnew : ¬ (seen.any fun other => kind.id other = kind.id found) = true := by
      intro hany
      obtain ⟨other, hother, heq⟩ := any_eq_true.mp hany
      rw [hsameId, decide_eq_true_eq] at heq
      refine (nodup_append'.mp hnodup).2.2 (mem_map_of_mem hother) ?_
      rw [heq]
      exact mem_cons_self
    refine ⟨found :: rest, ?_, .cons hsame hall⟩
    have hwritten : kind.written (record :: records) =
        .table (kind.toTable record) :: kind.written records := rfl
    rw [hwritten, loadFrom, hfound]
    dsimp only
    rw [if_neg hnew, hrest, List.append_assoc]
    rfl

/-- Where nothing was warned of, every record was read. -/
theorem of_loadFrom_written
    (hwarns : ∀ table index, (kind.fromTable table index).1 = none →
      (kind.fromTable table index).2 ≠ []) {all : List α} {index : Nat}
    (h : kind.loadFrom seen index (kind.written records) = (all, [])) :
    ∃ found, all = seen ++ found ∧ List.Forall₂ (fun record found => ∃ index,
      kind.fromTable (kind.toTable record) index = (some found, [])) records found := by
  induction records generalizing seen index with
  | nil =>
    obtain ⟨rfl, -⟩ := Prod.mk.inj h
    exact ⟨[], (List.append_nil _).symm, .nil⟩
  | cons record records ih =>
    have hwritten : kind.written (record :: records) =
        .table (kind.toTable record) :: kind.written records := rfl
    rw [hwritten, loadFrom] at h
    rcases hread : kind.fromTable (kind.toTable record) index with ⟨_ | found, warnings⟩
    · rw [hread] at h
      obtain ⟨-, hnil⟩ := Prod.mk.inj h
      have hnone := hwarns (kind.toTable record) index
      rw [hread] at hnone
      exact absurd (append_eq_nil_iff.mp hnil).1 (hnone rfl)
    · rw [hread] at h
      dsimp only at h
      split at h
      · obtain ⟨-, hnil⟩ := Prod.mk.inj h
        exact absurd (append_eq_nil_iff.mp hnil).2 (cons_ne_nil _ _)
      · obtain ⟨hall, hnil⟩ := Prod.mk.inj h
        obtain ⟨hwarnings, hmore⟩ := append_eq_nil_iff.mp hnil
        obtain ⟨rest, hrest, hreads⟩ := ih (Prod.ext hall hmore)
        refine ⟨found :: rest, ?_, .cons ⟨index, ?_⟩ hreads⟩
        · rw [hrest, List.append_assoc]
          rfl
        · rw [hread, hwarnings]

/-- The file's records all read back, without a warning, when each of them does. -/
theorem load_toRoot_iff
    (hwarns : ∀ table index, (kind.fromTable table index).1 = none →
    (kind.fromTable table index).2 ≠ [])
    (hid : ∀ record found, same record found → kind.id found = kind.id record) {fits : α → Prop}
    (hnodup : (records.map kind.id).Nodup)
    (hread : ∀ record ∈ records, ∀ index,
    (∃ found, kind.fromTable (kind.toTable record) index = (some found, []) ∧
    same record found) ↔ fits record) (extra : Table) :
    ((kind.load (kind.toRoot records extra)).2 = [] ∧
      List.Forall₂ same records (kind.load (kind.toRoot records extra)).1) ↔
      ∀ record ∈ records, fits record := by
  rw [load_toRoot]
  constructor
  · rcases hloaded : kind.loadFrom [] 0 (kind.written records) with ⟨all, warnings⟩
    rintro ⟨rfl, hsame⟩
    obtain ⟨found, rfl, hreads⟩ := of_loadFrom_written hwarns hloaded
    change List.Forall₂ same records all at hsame
    clear hloaded hnodup
    induction hsame with
    | nil => exact fun _ hmem => absurd hmem not_mem_nil
    | @cons record found records rest hrecord _ ih =>
      rw [forall₂_cons] at hreads
      obtain ⟨⟨index, hindex⟩, hreads⟩ := hreads
      rw [forall_mem_cons]
      refine ⟨(hread record mem_cons_self index).mp ⟨found, hindex, hrecord⟩, ?_⟩
      exact ih (fun other hother => hread other (mem_cons_of_mem _ hother)) hreads
  · intro hfits
    have hnodup' : (([] : List α).map kind.id ++ records.map kind.id).Nodup := hnodup
    obtain ⟨found, hfound, hsame⟩ := loadFrom_written (fun record hmem index =>
      (hread record hmem index).mpr (hfits record hmem)) hid hnodup' 0
    rw [hfound]
    exact ⟨rfl, hsame⟩

end Kind

variable {α : Type} {kind : Kind α} {record : α} {seen : List α}

/-- What is read of a file is what some table of it was read as. -/
theorem Kind.of_mem_loadFrom {index : Nat} {entries : List Value}
    (h : record ∈ (kind.loadFrom seen index entries).1) : record ∈ seen ∨
      ∃ table place, .table table ∈ entries ∧ (kind.fromTable table place).1 = some record := by
  induction entries generalizing seen index with
  | nil => exact .inl h
  | cons entry rest ih =>
    have hlater : ∀ {seen : List α}, record ∈ (kind.loadFrom seen (index + 1) rest).1 →
        record ∈ seen ∨ ∃ table place, .table table ∈ entry :: rest ∧
          (kind.fromTable table place).1 = some record := fun hrest =>
      (ih hrest).imp_right fun ⟨table, place, hmem, hread⟩ =>
        ⟨table, place, mem_cons_of_mem _ hmem, hread⟩
    cases entry with
    | table table =>
      rw [Kind.loadFrom] at h
      cases hread : kind.fromTable table index with
      | mk found warnings =>
        rw [hread] at h
        cases found with
        | none => exact hlater h
        | some other =>
          dsimp only at h
          split at h
          · exact hlater h
          · rcases hlater h with hmem | hmem
            · rcases mem_append.mp hmem with hmem | hmem
              · exact .inl hmem
              · obtain rfl := mem_singleton.mp hmem
                exact .inr ⟨table, index, mem_cons_self, by rw [hread]⟩
            · exact .inr hmem
    | _ => exact hlater h

theorem Kind.of_mem_load (h : record ∈ (kind.load table).1)
    (hwellFormed : (Value.table table).wellFormed = true) : ∃ found place,
      (Value.table found).wellFormed = true ∧ (kind.fromTable found place).1 = some record := by
  rw [Kind.load] at h
  split at h
  · cases h
  · rename_i entries hentries
    obtain hnil | ⟨found, place, hmem, hread⟩ := Kind.of_mem_loadFrom h
    · cases hnil
    · have hvalue := ((wellFormed_table table).mp hwellFormed).2 kind.name _
        ((lookup_eq_some_iff_mem ((wellFormed_table table).mp hwellFormed).1.nodup).mp hentries)
      exact ⟨found, place, (wellFormed_array _).mp hvalue _ hmem, hread⟩
  · cases h

theorem unknown_unknown (h : (Value.table table).wellFormed = true) (keys : List String) :
    Unknown keys (unknown keys table) := by
  obtain ⟨hasc, hvalues⟩ := (wellFormed_table table).mp h
  refine ⟨(wellFormed_table _).mpr ⟨ascending_filter _ hasc, fun key value hmem =>
    hvalues key value (mem_of_mem_filter hmem)⟩, fun key hkey => ?_⟩
  rw [unknown, lookup_filter_key fun key => decide (key ∉ keys), if_neg (by simpa using hkey)]

end Opensesh.Records
