/-
Typed values in tables: how values of one type are written and read, fields that may be unset,
and sections that are left out when nothing in them is set.
-/
import Opensesh.RecordFile

namespace Opensesh.Fields

open List
open Records

/-- How values of one type stand in a table; what is written is read as it was. -/
structure Form (α : Type) where
  write : α → Value
  read : Value → Option α
  read_write : ∀ x, read (write x) = some x
  wellFormed : ∀ x, (write x).wellFormed = true

namespace Form

def text : Form String where
  write := .string
  read := Value.asStr
  read_write _ := rfl
  wellFormed _ := rfl

def flag : Form Bool where
  write := .boolean
  read
    | .boolean value => some value
    | _ => none
  read_write _ := rfl
  wellFormed _ := rfl

/-- Numbers below a bound. -/
def number (bound : Nat) : Form (Fin bound) where
  write x := .integer x.val
  read
    | .integer value => if h : value.toNat < bound ∧ 0 ≤ value then some ⟨value.toNat, h.1⟩ else none
    | _ => none
  read_write x := dif_pos ⟨by simp, Int.natCast_nonneg _⟩
  wellFormed _ := rfl

def readTexts : List Value → Option (List String)
  | [] => some []
  | item :: rest => do
    let first ← item.asStr
    let others ← readTexts rest
    pure (first :: others)

theorem readTexts_map (items : List String) : readTexts (items.map .string) = some items := by
  induction items with
  | nil => rfl
  | cons item rest ih =>
    rw [map_cons, readTexts, ih]
    rfl

def texts : Form (List String) where
  write items := .array (items.map .string)
  read value := value.asArray.bind readTexts
  read_write := readTexts_map
  wellFormed items := by
    rw [Value.wellFormed, wellFormedItems_iff]
    exact List.forall_mem_map.mpr fun _ _ => rfl

/-- Names with a text each. -/
abbrev Texts := { entries : List (String × String) // Ascending entries }

def textEntry (entry : String × String) : String × Value := (entry.1, .string entry.2)

theorem ascending_map (entries : Texts) : Ascending (entries.1.map textEntry) := by
  have h := entries.2
  unfold Ascending at h ⊢
  rwa [map_map]

def readEntries : Table → Option (List (String × String))
  | [] => some []
  | (key, value) :: rest => do
    let text ← value.asStr
    let others ← readEntries rest
    pure ((key, text) :: others)

theorem readEntries_map (entries : List (String × String)) :
    readEntries (entries.map textEntry) = some entries := by
  induction entries with
  | nil => rfl
  | cons entry rest ih =>
    rw [map_cons, textEntry, readEntries, ih]
    rfl

def textMap : Form Texts where
  write entries := .table (entries.1.map textEntry)
  read
    | .table table => do
      let entries ← readEntries table
      -- Tables are sorted maps.
      if h : Ascending entries then some ⟨entries, h⟩ else none
    | _ => none
  read_write entries := by
    change (readEntries (entries.1.map textEntry)).bind _ = _
    rw [readEntries_map]
    exact dif_pos entries.2
  wellFormed entries := by
    refine (wellFormed_table _).mpr ⟨ascending_map entries, fun key value hmem => ?_⟩
    obtain ⟨entry, -, heq⟩ := List.mem_map.mp hmem
    obtain ⟨-, rfl⟩ := Prod.mk.inj heq
    rfl

def table : Form Document where
  write document := .table document.table
  read
    | .table table => if h : (Value.table table).wellFormed = true then some ⟨table, h⟩ else none
    | _ => none
  read_write document := dif_pos document.wellFormed
  wellFormed document := document.wellFormed

/-- One of a few names. -/
def choice {α : Type} (all : List α) (name : α → String)
    (h : ∀ x, all.find? (fun other => name other = name x) = some x) : Form α where
  write x := .string (name x)
  read value := value.asStr.bind fun text => all.find? fun other => name other = text
  read_write := h
  wellFormed _ := rfl

end Form

variable {α : Type}

/-- A field that may be unset; none where it can't be read. -/
def optional (form : Form α) (table : Table) (key : String) : Option (Option α) :=
  match table.lookup key with
  | none => some none
  | some value => (form.read value).map some

/-- A field with the value an unset one has. -/
def defaulted (form : Form α) (unset : α) (table : Table) (key : String) : Option α :=
  match table.lookup key with
  | none => some unset
  | some value => form.read value

theorem optional_eq {form : Form α} {table : Table} {key : String} {x : Option α}
    (h : table.lookup key = x.map form.write) : optional form table key = some x := by
  cases x with
  | none => simp only [optional, h, Option.map_none]
  | some x => simp only [optional, h, Option.map_some, form.read_write]

theorem defaulted_eq {form : Form α} {unset x : α} {table : Table} {key : String}
    (h : table.lookup key = some (form.write x)) : defaulted form unset table key = some x := by
  rw [defaulted, h]
  exact form.read_write x

/-- A field that is left out when it has its usual value. -/
theorem defaulted_ite {form : Form α} {unset x : α} {table : Table} {key : String} {p : Prop}
    [Decidable p] (h : table.lookup key = if p then none else some (form.write x))
    (hunset : p → x = unset) : defaulted form unset table key = some x := by
  by_cases hp : p
  · rw [if_pos hp] at h
    rw [defaulted, h, hunset hp]
  · rw [if_neg hp] at h
    exact defaulted_eq h

theorem wellFormedOpt_map (form : Form α) (x : Option α) : wellFormedOpt (x.map form.write) := by
  cases x with
  | none => exact wellFormedOpt_none
  | some x => exact (wellFormedOpt_some _).mpr (form.wellFormed x)

/-- A part of a table: fields that may be unset, left out as a whole when all of them are. -/
structure Section (ρ : Type) where
  keys : List String
  fields : ρ → List (String × Option Value)
  read : Table → Option ρ
  empty : ρ
  keys_fields : ∀ x, (fields x).map Prod.fst = keys
  wellFormed : ∀ x, ∀ field ∈ fields x, wellFormedOpt field.2
  fields_empty : ∀ field ∈ fields empty, field.2 = none
  read_fields : ∀ x table, (∀ key ∈ keys, table.lookup key = ((fields x).lookup key).join) →
    read table = some x

namespace Section

variable {ρ : Type} (part : Section ρ)

def table (x : ρ) : Table := putAll (part.fields x) []

theorem unknown (x : ρ) : Unknown ((part.fields x).map Prod.fst) [] :=
  ⟨wellFormed_empty, fun _ _ => rfl⟩

theorem lookup_table (x : ρ) {key : String} (hkey : key ∈ part.keys) :
    (part.table x).lookup key = ((part.fields x).lookup key).join :=
  lookup_putAll (part.unknown x) (by rwa [part.keys_fields])

variable [DecidableEq ρ]

def write (x : ρ) : Option Value := if x = part.empty then none else some (.table (part.table x))

def readFrom (table : Table) (key : String) : Option ρ :=
  match table.lookup key with
  | none => some part.empty
  | some (.table inner) => part.read inner
  | some _ => none

theorem readFrom_write {table : Table} {key : String} {x : ρ}
    (h : table.lookup key = part.write x) : part.readFrom table key = some x := by
  unfold write at h
  split at h
  case isTrue hempty => rw [readFrom, h, hempty]
  case isFalse =>
    rw [readFrom, h]
    exact part.read_fields x _ fun key hkey => part.lookup_table x hkey

theorem wellFormed_write (x : ρ) : wellFormedOpt (part.write x) := by
  unfold write
  split
  · exact wellFormedOpt_none
  · exact (wellFormedOpt_some _).mpr (wellFormed_putAll (part.wellFormed x) (part.unknown x))

/-- A field of a section is found where it is set. -/
theorem lookup_write (x : ρ) {key : String} (hkey : key ∈ part.keys) :
    (((part.write x).bind Value.asTable).bind fun inner => inner.lookup key) =
      ((part.fields x).lookup key).join := by
  unfold write
  split
  case isTrue hempty =>
    rw [Option.bind_none, Option.bind_none, hempty]
    cases hlookup : (part.fields part.empty).lookup key with
    | none => rfl
    | some value =>
      obtain ⟨before, after, heq, -⟩ := lookup_eq_some_iff.mp hlookup
      have hnone := part.fields_empty (key, value) (by
        rw [heq]
        exact mem_append_right _ mem_cons_self)
      rw [Option.join_some]
      exact hnone.symm
  case isFalse => exact part.lookup_table x hkey

end Section

end Opensesh.Fields
