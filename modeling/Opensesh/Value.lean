/-
TOML values as the settings files hold them, and `same`: equality with `nan`
equal to itself.  Tables are sorted maps, so their entries ascend at every
depth (`Value.WellFormed`).
-/
import Opensesh.Assoc
import Mathlib.Data.String.Basic

namespace Opensesh

open List

/-- A 64-bit float, by its bits. -/
structure F64 where
  bits : BitVec 64
deriving DecidableEq

namespace F64

/-- All exponent bits set and a fraction that is not zero. -/
def isNan (x : F64) : Bool := x.bits.toNat % 2 ^ 63 > 0x7FF * 2 ^ 52

/-- `0.0` or `-0.0`. -/
def isZero (x : F64) : Bool := x.bits.toNat % 2 ^ 63 == 0

/-- The `==` of floats: `nan` differs from everything and both zeros agree. -/
def eq (x y : F64) : Bool := !x.isNan && !y.isNan && (x == y || (x.isZero && y.isZero))

end F64

/-- A calendar date. -/
structure Date where
  year : Nat
  month : Nat
  day : Nat
deriving DecidableEq

/-- A time of day. -/
structure Time where
  hour : Nat
  minute : Nat
  second : Option Nat
  nanosecond : Option Nat
deriving DecidableEq

/-- A date, a time and an offset in minutes (`none` inside is `Z`). -/
structure Datetime where
  date : Option Date
  time : Option Time
  offset : Option (Option Int)
deriving DecidableEq

inductive Value where
  | string (text : String)
  | integer (value : Int)
  | float (value : F64)
  | boolean (value : Bool)
  | datetime (value : Datetime)
  | array (items : List Value)
  | table (entries : List (String × Value))

/-- The entries of a table, in the order a sorted map lists them. -/
abbrev Table := List (String × Value)

namespace Value

def asStr : Value → Option String
  | .string text => some text
  | _ => none

def asInteger : Value → Option Int
  | .integer value => some value
  | _ => none

def asArray : Value → Option (List Value)
  | .array items => some items
  | _ => none

def asTable : Value → Option Table
  | .table entries => some entries
  | _ => none

/-- The value under `key`, when this is a table. -/
def get : Value → String → Option Value
  | .table entries, key => entries.lookup key
  | _, _ => none

/-- Induction over a value: what holds of the elements of an array and of the
entries of a table holds of the whole. -/
@[elab_as_elim]
theorem induction {motive : Value → Prop} (string : ∀ text, motive (.string text))
    (integer : ∀ value, motive (.integer value)) (float : ∀ value, motive (.float value))
    (boolean : ∀ value, motive (.boolean value)) (datetime : ∀ value, motive (.datetime value))
    (array : ∀ items, (∀ item ∈ items, motive item) → motive (.array items))
    (table : ∀ entries : Table, (∀ key value, (key, value) ∈ entries → motive value) →
    motive (.table entries)) :
    ∀ value, motive value := by
  intro value
  refine @Value.rec motive (fun items => ∀ item ∈ items, motive item)
    (fun entries => ∀ key value, (key, value) ∈ entries → motive value)
    (fun entry => motive entry.2) string integer float boolean datetime array table ?_ ?_ ?_ ?_ ?_ value
  · simp
  · intro head tail hhead htail item hitem
    rcases mem_cons.mp hitem with rfl | hitem
    · exact hhead
    · exact htail item hitem
  · simp
  · intro head tail hhead htail key value hmem
    rcases mem_cons.mp hmem with heq | hmem
    · obtain rfl : value = head.2 := congrArg Prod.snd heq
      exact hhead
    · exact htail key value hmem
  · intro key value hvalue
    exact hvalue

end Value

mutual

def Value.beq : Value → Value → Bool
  | .string x, .string y => x == y
  | .integer x, .integer y => x == y
  | .float x, .float y => x == y
  | .boolean x, .boolean y => x == y
  | .datetime x, .datetime y => x == y
  | .array xs, .array ys => Value.beqItems xs ys
  | .table xs, .table ys => Value.beqEntries xs ys
  | _, _ => false

def Value.beqItems : List Value → List Value → Bool
  | [], [] => true
  | x :: xs, y :: ys => x.beq y && Value.beqItems xs ys
  | _, _ => false

def Value.beqEntries : List (String × Value) → List (String × Value) → Bool
  | [], [] => true
  | (key, x) :: xs, (other, y) :: ys =>
    key == other && x.beq y && Value.beqEntries xs ys
  | _, _ => false

end

example : Value.beq (.array [.table []]) (.array [.table []]) = true := by
  simp [Value.beq, Value.beqItems, Value.beqEntries]

theorem beqItems_iff {xs : List Value}
    (h : ∀ x ∈ xs, ∀ y, x.beq y = true ↔ x = y) (ys : List Value) :
    Value.beqItems xs ys = true ↔ xs = ys := by
  induction xs generalizing ys with
  | nil => cases ys <;> simp [Value.beqItems]
  | cons x xs ih =>
    cases ys with
    | nil => simp [Value.beqItems]
    | cons y ys =>
      rw [Value.beqItems, Bool.and_eq_true, h x mem_cons_self,
        ih fun z hz => h z (mem_cons_of_mem _ hz)]
      simp

theorem beqEntries_iff {xs : Table}
    (h : ∀ key x, (key, x) ∈ xs → ∀ y, x.beq y = true ↔ x = y) (ys : Table) :
    Value.beqEntries xs ys = true ↔ xs = ys := by
  induction xs generalizing ys with
  | nil => cases ys <;> simp [Value.beqEntries]
  | cons entry xs ih =>
    obtain ⟨key, x⟩ := entry
    cases ys with
    | nil => simp [Value.beqEntries]
    | cons entry ys =>
      obtain ⟨other, y⟩ := entry
      rw [Value.beqEntries, Bool.and_eq_true, Bool.and_eq_true, beq_iff_eq,
        h key x mem_cons_self,
        ih fun k z hz => h k z (mem_cons_of_mem _ hz)]
      simp [and_assoc]

theorem Value.beq_iff (x y : Value) : x.beq y = true ↔ x = y := by
  induction x using Value.induction generalizing y with
  | array items ih => cases y <;> simp [Value.beq, beqItems_iff ih]
  | table entries ih => cases y <;> simp [Value.beq, beqEntries_iff ih]
  | _ => cases y <;> simp [Value.beq]

instance : DecidableEq Value := fun x y => decidable_of_iff _ (Value.beq_iff x y)

mutual

/-- Whether two values are the same, `nan` included. -/
def same : Value → Value → Bool
  | .float x, .float y => x.eq y || (x.isNan && y.isNan)
  | .array xs, .array ys => xs.length == ys.length && sameItems xs ys
  | .table xs, .table ys => xs.length == ys.length && sameEntries xs ys
  | .string x, .string y => x == y
  | .integer x, .integer y => x == y
  | .boolean x, .boolean y => x == y
  | .datetime x, .datetime y => x == y
  | _, _ => false

/-- `zip` and `all`: position by position, as far as the shorter list goes. -/
def sameItems : List Value → List Value → Bool
  | x :: xs, y :: ys => same x y && sameItems xs ys
  | _, _ => true

/-- Every entry of the first table is the same in the second. -/
def sameEntries : List (String × Value) → List (String × Value) → Bool
  | [], _ => true
  | (key, value) :: rest, ys =>
    (match ys.lookup key with
      | some other => same value other
      | none => false) && sameEntries rest ys

end

example : same (.array [.table []]) (.array [.table []]) = true := by
  simp [same, sameItems, sameEntries]

/-- `same` for values that may be missing. -/
def sameOpt : Option Value → Option Value → Bool
  | some a, some b => same a b
  | none, none => true
  | _, _ => false

mutual

/-- Every table inside the value lists its keys in ascending order. -/
def Value.wellFormed : Value → Bool
  | .array items => Value.wellFormedItems items
  | .table entries =>
    decide (Ascending entries) && Value.wellFormedEntries entries
  | _ => true

def Value.wellFormedItems : List Value → Bool
  | [] => true
  | item :: rest => item.wellFormed && Value.wellFormedItems rest

def Value.wellFormedEntries : List (String × Value) → Bool
  | [] => true
  | (_, value) :: rest => value.wellFormed && Value.wellFormedEntries rest

end

example : (Value.array [.table []]).wellFormed = true := by
  simp [Value.wellFormed, Value.wellFormedItems, Value.wellFormedEntries, Ascending]

theorem wellFormedItems_iff (items : List Value) :
    Value.wellFormedItems items = true ↔ ∀ item ∈ items, item.wellFormed = true := by
  induction items with
  | nil => simp [Value.wellFormedItems]
  | cons item rest ih => simp [Value.wellFormedItems, ih]

theorem wellFormedEntries_iff (entries : Table) :
    Value.wellFormedEntries entries = true ↔
      ∀ key value, (key, value) ∈ entries → value.wellFormed = true := by
  induction entries with
  | nil => simp [Value.wellFormedEntries]
  | cons entry rest ih =>
    obtain ⟨first, old⟩ := entry
    simp only [Value.wellFormedEntries, Bool.and_eq_true, ih]
    constructor
    · rintro ⟨hold, hrest⟩ key value hmem
      rcases mem_cons.mp hmem with heq | hmem
      · obtain rfl : value = old := congrArg Prod.snd heq
        exact hold
      · exact hrest key value hmem
    · intro h
      exact ⟨h first old mem_cons_self, fun key value hmem => h key value (mem_cons_of_mem _ hmem)⟩

@[simp] theorem wellFormed_array (items : List Value) :
    (Value.array items).wellFormed = true ↔ ∀ item ∈ items, item.wellFormed = true := by
  rw [Value.wellFormed, wellFormedItems_iff]

@[simp] theorem wellFormed_table (entries : Table) :
    (Value.table entries).wellFormed = true ↔
      Ascending entries ∧ ∀ key value, (key, value) ∈ entries → value.wellFormed = true := by
  rw [Value.wellFormed, Bool.and_eq_true, decide_eq_true_iff, wellFormedEntries_iff]

theorem wellFormed_empty : (Value.table []).wellFormed = true :=
  (wellFormed_table []).mpr ⟨ascending_nil, by simp⟩

/-- What a missing or present value needs to be well formed. -/
def wellFormedOpt (value : Option Value) : Prop := ∀ v, value = some v → v.wellFormed = true

@[simp] theorem wellFormedOpt_none : wellFormedOpt none := by
  simp [wellFormedOpt]

@[simp] theorem wellFormedOpt_some (value : Value) :
    wellFormedOpt (some value) ↔ value.wellFormed = true := by
  simp [wellFormedOpt]

theorem wellFormedOpt_lookup {entries : Table}
    (h : (Value.table entries).wellFormed = true) (key : String) :
    wellFormedOpt (entries.lookup key) := by
  obtain ⟨hasc, hvalues⟩ := (wellFormed_table entries).mp h
  intro value hlookup
  exact hvalues key value ((lookup_eq_some_iff_mem hasc.nodup).mp hlookup)

theorem F64.eq_or_nan_iff (x y : F64) :
    (x.eq y || (x.isNan && y.isNan)) = true ↔
      (x.isNan = true ∧ y.isNan = true) ∨
        (x.isNan = false ∧ y.isNan = false ∧ (x = y ∨ (x.isZero = true ∧ y.isZero = true))) := by
  cases hx : x.isNan <;> cases hy : y.isNan <;> simp [F64.eq, hx, hy]

theorem same_float_iff (x y : F64) :
    same (.float x) (.float y) = true ↔
      (x.isNan = true ∧ y.isNan = true) ∨
        (x.isNan = false ∧ y.isNan = false ∧ (x = y ∨ (x.isZero = true ∧ y.isZero = true))) := by
  rw [same, F64.eq_or_nan_iff]

theorem sameItems_iff {xs ys : List Value} (h : xs.length = ys.length) :
    sameItems xs ys = true ↔ List.Forall₂ (fun x y => same x y = true) xs ys := by
  induction xs generalizing ys with
  | nil =>
    obtain rfl : ys = [] := length_eq_zero_iff.mp h.symm
    simp [sameItems]
  | cons x xs ih =>
    cases ys with
    | nil => simp at h
    | cons y ys =>
      simp [sameItems, ih (Nat.succ.inj h)]

theorem same_array_iff (xs ys : List Value) :
    same (.array xs) (.array ys) = true ↔ List.Forall₂ (fun x y => same x y = true) xs ys := by
  rw [same, Bool.and_eq_true, beq_iff_eq]
  constructor
  · rintro ⟨hlength, hitems⟩
    exact (sameItems_iff hlength).mp hitems
  · intro h
    exact ⟨h.length_eq, (sameItems_iff h.length_eq).mpr h⟩

theorem sameEntries_iff (xs ys : Table) :
    sameEntries xs ys = true ↔
      ∀ key value, (key, value) ∈ xs → sameOpt (some value) (ys.lookup key) = true := by
  induction xs with
  | nil => simp [sameEntries]
  | cons entry rest ih =>
    obtain ⟨first, old⟩ := entry
    have hhead : (match ys.lookup first with
        | some other => same old other
        | none => false) = sameOpt (some old) (ys.lookup first) := by
      cases ys.lookup first <;> rfl
    simp only [sameEntries, hhead, Bool.and_eq_true, ih]
    constructor
    · rintro ⟨hold, hrest⟩ key value hmem
      rcases mem_cons.mp hmem with heq | hmem
      · obtain ⟨rfl, rfl⟩ := Prod.mk.inj heq
        exact hold
      · exact hrest key value hmem
    · intro h
      exact ⟨h first old mem_cons_self, fun key value hmem => h key value (mem_cons_of_mem _ hmem)⟩

/-- Two tables are the same when every key reads the same in both. -/
theorem same_table_iff {xs ys : Table} (hxs : Ascending xs) (hys : Ascending ys) :
    same (.table xs) (.table ys) = true ↔
      ∀ key, sameOpt (xs.lookup key) (ys.lookup key) = true := by
  rw [same, Bool.and_eq_true, beq_iff_eq, sameEntries_iff]
  constructor
  · rintro ⟨hlength, hentries⟩ key
    cases hx : xs.lookup key with
    | some value =>
      exact hentries key value ((lookup_eq_some_iff_mem hxs.nodup).mp hx)
    | none =>
      -- Both have as many keys and one has all of the other's.
      have hsub : xs.map Prod.fst ⊆ ys.map Prod.fst := by
        intro k hk
        obtain ⟨⟨k, v⟩, hmem, rfl⟩ := mem_map.mp hk
        have hsame := hentries k v hmem
        cases hy : ys.lookup k with
        | none => simp [hy, sameOpt] at hsame
        | some other =>
          exact mem_map.mpr ⟨(k, other), (lookup_eq_some_iff_mem hys.nodup).mp hy, rfl⟩
      have hperm : (xs.map Prod.fst).Perm (ys.map Prod.fst) :=
        (subperm_of_subset hxs.nodup hsub).perm_of_length_le (by simp [hlength])
      have hnone : ys.lookup key = none := by
        rw [lookup_eq_none_iff_not_mem] at hx ⊢
        exact fun hmem => hx (hperm.mem_iff.mpr hmem)
      simp [hnone, sameOpt]
  · intro h
    have hkeys : ∀ key, key ∈ xs.map Prod.fst ↔ key ∈ ys.map Prod.fst := by
      intro key
      have hkey := h key
      rw [mem_keys_iff_lookup_isSome, mem_keys_iff_lookup_isSome]
      cases hx : xs.lookup key <;> cases hy : ys.lookup key <;> simp [hx, hy, sameOpt] at hkey ⊢
    have hperm := (perm_ext_iff_of_nodup hxs.nodup hys.nodup).mpr hkeys
    refine ⟨by simpa using hperm.length_eq, fun key value hmem => ?_⟩
    have hkey := h key
    rwa [(lookup_eq_some_iff_mem hxs.nodup).mpr hmem] at hkey

theorem same_refl (x : Value) (h : x.wellFormed = true) : same x x = true := by
  induction x using Value.induction with
  | string text => simp [same]
  | integer value => simp [same]
  | float value => cases hn : value.isNan <;> simp [same_float_iff, hn]
  | boolean value => simp [same]
  | datetime value => simp [same]
  | array items ih =>
    rw [same_array_iff, forall₂_same]
    exact fun item hitem => ih item hitem ((wellFormed_array items).mp h item hitem)
  | table entries ih =>
    obtain ⟨hasc, hvalues⟩ := (wellFormed_table entries).mp h
    rw [same_table_iff hasc hasc]
    intro key
    cases hlookup : entries.lookup key with
    | none => rfl
    | some value =>
      have hmem := (lookup_eq_some_iff_mem hasc.nodup).mp hlookup
      exact ih key value hmem (hvalues key value hmem)

theorem sameOpt_refl (x : Option Value) (h : wellFormedOpt x) : sameOpt x x = true := by
  cases x with
  | none => rfl
  | some value => exact same_refl value (h value rfl)

theorem same_symm {x y : Value} (hx : x.wellFormed = true)
    (hy : y.wellFormed = true) (h : same x y = true) : same y x = true := by
  induction x using Value.induction generalizing y with
  | string text => cases y <;> simp_all [same]
  | integer value => cases y <;> simp_all [same]
  | float value =>
    cases y with
    | float other =>
      rw [same_float_iff] at h ⊢
      tauto
    | _ => simp [same] at h
  | boolean value => cases y <;> simp_all [same]
  | datetime value => cases y <;> simp_all [same]
  | array items ih =>
    cases y with
    | array others =>
      rw [same_array_iff, forall₂_iff_get] at h ⊢
      rw [wellFormed_array] at hx hy
      refine ⟨h.1.symm, fun i hother hitem => ?_⟩
      exact ih _ (get_mem _ _) (hx _ (get_mem _ _)) (hy _ (get_mem _ _)) (h.2 i hitem hother)
    | _ => simp [same] at h
  | table entries ih =>
    cases y with
    | table others =>
      obtain ⟨hasc, hvalues⟩ := (wellFormed_table entries).mp hx
      obtain ⟨hasc', hvalues'⟩ := (wellFormed_table others).mp hy
      rw [same_table_iff hasc hasc'] at h
      rw [same_table_iff hasc' hasc]
      intro key
      have hkey := h key
      cases hl : entries.lookup key with
      | none => cases hr : others.lookup key <;> simp_all [sameOpt]
      | some value =>
        cases hr : others.lookup key with
        | none => simp [hl, hr, sameOpt] at hkey
        | some other =>
          rw [hl, hr] at hkey
          have hmem := (lookup_eq_some_iff_mem hasc.nodup).mp hl
          have hmem' := (lookup_eq_some_iff_mem hasc'.nodup).mp hr
          exact ih key value hmem (hvalues key value hmem) (hvalues' key other hmem') hkey
    | _ => simp [same] at h

theorem same_trans {x y z : Value} (hx : x.wellFormed = true)
    (hy : y.wellFormed = true) (hz : z.wellFormed = true)
    (hxy : same x y = true) (hyz : same y z = true) : same x z = true := by
  induction x using Value.induction generalizing y z with
  | string text => cases y <;> cases z <;> simp_all [same]
  | integer value => cases y <;> cases z <;> simp_all [same]
  | float value =>
    cases y with
    | float other =>
      cases z with
      | float last =>
        rw [same_float_iff] at hxy hyz ⊢
        rcases hxy with hxy | ⟨hxn, hyn, hxy⟩
        · rcases hyz with hyz | ⟨hyn, -, -⟩
          · exact Or.inl ⟨hxy.1, hyz.2⟩
          · simp [hyn] at hxy
        · rcases hyz with hyz | ⟨-, hzn, hyz⟩
          · simp [hyn] at hyz
          · refine Or.inr ⟨hxn, hzn, ?_⟩
            rcases hxy with rfl | hxy
            · exact hyz
            · rcases hyz with rfl | hyz
              · exact Or.inr hxy
              · exact Or.inr ⟨hxy.1, hyz.2⟩
      | _ => simp [same] at hyz
    | _ => simp [same] at hxy
  | boolean value => cases y <;> cases z <;> simp_all [same]
  | datetime value => cases y <;> cases z <;> simp_all [same]
  | array items ih =>
    cases y with
    | array others =>
      cases z with
      | array lasts =>
        rw [same_array_iff, forall₂_iff_get] at hxy hyz ⊢
        rw [wellFormed_array] at hx hy hz
        refine ⟨hxy.1.trans hyz.1, fun i hi hlast => ?_⟩
        have hother : i < others.length := hxy.1 ▸ hi
        exact ih _ (get_mem _ _) (hx _ (get_mem _ _))
          (hy _ (get_mem _ _)) (hz _ (get_mem _ _))
          (hxy.2 i hi hother) (hyz.2 i hother hlast)
      | _ => simp [same] at hyz
    | _ => simp [same] at hxy
  | table entries ih =>
    cases y with
    | table others =>
      cases z with
      | table lasts =>
        obtain ⟨hasc, hvalues⟩ := (wellFormed_table entries).mp hx
        obtain ⟨hasc', hvalues'⟩ := (wellFormed_table others).mp hy
        obtain ⟨hasc'', hvalues''⟩ := (wellFormed_table lasts).mp hz
        rw [same_table_iff hasc hasc'] at hxy
        rw [same_table_iff hasc' hasc''] at hyz
        rw [same_table_iff hasc hasc'']
        intro key
        have hleft := hxy key
        have hright := hyz key
        cases hl : entries.lookup key with
        | none =>
          cases hm : others.lookup key <;> cases hr : lasts.lookup key <;> simp_all [sameOpt]
        | some value =>
          cases hm : others.lookup key with
          | none => simp [hl, hm, sameOpt] at hleft
          | some other =>
            cases hr : lasts.lookup key with
            | none => simp [hm, hr, sameOpt] at hright
            | some last =>
              rw [hl, hm] at hleft
              rw [hm, hr] at hright
              have hmem := (lookup_eq_some_iff_mem hasc.nodup).mp hl
              exact ih key value hmem (hvalues key value hmem)
                (hvalues' _ _ ((lookup_eq_some_iff_mem hasc'.nodup).mp hm))
                (hvalues'' _ _ ((lookup_eq_some_iff_mem hasc''.nodup).mp hr))
                hleft hright
      | _ => simp [same] at hyz
    | _ => simp [same] at hxy

theorem sameOpt_comm {x y : Option Value} (hx : wellFormedOpt x)
    (hy : wellFormedOpt y) : sameOpt x y = sameOpt y x := by
  cases x with
  | none => cases y <;> rfl
  | some a =>
    cases y with
    | none => rfl
    | some b =>
      rw [Bool.eq_iff_iff]
      exact ⟨same_symm (hx a rfl) (hy b rfl), same_symm (hy b rfl) (hx a rfl)⟩

theorem sameOpt_trans {x y z : Option Value} (hx : wellFormedOpt x) (hy : wellFormedOpt y)
    (hz : wellFormedOpt z) (hxy : sameOpt x y = true) (hyz : sameOpt y z = true) :
    sameOpt x z = true := by
  cases x with
  | none => cases y <;> cases z <;> simp_all [sameOpt]
  | some a =>
    cases y with
    | none => simp [sameOpt] at hxy
    | some b =>
      cases z with
      | none => simp [sameOpt] at hyz
      | some c => exact same_trans (hx a rfl) (hy b rfl) (hz c rfl) hxy hyz

end Opensesh
