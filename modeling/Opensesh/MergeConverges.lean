/-
Merging converges: two computers that each merge the other's version find
conflicts on both or on neither, and without any they end with the same
settings, up to the order of records.
-/
import Opensesh.Document

namespace Opensesh

mutual

/-- Every array of records inside the value has unique keys. -/
def Value.uniqueKeys : Value → Bool
  | .array items => distinctRecords items && Value.uniqueKeysItems items
  | .table entries => Value.uniqueKeysEntries entries
  | _ => true

def Value.uniqueKeysItems : List Value → Bool
  | [] => true
  | item :: rest => item.uniqueKeys && Value.uniqueKeysItems rest

def Value.uniqueKeysEntries : List (String × Value) → Bool
  | [] => true
  | (_, value) :: rest => value.uniqueKeys && Value.uniqueKeysEntries rest

end

theorem uniqueKeysItems_iff (items : List Value) :
    Value.uniqueKeysItems items = true ↔ ∀ item ∈ items, item.uniqueKeys = true := by
  induction items with
  | nil => simp [Value.uniqueKeysItems]
  | cons item rest ih => simp [Value.uniqueKeysItems, ih]

theorem uniqueKeysEntries_iff (entries : Table) :
    Value.uniqueKeysEntries entries = true ↔
      ∀ key value, (key, value) ∈ entries → value.uniqueKeys = true := by
  induction entries with
  | nil => simp [Value.uniqueKeysEntries]
  | cons entry rest ih =>
    obtain ⟨first, old⟩ := entry
    simp only [Value.uniqueKeysEntries, Bool.and_eq_true, ih]
    constructor
    · rintro ⟨hold, hrest⟩ key value hmem
      rcases List.mem_cons.mp hmem with heq | hmem
      · obtain rfl : value = old := congrArg Prod.snd heq
        exact hold
      · exact hrest key value hmem
    · intro h
      exact ⟨h first old List.mem_cons_self, fun key value hmem =>
        h key value (List.mem_cons_of_mem _ hmem)⟩

@[simp] theorem uniqueKeys_array (items : List Value) :
    (Value.array items).uniqueKeys = true ↔
      distinctRecords items = true ∧ ∀ item ∈ items, item.uniqueKeys = true := by
  rw [Value.uniqueKeys, Bool.and_eq_true, uniqueKeysItems_iff]

@[simp] theorem uniqueKeys_table (entries : Table) :
    (Value.table entries).uniqueKeys = true ↔
      ∀ key value, (key, value) ∈ entries → value.uniqueKeys = true := by
  rw [Value.uniqueKeys, uniqueKeysEntries_iff]

theorem uniqueKeys_lookup {entries : Table} {key : String} {value : Value}
    (hasc : Ascending entries) (h : (Value.table entries).uniqueKeys = true)
    (hlookup : entries.lookup key = some value) : value.uniqueKeys = true :=
  (uniqueKeys_table entries).mp h key value ((lookup_eq_some_iff_mem hasc.nodup).mp hlookup)

/-- Equal up to the order of the records inside arrays of records. -/
inductive Alike : Value → Value → Prop
  | same {x y : Value} (h : same x y = true) : Alike x y
  | tables {xs ys : Table}
      (hkeys : ∀ key, (xs.lookup key).isSome = (ys.lookup key).isSome)
      (h : ∀ key x y, xs.lookup key = some x → ys.lookup key = some y → Alike x y) :
      Alike (.table xs) (.table ys)
  | records {key : String} {xs middle ys : List Value}
      (hkey : key = "id" ∨ key = "path") (hxs : KeyedBy key xs)
      (hys : KeyedBy key ys) (hperm : xs.Perm middle)
      (h : List.Forall₂ Alike middle ys) :
      Alike (.array xs) (.array ys)

/-- `Alike` for values that may be missing. -/
def AlikeOpt : Option Value → Option Value → Prop
  | some x, some y => Alike x y
  | none, none => True
  | _, _ => False

theorem AlikeOpt.of_sameOpt {x y : Option Value} (h : sameOpt x y = true) : AlikeOpt x y := by
  cases x <;> cases y <;> simp_all [sameOpt, AlikeOpt, Alike.same]

theorem AlikeOpt.refl {x : Option Value} (h : wellFormedOpt x) : AlikeOpt x x :=
  .of_sameOpt (sameOpt_refl x h)

theorem alike_table {xs ys : Table} (h : ∀ key, AlikeOpt (xs.lookup key) (ys.lookup key)) :
    Alike (.table xs) (.table ys) := by
  refine .tables (fun key => ?_) (fun key x y hx hy => ?_)
  · have hkey := h key
    cases hx : xs.lookup key <;> cases hy : ys.lookup key <;> simp_all [AlikeOpt]
  · have hkey := h key
    rwa [hx, hy] at hkey

/-- Two merges with the sides exchanged: both have conflicts or neither, and
without any they give the same. -/
def Mirror (left right : Option Value × List Conflict) : Prop :=
  (left.2 = [] ↔ right.2 = []) ∧ (left.2 = [] → AlikeOpt left.1 right.1)

theorem Differ.swap {base ours theirs : Option Value}
    (h : Differ base ours theirs) (hours : wellFormedOpt ours)
    (htheirs : wellFormedOpt theirs) : Differ base theirs ours :=
  ⟨by rw [sameOpt_comm htheirs hours]; exact h.sides, h.ours_base, h.theirs_base⟩

theorem recordKey_swap (base ours theirs : List Value) :
    recordKey [base, ours, theirs] = recordKey [base, theirs, ours] := by
  have hall : ∀ check : List Value → Bool,
      [base, ours, theirs].all check = [base, theirs, ours].all check := by
    intro check
    simp [Bool.and_comm (check ours)]
  simp only [recordKey, hall]

theorem splits_swap (base ours theirs : Option Value) :
    splits base ours theirs = splits base theirs ours := by
  rcases ours with _ | ours <;> rcases theirs with _ | theirs
  · rfl
  · cases theirs <;> rfl
  · cases ours <;> rfl
  · cases ours <;> cases theirs
    case array.array items others =>
      rw [splits, splits, recordKey_swap]
    all_goals rfl

/-- When two of the versions are the same, both merges keep the third. -/
theorem mirror_of_same {sectionName : String} {base ours theirs : Option Value}
    (hbase : wellFormedOpt base) (hours : wellFormedOpt ours) (htheirs : wellFormedOpt theirs)
    (h : sameOpt ours theirs = true ∨ sameOpt theirs base = true ∨ sameOpt ours base = true) :
    Mirror (mergeValue sectionName base ours theirs) (mergeValue sectionName base theirs ours) := by
  rw [mergeValue_eq, mergeValue_eq, sameOpt_comm htheirs hours]
  by_cases hsides : sameOpt ours theirs = true
  · simp [hsides, Mirror, AlikeOpt.of_sameOpt hsides]
  · by_cases htb : sameOpt theirs base = true
    · -- Then this side differs from the base, or all three would be the same.
      have hob : sameOpt ours base = false := by
        by_contra hob
        rw [Bool.not_eq_false] at hob
        rw [sameOpt_comm htheirs hbase] at htb
        exact hsides (sameOpt_trans hours hbase htheirs hob htb)
      simp [hsides, htb, hob, Mirror, AlikeOpt.refl hours]
    · have hob : sameOpt ours base = true := by tauto
      simp [hsides, htb, hob, Mirror, AlikeOpt.refl htheirs]

/-- Values that are merged whole conflict both ways round. -/
theorem mirror_of_whole {sectionName : String} {base ours theirs : Option Value}
    (hours : wellFormedOpt ours) (htheirs : wellFormedOpt theirs)
    (hdiffer : Differ base ours theirs) (hwhole : splits base ours theirs = false) :
    Mirror (mergeValue sectionName base ours theirs) (mergeValue sectionName base theirs ours) := by
  rw [mergeValue_whole hdiffer hwhole, mergeValue_whole
    (hdiffer.swap hours htheirs) (by rw [splits_swap]; exact hwhole)]
  simp [Mirror]

section Records

variable {sectionName key : String} {base ours theirs : List Value}

/-- The rule for one id treats both sides alike. -/
theorem mirror_mergeRecord {base ours theirs : Option Value} (hours : wellFormedOpt ours)
    (htheirs : wellFormedOpt theirs) (h : ∀ item other, ours = some item → theirs = some other →
    Mirror (mergeValue sectionName base (some item) (some other))
    (mergeValue sectionName base (some other) (some item))) :
    Mirror (mergeRecord sectionName key base ours theirs)
      (mergeRecord sectionName key base theirs ours) := by
  have hone : ∀ item : Value, item.wellFormed = true →
      Mirror (mergeRecord sectionName key base (some item) none)
          (mergeRecord sectionName key base none (some item)) ∧
        Mirror (mergeRecord sectionName key base none (some item))
          (mergeRecord sectionName key base (some item) none) := by
    intro item hwf
    have halike := AlikeOpt.refl ((wellFormedOpt_some item).mpr hwf)
    cases base with
    | none => simp [mergeRecord, Mirror, halike]
    | some baseItem =>
      cases hsame : same baseItem item <;> simp [mergeRecord, Mirror, hsame, AlikeOpt]
  cases ours with
  | some item =>
    cases theirs with
    | some other =>
      have hboth := h item other rfl rfl
      have hnil : ∀ (nested : List Conflict) (conflict : Conflict),
          (if nested.isEmpty then [] else [conflict]) = [] ↔ nested = [] := by
        intro nested conflict
        cases nested <;> simp
      simp only [mergeRecord, Mirror, hnil]
      exact hboth
    | none => exact (hone item (hours item rfl)).1
  | none =>
    cases theirs with
    | some other => exact (hone other (htheirs other rfl)).2
    | none => cases base <;> simp [mergeRecord, Mirror, AlikeOpt]

theorem mirror_mergeRecords (hkey : key = "id" ∨ key = "path") (hours : KeyedBy key ours)
    (htheirs : KeyedBy key theirs) (hbase : ∀ item ∈ base, item.wellFormed = true)
    (hwf : ∀ item ∈ ours, item.wellFormed = true) (hwf' : ∀ item ∈ theirs, item.wellFormed = true)
    (h : ∀ base, wellFormedOpt base → ∀ item ∈ ours, ∀ other ∈ theirs,
    Mirror (mergeValue sectionName base (some item) (some other))
    (mergeValue sectionName base (some other) (some item))) :
    ((mergeRecords sectionName key base ours theirs).2 = [] ↔
        (mergeRecords sectionName key base theirs ours).2 = []) ∧
      ((mergeRecords sectionName key base ours theirs).2 = [] →
        Alike (.array (mergeRecords sectionName key base ours theirs).1)
          (.array (mergeRecords sectionName key base theirs ours).1)) := by
  have hrule : ∀ id, Mirror
      (mergeRecord sectionName key (byId base key id)
        (findKey (recordId · key) id ours) (findKey (recordId · key) id theirs))
      (mergeRecord sectionName key (byId base key id)
        (findKey (recordId · key) id theirs)
        (findKey (recordId · key) id ours)) := by
    intro id
    apply mirror_mergeRecord
    · exact fun item hitem => hwf item (findKey_some_imp hitem).1
    · exact fun other hother => hwf' other (findKey_some_imp hother).1
    · intro item other hitem hother
      refine h _ ?_ item (findKey_some_imp hitem).1 other (findKey_some_imp hother).1
      intro baseItem hbaseItem
      exact hbase baseItem (List.mem_reverse.mp (findKey_some_imp hbaseItem).1)
  obtain ⟨hnodup, hfind⟩ := findKey_mergeRecords sectionName base hours htheirs hwf hwf'
  obtain ⟨hnodup', hfind'⟩ := findKey_mergeRecords sectionName base htheirs hours hwf' hwf
  rw [conflicts_mergeRecords_eq_nil_iff hours htheirs,
    conflicts_mergeRecords_eq_nil_iff htheirs hours]
  refine ⟨forall_congr' fun id => (hrule id).1, fun hnone => ?_⟩
  have halike : ∀ id, AlikeOpt
      (findKey (recordId · key) id (mergeRecords sectionName key base ours theirs).1)
      (findKey (recordId · key) id (mergeRecords sectionName key base theirs ours).1) := by
    intro id
    rw [hfind, hfind']
    exact (hrule id).2 (hnone id)
  obtain ⟨middle, hperm, hforall⟩ := exists_perm_forall₂ Alike hnodup
    hnodup'
    (fun id => by
      have hid := halike id
      rw [← findKey_isSome_iff, ← findKey_isSome_iff]
      revert hid
      cases findKey (recordId · key) id (mergeRecords sectionName key base ours theirs).1 <;>
        cases findKey (recordId · key) id (mergeRecords sectionName key base theirs ours).1 <;>
        simp [AlikeOpt])
    fun x hx y hy hxy => by
      have hid := halike (recordId x key)
      rwa [(findKey_eq_some_iff hnodup).mpr ⟨hx, rfl⟩,
        (findKey_eq_some_iff hnodup').mpr ⟨hy, hxy.symm⟩] at hid
  exact .records hkey (keyedBy_mergeRecords sectionName base hours htheirs hwf hwf')
    (keyedBy_mergeRecords sectionName base htheirs hours hwf' hwf) hperm hforall

end Records

theorem mirror_of_differ {sectionName : String} {base ours theirs : Option Value}
    (hbase : wellFormedOpt base) (hours : wellFormedOpt ours) (htheirs : wellFormedOpt theirs)
    (h : Differ base ours theirs → splits base ours theirs = true →
    Mirror (mergeValue sectionName base ours theirs) (mergeValue sectionName base theirs ours)) :
    Mirror (mergeValue sectionName base ours theirs) (mergeValue sectionName base theirs ours) := by
  by_cases hexit : sameOpt ours theirs = true ∨ sameOpt theirs base = true ∨
      sameOpt ours base = true
  · exact mirror_of_same hbase hours htheirs hexit
  · simp only [not_or, Bool.not_eq_true] at hexit
    have hdiffer : Differ base ours theirs := ⟨hexit.1, hexit.2.1, hexit.2.2⟩
    cases hsplits : splits base ours theirs with
    | false => exact mirror_of_whole hours htheirs hdiffer hsplits
    | true => exact h hdiffer hsplits

/-- Values that cannot be merged inside are alike both ways round. -/
theorem mirror_of_leaf {sectionName : String} {base ours theirs : Option Value}
    (hbase : wellFormedOpt base) (hours : wellFormedOpt ours) (htheirs : wellFormedOpt theirs)
    (hwhole : splits base ours theirs = false) :
    Mirror (mergeValue sectionName base ours theirs) (mergeValue sectionName base theirs ours) := by
  apply mirror_of_differ hbase hours htheirs
  intro _ hsplits
  rw [hwhole] at hsplits
  cases hsplits

theorem mirror_mergeTables (sectionName : String) (base : Option Table)
    {ours theirs : Table} (hours : Ascending ours) (htheirs : Ascending theirs)
    (h : ∀ key, Mirror
      (mergeValue (place sectionName key)
        (base.bind fun entries => entries.lookup key) (ours.lookup key)
        (theirs.lookup key))
      (mergeValue (place sectionName key)
        (base.bind fun entries => entries.lookup key) (theirs.lookup key)
        (ours.lookup key))) :
    ((mergeTables sectionName base ours theirs).2 = [] ↔
        (mergeTables sectionName base theirs ours).2 = []) ∧
      ((mergeTables sectionName base ours theirs).2 = [] →
        Alike (.table (mergeTables sectionName base ours theirs).1)
          (.table (mergeTables sectionName base theirs ours).1)) := by
  rw [conflicts_mergeTables_eq_nil_iff _ _ hours htheirs,
    conflicts_mergeTables_eq_nil_iff _ _ htheirs hours]
  refine ⟨forall_congr' fun key => (h key).1, fun hnone => ?_⟩
  apply alike_table
  intro key
  rw [lookup_mergeTables _ _ hours htheirs, lookup_mergeTables _ _ htheirs hours]
  exact (h key).2 (hnone key)

/-- Merging a value with either side in front is alike. -/
theorem mirror_mergePresent (ours : Value) (sectionName : String) (base theirs : Option Value)
    (hbase : wellFormedOpt base) (hours : ours.wellFormed = true) (htheirs : wellFormedOpt theirs)
    (hunique : ours.uniqueKeys = true)
    (hunique' : ∀ other, theirs = some other → other.uniqueKeys = true) :
    Mirror (mergeValue sectionName base (some ours) theirs)
      (mergeValue sectionName base theirs (some ours)) := by
  have hours' := (wellFormedOpt_some ours).mpr hours
  induction ours using Value.induction generalizing sectionName base theirs with
  | array items ih =>
    apply mirror_of_differ hbase hours' htheirs
    intro hdiffer hsplits
    rcases splits_cases hsplits with
      ⟨_, _, hours'', _⟩ | ⟨_, others, key, ⟨⟩, rfl, hkey⟩
    · cases hours''
    · obtain ⟨hdistinct, hitems⟩ := (uniqueKeys_array items).mp hunique
      obtain ⟨hdistinct', hothers⟩ := (uniqueKeys_array others).mp (hunique' _ rfl)
      have hwf := (wellFormed_array items).mp hours
      have hwf' := (wellFormed_array others).mp ((wellFormedOpt_some _).mp htheirs)
      rw [mergeValue_records hdiffer hkey, mergeValue_records
        (hdiffer.swap hours' htheirs) (by rwa [recordKey_swap])]
      exact mirror_mergeRecords (recordKey_some hkey).1
        (keyedBy_of_recordKey hkey (by simp) hdistinct)
        (keyedBy_of_recordKey hkey (by simp) hdistinct')
        (wellFormedOpt_baseItems hbase) hwf hwf'
        fun base hbase item hitem other hother =>
          ih item hitem sectionName base (some other) hbase (hwf item hitem)
            ((wellFormedOpt_some other).mpr (hwf' other hother))
            (hitems item hitem) (by rintro _ ⟨⟩; exact hothers other hother)
            ((wellFormedOpt_some item).mpr (hwf item hitem))
  | table entries ih =>
    apply mirror_of_differ hbase hours' htheirs
    intro hdiffer hsplits
    rcases splits_cases hsplits with
      ⟨_, others, ⟨⟩, rfl⟩ | ⟨_, _, _, hours'', _⟩
    · obtain ⟨hasc, hvalues⟩ := (wellFormed_table entries).mp hours
      have hothers := (wellFormedOpt_some _).mp htheirs
      have hasc' := ((wellFormed_table others).mp hothers).1
      rw [mergeValue_tables hdiffer, mergeValue_tables (hdiffer.swap hours' htheirs)]
      apply mirror_mergeTables _ _ hasc hasc'
      intro key
      have hother := wellFormedOpt_lookup hothers key
      have hbase' := wellFormedOpt_baseTable hbase key
      cases hmine : entries.lookup key with
      | none => exact mirror_of_leaf hbase' wellFormedOpt_none hother rfl
      | some mine =>
        have hin := (lookup_eq_some_iff_mem hasc.nodup).mp hmine
        have hwf := hvalues key mine hin
        exact ih key mine hin _ _ _ hbase' hwf hother
          (uniqueKeys_lookup hasc hunique hmine)
          (fun other hlookup => uniqueKeys_lookup hasc' (hunique' _ rfl) hlookup)
          ((wellFormedOpt_some mine).mpr hwf)
    · cases hours''
  | _ => exact mirror_of_leaf hbase hours' htheirs rfl

/-- Merging converges. -/
theorem merge_converges (base ours theirs : Document)
    (hours : (Value.table ours.table).uniqueKeys = true)
    (htheirs : (Value.table theirs.table).uniqueKeys = true) :
    ((mergeDocuments base ours theirs).2 = [] ↔ (mergeDocuments base theirs ours).2 = []) ∧
      ((mergeDocuments base ours theirs).2 = [] →
        Alike (.table (mergeDocuments base ours theirs).1.table)
          (.table (mergeDocuments base theirs ours).1.table)) := by
  have hmirror := mirror_mergeTables ""
    (some base.table) ours.ascending theirs.ascending fun key => by
      have hother := theirs.wellFormedOpt_lookup key
      cases hmine : ours.table.lookup key with
      | none =>
        exact mirror_of_leaf (base.wellFormedOpt_lookup key) wellFormedOpt_none hother rfl
      | some mine =>
        exact mirror_mergePresent mine _ _ _ (base.wellFormedOpt_lookup key)
          (ours.wellFormedOpt_lookup key mine hmine) hother
          (uniqueKeys_lookup ours.ascending hours hmine)
          fun other hlookup => uniqueKeys_lookup theirs.ascending htheirs hlookup
  exact hmirror

namespace MergeConvergesWitness

def host (id name : String) : Value := .table [("id", .string id), ("name", .string name)]

def base : Document := ⟨[("host", .array [host "a" "one"])], by decide⟩

def ours : Document := ⟨[("host", .array [host "a" "one", host "b" "two"])], by decide⟩

def theirs : Document := ⟨[("host", .array [host "a" "changed", host "c" "three"])], by decide⟩

theorem converges :
    (mergeDocuments base ours theirs).2 = [] ∧
      Alike (.table (mergeDocuments base ours theirs).1.table)
        (.table (mergeDocuments base theirs ours).1.table) :=
  ⟨by decide, (merge_converges base ours theirs (by decide) (by decide)).2 (by decide)⟩

end MergeConvergesWitness

end Opensesh
