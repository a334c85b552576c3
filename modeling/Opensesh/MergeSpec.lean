/-
What the loops of the merge compute: one lemma for each loop, then the merged
table by key and the merged records by id.  Later modules use these and never
unfold a loop.
-/
import Opensesh.Merge

namespace Opensesh

open List

variable {ours out theirs : Table} {merged : Value} {items : List Value}

theorem lookup_mergeOurs (sectionName : String) (base : Option Table) (theirs : Table)
    (h : (ours.map Prod.fst).Nodup) (out : Table) (key : String) :
    (mergeOurs sectionName base theirs ours out).1.lookup key =
      ((ours.lookup key).bind fun value =>
        (mergePresent (place sectionName key)
          (base.bind fun entries => entries.lookup key) value
          (theirs.lookup key)).1).or (out.lookup key) := by
  induction ours generalizing out with
  | nil => simp [mergeOurs]
  | cons entry rest ih =>
    obtain ⟨first, old⟩ := entry
    rw [map_cons, nodup_cons] at h
    rw [mergeOurs, ih h.2]
    by_cases hkey : key = first
    · subst first
      have hrest : rest.lookup key = none := lookup_eq_none_iff_not_mem.mpr h.1
      rw [hrest, lookup_cons_ite, if_pos rfl]
      cases hmerged : (mergePresent (place sectionName key)
        (base.bind fun entries => entries.lookup key) old
        (theirs.lookup key)).1 <;> simp [hmerged]
    · rw [lookup_cons_ite, if_neg hkey]
      split <;> simp [hkey]

theorem mem_conflicts_mergeOurs (sectionName : String) (base : Option Table) (theirs : Table)
    (h : (ours.map Prod.fst).Nodup) (out : Table) (conflict : Conflict) :
    conflict ∈ (mergeOurs sectionName base theirs ours out).2 ↔
      ∃ key value, ours.lookup key = some value ∧
        conflict ∈ (mergePresent (place sectionName key)
          (base.bind fun entries => entries.lookup key) value
          (theirs.lookup key)).2 := by
  induction ours generalizing out with
  | nil => simp [mergeOurs]
  | cons entry rest ih =>
    obtain ⟨first, old⟩ := entry
    rw [map_cons, nodup_cons] at h
    rw [mergeOurs, mem_append, ih h.2]
    constructor
    · rintro (hfirst | ⟨key, value, hlookup, hmem⟩)
      · exact ⟨first, old, by simp, hfirst⟩
      · have hkey : key ≠ first := by
          rintro rfl
          rw [lookup_eq_none_iff_not_mem.mpr h.1] at hlookup
          cases hlookup
        exact ⟨key, value, by rwa [lookup_cons_ite, if_neg hkey], hmem⟩
    · rintro ⟨key, value, hlookup, hmem⟩
      rw [lookup_cons_ite] at hlookup
      split at hlookup
      · obtain rfl := Option.some.inj hlookup
        subst key
        exact Or.inl hmem
      · exact Or.inr ⟨key, value, hlookup, hmem⟩

theorem ascending_mergeOurs (sectionName : String) (base : Option Table) (theirs ours : Table)
    (h : Ascending out) : Ascending (mergeOurs sectionName base theirs ours out).1 := by
  induction ours generalizing out with
  | nil => simpa [mergeOurs] using h
  | cons entry rest ih =>
    obtain ⟨first, old⟩ := entry
    rw [mergeOurs]
    apply ih
    split
    · exact ascending_insertEntry _ _ h
    · exact h

theorem lookup_addTheirs (sectionName : String) (base : Option Table) (ours : Table)
    (h : (theirs.map Prod.fst).Nodup) (out : Table) (key : String) :
    (addTheirs sectionName base ours theirs out).1.lookup key =
      (if (ours.lookup key).isSome then none
        else (theirs.lookup key).bind fun value =>
          (mergeMissing (place sectionName key)
            (base.bind fun entries => entries.lookup key)
            (some value)).1).or (out.lookup key) := by
  induction theirs generalizing out with
  | nil => simp [addTheirs]
  | cons entry rest ih =>
    obtain ⟨first, old⟩ := entry
    rw [map_cons, nodup_cons] at h
    have hrest : rest.lookup first = none := lookup_eq_none_iff_not_mem.mpr h.1
    rw [addTheirs]
    by_cases hkey : key = first
    · subst first
      cases hours : (ours.lookup key).isSome with
      | true => simp [hours, ih h.2]
      | false =>
        simp only [Bool.false_eq_true, ↓reduceIte, ih h.2, hours, hrest, lookup_cons_ite]
        cases hmerged : (mergeMissing (place sectionName key)
          (base.bind fun entries => entries.lookup key)
          (some old)).1 <;> simp [hmerged]
    · rw [lookup_cons_ite, if_neg hkey]
      cases hours : (ours.lookup first).isSome with
      | true => simp [ih h.2]
      | false =>
        simp only [Bool.false_eq_true, ↓reduceIte, ih h.2]
        cases hmerged : (mergeMissing (place sectionName first)
          (base.bind fun entries => entries.lookup first)
          (some old)).1 <;> simp [hkey]

theorem mem_conflicts_addTheirs (sectionName : String) (base : Option Table) (ours : Table)
    (h : (theirs.map Prod.fst).Nodup) (out : Table) (conflict : Conflict) :
    conflict ∈ (addTheirs sectionName base ours theirs out).2 ↔
      ∃ key value, ours.lookup key = none ∧ theirs.lookup key = some value ∧
        conflict ∈ (mergeMissing (place sectionName key)
          (base.bind fun entries => entries.lookup key) (some value)).2 := by
  induction theirs generalizing out with
  | nil => simp [addTheirs]
  | cons entry rest ih =>
    obtain ⟨first, old⟩ := entry
    rw [map_cons, nodup_cons] at h
    have hother : ∀ key value, rest.lookup key = some value → key ≠ first := by
      rintro key value hlookup rfl
      rw [lookup_eq_none_iff_not_mem.mpr h.1] at hlookup
      cases hlookup
    rw [addTheirs]
    cases hours : ours.lookup first with
    | some mine =>
      simp only [Option.isSome_some, ↓reduceIte, ih h.2]
      constructor
      · rintro ⟨key, value, hnone, hlookup, hmem⟩
        refine ⟨key, value, hnone, ?_, hmem⟩
        rwa [lookup_cons_ite, if_neg (hother key value hlookup)]
      · rintro ⟨key, value, hnone, hlookup, hmem⟩
        have hkey : key ≠ first := by
          rintro rfl
          rw [hours] at hnone
          cases hnone
        rw [lookup_cons_ite, if_neg hkey] at hlookup
        exact ⟨key, value, hnone, hlookup, hmem⟩
    | none =>
      simp only [Option.isSome_none, Bool.false_eq_true, ↓reduceIte, mem_append, ih h.2]
      constructor
      · rintro (hfirst | ⟨key, value, hnone, hlookup, hmem⟩)
        · exact ⟨first, old, hours, by simp, hfirst⟩
        · refine ⟨key, value, hnone, ?_, hmem⟩
          rwa [lookup_cons_ite, if_neg (hother key value hlookup)]
      · rintro ⟨key, value, hnone, hlookup, hmem⟩
        rw [lookup_cons_ite] at hlookup
        split at hlookup
        · obtain rfl := Option.some.inj hlookup
          subst key
          exact Or.inl hmem
        · exact Or.inr ⟨key, value, hnone, hlookup, hmem⟩

theorem ascending_addTheirs (sectionName : String) (base : Option Table) (ours theirs : Table)
    (h : Ascending out) : Ascending (addTheirs sectionName base ours theirs out).1 := by
  induction theirs generalizing out with
  | nil => simpa [addTheirs] using h
  | cons entry rest ih =>
    obtain ⟨first, old⟩ := entry
    rw [addTheirs]
    split
    · exact ih h
    · apply ih
      split
      · exact ascending_insertEntry _ _ h
      · exact h

theorem mergeValue_none_none (sectionName : String) (base : Option Value) :
    mergeValue sectionName base none none = (none, []) := by
  simp [mergeValue, mergeMissing, sameOpt]

theorem lookup_mergeTables (sectionName : String) (base : Option Table) (hours : Ascending ours)
    (htheirs : Ascending theirs) (key : String) :
    (mergeTables sectionName base ours theirs).1.lookup key =
      (mergeValue (place sectionName key)
        (base.bind fun entries => entries.lookup key) (ours.lookup key)
        (theirs.lookup key)).1 := by
  rw [mergeTables, lookup_addTheirs _ _ _ htheirs.nodup, lookup_mergeOurs _ _ _ hours.nodup]
  cases hmine : ours.lookup key with
  | some value => simp [mergeValue]
  | none =>
    cases hother : theirs.lookup key with
    | none => simp [mergeValue_none_none]
    | some value => simp [mergeValue]

theorem mem_conflicts_mergeTables (sectionName : String) (base : Option Table)
    (hours : Ascending ours) (htheirs : Ascending theirs) (conflict : Conflict) :
    conflict ∈ (mergeTables sectionName base ours theirs).2 ↔
      ∃ key, conflict ∈ (mergeValue (place sectionName key)
        (base.bind fun entries => entries.lookup key) (ours.lookup key)
        (theirs.lookup key)).2 := by
  rw [mergeTables, mem_append, mem_conflicts_mergeOurs _ _ _ hours.nodup,
    mem_conflicts_addTheirs _ _ _ htheirs.nodup]
  constructor
  · rintro (⟨key, value, hlookup, hmem⟩ | ⟨key, value, hnone, hlookup, hmem⟩)
    · exact ⟨key, by rw [hlookup]; exact hmem⟩
    · exact ⟨key, by rw [hnone, hlookup]; exact hmem⟩
  · rintro ⟨key, hmem⟩
    cases hmine : ours.lookup key with
    | some value => exact Or.inl ⟨key, value, hmine, by rwa [hmine] at hmem⟩
    | none =>
      cases hother : theirs.lookup key with
      | none => simp [hmine, hother, mergeValue_none_none] at hmem
      | some value =>
        rw [hmine, hother] at hmem
        exact Or.inr ⟨key, value, hmine, hother, hmem⟩

theorem conflicts_mergeTables_eq_nil_iff (sectionName : String) (base : Option Table)
    (hours : Ascending ours) (htheirs : Ascending theirs) :
    (mergeTables sectionName base ours theirs).2 = [] ↔
      ∀ key, (mergeValue (place sectionName key)
        (base.bind fun entries => entries.lookup key) (ours.lookup key)
        (theirs.lookup key)).2 = [] := by
  simp only [eq_nil_iff_forall_not_mem,
    mem_conflicts_mergeTables sectionName base hours htheirs, not_exists]
  exact forall_comm

theorem ascending_mergeTables (sectionName : String) (base : Option Table) (ours theirs : Table) :
    Ascending (mergeTables sectionName base ours theirs).1 :=
  ascending_addTheirs _ _ _ _ (ascending_mergeOurs _ _ _ _ ascending_nil)

/-- Every record has `key` as a string and no two have the same one. -/
structure KeyedBy (key : String) (items : List Value) : Prop where
  named : ∀ item ∈ items, ∃ id, item.get key = some (.string id)
  distinct : (items.map (recordId · key)).Nodup

/-- What the merge makes of one id: the three-way rule for records. -/
def mergeRecord (sectionName key : String) :
    Option Value → Option Value → Option Value → Option Value × List Conflict
  | base, some item, some other =>
    let merged := mergePresent sectionName base item (some other)
    (merged.1,
      if merged.2.isEmpty then [] else [recordConflict sectionName key item])
  | none, some item, none => (some item, [])
  | some baseItem, some item, none =>
    if same baseItem item then (none, [])
    else (some item, [recordConflict sectionName key item])
  | none, none, some other => (some other, [])
  | some baseItem, none, some other =>
    if same baseItem other then (none, [])
    else (some other, [recordConflict sectionName key other])
  | _, none, none => (none, [])

theorem keyedBy_iff (key : String) (items : List Value) :
    KeyedBy key items ↔
      (items.all fun item => ((item.get key).bind Value.asStr).isSome) = true ∧
        (items.map (recordId · key)).Nodup := by
  have hnamed : ∀ item : Value, ((item.get key).bind Value.asStr).isSome = true ↔
      ∃ id, item.get key = some (.string id) := by
    intro item
    cases item.get key with
    | none => simp
    | some value => cases value <;> simp [Value.asStr]
  simp only [all_eq_true, hnamed]
  exact ⟨fun h => ⟨h.named, h.distinct⟩, fun h => ⟨h.1, h.2⟩⟩

instance (key : String) (items : List Value) : Decidable (KeyedBy key items) :=
  decidable_of_iff _ (keyedBy_iff key items).symm

theorem recordId_of_get {item : Value} {key id : String}
    (h : item.get key = some (.string id)) : recordId item key = id := by
  simp [recordId, h, Value.asStr]

/-- Merging two values gives a value. -/
theorem mergePresent_isSome (sectionName : String) (base : Option Value) (ours theirs : Value) :
    ((mergePresent sectionName base ours (some theirs)).1).isSome := by
  change ((mergeValue sectionName base (some ours) (some theirs)).1).isSome
  rw [mergeValue_eq]
  split
  · rfl
  · split
    · rfl
    · split
      · rfl
      · simp only
        split <;> rfl
      · rfl

/-- Merging keeps a field that reads the same string on both sides. -/
theorem get_mergePresent (sectionName key id : String) (base : Option Value) {ours theirs : Value}
    (hours : ours.get key = some (.string id)) (htheirs : theirs.get key = some (.string id))
    (hwf : ours.wellFormed = true) (hwf' : theirs.wellFormed = true)
    (h : (mergePresent sectionName base ours (some theirs)).1 = some merged) :
    merged.get key = some (.string id) := by
  cases ours with
  | table entries =>
    cases theirs with
    | table others =>
      have hasc := ((wellFormed_table entries).mp hwf).1
      have hasc' := ((wellFormed_table others).mp hwf').1
      change (mergeValue sectionName base (some (.table entries))
        (some (.table others))).1 = some merged at h
      rw [mergeValue_eq] at h
      split at h
      · obtain rfl := Option.some.inj h
        exact hours
      · split at h
        · obtain rfl := Option.some.inj h
          exact htheirs
        · obtain rfl := Option.some.inj h
          change (mergeTables _ _ entries others).1.lookup key = _
          rw [lookup_mergeTables _ _ hasc hasc']
          change entries.lookup key = _ at hours
          change others.lookup key = _ at htheirs
          rw [hours, htheirs, mergeValue_eq]
          simp [sameOpt, same]
    | _ => simp [Value.get] at htheirs
  | _ => simp [Value.get] at hours

/-- The first loop keeps this side's order: it only drops records. -/
theorem map_mergeItems_sublist (sectionName key : String) (base theirs : List Value)
    {ours : List Value} (hours : KeyedBy key ours) (htheirs : KeyedBy key theirs)
    (hwf : ∀ item ∈ ours, item.wellFormed = true) (hwf' : ∀ item ∈ theirs, item.wellFormed = true) :
    ((mergeItems sectionName key base theirs ours).1.map (recordId · key)).Sublist
      (ours.map (recordId · key)) := by
  induction ours with
  | nil => simp [mergeItems]
  | cons item rest ih =>
    have hrest : KeyedBy key rest :=
      ⟨fun other hother => hours.named other (mem_cons_of_mem _ hother),
        (nodup_cons.mp hours.distinct).2⟩
    have htail := ih hrest fun other hother => hwf other (mem_cons_of_mem _ hother)
    obtain ⟨id, hid⟩ := hours.named item mem_cons_self
    rw [mergeItems]
    simp only [map_cons]
    split
    · rename_i theirItem hfound
      obtain ⟨hmem, hkey⟩ := findKey_some_imp hfound
      rw [mem_reverse] at hmem
      obtain ⟨id', hid'⟩ := htheirs.named theirItem hmem
      have hids : id' = id := by
        rw [recordId_of_get hid'] at hkey
        rw [hkey, recordId_of_get hid]
      subst id'
      split
      · rename_i merged nested hmerged
        have hget := get_mergePresent sectionName key id _ hid hid'
          (hwf item mem_cons_self) (hwf' theirItem hmem)
          (congrArg Prod.fst hmerged)
        rw [map_cons, recordId_of_get hget, recordId_of_get hid]
        exact htail.cons_cons _
      · exact htail.cons _
    · rw [map_cons]
      exact htail.cons_cons _
    · split
      · exact htail.cons _
      · rw [map_cons]
        exact htail.cons_cons _

/-- One record of the first loop, as the three-way rule has it. -/
theorem mergeItems_cons (sectionName key : String) (base theirs rest : List Value)
    (item : Value) :
    mergeItems sectionName key base theirs (item :: rest) =
      let rule := mergeRecord sectionName key (byId base key (recordId item key))
        (some item) (byId theirs key (recordId item key))
      let next := mergeItems sectionName key base theirs rest
      (rule.1.toList ++ next.1, rule.2 ++ next.2) := by
  rw [mergeItems]
  cases htheirs : byId theirs key (recordId item key) with
  | some theirItem =>
    have hsome := mergePresent_isSome sectionName (byId base key (recordId item key)) item theirItem
    obtain ⟨merged, hmerged⟩ := Option.isSome_iff_exists.mp hsome
    simp only [mergeRecord, hmerged]
    rw [show mergePresent sectionName (byId base key (recordId item key)) item
      (some theirItem) = (some merged, (mergePresent sectionName
        (byId base key (recordId item key)) item (some theirItem)).2) from
      Prod.ext hmerged rfl]
    cases hnested : (mergePresent sectionName
      (byId base key (recordId item key)) item (some theirItem)).2.isEmpty <;>
      simp [hnested]
  | none =>
    cases hbase : byId base key (recordId item key) with
    | none => simp [mergeRecord]
    | some baseItem =>
      cases hsame : same baseItem item <;> simp [mergeRecord, hsame]

theorem get_mergeRecord {sectionName key id : String} {base ours theirs : Option Value}
    (hours : ∀ item, ours = some item → item.get key = some (.string id) ∧ item.wellFormed = true)
    (htheirs : ∀ other, theirs = some other → other.get key = some (.string id) ∧ other.wellFormed =
    true) (h : (mergeRecord sectionName key base ours theirs).1 = some merged) :
    merged.get key = some (.string id) := by
  cases ours with
  | some item =>
    obtain ⟨hitem, hwf⟩ := hours item rfl
    cases theirs with
    | some other =>
      obtain ⟨hother, hwf'⟩ := htheirs other rfl
      exact get_mergePresent sectionName key id base hitem hother hwf hwf'
        (by simpa [mergeRecord] using h)
    | none =>
      cases base with
      | none =>
        obtain rfl : item = merged := by simpa [mergeRecord] using h
        exact hitem
      | some baseItem =>
        cases hsame : same baseItem item <;> simp [mergeRecord, hsame] at h
        exact h ▸ hitem
  | none =>
    cases theirs with
    | some other =>
      cases base with
      | none =>
        obtain rfl : other = merged := by simpa [mergeRecord] using h
        exact (htheirs other rfl).1
      | some baseItem =>
        cases hsame : same baseItem other <;> simp [mergeRecord, hsame] at h
        exact h ▸ (htheirs other rfl).1
    | none => cases base <;> simp [mergeRecord] at h

theorem byId_eq_findKey {key : String} (h : KeyedBy key items) (id : String) :
    byId items key id = findKey (recordId · key) id items :=
  findKey_reverse h.distinct id

theorem KeyedBy.get_of_findKey {key id : String} (h : KeyedBy key items) {item : Value}
    (hfind : findKey (recordId · key) id items = some item) :
    item ∈ items ∧ item.get key = some (.string id) := by
  obtain ⟨hmem, hid⟩ := findKey_some_imp hfind
  obtain ⟨name, hname⟩ := h.named item hmem
  rw [recordId_of_get hname] at hid
  exact ⟨hmem, hid ▸ hname⟩

theorem KeyedBy.tail {key : String} {item : Value} {rest : List Value}
    (h : KeyedBy key (item :: rest)) : KeyedBy key rest :=
  ⟨fun other hother => h.named other (mem_cons_of_mem _ hother), (nodup_cons.mp h.distinct).2⟩

theorem KeyedBy.head_not_mem {key id : String} {item : Value}
    {rest : List Value} (h : KeyedBy key (item :: rest))
    (hid : recordId item key = id) : id ∉ rest.map (recordId · key) :=
  hid ▸ (nodup_cons.mp h.distinct).1

section Records

variable {sectionName key : String} {base ours theirs : List Value}

theorem findKey_mergeItems (hours : KeyedBy key ours)
    (htheirs : KeyedBy key theirs)
    (hwf : ∀ item ∈ ours, item.wellFormed = true)
    (hwf' : ∀ item ∈ theirs, item.wellFormed = true) (id : String) :
    findKey (recordId · key) id (mergeItems sectionName key base theirs ours).1 =
      (findKey (recordId · key) id ours).bind fun item =>
        (mergeRecord sectionName key (byId base key id) (some item)
          (findKey (recordId · key) id theirs)).1 := by
  induction ours with
  | nil => simp [mergeItems, findKey]
  | cons item rest ih =>
    obtain ⟨name, hname⟩ := hours.named item mem_cons_self
    have htail := ih hours.tail fun other hother => hwf other (mem_cons_of_mem _ hother)
    rw [mergeItems_cons, recordId_of_get hname, findKey_append, htail,
      findKey_cons, recordId_of_get hname, byId_eq_findKey htheirs]
    have hrule : ∀ merged, (mergeRecord sectionName key (byId base key name)
        (some item) (findKey (recordId · key) name theirs)).1 = some merged →
        recordId merged key = name := by
      intro merged hmerged
      refine recordId_of_get (get_mergeRecord ?_ ?_ hmerged)
      · rintro _ ⟨⟩
        exact ⟨hname, hwf item mem_cons_self⟩
      · intro other hother
        obtain ⟨hmem, hget⟩ := htheirs.get_of_findKey hother
        exact ⟨hget, hwf' other hmem⟩
    by_cases hid : name = id
    · subst name
      rw [if_pos rfl, Option.bind_some]
      cases hmerged : (mergeRecord sectionName key (byId base key id)
        (some item) (findKey (recordId · key) id theirs)).1 with
      | some merged =>
        rw [Option.toList_some, findKey_cons, if_pos (hrule merged hmerged)]
        rfl
      | none =>
        have hrest : findKey (recordId · key) id rest = none :=
          findKey_eq_none_iff.mpr (hours.head_not_mem (recordId_of_get hname))
        rw [hrest]
        rfl
    · rw [if_neg hid]
      cases hmerged : (mergeRecord sectionName key (byId base key name)
        (some item) (findKey (recordId · key) name theirs)).1 with
      | some merged =>
        rw [Option.toList_some, findKey_cons, if_neg (hrule merged hmerged ▸ hid)]
        simp [findKey]
      | none => simp [findKey]

theorem mem_conflicts_mergeItems (hours : KeyedBy key ours)
    (htheirs : KeyedBy key theirs) (conflict : Conflict) :
    conflict ∈ (mergeItems sectionName key base theirs ours).2 ↔
      ∃ id item, findKey (recordId · key) id ours = some item ∧
        conflict ∈ (mergeRecord sectionName key (byId base key id) (some item)
          (findKey (recordId · key) id theirs)).2 := by
  induction ours with
  | nil => simp [mergeItems, findKey]
  | cons item rest ih =>
    obtain ⟨name, hname⟩ := hours.named item mem_cons_self
    have hnot := hours.head_not_mem (recordId_of_get hname)
    rw [mergeItems_cons, recordId_of_get hname, mem_append, ih hours.tail, byId_eq_findKey htheirs]
    constructor
    · rintro (hhead | ⟨id, found, hfound, hmem⟩)
      · exact ⟨name, item, by rw [findKey_cons, if_pos (recordId_of_get hname)], hhead⟩
      · have hid : name ≠ id := by
          rintro rfl
          rw [findKey_eq_none_iff.mpr hnot] at hfound
          cases hfound
        refine ⟨id, found, ?_, hmem⟩
        rwa [findKey_cons, recordId_of_get hname, if_neg hid]
    · rintro ⟨id, found, hfound, hmem⟩
      rw [findKey_cons, recordId_of_get hname] at hfound
      split at hfound
      · obtain rfl := Option.some.inj hfound
        subst name
        exact Or.inl hmem
      · exact Or.inr ⟨id, found, hfound, hmem⟩

omit base ours theirs in
theorem insertPosition_le (key : String) (before out : List Value) :
    insertPosition key before out ≤ out.length := by
  rw [insertPosition]
  split
  · rename_i position hfound
    obtain ⟨earlier, -, hindex⟩ := exists_of_findSome?_eq_some hfound
    obtain ⟨hlt, -⟩ := List.findIdx?_eq_some_iff_getElem.mp hindex
    exact hlt
  · exact Nat.zero_le _

/-- One record of the second loop: skipped when this side has it, else as the
three-way rule has it. -/
theorem insertTheirs_cons (before out rest : List Value) (item : Value) :
    insertTheirs sectionName key base ours before (item :: rest) out =
      if recordId item key ∈ ours.map (recordId · key) then
        insertTheirs sectionName key base ours (item :: before) rest out
      else
        let rule := mergeRecord sectionName key (byId base key (recordId item key)) none (some item)
        let next := insertTheirs sectionName key base ours (item :: before) rest
          (match rule.1 with
            | some kept => out.insertIdx (insertPosition key before out) kept
            | none => out)
        (next.1, rule.2 ++ next.2) := by
  rw [insertTheirs]
  split
  · rfl
  · cases hbase : byId base key (recordId item key) with
    | none => simp [mergeRecord]
    | some baseItem =>
      cases hsame : same baseItem item <;> simp [mergeRecord, hsame]

omit ours theirs in
theorem mergeRecord_none_some {base : Option Value} {item kept : Value}
    (h : (mergeRecord sectionName key base none (some item)).1 = some kept) :
    kept = item := by
  cases base with
  | none => simpa [mergeRecord, eq_comm] using h
  | some baseItem =>
    cases hsame : same baseItem item <;> simp [mergeRecord, hsame] at h
    exact h.symm

/-- The second loop adds the records only the other side has, wherever it puts
them. -/
theorem findKey_insertTheirs (sectionName : String) (base ours : List Value)
    (htheirs : KeyedBy key theirs) (before : List Value) {out : List Value}
    (hout : (out.map (recordId · key)).Nodup)
    (hnew : ∀ id ∈ theirs.map (recordId · key),
      id ∉ ours.map (recordId · key) → id ∉ out.map (recordId · key)) :
    ((insertTheirs sectionName key base ours before theirs out).1.map (recordId · key)).Nodup ∧
      ∀ id, findKey (recordId · key) id
          (insertTheirs sectionName key base ours before theirs out).1 =
        (if id ∈ ours.map (recordId · key) then none
          else (findKey (recordId · key) id theirs).bind fun other =>
            (mergeRecord sectionName key (byId base key id) none
              (some other)).1).or (findKey (recordId · key) id out) := by
  induction theirs generalizing before out with
  | nil => simpa [insertTheirs, findKey] using hout
  | cons item rest ih =>
    obtain ⟨name, hname⟩ := htheirs.named item mem_cons_self
    have hid := recordId_of_get hname
    have hnot := htheirs.head_not_mem hid
    have hnewRest : ∀ {out' : List Value},
        (∀ id, id ∈ out'.map (recordId · key) → id = name ∨ id ∈ out.map (recordId · key)) →
        ∀ id ∈ rest.map (recordId · key),
          id ∉ ours.map (recordId · key) → id ∉ out'.map (recordId · key) := by
      intro out' hgrow id hmem hours hmem'
      rcases hgrow id hmem' with rfl | hold
      · exact hnot hmem
      · exact hnew id (by simp [hmem]) hours hold
    rw [insertTheirs_cons, hid]
    by_cases hours : name ∈ ours.map (recordId · key)
    · rw [if_pos hours]
      obtain ⟨hnodup, hfind⟩ := ih htheirs.tail (item :: before) hout
        (hnewRest fun id hmem => Or.inr hmem)
      refine ⟨hnodup, fun id => ?_⟩
      rw [hfind id, findKey_cons, hid]
      by_cases hsame : name = id
      · subst id
        simp [hours]
      · simp [hsame]
    · rw [if_neg hours]
      have hfresh : name ∉ out.map (recordId · key) := hnew name (by simp [hid]) hours
      cases hkept : (mergeRecord sectionName key (byId base key name) none (some item)).1 with
      | none =>
        obtain ⟨hnodup, hfind⟩ := ih htheirs.tail (item :: before) hout
          (hnewRest fun id hmem => Or.inr hmem)
        simp only [hkept]
        refine ⟨hnodup, fun id => ?_⟩
        rw [hfind id, findKey_cons, hid]
        by_cases hsame : name = id
        · subst id
          have hrest : findKey (recordId · key) name rest = none := findKey_eq_none_iff.mpr hnot
          simp [hours, hkept, hrest]
        · simp [hsame]
      | some kept =>
        obtain rfl := mergeRecord_none_some hkept
        have hposition := insertPosition_le key before out
        have hperm := perm_insertIdx kept out hposition
        obtain ⟨hnodup, hfind⟩ := ih htheirs.tail (kept :: before)
          (nodup_map_insertIdx hposition hout (by rwa [hid]))
          (hnewRest fun id hmem => by
            have := (hperm.map (recordId · key)).mem_iff.mp hmem
            simpa [hid] using this)
        simp only [hkept]
        refine ⟨hnodup, fun id => ?_⟩
        rw [hfind id, findKey_cons, hid, findKey_insertIdx hposition hout (by rwa [hid]), hid]
        by_cases hsame : name = id
        · subst id
          have hrest : findKey (recordId · key) name rest = none := findKey_eq_none_iff.mpr hnot
          simp [hours, hkept, hrest]
        · simp [hsame]

theorem mem_conflicts_insertTheirs (htheirs : KeyedBy key theirs)
    (before out : List Value) (conflict : Conflict) :
    conflict ∈ (insertTheirs sectionName key base ours before theirs out).2 ↔
      ∃ id other, id ∉ ours.map (recordId · key) ∧
        findKey (recordId · key) id theirs = some other ∧
        conflict ∈ (mergeRecord sectionName key (byId base key id) none (some other)).2 := by
  induction theirs generalizing before out with
  | nil => simp [insertTheirs, findKey]
  | cons item rest ih =>
    obtain ⟨name, hname⟩ := htheirs.named item mem_cons_self
    have hid := recordId_of_get hname
    have hnot := htheirs.head_not_mem hid
    have hne : ∀ {id other}, findKey (recordId · key) id rest = some other → name ≠ id := by
      rintro id other hfound rfl
      rw [findKey_eq_none_iff.mpr hnot] at hfound
      cases hfound
    rw [insertTheirs_cons, hid]
    by_cases hours : name ∈ ours.map (recordId · key)
    · rw [if_pos hours, ih htheirs.tail]
      constructor
      · rintro ⟨id, other, hmine, hfound, hmem⟩
        refine ⟨id, other, hmine, ?_, hmem⟩
        rwa [findKey_cons, hid, if_neg (hne hfound)]
      · rintro ⟨id, other, hmine, hfound, hmem⟩
        have hname' : name ≠ id := fun heq => hmine (heq ▸ hours)
        rw [findKey_cons, hid, if_neg hname'] at hfound
        exact ⟨id, other, hmine, hfound, hmem⟩
    · rw [if_neg hours]
      simp only [mem_append, ih htheirs.tail]
      constructor
      · rintro (hhead | ⟨id, other, hmine, hfound, hmem⟩)
        · exact ⟨name, item, hours, by rw [findKey_cons, if_pos hid], hhead⟩
        · refine ⟨id, other, hmine, ?_, hmem⟩
          rwa [findKey_cons, hid, if_neg (hne hfound)]
      · rintro ⟨id, other, hmine, hfound, hmem⟩
        rw [findKey_cons, hid] at hfound
        by_cases hsame : name = id
        · rw [if_pos hsame] at hfound
          obtain rfl := Option.some.inj hfound
          exact Or.inl (hsame ▸ hmem)
        · rw [if_neg hsame] at hfound
          exact Or.inr ⟨id, other, hmine, hfound, hmem⟩

theorem findKey_mergeRecords (sectionName : String) (base : List Value) (hours : KeyedBy key ours)
    (htheirs : KeyedBy key theirs) (hwf : ∀ item ∈ ours, item.wellFormed = true)
    (hwf' : ∀ item ∈ theirs, item.wellFormed = true) :
    ((mergeRecords sectionName key base ours theirs).1.map (recordId · key)).Nodup ∧
      ∀ id, findKey (recordId · key) id (mergeRecords sectionName key base ours theirs).1 =
        (mergeRecord sectionName key (byId base key id)
          (findKey (recordId · key) id ours)
          (findKey (recordId · key) id theirs)).1 := by
  have hsub := map_mergeItems_sublist sectionName key base theirs hours htheirs hwf hwf'
  obtain ⟨hnodup, hfind⟩ := findKey_insertTheirs sectionName base ours
    htheirs []
    (hours.distinct.sublist hsub)
    fun id _ hmine hmem => hmine (hsub.subset hmem)
  refine ⟨hnodup, fun id => ?_⟩
  rw [mergeRecords, hfind id, findKey_mergeItems hours htheirs hwf hwf']
  cases hmine : findKey (recordId · key) id ours with
  | some item =>
    have hmem : id ∈ ours.map (recordId · key) := findKey_isSome_iff.mp (by rw [hmine]; rfl)
    rw [if_pos hmem]
    rfl
  | none =>
    rw [if_neg (findKey_eq_none_iff.mp hmine)]
    cases findKey (recordId · key) id theirs with
    | some other => simp
    | none => cases byId base key id <;> rfl

theorem keyedBy_mergeRecords (sectionName : String) (base : List Value) (hours : KeyedBy key ours)
    (htheirs : KeyedBy key theirs) (hwf : ∀ item ∈ ours, item.wellFormed = true)
    (hwf' : ∀ item ∈ theirs, item.wellFormed = true) :
    KeyedBy key (mergeRecords sectionName key base ours theirs).1 := by
  obtain ⟨hnodup, hfind⟩ := findKey_mergeRecords sectionName base hours htheirs hwf hwf'
  refine ⟨fun item hitem => ?_, hnodup⟩
  have hfound := hfind (recordId item key)
  rw [(findKey_eq_some_iff hnodup).mpr ⟨hitem, rfl⟩] at hfound
  refine ⟨recordId item key, get_mergeRecord ?_ ?_ hfound.symm⟩
  · intro mine hmine
    obtain ⟨hmem, hget⟩ := hours.get_of_findKey hmine
    exact ⟨hget, hwf mine hmem⟩
  · intro other hother
    obtain ⟨hmem, hget⟩ := htheirs.get_of_findKey hother
    exact ⟨hget, hwf' other hmem⟩

theorem mem_conflicts_mergeRecords (hours : KeyedBy key ours)
    (htheirs : KeyedBy key theirs) (conflict : Conflict) :
    conflict ∈ (mergeRecords sectionName key base ours theirs).2 ↔
      ∃ id, conflict ∈ (mergeRecord sectionName key (byId base key id)
        (findKey (recordId · key) id ours)
        (findKey (recordId · key) id theirs)).2 := by
  rw [mergeRecords, mem_append, mem_conflicts_mergeItems hours htheirs,
    mem_conflicts_insertTheirs htheirs]
  constructor
  · rintro (⟨id, item, hfound, hmem⟩ | ⟨id, other, hmine, hfound, hmem⟩)
    · exact ⟨id, by rwa [hfound]⟩
    · refine ⟨id, ?_⟩
      rwa [findKey_eq_none_iff.mpr hmine, hfound]
  · rintro ⟨id, hmem⟩
    cases hmine : findKey (recordId · key) id ours with
    | some item => exact Or.inl ⟨id, item, hmine, by rwa [hmine] at hmem⟩
    | none =>
      cases hother : findKey (recordId · key) id theirs with
      | some other =>
        rw [hmine, hother] at hmem
        exact Or.inr ⟨id, other, findKey_eq_none_iff.mp hmine, hother, hmem⟩
      | none =>
        rw [hmine, hother] at hmem
        cases hbase : byId base key id <;> simp [hbase, mergeRecord] at hmem

theorem conflicts_mergeRecords_eq_nil_iff (hours : KeyedBy key ours)
    (htheirs : KeyedBy key theirs) :
    (mergeRecords sectionName key base ours theirs).2 = [] ↔
      ∀ id, (mergeRecord sectionName key (byId base key id)
        (findKey (recordId · key) id ours)
        (findKey (recordId · key) id theirs)).2 = [] := by
  simp only [eq_nil_iff_forall_not_mem, mem_conflicts_mergeRecords hours htheirs, not_exists]
  exact forall_comm

end Records

variable {arrays : List (List Value)} {items : List Value} {sectionName : String}

theorem recordKey_some {key : String} (h : recordKey arrays = some key) :
    (key = "id" ∨ key = "path") ∧ ∀ items ∈ arrays, ∀ item ∈ items,
      ∃ id, item.get key = some (.string id) := by
  rw [recordKey] at h
  split at h
  · cases h
  · refine ⟨by simpa using mem_of_find?_eq_some h, ?_⟩
    intro items hitems item hitem
    have hall := List.find?_some h
    rw [all_eq_true] at hall
    have hone := all_eq_true.mp (hall items hitems) item hitem
    cases hget : item.get key with
    | none => simp [hget] at hone
    | some value =>
      cases value <;> simp [hget, Value.asStr] at hone
      exact ⟨_, rfl⟩

/-- Without a key, arrays whose elements all have one are empty. -/
theorem recordKey_eq_none {key : String} (hkey : key = "id" ∨ key = "path")
    (hnamed : ∀ items ∈ arrays, ∀ item ∈ items, ∃ id, item.get key = some (.string id))
    (h : recordKey arrays = none) : ∀ items ∈ arrays, items = [] := by
  rw [recordKey] at h
  split at h
  · rename_i hempty
    intro items hitems
    exact List.isEmpty_iff.mp (all_eq_true.mp hempty items hitems)
  · have hnone := List.find?_eq_none.mp h key (by simpa using hkey)
    refine absurd (all_eq_true.mpr fun items hitems => ?_) hnone
    refine all_eq_true.mpr fun item hitem => ?_
    obtain ⟨id, hid⟩ := hnamed items hitems item hitem
    simp [hid, Value.asStr]

/-- Each key that names every record of the list names them apart. -/
def distinctRecords (items : List Value) : Bool :=
  ["id", "path"].all fun key =>
    !(items.all fun item => ((item.get key).bind Value.asStr).isSome) ||
      decide ((items.map (recordId · key)).Nodup)

theorem keyedBy_of_distinct {key : String} (hkey : key = "id" ∨ key = "path")
    (hnamed : ∀ item ∈ items, ∃ id, item.get key = some (.string id))
    (hdistinct : distinctRecords items = true) : KeyedBy key items := by
  refine ⟨hnamed, ?_⟩
  rw [distinctRecords, all_eq_true] at hdistinct
  have hone := hdistinct key (by simpa using hkey)
  have hall : (items.all fun item => ((item.get key).bind Value.asStr).isSome) = true := by
    rw [all_eq_true]
    intro item hitem
    obtain ⟨id, hid⟩ := hnamed item hitem
    simp [hid, Value.asStr]
  simpa [hall] using hone

theorem keyedBy_of_recordKey {key : String} (h : recordKey arrays = some key)
    (hmem : items ∈ arrays) (hdistinct : distinctRecords items = true) : KeyedBy key items :=
  keyedBy_of_distinct (recordKey_some h).1 ((recordKey_some h).2 items hmem) hdistinct

theorem wellFormedOpt_get {value : Value} (h : value.wellFormed = true)
    (field : String) : wellFormedOpt (value.get field) := by
  cases value with
  | table entries => exact wellFormedOpt_lookup h field
  | _ => simp [Value.get]

theorem same_get {x y : Value} (hx : x.wellFormed = true)
    (hy : y.wellFormed = true) (h : same x y = true) (field : String) :
    sameOpt (x.get field) (y.get field) = true := by
  cases x with
  | table entries =>
    cases y with
    | table others =>
      exact (same_table_iff ((wellFormed_table _).mp hx).1
        ((wellFormed_table _).mp hy).1).mp h field
    | _ => simp [same] at h
  | _ => cases y <;> first | rfl | simp [same] at h

theorem asStr_of_sameOpt {x y : Option Value} (h : sameOpt x y = true) :
    x.bind Value.asStr = y.bind Value.asStr := by
  rcases x with _ | x
  · rcases y with _ | y
    · rfl
    · simp [sameOpt] at h
  · rcases y with _ | y
    · simp [sameOpt] at h
    · cases x <;> cases y <;> simp_all [sameOpt, same, Value.asStr]

theorem recordId_of_same {x y : Value} (hx : x.wellFormed = true)
    (hy : y.wellFormed = true) (h : same x y = true) (key : String) :
    recordId x key = recordId y key := by
  rw [recordId, recordId, asStr_of_sameOpt (same_get hx hy h key)]

theorem sameOpt_findKey {xs ys : List Value}
    (h : List.Forall₂ (fun x y => same x y = true) xs ys)
    (hxs : ∀ x ∈ xs, x.wellFormed = true) (hys : ∀ y ∈ ys, y.wellFormed = true)
    (key id : String) :
    sameOpt (findKey (recordId · key) id xs) (findKey (recordId · key) id ys) =
      true := by
  induction h with
  | nil => rfl
  | cons hhead htail ih =>
    rename_i x y xs ys
    rw [findKey_cons, findKey_cons, recordId_of_same (hxs x (by simp)) (hys y (by simp)) hhead key]
    split
    · exact hhead
    · exact ih (fun x hx => hxs x (by simp [hx])) fun y hy => hys y (by simp [hy])

theorem mem_mergeItems {key : String} {base theirs ours : List Value} {value : Value}
    (h : value ∈ (mergeItems sectionName key base theirs ours).1) :
    value ∈ ours ∨ ∃ item ∈ ours, ∃ other ∈ theirs, ∃ baseItem,
      (mergePresent sectionName baseItem item (some other)).1 = some value := by
  induction ours with
  | nil => simp [mergeItems] at h
  | cons item rest ih =>
    rw [mergeItems_cons] at h
    rcases mem_append.mp h with hhead | htail
    · rw [Option.mem_toList] at hhead
      cases htheirs : byId theirs key (recordId item key) with
      | some other =>
        rw [htheirs] at hhead
        exact Or.inr ⟨item, mem_cons_self, other,
          mem_reverse.mp (findKey_some_imp htheirs).1, _, hhead⟩
      | none =>
        refine Or.inl (mem_cons.mpr (Or.inl ?_))
        rw [htheirs] at hhead
        cases hbase : byId base key (recordId item key) with
        | none => simpa [hbase, mergeRecord, eq_comm] using hhead
        | some baseItem =>
          cases hsame : same baseItem item <;> simp [hbase, mergeRecord, hsame] at hhead
          exact hhead.symm
    · rcases ih htail with hmem | ⟨found, hfound, rest'⟩
      · exact Or.inl (mem_cons_of_mem _ hmem)
      · exact Or.inr ⟨found, mem_cons_of_mem _ hfound, rest'⟩

theorem mem_insertTheirs {key : String} {base ours theirs : List Value} {before out : List Value}
    {value : Value} (h : value ∈ (insertTheirs sectionName key base ours before theirs out).1) :
    value ∈ out ∨ value ∈ theirs := by
  induction theirs generalizing before out with
  | nil => exact Or.inl (by simpa [insertTheirs] using h)
  | cons item rest ih =>
    rw [insertTheirs_cons] at h
    split at h
    · exact (ih h).imp_right (mem_cons_of_mem _)
    · simp only at h
      split at h
      · rename_i kept hkept
        obtain rfl := mergeRecord_none_some hkept
        rcases ih h with hout | hrest
        · rw [mem_insertIdx (insertPosition_le key before out)] at hout
          exact hout.elim (fun heq => Or.inr (by simp [heq])) Or.inl
        · exact Or.inr (mem_cons_of_mem _ hrest)
      · exact (ih h).imp_right (mem_cons_of_mem _)

theorem wellFormedOpt_baseItems {base : Option Value} (h : wellFormedOpt base) :
    ∀ item ∈ (base.bind Value.asArray).getD [], item.wellFormed = true := by
  intro item hitem
  cases base with
  | none => simp at hitem
  | some value =>
    cases value with
    | array items =>
      have hwf := (wellFormedOpt_some _).mp h
      exact (wellFormed_array items).mp hwf item hitem
    | _ => simp [Value.asArray] at hitem

theorem wellFormedOpt_baseTable {base : Option Value} (h : wellFormedOpt base)
    (key : String) :
    wellFormedOpt ((base.bind Value.asTable).bind fun entries => entries.lookup key) := by
  cases base with
  | none => simp
  | some value =>
    cases value with
    | table entries =>
      exact wellFormedOpt_lookup ((wellFormedOpt_some _).mp h) key
    | _ => simp [Value.asTable]

theorem wellFormed_mergeMissing (sectionName : String) (base : Option Value)
    {theirs : Option Value} (h : wellFormedOpt theirs) :
    wellFormedOpt (mergeMissing sectionName base theirs).1 := by
  rw [mergeMissing]
  split
  · simp
  · split
    · exact h
    · simp

theorem wellFormed_mergePresent (ours : Value) (sectionName : String) (base theirs : Option Value)
    (hours : ours.wellFormed = true) (htheirs : wellFormedOpt theirs) :
    wellFormedOpt (mergePresent sectionName base ours theirs).1 := by
  have hkept : wellFormedOpt (some ours) := (wellFormedOpt_some ours).mpr hours
  change wellFormedOpt (mergeValue sectionName base (some ours) theirs).1
  have hcase := mergeCase sectionName base (some ours) theirs
  generalize mergeValue sectionName base (some ours) theirs = merged at hcase ⊢
  induction ours using Value.induction generalizing sectionName base theirs merged with
  | array items ih =>
    cases hcase with
    | ours => exact hkept
    | theirs => exact htheirs
    | whole => exact hkept
    | records =>
      rename_i others key hkey hdiffer
      rw [wellFormedOpt_some, wellFormed_array] at htheirs ⊢
      rw [wellFormed_array] at hours
      intro value hvalue
      rcases mem_insertTheirs hvalue with hmem | hmem
      · rcases mem_mergeItems hmem with
          hmem | ⟨item, hitem, other, hother, baseItem, hmerged⟩
        · exact hours value hmem
        · exact ih item hitem sectionName baseItem (some other)
            (hours item hitem)
            ((wellFormedOpt_some other).mpr (htheirs other hother))
            ((wellFormedOpt_some item).mpr (hours item hitem)) _
            (mergeCase _ _ _ _) value hmerged
      · exact htheirs value hmem
  | table entries ih =>
    cases hcase with
    | ours => exact hkept
    | theirs => exact htheirs
    | whole => exact hkept
    | tables =>
      rename_i others hdiffer
      rw [wellFormedOpt_some, wellFormed_table]
      obtain ⟨hasc, hvalues⟩ := (wellFormed_table entries).mp hours
      have hothers := (wellFormedOpt_some _).mp htheirs
      obtain ⟨hasc', -⟩ := (wellFormed_table others).mp hothers
      refine ⟨ascending_mergeTables _ _ _ _, fun key value hmem => ?_⟩
      rw [← lookup_eq_some_iff_mem (ascending_mergeTables _ _ _ _).nodup,
        lookup_mergeTables _ _ hasc hasc'] at hmem
      have hother := wellFormedOpt_lookup hothers key
      cases hmine : entries.lookup key with
      | some mine =>
        rw [hmine] at hmem
        have hin := (lookup_eq_some_iff_mem hasc.nodup).mp hmine
        exact ih key mine hin _ _ _ (hvalues key mine hin) hother
          ((wellFormedOpt_some mine).mpr (hvalues key mine hin)) _
          (mergeCase _ _ _ _) value hmem
      | none =>
        rw [hmine] at hmem
        exact wellFormed_mergeMissing _ _ hother value hmem
  | _ =>
    cases hcase with
    | ours => exact hkept
    | theirs => exact htheirs
    | whole => exact hkept

theorem wellFormed_mergeTables (sectionName : String) (base : Option Table)
    {ours theirs : Table} (hours : (Value.table ours).wellFormed = true)
    (htheirs : (Value.table theirs).wellFormed = true) :
    (Value.table (mergeTables sectionName base ours theirs).1).wellFormed = true := by
  have hasc := ascending_mergeTables sectionName base ours theirs
  rw [wellFormed_table]
  refine ⟨hasc, fun key value hmem => ?_⟩
  rw [← lookup_eq_some_iff_mem hasc.nodup,
    lookup_mergeTables _ _ ((wellFormed_table ours).mp hours).1
      ((wellFormed_table theirs).mp htheirs).1] at hmem
  have hother := wellFormedOpt_lookup htheirs key
  cases hmine : ours.lookup key with
  | some mine =>
    rw [hmine] at hmem
    exact wellFormed_mergePresent mine _ _ _
      (wellFormedOpt_lookup hours key mine hmine) hother value hmem
  | none =>
    rw [hmine] at hmem
    exact wellFormed_mergeMissing _ _ hother value hmem

end Opensesh
