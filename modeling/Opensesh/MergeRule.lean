/-
The three-way rule for records: what a merge keeps and drops of each record of
each section, and exactly where it loses one: in a section that is merged whole
because one side no longer has it.
-/
import Opensesh.Document

namespace Opensesh

/-- The records of a section: the elements of an array of tables.  A missing
section, or one of another type, has none. -/
def records : Option Value → List Value
  | some (.array items) =>
    if items.all fun item => item.asTable.isSome then items else []
  | _ => []

def recordAt (value : Option Value) (id : String) : Option Value :=
  findKey (recordId · "id") id (records value)

/-- Every array of records of the file has an `id` on every record, and no id
twice. -/
def RecordsById (d : Document) : Prop := ∀ key, KeyedBy "id" (records (d.table.lookup key))

theorem recordsById_iff (d : Document) :
    RecordsById d ↔ ∀ entry ∈ d.table, KeyedBy "id" (records (some entry.2)) :=
  d.forall_lookup_iff (fun value => KeyedBy "id" (records value))
    ⟨by simp [records], List.nodup_nil⟩

instance (d : Document) : Decidable (RecordsById d) := decidable_of_iff _ (recordsById_iff d).symm

/-- A field that only one side changed has that side's value. -/
def FieldRule (base ours theirs merged : Option Value) : Prop :=
  (sameOpt theirs base = true → sameOpt ours base = false → sameOpt merged ours = true) ∧
    (sameOpt ours base = true → sameOpt theirs base = false → sameOpt merged theirs = true)

def Reported (conflicts : List Conflict) (sectionName id : String) : Prop :=
  ∃ conflict ∈ conflicts, conflict.sectionName = sectionName ∧ conflict.id = id

/-- The three-way rule for one id: the record in the three versions, in the
result, and the conflicts reported. -/
def RecordRule (sectionName id : String) (conflicts : List Conflict)
    (merged : Option Value) :
    Option Value → Option Value → Option Value → Prop
  | base, some item, some other =>
    ∃ record, merged = some record ∧ ∀ field,
      FieldRule (base.bind (·.get field)) (item.get field) (other.get field) (record.get field)
  | none, some item, none => merged = some item
  | none, none, some other => merged = some other
  | some baseItem, some item, none =>
    if same baseItem item then merged = none
    else merged = some item ∧ Reported conflicts sectionName id
  | some baseItem, none, some other =>
    if same baseItem other then merged = none
    else merged = some other ∧ Reported conflicts sectionName id
  | _, none, none => True

/-- The rule for a whole section, with no id in the result twice. -/
structure SectionRule (sectionName : String) (base ours theirs : Option Value)
    (merged : Option Value × List Conflict) : Prop where
  once : ((records merged.1).map (recordId · "id")).Nodup
  rule : ∀ id, RecordRule sectionName id merged.2 (recordAt merged.1 id)
    (recordAt base id) (recordAt ours id) (recordAt theirs id)

/-- What keeping this side's version whole does no harm to: the other side
adds and changes no record that is missing here and no field left alone here,
and drops none that base had. -/
def HarmlessRecord (id : String) : Option Value → Option Value → Option Value → Prop
  | base, some item, some other => ∀ field,
      sameOpt (item.get field) (base.bind (·.get field)) = true →
        sameOpt (other.get field) (base.bind (·.get field)) = true
  | base, none, some other => sameOpt base (some other) = true
  | some baseItem, some item, none => same baseItem item = false ∧ id = ""
  | none, some _, none => True
  | _, none, none => True

def Harmless (base ours theirs : Option Value) : Prop :=
  ∀ id, HarmlessRecord id (recordAt base id) (recordAt ours id) (recordAt theirs id)

theorem records_of_named {items : List Value} {key : String}
    (h : ∀ item ∈ items, ∃ id, item.get key = some (.string id)) :
    records (some (.array items)) = items := by
  have hall : (items.all fun item => item.asTable.isSome) = true := by
    rw [List.all_eq_true]
    intro item hitem
    obtain ⟨id, hid⟩ := h item hitem
    cases item <;> simp [Value.get, Value.asTable] at hid ⊢
  rw [records, if_pos hall]

theorem mem_records {value : Option Value} {item : Value} (h : item ∈ records value) :
    ∃ items, value = some (.array items) ∧ item ∈ items := by
  rcases value with _ | value
  · simp [records] at h
  · cases value with
    | array items =>
      refine ⟨items, rfl, ?_⟩
      rw [records] at h
      split at h
      · exact h
      · simp at h
    | _ => simp [records] at h

theorem wellFormed_recordAt {value : Option Value} (id : String)
    (h : wellFormedOpt value) : wellFormedOpt (recordAt value id) := by
  intro item hitem
  obtain ⟨items, rfl, hmem⟩ := mem_records (findKey_some_imp hitem).1
  exact (wellFormed_array items).mp ((wellFormedOpt_some _).mp h) item hmem

theorem wellFormedOpt_bind_get {value : Option Value} (h : wellFormedOpt value)
    (field : String) : wellFormedOpt (value.bind (·.get field)) := by
  cases value with
  | none => simp
  | some item => exact wellFormedOpt_get (h item rfl) field

theorem all_tables_of_same {xs ys : List Value}
    (h : List.Forall₂ (fun x y => same x y = true) xs ys) :
    (xs.all fun item => item.asTable.isSome) = ys.all fun item => item.asTable.isSome := by
  induction h with
  | nil => rfl
  | cons hhead htail ih =>
    rename_i x y xs ys
    have hone : x.asTable.isSome = y.asTable.isSome := by
      cases x <;> cases y <;> first | rfl | simp [same] at hhead
    rw [List.all_cons, List.all_cons, hone, ih]

theorem sameOpt_recordAt {x y : Option Value} (hx : wellFormedOpt x)
    (hy : wellFormedOpt y) (h : sameOpt x y = true) (id : String) :
    sameOpt (recordAt x id) (recordAt y id) = true := by
  rcases x with _ | x
  · rcases y with _ | y
    · rfl
    · simp [sameOpt] at h
  · rcases y with _ | y
    · simp [sameOpt] at h
    · cases x <;> cases y
      case array.array xs ys =>
        have hitems := (same_array_iff xs ys).mp h
        simp only [recordAt, records, all_tables_of_same hitems]
        split
        · exact sameOpt_findKey hitems
            ((wellFormed_array xs).mp ((wellFormedOpt_some _).mp hx))
            ((wellFormed_array ys).mp ((wellFormedOpt_some _).mp hy)) "id" id
        · rfl
      all_goals first | rfl | simp [sameOpt, same] at h

section Branches

variable {sectionName : String} {base ours theirs : Option Value}

variable {id : String} {conflicts : List Conflict}

/-- Both sides have the section, the same: this side's is the result. -/
theorem recordRule_of_agree {base ours theirs : Option Value} (hours : wellFormedOpt ours)
    (htheirs : wellFormedOpt theirs) (h : sameOpt ours theirs = true) :
    RecordRule sectionName id conflicts ours base ours theirs := by
  rcases ours with _ | item
  · rcases theirs with _ | other
    · cases base <;> trivial
    · simp [sameOpt] at h
  · rcases theirs with _ | other
    · simp [sameOpt] at h
    · refine ⟨item, rfl, fun field => ⟨fun _ _ => ?_, fun _ _ => ?_⟩⟩
      · exact sameOpt_refl _ (wellFormedOpt_get (hours item rfl) field)
      · exact same_get (hours item rfl) (htheirs other rfl) h field

/-- The other side did not change the record: this side's is the result. -/
theorem recordRule_of_theirs_unchanged {base ours theirs : Option Value}
    (hbase : wellFormedOpt base) (hours : wellFormedOpt ours) (htheirs : wellFormedOpt theirs)
    (h : sameOpt theirs base = true) :
    RecordRule sectionName id conflicts ours base ours theirs := by
  rcases theirs with _ | other
  · rcases base with _ | baseItem
    · cases ours <;> trivial
    · simp [sameOpt] at h
  · rcases base with _ | baseItem
    · simp [sameOpt] at h
    · have hsame : same baseItem other = true :=
        same_symm (htheirs other rfl) (hbase baseItem rfl) h
      rcases ours with _ | item
      · simp [RecordRule, hsame]
      · refine ⟨item, rfl, fun field => ⟨fun _ _ => ?_, fun _ hchanged => ?_⟩⟩
        · exact sameOpt_refl _ (wellFormedOpt_get (hours item rfl) field)
        · have hfield := same_get (htheirs other rfl) (hbase baseItem rfl) h field
          rw [Option.bind_some, hfield] at hchanged
          cases hchanged

/-- This side did not change the record: the other side's is the result. -/
theorem recordRule_of_ours_unchanged {base ours theirs : Option Value} (hbase : wellFormedOpt base)
    (hours : wellFormedOpt ours) (htheirs : wellFormedOpt theirs) (h : sameOpt ours base = true) :
    RecordRule sectionName id conflicts theirs base ours theirs := by
  rcases ours with _ | item
  · rcases base with _ | baseItem
    · cases theirs <;> trivial
    · simp [sameOpt] at h
  · rcases base with _ | baseItem
    · simp [sameOpt] at h
    · have hsame : same baseItem item = true := same_symm (hours item rfl) (hbase baseItem rfl) h
      rcases theirs with _ | other
      · simp [RecordRule, hsame]
      · refine ⟨other, rfl, fun field => ⟨fun _ hchanged => ?_, fun _ _ => ?_⟩⟩
        · have hfield := same_get (hours item rfl) (hbase baseItem rfl) h field
          rw [Option.bind_some, hfield] at hchanged
          cases hchanged
        · exact sameOpt_refl _ (wellFormedOpt_get (htheirs other rfl) field)

theorem fieldRule_mergeValue (hours : wellFormedOpt ours) (htheirs : wellFormedOpt theirs) :
    FieldRule base ours theirs (mergeValue sectionName base ours theirs).1 := by
  rw [mergeValue_eq]
  constructor
  · intro htb _
    rw [htb, Bool.or_true, if_pos rfl]
    exact sameOpt_refl ours hours
  · intro hob htb
    rw [htb, Bool.or_false, hob]
    split
    · rename_i hsides
      exact hsides
    · exact sameOpt_refl theirs htheirs

theorem bind_get_eq (base : Option Value) (field : String) :
    (base.bind Value.asTable).bind (fun entries => entries.lookup field) =
      base.bind (·.get field) := by
  rcases base with _ | value
  · rfl
  · cases value <;> rfl

theorem recordRule_mergePresent {entries others : Table} (hbase : wellFormedOpt base)
    (hours : (Value.table entries).wellFormed = true)
    (htheirs : (Value.table others).wellFormed = true) :
    RecordRule sectionName id conflicts
      (mergePresent sectionName base (.table entries) (some (.table others))).1
      base (some (.table entries)) (some (.table others)) := by
  have hours' := (wellFormedOpt_some _).mpr hours
  have htheirs' := (wellFormedOpt_some _).mpr htheirs
  change RecordRule sectionName id conflicts (mergeValue sectionName base
    (some (.table entries)) (some (.table others))).1 base _ _
  have hcase := mergeCase sectionName base (some (.table entries)) (some (.table others))
  generalize mergeValue sectionName base (some (.table entries))
    (some (.table others)) = merged at hcase ⊢
  cases hcase with
  | ours h =>
    rcases h with h | h
    · exact recordRule_of_agree hours' htheirs' h
    · exact recordRule_of_theirs_unchanged hbase hours' htheirs' h
  | theirs _ _ h => exact recordRule_of_ours_unchanged hbase hours' htheirs' h
  | tables =>
    refine ⟨_, rfl, fun field => ?_⟩
    change FieldRule _ _ _ (List.lookup field _)
    rw [lookup_mergeTables _ _ ((wellFormed_table _).mp hours).1
      ((wellFormed_table _).mp htheirs).1, bind_get_eq]
    exact fieldRule_mergeValue (wellFormedOpt_lookup hours field)
      (wellFormedOpt_lookup htheirs field)
  | whole _ hwhole => simp [splits] at hwhole

theorem exists_table_of_named {item : Value} {key : String} (h : item.get key = some (.string id)) :
    ∃ entries, item = .table entries := by
  cases item with
  | table entries => exact ⟨entries, rfl⟩
  | _ => simp [Value.get] at h

theorem recordRule_mergeRecord {key : String} {base ours theirs : Option Value}
    (hbase : wellFormedOpt base) (hours : wellFormedOpt ours) (htheirs : wellFormedOpt theirs)
    (hnamed : ∀ item, ours = some item → item.get key = some (.string id))
    (hnamed' : ∀ other, theirs = some other → other.get key = some (.string id))
    (hreported : ∀ conflict ∈
    (mergeRecord sectionName key base ours theirs).2, conflict ∈ conflicts) :
    RecordRule sectionName id conflicts
      (mergeRecord sectionName key base ours theirs).1 base ours theirs := by
  have hconflict : ∀ item : Value, item.get key = some (.string id) →
      recordConflict sectionName key item ∈ conflicts → Reported conflicts sectionName id := by
    intro item hitem hmem
    exact ⟨_, hmem, rfl, recordId_of_get hitem⟩
  rcases ours with _ | item
  · rcases theirs with _ | other
    · cases base <;> trivial
    · rcases base with _ | baseItem
      · rfl
      · cases hsame : same baseItem other with
        | true => simp [RecordRule, mergeRecord, hsame]
        | false =>
          have hmem := hreported (recordConflict sectionName key other)
            (by simp [mergeRecord, hsame])
          simpa [RecordRule, mergeRecord, hsame] using hconflict other (hnamed' other rfl) hmem
  · rcases theirs with _ | other
    · rcases base with _ | baseItem
      · rfl
      · cases hsame : same baseItem item with
        | true => simp [RecordRule, mergeRecord, hsame]
        | false =>
          have hmem := hreported (recordConflict sectionName key item)
            (by simp [mergeRecord, hsame])
          simpa [RecordRule, mergeRecord, hsame] using hconflict item (hnamed item rfl) hmem
    · obtain ⟨entries, rfl⟩ := exists_table_of_named (hnamed item rfl)
      obtain ⟨others, rfl⟩ := exists_table_of_named (hnamed' other rfl)
      exact recordRule_mergePresent hbase (hours _ rfl) (htheirs _ rfl)

end Branches

section Sections

variable {sectionName : String} {base ours theirs : Option Value}

variable {key : String}

theorem recordKey_eq_id {arrays : List (List Value)} (hkey : recordKey arrays = some key)
    (h : ∀ items ∈ arrays, KeyedBy "id" (records (some (.array items)))) : key = "id" := by
  have hid : (arrays.all fun items => items.all fun item =>
      ((item.get "id").bind Value.asStr).isSome) = true := by
    rw [List.all_eq_true]
    intro items hitems
    rw [List.all_eq_true]
    intro item hitem
    have hrecords := records_of_named ((recordKey_some hkey).2 items hitems)
    obtain ⟨id, hget⟩ := (h items hitems).named item (by rwa [hrecords])
    simp [hget, Value.asStr]
  rw [recordKey] at hkey
  split at hkey
  · cases hkey
  · simpa [List.find?, hid, eq_comm] using hkey

theorem records_base (base : Option Value)
    (h : ∀ item ∈ (base.bind Value.asArray).getD [], ∃ id, item.get "id" = some (.string id)) :
    records base = (base.bind Value.asArray).getD [] := by
  rcases base with _ | value
  · rfl
  · cases value with
    | array items => exact records_of_named h
    | _ => rfl

theorem sectionRule_records {items others : List Value} (hbase : wellFormedOpt base)
    (hours : (Value.array items).wellFormed = true)
    (htheirs : (Value.array others).wellFormed = true) (hkeyed : KeyedBy "id" (records base))
    (hkeyed' : KeyedBy "id" (records (some (.array items))))
    (hkeyed'' : KeyedBy "id" (records (some (.array others))))
    (hkey : recordKey [(base.bind Value.asArray).getD [], items, others] = some key) :
    SectionRule sectionName base (some (.array items)) (some (.array others))
      (some (.array (mergeRecords sectionName key
        ((base.bind Value.asArray).getD []) items others).1),
        (mergeRecords sectionName key ((base.bind Value.asArray).getD []) items others).2) := by
  obtain ⟨-, hnamed⟩ := recordKey_some hkey
  have hbaseArray : records (some (.array ((base.bind Value.asArray).getD []))) = records base := by
    rcases base with _ | value
    · rfl
    · cases value <;> rfl
  obtain rfl : key = "id" := recordKey_eq_id hkey (by
    simpa [hbaseArray] using ⟨hkeyed, hkeyed', hkeyed''⟩)
  have hitems := records_of_named (hnamed items (by simp))
  have hothers := records_of_named (hnamed others (by simp))
  have hbaseItems := records_base base (hnamed _ (by simp))
  rw [hitems] at hkeyed'
  rw [hothers] at hkeyed''
  rw [hbaseItems] at hkeyed
  have hwf := (wellFormed_array items).mp hours
  have hwf' := (wellFormed_array others).mp htheirs
  have hmerged := keyedBy_mergeRecords sectionName
    ((base.bind Value.asArray).getD []) hkeyed' hkeyed'' hwf hwf'
  have hrecords := records_of_named hmerged.named
  refine ⟨by rw [hrecords]; exact hmerged.distinct, fun id => ?_⟩
  have hfind := (findKey_mergeRecords sectionName
    ((base.bind Value.asArray).getD []) hkeyed' hkeyed'' hwf hwf').2 id
  rw [recordAt, recordAt, recordAt, recordAt, hrecords, hitems, hothers,
    hbaseItems, hfind, byId_eq_findKey hkeyed]
  apply recordRule_mergeRecord
  · intro item hitem
    exact wellFormedOpt_baseItems hbase item (findKey_some_imp hitem).1
  · exact fun item hitem => hwf item (findKey_some_imp hitem).1
  · exact fun other hother => hwf' other (findKey_some_imp hother).1
  · exact fun item hitem => (hkeyed'.get_of_findKey hitem).2
  · exact fun other hother => (hkeyed''.get_of_findKey hother).2
  · intro conflict hmem
    rw [mem_conflicts_mergeRecords hkeyed' hkeyed'']
    exact ⟨id, by rwa [byId_eq_findKey hkeyed]⟩

theorem sectionRule_of_not_whole (hbase : wellFormedOpt base) (hours : wellFormedOpt ours)
    (htheirs : wellFormedOpt theirs) (hkeyed : KeyedBy "id" (records base))
    (hkeyed' : KeyedBy "id" (records ours)) (hkeyed'' : KeyedBy "id" (records theirs))
    (h : Differ base ours theirs → splits base ours theirs = true) :
    SectionRule sectionName base ours theirs (mergeValue sectionName base ours theirs) := by
  have hcase := mergeCase sectionName base ours theirs
  generalize mergeValue sectionName base ours theirs = merged at hcase ⊢
  cases hcase with
  | ours hexit =>
    refine ⟨hkeyed'.distinct, fun id => ?_⟩
    have hbaseAt := wellFormed_recordAt id hbase
    have hoursAt := wellFormed_recordAt id hours
    have htheirsAt := wellFormed_recordAt id htheirs
    rcases hexit with hexit | hexit
    · exact recordRule_of_agree hoursAt htheirsAt (sameOpt_recordAt hours htheirs hexit id)
    · exact recordRule_of_theirs_unchanged hbaseAt hoursAt htheirsAt
        (sameOpt_recordAt htheirs hbase hexit id)
  | theirs _ _ hexit =>
    refine ⟨hkeyed''.distinct, fun id => ?_⟩
    exact recordRule_of_ours_unchanged (wellFormed_recordAt _ hbase)
      (wellFormed_recordAt _ hours) (wellFormed_recordAt _ htheirs)
      (sameOpt_recordAt hours hbase hexit id)
  | tables =>
    refine ⟨List.nodup_nil, fun id => ?_⟩
    change RecordRule sectionName id _ none (recordAt base id) none none
    cases recordAt base id <;> trivial
  | records _ hkey =>
    exact sectionRule_records hbase ((wellFormedOpt_some _).mp hours)
      ((wellFormedOpt_some _).mp htheirs) hkeyed hkeyed' hkeyed'' hkey
  | whole hdiffer hwhole =>
    rw [h hdiffer] at hwhole
    cases hwhole

theorem harmlessRecord_iff {id : String} {base ours theirs : Option Value}
    (hbase : wellFormedOpt base) (hours : wellFormedOpt ours) (htheirs : wellFormedOpt theirs) :
    RecordRule sectionName id [plainConflict sectionName] ours base ours theirs ↔
      HarmlessRecord id base ours theirs := by
  rcases ours with _ | item
  · rcases theirs with _ | other
    · cases base <;> simp [RecordRule, HarmlessRecord]
    · rcases base with _ | baseItem
      · simp [RecordRule, HarmlessRecord, sameOpt]
      · cases hsame : same baseItem other <;> simp [RecordRule, HarmlessRecord, sameOpt, hsame]
  · rcases theirs with _ | other
    · rcases base with _ | baseItem
      · simp [RecordRule, HarmlessRecord]
      · cases hsame : same baseItem item <;>
          simp [RecordRule, HarmlessRecord, Reported, plainConflict, hsame, eq_comm]
    · constructor
      · rintro ⟨record, hrecord, hrule⟩ field hitem
        obtain rfl := Option.some.inj hrecord
        by_contra hother
        rw [Bool.not_eq_true] at hother
        have hboth := (hrule field).2 hitem hother
        have hbase' := wellFormedOpt_bind_get hbase field
        have hitem' := wellFormedOpt_get (hours item rfl) field
        have hother' := wellFormedOpt_get (htheirs other rfl) field
        rw [sameOpt_comm hitem' hother'] at hboth
        rw [sameOpt_trans hother' hitem' hbase' hboth hitem] at hother
        cases hother
      · intro h
        refine ⟨item, rfl, fun field => ⟨fun _ _ => ?_, fun hitem hother => ?_⟩⟩
        · exact sameOpt_refl _ (wellFormedOpt_get (hours item rfl) field)
        · rw [h field hitem] at hother
          cases hother

theorem sectionRule_whole_iff (hbase : wellFormedOpt base) (hours : wellFormedOpt ours)
    (htheirs : wellFormedOpt theirs) (hkeyed : KeyedBy "id" (records ours)) :
    SectionRule sectionName base ours theirs
        (ours, [plainConflict sectionName]) ↔ Harmless base ours theirs := by
  constructor
  · intro h id
    exact (harmlessRecord_iff (wellFormed_recordAt _ hbase)
      (wellFormed_recordAt _ hours) (wellFormed_recordAt _ htheirs)).mp (h.rule id)
  · intro h
    refine ⟨hkeyed.distinct, fun id => ?_⟩
    exact (harmlessRecord_iff (wellFormed_recordAt _ hbase)
      (wellFormed_recordAt _ hours) (wellFormed_recordAt _ htheirs)).mpr (h id)

end Sections

/-- The three-way rule holds of a section exactly when it is not merged whole,
or that does no harm; the section's conflicts are among those reported. -/
theorem three_way_rule_iff (base ours theirs : Document)
    (hbase : RecordsById base) (hours : RecordsById ours)
    (htheirs : RecordsById theirs) (key : String) :
    let conflicts := (mergeValue key (base.table.lookup key)
      (ours.table.lookup key) (theirs.table.lookup key)).2
    (∀ conflict ∈ conflicts, conflict ∈ (mergeDocuments base ours theirs).2) ∧
      (SectionRule key (base.table.lookup key) (ours.table.lookup key)
          (theirs.table.lookup key)
          ((mergeDocuments base ours theirs).1.table.lookup key, conflicts) ↔
        (Differ (base.table.lookup key) (ours.table.lookup key) (theirs.table.lookup key) →
          splits (base.table.lookup key) (ours.table.lookup key) (theirs.table.lookup key) = false →
          Harmless (base.table.lookup key) (ours.table.lookup key) (theirs.table.lookup key))) := by
  refine ⟨fun conflict hmem =>
    (mem_conflicts_mergeDocuments base ours theirs conflict).mpr ⟨key, hmem⟩, ?_⟩
  rw [lookup_mergeDocuments, Prod.mk.eta]
  have hbase' := base.wellFormedOpt_lookup key
  have hours' := ours.wellFormedOpt_lookup key
  have htheirs' := theirs.wellFormedOpt_lookup key
  constructor
  · intro h hdiffer hwhole
    rw [mergeValue_whole hdiffer hwhole] at h
    exact (sectionRule_whole_iff hbase' hours' htheirs' (hours key)).mp h
  · intro h
    by_cases hwhole : Differ (base.table.lookup key) (ours.table.lookup key)
        (theirs.table.lookup key) ∧ splits (base.table.lookup key)
          (ours.table.lookup key) (theirs.table.lookup key) = false
    · rw [mergeValue_whole hwhole.1 hwhole.2]
      exact (sectionRule_whole_iff hbase' hours' htheirs' (hours key)).mpr (h hwhole.1 hwhole.2)
    · refine sectionRule_of_not_whole hbase' hours' htheirs' (hbase key)
        (hours key) (htheirs key) fun hdiffer => ?_
      rw [← Bool.not_eq_false]
      exact fun hsplits => hwhole ⟨hdiffer, hsplits⟩

namespace MergeRuleWitness

def host (id name : String) : Value := .table [("id", .string id), ("name", .string name)]

def oneHost : Document := ⟨[("host", .array [host "a" "one"])], by decide⟩

/-- The last host was deleted: the section is not written. -/
def noHost : Document := ⟨[], by decide⟩

def twoHosts : Document := ⟨[("host", .array [host "a" "one", host "b" "two"])], by decide⟩

/-- The host the other side added is lost with the section. -/
theorem added_record_lost :
    RecordsById oneHost ∧ RecordsById noHost ∧ RecordsById twoHosts ∧
      ¬ SectionRule "host" (oneHost.table.lookup "host")
        (noHost.table.lookup "host") (twoHosts.table.lookup "host")
        ((mergeDocuments oneHost noHost twoHosts).1.table.lookup "host",
          (mergeValue "host" (oneHost.table.lookup "host")
            (noHost.table.lookup "host") (twoHosts.table.lookup "host")).2) := by
  refine ⟨by decide, by decide, by decide, fun h => ?_⟩
  have hrule : (none : Option Value) = some (host "b" "two") := h.rule "b"
  cases hrule

def renamed : Document := ⟨[("host", .array [host "a" "uno"])], by decide⟩

theorem records_merged :
    SectionRule "host" (oneHost.table.lookup "host")
      (twoHosts.table.lookup "host") (renamed.table.lookup "host")
      ((mergeDocuments oneHost twoHosts renamed).1.table.lookup "host",
        (mergeValue "host" (oneHost.table.lookup "host")
          (twoHosts.table.lookup "host") (renamed.table.lookup "host")).2) :=
  (three_way_rule_iff oneHost twoHosts renamed (by decide) (by decide)
    (by decide) "host").2.mpr fun _ hwhole => absurd hwhole (by decide)

end MergeRuleWitness

end Opensesh
