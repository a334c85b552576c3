/-
The three-way merge of settings files: tables key by key, arrays of records by
the key that tells their records apart, anything else whole.
-/
import Opensesh.Keyed
import Opensesh.Value

namespace Opensesh

/-- Something changed on both sides in different ways; this side's value was
kept.  `id` is empty for a plain value. -/
structure Conflict where
  sectionName : String
  id : String
  name : String

/-- The key that identifies an array's records (`id`, else `path`), when every
element of all the given arrays has it as a string. -/
def recordKey (arrays : List (List Value)) : Option String :=
  if arrays.all List.isEmpty then none
  else
    ["id", "path"].find? fun key =>
      arrays.all fun items => items.all fun item => ((item.get key).bind Value.asStr).isSome

def recordId (item : Value) (key : String) : String := ((item.get key).bind Value.asStr).getD ""

def recordName (item : Value) : String := ((item.get "name").bind Value.asStr).getD ""

def plainConflict (sectionName : String) : Conflict := ⟨sectionName, "", ""⟩

def recordConflict (sectionName key : String) (item : Value) : Conflict :=
  ⟨sectionName, recordId item key, recordName item⟩

/-- The map from keys to records: the last of several records with one key
stays. -/
def byId (items : List Value) (key id : String) : Option Value :=
  findKey (recordId · key) id items.reverse

/-- The section a conflict below `key` is reported in: the top-level key. -/
def place (sectionName key : String) : String :=
  if sectionName.isEmpty then key else sectionName

/-- `merge_value` where this side has nothing. -/
def mergeMissing (sectionName : String) (base theirs : Option Value) :
    Option Value × List Conflict :=
  if sameOpt none theirs || sameOpt theirs base then (none, [])
  else if sameOpt none base then (theirs, [])
  else (none, [plainConflict sectionName])

/-- The second loop of `merge_tables`: the keys only the other side has. -/
def addTheirs (sectionName : String) (base : Option Table) (ours : Table) :
    Table → Table → Table × List Conflict
  | [], out => (out, [])
  | (key, value) :: rest, out =>
    if (ours.lookup key).isSome then addTheirs sectionName base ours rest out
    else
      let merged := mergeMissing (place sectionName key)
        (base.bind fun entries => entries.lookup key) (some value)
      let next := addTheirs sectionName base ours rest
        (match merged.1 with
          | some result => insertEntry key result out
          | none => out)
      (next.1, merged.2 ++ next.2)

/-- Where a record of the other side goes: after the record it follows there,
else first.  `before` lists the records before it, nearest first. -/
def insertPosition (key : String) (before out : List Value) : Nat :=
  match before.findSome? fun earlier =>
      out.findIdx? fun placed => decide (recordId placed key = recordId earlier key) with
  | some position => position + 1
  | none => 0

/-- The second loop of `merge_records`: the records only the other side has. -/
def insertTheirs (sectionName key : String) (base ours : List Value) :
    List Value → List Value → List Value → List Value × List Conflict
  | _, [], out => (out, [])
  | before, item :: rest, out =>
    let next := insertTheirs sectionName key base ours (item :: before) rest
    let id := recordId item key
    if id ∈ ours.map (recordId · key) then next out
    else
      match byId base key id with
      | some baseItem =>
        -- Removed here: gone when unchanged there, kept when changed.
        if same baseItem item then next out
        else
          let after := next
            (out.insertIdx (insertPosition key before out) item)
          (after.1, recordConflict sectionName key item :: after.2)
      | none => next (out.insertIdx (insertPosition key before out) item)

mutual

/-- `merge_value` where this side has a value. -/
def mergePresent (sectionName : String) (base : Option Value) :
    Value → Option Value → Option Value × List Conflict
  | ours, theirs =>
    if sameOpt (some ours) theirs || sameOpt theirs base then
      (some ours, [])
    else if sameOpt (some ours) base then (theirs, [])
    else
      match ours, theirs with
      | .table entries, some (.table others) =>
        let baseTable := base.bind Value.asTable
        let first := mergeOurs sectionName baseTable others entries []
        let second := addTheirs sectionName baseTable entries others first.1
        (some (.table second.1), first.2 ++ second.2)
      | .array items, some (.array others) =>
        let baseItems := (base.bind Value.asArray).getD []
        match recordKey [baseItems, items, others] with
        | some key =>
          let first := mergeItems sectionName key baseItems others items
          let second := insertTheirs sectionName key baseItems items [] others first.1
          (some (.array second.1), first.2 ++ second.2)
        | none => (some (.array items), [plainConflict sectionName])
      | kept, _ => (some kept, [plainConflict sectionName])

/-- The first loop of `merge_tables`: the keys this side has. -/
def mergeOurs (sectionName : String) (base : Option Table) (theirs : Table) :
    Table → Table → Table × List Conflict
  | [], out => (out, [])
  | (key, value) :: rest, out =>
    let merged := mergePresent (place sectionName key)
      (base.bind fun entries => entries.lookup key) value (theirs.lookup key)
    let next := mergeOurs sectionName base theirs rest
      (match merged.1 with
        | some result => insertEntry key result out
        | none => out)
    (next.1, merged.2 ++ next.2)

/-- The first loop of `merge_records`: the records this side has. -/
def mergeItems (sectionName key : String) (base theirs : List Value) :
    List Value → List Value × List Conflict
  | [] => ([], [])
  | item :: rest =>
    let id := recordId item key
    let baseItem := byId base key id
    let next := mergeItems sectionName key base theirs rest
    match byId theirs key id, baseItem with
    | some theirItem, _ =>
      match mergePresent sectionName baseItem item (some theirItem) with
      | (some merged, nested) =>
        (merged :: next.1,
          if nested.isEmpty then next.2
          else recordConflict sectionName key item :: next.2)
      | (none, _) => next
    -- Added here.
    | none, none => (item :: next.1, next.2)
    -- Removed there: gone when unchanged here, kept when changed.
    | none, some baseItem =>
      if same baseItem item then next
      else (item :: next.1, recordConflict sectionName key item :: next.2)

end

example : mergePresent "" none (.boolean true) none = (some (.boolean true), []) ∧
    mergeOurs "" none [] [] [] = addTheirs "" none [] [] [] ∧
      (mergeItems "" "" [] [] [], 0) = (insertTheirs "" "" [] [] [] [] [], 0) := by
  simp [mergePresent, sameOpt, mergeOurs, addTheirs, mergeItems, insertTheirs]

def mergeValue (sectionName : String) (base ours theirs : Option Value) :
    Option Value × List Conflict :=
  match ours with
  | some value => mergePresent sectionName base value theirs
  | none => mergeMissing sectionName base theirs

def mergeTables (sectionName : String) (base : Option Table)
    (ours theirs : Table) : Table × List Conflict :=
  let first := mergeOurs sectionName base theirs ours []
  let second := addTheirs sectionName base ours theirs first.1
  (second.1, first.2 ++ second.2)

def mergeRecords (sectionName key : String) (base ours theirs : List Value) :
    List Value × List Conflict :=
  let first := mergeItems sectionName key base theirs ours
  let second := insertTheirs sectionName key base ours [] theirs first.1
  (second.1, first.2 ++ second.2)

theorem mergeValue_eq (sectionName : String) (base ours theirs : Option Value) :
    mergeValue sectionName base ours theirs =
      if sameOpt ours theirs || sameOpt theirs base then (ours, [])
      else if sameOpt ours base then (theirs, [])
      else
        match ours, theirs with
        | some (.table entries), some (.table others) =>
          let merged := mergeTables sectionName (base.bind Value.asTable) entries others
          (some (.table merged.1), merged.2)
        | some (.array items), some (.array others) =>
          let baseItems := (base.bind Value.asArray).getD []
          match recordKey [baseItems, items, others] with
          | some key =>
            let merged := mergeRecords sectionName key baseItems items others
            (some (.array merged.1), merged.2)
          | none => (ours, [plainConflict sectionName])
        | _, _ => (ours, [plainConflict sectionName]) := by
  cases ours with
  | none =>
    cases theirs <;> simp [mergeValue, mergeMissing]
  | some value =>
    rcases theirs with _ | other
    · cases value <;> rfl
    · cases value <;> cases other <;> rfl

/-- No two of the three versions are the same. -/
structure Differ (base ours theirs : Option Value) : Prop where
  sides : sameOpt ours theirs = false
  theirs_base : sameOpt theirs base = false
  ours_base : sameOpt ours base = false

/-- Whether two versions are merged inside: two tables, or two arrays of
records with a common key. -/
def splits (base : Option Value) : Option Value → Option Value → Bool
  | some (.table _), some (.table _) => true
  | some (.array items), some (.array others) =>
    (recordKey [(base.bind Value.asArray).getD [], items, others]).isSome
  | _, _ => false

section Branches

variable {sectionName : String} {base : Option Value}

theorem mergeValue_tables {entries others : Table}
    (h : Differ base (some (.table entries)) (some (.table others))) :
    mergeValue sectionName base (some (.table entries)) (some (.table others)) =
      (some (.table (mergeTables sectionName (base.bind Value.asTable)
        entries others).1),
        (mergeTables sectionName (base.bind Value.asTable) entries others).2) := by
  rw [mergeValue_eq, h.sides, h.theirs_base, h.ours_base]
  rfl

theorem mergeValue_records {items others : List Value} {key : String}
    (h : Differ base (some (.array items)) (some (.array others)))
    (hkey : recordKey [(base.bind Value.asArray).getD [], items, others] = some key) :
    mergeValue sectionName base (some (.array items)) (some (.array others)) =
      (some (.array (mergeRecords sectionName key
        ((base.bind Value.asArray).getD []) items others).1),
        (mergeRecords sectionName key ((base.bind Value.asArray).getD []) items others).2) := by
  rw [mergeValue_eq, h.sides, h.theirs_base, h.ours_base]
  simp [hkey]

theorem mergeValue_whole {ours theirs : Option Value}
    (h : Differ base ours theirs) (hwhole : splits base ours theirs = false) :
    mergeValue sectionName base ours theirs = (ours, [plainConflict sectionName]) := by
  rw [mergeValue_eq, h.sides, h.theirs_base, h.ours_base]
  simp only [Bool.or_self, Bool.false_eq_true, ↓reduceIte]
  split
  · simp [splits] at hwhole
  · have hkey := hwhole
    rw [splits, Option.isSome_eq_false_iff, Option.isNone_iff_eq_none] at hkey
    simp only [hkey]
  · rfl

end Branches

theorem splits_cases {base ours theirs : Option Value} (h : splits base ours theirs = true) :
    (∃ entries others, ours = some (.table entries) ∧ theirs = some (.table others)) ∨
      ∃ items others key, ours = some (.array items) ∧
        theirs = some (.array others) ∧
        recordKey [(base.bind Value.asArray).getD [], items, others] = some key := by
  rcases ours with _ | ours
  · simp [splits] at h
  · rcases theirs with _ | theirs
    · cases ours <;> simp [splits] at h
    · cases ours <;> cases theirs
      case table.table entries others =>
        exact Or.inl ⟨entries, others, rfl, rfl⟩
      case array.array items others =>
        obtain ⟨key, hkey⟩ := Option.isSome_iff_exists.mp h
        exact Or.inr ⟨items, others, key, rfl, rfl, hkey⟩
      all_goals simp [splits] at h

/-- The branches of `merge_value`, with what each one knows and gives. -/
inductive MergeCase (sectionName : String) (base : Option Value) :
    Option Value → Option Value → Option Value × List Conflict → Prop
  | ours {ours theirs : Option Value}
      (h : sameOpt ours theirs = true ∨ sameOpt theirs base = true) :
      MergeCase sectionName base ours theirs (ours, [])
  | theirs {ours theirs : Option Value} (hsides : sameOpt ours theirs = false)
      (htheirs : sameOpt theirs base = false) (h : sameOpt ours base = true) :
      MergeCase sectionName base ours theirs (theirs, [])
  | tables {entries others : Table}
      (h : Differ base (some (.table entries)) (some (.table others))) :
      MergeCase sectionName base (some (.table entries)) (some (.table others))
        (some (.table (mergeTables sectionName (base.bind Value.asTable)
          entries others).1),
          (mergeTables sectionName (base.bind Value.asTable) entries others).2)
  | records {items others : List Value} {key : String}
      (h : Differ base (some (.array items)) (some (.array others)))
      (hkey : recordKey [(base.bind Value.asArray).getD [], items, others] = some key) :
      MergeCase sectionName base (some (.array items)) (some (.array others))
        (some (.array (mergeRecords sectionName key
          ((base.bind Value.asArray).getD []) items others).1),
          (mergeRecords sectionName key ((base.bind Value.asArray).getD []) items others).2)
  | whole {ours theirs : Option Value} (h : Differ base ours theirs)
      (hwhole : splits base ours theirs = false) :
      MergeCase sectionName base ours theirs (ours, [plainConflict sectionName])

theorem mergeCase (sectionName : String) (base ours theirs : Option Value) :
    MergeCase sectionName base ours theirs (mergeValue sectionName base ours theirs) := by
  by_cases hexit : sameOpt ours theirs = true ∨ sameOpt theirs base = true
  · rw [mergeValue_eq, if_pos (by simpa using hexit)]
    exact .ours hexit
  · simp only [not_or, Bool.not_eq_true] at hexit
    by_cases hbase : sameOpt ours base = true
    · rw [mergeValue_eq, if_neg (by simp [hexit]), if_pos hbase]
      exact .theirs hexit.1 hexit.2 hbase
    · have hdiffer : Differ base ours theirs := ⟨hexit.1, hexit.2, by simpa using hbase⟩
      cases hsplits : splits base ours theirs with
      | false =>
        rw [mergeValue_whole hdiffer hsplits]
        exact .whole hdiffer hsplits
      | true =>
        rcases splits_cases hsplits with
          ⟨entries, others, rfl, rfl⟩ | ⟨items, others, key, rfl, rfl, hkey⟩
        · rw [mergeValue_tables hdiffer]
          exact .tables hdiffer
        · rw [mergeValue_records hdiffer hkey]
          exact .records hdiffer hkey

end Opensesh
