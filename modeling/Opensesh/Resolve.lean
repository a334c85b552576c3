/-
What the loops of the differences and of `resolve` compute: the differences of
one section, id by id, and what a run of turns over a section makes of it.
-/
import Opensesh.Differences
import Mathlib.Data.List.Induction

namespace Opensesh

open List Option

/-- What a turn of the loop does to its own section. -/
def resolveSection (here there : Option Value) (wanted : Side) (id : String)
    (value : Option Value) : Option Value :=
  if id = "" then
    match wanted with
    | .here => value
    | .there => there
  else
    let key := itemKey here there id
    match value.getD (.array []) with
    | .array items =>
      some (.array (editItems key id wanted (findKey (recordId · key) id (itemsOf there)) items))
    | _ => value

theorem lookup_applyDifference (here there : Table) (choices : Choices)
    (out : Table) (difference : Difference) (key : String) :
    (applyDifference here there choices out difference).lookup key =
      if key = difference.sectionName then
        resolveSection (here.lookup key) (there.lookup key)
          (choices.side difference) difference.id (out.lookup key)
      else out.lookup key := by
  unfold applyDifference resolveSection
  by_cases hkey : key = difference.sectionName
  · subst key
    rw [if_pos rfl]
    split
    · cases choices.side difference with
      | here => rfl
      | there =>
        cases hthere : there.lookup difference.sectionName <;> simp [hthere]
    · generalize hvalue : (out.lookup difference.sectionName).getD (.array []) = value
      cases value with
      | array items => simp [hvalue]
      | _ => simp [hvalue]
  · rw [if_neg hkey]
    split
    · cases choices.side difference with
      | here => rfl
      | there =>
        cases hthere : there.lookup difference.sectionName <;> simp [hthere, hkey]
    · simp only
      split
      · simp [hkey]
      · rfl

variable {out here there : Table}

theorem ascending_applyDifference (here there : Table) (choices : Choices) (h : Ascending out)
    (difference : Difference) : Ascending (applyDifference here there choices out difference) := by
  rw [applyDifference]
  split
  · split
    · exact h
    · split
      · exact ascending_insertEntry _ _ h
      · exact ascending_removeEntry _ h
  · simp only
    split
    · exact ascending_insertEntry _ _ h
    · exact h

/-- The turns of one section: the side and the id of each. -/
def runSection (here there : Option Value) (turns : List (Side × String))
    (value : Option Value) : Option Value :=
  turns.foldl (fun value turn => resolveSection here there turn.1 turn.2 value) value

theorem lookup_foldl_applyDifference (here there : Table) (choices : Choices)
    (ds : List Difference) (out : Table) (key : String) :
    (ds.foldl (applyDifference here there choices) out).lookup key =
      runSection (here.lookup key) (there.lookup key)
        ((ds.filter fun d => d.sectionName = key).map fun d =>
          (choices.side d, d.id)) (out.lookup key) := by
  induction ds generalizing out with
  | nil => rfl
  | cons d rest ih =>
    rw [foldl_cons, ih, lookup_applyDifference]
    by_cases hkey : key = d.sectionName
    · simp [hkey, runSection]
    · simp [hkey, Ne.symm hkey, runSection]

theorem ascending_foldl_applyDifference (here there : Table) (choices : Choices)
    (ds : List Difference) (h : Ascending out) :
    Ascending (ds.foldl (applyDifference here there choices) out) := by
  induction ds generalizing out with
  | nil => exact h
  | cons d rest ih => exact ih (ascending_applyDifference _ _ _ h d)

theorem ascending_resolve (here : Document) (there : Table)
    (choices : Choices) : Ascending (resolve here.table there choices) :=
  ascending_foldl_applyDifference _ _ _ _ here.ascending

theorem sectionName_of_mem {sectionName : String} {ours theirs : Option Value}
    {d : Difference} (h : d ∈ sectionDifferences sectionName ours theirs) :
    d.sectionName = sectionName := by
  rw [sectionDifferences] at h
  split at h
  · cases h
  · split at h
    · rw [mem_singleton.mp h]
    · rcases mem_append.mp h with h | h
      · obtain ⟨item, -, hd⟩ := mem_filterMap.mp h
        simp only [hereDifference] at hd
        split at hd
        · cases hd
          rfl
        · split at hd <;> cases hd
          rfl
      · obtain ⟨item, -, hd⟩ := mem_filterMap.mp h
        simp only [thereDifference] at hd
        split at hd <;> cases hd
        rfl

theorem sectionDifferences_none (sectionName : String) :
    sectionDifferences sectionName none none = [] := rfl

theorem mem_differences_keys (hhere : Ascending here) (hthere : Ascending there) :
    (here.map Prod.fst ++ (there.map Prod.fst).filter fun key => (here.lookup key).isNone).Nodup ∧
      ∀ key, key ∉ here.map Prod.fst ++
          ((there.map Prod.fst).filter fun key => (here.lookup key).isNone) →
        here.lookup key = none ∧ there.lookup key = none := by
  constructor
  · refine nodup_append'.mpr ⟨hhere.nodup, hthere.nodup.filter _, ?_⟩
    intro key hhere hthere
    have hnone := (mem_filter.mp hthere).2
    rw [isNone_iff_eq_none, lookup_eq_none_iff_not_mem] at hnone
    exact hnone hhere
  · intro key hkey
    rw [mem_append, not_or] at hkey
    have hhere := lookup_eq_none_iff_not_mem.mpr hkey.1
    refine ⟨hhere, lookup_eq_none_iff_not_mem.mpr fun hmem => hkey.2 ?_⟩
    exact mem_filter.mpr ⟨hmem, by simp [hhere]⟩

theorem filter_flatMap_sections {keys : List String} (hkeys : keys.Nodup)
    {of : String → List Difference}
    (hof : ∀ key, ∀ d ∈ of key, d.sectionName = key) (key : String) :
    (keys.flatMap of).filter (fun d => d.sectionName = key) =
      if key ∈ keys then of key else [] := by
  induction keys with
  | nil => rfl
  | cons head rest ih =>
    obtain ⟨hnot, hrest⟩ := nodup_cons.mp hkeys
    rw [flatMap_cons, filter_append, ih hrest]
    by_cases hkey : key = head
    · subst head
      have hall : (of key).filter (fun d => d.sectionName = key) = of key :=
        List.filter_eq_self.mpr fun d hd => by simp [hof key d hd]
      simp [hall, hnot]
    · have hnone : (of head).filter (fun d => d.sectionName = key) = [] :=
        filter_eq_nil_iff.mpr fun d hd => by
          simp [hof head d hd, Ne.symm hkey]
      simp [hnone, hkey]

theorem filter_differences (hhere : Ascending here) (hthere : Ascending there) (key : String) :
    (differences here there).filter (fun d => d.sectionName = key) =
      sectionDifferences key (here.lookup key) (there.lookup key) := by
  obtain ⟨hnodup, hmissing⟩ := mem_differences_keys hhere hthere
  rw [differences, filter_flatMap_sections hnodup fun key d hd => sectionName_of_mem hd]
  split
  · rfl
  · rename_i hkey
    obtain ⟨hhere, hthere⟩ := hmissing key hkey
    rw [hhere, hthere, sectionDifferences_none]

theorem mem_differences_iff (hhere : Ascending here) (hthere : Ascending there) (d : Difference) :
    d ∈ differences here there ↔
      d ∈ sectionDifferences d.sectionName (here.lookup d.sectionName)
        (there.lookup d.sectionName) := by
  rw [← filter_differences hhere hthere, mem_filter]
  simp

theorem differences_eq_nil_iff (hhere : Ascending here) (hthere : Ascending there) :
    differences here there = [] ↔
      ∀ key, sectionDifferences key (here.lookup key) (there.lookup key) = [] := by
  constructor
  · intro h key
    rw [← filter_differences hhere hthere, h]
    rfl
  · intro h
    rw [eq_nil_iff_forall_not_mem]
    intro d hd
    rw [mem_differences_iff hhere hthere, h] at hd
    cases hd

theorem lookup_resolve (here there : Document) (choices : Choices)
    (key : String) :
    (resolve here.table there.table choices).lookup key =
      runSection (here.table.lookup key) (there.table.lookup key)
        ((sectionDifferences key (here.table.lookup key)
          (there.table.lookup key)).map fun d => (choices.side d, d.id))
        (here.table.lookup key) := by
  rw [resolve, lookup_foldl_applyDifference, filter_differences here.ascending there.ascending]

section Runs

variable {here there : Option Value}

theorem editItems_here (key id : String) (theirItem : Option Value)
    (items : List Value) : editItems key id .here theirItem items = items := by
  simp [editItems]

theorem editItems_there (key id : String) (theirItem : Option Value) (items : List Value) :
    editItems key id .there theirItem items = replaceKey (recordId · key) id theirItem items := by
  unfold editItems replaceKey
  cases List.findIdx? (fun item => decide (recordId item key = id)) items <;>
    cases theirItem <;> rfl

/-- Wanting this side leaves a section that is there as it is. -/
theorem resolveSection_here (id : String) (value : Value) :
    resolveSection here there .here id (some value) = some value := by
  rw [resolveSection]
  split
  · rfl
  · cases value <;> simp [editItems_here]

variable {turns : List (Side × String)} {key : String} {items others : List Value}
  {ids : List String} {value : Value}

theorem runSection_here (hturns : ∀ turn ∈ turns, turn.1 = .here) (value : Value) :
    runSection here there turns (some value) = some value := by
  induction turns with
  | nil => rfl
  | cons turn rest ih =>
    obtain ⟨wanted, id⟩ := turn
    obtain rfl : wanted = .here := hturns _ mem_cons_self
    change runSection here there rest (resolveSection here there .here id (some value)) = _
    rw [resolveSection_here]
    exact ih fun turn hturn => hturns turn (mem_cons_of_mem _ hturn)

theorem runSection_here_none (hturns : ∀ turn ∈ turns, turn.1 = .here) :
    runSection here there turns none = none ↔ ∀ turn ∈ turns, turn.2 = "" := by
  induction turns with
  | nil => simp [runSection]
  | cons turn rest ih =>
    obtain ⟨wanted, id⟩ := turn
    obtain rfl : wanted = .here := hturns _ mem_cons_self
    have hrest : ∀ turn ∈ rest, turn.1 = .here := fun turn hturn =>
      hturns turn (mem_cons_of_mem _ hturn)
    change runSection here there rest (resolveSection here there .here id none) = none ↔ _
    by_cases hid : id = ""
    · simp [resolveSection, hid, ih hrest]
    · simp [resolveSection, hid, runSection_here hrest]

theorem keyedBy_replaceKey {id : String} {item : Option Value} (h : KeyedBy key items)
    (hitem : ∀ x, item = some x → x.get key = some (.string id)) :
    KeyedBy key (replaceKey (recordId · key) id item items) := by
  refine ⟨fun x hx => ?_, nodup_replaceKey (fun x hx => recordId_of_get (hitem x hx)) h.distinct⟩
  rcases mem_replaceKey hx with hx | hx
  · exact ⟨id, hitem x hx⟩
  · exact h.named x hx

/-- Wanting the other side of records: each turn brings that side's record of
its id, and a turn without an id brings them all. -/
theorem runSection_there (hthere : there = some (.array others)) (hothers : KeyedBy key others)
    (hids : ∀ id ∈ ids, id ≠ "" → itemKey here there id = key) (hitems : KeyedBy key items)
    {value : Option Value} (hvalue : value.getD (.array []) = .array items) :
    ∃ merged, KeyedBy key merged ∧
      (runSection here there (ids.map fun id => (.there, id)) value).getD
        (.array []) = .array merged ∧
      ∀ id, findKey (recordId · key) id merged =
        if id ∈ ids ∨ "" ∈ ids then findKey (recordId · key) id others
        else findKey (recordId · key) id items := by
  induction ids generalizing items value with
  | nil => exact ⟨items, hitems, hvalue, by simp⟩
  | cons id rest ih =>
    have hrest : ∀ id ∈ rest, id ≠ "" → itemKey here there id = key :=
      fun id hid => hids id (mem_cons_of_mem _ hid)
    by_cases hid : id = ""
    · have hstep : resolveSection here there .there id value = there := by
        simp [resolveSection, hid]
      have hnext : (resolveSection here there .there id value).getD
          (.array []) = .array others := by rw [hstep, hthere]; rfl
      obtain ⟨merged, hmerged, hrun, hfind⟩ := ih hrest hothers hnext
      refine ⟨merged, hmerged, hrun, fun other => ?_⟩
      rw [hfind]
      simp [hid]
    · have hitem : ∀ x, findKey (recordId · key) id others = some x →
          x.get key = some (.string id) := fun x hx =>
        (hothers.get_of_findKey hx).2
      have hnext : (resolveSection here there .there id value).getD
          (.array []) = .array (replaceKey (recordId · key) id
            (findKey (recordId · key) id others) items) := by
        have hkey := hids id mem_cons_self hid
        rw [hthere] at hkey
        simp [resolveSection, hid, hvalue, editItems_there, hkey, hthere, itemsOf, Value.asArray]
      obtain ⟨merged, hmerged, hrun, hfind⟩ := ih hrest (keyedBy_replaceKey hitems hitem) hnext
      refine ⟨merged, hmerged, hrun, fun other => ?_⟩
      rw [hfind, findKey_replaceKey (fun x hx => recordId_of_get (hitem x hx)) hitems.distinct]
      by_cases hother : id = other
      · subst other
        simp
      · have hne : "" ≠ id := Ne.symm hid
        simp [hother, Ne.symm hother, hne]

theorem runSection_isSome (hthere : there.isSome) {value : Option Value}
    (h : value.isSome ∨ ids ≠ []) :
    (runSection here there (ids.map fun id => (.there, id)) value).isSome := by
  induction ids generalizing value with
  | nil => simpa [runSection] using h
  | cons id rest ih =>
    have hstep : (resolveSection here there .there id value).isSome := by
      rw [resolveSection]
      split
      · exact hthere
      · rcases value with _ | value
        · rfl
        · cases value <;> rfl
    exact ih (Or.inl hstep)

theorem runSection_append (turns rest : List (Side × String)) (value : Option Value) :
    runSection here there (turns ++ rest) value =
      runSection here there rest (runSection here there turns value) :=
  foldl_append

/-- Wanting a side that has nothing: the section is gone after a turn without
an id, and is an array after a turn with one. -/
theorem runSection_there_none (here : Option Value) (ids : List String)
    (items : List Value) :
    ∃ rest, runSection here none (ids.map fun id => (.there, id)) (some (.array items)) =
      if ids.getLast? = some "" then none else some (.array rest) := by
  induction ids using List.reverseRecOn with
  | nil => exact ⟨items, rfl⟩
  | append_singleton ids id ih =>
    obtain ⟨rest, hrun⟩ := ih
    rw [map_append, runSection_append, hrun, List.getLast?_concat]
    by_cases hid : id = ""
    · exact ⟨[], by simp [runSection, resolveSection, hid]⟩
    · by_cases hlast : ids.getLast? = some "" <;> simp [runSection, resolveSection, hid, hlast]

theorem runSection_there_plain (here : Option Value) (hvalue : value.asArray = none)
    (ids : List String) (items : List Value) :
    ∃ rest, runSection here (some value) (ids.map fun id => (.there, id)) (some (.array items)) =
      if "" ∈ ids then some value else some (.array rest) := by
  induction ids using List.reverseRecOn with
  | nil => exact ⟨items, rfl⟩
  | append_singleton ids id ih =>
    obtain ⟨rest, hrun⟩ := ih
    rw [map_append, runSection_append, hrun]
    by_cases hid : id = ""
    · exact ⟨[], by simp [runSection, resolveSection, hid]⟩
    · have hne : "" ≠ id := Ne.symm hid
      by_cases hmem : "" ∈ ids
      · refine ⟨[], ?_⟩
        cases value <;> simp_all [runSection, resolveSection, Value.asArray]
      · simp [runSection, resolveSection, hid, hmem, hne]

theorem runSection_plain (hvalue : value.asArray = none) (hturns : ∀ turn ∈ turns, turn.2 ≠ "") :
    runSection here there turns (some value) = some value := by
  induction turns with
  | nil => rfl
  | cons turn rest ih =>
    have hid := hturns turn mem_cons_self
    have hstep : resolveSection here there turn.1 turn.2 (some value) = some value := by
      cases value <;> simp_all [resolveSection, Value.asArray]
    change runSection here there rest (resolveSection here there turn.1 turn.2 (some value)) = _
    rw [hstep]
    exact ih fun turn hturn => hturns turn (mem_cons_of_mem _ hturn)

/-- Wanting the other side's records over a plain value: a turn without an id
brings them all. -/
theorem runSection_there_over_plain (hvalue : value.asArray = none)
    (hthere : there = some (.array others)) (hothers : KeyedBy key others)
    (hids : ∀ id ∈ ids, id ≠ "" → itemKey here there id = key) (hmem : "" ∈ ids) :
    ∃ merged, KeyedBy key merged ∧
      (runSection here there (ids.map fun id => (.there, id))
        (some value)).getD (.array []) = .array merged ∧
      ∀ id, findKey (recordId · key) id merged = findKey (recordId · key) id others := by
  induction ids with
  | nil => simp at hmem
  | cons id rest ih =>
    have hrest : ∀ id ∈ rest, id ≠ "" → itemKey here there id = key :=
      fun id hid => hids id (mem_cons_of_mem _ hid)
    by_cases hid : id = ""
    · have hstep : resolveSection here there .there id (some value) =
          there := by
        simp [resolveSection, hid]
      have hnext : (resolveSection here there .there id (some value)).getD
          (.array []) = .array others := by rw [hstep, hthere]; rfl
      obtain ⟨merged, hmerged, hrun, hfind⟩ := runSection_there hthere hothers hrest hothers hnext
      exact ⟨merged, hmerged, hrun, fun id => by rw [hfind, ite_self]⟩
    · have hstep : resolveSection here there .there id (some value) = some value := by
        cases value <;> simp_all [resolveSection, Value.asArray]
      obtain ⟨merged, hmerged, hrun, hfind⟩ := ih hrest
        ((mem_cons.mp hmem).resolve_left (Ne.symm hid))
      refine ⟨merged, hmerged, ?_, hfind⟩
      rw [← hrun, map_cons, ← singleton_append, runSection_append]
      exact congrArg (fun v => (runSection here there _ v).getD (.array [])) hstep

end Runs

/-- A missing section, an array, or another value. -/
inductive Shape : Option Value → Prop
  | missing : Shape none
  | array (items : List Value) : Shape (some (.array items))
  | plain {value : Value} (h : value.asArray = none) : Shape (some value)

theorem shape (value : Option Value) : Shape value := by
  rcases value with _ | value
  · exact .missing
  · cases value <;> first | exact .array _ | exact .plain rfl

variable {value : Option Value}

theorem sameOpt_array_plain (items : List Value) (h : value.bind Value.asArray = none) :
    sameOpt (some (.array items)) value = false ∧ sameOpt value (some (.array items)) = false := by
  rcases value with _ | value
  · exact ⟨rfl, rfl⟩
  · cases value <;> simp_all [sameOpt, same, Value.asArray]

theorem recordKey_ne_nil {items : List Value} {key : String}
    (h : recordKey [items] = some key) : items ≠ [] := by
  rintro rfl
  simp [recordKey] at h

@[simp] theorem itemsOf_array (items : List Value) : itemsOf (some (.array items)) = items := rfl

theorem itemsOf_eq_nil (h : value.bind Value.asArray = none) : itemsOf value = [] := by
  rw [itemsOf, h]
  rfl

/-- An array against something else is compared by its own key. -/
theorem differenceKey_array_plain (items : List Value) (h : value.bind Value.asArray = none) :
    differenceKey (some (.array items)) value = recordKey [items] ∧
      differenceKey value (some (.array items)) = recordKey [items] := by
  rw [differenceKey, differenceKey, h]
  exact ⟨rfl, rfl⟩

section Sections

variable {sectionName key : String} {here there : Option Value}

theorem sectionDifferences_plain (hdiffer : sameOpt here there = false)
    (hkey : differenceKey here there = none) :
    sectionDifferences sectionName here there =
      [⟨sectionName, "", "", plainChange here there⟩] := by
  simp [sectionDifferences, hdiffer, hkey]

theorem sectionDifferences_records (hdiffer : sameOpt here there = false)
    (hkey : differenceKey here there = some key) :
    sectionDifferences sectionName here there =
      (itemsOf here).filterMap (hereDifference sectionName key (itemsOf there)) ++
        (itemsOf there).filterMap (thereDifference sectionName key (itemsOf here)) := by
  simp [sectionDifferences, hdiffer, hkey]

theorem hereDifference_nil (item : Value) :
    hereDifference sectionName key [] item =
      some ⟨sectionName, recordId item key, recordName item, .onlyHere⟩ := rfl

theorem thereDifference_nil (item : Value) :
    thereDifference sectionName key [] item =
      some ⟨sectionName, recordId item key, recordName item, .onlyThere⟩ := rfl

/-- An array and something else always differ. -/
theorem sectionDifferences_array_ne (sectionName : String) (items : List Value)
    {value : Option Value} (h : value.bind Value.asArray = none) :
    sectionDifferences sectionName (some (.array items)) value ≠ [] ∧
      sectionDifferences sectionName value (some (.array items)) ≠ [] := by
  obtain ⟨hleft, hright⟩ := sameOpt_array_plain items h
  have hkeys := differenceKey_array_plain items h
  cases hkey : recordKey [items] with
  | none =>
    rw [hkey] at hkeys
    rw [sectionDifferences_plain hleft hkeys.1, sectionDifferences_plain hright hkeys.2]
    simp
  | some key =>
    rw [hkey] at hkeys
    rw [sectionDifferences_records hleft hkeys.1,
      sectionDifferences_records hright hkeys.2, itemsOf_eq_nil h]
    obtain ⟨head, rest, rfl⟩ := exists_cons_of_ne_nil (recordKey_ne_nil hkey)
    simp [hereDifference_nil, thereDifference_nil]

end Sections

theorem differenceKey_some {here there : Option Value} {key : String}
    (h : differenceKey here there = some key) :
    (key = "id" ∨ key = "path") ∧
      (∀ item ∈ itemsOf here, ∃ id, item.get key = some (.string id)) ∧
      ∀ item ∈ itemsOf there, ∃ id, item.get key = some (.string id) := by
  rw [differenceKey] at h
  rw [itemsOf, itemsOf]
  split at h <;> rename_i hhere hthere <;> rw [hhere, hthere]
  · obtain ⟨hkey, hnamed⟩ := recordKey_some h
    exact ⟨hkey, hnamed _ (by simp), hnamed _ (by simp)⟩
  · obtain ⟨hkey, hnamed⟩ := recordKey_some h
    exact ⟨hkey, hnamed _ (by simp), by simp⟩
  · obtain ⟨hkey, hnamed⟩ := recordKey_some h
    exact ⟨hkey, by simp, hnamed _ (by simp)⟩
  · cases h

section Records

variable {sectionName key : String} {items others : List Value}

theorem sectionDifferences_eq_nil (hkey : key = "id" ∨ key = "path") (hitems : KeyedBy key items)
    (hothers : KeyedBy key others) (hwf : ∀ item ∈ items, item.wellFormed = true)
    (hwf' : ∀ other ∈ others, other.wellFormed = true) (hdistinct : distinctRecords others = true)
    (h : ∀ id, sameOpt (findKey (recordId · key) id items) (findKey (recordId · key) id others) =
    true) :
    sectionDifferences sectionName (some (.array items)) (some (.array others)) = [] := by
  have hpartner : ∀ item ∈ items, ∃ other ∈ others, same item other = true := by
    intro item hitem
    have hid := h (recordId item key)
    rw [(findKey_eq_some_iff hitems.distinct).mpr ⟨hitem, rfl⟩] at hid
    cases hother : findKey (recordId · key) (recordId item key) others with
    | none => simp [hother, sameOpt] at hid
    | some other =>
      rw [hother] at hid
      exact ⟨other, (findKey_some_imp hother).1, hid⟩
  have hpartner' : ∀ other ∈ others, ∃ item ∈ items, same item other = true := by
    intro other hother
    have hid := h (recordId other key)
    rw [(findKey_eq_some_iff hothers.distinct).mpr ⟨hother, rfl⟩] at hid
    cases hitem : findKey (recordId · key) (recordId other key) items with
    | none => simp [hitem, sameOpt] at hid
    | some item =>
      rw [hitem] at hid
      exact ⟨item, (findKey_some_imp hitem).1, hid⟩
  rw [sectionDifferences]
  split
  · rfl
  · rename_i hdiffer
    have hcommon : differenceKey (some (.array items)) (some (.array others)) =
        recordKey [items, others] := rfl
    cases hkey' : recordKey [items, others] with
    | none =>
      -- Then both are empty.
      have hempty := recordKey_eq_none hkey (by
        simpa using ⟨hitems.named, hothers.named⟩) hkey'
      obtain rfl : items = [] := hempty items (by simp)
      obtain rfl : others = [] := hempty others (by simp)
      exact absurd rfl hdiffer
    | some key' =>
      rw [hcommon, hkey']
      have hothers' := keyedBy_of_recordKey hkey' (by simp) hdistinct
      simp only [itemsOf_array, append_eq_nil_iff, filterMap_eq_nil_iff]
      constructor
      · intro item hitem
        obtain ⟨other, hother, hsame⟩ := hpartner item hitem
        have hid := recordId_of_same (hwf item hitem) (hwf' other hother) hsame key'
        have hfound : findKey (recordId · key') (recordId item key') others = some other :=
          (findKey_eq_some_iff hothers'.distinct).mpr ⟨hother, hid.symm⟩
        simp [hereDifference, hfound, same_symm (hwf item hitem) (hwf' other hother) hsame]
      · intro other hother
        obtain ⟨item, hitem, hsame⟩ := hpartner' other hother
        have hid := recordId_of_same (hwf item hitem) (hwf' other hother) hsame key'
        have hany : (items.any fun mine => recordId mine key' == recordId other key') = true :=
          any_eq_true.mpr ⟨item, hitem, by simp [hid]⟩
        simp [thereDifference, hany]

theorem hereDifference_some {item : Value} {d : Difference}
    (h : hereDifference sectionName key others item = some d) :
    d.id = recordId item key ∧ d.change ≠ .onlyThere ∧
      ∀ other, findKey (recordId · key) d.id others = some other → same other item = false := by
  simp only [hereDifference] at h
  split at h
  · rename_i hnone
    obtain rfl := some.inj h
    simp [hnone]
  · rename_i other hother
    split at h
    · cases h
    · rename_i hsame
      obtain rfl := some.inj h
      simpa [hother] using hsame

theorem hereDifference_none {item : Value} (h : hereDifference sectionName key others item = none) :
    ∃ other, findKey (recordId · key) (recordId item key) others =
      some other ∧ same other item = true := by
  simp only [hereDifference] at h
  split at h
  · cases h
  · rename_i other hother
    split at h
    · rename_i hsame
      exact ⟨other, hother, hsame⟩
    · cases h

variable {d : Difference}

theorem thereDifference_some {other : Value}
    (h : thereDifference sectionName key items other = some d) :
    d.id = recordId other key ∧ d.change = .onlyThere ∧
      findKey (recordId · key) d.id items = none := by
  simp only [thereDifference] at h
  split at h
  · cases h
  · rename_i hany
    obtain rfl := some.inj h
    simpa [findKey] using hany

theorem thereDifference_none {other : Value}
    (h : thereDifference sectionName key items other = none) :
    (findKey (recordId · key) (recordId other key) items).isSome := by
  simp only [thereDifference] at h
  split at h
  · rename_i hany
    simpa [findKey] using hany
  · cases h

theorem mem_thereIds (sectionName : String) (items : List Value)
    (hothers : KeyedBy key others) (id : String) :
    id ∈ (others.filterMap (thereDifference sectionName key items)).map (·.id) ↔
      findKey (recordId · key) id items = none ∧ (findKey (recordId · key) id others).isSome := by
  constructor
  · intro h
    obtain ⟨d, hd, rfl⟩ := mem_map.mp h
    obtain ⟨other, hother, hd⟩ := mem_filterMap.mp hd
    obtain ⟨hid, -, hnone⟩ := thereDifference_some hd
    refine ⟨hnone, ?_⟩
    rw [hid, (findKey_eq_some_iff hothers.distinct).mpr ⟨hother, rfl⟩]
    rfl
  · rintro ⟨hnone, hsome⟩
    obtain ⟨other, hfound⟩ := isSome_iff_exists.mp hsome
    obtain ⟨hother, rfl⟩ := findKey_some_imp hfound
    cases hd : thereDifference sectionName key items other with
    | none =>
      have := thereDifference_none hd
      rw [hnone] at this
      cases this
    | some d =>
      exact mem_map.mpr ⟨d, mem_filterMap.mpr ⟨other, hother, hd⟩, (thereDifference_some hd).1⟩

theorem mem_differenceIds (sectionName : String) (hitems : KeyedBy key items)
    (hothers : KeyedBy key others) (hwf : ∀ item ∈ items, item.wellFormed = true)
    (hwf' : ∀ other ∈ others, other.wellFormed = true) (id : String) :
    id ∈ (items.filterMap (hereDifference sectionName key others) ++
        others.filterMap (thereDifference sectionName key items)).map (·.id) ↔
      sameOpt (findKey (recordId · key) id items) (findKey (recordId · key) id others) = false := by
  rw [map_append, mem_append, mem_thereIds _ _ hothers]
  cases hmine : findKey (recordId · key) id items with
  | none =>
    have hnot : id ∉ (items.filterMap (hereDifference sectionName key others)).map (·.id) := by
      intro h
      obtain ⟨d, hd, rfl⟩ := mem_map.mp h
      obtain ⟨item, hitem, hd⟩ := mem_filterMap.mp hd
      rw [(hereDifference_some hd).1,
        (findKey_eq_some_iff hitems.distinct).mpr ⟨hitem, rfl⟩] at hmine
      cases hmine
    cases findKey (recordId · key) id others <;> simp [hnot, sameOpt]
  | some item =>
    obtain ⟨hitem, rfl⟩ := findKey_some_imp hmine
    constructor
    · rintro (h | h)
      · obtain ⟨d, hd, hid⟩ := mem_map.mp h
        obtain ⟨item', hitem', hd⟩ := mem_filterMap.mp hd
        obtain ⟨hid', -, hdiffer⟩ := hereDifference_some hd
        obtain rfl : item' = item := inj_on_of_nodup_map hitems.distinct
          hitem' hitem (hid'.symm.trans hid)
        rw [hid] at hdiffer
        cases hother : findKey (recordId · key) (recordId item' key) others with
        | none => rfl
        | some other =>
          have hotherMem := (findKey_some_imp hother).1
          by_contra hsame
          rw [Bool.not_eq_false] at hsame
          have := same_symm (hwf item' hitem) (hwf' other hotherMem) hsame
          rw [hdiffer other hother] at this
          cases this
      · cases h.1
    · intro hdiffer
      left
      cases hd : hereDifference sectionName key others item with
      | none =>
        obtain ⟨other, hother, hsame⟩ := hereDifference_none hd
        have hotherMem := (findKey_some_imp hother).1
        have := same_symm (hwf' other hotherMem) (hwf item hitem) hsame
        simp [hother, sameOpt, this] at hdiffer
      | some d =>
        exact mem_map.mpr ⟨d,
          mem_filterMap.mpr ⟨item, hitem, hd⟩,
          (hereDifference_some hd).1⟩

end Records

end Opensesh
