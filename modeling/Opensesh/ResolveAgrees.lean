/-
Where the differences and the choices agree: taking this side leaves this side,
taking the other leaves no difference from it, and choosing nothing loses
nothing.
-/
import Opensesh.Resolve

namespace Opensesh

open List

/-- In a section compared by `path`, no record's `id` is a path that differs:
`resolve` would look the difference up by `id`. -/
def Unambiguous (here there : Option Value) : Prop :=
  differenceKey here there = some "path" → ∀ id, id ≠ "" →
    sameOpt (findKey (recordId · "path") id (itemsOf here))
        (findKey (recordId · "path") id (itemsOf there)) = false →
      ∀ item ∈ itemsOf here ++ itemsOf there, recordId item "id" ≠ id

/-- Two versions of a section whose records have unique keys. -/
structure Comparable (here there : Option Value) : Prop where
  hereWellFormed : wellFormedOpt here
  thereWellFormed : wellFormedOpt there
  hereDistinct : distinctRecords (itemsOf here) = true
  thereDistinct : distinctRecords (itemsOf there) = true
  unambiguous : Unambiguous here there

theorem wellFormed_itemsOf {value : Option Value} (h : wellFormedOpt value) :
    ∀ item ∈ itemsOf value, item.wellFormed = true :=
  wellFormedOpt_baseItems h

variable {here there : Option Value}

theorem Comparable.keyedBy {key : String} (h : Comparable here there)
    (hkey : differenceKey here there = some key) :
    KeyedBy key (itemsOf here) ∧ KeyedBy key (itemsOf there) := by
  obtain ⟨hname, hhere, hthere⟩ := differenceKey_some hkey
  exact ⟨keyedBy_of_distinct hname hhere h.hereDistinct,
    keyedBy_of_distinct hname hthere h.thereDistinct⟩

/-- `resolve` looks a differing record up by the key it was compared by. -/
theorem itemKey_eq {key id : String} (h : Comparable here there)
    (hkey : differenceKey here there = some key) (hid : id ≠ "")
    (hdiffer : sameOpt (findKey (recordId · key) id (itemsOf here))
    (findKey (recordId · key) id (itemsOf there)) = false) : itemKey here there id = key := by
  have hmem : ((itemsOf here).any fun item => recordId item key == id) = true ∨
      ((itemsOf there).any fun item => recordId item key == id) = true := by
    by_contra hnone
    have hfind : ∀ items : List Value,
        ¬ (items.any fun item => recordId item key == id) = true →
          findKey (recordId · key) id items = none := by
      intro items hany
      simpa [findKey] using hany
    rw [not_or] at hnone
    rw [hfind _ hnone.1, hfind _ hnone.2] at hdiffer
    cases hdiffer
  have hhas : ((itemsOf here).any (fun item => recordId item key == id) ||
      (itemsOf there).any fun item => recordId item key == id) = true := by
    simpa using hmem
  rcases (differenceKey_some hkey).1 with rfl | rfl
  · simp [itemKey, List.find?, hhas]
  · have hclear := h.unambiguous hkey id hid hdiffer
    have hnot : ((itemsOf here).any (fun item => recordId item "id" == id) ||
        (itemsOf there).any fun item => recordId item "id" == id) = false := by
      rw [Bool.or_eq_false_iff, any_eq_false, any_eq_false]
      exact ⟨fun item hitem => by simpa using hclear item (by simp [hitem]),
        fun item hitem => by simpa using hclear item (by simp [hitem])⟩
    simp [itemKey, List.find?, hhas, hnot]

/-- Where taking this side leaves this side: a section only the other side has
is not one of records with ids. -/
def HereStays (here there : Option Value) : Prop :=
  here = none → ∀ key, differenceKey here there = some key →
    ∀ item ∈ itemsOf there, recordId item key = ""

theorem runSection_here_iff (sectionName : String) {side : Difference → Side}
    (hside : ∀ d ∈ sectionDifferences sectionName here there, side d = .here) :
    runSection here there ((sectionDifferences sectionName here there).map
        fun d => (side d, d.id)) here = here ↔ HereStays here there := by
  have hturns : ∀ turn ∈ (sectionDifferences sectionName here there).map
      (fun d => (side d, d.id)), turn.1 = .here := by
    intro turn hturn
    obtain ⟨d, hd, rfl⟩ := mem_map.mp hturn
    exact hside d hd
  rcases here with _ | value
  · rw [runSection_here_none hturns]
    have hids : (∀ turn ∈ (sectionDifferences sectionName none there).map
        (fun d => (side d, d.id)), turn.2 = "") ↔
          ∀ d ∈ sectionDifferences sectionName none there, d.id = "" := by
      simp
    rw [hids]
    cases hdiffer : sameOpt none there with
    | true =>
      obtain rfl : there = none := by
        cases there <;> simp_all [sameOpt]
      simp [sectionDifferences_none, HereStays, differenceKey]
    | false =>
      cases hkey : differenceKey none there with
      | none =>
        rw [sectionDifferences_plain hdiffer hkey]
        simp [HereStays, hkey]
      | some key =>
        rw [sectionDifferences_records hdiffer hkey]
        simp [HereStays, hkey, itemsOf, thereDifference]
  · simp [runSection_here hturns, HereStays]

/-- Where taking the other side leaves no difference: a section of records
stands against records, or a record without an id brings the other side's
value whole. -/
structure ThereArrives (here there : Option Value) : Prop where
  overMissing : ∀ key, differenceKey here there = some key → there = none →
    ((itemsOf here).map (recordId · key)).getLast? = some ""
  overPlain : ∀ key, differenceKey here there = some key →
    (∃ value, there = some value ∧ value.asArray = none) → "" ∈ (itemsOf here).map (recordId · key)
  fromPlain : ∀ key, differenceKey here there = some key →
    (∃ value, here = some value ∧ value.asArray = none) → "" ∈ (itemsOf there).map (recordId · key)

theorem eq_array_of_getD {value : Option Value} {items : List Value}
    (hsome : value.isSome) (h : value.getD (.array []) = .array items) :
    value = some (.array items) := by
  obtain ⟨found, rfl⟩ := Option.isSome_iff_exists.mp hsome
  exact congrArg some h

section ThereRuns

variable {sectionName key : String} {here there : Option Value}

theorem sectionDifferences_there_records {others : List Value}
    (h : Comparable here (some (.array others)))
    (hdiffer : sameOpt here (some (.array others)) = false)
    (hkey : differenceKey here (some (.array others)) = some key)
    (hhere : here.getD (.array []) = .array (itemsOf here)) :
    sectionDifferences sectionName
      (runSection here (some (.array others))
        (((sectionDifferences sectionName here (some (.array others))).map
          (·.id)).map fun id => (.there, id)) here) (some (.array others)) =
      [] := by
  obtain ⟨hitems, hothers⟩ : KeyedBy key (itemsOf _) ∧ KeyedBy key others := h.keyedBy hkey
  have hwf := wellFormed_itemsOf h.hereWellFormed
  have hwf' : ∀ other ∈ others, other.wellFormed = true := wellFormed_itemsOf h.thereWellFormed
  have hids := mem_differenceIds sectionName hitems hothers hwf hwf'
  rw [← itemsOf_array others, ← sectionDifferences_records hdiffer hkey, itemsOf_array] at hids
  obtain ⟨merged, hmerged, hrun, hfind⟩ := runSection_there rfl hothers
    (fun id hid hne => itemKey_eq h hkey hne ((hids id).mp hid)) hitems hhere
  have hnonempty : here.isSome ∨ (sectionDifferences sectionName here
      (some (.array others))).map (·.id) ≠ [] := by
    rcases here with _ | value
    · refine Or.inr fun hnil => ?_
      exact (sectionDifferences_array_ne sectionName others rfl).2 (map_eq_nil_iff.mp hnil)
    · exact Or.inl rfl
  rw [eq_array_of_getD (runSection_isSome rfl hnonempty) hrun]
  have hmergedWf : ∀ item ∈ merged, item.wellFormed = true := by
    intro item hitem
    have hfound := hfind (recordId item key)
    rw [(findKey_eq_some_iff hmerged.distinct).mpr ⟨hitem, rfl⟩] at hfound
    split at hfound
    · exact hwf' item (findKey_some_imp hfound.symm).1
    · exact hwf item (findKey_some_imp hfound.symm).1
  refine sectionDifferences_eq_nil (differenceKey_some hkey).1 hmerged hothers
    hmergedWf hwf' h.thereDistinct fun id => ?_
  rw [hfind]
  split
  · exact sameOpt_refl _ fun item hitem => hwf' item (findKey_some_imp hitem).1
  · rename_i hid
    rw [not_or] at hid
    by_contra hdiffer'
    exact hid.1 ((hids id).mpr (by simpa using hdiffer'))

theorem sectionDifferences_there_over_plain {value : Value}
    {others : List Value} (hvalue : value.asArray = none)
    (h : Comparable (some value) (some (.array others)))
    (hkey : differenceKey (some value) (some (.array others)) = some key) :
    sectionDifferences sectionName
      (runSection (some value) (some (.array others))
        (((sectionDifferences sectionName (some value)
          (some (.array others))).map (·.id)).map fun id => (.there, id))
        (some value)) (some (.array others)) = [] ↔
      "" ∈ others.map (recordId · key) := by
  have hplain : (some value).bind Value.asArray = none := hvalue
  have hdiffer := (sameOpt_array_plain others hplain).2
  obtain ⟨hitems, hothers⟩ : KeyedBy key (itemsOf _) ∧ KeyedBy key others := h.keyedBy hkey
  have hwf := wellFormed_itemsOf h.hereWellFormed
  have hwf' : ∀ other ∈ others, other.wellFormed = true := wellFormed_itemsOf h.thereWellFormed
  have hids := mem_differenceIds sectionName hitems hothers hwf hwf'
  rw [← itemsOf_array others, ← sectionDifferences_records hdiffer hkey, itemsOf_array] at hids
  have hnil : itemsOf (some value) = [] := itemsOf_eq_nil hvalue
  have hmem : ∀ id, id ∈ (sectionDifferences sectionName (some value)
      (some (.array others))).map (·.id) ↔ id ∈ others.map (recordId · key) := by
    intro id
    have hempty : findKey (recordId · key) id [] = none := rfl
    rw [hids, hnil, hempty, ← findKey_isSome_iff]
    cases findKey (recordId · key) id others <;> simp [sameOpt]
  rw [← hmem]
  constructor
  · intro hnone
    by_contra hid
    have hturns : ∀ turn ∈ ((sectionDifferences sectionName (some value)
        (some (.array others))).map (·.id)).map (fun id => (Side.there, id)), turn.2 ≠ "" := by
      intro turn hturn
      obtain ⟨id, hmem', rfl⟩ := mem_map.mp hturn
      rintro rfl
      exact hid hmem'
    rw [runSection_plain hvalue hturns] at hnone
    exact (sectionDifferences_array_ne sectionName others hplain).2 hnone
  · intro hid
    obtain ⟨merged, hmerged, hrun, hfind⟩ := runSection_there_over_plain hvalue
      rfl hothers
      (fun id hid hne => itemKey_eq h hkey hne ((hids id).mp hid)) hid
    rw [eq_array_of_getD (runSection_isSome rfl (Or.inl rfl)) hrun]
    have hmergedWf : ∀ item ∈ merged, item.wellFormed = true := by
      intro item hitem
      have hfound := hfind (recordId item key)
      rw [(findKey_eq_some_iff hmerged.distinct).mpr ⟨hitem, rfl⟩] at hfound
      exact hwf' item (findKey_some_imp hfound.symm).1
    refine sectionDifferences_eq_nil (differenceKey_some hkey).1 hmerged hothers
      hmergedWf hwf' h.thereDistinct fun id => ?_
    rw [hfind]
    exact sameOpt_refl _ fun item hitem => hwf' item (findKey_some_imp hitem).1

variable {items : List Value}

theorem differenceIds_here {there : Option Value} (hthere : there.bind Value.asArray = none)
    (hkey : differenceKey (some (.array items)) there = some key) :
    (sectionDifferences sectionName (some (.array items)) there).map (·.id) =
      items.map (recordId · key) := by
  rw [sectionDifferences_records (sameOpt_array_plain items hthere).1 hkey, itemsOf_eq_nil hthere]
  have hall : items.filterMap (hereDifference sectionName key []) =
      items.map fun item => ⟨sectionName, recordId item key, recordName item, .onlyHere⟩ := by
    rw [← filterMap_eq_map]
    rfl
  simp [hall]

theorem sectionDifferences_self (sectionName : String) (value : Option Value)
    (h : wellFormedOpt value) :
    sectionDifferences sectionName value value = [] := by
  rw [sectionDifferences, sameOpt_refl value h, if_pos rfl]

theorem sectionDifferences_there_whole (h : wellFormedOpt there)
    (hkey : differenceKey here there = none) :
    sectionDifferences sectionName
      (runSection here there (((sectionDifferences sectionName here there).map
        (·.id)).map fun id => (.there, id)) here) there = [] := by
  cases hdiffer : sameOpt here there with
  | true =>
    have hnil : sectionDifferences sectionName here there = [] := by
      rw [sectionDifferences, hdiffer, if_pos rfl]
    rw [hnil]
    exact hnil
  | false =>
    rw [sectionDifferences_plain hdiffer hkey]
    exact sectionDifferences_self sectionName there h

/-- The other side has nothing in the place of records. -/
theorem sectionDifferences_there_missing
    (hkey : differenceKey (some (.array items)) none = some key) :
    sectionDifferences sectionName
      (runSection (some (.array items)) none (((sectionDifferences sectionName
        (some (.array items)) none).map (·.id)).map fun id => (.there, id))
        (some (.array items))) none = [] ↔
      (items.map (recordId · key)).getLast? = some "" := by
  rw [differenceIds_here rfl hkey]
  obtain ⟨rest, hrun⟩ := runSection_there_none (some (.array items))
    (items.map (recordId · key)) items
  rw [hrun]
  split
  · rename_i hlast
    exact iff_of_true (sectionDifferences_none sectionName) hlast
  · rename_i hlast
    exact iff_of_false (sectionDifferences_array_ne sectionName rest rfl).1 hlast

theorem sectionDifferences_there_plain {value : Value} (hvalue : value.asArray = none)
    (hwf : value.wellFormed = true)
    (hkey : differenceKey (some (.array items)) (some value) = some key) :
    sectionDifferences sectionName
      (runSection (some (.array items)) (some value) (((sectionDifferences
        sectionName (some (.array items)) (some value)).map (·.id)).map
          fun id => (.there, id)) (some (.array items))) (some value) = [] ↔
      "" ∈ items.map (recordId · key) := by
  have hplain : (some value).bind Value.asArray = none := hvalue
  rw [differenceIds_here hplain hkey]
  obtain ⟨rest, hrun⟩ := runSection_there_plain (some (.array items)) hvalue
    (items.map (recordId · key)) items
  rw [hrun]
  split
  · rename_i hmem
    exact iff_of_true (sectionDifferences_self sectionName (some value)
      ((wellFormedOpt_some value).mpr hwf)) hmem
  · rename_i hmem
    exact iff_of_false (sectionDifferences_array_ne sectionName rest hplain).1 hmem

theorem runSection_there_iff (sectionName : String)
    (h : Comparable here there) :
    sectionDifferences sectionName
      (runSection here there (((sectionDifferences sectionName here there).map
        (·.id)).map fun id => (.there, id)) here) there = [] ↔
      ThereArrives here there := by
  cases hkey : differenceKey here there with
  | none =>
    refine iff_of_true (sectionDifferences_there_whole h.thereWellFormed hkey)
      ⟨?_, ?_, ?_⟩ <;> simp [hkey]
  | some key =>
    cases shape here with
    | missing =>
      cases shape there with
      | array others =>
        refine iff_of_true (sectionDifferences_there_records h rfl hkey rfl) ⟨?_, ?_, ?_⟩
        · simp
        · rintro _ _ ⟨_, ⟨⟩, ⟨⟩⟩
        · simp
      | _ => simp_all [differenceKey]
    | array items =>
      cases shape there with
      | missing =>
        rw [sectionDifferences_there_missing hkey]
        constructor
        · intro hlast
          refine ⟨fun key' hkey' _ => ?_, by simp, ?_⟩
          · rw [hkey] at hkey'
            exact Option.some.inj hkey' ▸ hlast
          · rintro _ _ ⟨_, ⟨⟩, ⟨⟩⟩
        · exact fun harrives => harrives.overMissing key hkey rfl
      | array others =>
        cases hdiffer : sameOpt (some (.array items)) (some (.array others)) with
        | true =>
          have hnil : sectionDifferences sectionName
              (some (.array items)) (some (.array others)) = [] := by
            rw [sectionDifferences, hdiffer, if_pos rfl]
          refine iff_of_true (by rw [hnil]; exact hnil) ⟨by simp, ?_, ?_⟩ <;> rintro _ _ ⟨_, ⟨⟩, ⟨⟩⟩
        | false =>
          refine iff_of_true
            (sectionDifferences_there_records h hdiffer hkey rfl)
            ⟨by simp, ?_, ?_⟩ <;> rintro _ _ ⟨_, ⟨⟩, ⟨⟩⟩
      | plain hvalue =>
        rw [sectionDifferences_there_plain hvalue (h.thereWellFormed _ rfl) hkey]
        constructor
        · intro hmem
          refine ⟨by simp, fun key' hkey' _ => ?_, ?_⟩
          · rw [hkey] at hkey'
            exact Option.some.inj hkey' ▸ hmem
          · rintro _ _ ⟨_, ⟨⟩, ⟨⟩⟩
        · exact fun harrives => harrives.overPlain key hkey ⟨_, rfl, hvalue⟩
    | plain hvalue =>
      cases shape there with
      | array others =>
        rw [sectionDifferences_there_over_plain hvalue h hkey]
        constructor
        · intro hmem
          refine ⟨by simp, ?_, fun key' hkey' _ => ?_⟩
          · rintro _ _ ⟨_, ⟨⟩, ⟨⟩⟩
          · rw [hkey] at hkey'
            exact Option.some.inj hkey' ▸ hmem
        · exact fun harrives => harrives.fromPlain key hkey ⟨_, rfl, hvalue⟩
      | _ => simp_all [differenceKey]

end ThereRuns

/-- The key by which the records of one side are told apart: the common one,
else the side's own. -/
def comparedBy (here there side : Option Value) : Option String :=
  (differenceKey here there).or (recordKey [itemsOf side])

/-- Keys and records of one side only are kept, and records that differ keep
this side's value. -/
structure NothingLost (here there merged : Option Value) : Prop where
  hereKey : here.isSome → there = none → merged.isSome
  thereKey : here = none → there.isSome → merged.isSome
  hereRecords : ∀ key, comparedBy here there here = some key →
    ∀ item ∈ itemsOf here,
      (∀ other, findKey (recordId · key) (recordId item key) (itemsOf there) =
        some other → same other item = false) →
      findKey (recordId · key) (recordId item key) (itemsOf merged) = some item
  thereRecords : ∀ key, comparedBy here there there = some key →
    ∀ item ∈ itemsOf there,
      findKey (recordId · key) (recordId item key) (itemsOf here) = none →
      findKey (recordId · key) (recordId item key) (itemsOf merged) = some item

/-- Where choosing nothing loses nothing: records of the other side are not
taken for a plain value, and a record without an id that only the other side
has finds all of this side's records there. -/
structure DefaultsKeep (here there : Option Value) : Prop where
  uncompared : differenceKey here there = none → ∀ key,
    recordKey [itemsOf there] = some key → ∀ item ∈ itemsOf there,
      (findKey (recordId · key) (recordId item key) (itemsOf here)).isSome
  fromPlain : ∀ key, differenceKey here there = some key →
    (∃ value, here = some value ∧ value.asArray = none) → "" ∈ (itemsOf there).map (recordId · key)
  unnamed : ∀ key, differenceKey here there = some key →
    "" ∈ (itemsOf there).map (recordId · key) →
    "" ∉ (itemsOf here).map (recordId · key) → ∀ item ∈ itemsOf here,
      ∃ other, findKey (recordId · key) (recordId item key) (itemsOf there) =
        some other ∧ same other item = true

section Defaults

variable {sectionName key : String} {here there : Option Value}

theorem forall₂_itemsOf (h : sameOpt here there = true) :
    List.Forall₂ (fun x y => same x y = true) (itemsOf here) (itemsOf there) := by
  rcases here with _ | here
  · rcases there with _ | there
    · exact List.Forall₂.nil
    · cases h
  · rcases there with _ | there
    · cases h
    · cases here <;> cases there
      case array.array items others => exact (same_array_iff items others).mp h
      all_goals first | exact List.Forall₂.nil | simp [sameOpt, same] at h

/-- This side's records are found in this side. -/
theorem hereRecords_here (h : Comparable here there)
    (hkey : comparedBy here there here = some key) :
    ∀ item ∈ itemsOf here,
      findKey (recordId · key) (recordId item key) (itemsOf here) = some item := by
  have hkeyed : KeyedBy key (itemsOf here) := by
    cases hcommon : differenceKey here there with
    | some common =>
      rw [comparedBy, hcommon] at hkey
      obtain rfl : common = key := by simpa using hkey
      exact (h.keyedBy hcommon).1
    | none =>
      rw [comparedBy, hcommon, Option.none_or] at hkey
      exact keyedBy_of_recordKey hkey (by simp) h.hereDistinct
  exact fun item hitem => (findKey_eq_some_iff hkeyed.distinct).mpr ⟨hitem, rfl⟩

theorem comparedBy_eq (hkey : differenceKey here there = some key)
    {side : Option Value} {key' : String}
    (h : comparedBy here there side = some key') : key' = key := by
  rw [comparedBy, hkey] at h
  simpa using h.symm

theorem runSection_default (hdiffer : sameOpt here there = false)
    (hkey : differenceKey here there = some key) :
    runSection here there ((sectionDifferences sectionName here there).map
        fun d => (defaultSide d.change, d.id)) here =
      runSection here there ((((itemsOf there).filterMap
        (thereDifference sectionName key (itemsOf here))).map (·.id)).map
          fun id => (.there, id)) here := by
  rw [sectionDifferences_records hdiffer hkey, map_append, runSection_append]
  have hfirst : runSection here there (((itemsOf here).filterMap
      (hereDifference sectionName key (itemsOf there))).map
        fun d => (defaultSide d.change, d.id)) here = here := by
    rcases here with _ | value
    · rfl
    · apply runSection_here
      intro turn hturn
      obtain ⟨d, hd, rfl⟩ := mem_map.mp hturn
      obtain ⟨item, -, hd⟩ := mem_filterMap.mp hd
      have hchange := (hereDifference_some hd).2.1
      cases hc : d.change <;> simp_all [defaultSide]
  have hsecond : ((itemsOf there).filterMap
      (thereDifference sectionName key (itemsOf here))).map
        (fun d => (defaultSide d.change, d.id)) =
      (((itemsOf there).filterMap
        (thereDifference sectionName key (itemsOf here))).map (·.id)).map
          fun id => (.there, id) := by
    rw [map_map]
    apply map_congr_left
    intro d hd
    obtain ⟨item, -, hd⟩ := mem_filterMap.mp hd
    simp [(thereDifference_some hd).2.1, defaultSide]
  rw [hfirst, hsecond]

/-- Without a common key, this side's value stays. -/
theorem nothingLost_uncompared (h : Comparable here there)
    (hhere : here.isSome) (hkey : differenceKey here there = none) :
    NothingLost here there here ↔ DefaultsKeep here there := by
  constructor
  · intro hlost
    refine ⟨fun _ key hown item hitem => ?_, by simp [hkey], by simp [hkey]⟩
    have hcompared : comparedBy here there there = some key := by
      rw [comparedBy, hkey, Option.none_or, hown]
    by_contra hnone
    rw [Option.not_isSome_iff_eq_none] at hnone
    have hfound := hlost.thereRecords key hcompared item hitem hnone
    rw [hnone] at hfound
    cases hfound
  · intro hkeep
    refine ⟨fun _ _ => hhere, ?_, ?_, ?_⟩
    · rintro rfl
      cases hhere
    · exact fun key hcompared item hitem _ => hereRecords_here h hcompared item hitem
    · intro key hcompared item hitem hnone
      rw [comparedBy, hkey, Option.none_or] at hcompared
      have hsome := hkeep.uncompared hkey key hcompared item hitem
      rw [hnone] at hsome
      cases hsome

theorem nothingLost_same (h : Comparable here there) (hsame : sameOpt here there = true)
    (hkey : differenceKey here there = some key) :
    NothingLost here there here ∧ DefaultsKeep here there := by
  have hfind := sameOpt_findKey (forall₂_itemsOf hsame)
    (wellFormed_itemsOf h.hereWellFormed) (wellFormed_itemsOf h.thereWellFormed)
  have hsome : ∀ key id, (findKey (recordId · key) id (itemsOf there)).isSome →
      (findKey (recordId · key) id (itemsOf here)).isSome := by
    intro key id hthere
    have hid := hfind key id
    cases hhere : findKey (recordId · key) id (itemsOf here) with
    | some item => rfl
    | none =>
      obtain ⟨other, hother⟩ := Option.isSome_iff_exists.mp hthere
      simp [hhere, hother, sameOpt] at hid
  have hboth : here.isSome = there.isSome := by
    cases here <;> cases there <;> first | rfl | cases hsame
  refine ⟨⟨fun hhere _ => hhere, fun hhere hthere => ?_, ?_, ?_⟩, ⟨by simp [hkey], ?_, ?_⟩⟩
  · rw [hboth]
    exact hthere
  · exact fun key hcompared item hitem _ => hereRecords_here h hcompared item hitem
  · intro key hcompared item hitem hnone
    have hthere : (findKey (recordId · key) (recordId item key) (itemsOf there)).isSome :=
      findKey_isSome_iff.mpr (mem_map_of_mem hitem)
    have hhere := hsome key _ hthere
    rw [hnone] at hhere
    cases hhere
  · rintro key' hkey' ⟨value, rfl, hvalue⟩
    cases shape there with
    | array others =>
      have hplain : (some value).bind Value.asArray = none := hvalue
      rw [(sameOpt_array_plain others hplain).2] at hsame
      cases hsame
    | _ => simp_all [differenceKey]
  · intro key' _ hmem hnot
    exact absurd (findKey_isSome_iff.mp (hsome key' "" (findKey_isSome_iff.mpr hmem))) hnot

theorem nothingLost_records {others : List Value}
    (h : Comparable here (some (.array others)))
    (hdiffer : sameOpt here (some (.array others)) = false)
    (hkey : differenceKey here (some (.array others)) = some key)
    (hhere : here.getD (.array []) = .array (itemsOf here)) :
    NothingLost here (some (.array others))
      (runSection here (some (.array others)) (((others.filterMap
        (thereDifference sectionName key (itemsOf here))).map (·.id)).map
          fun id => (.there, id)) here) ↔
      DefaultsKeep here (some (.array others)) := by
  obtain ⟨hitems, hothers⟩ : KeyedBy key (itemsOf here) ∧ KeyedBy key others := h.keyedBy hkey
  have hids := mem_thereIds sectionName (itemsOf here) hothers
  obtain ⟨merged, hmerged, hrun, hfind⟩ := runSection_there rfl hothers
    (fun id hid hne => itemKey_eq h hkey hne (by
      obtain ⟨hnone, hsome⟩ := (hids id).mp hid
      obtain ⟨other, hother⟩ := Option.isSome_iff_exists.mp hsome
      rw [hnone, itemsOf_array, hother]
      rfl)) hitems hhere
  have hnonempty : here.isSome ∨ (others.filterMap
      (thereDifference sectionName key (itemsOf here))).map (·.id) ≠ [] := by
    rcases here with _ | value
    · refine Or.inr fun hnil => ?_
      have hmissing : (none : Option Value).bind Value.asArray = none := rfl
      apply (sectionDifferences_array_ne sectionName others hmissing).2
      rw [sectionDifferences_records hdiffer hkey]
      simpa [itemsOf, Value.asArray] using hnil
    · exact Or.inl rfl
  rw [eq_array_of_getD (runSection_isSome rfl hnonempty) hrun]
  have hother : ∀ item ∈ others, findKey (recordId · key) (recordId item key) others = some item :=
    fun item hitem => (findKey_eq_some_iff hothers.distinct).mpr ⟨hitem, rfl⟩
  have hmine : ∀ item ∈ itemsOf here,
      findKey (recordId · key) (recordId item key) (itemsOf here) = some item :=
    fun item hitem => (findKey_eq_some_iff hitems.distinct).mpr ⟨hitem, rfl⟩
  constructor
  · intro hlost
    refine ⟨by simp [hkey], ?_, ?_⟩
    · rintro key' _ ⟨value, rfl, hvalue⟩
      cases value <;> simp_all [itemsOf, Value.asArray]
    · intro key' hkey' hmem hnot item hitem
      obtain rfl : key' = key := by
        rw [hkey] at hkey'
        exact (Option.some.inj hkey').symm
      have hempty := (hids "").mpr ⟨findKey_eq_none_iff.mpr hnot, findKey_isSome_iff.mpr hmem⟩
      by_contra hnone
      have hkept := hlost.hereRecords key' (by rw [comparedBy, hkey]; rfl) item
        hitem fun other hfound => by
          by_contra hsame
          rw [Bool.not_eq_false] at hsame
          exact hnone ⟨other, hfound, hsame⟩
      rw [itemsOf_array, hfind, if_pos (Or.inr hempty)] at hkept
      have hwf := wellFormed_itemsOf h.hereWellFormed item hitem
      exact hnone ⟨item, hkept, same_refl item hwf⟩
  · intro hkeep
    refine ⟨fun _ _ => rfl, fun _ _ => rfl, ?_, ?_⟩
    · intro key' hcompared item hitem hdiffers
      obtain rfl := comparedBy_eq hkey hcompared
      have hnot : recordId item key' ∉ (others.filterMap
          (thereDifference sectionName key' (itemsOf here))).map (·.id) := by
        rw [hids, hmine item hitem]
        simp
      have hempty : "" ∉ (others.filterMap
          (thereDifference sectionName key' (itemsOf here))).map (·.id) := by
        intro hmem
        obtain ⟨hnone, hsome⟩ := (hids "").mp hmem
        obtain ⟨other, hfound, hsame⟩ := hkeep.unnamed key' hkey
          (findKey_isSome_iff.mp hsome) (findKey_eq_none_iff.mp hnone) item hitem
        rw [hdiffers other hfound] at hsame
        cases hsame
      rw [itemsOf_array, hfind, if_neg (by simp only [hnot, hempty, or_self,
        not_false_eq_true]), hmine item hitem]
    · intro key' hcompared item hitem hnone
      obtain rfl := comparedBy_eq hkey hcompared
      have hfound := hother item hitem
      have hmem := (hids (recordId item key')).mpr ⟨hnone, by rw [hfound]; rfl⟩
      rw [itemsOf_array, hfind, if_pos (Or.inl hmem), hfound]

theorem nothingLost_over_plain {value : Value} {others : List Value}
    (hvalue : value.asArray = none)
    (h : Comparable (some value) (some (.array others)))
    (hkey : differenceKey (some value) (some (.array others)) = some key) :
    NothingLost (some value) (some (.array others))
      (runSection (some value) (some (.array others)) (((others.filterMap
        (thereDifference sectionName key (itemsOf (some value)))).map
          (·.id)).map fun id => (.there, id)) (some value)) ↔
      DefaultsKeep (some value) (some (.array others)) := by
  obtain ⟨-, hothers⟩ : KeyedBy key (itemsOf _) ∧ KeyedBy key others := h.keyedBy hkey
  have hnil : itemsOf (some value) = [] := itemsOf_eq_nil hvalue
  have hids := mem_thereIds sectionName [] hothers
  have hempty : ∀ id, findKey (recordId · key) id [] = none := fun _ => rfl
  have hmem : ∀ id, id ∈ (others.filterMap
      (thereDifference sectionName key [])).map (·.id) ↔ id ∈ others.map (recordId · key) := by
    intro id
    rw [hids, findKey_isSome_iff]
    exact and_iff_right (hempty id)
  rw [hnil]
  constructor
  · intro hlost
    refine ⟨by simp [hkey], fun key' hkey' _ => ?_, by simp [hnil]⟩
    obtain rfl : key' = key := by
      rw [hkey] at hkey'
      exact (Option.some.inj hkey').symm
    by_contra hnot
    rw [runSection_plain hvalue] at hlost
    · have hplain : (some value).bind Value.asArray = none := hvalue
      rw [(differenceKey_array_plain others hplain).2] at hkey
      have hne := recordKey_ne_nil hkey
      obtain ⟨head, rest, rfl⟩ := exists_cons_of_ne_nil hne
      have hkept := hlost.thereRecords key' (by rw [comparedBy, hkey']; rfl) head
        (by simp) (by rw [hnil]; rfl)
      rw [hnil] at hkept
      cases hkept
    · intro turn hturn hid
      obtain ⟨id, hid', rfl⟩ := mem_map.mp hturn
      obtain rfl : id = "" := hid
      exact hnot ((hmem "").mp hid')
  · intro hkeep
    have hunnamed := hkeep.fromPlain key hkey ⟨value, rfl, hvalue⟩
    obtain ⟨merged, hmerged, hrun, hfind⟩ := runSection_there_over_plain hvalue
      rfl hothers
      (fun id hid hne => itemKey_eq h hkey hne (by
        obtain ⟨-, hsome⟩ := (hids id).mp hid
        obtain ⟨other, hother⟩ := Option.isSome_iff_exists.mp hsome
        rw [hnil, itemsOf_array, hother]
        rfl)) ((hmem "").mpr hunnamed)
    rw [eq_array_of_getD (runSection_isSome rfl (Or.inl rfl)) hrun]
    refine ⟨fun _ _ => rfl, fun _ _ => rfl, by simp [hnil], ?_⟩
    intro key' hcompared item hitem _
    obtain rfl := comparedBy_eq hkey hcompared
    rw [itemsOf_array, hfind]
    exact (findKey_eq_some_iff hothers.distinct).mpr ⟨hitem, rfl⟩

/-- Records against something else stay. -/
theorem nothingLost_against_plain {items : List Value} (h : Comparable (some (.array items)) there)
    (hthere : there.bind Value.asArray = none)
    (hkey : differenceKey (some (.array items)) there = some key) :
    NothingLost (some (.array items)) there (some (.array items)) ∧
      DefaultsKeep (some (.array items)) there := by
  have hnil := itemsOf_eq_nil hthere
  refine ⟨⟨fun _ _ => rfl, fun _ _ => rfl, ?_, by simp [hnil]⟩,
    ⟨by simp [hkey], ?_, by simp [hnil]⟩⟩
  · exact fun key hcompared item hitem _ => hereRecords_here h hcompared item hitem
  · rintro _ _ ⟨_, ⟨⟩, ⟨⟩⟩

/-- Without records, a value the other side alone has is taken. -/
theorem nothingLost_missing_here (hkey : differenceKey none there = none) :
    NothingLost none there there ∧ DefaultsKeep none there := by
  have hown : recordKey [itemsOf there] = none := by
    cases shape there with
    | missing => rfl
    | array others =>
      have hmissing : (none : Option Value).bind Value.asArray = none := rfl
      rwa [(differenceKey_array_plain others hmissing).2] at hkey
    | plain hvalue =>
      have hplain : (some _).bind Value.asArray = none := hvalue
      rw [itemsOf_eq_nil hplain]
      rfl
  refine ⟨⟨by simp, fun _ hthere => hthere, by simp [itemsOf], ?_⟩,
    ⟨by simp [hown], by simp, by simp [itemsOf]⟩⟩
  intro key hcompared
  rw [comparedBy, hkey, Option.none_or, hown] at hcompared
  cases hcompared

theorem runSection_default_iff (sectionName : String)
    (h : Comparable here there) :
    NothingLost here there
        (runSection here there ((sectionDifferences sectionName here there).map
          fun d => (defaultSide d.change, d.id)) here) ↔
      DefaultsKeep here there := by
  have hsame : sameOpt here there = true → sectionDifferences sectionName here there = [] := by
    intro hsame
    rw [sectionDifferences, hsame, if_pos rfl]
  cases hkey : differenceKey here there with
  | none =>
    rcases here with _ | value
    · have hrun : runSection none there ((sectionDifferences sectionName none
          there).map fun d => (defaultSide d.change, d.id)) none = there := by
        rcases there with _ | other
        · rfl
        · rw [sectionDifferences_plain rfl hkey]
          rfl
      obtain ⟨hlost, hkeep⟩ := nothingLost_missing_here hkey
      rw [hrun]
      exact iff_of_true hlost hkeep
    · rw [runSection_here, nothingLost_uncompared h rfl hkey]
      intro turn hturn
      obtain ⟨d, hd, rfl⟩ := mem_map.mp hturn
      cases hdiffer : sameOpt (some value) there with
      | true => simp [hsame hdiffer] at hd
      | false =>
        rw [sectionDifferences_plain hdiffer hkey] at hd
        rw [mem_singleton.mp hd]
        cases there <;> rfl
  | some key =>
    cases hdiffer : sameOpt here there with
    | true =>
      obtain ⟨hlost, hkeep⟩ := nothingLost_same h hdiffer hkey
      rw [hsame hdiffer]
      exact iff_of_true hlost hkeep
    | false =>
      rw [runSection_default hdiffer hkey]
      cases shape there with
      | array others =>
        cases shape here with
        | plain hvalue => exact nothingLost_over_plain hvalue h hkey
        | missing => exact nothingLost_records h hdiffer hkey rfl
        | array items => exact nothingLost_records h hdiffer hkey rfl
      | missing =>
        cases shape here with
        | array items =>
          obtain ⟨hlost, hkeep⟩ := nothingLost_against_plain h rfl hkey
          exact iff_of_true hlost hkeep
        | _ => simp_all [differenceKey]
      | plain hvalue =>
        cases shape here with
        | array items =>
          have hplain : (some _).bind Value.asArray = none := hvalue
          obtain ⟨hlost, hkeep⟩ := nothingLost_against_plain h hplain hkey
          rw [itemsOf_eq_nil hplain]
          exact iff_of_true hlost hkeep
        | _ => simp_all [differenceKey]

end Defaults

/-- The records of every section have unique keys. -/
def DistinctRecords (d : Document) : Prop :=
  ∀ key, distinctRecords (itemsOf (d.table.lookup key)) = true

instance (d : Document) : Decidable (DistinctRecords d) :=
  decidable_of_iff _ (d.forall_lookup_iff
    (fun value => distinctRecords (itemsOf value) = true) rfl).symm

section Files

variable {here there : Document}

/-- Taking this side for every difference gives this side. -/
def TakesHere (here there : Document) : Prop :=
  ∀ choices : Choices,
    (∀ d ∈ differences here.table there.table, choices.side d = .here) →
      resolve here.table there.table choices = here.table

/-- Taking the other side for every difference leaves none. -/
def TakesThere (here there : Document) : Prop :=
  ∀ choices : Choices,
    (∀ d ∈ differences here.table there.table, choices.side d = .there) →
      differences (resolve here.table there.table choices) there.table = []

/-- Choosing nothing loses nothing. -/
def DefaultsLoseNothing (here there : Document) : Prop :=
  ∀ key, NothingLost (here.table.lookup key) (there.table.lookup key)
    ((resolve here.table there.table fun _ => none).lookup key)

theorem mem_differences_of_section {key : String} {d : Difference}
    (h : d ∈ sectionDifferences key (here.table.lookup key) (there.table.lookup key)) :
    d ∈ differences here.table there.table := by
  rw [mem_differences_iff here.ascending there.ascending, sectionName_of_mem h]
  exact h

theorem takesHere_iff (here there : Document) :
    TakesHere here there ↔ ∀ key, HereStays (here.table.lookup key) (there.table.lookup key) := by
  constructor
  · intro h key
    have hall := h (fun _ => some .here) fun _ _ => rfl
    have hlookup := lookup_resolve here there (fun _ => some .here) key
    rw [hall] at hlookup
    exact (runSection_here_iff key fun _ _ => rfl).mp hlookup.symm
  · intro h choices hside
    refine Ascending.ext (ascending_resolve here _ choices) here.ascending fun key => ?_
    rw [lookup_resolve]
    exact (runSection_here_iff key fun d hd => hside d (mem_differences_of_section hd)).mpr (h key)

theorem lookup_resolve_there {choices : Choices}
    (hside : ∀ d ∈ differences here.table there.table, choices.side d = .there)
    (key : String) :
    (resolve here.table there.table choices).lookup key =
      runSection (here.table.lookup key) (there.table.lookup key)
        (((sectionDifferences key (here.table.lookup key)
          (there.table.lookup key)).map (·.id)).map fun id => (.there, id))
        (here.table.lookup key) := by
  rw [lookup_resolve, map_map]
  congr 1
  apply map_congr_left
  intro d hd
  rw [hside d (mem_differences_of_section hd)]
  rfl

theorem takesThere_iff (h : ∀ key, Comparable (here.table.lookup key) (there.table.lookup key)) :
    TakesThere here there ↔
      ∀ key, ThereArrives (here.table.lookup key) (there.table.lookup key) := by
  have hnil : ∀ choices : Choices,
      (∀ d ∈ differences here.table there.table, choices.side d = .there) →
        (differences (resolve here.table there.table choices) there.table = [] ↔
          ∀ key, ThereArrives (here.table.lookup key) (there.table.lookup key)) := by
    intro choices hside
    rw [differences_eq_nil_iff (ascending_resolve here _ choices) there.ascending]
    refine forall_congr' fun key => ?_
    rw [lookup_resolve_there hside]
    exact runSection_there_iff key (h key)
  constructor
  · intro htakes
    exact (hnil _ fun _ _ => rfl).mp (htakes (fun _ => some .there) fun _ _ => rfl)
  · exact fun harrives choices hside => (hnil choices hside).mpr harrives

theorem defaultsLoseNothing_iff
    (h : ∀ key, Comparable (here.table.lookup key) (there.table.lookup key)) :
    DefaultsLoseNothing here there ↔
      ∀ key, DefaultsKeep (here.table.lookup key) (there.table.lookup key) := by
  refine forall_congr' fun key => ?_
  rw [← runSection_default_iff key (h key), lookup_resolve]
  rfl

end Files

/-- The differences and the choices agree exactly when each section stands
against a section of its kind, or a record without an id stands in for it. -/
theorem differences_resolve_agree_iff (here there : Document)
    (hhere : DistinctRecords here) (hthere : DistinctRecords there)
    (hclear : ∀ key, Unambiguous (here.table.lookup key) (there.table.lookup key)) :
    (TakesHere here there ∧ TakesThere here there ∧ DefaultsLoseNothing here there) ↔
      ∀ key, HereStays (here.table.lookup key) (there.table.lookup key) ∧
        ThereArrives (here.table.lookup key) (there.table.lookup key) ∧
        DefaultsKeep (here.table.lookup key) (there.table.lookup key) := by
  have h : ∀ key, Comparable (here.table.lookup key) (there.table.lookup key) :=
    fun key => ⟨here.wellFormedOpt_lookup key, there.wellFormedOpt_lookup key,
      hhere key, hthere key, hclear key⟩
  rw [takesHere_iff, takesThere_iff h, defaultsLoseNothing_iff h]
  simp only [forall_and]

namespace ResolveAgreesWitness

def host (id : String) : Value := .table [("id", .string id)]

def oneHost : Document := ⟨[("host", .array [host "a"])], by decide⟩

def plainHost : Document := ⟨[("host", .string "a")], by decide⟩

def twoHosts : Document := ⟨[("host", .array [host "b", host "a"])], by decide⟩

/-- A section this side lacks is left empty, one the other side lacks too, and
records against a plain value are lost. -/
theorem differences_resolve_disagree :
    (DistinctRecords .empty ∧ DistinctRecords oneHost ∧ DistinctRecords plainHost) ∧
      ¬ TakesHere .empty oneHost ∧ ¬ TakesThere oneHost .empty ∧
      ¬ DefaultsLoseNothing plainHost oneHost := by
  refine ⟨by decide, fun h => ?_, fun h => ?_, fun h => ?_⟩
  · have htable := h (fun _ => some .here) fun _ _ => rfl
    exact absurd (congrArg List.length htable) (by decide)
  · have hnil := h (fun _ => some .there) fun _ _ => rfl
    exact absurd hnil (by decide)
  · have hkept := (h "host").thereRecords "id" (by decide) (host "a") List.mem_cons_self rfl
    cases hkept

theorem differences_resolve_agree :
    TakesHere oneHost twoHosts ∧ TakesThere oneHost twoHosts ∧
      DefaultsLoseNothing oneHost twoHosts := by
  have hother : ∀ key, key ≠ "host" → oneHost.table.lookup key = none ∧
      twoHosts.table.lookup key = none := by
    intro key hkey
    simp [oneHost, twoHosts, lookup_cons_ite, hkey]
  refine (differences_resolve_agree_iff oneHost twoHosts (by decide) (by decide)
    fun key => ?_).mpr fun key => ?_
  · by_cases hkey : key = "host"
    · subst key
      exact fun hpath => absurd hpath (by decide)
    · rw [(hother key hkey).1, (hother key hkey).2]
      rintro ⟨⟩
  · by_cases hkey : key = "host"
    · subst key
      refine ⟨by rintro ⟨⟩, ⟨?_, ?_, ?_⟩, ⟨?_, ?_, ?_⟩⟩
      · rintro _ _ ⟨⟩
      · rintro _ _ ⟨_, ⟨⟩, ⟨⟩⟩
      · rintro _ _ ⟨_, ⟨⟩, ⟨⟩⟩
      · exact fun hnone => absurd hnone (by decide)
      · rintro _ _ ⟨_, ⟨⟩, ⟨⟩⟩
      · intro key hkey hmem
        have hid : key = "id" := (Option.some.inj hkey).symm
        subst key
        exact absurd hmem (by decide)
    · rw [(hother key hkey).1, (hother key hkey).2]
      refine ⟨?_, ⟨?_, ?_, ?_⟩, ⟨?_, ?_, ?_⟩⟩ <;> simp [HereStays, differenceKey, itemsOf]

end ResolveAgreesWitness

end Opensesh
