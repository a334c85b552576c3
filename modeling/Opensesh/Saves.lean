/-
Saving merges: what `write_merging` leaves in the file and in the baseline, and
what the merge keeps of the records of both sides when neither side removed
one.
-/
import Opensesh.MergeRule

namespace Opensesh

open List Option

/-- The TOML library: how a text is read as a table and a table written. -/
structure Codec (τ : Type) where
  parse : τ → Except String Document
  print : Document → Except String τ

/-- What the library promises: a written table reads as that table, and the
merge of tables that were read can be written. -/
structure Codec.Lawful {τ : Type} (codec : Codec τ) : Prop where
  reads : ∀ {d : Document} {text : τ}, codec.print d = .ok text →
    ∃ e, codec.parse text = .ok e ∧ d.Same e
  prints : ∀ {base ours theirs : τ} {b o t : Document},
    codec.parse base = .ok b → codec.parse ours = .ok o →
      codec.parse theirs = .ok t → ∃ text, codec.print (mergeDocuments b o t).1 = .ok text

/-- A merge's result. -/
structure Merged (τ : Type) where
  text : τ
  conflicts : List Conflict

inductive WriteOutcome where
  | written
  | unchanged
  | merged
deriving DecidableEq

/-- What a save leaves: the file, the baseline and what it reports. -/
structure Saved (τ : Type) where
  file : τ
  baseline : Option τ
  outcome : WriteOutcome

section Saving

variable {τ : Type} [DecidableEq τ] (codec : Codec τ)

/-- The three-way merge of texts: `ours` and `theirs` both started from `base`. -/
def merge3 (base ours theirs : τ) : Except String (Merged τ) := do
  let base ← codec.parse base
  let ours ← codec.parse ours
  let theirs ← codec.parse theirs
  let merged := mergeDocuments base ours theirs
  let text ← codec.print merged.1
  pure ⟨text, merged.2⟩

/-- `atomic_write`: what it reports of the file it replaces. -/
def atomicWrite (file : Option τ) (text : τ) : WriteOutcome :=
  if file = some text then .unchanged else .written

/-- `write_merging` of a TOML file: what the file holds now, what this instance
last knew of it and what it writes. -/
def writeMerging (file baseline : Option τ) (text : τ) : Saved τ :=
  match baseline with
  -- Never read here: written as given, and not remembered.
  | none => ⟨text, none, atomicWrite file text⟩
  | some base =>
    let merged : Option τ :=
      match file with
      | some current =>
        if current ≠ base ∧ current ≠ text then
          match merge3 codec base text current with
          | .ok result => some result.text
          | .error _ => none
        else none
      | none => none
    match merged with
    | some out => ⟨out, some text, .merged⟩
    | none => ⟨text, some text, atomicWrite file text⟩

theorem writeMerging_baseline (file baseline : Option τ) (text : τ) :
    (writeMerging codec file baseline text).baseline = baseline.map fun _ => text := by
  cases baseline with
  | none => rfl
  | some base =>
    simp only [writeMerging, map_some]
    split <;> rfl

theorem writeMerging_file (file baseline : Option τ) (text : τ) :
    (writeMerging codec file baseline text).file = text ∨
      ∃ base current result, baseline = some base ∧ file = some current ∧
        current ≠ base ∧ current ≠ text ∧
        merge3 codec base text current = .ok result ∧
        (writeMerging codec file baseline text).file = result.text := by
  cases baseline with
  | none => exact Or.inl rfl
  | some base =>
    cases file with
    | none => exact Or.inl rfl
    | some current =>
      by_cases hdiffer : current ≠ base ∧ current ≠ text
      · cases hmerge : merge3 codec base text current with
        | error message =>
          left
          simp [writeMerging, hdiffer, hmerge]
        | ok result =>
          right
          refine ⟨base, current, result, rfl, rfl, hdiffer.1, hdiffer.2, hmerge, ?_⟩
          simp [writeMerging, hdiffer, hmerge]
      · left
        simp [writeMerging, hdiffer]

omit [DecidableEq τ] in
/-- What a merge that succeeds read and wrote. -/
theorem merge3_eq_ok {codec : Codec τ} {base ours theirs : τ}
    {result : Merged τ} (h : merge3 codec base ours theirs = .ok result) :
    ∃ b o t, codec.parse base = .ok b ∧ codec.parse ours = .ok o ∧
      codec.parse theirs = .ok t ∧
      codec.print (mergeDocuments b o t).1 = .ok result.text := by
  simp only [merge3, bind, Except.bind, pure, Except.pure] at h
  cases hb : codec.parse base with
  | error message => simp [hb] at h
  | ok b =>
    cases ho : codec.parse ours with
    | error message => simp [hb, ho] at h
    | ok o =>
      cases ht : codec.parse theirs with
      | error message => simp [hb, ho, ht] at h
      | ok t =>
        simp only [hb, ho, ht] at h
        cases hprint : codec.print (mergeDocuments b o t).1 with
        | error message => simp [hprint] at h
        | ok text =>
          obtain rfl : (⟨text, _⟩ : Merged τ) = result := by
            simpa [hprint] using h
          exact ⟨b, o, t, rfl, rfl, rfl, hprint⟩

omit [DecidableEq τ] in
theorem merge3_eq {codec : Codec τ} {base ours theirs text : τ}
    {b o t : Document} (hbase : codec.parse base = .ok b)
    (hours : codec.parse ours = .ok o) (htheirs : codec.parse theirs = .ok t)
    (htext : codec.print (mergeDocuments b o t).1 = .ok text) :
    merge3 codec base ours theirs = .ok ⟨text, (mergeDocuments b o t).2⟩ := by
  simp [merge3, hbase, hours, htheirs, htext, bind, Except.bind, pure, Except.pure]

/-- What a text holds; nothing when it cannot be read. -/
def contents (text : τ) : Document :=
  match codec.parse text with
  | .ok d => d
  | .error _ => .empty

end Saving

/-- The ids of a section of records. -/
def sectionIds : Option Value → List String
  | some (.array items) => items.map (recordId · "id")
  | _ => []

/-- A section that is missing, or holds records with distinct ids. -/
def RecordSection : Option Value → Prop
  | none => True
  | some (.array items) => KeyedBy "id" items
  | some _ => False

instance (value : Option Value) : Decidable (RecordSection value) :=
  match value with
  | none => inferInstanceAs (Decidable True)
  | some (.array items) => inferInstanceAs (Decidable (KeyedBy "id" items))
  | some (.string _) | some (.integer _) | some (.float _)
  | some (.boolean _) | some (.datetime _) | some (.table _) =>
    inferInstanceAs (Decidable False)

/-- Every section and record of the one is in the other. -/
def SectionIncludes (small large : Option Value) : Prop :=
  (small.isSome → large.isSome) ∧ ∀ id ∈ sectionIds small, id ∈ sectionIds large

instance (small large : Option Value) : Decidable (SectionIncludes small large) :=
  inferInstanceAs (Decidable (_ ∧ _))

theorem SectionIncludes.refl (value : Option Value) :
    SectionIncludes value value := ⟨id, fun _ hid => hid⟩

theorem SectionIncludes.trans {small middle large : Option Value}
    (h : SectionIncludes small middle) (h' : SectionIncludes middle large) :
    SectionIncludes small large :=
  ⟨fun hsome => h'.1 (h.1 hsome), fun id hid => h'.2 id (h.2 id hid)⟩

theorem RecordSection.cases {value : Option Value} (h : RecordSection value) :
    value = none ∨ ∃ items, value = some (.array items) ∧ KeyedBy "id" items := by
  rcases value with _ | value
  · exact Or.inl rfl
  · cases value with
    | array items => exact Or.inr ⟨items, rfl, h⟩
    | _ => exact absurd h id

theorem RecordSection.keyedBy_items {value : Option Value} (h : RecordSection value) :
    KeyedBy "id" ((value.bind Value.asArray).getD []) := by
  rcases h.cases with rfl | ⟨items, rfl, hkeyed⟩
  · exact ⟨by simp, nodup_nil⟩
  · exact hkeyed

theorem sectionIds_eq {value : Option Value} (h : RecordSection value) :
    sectionIds value = ((value.bind Value.asArray).getD []).map (recordId · "id") := by
  rcases h.cases with rfl | ⟨items, rfl, -⟩ <;> rfl

theorem map_recordId_of_same {xs ys : List Value} (key : String)
    (h : List.Forall₂ (fun x y => same x y = true) xs ys)
    (hxs : ∀ x ∈ xs, x.wellFormed = true) (hys : ∀ y ∈ ys, y.wellFormed = true) :
    xs.map (recordId · key) = ys.map (recordId · key) := by
  induction h with
  | nil => rfl
  | cons hhead htail ih =>
    rename_i x y xs ys
    rw [map_cons, map_cons, recordId_of_same (hxs x (by simp))
      (hys y (by simp)) hhead key, ih (fun x hx => hxs x (by simp [hx]))
        fun y hy => hys y (by simp [hy])]

theorem get_string_of_same {x y : Value} {key id : String} (hx : x.wellFormed = true)
    (hy : y.wellFormed = true) (h : same x y = true) (hget : x.get key = some (.string id)) :
    y.get key = some (.string id) := by
  have hfield := same_get hx hy h key
  rw [hget] at hfield
  cases hother : y.get key with
  | none => simp [hother, sameOpt] at hfield
  | some value =>
    cases value <;> simp_all [sameOpt, same]

/-- Records that are the same are told apart by the same keys. -/
theorem KeyedBy.of_same {xs ys : List Value} {key : String}
    (hkeyed : KeyedBy key xs)
    (h : List.Forall₂ (fun x y => same x y = true) xs ys)
    (hxs : ∀ x ∈ xs, x.wellFormed = true) (hys : ∀ y ∈ ys, y.wellFormed = true) :
    KeyedBy key ys := by
  refine ⟨fun y hy => ?_, map_recordId_of_same key h hxs hys ▸ hkeyed.distinct⟩
  obtain ⟨i, hi, rfl⟩ := getElem_of_mem hy
  have hlength := h.length_eq
  have hx : i < xs.length := by omega
  have hsame := (forall₂_iff_get.mp h).2 i hx hi
  obtain ⟨id, hid⟩ := hkeyed.named _ (getElem_mem hx)
  exact ⟨id, get_string_of_same (hxs _ (getElem_mem hx)) (hys _ (getElem_mem hi)) hsame hid⟩

theorem sectionIds_of_same {x y : Option Value} (hx : wellFormedOpt x)
    (hy : wellFormedOpt y) (h : sameOpt x y = true) :
    sectionIds x = sectionIds y := by
  rcases x with _ | x <;> rcases y with _ | y
  · rfl
  · cases h
  · cases h
  · cases x with
    | array items =>
      cases y with
      | array others =>
        exact map_recordId_of_same "id" ((same_array_iff items others).mp h)
          ((wellFormed_array items).mp ((wellFormedOpt_some _).mp hx))
          ((wellFormed_array others).mp ((wellFormedOpt_some _).mp hy))
      | _ => simp [sameOpt, same] at h
    | _ => cases y <;> first | rfl | simp [sameOpt, same] at h

theorem sectionIncludes_of_same {x y : Option Value} (hx : wellFormedOpt x) (hy : wellFormedOpt y)
    (hsection : RecordSection x) (h : sameOpt x y = true) :
    RecordSection y ∧ SectionIncludes x y ∧ SectionIncludes y x := by
  rcases hsection.cases with rfl | ⟨items, rfl, hkeyed⟩
  · cases y with
    | none =>
      exact ⟨trivial, SectionIncludes.refl none, SectionIncludes.refl none⟩
    | some value => cases h
  · rcases y with _ | y
    · cases h
    · cases y with
      | array others =>
        have hitems := (same_array_iff items others).mp h
        have hwf := (wellFormed_array items).mp ((wellFormedOpt_some _).mp hx)
        have hwf' := (wellFormed_array others).mp ((wellFormedOpt_some _).mp hy)
        have hids := sectionIds_of_same hx hy h
        refine ⟨hkeyed.of_same hitems hwf hwf', ⟨fun _ => rfl, ?_⟩,
          fun _ => rfl, ?_⟩ <;> simp [hids]
      | _ => simp [sameOpt, same] at h

/-- What the rule makes of an id that neither side removed is there when one
side has it. -/
theorem mergeRecord_isSome {sectionName key : String} {base ours theirs : Option Value}
    (hours : base.isSome → ours.isSome) (htheirs : base.isSome → theirs.isSome)
    (h : ours.isSome ∨ theirs.isSome) :
    (mergeRecord sectionName key base ours theirs).1.isSome := by
  rcases ours with _ | item <;> rcases theirs with _ | other <;>
    rcases base with _ | baseItem <;> simp_all [mergeRecord]
  · exact mergePresent_isSome sectionName none item other
  · exact mergePresent_isSome sectionName (some baseItem) item other

theorem dropped_of_whole {base ours theirs : Option Value} (hsection : RecordSection base)
    (hsection' : RecordSection ours) (hsection'' : RecordSection theirs)
    (hdiffer : Differ base ours theirs) (hwhole : splits base ours theirs = false) :
    base.isSome ∧ (ours = none ∨ theirs = none) := by
  rcases hsection'.cases with rfl | ⟨items, rfl, hitems⟩
  · rcases hsection.cases with rfl | ⟨baseItems, rfl, -⟩
    · exact absurd hdiffer.ours_base (by simp [sameOpt])
    · exact ⟨rfl, Or.inl rfl⟩
  · rcases hsection''.cases with rfl | ⟨others, rfl, hothers⟩
    · rcases hsection.cases with rfl | ⟨baseItems, rfl, -⟩
      · exact absurd hdiffer.theirs_base (by simp [sameOpt])
      · exact ⟨rfl, Or.inr rfl⟩
    · rw [splits, isSome_eq_false_iff, isNone_iff_eq_none] at hwhole
      have hempty := recordKey_eq_none (Or.inl rfl) (by
        simpa using ⟨hsection.keyedBy_items.named, hitems.named, hothers.named⟩) hwhole
      obtain rfl : items = [] := hempty items (by simp)
      obtain rfl : others = [] := hempty others (by simp)
      exact absurd hdiffer.sides (by simp [sameOpt, same, sameItems])

section Sections

variable {base ours theirs : Option Value}

theorem isSome_of_sameOpt {x y : Option Value} (h : sameOpt x y = true) : x.isSome = y.isSome := by
  cases x <;> cases y <;> simp_all [sameOpt]

theorem recordSection_mergeValue (sectionName : String) (hours : wellFormedOpt ours)
    (htheirs : wellFormedOpt theirs) (hsection : RecordSection base)
    (hsection' : RecordSection ours) (hsection'' : RecordSection theirs) :
    RecordSection (mergeValue sectionName base ours theirs).1 := by
  have hcase := mergeCase sectionName base ours theirs
  generalize mergeValue sectionName base ours theirs = merged at hcase ⊢
  cases hcase with
  | ours => exact hsection'
  | theirs => exact hsection''
  | tables => exact absurd hsection' id
  | whole => exact hsection'
  | records hdiffer hkey =>
    rename_i items others key
    have hbaseItems := hsection.keyedBy_items
    obtain rfl : key = "id" := recordKey_eq_id hkey (by
      simpa [records_of_named hbaseItems.named,
        records_of_named hsection'.named, records_of_named hsection''.named]
        using ⟨hbaseItems, hsection', hsection''⟩)
    exact keyedBy_mergeRecords sectionName _ hsection' hsection''
      ((wellFormed_array items).mp ((wellFormedOpt_some _).mp hours))
      ((wellFormed_array others).mp ((wellFormedOpt_some _).mp htheirs))

/-- When neither side dropped the section, it is there when one side has it. -/
theorem isSome_mergeValue (sectionName : String) (hsection : RecordSection base)
    (hsection' : RecordSection ours) (hsection'' : RecordSection theirs)
    (hmine : base.isSome → ours.isSome) (hother : base.isSome → theirs.isSome)
    (h : ours.isSome ∨ theirs.isSome) :
    (mergeValue sectionName base ours theirs).1.isSome := by
  have hcase := mergeCase sectionName base ours theirs
  generalize mergeValue sectionName base ours theirs = merged at hcase ⊢
  cases hcase with
  | ours hexit =>
    rcases h with h | h
    · exact h
    · rcases hexit with hexit | hexit
      · rwa [isSome_of_sameOpt hexit]
      · exact hmine (by rwa [← isSome_of_sameOpt hexit])
  | theirs _ _ hexit =>
    rcases h with h | h
    · exact hother (by rwa [← isSome_of_sameOpt hexit])
    · exact h
  | tables => rfl
  | records => rfl
  | whole hdiffer hwhole =>
    obtain ⟨hbase, hnone⟩ := dropped_of_whole hsection hsection' hsection'' hdiffer hwhole
    rcases hnone with rfl | rfl
    · exact absurd (hmine hbase) (by simp)
    · exact absurd (hother hbase) (by simp)

/-- A record of either side stays when neither side dropped the section, and
neither the record where base had it. -/
theorem mem_sectionIds_mergeValue (sectionName : String) (hbase : wellFormedOpt base)
    (hours : wellFormedOpt ours) (htheirs : wellFormedOpt theirs) (hsection : RecordSection base)
    (hsection' : RecordSection ours) (hsection'' : RecordSection theirs)
    (hmine : base.isSome → ours.isSome) (hother : base.isSome → theirs.isSome) {id : String}
    (hid : id ∈ sectionIds ours ∨ id ∈ sectionIds theirs)
    (hkept : id ∈ sectionIds base → id ∈ sectionIds ours ∧ id ∈ sectionIds theirs) :
    id ∈ sectionIds (mergeValue sectionName base ours theirs).1 := by
  have hcase := mergeCase sectionName base ours theirs
  generalize mergeValue sectionName base ours theirs = merged at hcase ⊢
  cases hcase with
  | ours hexit =>
    rcases hid with hid | hid
    · exact hid
    · rcases hexit with hexit | hexit
      · exact (sectionIncludes_of_same hours htheirs hsection' hexit).2.2.2 id hid
      · exact (hkept ((sectionIncludes_of_same htheirs hbase hsection'' hexit).2.1.2 id hid)).1
  | theirs _ _ hexit =>
    rcases hid with hid | hid
    · exact (hkept ((sectionIncludes_of_same hours hbase hsection' hexit).2.1.2 id hid)).2
    · exact hid
  | tables => exact absurd hsection' False.elim
  | records hdiffer hkey =>
    rename_i items others key
    have hbaseItems := hsection.keyedBy_items
    obtain rfl : key = "id" := recordKey_eq_id hkey (by
      simpa [records_of_named hbaseItems.named,
        records_of_named hsection'.named, records_of_named hsection''.named]
        using ⟨hbaseItems, hsection', hsection''⟩)
    have hwf := (wellFormed_array items).mp ((wellFormedOpt_some _).mp hours)
    have hwf' := (wellFormed_array others).mp ((wellFormedOpt_some _).mp htheirs)
    rw [sectionIds_eq hsection] at hkept
    change id ∈ items.map (recordId · "id") ∨ id ∈ others.map (recordId · "id") at hid
    change _ → id ∈ items.map (recordId · "id") ∧ id ∈ others.map (recordId · "id") at hkept
    change id ∈ (mergeRecords _ _ _ _ _).1.map (recordId · "id")
    simp only [← findKey_isSome_iff] at hid hkept ⊢
    rw [(findKey_mergeRecords sectionName _ hsection' hsection'' hwf hwf').2,
      byId_eq_findKey hbaseItems]
    exact mergeRecord_isSome (fun h => (hkept h).1) (fun h => (hkept h).2) hid
  | whole hdiffer hwhole =>
    obtain ⟨hsome, hnone⟩ := dropped_of_whole hsection hsection' hsection'' hdiffer hwhole
    rcases hnone with rfl | rfl
    · exact absurd (hmine hsome) (by simp)
    · exact absurd (hother hsome) (by simp)

theorem sectionIncludes_mergeValue (sectionName : String) (hbase : wellFormedOpt base)
    (hours : wellFormedOpt ours) (htheirs : wellFormedOpt theirs) (hsection : RecordSection base)
    (hsection' : RecordSection ours) (hsection'' : RecordSection theirs)
    (hmine : SectionIncludes base ours) (hother : SectionIncludes base theirs) :
    SectionIncludes ours (mergeValue sectionName base ours theirs).1 ∧
      SectionIncludes theirs (mergeValue sectionName base ours theirs).1 := by
  have hsome := isSome_mergeValue sectionName hsection hsection' hsection'' hmine.1 hother.1
  have hids := fun id (hid : id ∈ sectionIds ours ∨ id ∈ sectionIds theirs) =>
    mem_sectionIds_mergeValue sectionName hbase hours htheirs
      hsection hsection' hsection'' hmine.1 hother.1 hid
      fun hmem => ⟨hmine.2 id hmem, hother.2 id hmem⟩
  exact ⟨⟨fun h => hsome (Or.inl h), fun id hid => hids id (Or.inl hid)⟩,
    fun h => hsome (Or.inr h), fun id hid => hids id (Or.inr hid)⟩

end Sections

end Opensesh
