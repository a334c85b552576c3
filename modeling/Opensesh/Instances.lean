/-
Several instances sharing one settings file, each with its own baseline: along
runs in which they only add and change records, a save keeps every record
saved before, unless an instance that never read the file writes over it.
-/
import Opensesh.Machine
import Opensesh.Saves
import Mathlib.Logic.Function.Basic

namespace Opensesh

open Option

section Files

variable {τ : Type} [DecidableEq τ] (codec : Codec τ) (sections : List String)

/-- The sections of records hold records with distinct ids. -/
def RecordFile (d : Document) : Prop := ∀ name ∈ sections, RecordSection (d.table.lookup name)

instance (d : Document) : Decidable (RecordFile sections d) :=
  inferInstanceAs (Decidable (∀ name ∈ sections, _))

/-- Every section and record of the one file is in the other. -/
def Includes (small large : Document) : Prop :=
  ∀ name ∈ sections, SectionIncludes (small.table.lookup name) (large.table.lookup name)

instance (small large : Document) : Decidable (Includes sections small large) :=
  inferInstanceAs (Decidable (∀ name ∈ sections, _))

/-- A text that reads as a file of records. -/
def Readable (text : τ) : Prop :=
  match codec.parse text with
  | .ok d => RecordFile sections d
  | .error _ => False

instance (text : τ) : Decidable (Readable codec sections text) := by
  unfold Readable
  split <;> infer_instance

variable {codec sections}

theorem Includes.refl (d : Document) : Includes sections d d := fun _ _ => SectionIncludes.refl _

theorem Includes.trans {small middle large : Document}
    (h : Includes sections small middle) (h' : Includes sections middle large) :
    Includes sections small large :=
  fun name hname => (h name hname).trans (h' name hname)

theorem Includes.of_same {d e : Document} (hd : RecordFile sections d)
    (h : d.Same e) : RecordFile sections e ∧ Includes sections d e := by
  have hsection := fun name hname => sectionIncludes_of_same
    (d.wellFormedOpt_lookup name) (e.wellFormedOpt_lookup name)
    (hd name hname) (h name)
  exact ⟨fun name hname => (hsection name hname).1, fun name hname => (hsection name hname).2.1⟩

/-- A merge of files neither of which removed a record keeps those of both. -/
theorem mergeDocuments_includes {base ours theirs : Document} (hbase : RecordFile sections base)
    (hours : RecordFile sections ours) (htheirs : RecordFile sections theirs)
    (hmine : Includes sections base ours) (hother : Includes sections base theirs) :
    RecordFile sections (mergeDocuments base ours theirs).1 ∧
      Includes sections ours (mergeDocuments base ours theirs).1 ∧
      Includes sections theirs (mergeDocuments base ours theirs).1 := by
  have hsection := fun name hname => sectionIncludes_mergeValue name
    (base.wellFormedOpt_lookup name) (ours.wellFormedOpt_lookup name)
    (theirs.wellFormedOpt_lookup name) (hbase name hname) (hours name hname)
    (htheirs name hname) (hmine name hname) (hother name hname)
  refine ⟨fun name hname => ?_, fun name hname => ?_, fun name hname => ?_⟩ <;>
    rw [lookup_mergeDocuments]
  · exact recordSection_mergeValue name (ours.wellFormedOpt_lookup name)
      (theirs.wellFormedOpt_lookup name) (hbase name hname) (hours name hname)
      (htheirs name hname)
  · exact (hsection name hname).1
  · exact (hsection name hname).2

omit [DecidableEq τ] in
theorem Readable.parse_eq {text : τ} (h : Readable codec sections text) :
    codec.parse text = .ok (contents codec text) ∧ RecordFile sections (contents codec text) := by
  rw [Readable] at h
  split at h
  · rename_i d hd
    rw [contents, hd]
    exact ⟨rfl, h⟩
  · exact absurd h id

omit [DecidableEq τ] in
theorem readable_of_same {d e : Document} {text : τ} (hparse : codec.parse text = .ok e)
    (hd : RecordFile sections d) (hsame : d.Same e) :
    Readable codec sections text ∧ Includes sections d (contents codec text) := by
  obtain ⟨he, hincludes⟩ := Includes.of_same hd hsame
  rw [Readable, contents, hparse]
  exact ⟨he, hincludes⟩

/-- A save of a text that removed nothing, over a file that removed nothing,
keeps the records of both. -/
theorem writeMerging_includes (hcodec : codec.Lawful)
    {base text current : τ} (hbase : Readable codec sections base)
    (htext : Readable codec sections text)
    (hcurrent : Readable codec sections current)
    (hmine : Includes sections (contents codec base) (contents codec text))
    (hother : Includes sections (contents codec base) (contents codec current)) :
    let saved := writeMerging codec (some current) (some base) text
    saved.baseline = some text ∧ Readable codec sections saved.file ∧
      Includes sections (contents codec text) (contents codec saved.file) ∧
      Includes sections (contents codec current) (contents codec saved.file) := by
  by_cases hsame : current ≠ base ∧ current ≠ text
  · obtain ⟨hrecords, hours, htheirs⟩ := mergeDocuments_includes
      hbase.parse_eq.2 htext.parse_eq.2 hcurrent.parse_eq.2 hmine hother
    obtain ⟨out, hout⟩ := hcodec.prints hbase.parse_eq.1 htext.parse_eq.1 hcurrent.parse_eq.1
    obtain ⟨merged, hparse, hmerged⟩ := hcodec.reads hout
    obtain ⟨hreadable, hincludes⟩ := readable_of_same hparse hrecords hmerged
    have hmerge := merge3_eq hbase.parse_eq.1 htext.parse_eq.1 hcurrent.parse_eq.1 hout
    simp only [writeMerging, hsame, ne_eq, not_false_eq_true, and_self, ↓reduceIte, hmerge]
    exact ⟨trivial, hreadable, hours.trans hincludes, htheirs.trans hincludes⟩
  · simp only [writeMerging, hsame, ↓reduceIte]
    refine ⟨trivial, htext, Includes.refl _, ?_⟩
    rw [not_and_or, not_not, not_not] at hsame
    rcases hsame with rfl | rfl
    · exact hmine
    · exact Includes.refl _

end Files

/-- The shared file and, for each instance, its baseline and its own text. -/
structure Shared (ι τ : Type) where
  file : Option τ
  baseline : ι → Option τ
  own : ι → τ

/-- An instance reads the file and adopts it, or saves its changed text. -/
inductive InstanceEvent (ι τ : Type) where
  | read (i : ι)
  | save (i : ι) (text : τ)

section Runs

variable {ι τ : Type} [DecidableEq ι] [DecidableEq τ] (codec : Codec τ) (sections : List String)

def instanceStep (s : Shared ι τ) : InstanceEvent ι τ → Option (Shared ι τ)
  | .read i => s.file.map fun text =>
    { s with
      baseline := Function.update s.baseline i (some text)
      own := Function.update s.own i text }
  | .save i text =>
    let saved := writeMerging codec s.file (s.baseline i) text
    some
      { file := some saved.file
        baseline := Function.update s.baseline i saved.baseline
        own := Function.update s.own i text }

/-- A save adds or changes records of the instance's own text. -/
def OnlyAdds (s : Shared ι τ) : InstanceEvent ι τ → Prop
  | .read _ => True
  | .save i text => Readable codec sections text ∧
      Includes sections (contents codec (s.own i)) (contents codec text)

/-- A save has a baseline, or finds nothing in the file that its text lacks. -/
def KnowsFile (s : Shared ι τ) : InstanceEvent ι τ → Prop
  | .read _ => True
  | .save i text => (s.baseline i).isSome ∨
      ∀ current ∈ s.file, Includes sections (contents codec current) (contents codec text)

instance (s : Shared ι τ) (e : InstanceEvent ι τ) : Decidable (OnlyAdds codec sections s e) := by
  cases e <;> unfold OnlyAdds <;> infer_instance

instance (s : Shared ι τ) (e : InstanceEvent ι τ) : Decidable (KnowsFile codec sections s e) := by
  cases e <;> unfold KnowsFile <;> infer_instance

/-- No instance has read the file yet. -/
structure Start (s : Shared ι τ) : Prop where
  file : ∀ text ∈ s.file, Readable codec sections text
  baseline : ∀ i, s.baseline i = none
  own : ∀ i, Readable codec sections (s.own i)

/-- Each baseline is behind both its instance and the file. -/
structure Consistent (s : Shared ι τ) : Prop where
  file : ∀ text ∈ s.file, Readable codec sections text
  own : ∀ i, Readable codec sections (s.own i)
  behind : ∀ i, ∀ base ∈ s.baseline i, Readable codec sections base ∧
    Includes sections (contents codec base) (contents codec (s.own i)) ∧
    ∃ text ∈ s.file, Includes sections (contents codec base) (contents codec text)

/-- The file of the later state has what the earlier one's had. -/
def FileGrows (s t : Shared ι τ) : Prop :=
  ∀ text ∈ s.file, ∃ text' ∈ t.file, Includes sections (contents codec text) (contents codec text')

variable {codec sections}

omit [DecidableEq ι] [DecidableEq τ] in
theorem Start.consistent {s : Shared ι τ} (h : Start codec sections s) :
    Consistent codec sections s :=
  ⟨h.file, h.own, fun i base hbase => by
    rw [h.baseline i] at hbase
    cases hbase⟩

omit [DecidableEq ι] in
theorem save_includes (hcodec : codec.Lawful) {s : Shared ι τ}
    (hs : Consistent codec sections s) {i : ι} {text : τ}
    (hadds : OnlyAdds codec sections s (.save i text))
    (hknows : KnowsFile codec sections s (.save i text)) :
    let saved := writeMerging codec s.file (s.baseline i) text
    Readable codec sections saved.file ∧
      Includes sections (contents codec text) (contents codec saved.file) ∧
      (∀ current ∈ s.file, Includes sections (contents codec current) (contents codec saved.file)) ∧
      ∀ base ∈ saved.baseline, base = text := by
  obtain ⟨htext, hgrows⟩ := hadds
  cases hbase : s.baseline i with
  | none =>
    have hcovered := hknows.resolve_left (by simp [hbase])
    exact ⟨htext, Includes.refl _, hcovered, by rintro _ ⟨⟩⟩
  | some base =>
    obtain ⟨hreadable, hbehind, current, hcurrent, hfile⟩ := hs.behind i base hbase
    obtain ⟨hbaseline, hsaved, hours, htheirs⟩ := writeMerging_includes hcodec
      hreadable htext (hs.file current hcurrent) (hbehind.trans hgrows) hfile
    rw [mem_def] at hcurrent
    rw [hcurrent]
    refine ⟨hsaved, hours, ?_, ?_⟩
    · rintro _ ⟨⟩
      exact htheirs
    · rw [hbaseline]
      rintro _ ⟨⟩
      rfl

theorem instanceStep_consistent (hcodec : codec.Lawful) {s t : Shared ι τ} {e : InstanceEvent ι τ}
    (hs : Consistent codec sections s) (hadds : OnlyAdds codec sections s e)
    (hknows : KnowsFile codec sections s e) (hstep : instanceStep codec s e = some t) :
    Consistent codec sections t ∧ FileGrows codec sections s t := by
  cases e with
  | read i =>
    obtain ⟨text, htext, rfl⟩ := map_eq_some_iff.mp hstep
    have hreadable := hs.file text htext
    refine ⟨⟨hs.file, fun j => ?_, fun j base hbase => ?_⟩,
      fun current hcurrent => ⟨current, hcurrent, Includes.refl _⟩⟩
    · by_cases hj : j = i
      · subst j
        simpa using hreadable
      · simpa [hj] using hs.own j
    · by_cases hj : j = i
      · subst j
        obtain rfl : text = base := by simpa using hbase
        refine ⟨hreadable, ?_, text, htext, Includes.refl _⟩
        simpa using Includes.refl _
      · simp only [Function.update_of_ne hj] at hbase ⊢
        exact hs.behind j base hbase
  | save i text =>
    obtain rfl := some.inj hstep
    obtain ⟨hreadable, hmine, hfile, hbaseline⟩ := save_includes hcodec hs hadds hknows
    refine ⟨⟨?_, fun j => ?_, fun j base hbase => ?_⟩, fun current hcurrent =>
      ⟨_, rfl, hfile current hcurrent⟩⟩
    · rintro _ ⟨⟩
      exact hreadable
    · by_cases hj : j = i
      · subst j
        simpa using hadds.1
      · simpa [hj] using hs.own j
    · by_cases hj : j = i
      · subst j
        obtain rfl : base = text := hbaseline base (by simpa using hbase)
        refine ⟨hadds.1, ?_, _, rfl, hmine⟩
        simpa using Includes.refl _
      · simp only [Function.update_of_ne hj] at hbase ⊢
        obtain ⟨hbase', hbehind, current, hcurrent, hincludes⟩ := hs.behind j base hbase
        exact ⟨hbase', hbehind, _, rfl, hincludes.trans (hfile current hcurrent)⟩

theorem run_fileGrows (hcodec : codec.Lawful) {s t : Shared ι τ}
    {events : List (InstanceEvent ι τ)} (hs : Consistent codec sections s)
    (hrun : GoodRun (instanceStep codec) (fun s e =>
      OnlyAdds codec sections s e ∧ KnowsFile codec sections s e) s events t) :
    Consistent codec sections t ∧ FileGrows codec sections s t := by
  induction hrun with
  | nil s => exact ⟨hs, fun text htext => ⟨text, htext, Includes.refl _⟩⟩
  | cons hgood hstep _ ih =>
    obtain ⟨hnext, hgrows⟩ := instanceStep_consistent hcodec hs hgood.1 hgood.2 hstep
    obtain ⟨hlast, hgrows'⟩ := ih hnext
    refine ⟨hlast, fun text htext => ?_⟩
    obtain ⟨text', htext', hincludes⟩ := hgrows text htext
    obtain ⟨text'', htext'', hincludes'⟩ := hgrows' text' htext'
    exact ⟨text'', htext'', hincludes.trans hincludes'⟩

/-- Whatever an instance saved is in the file ever after. -/
theorem saved_records_stay (hcodec : codec.Lawful) {s t : Shared ι τ}
    {events : List (InstanceEvent ι τ)} (hstart : Start codec sections s)
    (hrun : GoodRun (instanceStep codec) (fun s e =>
      OnlyAdds codec sections s e ∧ KnowsFile codec sections s e) s events t)
    {i : ι} {text : τ} (hsave : .save i text ∈ events) :
    ∃ file ∈ t.file, Includes sections (contents codec text) (contents codec file) := by
  obtain ⟨before, after, earlier, later, hearlier, ⟨hadds, hknows⟩, hstep,
    hlater⟩ := hrun.split hsave
  have hbefore := (run_fileGrows hcodec hstart.consistent hearlier).1
  have hafter := (instanceStep_consistent hcodec hbefore hadds hknows hstep).1
  obtain ⟨-, hmine, -⟩ := save_includes hcodec hbefore hadds hknows
  obtain rfl := Option.some.inj hstep
  obtain ⟨file, hfile, hincludes⟩ := (run_fileGrows hcodec hafter hlater).2 _ rfl
  exact ⟨file, hfile, hmine.trans hincludes⟩

end Runs

namespace InstancesWitness

/-- Texts told apart by what they hold. -/
def codec : Codec Document := ⟨.ok, .ok⟩

theorem codec_lawful : codec.Lawful :=
  ⟨by rintro d _ ⟨⟩; exact ⟨d, rfl, .refl d⟩, fun _ _ _ => ⟨_, rfl⟩⟩

def hosts (ids : List String) (h : (Value.table [("host", .array (ids.map fun
    id => .table [("id", .string id)]))]).wellFormed = true) : Document := ⟨_, h⟩

def sharedFile : Shared Bool Document := ⟨none, fun _ => none, fun _ => .empty⟩

/-- The first instance makes the file, the second reads it and adds a record,
and the first saves again without having read the file. -/
def saves : List (InstanceEvent Bool Document) :=
  [.save true (hosts ["a"] (by decide)), .read false,
    .save false (hosts ["a", "b"] (by decide)),
    .save true (hosts ["a", "c"] (by decide))]

theorem added_record_overwritten :
    ∃ t, GoodRun (instanceStep codec) (OnlyAdds codec ["host"]) sharedFile saves t ∧
      ¬ ∃ file ∈ t.file, Includes ["host"]
        (contents codec (hosts ["a", "b"] (by decide))) (contents codec file) := by
  refine ⟨_, .cons (by decide) rfl (.cons trivial rfl (.cons (by decide) rfl
    (.cons (by decide) rfl (.nil _)))), ?_⟩
  rintro ⟨_, ⟨⟩, hincludes⟩
  exact absurd hincludes (by decide)

/-- Both instances read the file before they save over the other's version. -/
def mergingSaves : List (InstanceEvent Bool Document) :=
  [.save true (hosts ["a"] (by decide)), .read true, .read false,
    .save false (hosts ["a", "b"] (by decide)),
    .save true (hosts ["a", "c"] (by decide))]

theorem added_record_merged :
    ∃ t, runFrom (instanceStep codec) sharedFile mergingSaves = some t ∧
      ∃ file ∈ t.file, Includes ["host"]
        (contents codec (hosts ["a", "b"] (by decide))) (contents codec file) := by
  have hempty : Readable codec ["host"] .empty := by decide
  have hstart : Start codec ["host"] sharedFile := ⟨by rintro _ ⟨⟩, fun _ => rfl, fun _ => hempty⟩
  have hrun : GoodRun (instanceStep codec) (fun s e => OnlyAdds codec ["host"] s e ∧
      KnowsFile codec ["host"] s e) sharedFile mergingSaves _ :=
    .cons (by decide) rfl (.cons (by decide) rfl (.cons (by decide) rfl
      (.cons (by decide) rfl (.cons (by decide) rfl (.nil _)))))
  exact ⟨_, hrun.runFrom_eq,
    saved_records_stay codec_lawful hstart hrun (i := false) (by simp [mergingSaves])⟩

end InstancesWitness

end Opensesh
