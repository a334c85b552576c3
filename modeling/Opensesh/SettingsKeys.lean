/-
Whose value a key of `config.toml` has in the end: the one the app gave it when
only the app changed it, and the other program's when only that one did.
-/
import Opensesh.SettingsAgree
import Opensesh.Instances

namespace Opensesh

/-- The sections a key stands in are tables, so that they are merged key by
key. -/
def InTables (ours theirs : Document) : Key → Prop
  | .inSection name _ =>
    ((ours.table.lookup name).bind Value.asTable).isSome ∧
      ((theirs.table.lookup name).bind Value.asTable).isSome
  | .top _ => True

instance (ours theirs : Document) : ∀ key, Decidable (InTables ours theirs key)
  | .inSection _ _ => inferInstanceAs (Decidable (_ = true ∧ _ = true))
  | .top _ => inferInstanceAs (Decidable True)

section Entries

variable {base ours theirs : Option Value}

theorem mergeValue_eq_ours (sectionName : String) (h : sameOpt theirs base = true) :
    (mergeValue sectionName base ours theirs).1 = ours := by
  rw [mergeValue_eq, h, Bool.or_true, if_pos rfl]

theorem sameOpt_mergeValue_theirs (sectionName : String) (hbase : wellFormedOpt base)
    (hours : wellFormedOpt ours) (htheirs : wellFormedOpt theirs) (h : sameOpt ours base = true) :
    sameOpt (mergeValue sectionName base ours theirs).1 theirs = true := by
  have hcase := mergeCase sectionName base ours theirs
  generalize mergeValue sectionName base ours theirs = merged at hcase ⊢
  cases hcase with
  | ours hexit =>
    rcases hexit with hexit | hexit
    · exact hexit
    · rw [sameOpt_comm htheirs hbase] at hexit
      exact sameOpt_trans hours hbase htheirs h hexit
  | theirs => exact sameOpt_refl theirs htheirs
  | tables hdiffer => simp [hdiffer.ours_base] at h
  | records hdiffer => simp [hdiffer.ours_base] at h
  | whole hdiffer => simp [hdiffer.ours_base] at h

theorem bind_asTable_lookup (value : Option Value) (key : String) :
    ((value.bind Value.asTable).bind fun entries => entries.lookup key) =
      (entriesOf value).lookup key := by
  rcases value with _ | value
  · rfl
  · cases value <;> rfl

theorem lookup_entriesOf_mergeTables (sectionName : String)
    {entries others : Table} (hours : wellFormedOpt (some (.table entries)))
    (htheirs : wellFormedOpt (some (.table others))) (key : String) :
    (entriesOf (some (.table (mergeTables sectionName (base.bind Value.asTable)
        entries others).1))).lookup key =
      (mergeValue (place sectionName key) ((entriesOf base).lookup key)
        ((entriesOf (some (.table entries))).lookup key)
        ((entriesOf (some (.table others))).lookup key)).1 := by
  rw [wellFormedOpt_some, wellFormed_table] at hours htheirs
  rw [entriesOf, lookup_mergeTables _ _ hours.1 htheirs.1, bind_asTable_lookup]
  rfl

variable {key : String}

/-- An entry of a section the other side left alone is this side's. -/
theorem lookup_mergeValue_ours (sectionName : String) (hbase : wellFormedOpt base)
    (hours : wellFormedOpt ours) (htheirs : wellFormedOpt theirs)
    (h : sameOpt ((entriesOf theirs).lookup key) ((entriesOf base).lookup key) = true) :
    sameOpt ((entriesOf (mergeValue sectionName base ours theirs).1).lookup key)
      ((entriesOf ours).lookup key) = true := by
  have hwf := fun {value} (hvalue : wellFormedOpt value) =>
    wellFormedOpt_lookup (wellFormed_entriesOf hvalue) key
  have hcase := mergeCase sectionName base ours theirs
  generalize mergeValue sectionName base ours theirs = merged at hcase ⊢
  cases hcase with
  | ours => exact sameOpt_refl _ (hwf hours)
  | theirs _ _ hexit =>
    have hentry := sameOpt_entriesOf hours hbase hexit key
    rw [sameOpt_comm (hwf hours) (hwf hbase)] at hentry
    exact sameOpt_trans (hwf htheirs) (hwf hbase) (hwf hours) h hentry
  | tables hdiffer =>
    rename_i entries others
    rw [lookup_entriesOf_mergeTables sectionName hours htheirs, mergeValue_eq_ours _ h]
    exact sameOpt_refl _ (hwf hours)
  | records => rfl
  | whole => exact sameOpt_refl _ (hwf hours)

/-- An entry this side left alone is the other side's, when both have the
section. -/
theorem lookup_mergeValue_theirs (sectionName : String) (hbase : wellFormedOpt base)
    (hours : wellFormedOpt ours) (htheirs : wellFormedOpt theirs)
    (htables : (ours.bind Value.asTable).isSome ∧ (theirs.bind Value.asTable).isSome)
    (h : sameOpt ((entriesOf ours).lookup key) ((entriesOf base).lookup key) = true) :
    sameOpt ((entriesOf (mergeValue sectionName base ours theirs).1).lookup key)
      ((entriesOf theirs).lookup key) = true := by
  have hwf := fun {value} (hvalue : wellFormedOpt value) =>
    wellFormedOpt_lookup (wellFormed_entriesOf hvalue) key
  have hcase := mergeCase sectionName base ours theirs
  generalize mergeValue sectionName base ours theirs = merged at hcase ⊢
  cases hcase with
  | ours hexit =>
    rcases hexit with hexit | hexit
    · exact sameOpt_entriesOf hours htheirs hexit key
    · have hentry := sameOpt_entriesOf htheirs hbase hexit key
      rw [sameOpt_comm (hwf htheirs) (hwf hbase)] at hentry
      exact sameOpt_trans (hwf hours) (hwf hbase) (hwf htheirs) h hentry
  | theirs => exact sameOpt_refl _ (hwf htheirs)
  | tables hdiffer =>
    rename_i entries others
    rw [lookup_entriesOf_mergeTables sectionName hours htheirs]
    exact sameOpt_mergeValue_theirs _ (hwf hbase) (hwf hours) (hwf htheirs) h
  | records => rfl
  | whole hdiffer hwhole =>
    obtain ⟨entries, hentries⟩ := Option.isSome_iff_exists.mp htables.1
    obtain ⟨others, hothers⟩ := Option.isSome_iff_exists.mp htables.2
    obtain ⟨x, rfl, hx⟩ := Option.bind_eq_some_iff.mp hentries
    obtain ⟨y, rfl, hy⟩ := Option.bind_eq_some_iff.mp hothers
    cases x <;> cases hx
    cases y <;> cases hy
    cases hwhole

end Entries

section Merges

variable (base ours theirs : Document)

variable {key : Key}

/-- A key the other side left alone is this side's. -/
theorem get_mergeDocuments_ours (h : sameOpt (theirs.get key) (base.get key) = true) :
    sameOpt ((mergeDocuments base ours theirs).1.get key) (ours.get key) = true := by
  cases key with
  | top name =>
    change sameOpt (theirs.table.lookup name) (base.table.lookup name) = true at h
    change sameOpt ((mergeDocuments base ours theirs).1.table.lookup name)
      (ours.table.lookup name) = true
    rw [lookup_mergeDocuments, mergeValue_eq_ours name h]
    exact sameOpt_refl _ (ours.wellFormedOpt_lookup name)
  | inSection name key =>
    change sameOpt ((entriesOf
      ((mergeDocuments base ours theirs).1.table.lookup name)).lookup key)
        ((entriesOf (ours.table.lookup name)).lookup key) = true
    change sameOpt ((entriesOf (theirs.table.lookup name)).lookup key)
      ((entriesOf (base.table.lookup name)).lookup key) = true at h
    rw [lookup_mergeDocuments]
    exact lookup_mergeValue_ours name (base.wellFormedOpt_lookup name)
      (ours.wellFormedOpt_lookup name) (theirs.wellFormedOpt_lookup name) h

/-- A key this side left alone is the other side's. -/
theorem get_mergeDocuments_theirs (htables : InTables ours theirs key)
    (h : sameOpt (ours.get key) (base.get key) = true) :
    sameOpt ((mergeDocuments base ours theirs).1.get key) (theirs.get key) = true := by
  cases key with
  | top name =>
    change sameOpt ((mergeDocuments base ours theirs).1.table.lookup name)
      (theirs.table.lookup name) = true
    rw [lookup_mergeDocuments]
    exact sameOpt_mergeValue_theirs name (base.wellFormedOpt_lookup name)
      (ours.wellFormedOpt_lookup name) (theirs.wellFormedOpt_lookup name) h
  | inSection name key =>
    change sameOpt ((entriesOf
      ((mergeDocuments base ours theirs).1.table.lookup name)).lookup key)
        ((entriesOf (theirs.table.lookup name)).lookup key) = true
    rw [lookup_mergeDocuments]
    exact lookup_mergeValue_theirs name (base.wellFormedOpt_lookup name)
      (ours.wellFormedOpt_lookup name) (theirs.wellFormedOpt_lookup name)
      htables h

end Merges

namespace Config

/-- Both write the same under the key. -/
def AgreeAt (key : Key) (c c' : Config) : Prop :=
  sameOpt (c.toRoot.get key) (c'.toRoot.get key) = true

instance (key : Key) (c c' : Config) : Decidable (AgreeAt key c c') :=
  inferInstanceAs (Decidable (_ = true))

variable {key : Key}

theorem AgreeAt.refl (c : Config) : AgreeAt key c c :=
  sameOpt_refl _ (c.toRoot.wellFormedOpt_get key)

variable {c c' : Config}

theorem AgreeAt.symm (h : AgreeAt key c c') : AgreeAt key c' c := by
  rwa [AgreeAt, sameOpt_comm (c'.toRoot.wellFormedOpt_get key) (c.toRoot.wellFormedOpt_get key)]

theorem AgreeAt.trans {c'' : Config} (h : AgreeAt key c c') (h' : AgreeAt key c' c'') :
    AgreeAt key c c'' :=
  sameOpt_trans (c.toRoot.wellFormedOpt_get key) (c'.toRoot.wellFormedOpt_get key)
    (c''.toRoot.wellFormedOpt_get key) h h'

theorem Same.agreeAt (h : c.Same c') (hkey : key.Valid) : AgreeAt key c c' := h.get_toRoot hkey

end Config

open Config (AgreeAt)

section Keys

variable {τ : Type} [DecidableEq τ] (format : ConfigFormat τ)

omit [DecidableEq τ] in
theorem configOf_some (text : τ) :
    configOf format (some text) = .fromRoot (contents format.codec text) := by
  simp only [configOf, readConfig, parseConfig, Config.fromTomlStr, contents]
  cases format.codec.parse text with
  | error message => rfl
  | ok d => rfl

/-- Other programs leave the key as they find it. -/
def OthersKeep (key : Key) (s : AppSettings τ) : SettingsEvent τ → Prop
  | .external text => ∀ current ∈ s.disk,
      sameOpt ((contents format.codec text).get key)
        ((contents format.codec current).get key) = true
  | _ => True

/-- The app leaves the key as it is. -/
def AppKeeps (key : Key) (s : AppSettings τ) : SettingsEvent τ → Prop
  | .change apply => ∀ config ∈ apply s.config, AgreeAt key s.config config
  | _ => True

/-- A save that can tell that the app left the key: the file was not replaced
since the baseline, or has what is written, or the baseline has the key as it
is written. -/
def WriteTells (key : Key) (baseline : Option τ) (text current : τ) : Prop :=
  match baseline with
  | none => AgreeAt key (configOf format (some text)) (configOf format (some current))
  | some base => current = base ∨ current = text ∨
      InTables (contents format.codec text) (contents format.codec current) key ∧
        sameOpt ((contents format.codec text).get key) ((contents format.codec base).get key) = true

def SavesTell (key : Key) (s : AppSettings τ) : SettingsEvent τ → Prop
  | .fire => ∀ job ∈ s.job, ∀ current ∈ s.disk, WriteTells format key s.baseline job.2 current
  | _ => True

omit [DecidableEq τ] in
instance (key : Key) (s : AppSettings τ) : ∀ e, Decidable (OthersKeep format key s e)
  | .external _ => inferInstanceAs (Decidable (∀ current ∈ s.disk, _ = true))
  | .change _ | .fire | .writeDone | .read | .handle =>
    inferInstanceAs (Decidable True)

omit [DecidableEq τ] in
instance (key : Key) (s : AppSettings τ) : ∀ e, Decidable (AppKeeps key s e)
  | .change apply =>
    inferInstanceAs (Decidable (∀ config ∈ apply s.config, AgreeAt key _ config))
  | .fire | .writeDone | .external _ | .read | .handle =>
    inferInstanceAs (Decidable True)

instance (key : Key) (baseline : Option τ) (text current : τ) :
    Decidable (WriteTells format key baseline text current) := by
  unfold WriteTells
  split <;> infer_instance

instance (key : Key) (s : AppSettings τ) : ∀ e, Decidable (SavesTell format key s e)
  | .fire => inferInstanceAs (Decidable (∀ job ∈ s.job, ∀ current ∈ s.disk,
      WriteTells format key _ job.2 current))
  | .change _ | .writeDone | .external _ | .read | .handle =>
    inferInstanceAs (Decidable True)

variable {format} {key : Key}

omit [DecidableEq τ] in
theorem agreeAt_texts (hkey : key.Valid) {text other : τ}
    (h : sameOpt ((contents format.codec text).get key)
      ((contents format.codec other).get key) = true) :
    AgreeAt key (configOf format (some text)) (configOf format (some other)) := by
  rw [configOf_some, configOf_some]
  exact Config.get_toRoot_fromRoot hkey h

variable {current : τ} {s : AppSettings τ} {job : Nat × τ}

theorem contents_merged (hcodec : format.codec.Lawful) {base text : τ} (hbase : Parses format base)
    (htext : Parses format text) (hcurrent : Parses format current)
    (hdiffer : current ≠ base ∧ current ≠ text) :
    (mergeDocuments (contents format.codec base) (contents format.codec text)
      (contents format.codec current)).1.Same (contents format.codec
        (writeMerging format.codec (some current) (some base) text).file) := by
  have hparse : ∀ {text : τ}, Parses format text →
      format.codec.parse text = .ok (contents format.codec text) := by
    intro text h
    rw [Parses] at h
    rw [contents]
    cases hparse : format.codec.parse text with
    | error message => simp [hparse, Except.isOk, Except.toBool] at h
    | ok d => rfl
  obtain ⟨out, hout⟩ := hcodec.prints (hparse hbase) (hparse htext) (hparse hcurrent)
  obtain ⟨merged, hmerged, hsame⟩ := hcodec.reads hout
  have hmerge := merge3_eq (hparse hbase) (hparse htext) (hparse hcurrent) hout
  have hfile : (writeMerging format.codec (some current) (some base) text).file =
      out := by
    simp [writeMerging, hdiffer, hmerge]
  have hcontents : contents format.codec out = merged := by
    rw [contents, hmerged]
  rwa [hfile, hcontents]

/-- The queued text has what the settings in memory have. -/
theorem job_agreeAt (hformat : format.Lawful) (hs : Steady format s) (hkey : key.Valid)
    (hjob : s.job = some job) : AgreeAt key (configOf format (some job.2)) s.config := by
  rw [hs.newest job hjob]
  exact ((configOf_toTomlString hformat s.config).agreeAt hkey).symm

/-- Other programs left the key alone since the baseline. -/
def LeftAlone (format : ConfigFormat τ) (key : Key) (s : AppSettings τ) : Prop :=
  ∀ base current, s.baseline = some base → s.disk = some current →
    sameOpt ((contents format.codec current).get key) ((contents format.codec base).get key) = true

theorem parses_job (hformat : format.Lawful) (hs : Steady format s) (hjob : s.job = some job) :
    Parses format job.2 := by
  rw [hs.newest job hjob]
  exact parses_toTomlString hformat s.config

/-- A save over a file that other programs left alone at the key writes the key
as its text has it. -/
theorem get_saved_ours (hformat : format.Lawful) (hs : Steady format s) (hjob : s.job = some job)
    (halone : LeftAlone format key s) :
    sameOpt ((contents format.codec
      (writeMerging format.codec s.disk s.baseline job.2).file).get key)
        ((contents format.codec job.2).get key) = true := by
  rcases writeMerging_file format.codec s.disk s.baseline job.2 with
    hfile | ⟨base, current, -, hbase, hcurrent, hbase', htext', -⟩
  · rw [hfile]
    exact sameOpt_refl _ (Document.wellFormedOpt_get _ _)
  · have hmerged := (contents_merged hformat.codec (hs.parses base (Or.inr hbase))
      (parses_job hformat hs hjob) (hs.parses current (Or.inl hcurrent))
      ⟨hbase', htext'⟩).symm.get key
    have hours := get_mergeDocuments_ours (contents format.codec base)
      (contents format.codec job.2) (contents format.codec current)
      (halone base current hbase hcurrent)
    rw [hbase, hcurrent]
    exact sameOpt_trans (Document.wellFormedOpt_get _ _)
      (Document.wellFormedOpt_get _ _) (Document.wellFormedOpt_get _ _) hmerged hours

/-- Such a save writes what the settings in memory have. -/
theorem fire_ours (hformat : format.Lawful) (hs : Steady format s) (hkey : key.Valid)
    (hjob : s.job = some job) (halone : LeftAlone format key s) :
    AgreeAt key (configOf format
      (some (writeMerging format.codec s.disk s.baseline job.2).file)) s.config :=
  (agreeAt_texts hkey (get_saved_ours hformat hs hjob halone)).trans
    (job_agreeAt hformat hs hkey hjob)

theorem fire_theirs (hformat : format.Lawful) (hs : Steady format s) (hkey : key.Valid)
    (hjob : s.job = some job) (hcurrent : s.disk = some current)
    (hmemory : AgreeAt key s.config (configOf format s.baseline))
    (htells : WriteTells format key s.baseline job.2 current) :
    AgreeAt key (configOf format
      (some (writeMerging format.codec s.disk s.baseline job.2).file))
        (configOf format (some current)) := by
  have htext := job_agreeAt hformat hs hkey hjob
  cases hbase : s.baseline with
  | none =>
    simp only [WriteTells, hbase] at htells
    exact htells
  | some base =>
    simp only [WriteTells, hbase] at htells
    rw [hbase] at hmemory
    rw [hcurrent]
    by_cases hdiffer : current ≠ base ∧ current ≠ job.2
    · obtain ⟨htables, hsame⟩ := (htells.resolve_left hdiffer.1).resolve_left hdiffer.2
      have hmerged := (contents_merged hformat.codec
        (hs.parses base (Or.inr hbase)) (parses_job hformat hs hjob)
        (hs.parses current (Or.inl hcurrent)) hdiffer).symm.get key
      refine agreeAt_texts hkey ?_
      exact sameOpt_trans (Document.wellFormedOpt_get _ _)
        (Document.wellFormedOpt_get _ _) (Document.wellFormedOpt_get _ _) hmerged
        (get_mergeDocuments_theirs _ _ _ htables hsame)
    · have hfile : (writeMerging format.codec (some current) (some base) job.2).file = job.2 := by
        simp only [writeMerging]
        rw [if_neg hdiffer]
      rw [hfile]
      rw [not_and_or, not_not, not_not] at hdiffer
      rcases hdiffer with rfl | rfl
      · exact htext.trans hmemory
      · exact .refl _

/-- The file has the key as `wanted` has it. -/
def FileHolds (format : ConfigFormat τ) (key : Key) (wanted : Config) (s : AppSettings τ) : Prop :=
  ∃ text, s.disk = some text ∧ AgreeAt key (configOf format (some text)) wanted

theorem leftAlone_step (hformat : format.Lawful) {t : AppSettings τ} {e : SettingsEvent τ}
    (hs : Steady format s) (halone : LeftAlone format key s) (hgood : Orderly format s e)
    (hothers : OthersKeep format key s e) (hstep : settingsStep format s e = some t) :
    LeftAlone format key t := by
  cases e with
  | change apply =>
    obtain rfl := Option.some.inj hstep
    rcases change_cases hs hgood with ⟨-, hsame⟩ | ⟨config, -, -, -, hnew⟩
    · rwa [hsame]
    · rwa [hnew]
  | fire =>
    obtain ⟨job, hjob, rfl⟩ := Option.map_eq_some_iff.mp hstep
    intro base current hbase hcurrent
    obtain rfl := Option.some.inj hcurrent
    change (writeMerging format.codec s.disk s.baseline job.2).baseline = some base at hbase
    rw [writeMerging_baseline, Option.map_eq_some_iff] at hbase
    obtain ⟨-, -, rfl⟩ := hbase
    exact get_saved_ours hformat hs hjob halone
  | writeDone =>
    obtain ⟨finished, rest, -, rfl⟩ := writeDone_cases hstep
    exact halone
  | external text =>
    obtain rfl := Option.some.inj hstep
    intro base current hbase hcurrent
    obtain rfl := Option.some.inj hcurrent
    cases hdisk : s.disk with
    | none =>
      rw [hs.noFile hdisk] at hbase
      cases hbase
    | some old =>
      exact sameOpt_trans (Document.wellFormedOpt_get _ _)
        (Document.wellFormedOpt_get _ _) (Document.wellFormedOpt_get _ _)
        (hothers old hdisk) (halone base old hbase hdisk)
  | read =>
    obtain rfl := Option.some.inj hstep
    intro base current hbase hcurrent
    change s.disk = some current at hcurrent
    change s.disk.or s.baseline = some base at hbase
    rw [hcurrent] at hbase
    obtain rfl := Option.some.inj hbase
    exact sameOpt_refl _ (Document.wellFormedOpt_get _ _)
  | handle =>
    obtain ⟨read, rest, hreads, rfl⟩ := handle_cases hstep
    rcases fileChanged_cases hs hreads (hgood read (by simp [hreads])) with
      ⟨-, hsame⟩ | ⟨-, -, hnew⟩
    · rwa [hsame]
    · rwa [hnew]

/-- The settings in memory have the key as `wanted` has it, and so have the
other programs' texts that wait, and the file once no save is queued. -/
structure HoldsValue (format : ConfigFormat τ) (key : Key) (wanted : Config)
    (s : AppSettings τ) : Prop where
  memory : AgreeAt key s.config wanted
  reads : ∀ read ∈ s.reads, s.isEcho read = false → AgreeAt key (configOf format read) wanted
  file : s.job = none → FileHolds format key wanted s

variable {s t : AppSettings τ} {e : SettingsEvent τ}

theorem HoldsValue.of_change (hs : Steady format s) {apply : Config → Option Config}
    (hgood : Orderly format s (.change apply)) (hchange : (apply s.config).isSome) :
    HoldsValue format key (s.change format apply).config (s.change format apply) := by
  rcases change_cases hs hgood with ⟨hnone, -⟩ | ⟨config, -, -, hreads, hnew⟩
  · simp [hnone] at hchange
  · rw [hnew]
    refine ⟨.refl _, fun read hread hnot => ?_, by simp⟩
    rw [AppSettings.isEcho, hreads read hread] at hnot
    cases hnot

variable {wanted : Config} {job : Nat × τ} {events later : List (SettingsEvent τ)}

theorem holdsValue_change (hs : Steady format s) (hholds : HoldsValue format key wanted s)
    {apply : Config → Option Config} (hgood : Orderly format s (.change apply))
    (hkeeps : AppKeeps key s (.change apply)) :
    HoldsValue format key wanted (s.change format apply) := by
  rcases change_cases hs hgood with
    ⟨-, hsame⟩ | ⟨config, happly, -, hreads, hnew⟩
  · rwa [hsame]
  · rw [hnew]
    refine ⟨(hkeeps config happly).symm.trans hholds.memory, fun read hread hnot => ?_, by simp⟩
    rw [AppSettings.isEcho, hreads read hread] at hnot
    cases hnot

theorem holdsValue_writeDone (hs : Steady format s) (hholds : HoldsValue format key wanted s)
    {finished : Nat × τ} {rest : List (Nat × τ)} (hwritten : s.written = finished :: rest)
    (hgood : Orderly format s .writeDone) :
    HoldsValue format key wanted { s with
      written := rest
      ownWrites := s.ownWrites.settled finished.1 (some finished.2) } where
  memory := hholds.memory
  reads read hread hnot := by
    rw [AppSettings.isEcho, isEcho_writeDone hs hwritten hgood read hread] at hnot
    exact hholds.reads read hread hnot
  file := hholds.file

theorem Orderly.read_job (hgood : Orderly format s .read) (hnot : s.isEcho s.disk = false) :
    s.job = none := by
  rwa [Orderly, if_neg (by simp [hnot])] at hgood

theorem holdsValue_read (hholds : HoldsValue format key wanted s)
    (hgood : Orderly format s .read) :
    HoldsValue format key wanted { s with
      baseline := s.disk.or s.baseline
      reads := s.reads ++ [s.disk]
      unread := false } where
  memory := hholds.memory
  reads read hread hnot := by
    rcases List.mem_append.mp hread with hread | hread
    · exact hholds.reads read hread hnot
    · obtain rfl := List.mem_singleton.mp hread
      obtain ⟨text, hdisk, hagree⟩ := hholds.file (hgood.read_job hnot)
      rwa [hdisk]
  file := hholds.file

theorem holdsValue_handle (hs : Steady format s) (hholds : HoldsValue format key wanted s)
    {read : Option τ} {rest : List (Option τ)} (hreads : s.reads = read :: rest)
    (husable : Usable format read) :
    HoldsValue format key wanted
      (AppSettings.fileChanged format { s with reads := rest } read) := by
  have hrest := fun other (hother : other ∈ rest) => hholds.reads other (by simp [hreads, hother])
  rcases fileChanged_cases hs hreads husable with ⟨-, hsame⟩ | ⟨hnot, -, hnew⟩
  · rw [hsame]
    exact ⟨hholds.memory, hrest, hholds.file⟩
  · rw [hnew]
    exact ⟨hholds.reads read (by simp [hreads]) hnot, hrest, hholds.file⟩

theorem holdsValue_step (hformat : format.Lawful) (hkey : key.Valid) (hs : Steady format s)
    (halone : LeftAlone format key s) (hholds : HoldsValue format key wanted s)
    (hgood : Orderly format s e) (hothers : OthersKeep format key s e) (hkeeps : AppKeeps key s e)
    (hstep : settingsStep format s e = some t) : HoldsValue format key wanted t := by
  cases e with
  | change apply =>
    obtain rfl := Option.some.inj hstep
    exact holdsValue_change hs hholds hgood hkeeps
  | fire =>
    obtain ⟨job, hjob, rfl⟩ := Option.map_eq_some_iff.mp hstep
    exact ⟨hholds.memory, hholds.reads, fun _ =>
      ⟨_, rfl, (fire_ours hformat hs hkey hjob halone).trans hholds.memory⟩⟩
  | writeDone =>
    obtain ⟨finished, rest, hwritten, rfl⟩ := writeDone_cases hstep
    exact holdsValue_writeDone hs hholds hwritten hgood
  | external text =>
    obtain rfl := Option.some.inj hstep
    refine ⟨hholds.memory, hholds.reads, fun hjob => ?_⟩
    obtain ⟨current, hdisk, hagree⟩ := hholds.file hjob
    exact ⟨text, rfl, (agreeAt_texts hkey (hothers current hdisk)).trans hagree⟩
  | read =>
    obtain rfl := Option.some.inj hstep
    exact holdsValue_read hholds hgood
  | handle =>
    obtain ⟨read, rest, hreads, rfl⟩ := handle_cases hstep
    exact holdsValue_handle hs hholds hreads (hgood read (by simp [hreads]))

/-- The settings in memory have the key as the baseline has it, or will have it
when the last waiting text is handled. -/
structure TracksFile (format : ConfigFormat τ) (key : Key) (s : AppSettings τ) :
    Prop where
  last : ∀ read, s.reads.getLast? = some read → s.isEcho read = false →
    AgreeAt key (configOf format read) (configOf format s.baseline)
  memory : (∀ read ∈ s.reads, s.isEcho read = true) →
    AgreeAt key s.config (configOf format s.baseline)
  /-- Before there is a baseline, so have the texts that pass for our own. -/
  own : s.baseline = none → ∀ text, s.ownWrites.isEcho text = true →
    AgreeAt key s.config (configOf format (some text))

theorem Started.tracksFile (h : Started format s) (hkey : key.Valid) : TracksFile format key s where
  last := by simp [h.reads]
  memory _ := by
    rw [h.baseline]
    exact h.config.agreeAt hkey
  own hbaseline := by
    have hwritten := h.unwritten (h.baseline ▸ hbaseline)
    simp [OwnWrites.isEcho, h.pending, hwritten]

/-- While a save is queued no other program's text waits. -/
theorem Steady.isEcho_reads (hs : Steady format s) (hjob : s.job = some job) :
    ∀ read ∈ s.reads, s.isEcho read = true := by
  intro read hread
  by_contra hnot
  simpa [hjob] using hs.alone read hread (by simpa using hnot)

theorem tracksFile_change (hformat : format.Lawful) (hkey : key.Valid) (hs : Steady format s)
    (htracks : TracksFile format key s)
    {apply : Config → Option Config} (hgood : Orderly format s (.change apply))
    (hkeeps : AppKeeps key s (.change apply)) :
    TracksFile format key (s.change format apply) := by
  rcases change_cases hs hgood with
    ⟨-, hsame⟩ | ⟨config, happly, -, hreads, hnew⟩
  · rwa [hsame]
  · obtain ⟨hecho, hlength⟩ := hgood (by simp [happly])
    have hkept := (hkeeps config happly).symm
    rw [hnew]
    refine ⟨fun read hlast hnot => ?_, fun _ => hkept.trans (htracks.memory hecho),
      fun hbaseline text htext => ?_⟩
    · rw [AppSettings.isEcho, hreads read (List.mem_of_getLast? hlast)] at hnot
      cases hnot
    · rcases (OwnWrites.isEcho_queued hlength _ text).mp htext with hold | rfl
      · exact hkept.trans (htracks.own hbaseline text hold)
      · exact (configOf_toTomlString hformat config).agreeAt hkey

theorem tracksFile_fire (hformat : format.Lawful) (hkey : key.Valid) (hs : Steady format s)
    (htracks : TracksFile format key s) (hjob : s.job = some job) :
    TracksFile format key { s with
      disk := some (writeMerging format.codec s.disk s.baseline job.2).file
      baseline := (writeMerging format.codec s.disk s.baseline job.2).baseline
      job := none
      written := s.written ++ [job]
      unread := s.unread || s.disk ≠
        some (writeMerging format.codec s.disk s.baseline job.2).file } := by
  have hecho := hs.isEcho_reads hjob
  refine ⟨fun read hlast hnot => ?_, fun _ => ?_, fun hbaseline => ?_⟩
  · have hread := hecho read (List.mem_of_getLast? hlast)
    change s.isEcho read = false at hnot
    rw [hread] at hnot
    cases hnot
  · change AgreeAt key s.config (configOf format
      (writeMerging format.codec s.disk s.baseline job.2).baseline)
    rw [writeMerging_baseline]
    cases hbase : s.baseline with
    | none => simpa [hbase] using htracks.memory hecho
    | some base => exact (job_agreeAt hformat hs hkey hjob).symm
  · simp only [writeMerging_baseline, Option.map_eq_none_iff] at hbaseline
    exact htracks.own hbaseline

theorem tracksFile_writeDone (hs : Steady format s)
    (htracks : TracksFile format key s) {finished : Nat × τ}
    {rest : List (Nat × τ)} (hwritten : s.written = finished :: rest)
    (hgood : Orderly format s .writeDone) :
    TracksFile format key { s with
      written := rest
      ownWrites := s.ownWrites.settled finished.1 (some finished.2) } := by
  have hecho := isEcho_writeDone hs hwritten hgood
  have hmem := (hs.written finished (by simp [hwritten])).1
  refine ⟨fun read hlast hnot => ?_, fun hall => ?_, fun hbaseline text htext =>
    htracks.own hbaseline text (OwnWrites.isEcho_of_settled hmem htext)⟩
  · rw [AppSettings.isEcho, hecho read (List.mem_of_getLast? hlast)] at hnot
    exact htracks.last read hlast hnot
  · refine htracks.memory fun read hread => ?_
    rw [← hecho read hread]
    exact hall read hread

theorem tracksFile_read (hs : Steady format s) (htracks : TracksFile format key s)
    (hgood : Orderly format s .read) :
    TracksFile format key { s with
      baseline := s.disk.or s.baseline
      reads := s.reads ++ [s.disk]
      unread := false } := by
  refine ⟨fun read hlast _ => ?_, fun hall => ?_, fun hbaseline =>
    htracks.own (Option.or_eq_none_iff.mp hbaseline).2⟩
  · obtain rfl : s.disk = read := by simpa using hlast
    change AgreeAt key (configOf format s.disk) (configOf format (s.disk.or s.baseline))
    cases hdisk : s.disk with
    | none =>
      rw [hs.noFile hdisk]
      exact .refl _
    | some current => exact .refl _
  · have hecho : s.isEcho s.disk = true := hall s.disk (by simp)
    rw [Orderly, if_pos hecho] at hgood
    change AgreeAt key s.config (configOf format (s.disk.or s.baseline))
    cases hbase : s.baseline with
    | none =>
      obtain ⟨text, hdisk, htext⟩ := (s.isEcho_iff _).mp hecho
      rw [hdisk]
      exact htracks.own hbase text htext
    | some base =>
      rw [hbase, if_neg (Option.some_ne_none _)] at hgood
      rw [hgood.2, Option.or_self, ← hbase]
      exact htracks.memory hgood.1

theorem tracksFile_handle (hs : Steady format s)
    (htracks : TracksFile format key s) {read : Option τ}
    {rest : List (Option τ)} (hreads : s.reads = read :: rest)
    (husable : Usable format read) :
    TracksFile format key (AppSettings.fileChanged format { s with reads := rest } read) := by
  have horder := hs.order
  rw [hreads, List.pairwise_cons] at horder
  have hlast := fun last (h : rest.getLast? = some last) =>
    htracks.last last (getLast_reads hreads h)
  rcases fileChanged_cases hs hreads husable with ⟨hecho, hsame⟩ | ⟨hnot, hjob, hnew⟩
  · rw [hsame]
    refine ⟨hlast, fun hall => htracks.memory fun other hother => ?_, htracks.own⟩
    rw [hreads] at hother
    rcases List.mem_cons.mp hother with rfl | hother
    · exact hecho
    · exact hall other hother
  · rw [hnew]
    refine ⟨hlast, fun hall => ?_, fun hbaseline text htext => ?_⟩
    · change ∀ other ∈ rest, s.isEcho other = true at hall
      cases rest with
      | nil => exact htracks.last read (by simp [hreads]) hnot
      | cons other rest =>
        have hread := horder.1 other (by simp) (hall other (by simp))
        rw [hnot] at hread
        cases hread
    · obtain ⟨hwritten, hpending⟩ := hs.unwritten_of_handle hreads hbaseline hjob
      simp [OwnWrites.isEcho, hwritten, hpending] at htext

theorem tracksFile_step (hformat : format.Lawful) (hkey : key.Valid)
    (hs : Steady format s) (htracks : TracksFile format key s)
    (hgood : Orderly format s e) (hkeeps : AppKeeps key s e)
    (hstep : settingsStep format s e = some t) : TracksFile format key t := by
  cases e with
  | change apply =>
    obtain rfl := Option.some.inj hstep
    exact tracksFile_change hformat hkey hs htracks hgood hkeeps
  | fire =>
    obtain ⟨job, hjob, rfl⟩ := Option.map_eq_some_iff.mp hstep
    exact tracksFile_fire hformat hkey hs htracks hjob
  | writeDone =>
    obtain ⟨finished, rest, hwritten, rfl⟩ := writeDone_cases hstep
    exact tracksFile_writeDone hs htracks hwritten hgood
  | external text =>
    obtain rfl := Option.some.inj hstep
    exact ⟨htracks.last, htracks.memory, htracks.own⟩
  | read =>
    obtain rfl := Option.some.inj hstep
    exact tracksFile_read hs htracks hgood
  | handle =>
    obtain ⟨read, rest, hreads, rfl⟩ := handle_cases hstep
    exact tracksFile_handle hs htracks hreads (hgood read (by simp [hreads]))

theorem fileHolds_step (hformat : format.Lawful) (hkey : key.Valid) (hs : Steady format s)
    (htracks : TracksFile format key s) (hholds : FileHolds format key wanted s)
    (hgood : Orderly format s e) (hsaves : SavesTell format key s e)
    (hothers : OthersKeep format key s e) (hstep : settingsStep format s e = some t) :
    FileHolds format key wanted t := by
  obtain ⟨current, hdisk, hagree⟩ := hholds
  cases e with
  | change apply =>
    obtain rfl := Option.some.inj hstep
    refine ⟨current, ?_, hagree⟩
    rcases change_cases hs hgood with ⟨-, hsame⟩ | ⟨config, -, -, -, hnew⟩
    · rwa [hsame]
    · rwa [hnew]
  | fire =>
    obtain ⟨job, hjob, rfl⟩ := Option.map_eq_some_iff.mp hstep
    have hmemory := htracks.memory (hs.isEcho_reads hjob)
    exact ⟨_, rfl, (fire_theirs hformat hs hkey hjob hdisk hmemory
      (hsaves job hjob current hdisk)).trans hagree⟩
  | writeDone =>
    obtain ⟨finished, rest, -, rfl⟩ := writeDone_cases hstep
    exact ⟨current, hdisk, hagree⟩
  | external text =>
    obtain rfl := Option.some.inj hstep
    exact ⟨text, rfl, (agreeAt_texts hkey (hothers current hdisk)).trans hagree⟩
  | read =>
    obtain rfl := Option.some.inj hstep
    exact ⟨current, hdisk, hagree⟩
  | handle =>
    obtain ⟨read, rest, hreads, rfl⟩ := handle_cases hstep
    refine ⟨current, ?_, hagree⟩
    rcases fileChanged_cases hs hreads (hgood read (by simp [hreads])) with
      ⟨-, hsame⟩ | ⟨-, -, hnew⟩
    · rwa [hsame]
    · rwa [hnew]

theorem leftAlone_of_run (hformat : format.Lawful) (hstart : Started format s)
    (hrun : GoodRun (settingsStep format) (fun s e => Orderly format s e ∧
      OthersKeep format key s e) s events t) : Steady format t ∧ LeftAlone format key t := by
  refine hrun.invariant (p := fun s => Steady format s ∧ LeftAlone format key s)
    (fun hs he hstep => ⟨settingsStep_steady hformat hs.1 he.1 hstep,
      leftAlone_step hformat hs.1 hs.2 he.1 he.2 hstep⟩) ⟨hstart.steady, ?_⟩
  intro base current hbase hcurrent
  rw [hstart.baseline, hcurrent] at hbase
  obtain rfl := Option.some.inj hbase
  exact sameOpt_refl _ (Document.wellFormedOpt_get _ _)

theorem fileHolds_of_change (hformat : format.Lawful) (hkey : key.Valid) (hs : Steady format s)
    (halone : LeftAlone format key s) (hholds : HoldsValue format key wanted s)
    (hrun : GoodRun (settingsStep format) (fun s e => (Orderly format s e ∧
      OthersKeep format key s e) ∧ AppKeeps key s e) s later t) (hjob : t.job = none) :
    FileHolds format key wanted t := by
  have hend := hrun.invariant
    (p := fun s => Steady format s ∧ LeftAlone format key s ∧ HoldsValue format key wanted s)
    (fun ⟨hs, halone, hholds⟩ ⟨⟨hgood, hothers⟩, hkeeps⟩ hstep =>
      ⟨settingsStep_steady hformat hs hgood hstep,
        leftAlone_step hformat hs halone hgood hothers hstep,
        holdsValue_step hformat hkey hs halone hholds hgood hothers hkeeps hstep⟩)
    ⟨hs, halone, hholds⟩
  exact hend.2.2.file hjob

theorem tracksFile_of_run (hformat : format.Lawful) (hkey : key.Valid) (hstart : Started format s)
    (hrun : GoodRun (settingsStep format) (fun s e => Orderly format s e ∧
      AppKeeps key s e ∧ SavesTell format key s e) s events t) :
    Steady format t ∧ TracksFile format key t :=
  hrun.invariant (p := fun s => Steady format s ∧ TracksFile format key s)
    (fun hs he hstep => ⟨settingsStep_steady hformat hs.1 he.1 hstep,
      tracksFile_step hformat hkey hs.1 hs.2 he.1 he.2.1 hstep⟩)
    ⟨hstart.steady, hstart.tracksFile hkey⟩

theorem fileHolds_of_external (hformat : format.Lawful) (hkey : key.Valid) (hs : Steady format s)
    (htracks : TracksFile format key s) (hholds : FileHolds format key wanted s)
    (hrun : GoodRun (settingsStep format) (fun s e => (Orderly format s e ∧
      AppKeeps key s e ∧ SavesTell format key s e) ∧ OthersKeep format key s e) s later t) :
    FileHolds format key wanted t := by
  have hend := hrun.invariant
    (p := fun s => Steady format s ∧ TracksFile format key s ∧ FileHolds format key wanted s)
    (fun ⟨hs, htracks, hholds⟩ ⟨⟨hgood, hkeeps, hsaves⟩, hothers⟩ hstep =>
      ⟨settingsStep_steady hformat hs hgood hstep,
        tracksFile_step hformat hkey hs htracks hgood hkeeps hstep,
        fileHolds_step hformat hkey hs htracks hholds hgood hsaves hothers hstep⟩)
    ⟨hs, htracks, hholds⟩
  exact hend.2.2

/-- Along orderly runs the settings in memory and the file agree once nothing
is in flight, a key that only the app changed has the app's value in the file,
and one that only other programs changed keeps theirs, if the saves can tell. -/
theorem settings_agree (hformat : format.Lawful) (hstart : Started format s) :
    (∀ events t, GoodRun (settingsStep format) (Orderly format) s events t →
      Quiet t → t.config.Same (configOf format t.disk)) ∧
    ∀ key : Key, key.Valid →
      (∀ earlier before apply after later t,
        GoodRun (settingsStep format) (fun s e => Orderly format s e ∧
          OthersKeep format key s e) s earlier before →
        Orderly format before (.change apply) → (apply before.config).isSome →
        settingsStep format before (.change apply) = some after →
        GoodRun (settingsStep format) (fun s e => (Orderly format s e ∧
          OthersKeep format key s e) ∧ AppKeeps key s e) after later t →
        t.job = none → FileHolds format key after.config t) ∧
      ∀ earlier before text after later t,
        GoodRun (settingsStep format) (fun s e => Orderly format s e ∧
          AppKeeps key s e ∧ SavesTell format key s e) s earlier before →
        Orderly format before (.external text) →
        settingsStep format before (.external text) = some after →
        GoodRun (settingsStep format) (fun s e => (Orderly format s e ∧
          AppKeeps key s e ∧ SavesTell format key s e) ∧ OthersKeep format key s e)
          after later t →
        FileHolds format key (configOf format (some text)) t := by
  refine ⟨fun events t hrun hquiet => ?_, fun key hkey => ⟨?_, ?_⟩⟩
  · exact (Steady.of_run hformat id hrun hstart.steady).config_agrees hquiet
  · intro earlier before apply after later t hearlier hgood hsome hstep hlater hjob
    obtain ⟨hs, halone⟩ := leftAlone_of_run hformat hstart hearlier
    have hafter := settingsStep_steady hformat hs hgood hstep
    have halone' := leftAlone_step hformat hs halone hgood trivial hstep
    obtain rfl := Option.some.inj hstep
    exact fileHolds_of_change hformat hkey hafter halone' (.of_change hs hgood hsome) hlater hjob
  · intro earlier before text after later t hearlier hgood hstep hlater
    obtain ⟨hs, htracks⟩ := tracksFile_of_run hformat hkey hstart hearlier
    have hafter := settingsStep_steady hformat hs hgood hstep
    have htracks' := tracksFile_step hformat hkey hs htracks hgood trivial hstep
    obtain rfl := Option.some.inj hstep
    exact fileHolds_of_external hformat hkey hafter htracks' ⟨text, rfl, .refl _⟩ hlater

end Keys

namespace SettingsKeysWitness

def format : ConfigFormat Document := ⟨InstancesWitness.codec, id, id⟩

theorem format_lawful : format.Lawful := ⟨InstancesWitness.codec_lawful, fun d => ⟨d, rfl, .refl d⟩⟩

def appearance (entries : List (String × String)) (h : (Value.table [("appearance",
    .table (entries.map fun e => (e.1, .string e.2)))]).wellFormed = true) :
    Document := ⟨_, h⟩

def dark : Document := appearance [("theme", "dark")] (by decide)

def hidden : Document := appearance [("rail_position", "hidden")] (by decide)

def darkHidden : Document := appearance [("rail_position", "hidden"), ("theme", "dark")] (by decide)

def theme : Key := .inSection "appearance" "theme"

def rail : Key := .inSection "appearance" "rail_position"

/-- There is no file yet. -/
def started : AppSettings Document :=
  ⟨none, none, .default, .none, ⟨0, [], none⟩, none, [], [], false⟩

theorem started_started : Started format started :=
  ⟨by rintro _ ⟨⟩, fun _ => rfl, rfl, .refl _, rfl, rfl, rfl, rfl, rfl, rfl⟩

def darken : Config → Option Config := fun _ => some (.fromRoot dark)

/-- A text is adopted while a save of the older settings is queued. -/
def overtaking : List (SettingsEvent Document) :=
  [.external .empty, .read, .handle, .change darken, .external hidden, .read,
    .handle, .fire, .writeDone, .read, .handle]

/-- The file is not protected, and other programs write valid texts. -/
def Unprotected (s : AppSettings Document) : SettingsEvent Document → Prop
  | .external text => s.protection = .none ∧ Parses format text
  | _ => s.protection = .none

instance (s : AppSettings Document) (e : SettingsEvent Document) : Decidable (Unprotected s e) := by
  cases e <;> unfold Unprotected <;> infer_instance

theorem settings_apart :
    ∃ t, GoodRun (settingsStep format) Unprotected started overtaking t ∧
      Quiet t ∧ ¬ t.config.Same (configOf format t.disk) := by
  have hrun : ((runGood (settingsStep format) Unprotected started overtaking).any
      fun t => decide (Quiet t ∧ ¬ t.config.value .theme =
        (configOf format t.disk).value .theme)) = true := by
    decide +kernel
  obtain ⟨t, hrun, h⟩ := Option.any_eq_true _ _ |>.mp hrun
  obtain ⟨hquiet, hdiffer⟩ := of_decide_eq_true h
  exact ⟨t, .of_runGood hrun, hquiet, fun hsame => hdiffer (hsame.value _)⟩

def compact : Config → Option Config := fun _ =>
  some (.fromRoot (appearance [("density", "compact"), ("theme", "dark")] (by decide)))

/-- The first save is read back while the next one is queued. -/
def saving : List (SettingsEvent Document) :=
  [.fire, .change compact, .read, .writeDone, .handle, .fire, .writeDone, .read, .handle]

def adopting : List (SettingsEvent Document) := saving ++ [.external darkHidden, .read, .handle]

def changed : AppSettings Document := started.change format darken

def before : AppSettings Document :=
  (runFrom (settingsStep format) changed saving).get (by decide +kernel)

def replaced : AppSettings Document := { before with disk := some darkHidden, unread := true }

def adopted : AppSettings Document :=
  (runFrom (settingsStep format) replaced [.read, .handle]).get (by decide +kernel)

theorem settings_agreed :
    adopted.config.Same (configOf format adopted.disk) ∧
      FileHolds format theme changed.config adopted ∧
      FileHolds format rail (configOf format (some darkHidden)) adopted := by
  obtain ⟨hagree, hkeys⟩ := settings_agree format_lawful started_started
  have hsaved : runFrom (settingsStep format) changed saving = some before :=
    (Option.some_get _).symm
  have hadopted : runFrom (settingsStep format) replaced [.read, .handle] =
      some adopted := (Option.some_get _).symm
  have hrest : runFrom (settingsStep format) changed adopting = some adopted := by
    rw [adopting, runFrom_append, hsaved, Option.bind_some]
    exact hadopted
  refine ⟨?_, ?_, ?_⟩
  · exact hagree (.change darken :: adopting) adopted
      (.cons (by decide +kernel) rfl (.of_isSome (by decide +kernel) hrest))
      (by decide +kernel)
  · exact (hkeys theme (by decide)).1 [] started darken changed adopting adopted
      (.nil _) (by decide +kernel) rfl rfl (.of_isSome (by decide +kernel) hrest)
      (by decide +kernel)
  · exact (hkeys rail (by decide)).2 (.change darken :: saving) before darkHidden
      replaced [.read, .handle] adopted
      (.cons (by decide +kernel) rfl (.of_isSome (by decide +kernel) hsaved))
      (by decide +kernel) rfl (.of_isSome (by decide +kernel) hadopted)

end SettingsKeysWitness

end Opensesh
