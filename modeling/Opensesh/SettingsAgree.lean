/-
When the settings in memory and `config.toml` agree in the end: along runs in
which no other program's text waits while the settings change, and what passes
for our own write is the baseline or, before there is one, our newest write.
-/
import Opensesh.SettingsSync

namespace Opensesh

open List

namespace OwnWrites

variable {τ : Type}

/-- The text that was queued or written last. -/
def newest (own : OwnWrites τ) : Option τ := (own.pending.getLast?.map Prod.snd).or own.lastWritten

variable {pending : List (Nat × τ)} {seq : Nat} {queued : Nat × τ}

theorem mem_dropWhile_le (h : (pending.map Prod.fst).Pairwise (· < ·)) (seq : Nat)
    (queued : Nat × τ) :
    queued ∈ pending.dropWhile (fun queued => queued.1 ≤ seq) ↔
      queued ∈ pending ∧ seq < queued.1 := by
  induction pending with
  | nil => simp
  | cons head rest ih =>
    rw [map_cons, pairwise_cons] at h
    rw [dropWhile_cons]
    by_cases hle : head.1 ≤ seq
    · simp only [hle, decide_true, ↓reduceIte, ih h.2, mem_cons]
      constructor
      · exact fun hmem => ⟨Or.inr hmem.1, hmem.2⟩
      · rintro ⟨rfl | hmem, hlt⟩
        · omega
        · exact ⟨hmem, hlt⟩
    · simp only [hle, decide_false, Bool.false_eq_true, ↓reduceIte]
      refine ⟨fun hmem => ⟨hmem, ?_⟩, And.left⟩
      rcases mem_cons.mp hmem with rfl | hrest
      · omega
      · have hlt := h.1 queued.1 (mem_map_of_mem hrest)
        omega

theorem getLast_of_dropWhile
    (h : (pending.dropWhile fun queued => queued.1 ≤ seq).getLast? = some queued) :
    pending.getLast? = some queued := by
  obtain ⟨settled, hsettled⟩ := dropWhile_suffix
    (l := pending) fun queued => decide (queued.1 ≤ seq)
  rw [← hsettled, List.getLast?_append, h, Option.some_or]

theorem getLast_dropWhile (hsorted : (pending.map Prod.fst).Pairwise (· < ·))
    (h : pending.getLast? = some queued) (hlt : seq < queued.1) :
    (pending.dropWhile fun queued => queued.1 ≤ seq).getLast? = some queued := by
  have hmem := (mem_dropWhile_le hsorted seq queued).mpr ⟨mem_of_getLast? h, hlt⟩
  have hlast := List.getLast?_eq_some_getLast (ne_nil_of_mem hmem)
  rw [hlast, ← getLast_of_dropWhile hlast, h]

variable {own : OwnWrites τ}

theorem newest_queued (own : OwnWrites τ) (text : τ) : (own.queued text).newest = some text := by
  simp [newest, OwnWrites.queued]

/-- What is settled last is the newest, or a newer one is still in flight. -/
theorem newest_settled (hsorted : (own.pending.map Prod.fst).Pairwise (· < ·)) {text : τ}
    (hmem : (seq, text) ∈ own.pending) :
    (own.settled seq (some text)).newest = own.newest := by
  simp only [newest, settled, Option.some_or]
  cases hlast : (own.pending.dropWhile fun queued => queued.1 ≤ seq).getLast? with
  | some last => rw [getLast_of_dropWhile hlast]; rfl
  | none =>
    obtain ⟨init, last, hpending⟩ :=
      (eq_nil_or_concat own.pending).resolve_left (ne_nil_of_mem hmem)
    rw [concat_eq_append] at hpending
    have hle : ¬ seq < last.1 := fun hlt => by
      have hlater := (mem_dropWhile_le hsorted seq last).mpr ⟨by simp [hpending], hlt⟩
      rw [List.getLast?_eq_none_iff.mp hlast] at hlater
      cases hlater
    rw [hpending, map_append, pairwise_append] at hsorted
    rw [hpending] at hmem
    rcases mem_append.mp hmem with hinit | hmem
    · exact absurd (hsorted.2.2 seq (mem_map_of_mem hinit) last.1 (by simp)) hle
    · rw [hpending, ← mem_singleton.mp hmem]
      simp

variable [DecidableEq τ]

theorem isEcho_iff (own : OwnWrites τ) (text : τ) :
    own.isEcho text = true ↔ own.lastWritten = some text ∨ ∃ seq, (seq, text) ∈ own.pending := by
  simp only [isEcho, Bool.or_eq_true, beq_iff_eq, any_eq_true, Prod.exists]
  refine or_congr_right ⟨?_, fun ⟨seq, hmem⟩ => ⟨seq, text, hmem, rfl⟩⟩
  rintro ⟨seq, _, hmem, rfl⟩
  exact ⟨seq, hmem⟩

theorem isEcho_queued (hlength : own.pending.length < maxPending) (text other : τ) :
    (own.queued text).isEcho other = true ↔ own.isEcho other = true ∨ other = text := by
  rw [isEcho_iff, isEcho_iff, queued, if_neg hlength.ne]
  simp only [mem_append, mem_singleton, Prod.mk.injEq]
  constructor
  · rintro (h | ⟨seq, h | ⟨-, rfl⟩⟩)
    · exact Or.inl (Or.inl h)
    · exact Or.inl (Or.inr ⟨seq, h⟩)
    · exact Or.inr rfl
  · rintro ((h | ⟨seq, h⟩) | rfl)
    · exact Or.inl h
    · exact Or.inr ⟨seq, Or.inl h⟩
    · exact Or.inr ⟨own.nextSeq, Or.inr ⟨rfl, rfl⟩⟩

theorem isEcho_of_settled {seq : Nat} {text other : τ} (hmem : (seq, text) ∈ own.pending)
    (h : (own.settled seq (some text)).isEcho other = true) : own.isEcho other = true := by
  rw [isEcho_iff] at h ⊢
  rcases h with h | ⟨other, h⟩
  · obtain rfl := Option.some.inj h
    exact Or.inr ⟨seq, hmem⟩
  · exact Or.inr ⟨other, (dropWhile_sublist _).subset h⟩

end OwnWrites

section Agree

variable {τ : Type} [DecidableEq τ] (format : ConfigFormat τ)

/-- A text that is valid. -/
def Parses (text : τ) : Prop := (format.codec.parse text).isOk

/-- A read that gives settings, not from a newer schema. -/
def Usable (read : Option τ) : Prop :=
  match readConfig format read with
  | .loaded _ readOnly => readOnly = false
  | .failed _ => False

instance (text : τ) : Decidable (Parses format text) := inferInstanceAs (Decidable (_ = true))

instance (read : Option τ) : Decidable (Usable format read) := by
  unfold Usable
  split <;> infer_instance

/-- A step of a run in which the file is never protected and other programs
write valid texts, and in which an own text is not taken for another's nor
another's for an own one. -/
def Orderly (s : AppSettings τ) : SettingsEvent τ → Prop
  -- No other program's text waits, and the writer answers.
  | .change apply => (apply s.config).isSome →
      (∀ read ∈ s.reads, s.isEcho read) ∧ s.ownWrites.pending.length < OwnWrites.maxPending
  | .fire => True
  -- A write is not forgotten while a read of it waits.
  | .writeDone => ∀ finished ∈ s.written.head?, ∀ read ∈ s.reads,
      s.isEcho read → read.any (s.ownWrites.settled finished.1 (some finished.2)).isEcho
  | .external text => Parses format text
  -- A text that passes for our own is the baseline or, while there is none, our
  -- newest or one before a queued save; other texts are read while no save is
  -- queued.
  | .read =>
    if s.isEcho s.disk then
      (∀ read ∈ s.reads, s.isEcho read) ∧
        if s.baseline = none then s.job.isSome ∨ s.disk = s.ownWrites.newest
        else s.disk = s.baseline
    else s.job = none
  | .handle => ∀ read ∈ s.reads.head?, Usable format read

instance (s : AppSettings τ) (e : SettingsEvent τ) : Decidable (Orderly format s e) := by
  cases e <;> unfold Orderly <;> infer_instance

/-- The instance has read its file, and nothing is in flight. -/
structure Started (s : AppSettings τ) : Prop where
  parses : ∀ text ∈ s.disk, Parses format text
  unwritten : s.disk = none → s.ownWrites.lastWritten = none
  baseline : s.baseline = s.disk
  config : s.config.Same (configOf format s.disk)
  protection : s.protection = .none
  pending : s.ownWrites.pending = []
  job : s.job = none
  written : s.written = []
  reads : s.reads = []
  unread : s.unread = false

/-- What every step of such a run keeps. -/
structure Steady (s : AppSettings τ) : Prop where
  protection : s.protection = .none
  parses : ∀ text, s.disk = some text ∨ s.baseline = some text → Parses format text
  noFile : s.disk = none → s.baseline = none
  seqs : (s.ownWrites.pending.map Prod.fst).Pairwise (· < ·)
  fresh : ∀ queued ∈ s.ownWrites.pending, queued.1 < s.ownWrites.nextSeq
  job : ∀ job, s.job = some job → s.ownWrites.pending.getLast? = some job
  written : ∀ finished ∈ s.written, finished ∈ s.ownWrites.pending ∧
    ∀ job, s.job = some job → finished.1 < job.1
  writtenSeqs : (s.written.map Prod.fst).Pairwise (· < ·)
  /-- The text of a queued save is what the settings in memory print. -/
  newest : ∀ job, s.job = some job → job.2 = s.config.toTomlString format
  /-- The settings in memory are the baseline's once no other program's text waits. -/
  base : s.job = none → (∀ read ∈ s.reads, s.isEcho read) → s.baseline.isSome ∨ s.disk = none →
    s.config.Same (configOf format s.baseline)
  /-- Before there is a baseline they are those of our newest text. -/
  first : s.baseline = none → (∀ read ∈ s.reads, read = none) ∧
    ∀ text, s.ownWrites.newest = some text → text = s.config.toTomlString format
  unwritten : s.disk = none ∨ none ∈ s.reads → s.written = [] ∧
    s.ownWrites.lastWritten = none ∧ (s.job = none → s.ownWrites.pending = [])
  /-- Other programs' texts wait after our own, with no save queued, and the last of them is the
  baseline. -/
  order : s.reads.Pairwise fun read later => s.isEcho later → s.isEcho read
  alone : ∀ read ∈ s.reads, s.isEcho read = false → s.job = none
  foreign : ∀ read, s.reads.getLast? = some read → s.isEcho read = false → s.baseline = read
  known : s.unread = false → s.disk = none ∨ s.baseline = s.disk

variable {format}

theorem Started.steady {s : AppSettings τ} (h : Started format s) : Steady format s where
  protection := h.protection
  parses text htext := by
    rw [h.baseline, or_self] at htext
    exact h.parses text htext
  noFile hdisk := by rw [h.baseline, hdisk]
  seqs := by simp [h.pending]
  fresh := by simp [h.pending]
  job job hjob := by simp [h.job] at hjob
  written := by simp [h.written]
  writtenSeqs := by simp [h.written]
  newest := by simp [h.job]
  base _ _ _ := h.baseline ▸ h.config
  first hbaseline := by
    have hwritten := h.unwritten (h.baseline ▸ hbaseline)
    simp [h.reads, OwnWrites.newest, h.pending, hwritten]
  unwritten hdisk := by
    have hnone := hdisk.resolve_right (by simp [h.reads])
    exact ⟨h.written, h.unwritten hnone, fun _ => h.pending⟩
  order := by simp [h.reads]
  alone := by simp [h.reads]
  foreign := by simp [h.reads]
  known _ := Or.inr h.baseline

omit [DecidableEq τ] in
theorem configOf_toTomlString (hformat : format.Lawful) (config : Config) :
    config.Same (configOf format (some (config.toTomlString format))) := by
  obtain ⟨e, hparse, hsame⟩ := hformat.display config.toRoot
  have hread : configOf format (some (config.toTomlString format)) = Config.fromRoot e := by
    simp [configOf, readConfig, parseConfig, Config.fromTomlStr,
      Config.toTomlString, hparse, bind, Except.bind, pure, Except.pure]
  rw [hread]
  exact (Config.fromRoot_toRoot config).symm.trans (Config.fromRoot_of_same hsame)

omit [DecidableEq τ] in
/-- A read that gives usable settings gives those of its text. -/
theorem readConfig_of_usable {read : Option τ} (h : Usable format read) :
    readConfig format read = .loaded (configOf format read) false := by
  rw [Usable] at h
  rw [configOf]
  split at h
  · rename_i config readOnly hread
    rw [hread, h]
  · exact absurd h id

omit [DecidableEq τ] in
theorem parses_toTomlString (hformat : format.Lawful) (config : Config) :
    Parses format (config.toTomlString format) := by
  obtain ⟨e, hparse, -⟩ := hformat.display config.toRoot
  simp [Parses, Config.toTomlString, hparse, Except.isOk, Except.toBool]

theorem parses_writeMerging (hcodec : format.codec.Lawful)
    {file baseline : Option τ} {text : τ} (htext : Parses format text) :
    Parses format (writeMerging format.codec file baseline text).file := by
  rcases writeMerging_file format.codec file baseline text with
    hfile | ⟨base, current, result, -, -, -, -, hmerge, hfile⟩
  · rwa [hfile]
  · obtain ⟨b, o, t, -, -, -, hprint⟩ := merge3_eq_ok hmerge
    obtain ⟨e, hparse, -⟩ := hcodec.reads hprint
    simp [Parses, hfile, hparse, Except.isOk, Except.toBool]

theorem AppSettings.isEcho_iff (s : AppSettings τ) (read : Option τ) :
    s.isEcho read = true ↔ ∃ text, read = some text ∧ s.ownWrites.isEcho text = true := by
  cases read <;> simp [AppSettings.isEcho]

section Steps

variable {s : AppSettings τ}

variable {apply : Config → Option Config} {seq : Nat} {t : AppSettings τ}

/-- What a change does: nothing, or it queues a save of the new settings, with
no other program's text waiting. -/
theorem change_cases (hs : Steady format s) (hgood : Orderly format s (.change apply)) :
    (apply s.config = none ∧ s.change format apply = s) ∨
      ∃ config, apply s.config = some config ∧
        s.ownWrites.pending.length < OwnWrites.maxPending ∧
        (∀ read ∈ s.reads, read.any
          (s.ownWrites.queued (config.toTomlString format)).isEcho = true) ∧
        s.change format apply =
          { s with
            config
            ownWrites := s.ownWrites.queued (config.toTomlString format)
            job := some (s.ownWrites.nextSeq, config.toTomlString format) } := by
  cases happly : apply s.config with
  | none => exact Or.inl ⟨rfl, by simp [AppSettings.change, happly]⟩
  | some config =>
    obtain ⟨hreads, hlength⟩ := hgood (by simp [happly])
    refine Or.inr ⟨config, rfl, hlength, fun read hread => ?_, ?_⟩
    · obtain ⟨text, rfl, htext⟩ := (s.isEcho_iff read).mp (hreads read hread)
      exact (OwnWrites.isEcho_queued hlength _ text).mpr (Or.inl htext)
    · simp [AppSettings.change, happly, AppSettings.save, hs.protection]

theorem steady_change (hs : Steady format s) (hgood : Orderly format s (.change apply)) :
    Steady format (s.change format apply) := by
  rcases change_cases hs hgood with
    ⟨-, hsame⟩ | ⟨config, -, hlength, hecho, hnew⟩
  · rwa [hsame]
  · have hpending : (s.ownWrites.queued (config.toTomlString format)).pending =
        s.ownWrites.pending ++ [(s.ownWrites.nextSeq, config.toTomlString format)] := by
      rw [OwnWrites.queued, if_neg hlength.ne]
    rw [hnew]
    exact
      { protection := hs.protection
        parses := hs.parses
        noFile := hs.noFile
        seqs := by
          rw [hpending, map_append, pairwise_append]
          refine ⟨hs.seqs, pairwise_singleton _ _, ?_⟩
          simpa using fun seq text hmem => hs.fresh (seq, text) hmem
        fresh := by
          rw [hpending]
          simp only [mem_append, mem_singleton]
          rintro queued (hmem | rfl)
          · exact Nat.lt_succ_of_lt (hs.fresh queued hmem)
          · exact Nat.lt_succ_self _
        job := by
          rintro job ⟨⟩
          simp [hpending]
        written := by
          intro finished hfinished
          have hmem := (hs.written finished hfinished).1
          refine ⟨by simp [hpending, hmem], ?_⟩
          rintro job ⟨⟩
          exact hs.fresh finished hmem
        writtenSeqs := hs.writtenSeqs
        newest := by rintro job ⟨⟩; rfl
        base := by simp
        first := fun hbaseline => ⟨(hs.first hbaseline).1, fun text htext => by
          rw [OwnWrites.newest_queued] at htext
          exact (Option.some.inj htext).symm⟩
        unwritten := fun hnone => by
          have hdisk := hnone.resolve_right fun hread => by simpa using hecho none hread
          obtain ⟨hwritten, hlast, -⟩ := hs.unwritten (Or.inl hdisk)
          exact ⟨hwritten, hlast, nofun⟩
        order := pairwise_of_forall_mem_list fun read hread _ _ _ => hecho read hread
        alone := fun read hread hnot => by
          rw [AppSettings.isEcho, hecho read hread] at hnot
          cases hnot
        foreign := fun read hlast hnot => by
          rw [AppSettings.isEcho, hecho read (mem_of_getLast? hlast)] at hnot
          cases hnot
        known := hs.known }

theorem isEcho_writeDone (hs : Steady format s) {text : τ} {rest : List (Nat × τ)}
    (hwritten : s.written = (seq, text) :: rest) (hgood : Orderly format s .writeDone)
    (read : Option τ) (hread : read ∈ s.reads) :
    read.any (s.ownWrites.settled seq (some text)).isEcho = s.isEcho read := by
  have hmem := (hs.written (seq, text) (by simp [hwritten])).1
  rw [Bool.eq_iff_iff]
  constructor
  · intro hecho
    rw [Option.any_eq_true] at hecho
    obtain ⟨other, rfl, hother⟩ := hecho
    exact (s.isEcho_iff _).mpr ⟨other, rfl, OwnWrites.isEcho_of_settled hmem hother⟩
  · exact hgood (seq, text) (by simp [hwritten]) read hread

theorem steady_writeDone (hs : Steady format s) {text : τ} {rest : List (Nat × τ)}
    (hwritten : s.written = (seq, text) :: rest) (hgood : Orderly format s .writeDone) :
    Steady format { s with
      written := rest, ownWrites := s.ownWrites.settled seq (some text) } := by
  have hmem : (seq, text) ∈ s.ownWrites.pending := (hs.written _ (by simp [hwritten])).1
  have hseqs := hs.writtenSeqs
  rw [hwritten, map_cons, pairwise_cons] at hseqs
  have hecho := isEcho_writeDone hs hwritten hgood
  exact
    { protection := hs.protection
      parses := hs.parses
      noFile := hs.noFile
      seqs := hs.seqs.sublist ((dropWhile_sublist _).map _)
      fresh := fun queued hqueued => hs.fresh queued ((dropWhile_sublist _).subset hqueued)
      job := fun job hjob => OwnWrites.getLast_dropWhile hs.seqs (hs.job job hjob)
        ((hs.written (seq, text) (by simp [hwritten])).2 job hjob)
      written := by
        intro finished hfinished
        have hold := hs.written finished (by simp [hwritten, hfinished])
        refine ⟨(OwnWrites.mem_dropWhile_le hs.seqs seq finished).mpr ⟨hold.1, ?_⟩, hold.2⟩
        exact hseqs.1 _ (mem_map_of_mem hfinished)
      writtenSeqs := hseqs.2
      newest := hs.newest
      base := fun hjob hall => hs.base hjob fun read hread => by
        rw [← hecho read hread]
        exact hall read hread
      first := fun hbaseline => by
        rw [OwnWrites.newest_settled hs.seqs hmem]
        exact hs.first hbaseline
      unwritten := fun hnone => by
        rw [(hs.unwritten hnone).1] at hwritten
        cases hwritten
      order := hs.order.imp_of_mem fun {read later} hread hlater h => by
        rw [AppSettings.isEcho, AppSettings.isEcho, hecho read hread, hecho later hlater]
        exact h
      alone := fun read hread hnot => by
        rw [AppSettings.isEcho, hecho read hread] at hnot
        exact hs.alone read hread hnot
      foreign := fun read hlast hnot => by
        rw [AppSettings.isEcho, hecho read (mem_of_getLast? hlast)] at hnot
        exact hs.foreign read hlast hnot
      known := hs.known }

theorem steady_external (hs : Steady format s) {text : τ}
    (hgood : Parses format text) :
    Steady format { s with disk := some text, unread := true } :=
  { hs with
    parses := by
      rintro other (hother | hbaseline)
      · obtain rfl := Option.some.inj hother
        exact hgood
      · exact hs.parses other (Or.inr hbaseline)
    noFile := by rintro ⟨⟩
    base := fun hjob hall hsome => hs.base hjob hall (Or.inl (hsome.resolve_right nofun))
    unwritten := fun hnone => hs.unwritten (Or.inr (hnone.resolve_left nofun))
    known := by rintro ⟨⟩ }

theorem steady_read (hformat : format.Lawful) (hs : Steady format s)
    (hgood : Orderly format s .read) :
    Steady format { s with
      baseline := s.disk.or s.baseline
      reads := s.reads ++ [s.disk]
      unread := false } := by
  rw [Orderly] at hgood
  exact
    { protection := hs.protection
      parses := by
        intro text htext
        refine hs.parses text ?_
        cases hdisk : s.disk with
        | none => simpa [hdisk] using htext
        | some current => exact Or.inl (by simpa [hdisk] using htext)
      noFile := by
        intro hdisk
        have hbaseline := hs.noFile hdisk
        simp_all
      seqs := hs.seqs
      fresh := hs.fresh
      job := hs.job
      written := hs.written
      writtenSeqs := hs.writtenSeqs
      newest := hs.newest
      base := by
        intro hjob hall _
        have hecho : s.isEcho s.disk = true := hall s.disk (by simp)
        rw [if_pos hecho] at hgood
        change s.config.Same (configOf format (s.disk.or s.baseline))
        cases hbase : s.baseline with
        | none =>
          rw [hbase, if_pos rfl] at hgood
          have hnewest := hgood.2.resolve_left (by simp [show s.job = none from hjob])
          obtain ⟨text, hdisk, -⟩ := (s.isEcho_iff _).mp hecho
          rw [hdisk] at hnewest ⊢
          rw [(hs.first hbase).2 text hnewest.symm, Option.some_or]
          exact configOf_toTomlString hformat s.config
        | some base =>
          rw [hbase, if_neg nofun] at hgood
          rw [hgood.2, Option.or_self, ← hbase]
          exact hs.base hjob hgood.1 (Or.inl (by simp [hbase]))
      first := by
        intro hbaseline
        obtain ⟨hdisk, hbase⟩ := Option.or_eq_none_iff.mp hbaseline
        refine ⟨fun read hread => ?_, (hs.first hbase).2⟩
        rcases mem_append.mp hread with hread | hread
        · exact (hs.first hbase).1 read hread
        · rw [mem_singleton.mp hread, hdisk]
      unwritten := by
        intro hnone
        refine hs.unwritten (hnone.elim Or.inl fun hread => ?_)
        rcases mem_append.mp hread with hread | hread
        · exact Or.inr hread
        · exact Or.inl (mem_singleton.mp hread).symm
      order := by
        rw [pairwise_append]
        refine ⟨hs.order, pairwise_singleton _ _, fun read hread last hlast => ?_⟩
        obtain rfl := mem_singleton.mp hlast
        intro hecho
        change s.isEcho s.disk = true at hecho
        rw [if_pos hecho] at hgood
        exact hgood.1 read hread
      alone := by
        intro read hread hnot
        rcases mem_append.mp hread with hread | hread
        · exact hs.alone read hread hnot
        · obtain rfl := mem_singleton.mp hread
          change s.isEcho s.disk = false at hnot
          rwa [hnot, if_neg Bool.false_ne_true] at hgood
      foreign := by
        intro read hlast _
        obtain rfl : s.disk = read := by simpa using hlast
        change s.disk.or s.baseline = s.disk
        cases hdisk : s.disk with
        | none => rw [hs.noFile hdisk]; rfl
        | some text => rfl
      known := by
        intro _
        cases hdisk : s.disk <;> simp }

theorem file_eq_of_unread (hs : Steady format s) {text : τ} (hunread : s.unread = false)
    (hdisk : s.disk = some (writeMerging format.codec s.disk s.baseline text).file) :
    (writeMerging format.codec s.disk s.baseline text).file = text := by
  rcases writeMerging_file format.codec s.disk s.baseline text with
    hfile | ⟨base, current, -, hbase, hcurrent, hdiffer, -⟩
  · exact hfile
  · rcases hs.known hunread with hnone | hknown
    · rw [hnone] at hdisk
      cases hdisk
    · rw [hbase, hcurrent] at hknown
      exact absurd (Option.some.inj hknown).symm hdiffer

theorem steady_fire (hformat : format.Lawful) (hs : Steady format s)
    {job : Nat × τ} (hjob : s.job = some job) :
    Steady format { s with
      disk := some (writeMerging format.codec s.disk s.baseline job.2).file
      baseline := (writeMerging format.codec s.disk s.baseline job.2).baseline
      job := none
      written := s.written ++ [job]
      unread := s.unread || s.disk ≠
        some (writeMerging format.codec s.disk s.baseline job.2).file } := by
  have hnewest := hs.newest job hjob
  have hecho : ∀ read ∈ s.reads, s.isEcho read = true := fun read hread => by
    by_contra hnot
    simpa [hjob] using hs.alone read hread (by simpa using hnot)
  have htext : Parses format job.2 := by
    rw [hnewest]
    exact parses_toTomlString hformat s.config
  have hsame : s.config.Same (configOf format (some job.2)) := by
    rw [hnewest]
    exact configOf_toTomlString hformat s.config
  have hquiet : (s.unread || decide (s.disk ≠
      some (writeMerging format.codec s.disk s.baseline job.2).file)) = false →
      s.unread = false ∧ s.disk =
        some (writeMerging format.codec s.disk s.baseline job.2).file := by
    simp
  exact
    { protection := hs.protection
      parses := by
        rintro text (hdisk | hbaseline)
        · obtain rfl := Option.some.inj hdisk
          exact parses_writeMerging hformat.codec htext
        · rw [writeMerging_baseline, Option.map_eq_some_iff] at hbaseline
          obtain ⟨base, -, rfl⟩ := hbaseline
          exact htext
      noFile := by rintro ⟨⟩
      seqs := hs.seqs
      fresh := hs.fresh
      job := by rintro other ⟨⟩
      written := by
        intro finished hfinished
        refine ⟨?_, by rintro other ⟨⟩⟩
        rcases mem_append.mp hfinished with hold | hnew
        · exact (hs.written finished hold).1
        · obtain rfl := mem_singleton.mp hnew
          exact mem_of_getLast? (hs.job finished hjob)
      writtenSeqs := by
        rw [map_append, pairwise_append]
        refine ⟨hs.writtenSeqs, pairwise_singleton _ _, ?_⟩
        simpa using fun seq text hmem => (hs.written (seq, text) hmem).2 job hjob
      newest := by rintro other ⟨⟩
      base := by
        intro _ _ hsome
        have hsome := hsome.resolve_right nofun
        simp only [writeMerging_baseline] at hsome ⊢
        cases hbase : s.baseline with
        | none => simp [hbase] at hsome
        | some base => exact hsame
      first := fun hbaseline => by
        simp only [writeMerging_baseline, Option.map_eq_none_iff] at hbaseline
        exact hs.first hbaseline
      unwritten := fun hnone => by
        cases hecho none (hnone.resolve_left nofun)
      order := hs.order
      alone := fun _ _ _ => rfl
      foreign := fun read hlast hnot => by
        change s.isEcho read = false at hnot
        rw [hecho read (mem_of_getLast? hlast)] at hnot
        cases hnot
      known := fun hunread => by
        obtain ⟨hunread, hdisk⟩ := hquiet hunread
        right
        have hfile := file_eq_of_unread hs hunread hdisk
        have hknown := (hs.known hunread).resolve_left fun hnone => by
          rw [hnone] at hdisk
          cases hdisk
        change (writeMerging format.codec s.disk s.baseline job.2).baseline =
          some (writeMerging format.codec s.disk s.baseline job.2).file
        rw [hfile, writeMerging_baseline, hknown, hdisk]
        rfl }

/-- What a handled read does: nothing when it is our own, else the settings are
those it gives. -/
theorem fileChanged_cases (hs : Steady format s) {read : Option τ}
    {rest : List (Option τ)} (hreads : s.reads = read :: rest)
    (husable : Usable format read) :
    (s.isEcho read = true ∧
      AppSettings.fileChanged format { s with reads := rest } read = { s with reads := rest }) ∨
      (s.isEcho read = false ∧ s.job = none ∧
        AppSettings.fileChanged format { s with reads := rest } read =
          { s with
            config := configOf format read
            protection := .none
            reads := rest }) := by
  cases hecho : s.isEcho read with
  | true =>
    left
    refine ⟨rfl, ?_⟩
    rw [AppSettings.fileChanged, if_pos ⟨hs.protection, hecho⟩]
  | false =>
    right
    refine ⟨rfl, hs.alone read (by simp [hreads]) hecho, ?_⟩
    have hnot : ¬ s.isEcho read = true := by simp [hecho]
    rw [AppSettings.fileChanged, if_neg (fun h => hnot h.2), readConfig_of_usable husable]
    rfl

omit [DecidableEq τ] in
theorem getLast_reads {read last : Option τ} {rest : List (Option τ)}
    (hreads : s.reads = read :: rest) (h : rest.getLast? = some last) :
    s.reads.getLast? = some last := by
  rw [hreads, List.getLast?_cons, h]
  rfl

/-- What is handled before there is a baseline is a missing file, and nothing was written. -/
theorem Steady.unwritten_of_handle (hs : Steady format s) {read : Option τ}
    {rest : List (Option τ)} (hreads : s.reads = read :: rest) (hbaseline : s.baseline = none)
    (hjob : s.job = none) : s.ownWrites.lastWritten = none ∧ s.ownWrites.pending = [] := by
  have hmem : read ∈ s.reads := by simp [hreads]
  rw [(hs.first hbaseline).1 read hmem] at hmem
  obtain ⟨-, hwritten, hpending⟩ := hs.unwritten (Or.inr hmem)
  exact ⟨hwritten, hpending hjob⟩

theorem steady_handle (hs : Steady format s) {read : Option τ}
    {rest : List (Option τ)} (hreads : s.reads = read :: rest)
    (husable : Usable format read) :
    Steady format (AppSettings.fileChanged format { s with reads := rest } read) := by
  have horder := hs.order
  rw [hreads, pairwise_cons] at horder
  have hlast := fun last (h : rest.getLast? = some last) => getLast_reads hreads h
  have hmem : ∀ other ∈ rest, other ∈ s.reads := fun other hother => by simp [hreads, hother]
  have hfirst := fun hbaseline other hother => (hs.first hbaseline).1 other (hmem other hother)
  rcases fileChanged_cases hs hreads husable with ⟨hecho, hsame⟩ | ⟨hecho, hjob, hnew⟩
  · rw [hsame]
    exact
      { hs with
        base := fun hjob hall => hs.base hjob fun other hother => by
          rw [hreads] at hother
          rcases mem_cons.mp hother with rfl | hother
          · exact hecho
          · exact hall other hother
        first := fun hbaseline => ⟨hfirst hbaseline, (hs.first hbaseline).2⟩
        unwritten := fun hnone => hs.unwritten (hnone.imp_right (hmem none))
        order := horder.2
        alone := fun other hother => hs.alone other (hmem other hother)
        foreign := fun last h => hs.foreign last (hlast last h) }
  · rw [hnew]
    exact
      { hs with
        protection := rfl
        newest := by simp [hjob]
        base := fun _ hall _ => by
          -- Our own texts wait first, so this was the only one.
          cases rest with
          | nil =>
            have hbase := hs.foreign read (by simp [hreads]) hecho
            change (configOf format read).Same (configOf format s.baseline)
            rw [hbase]
            exact .refl _
          | cons other rest =>
            have hread := horder.1 other (by simp) (hall other (by simp))
            rw [hecho] at hread
            cases hread
        first := fun hbaseline => by
          refine ⟨hfirst hbaseline, fun text htext => ?_⟩
          obtain ⟨hwritten, hpending⟩ := hs.unwritten_of_handle hreads hbaseline hjob
          simp [OwnWrites.newest, hpending, hwritten] at htext
        unwritten := fun hnone => hs.unwritten (hnone.imp_right (hmem none))
        order := horder.2
        alone := fun _ _ _ => hjob
        foreign := fun last h => hs.foreign last (hlast last h) }

theorem writeDone_cases (hstep : settingsStep format s .writeDone = some t) :
    ∃ finished rest, s.written = finished :: rest ∧
      t = { s with
        written := rest
        ownWrites := s.ownWrites.settled finished.1 (some finished.2) } := by
  cases hwritten : s.written with
  | nil => simp [settingsStep, hwritten] at hstep
  | cons finished rest =>
    simp only [settingsStep, hwritten] at hstep
    exact ⟨finished, rest, rfl, (Option.some.inj hstep).symm⟩

theorem handle_cases (hstep : settingsStep format s .handle = some t) :
    ∃ read rest, s.reads = read :: rest ∧
      t = AppSettings.fileChanged format { s with reads := rest } read := by
  cases hreads : s.reads with
  | nil => simp [settingsStep, hreads] at hstep
  | cons read rest =>
    simp only [settingsStep, hreads] at hstep
    exact ⟨read, rest, rfl, (Option.some.inj hstep).symm⟩

end Steps

variable {s : AppSettings τ}

/-- Every step of such a run keeps the invariant. -/
theorem settingsStep_steady (hformat : format.Lawful) {t : AppSettings τ} {e : SettingsEvent τ}
    (hs : Steady format s) (hgood : Orderly format s e) (hstep : settingsStep format s e = some t) :
    Steady format t := by
  cases e with
  | change apply =>
    obtain rfl := Option.some.inj hstep
    exact steady_change hs hgood
  | fire =>
    obtain ⟨job, hjob, rfl⟩ := Option.map_eq_some_iff.mp hstep
    exact steady_fire hformat hs hjob
  | writeDone =>
    obtain ⟨finished, rest, hwritten, rfl⟩ := writeDone_cases hstep
    exact steady_writeDone hs hwritten hgood
  | external text =>
    obtain rfl := Option.some.inj hstep
    exact steady_external hs hgood
  | read =>
    obtain rfl := Option.some.inj hstep
    exact steady_read hformat hs hgood
  | handle =>
    obtain ⟨read, rest, hreads, rfl⟩ := handle_cases hstep
    exact steady_handle hs hreads (hgood read (by simp [hreads]))

/-- No save is pending, and what the watcher read of the file was handled. -/
structure Quiet (s : AppSettings τ) : Prop where
  job : s.job = none
  written : s.written = []
  reads : s.reads = []
  unread : s.unread = false

instance (s : AppSettings τ) : Decidable (Quiet s) :=
  decidable_of_iff (s.job = none ∧ s.written = [] ∧ s.reads = [] ∧ s.unread = false)
    ⟨fun ⟨hjob, hwritten, hreads, hunread⟩ => ⟨hjob, hwritten, hreads, hunread⟩,
      fun h => ⟨h.job, h.written, h.reads, h.unread⟩⟩

theorem Steady.of_run (hformat : format.Lawful) {t : AppSettings τ}
    {events : List (SettingsEvent τ)} {good : AppSettings τ → SettingsEvent τ → Prop}
    (hgood : ∀ {s e}, good s e → Orderly format s e)
    (hrun : GoodRun (settingsStep format) good s events t) (hs : Steady format s) :
    Steady format t :=
  hrun.invariant (fun hs he hstep => settingsStep_steady hformat hs (hgood he) hstep) hs

theorem Steady.config_agrees (hs : Steady format s) (hquiet : Quiet s) :
    s.config.Same (configOf format s.disk) := by
  have hreads : ∀ read ∈ s.reads, s.isEcho read = true := by simp [hquiet.reads]
  rcases hs.known hquiet.unread with hdisk | hknown
  · have hbase := hs.base hquiet.job hreads (Or.inr hdisk)
    rwa [hs.noFile hdisk, ← hdisk] at hbase
  · cases hdisk : s.disk with
    | none => rw [← hdisk, ← hknown]; exact hs.base hquiet.job hreads (Or.inr hdisk)
    | some text =>
      rw [← hdisk, ← hknown]
      exact hs.base hquiet.job hreads (Or.inl (by simp [hknown, hdisk]))

end Agree

end Opensesh
