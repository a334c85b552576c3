/-
The hosts of one instance and the file they are saved in: edits that queue
saves, the writer that merges, other computers that replace the file, and the
background reloads that move the baseline before they are applied.
-/
import Opensesh.HostsFile
import Opensesh.Instances

namespace Opensesh

/-- Sequence numbers of queued and finished saves. -/
structure SaveTracker where
  queued : Nat
  done : Nat
  /-- A reload was skipped while saves were pending. -/
  reloadWanted : Bool

namespace SaveTracker

def queue (saves : SaveTracker) : SaveTracker := { saves with queued := saves.queued + 1 }

def finished (saves : SaveTracker) (seq : Nat) : SaveTracker :=
  { saves with done := max saves.done seq }

def pending (saves : SaveTracker) : Bool := saves.done < saves.queued

/-- Whether a skipped reload should run now; it is forgotten then. -/
def takeReload (saves : SaveTracker) : Bool × SaveTracker :=
  if saves.pending then (false, saves)
  else (saves.reloadWanted, { saves with reloadWanted := false })

end SaveTracker

/-- What was read from disk. -/
structure Disk where
  file : HostsFile
  locked : Bool

def HostsFile.empty : HostsFile := ⟨[], [], [], false, .empty⟩

section Hosts

variable {τ : Type} (format : HostsFormat τ)

/-- `load_disk`, with the hosts of the linked files at that time. -/
def loadDisk (disk : Option τ) (linked : List Host) : Disk :=
  let read : HostsFile × Bool :=
    match disk with
    | none => (.empty, false)
    | some text =>
      match HostsFile.fromTomlStr format text with
      | .ok file => (file, file.readOnly)
      | .error _ => (.empty, true)
  ⟨{ read.1 with hosts := read.1.hosts ++ linked }, read.2⟩

/-- One instance and its file. -/
structure HostsState (τ : Type) where
  disk : Option τ
  baseline : Option τ
  file : HostsFile
  locked : Bool
  /-- The writer's pending text, with the number of its save. -/
  pending : Option (τ × Nat)
  /-- Saves written whose `save_done` is still to run. -/
  written : List Nat
  saves : SaveTracker
  /-- Background reloads that have not read the file yet. -/
  reloads : Nat
  /-- What reloads read and `apply_disk` is still to see. -/
  reads : List Disk
  /-- The ids of hosts the user removed. -/
  removed : List String

inductive HostsEvent (τ : Type) where
  | modify (change : HostsFile → HostsFile)
  | fire
  | saveDone
  | external (text : τ)
  | watch
  | load (linked : List Host)
  | apply (index : Nat)

def savedIds (file : HostsFile) : List String := file.saved.map Host.id

/-- `save`: queues the file's text for the writer. -/
def HostsState.save (s : HostsState τ) : HostsState τ :=
  match s.file.toTomlString format with
  | .ok text =>
    let saves := s.saves.queue
    { s with saves, pending := some (text, saves.queued) }
  | .error _ => s

/-- `modify`: refused while the file is locked. -/
def HostsState.modify (s : HostsState τ) (change : HostsFile → HostsFile) : HostsState τ :=
  if s.locked then s
  else
    let file := change s.file
    let removed := (savedIds s.file).filter fun id => id ∉ savedIds file
    HostsState.save format { s with file, removed := s.removed ++ removed }

/-- `save_done`, which starts a reload that was skipped. -/
def HostsState.saveDone (s : HostsState τ) (seq : Nat) : HostsState τ :=
  let (reload, saves) := (s.saves.finished seq).takeReload
  { s with saves, reloads := if reload then s.reloads + 1 else s.reloads }

/-- `apply_disk`: deferred while a save is pending. -/
def HostsState.applyDisk (s : HostsState τ) (disk : Disk) : HostsState τ :=
  if s.saves.pending then
    { s with saves := { s.saves with reloadWanted := true } }
  else { s with file := disk.file, locked := disk.locked }

def hostsStep [DecidableEq τ] (s : HostsState τ) : HostsEvent τ → Option (HostsState τ)
  | .modify change => some (s.modify format change)
  | .fire =>
    s.pending.map fun job =>
      let saved := writeMerging format.codec s.disk s.baseline job.1
      { s with
        disk := some saved.file
        baseline := saved.baseline
        pending := none
        written := s.written ++ [job.2] }
  | .saveDone =>
    match s.written with
    | [] => none
    | seq :: rest => some (HostsState.saveDone { s with written := rest } seq)
  | .external text => some { s with disk := some text }
  | .watch => some { s with reloads := s.reloads + 1 }
  | .load linked =>
    if s.reloads = 0 then none
    else
      some
        { s with
          reloads := s.reloads - 1
          -- A file that is not there leaves the baseline.
          baseline := s.disk.or s.baseline
          reads := s.reads ++ [loadDisk format s.disk linked] }
  | .apply index =>
    s.reads[index]?.map fun disk =>
      HostsState.applyDisk { s with reads := s.reads.eraseIdx index } disk

/-- The ids of the hosts a text holds. -/
def hostIds (text : Option τ) : List String :=
  match text with
  | some text => sectionIds ((contents format.codec text).table.lookup "host")
  | none => []

/-- What the TOML library and the entries' formats promise: the header is a
comment, and a host is written under its id. -/
structure HostsFormat.Lawful : Prop where
  codec : format.codec.Lawful
  header : ∀ text, format.codec.parse (format.header text) = format.codec.parse text
  host : ∀ host, (format.writeHost host).table.lookup "id" = some (.string host.id)

variable {format}

theorem recordId_writeHost (hformat : format.Lawful) (host : Host) :
    recordId (.table (format.writeHost host).table) "id" = host.id := by
  simp [recordId, Value.get, hformat.host, Value.asStr]

theorem sectionIds_toRoot (hformat : format.Lawful) {file : HostsFile}
    {id : String} (hid : id ∈ savedIds file) :
    id ∈ sectionIds ((file.toRoot format).table.lookup "host") := by
  have hsome : file.saved.map format.writeHost ≠ [] := by
    rintro hnone
    simp_all [savedIds]
  rw [HostsFile.toRoot, Document.lookup_insertArray _ _ hsome]
  simpa [sectionIds, Function.comp_def, recordId_writeHost hformat, savedIds] using hid

theorem hostIds_toTomlString (hformat : format.Lawful) {file : HostsFile}
    {text : τ} (htext : file.toTomlString format = .ok text) {id : String}
    (hid : id ∈ savedIds file) : id ∈ hostIds format (some text) := by
  cases hprint : format.codec.print (file.toRoot format) with
  | error message => simp [HostsFile.toTomlString, hprint, Except.map] at htext
  | ok body =>
    obtain rfl : format.header body = text := by
      simpa [HostsFile.toTomlString, hprint, Except.map] using htext
    obtain ⟨d, hparse, hsame⟩ := hformat.codec.reads hprint
    rw [hostIds, contents, hformat.header, hparse, ← sectionIds_of_same
      (Document.wellFormedOpt_lookup _ _) (d.wellFormedOpt_lookup _)
      (hsame "host")]
    exact sectionIds_toRoot hformat hid

variable (format)

/-- The queued text has every host of a version of the file, but those the user
removed. -/
def QueuedHas (s : HostsState τ) (known : Option τ) : Prop :=
  ∀ job ∈ s.pending, ∀ id ∈ hostIds format known, id ∈ hostIds format (some job.1) ∨ id ∈ s.removed

/-- Texts whose hosts are merged one by one: each has an id of its own, and the
section was not dropped. -/
def MergesHosts (base text current : τ) : Prop :=
  Readable format.codec ["host"] base ∧ Readable format.codec ["host"] text ∧
    Readable format.codec ["host"] current ∧
    (((contents format.codec base).table.lookup "host").isSome →
      ((contents format.codec text).table.lookup "host").isSome)

/-- A write that has nothing to lose, or can merge what it finds. -/
def WriteKeeps (s : HostsState τ) (job : τ × Nat) (current : τ) : Prop :=
  match s.baseline with
  | none => ∀ id ∈ hostIds format (some current), id ∈ hostIds format (some job.1) ∨ id ∈ s.removed
  | some base => current = base ∨ current = job.1 ∨
      hostIds format (some current) = [] ∨ MergesHosts format base job.1 current

/-- A step that loses no host: an edit starts from all that was read, a read
finds nothing that the queued text lacks, and a write keeps what it finds. -/
def KeepsHosts (s : HostsState τ) : HostsEvent τ → Prop
  | .modify _ => s.locked = true ∨
      ∀ id ∈ hostIds format s.baseline, id ∈ savedIds s.file ∨ id ∈ s.removed
  | .load _ => QueuedHas format s s.disk
  | .fire => ∀ job ∈ s.pending, ∀ current ∈ s.disk, WriteKeeps format s job current
  | .saveDone | .external _ | .watch | .apply _ => True

section Decidable

variable [DecidableEq τ] (s : HostsState τ)

instance (known : Option τ) : Decidable (QueuedHas format s known) :=
  inferInstanceAs (Decidable (∀ job ∈ s.pending, _))

instance (base text current : τ) : Decidable (MergesHosts format base text current) :=
  inferInstanceAs (Decidable (_ ∧ _))

instance (job : τ × Nat) (current : τ) : Decidable (WriteKeeps format s job current) := by
  unfold WriteKeeps
  split <;> infer_instance

instance (e : HostsEvent τ) : Decidable (KeepsHosts format s e) := by
  cases e <;> unfold KeepsHosts <;> infer_instance

end Decidable

variable {format}

variable (format) in
theorem modify_cases (s : HostsState τ) (change : HostsFile → HostsFile) :
    s.modify format change = s ∨ s.locked = false ∧
      (s.modify format change).baseline = s.baseline ∧
      (s.modify format change).disk = s.disk ∧
      (∀ id, id ∈ (s.modify format change).removed ↔
        id ∈ s.removed ∨ id ∈ savedIds s.file ∧ id ∉ savedIds (change s.file)) ∧
      ((s.modify format change).pending = s.pending ∨
        ∃ text, (change s.file).toTomlString format = .ok text ∧
          (s.modify format change).pending = some (text, s.saves.queue.queued)) := by
  cases hlocked : s.locked with
  | true => exact Or.inl (by simp [HostsState.modify, hlocked])
  | false =>
    right
    cases htext : (change s.file).toTomlString format with
    | error message => simp [HostsState.modify, hlocked, HostsState.save, htext]
    | ok text => simp [HostsState.modify, hlocked, HostsState.save, htext]

/-- What a step does to the file, the baseline, the queued text and the removed
hosts. -/
inductive HostsEffect (format : HostsFormat τ) [DecidableEq τ]
    (s t : HostsState τ) : HostsEvent τ → Prop
  | modify (change : HostsFile → HostsFile) (ht : t = s.modify format change) :
      HostsEffect format s t (.modify change)
  | fire (job : τ × Nat) (hjob : s.pending = some job)
      (hdisk : t.disk = some (writeMerging format.codec s.disk s.baseline job.1).file)
      (hbaseline : t.baseline = (writeMerging format.codec s.disk s.baseline job.1).baseline)
      (hpending : t.pending = none) (hremoved : t.removed = s.removed) :
      HostsEffect format s t .fire
  | external (text : τ) (hdisk : t.disk = some text)
      (hbaseline : t.baseline = s.baseline) (hpending : t.pending = s.pending)
      (hremoved : t.removed = s.removed) : HostsEffect format s t (.external text)
  | load (linked : List Host) (hdisk : t.disk = s.disk)
      (hbaseline : t.baseline = s.disk.or s.baseline)
      (hpending : t.pending = s.pending) (hremoved : t.removed = s.removed) :
      HostsEffect format s t (.load linked)
  | other (e : HostsEvent τ) (hdisk : t.disk = s.disk)
      (hbaseline : t.baseline = s.baseline) (hpending : t.pending = s.pending)
      (hremoved : t.removed = s.removed) : HostsEffect format s t e

section Steps

variable [DecidableEq τ] {s t : HostsState τ} {e : HostsEvent τ}

theorem hostsEffect (hstep : hostsStep format s e = some t) : HostsEffect format s t e := by
  cases e with
  | modify change => exact .modify change (Option.some.inj hstep).symm
  | fire =>
    obtain ⟨job, hjob, rfl⟩ := Option.map_eq_some_iff.mp hstep
    exact .fire job hjob rfl rfl rfl rfl
  | saveDone =>
    cases hwritten : s.written with
    | nil => simp [hostsStep, hwritten] at hstep
    | cons seq rest =>
      obtain rfl : HostsState.saveDone { s with written := rest } seq = t := by
        simpa [hostsStep, hwritten] using hstep
      exact .other _ rfl rfl rfl rfl
  | external text =>
    obtain rfl := Option.some.inj hstep
    exact .external text rfl rfl rfl rfl
  | watch =>
    obtain rfl := Option.some.inj hstep
    exact .other _ rfl rfl rfl rfl
  | load linked =>
    rw [hostsStep, Option.ite_none_left_eq_some, Option.some.injEq] at hstep
    obtain ⟨-, rfl⟩ := hstep
    exact .load linked rfl rfl rfl rfl
  | apply index =>
    obtain ⟨disk, -, rfl⟩ := Option.map_eq_some_iff.mp hstep
    unfold HostsState.applyDisk
    split <;> exact .other _ rfl rfl rfl rfl

theorem hostsStep_removed (hstep : hostsStep format s e = some t) {id : String}
    (hid : id ∈ s.removed) : id ∈ t.removed := by
  cases hostsEffect hstep with
  | modify change ht =>
    subst ht
    rcases modify_cases format s change with
      hsame | ⟨-, -, -, hremoved, -⟩
    · rwa [hsame]
    · exact (hremoved id).mpr (Or.inl hid)
  | fire _ _ _ _ _ hremoved => rwa [hremoved]
  | external _ _ _ _ hremoved => rwa [hremoved]
  | load _ _ _ _ hremoved => rwa [hremoved]
  | other _ _ _ _ hremoved => rwa [hremoved]

theorem hostsStep_queuedHas (hformat : format.Lawful) (hs : QueuedHas format s s.baseline)
    (hgood : KeepsHosts format s e) (hstep : hostsStep format s e = some t) :
    QueuedHas format t t.baseline := by
  cases hostsEffect hstep with
  | modify change ht =>
    subst ht
    rcases modify_cases format s change with
      hsame | ⟨hlocked, hbaseline, -, hremoved, hpending⟩
    · rwa [hsame]
    · intro job hjob id hid
      rw [hbaseline] at hid
      rw [hremoved]
      rcases hpending with hpending | ⟨text, htext, hpending⟩
      · rw [hpending] at hjob
        exact (hs job hjob id hid).imp_right Or.inl
      · obtain rfl : (text, s.saves.queue.queued) = job := by
          simpa [hpending] using hjob
        rcases hgood.resolve_left (by simp [hlocked]) id hid with hmem | hmem
        · by_cases hkept : id ∈ savedIds (change s.file)
          · exact Or.inl (hostIds_toTomlString hformat htext hkept)
          · exact Or.inr (Or.inr ⟨hmem, hkept⟩)
        · exact Or.inr (Or.inl hmem)
  | fire _ _ _ _ hpending _ =>
    intro job hjob
    rw [hpending] at hjob
    cases hjob
  | external _ _ hbaseline hpending hremoved =>
    rwa [QueuedHas, hbaseline, hpending, hremoved]
  | load _ _ hbaseline hpending hremoved =>
    rw [QueuedHas, hbaseline, hpending, hremoved]
    cases hdisk : s.disk with
    | none => exact hs
    | some text =>
      rw [KeepsHosts, hdisk] at hgood
      exact hgood
  | other _ _ hbaseline hpending hremoved =>
    rwa [QueuedHas, hbaseline, hpending, hremoved]

/-- A merge keeps the hosts of the file it finds, but those dropped from a text
that had them. -/
theorem mem_hostIds_writeMerging (hcodec : format.codec.Lawful)
    {base text current : τ} (hmerges : MergesHosts format base text current)
    {id : String} (hid : id ∈ hostIds format (some current))
    (hbase : id ∈ hostIds format (some base) → id ∈ hostIds format (some text)) :
    id ∈ hostIds format
      (some (writeMerging format.codec (some current) (some base) text).file) := by
  obtain ⟨hreadBase, hreadText, hreadCurrent, hdropped⟩ := hmerges
  by_cases hsame : current ≠ base ∧ current ≠ text
  · obtain ⟨out, hout⟩ := hcodec.prints hreadBase.parse_eq.1
      hreadText.parse_eq.1 hreadCurrent.parse_eq.1
    obtain ⟨merged, hparse, hmerged⟩ := hcodec.reads hout
    have hmerge := merge3_eq hreadBase.parse_eq.1 hreadText.parse_eq.1 hreadCurrent.parse_eq.1 hout
    simp only [writeMerging, hsame, ne_eq, not_false_eq_true, and_self, ↓reduceIte, hmerge]
    rw [hostIds, contents, hparse, ← sectionIds_of_same
      (Document.wellFormedOpt_lookup _ _) (merged.wellFormedOpt_lookup _)
      (hmerged "host"), lookup_mergeDocuments]
    have hhost := List.mem_singleton_self "host"
    refine mem_sectionIds_mergeValue "host"
      (Document.wellFormedOpt_lookup _ _) (Document.wellFormedOpt_lookup _ _)
      (Document.wellFormedOpt_lookup _ _) (hreadBase.parse_eq.2 "host" hhost)
      (hreadText.parse_eq.2 "host" hhost)
      (hreadCurrent.parse_eq.2 "host" hhost) hdropped ?_ (Or.inr hid)
      fun hmem => ⟨hbase hmem, hid⟩
    intro _
    cases hsection : (contents format.codec current).table.lookup "host" with
    | none => simp [hostIds, hsection, sectionIds] at hid
    | some => rfl
  · simp only [writeMerging, hsame, ↓reduceIte]
    rw [not_and_or, not_not, not_not] at hsame
    rcases hsame with rfl | rfl
    · exact hbase hid
    · exact hid

theorem fire_keeps (hformat : format.Lawful) {job : τ × Nat} {current : τ}
    (hs : QueuedHas format s s.baseline) (hjob : s.pending = some job)
    (hkeeps : WriteKeeps format s job current) {id : String}
    (hremoved : id ∉ s.removed) (hid : id ∈ hostIds format (some current)) :
    id ∈ hostIds format
      (some (writeMerging format.codec (some current) s.baseline job.1).file) := by
  have hqueued := fun hmem => (hs job hjob id hmem).resolve_right hremoved
  cases hbase : s.baseline with
  | none =>
    rw [WriteKeeps, hbase] at hkeeps
    exact (hkeeps id hid).resolve_right hremoved
  | some base =>
    rw [hbase] at hqueued
    rw [WriteKeeps, hbase] at hkeeps
    rcases hkeeps with rfl | rfl | hnone | hmerges
    · simpa [writeMerging] using hqueued hid
    · simpa [writeMerging] using hid
    · rw [hnone] at hid
      cases hid
    · exact mem_hostIds_writeMerging hformat.codec hmerges hid hqueued

/-- A host in the file stays unless the user removed it or another computer's
version lacks it. -/
theorem hostsStep_keeps (hformat : format.Lawful)
    (hs : QueuedHas format s s.baseline) (hgood : KeepsHosts format s e)
    (hstep : hostsStep format s e = some t) {id : String}
    (hid : id ∈ hostIds format s.disk)
    (hexternal : ∀ text, e = .external text → id ∈ hostIds format (some text))
    (hremoved : id ∉ t.removed) : id ∈ hostIds format t.disk := by
  cases hostsEffect hstep with
  | modify change ht =>
    subst ht
    rcases modify_cases format s change with
      hsame | ⟨-, -, hdisk, -⟩
    · rwa [hsame]
    · rwa [hdisk]
  | fire job hjob hdisk _ _ hsame =>
    rw [hsame] at hremoved
    rw [hdisk]
    cases hcurrent : s.disk with
    | none => simp [hcurrent, hostIds] at hid
    | some current =>
      rw [hcurrent] at hid
      exact fire_keeps hformat hs hjob (hgood job hjob current hcurrent) hremoved hid
  | external text hdisk => rw [hdisk]; exact hexternal text rfl
  | load _ hdisk => rwa [hdisk]
  | other _ hdisk => rwa [hdisk]

theorem removed_of_run {good : HostsState τ → HostsEvent τ → Prop}
    {events : List (HostsEvent τ)}
    (hrun : GoodRun (hostsStep format) good s events t) {id : String}
    (hid : id ∈ s.removed) : id ∈ t.removed := by
  induction hrun with
  | nil => exact hid
  | cons _ hstep _ ih => exact ih (hostsStep_removed hstep hid)

theorem hosts_kept (hformat : format.Lawful) {events : List (HostsEvent τ)}
    (hs : QueuedHas format s s.baseline)
    (hrun : GoodRun (hostsStep format) (KeepsHosts format) s events t)
    {id : String} (hid : id ∈ hostIds format s.disk)
    (hexternal : ∀ text, .external text ∈ events → id ∈ hostIds format (some text))
    (hremoved : id ∉ t.removed) : id ∈ hostIds format t.disk := by
  induction hrun with
  | nil => exact hid
  | cons hgood hstep hrest ih =>
    refine ih (hostsStep_queuedHas hformat hs hgood hstep)
      (hostsStep_keeps hformat hs hgood hstep hid ?_ ?_) ?_ hremoved
    · rintro text rfl
      exact hexternal text (by simp)
    · exact fun hmem => hremoved (removed_of_run hrest hmem)
    · exact fun text htext => hexternal text (by simp [htext])

/-- A host another computer added is in the file after every run of such steps,
unless the user removed it or a later version of another computer lacks it. -/
theorem external_host_kept (hformat : format.Lawful) {text : τ}
    {earlier later : List (HostsEvent τ)} (hstart : s.pending = none)
    (hrun : GoodRun (hostsStep format) (KeepsHosts format) s (earlier ++ .external text :: later) t)
    {id : String} (hid : id ∈ hostIds format (some text))
    (hexternal : ∀ text, .external text ∈ later → id ∈ hostIds format (some text))
    (hremoved : id ∉ t.removed) : id ∈ hostIds format t.disk := by
  obtain ⟨before, hearlier, hrest⟩ := hrun.of_append
  have hbefore : QueuedHas format before before.baseline :=
    hearlier.invariant (hostsStep_queuedHas hformat) fun job hjob => by
      rw [hstart] at hjob
      cases hjob
  cases hrest with
  | cons hgood hstep hlater =>
    have hafter := hostsStep_queuedHas hformat hbefore hgood hstep
    obtain rfl := Option.some.inj hstep
    exact hosts_kept hformat hafter hlater hid hexternal hremoved

end Steps

end Hosts

namespace HostsSyncWitness

def field (value : Value) (key : String) : String := ((value.get key).bind Value.asStr).getD ""

def writeHost (host : Host) : Document :=
  ⟨[("address", .string host.address), ("id", .string host.id),
    ("name", .string host.name), ("protocol", .string "ssh")], by
      rw [wellFormed_table]
      have hkeys : ["address", "id", "name", "protocol"].Pairwise (· < ·) := by
        decide
      refine ⟨hkeys, fun key value hmem => ?_⟩
      simp only [List.mem_cons, List.not_mem_nil, or_false, Prod.mk.injEq] at hmem
      rcases hmem with ⟨-, rfl⟩ | ⟨-, rfl⟩ | ⟨-, rfl⟩ | ⟨-, rfl⟩ <;> rfl⟩

/-- Texts told apart by what they hold, and hosts with an id, a name and an
address. -/
def format : HostsFormat Document where
  codec := InstancesWitness.codec
  header := id
  readGroup _ := none
  writeGroup _ := .empty
  readHost value := value.asTable.map fun _ =>
    ⟨field value "id", field value "name", field value "address", none, none, [], .empty⟩
  writeHost := writeHost
  readSource _ := none
  writeSource _ := .empty
  newId count := String.ofList (List.replicate (count + 1) 'i')
  lower := id

theorem format_lawful : format.Lawful :=
  ⟨InstancesWitness.codec_lawful, fun _ => rfl, fun _ => by
    simp [format, writeHost, lookup_cons_ite]⟩

def host (id : String) : Host := ⟨id, id, id, none, none, [], .empty⟩

def file (ids : List String) : HostsFile := ⟨[], ids.map host, [], false, .empty⟩

def text (ids : List String) : Document := (file ids).toRoot format

/-- An instance that read a file with one host. -/
def opened : HostsState Document :=
  ⟨some (text ["a"]), some (text ["a"]), file ["a"], false, none, [], ⟨0, 0, false⟩, 0, [], []⟩

def addHost (id : String) (file : HostsFile) : HostsFile :=
  { file with hosts := file.hosts ++ [host id] }

/-- The background reload reads another computer's version while a save is
queued, and the save writes over it. -/
def overwriting : List (HostsEvent Document) :=
  [.modify (addHost "b"), .external (text ["a", "x"]), .watch, .load [], .fire]

theorem external_host_lost :
    ∃ t, runFrom (hostsStep format) opened overwriting = some t ∧
      "x" ∈ hostIds format (some (text ["a", "x"])) ∧
      "x" ∉ hostIds format t.disk ∧ "x" ∉ t.removed := by
  refine ⟨_, rfl, ?_⟩
  decide

/-- The save merges before the reload reads the file, and the next edit starts
from what was read. -/
def merging : List (HostsEvent Document) :=
  [.modify (addHost "b")] ++ .external (text ["a", "x"]) ::
    [.watch, .fire, .load [], .saveDone, .apply 0, .modify (addHost "c"), .fire]

theorem external_host_merged :
    ∃ t, runFrom (hostsStep format) opened merging = some t ∧ "x" ∈ hostIds format t.disk := by
  have hrun : GoodRun (hostsStep format) (KeepsHosts format) opened merging _ := .of_runGood rfl
  exact ⟨_, hrun.runFrom_eq,
    external_host_kept format_lawful rfl hrun (by decide) (by simp) (by decide)⟩

end HostsSyncWitness

end Opensesh
