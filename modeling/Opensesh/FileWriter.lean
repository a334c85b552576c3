/-
The background writer: one thread takes the messages in order, keeps the latest version of each
file until it is quiet, and removes files at once. What is on disk when a flush is answered is
the last word that was queued for each file.
-/
import Opensesh.Assoc
import Opensesh.Machine
import Opensesh.Instances
import Mathlib.Logic.Function.Basic

namespace Opensesh.FileWriter

open List Option

universe u

/-- A version of a file that waits to be written. -/
structure Job (τ : Type) where
  /-- The message that queued it. -/
  number : Nat
  bytes : τ
  backups : Nat

inductive Message (P τ : Type) where
  | write (path : P) (bytes : τ) (backups : Nat)
  | remove (path : P)
  | flush

/-- What the thread did to a file, for which message. -/
inductive Effect (P : Type) where
  | wrote (path : P) (number : Nat)
  | removed (path : P) (number : Nat)

/-- The writer with its channel: every message sent so far and how many the thread has taken;
the files that wait; the disk and the baselines; the flushes answered and the effects so far. -/
structure Writer (P τ : Type) where
  sent : List (Message P τ)
  taken : Nat
  isOpen : Bool
  pending : List (P × Job τ)
  files : P → Option τ
  baselines : P → Option τ
  answered : List Nat
  effects : List (Effect P)
  stopped : Bool

inductive Act (P τ : Type) where
  | send (message : Message P τ)
  /-- The thread takes the next message. -/
  | take
  /-- No message came for the debounce interval. -/
  | timeout
  /-- The writer is dropped. -/
  | close
  /-- The channel is closed and empty. -/
  | stop

section

variable {P τ : Type} [LinearOrder P] [DecidableEq τ] (codec : Codec τ) (isToml : P → Bool)
  (backupPath : P → Nat → P)

/-- `write_merging`: only TOML files are merged. -/
def writeMergingAt (path : P) (file baseline : Option τ) (text : τ) : Saved τ :=
  if isToml path then writeMerging codec file baseline text
  else ⟨text, baseline.map fun _ => text, atomicWrite file text⟩

/-- Each backup up to one takes the next place. -/
def shiftBackups (path : P) : Nat → (P → Option τ) → P → Option τ
  | 0, files => files
  | index + 1, files =>
    shiftBackups path index <|
      match files (backupPath path (index + 1)) with
      | some bytes =>
        Function.update (Function.update files (backupPath path (index + 2)) (some bytes))
          (backupPath path (index + 1)) none
      | none => files

/-- The disk with the previous version of a file as its first backup. -/
def rotateBackups (path : P) (previous : Option τ) (backups : Nat) (files : P → Option τ) :
    P → Option τ :=
  match previous with
  | none => files
  | some bytes =>
    if backups = 0 then files
    else
      Function.update (shiftBackups backupPath path (backups - 1)
        (Function.update files (backupPath path backups) none)) (backupPath path 1) (some bytes)

/-- The disk with a file replaced; one that holds these bytes already is left alone. -/
def replaceFile (path : P) (bytes : τ) (backups : Nat) (files : P → Option τ) : P → Option τ :=
  if files path = some bytes then files
  else rotateBackups backupPath path (files path) backups (Function.update files path (some bytes))

namespace Writer

/-- One turn of `write_all`. -/
def writeOne (writer : Writer P τ) (entry : P × Job τ) : Writer P τ :=
  let (path, job) := entry
  let saved := writeMergingAt codec isToml path (writer.files path) (writer.baselines path) job.bytes
  { writer with
    files := replaceFile backupPath path saved.file job.backups writer.files
    baselines := Function.update writer.baselines path saved.baseline
    effects := writer.effects ++ [.wrote path job.number] }

def writeAll (writer : Writer P τ) : Writer P τ :=
  writer.pending.foldl (writeOne codec isToml backupPath) { writer with pending := [] }

/-- What the thread does with a message. -/
def handle (writer : Writer P τ) (number : Nat) : Message P τ → Writer P τ
  | .write path bytes backups =>
    { writer with pending := insertEntry path ⟨number, bytes, backups⟩ writer.pending }
  | .remove path =>
    { writer with
      pending := removeEntry path writer.pending
      baselines := Function.update writer.baselines path none
      files := Function.update writer.files path none
      effects := writer.effects ++ [.removed path number] }
  | .flush =>
    let writer := writeAll codec isToml backupPath writer
    { writer with answered := writer.answered ++ [number] }

def step (writer : Writer P τ) : Act P τ → Option (Writer P τ)
  | .send message =>
    if writer.isOpen then some { writer with sent := writer.sent ++ [message] } else none
  | .take =>
    if writer.stopped then none
    else writer.sent[writer.taken]?.map fun message =>
      { handle codec isToml backupPath writer writer.taken message with
        taken := writer.taken + 1 }
  | .timeout =>
    if writer.stopped || writer.pending.isEmpty then none
    else some (writeAll codec isToml backupPath writer)
  | .close => some { writer with isOpen := false }
  | .stop =>
    if writer.stopped || writer.isOpen || decide (writer.taken < writer.sent.length) then none
    else some { writeAll codec isToml backupPath writer with stopped := true }

/-- A writer that was just started. -/
def start (files baselines : P → Option τ) : Writer P τ :=
  ⟨[], 0, true, [], files, baselines, [], [], false⟩

end Writer

/-- What a message says a file holds from then on; none when it is about another file. -/
def Message.word (path : P) : Message P τ → Option (Option τ)
  | .write other bytes _ => if other = path then some (some bytes) else none
  | .remove other => if other = path then some none else none
  | .flush => none

/-- What the last message about a file says it holds. -/
def lastWord (path : P) (messages : List (Message P τ)) : Option (Option τ) :=
  messages.reverse.findSome? (Message.word path)

/-- The file is on disk as this instance last knew it, if it ever did and would merge it. -/
def Calm (files baselines : P → Option τ) (path : P) : Prop :=
  isToml path = true → ∀ base current, baselines path = some base →
    files path = some current → current = base

/-- No message is about a file whose backups this one is among. -/
def Clear (sent : List (Message P τ)) (path : P) : Prop :=
  ∀ other index, (∃ message ∈ sent, message.word other ≠ none) → backupPath other index ≠ path

variable {codec isToml backupPath}

section

variable {path other : P} {files baselines : P → Option τ} {bytes : τ} {backups : Nat}

omit [DecidableEq τ] in
theorem shiftBackups_other (h : ∀ index, backupPath path index ≠ other) (count : Nat)
    (files : P → Option τ) : shiftBackups backupPath path count files other = files other := by
  induction count generalizing files with
  | zero => rfl
  | succ index ih =>
    rw [shiftBackups, ih]
    cases files (backupPath path (index + 1)) with
    | none => rfl
    | some bytes =>
      simp only
      rw [Function.update_of_ne (h _).symm, Function.update_of_ne (h _).symm]

omit [DecidableEq τ] in
theorem rotateBackups_other (h : ∀ index, backupPath path index ≠ other) (previous : Option τ) :
    rotateBackups backupPath path previous backups files other = files other := by
  cases previous with
  | none => rfl
  | some bytes =>
    rw [rotateBackups]
    split
    · rfl
    · rw [Function.update_of_ne (h _).symm, shiftBackups_other h, Function.update_of_ne (h _).symm]

theorem replaceFile_same (h : ∀ index, backupPath path index ≠ path) :
    replaceFile backupPath path bytes backups files path = some bytes := by
  rw [replaceFile]
  split
  next hsame => exact hsame
  next => rw [rotateBackups_other h, Function.update_self]

theorem replaceFile_other (hne : other ≠ path) (h : ∀ index, backupPath path index ≠ other) :
    replaceFile backupPath path bytes backups files other = files other := by
  rw [replaceFile]
  split
  · rfl
  · rw [rotateBackups_other h, Function.update_of_ne hne]

omit [LinearOrder P] in
theorem writeMergingAt_baseline (path : P) (file baseline : Option τ) (text : τ) :
    (writeMergingAt codec isToml path file baseline text).baseline =
      baseline.map fun _ => text := by
  rw [writeMergingAt]
  split
  · exact writeMerging_baseline codec file baseline text
  · rfl

omit [LinearOrder P] in
/-- A file that is as it was known is written as given. -/
theorem writeMergingAt_file (h : Calm isToml files baselines path) (text : τ) :
    (writeMergingAt codec isToml path (files path) (baselines path) text).file = text := by
  rw [writeMergingAt]
  split
  next htoml =>
    rcases writeMerging_file codec (files path) (baselines path) text with hfile | hmerged
    · exact hfile
    · obtain ⟨base, current, -, hbase, hcurrent, hne, -⟩ := hmerged
      exact absurd (h htoml base current hbase hcurrent) hne
  next => rfl

end

namespace Writer

section

variable {writer : Writer P τ} {path : P} {entry : P × Job τ}

/-- A write of a file leaves what it was given and a baseline that fits. -/
theorem writeOne_same (hclear : ∀ index, backupPath entry.1 index ≠ entry.1)
    (hcalm : Calm isToml writer.files writer.baselines entry.1) :
    (writeOne codec isToml backupPath writer entry).files entry.1 = some entry.2.bytes ∧
      Calm isToml (writeOne codec isToml backupPath writer entry).files
        (writeOne codec isToml backupPath writer entry).baselines entry.1 := by
  have hfile : (writeOne codec isToml backupPath writer entry).files entry.1 = some entry.2.bytes :=
    (replaceFile_same hclear).trans (congrArg some (writeMergingAt_file hcalm entry.2.bytes))
  refine ⟨hfile, fun _ base current hbase hcurrent => ?_⟩
  rw [hfile] at hcurrent
  have hbaseline : (writeOne codec isToml backupPath writer entry).baselines entry.1 =
      (writer.baselines entry.1).map fun _ => entry.2.bytes :=
    (Function.update_self ..).trans (writeMergingAt_baseline ..)
  rw [hbaseline] at hbase
  obtain ⟨_, -, rfl⟩ := map_eq_some_iff.mp hbase
  exact (some.inj hcurrent).symm

/-- A write of another file leaves this one alone. -/
theorem writeOne_other (hne : path ≠ entry.1) (hclear : ∀ index, backupPath entry.1 index ≠ path) :
    (writeOne codec isToml backupPath writer entry).files path = writer.files path ∧
      (writeOne codec isToml backupPath writer entry).baselines path = writer.baselines path :=
  ⟨replaceFile_other hne hclear, Function.update_of_ne hne _ _⟩

/-- What the writes of several files leave of one. -/
theorem foldl_writeOne {entries : List (P × Job τ)} (hnodup : (entries.map Prod.fst).Nodup)
    (hclear : ∀ entry ∈ entries, ∀ index, backupPath entry.1 index ≠ path)
    (hcalm : Calm isToml writer.files writer.baselines path) :
    Calm isToml (entries.foldl (writeOne codec isToml backupPath) writer).files
        (entries.foldl (writeOne codec isToml backupPath) writer).baselines path ∧
      (entries.foldl (writeOne codec isToml backupPath) writer).files path =
        match entries.lookup path with
        | some job => some job.bytes
        | none => writer.files path := by
  induction entries generalizing writer with
  | nil => exact ⟨hcalm, rfl⟩
  | cons entry entries ih =>
    obtain ⟨hnotin, hnodup⟩ := nodup_cons.mp hnodup
    obtain ⟨hfirst, hclear⟩ := forall_mem_cons.mp hclear
    rw [foldl_cons]
    by_cases hpath : path = entry.1
    · subst hpath
      obtain ⟨hfile, hcalm⟩ := @writeOne_same _ _ _ _ codec _ _ _ _ hfirst hcalm
      obtain ⟨hlater, hfiles⟩ := ih hnodup hclear hcalm
      have hnone : entries.lookup entry.1 = none := lookup_eq_none_iff_not_mem.mpr hnotin
      refine ⟨hlater, ?_⟩
      rw [hfiles, hnone, hfile, lookup_cons_ite, if_pos rfl]
    · obtain ⟨hfile, hbaseline⟩ := @writeOne_other _ _ _ _ codec isToml _ writer _ _ hpath hfirst
      have hsame : Calm isToml (writeOne codec isToml backupPath writer entry).files
          (writeOne codec isToml backupPath writer entry).baselines path := by
        intro htoml base current hbase hcurrent
        rw [hbaseline] at hbase
        rw [hfile] at hcurrent
        exact hcalm htoml base current hbase hcurrent
      obtain ⟨hlater, hfiles⟩ := ih hnodup hclear hsame
      refine ⟨hlater, ?_⟩
      rw [hfiles, hfile, lookup_cons_ite, if_neg hpath]

/-- What the writes leave besides the files. -/
theorem foldl_writeOne_frame (entries : List (P × Job τ)) (writer : Writer P τ) :
    ∃ files baselines, entries.foldl (writeOne codec isToml backupPath) writer =
      { writer with
        files
        baselines
        effects := writer.effects ++ entries.map fun entry => .wrote entry.1 entry.2.number } := by
  induction entries generalizing writer with
  | nil => exact ⟨writer.files, writer.baselines, by simp⟩
  | cons entry entries ih =>
    obtain ⟨files, baselines, hrest⟩ := ih (writeOne codec isToml backupPath writer entry)
    refine ⟨files, baselines, ?_⟩
    rw [foldl_cons, hrest, writeOne, map_cons, List.append_assoc]
    rfl

end

end Writer

section

variable {path : P} {messages : List (Message P τ)} {message : Message P τ}

omit [DecidableEq τ] in
theorem lastWord_append (messages : List (Message P τ)) (message : Message P τ) :
    lastWord path (messages ++ [message]) = (message.word path).or (lastWord path messages) := by
  rw [lastWord, reverse_append, reverse_singleton, singleton_append, List.findSome?_cons, lastWord]
  cases message.word path <;> rfl

omit [DecidableEq τ] in
theorem Clear.of_append (h : Clear backupPath (messages ++ [message]) path) :
    Clear backupPath messages path := fun other index ⟨earlier, hmem, hword⟩ =>
  h other index ⟨earlier, mem_append_left _ hmem, hword⟩

end

namespace Writer

/-- What holds of the writer whatever is queued: each version that waits was queued after every
removal of its file, no write comes after the removal it was queued before, and every flush that
was taken is answered. -/
structure Sound (writer : Writer P τ) : Prop where
  bounded : writer.taken ≤ writer.sent.length
  ascending : Ascending writer.pending
  jobs : ∀ entry ∈ writer.pending, entry.2.number < writer.taken ∧
    writer.sent[entry.2.number]? = some (.write entry.1 entry.2.bytes entry.2.backups)
  done : ∀ path number, .wrote path number ∈ writer.effects ∨ .removed path number ∈ writer.effects →
    number < writer.taken
  waiting : ∀ entry ∈ writer.pending, ∀ number, .removed entry.1 number ∈ writer.effects →
    number < entry.2.number
  ordered : writer.effects.Pairwise fun a b => ∀ path removal write,
    a = .removed path removal → b = .wrote path write → removal < write
  flushed : ∀ number < writer.taken, writer.sent[number]? = some .flush → number ∈ writer.answered
  ended : writer.stopped = true → writer.isOpen = false ∧ writer.taken = writer.sent.length ∧
    writer.pending = []

variable (isToml) in
/-- What holds of one file that no queued file is backed up to: it waits as the last word on it
says, or is on disk as that says. -/
structure Kept (writer : Writer P τ) (path : P) : Prop where
  calm : Calm isToml writer.files writer.baselines path
  word : ∀ word, lastWord path (writer.sent.take writer.taken) = some word →
    match writer.pending.lookup path with
    | some job => word = some job.bytes
    | none => writer.files path = word

section

variable {writer after : Writer P τ} {path : P}

theorem writeAll_frame (writer : Writer P τ) :
    ∃ files baselines, writeAll codec isToml backupPath writer =
      { writer with
        pending := []
        files
        baselines
        effects := writer.effects ++
          writer.pending.map fun entry => .wrote entry.1 entry.2.number } :=
  foldl_writeOne_frame writer.pending { writer with pending := [] }

theorem Sound.writeAll (h : Sound writer) :
    Sound (Writer.writeAll codec isToml backupPath writer) := by
  obtain ⟨files, baselines, heq⟩ := @writeAll_frame _ _ _ _ codec isToml backupPath writer
  rw [heq]
  have hwrote : ∀ {effect : Effect P},
      effect ∈ writer.pending.map (fun entry => Effect.wrote entry.1 entry.2.number) →
        ∃ entry ∈ writer.pending, effect = .wrote entry.1 entry.2.number := by
    intro effect hmem
    obtain ⟨entry, hentry, rfl⟩ := mem_map.mp hmem
    exact ⟨entry, hentry, rfl⟩
  refine ⟨h.bounded, ascending_nil, fun _ hmem => absurd hmem not_mem_nil, ?_,
    fun _ hmem => absurd hmem not_mem_nil, ?_, h.flushed,
    fun hstop => ⟨(h.ended hstop).1, (h.ended hstop).2.1, rfl⟩⟩
  · intro path number hmem
    rcases hmem with hmem | hmem
    · rcases mem_append.mp hmem with hold | hnew
      · exact h.done path number (.inl hold)
      · obtain ⟨entry, hentry, heffect⟩ := hwrote hnew
        obtain ⟨rfl, rfl⟩ := Effect.wrote.inj heffect
        exact (h.jobs entry hentry).1
    · rcases mem_append.mp hmem with hold | hnew
      · exact h.done path number (.inr hold)
      · obtain ⟨entry, -, heffect⟩ := hwrote hnew
        cases heffect
  · refine pairwise_append.mpr ⟨h.ordered, ?_, ?_⟩
    · refine pairwise_of_forall_mem_list fun a ha b _ path removal write hremoved _ => ?_
      obtain ⟨entry, -, heffect⟩ := hwrote ha
      rw [hremoved] at heffect
      cases heffect
    · intro a ha b hb path removal write hremoved hwritten
      obtain ⟨entry, hentry, heffect⟩ := hwrote hb
      rw [hwritten] at heffect
      obtain ⟨rfl, rfl⟩ := Effect.wrote.inj heffect
      exact h.waiting entry hentry removal (hremoved ▸ ha)

theorem Sound.next {message : Message P τ} (h : Sound writer)
    (hmessage : writer.sent[writer.taken]? = some message) :
    Sound { handle codec isToml backupPath writer writer.taken message with
      taken := writer.taken + 1 } := by
  have hlt : writer.taken < writer.sent.length := (List.getElem?_eq_some_iff.mp hmessage).1
  have hlive : writer.stopped = true → False := fun hstop => by
    have hall := (h.ended hstop).2.1
    omega
  have hflushed : message ≠ .flush → ∀ number < writer.taken + 1,
      writer.sent[number]? = some .flush → number ∈ writer.answered := by
    intro hne number hnumber hsent
    rcases Nat.lt_succ_iff_lt_or_eq.mp hnumber with hold | rfl
    · exact h.flushed number hold hsent
    · exact absurd (some.inj (hmessage.symm.trans hsent)) hne
  cases message with
  | write path bytes backups =>
    refine ⟨hlt, ascending_insertEntry _ _ h.ascending, ?_,
      fun path number hmem => Nat.lt_succ_of_lt (h.done path number hmem), ?_, h.ordered,
      hflushed (by intro h; cases h), fun hstop => (hlive hstop).elim⟩
    · intro entry hentry
      rcases mem_insertEntry hentry with rfl | hold
      · exact ⟨Nat.lt_succ_self _, hmessage⟩
      · exact ⟨Nat.lt_succ_of_lt (h.jobs entry hold).1, (h.jobs entry hold).2⟩
    · intro entry hentry number hremoved
      rcases mem_insertEntry hentry with rfl | hold
      · exact h.done path number (.inr hremoved)
      · exact h.waiting entry hold number hremoved
  | remove path =>
    have heffect : ∀ {effect : Effect P},
        effect ∈ writer.effects ++ [.removed path writer.taken] →
          effect ∈ writer.effects ∨ effect = .removed path writer.taken := fun hmem =>
      (mem_append.mp hmem).imp_right mem_singleton.mp
    refine ⟨hlt, ascending_removeEntry _ h.ascending, ?_, ?_, ?_, ?_, hflushed (by intro h; cases h),
      fun hstop => (hlive hstop).elim⟩
    · intro entry hentry
      have hold := (mem_filter.mp hentry).1
      exact ⟨Nat.lt_succ_of_lt (h.jobs entry hold).1, (h.jobs entry hold).2⟩
    · intro other number hmem
      rcases hmem with hmem | hmem
      · rcases heffect hmem with hold | hnew
        · exact Nat.lt_succ_of_lt (h.done other number (.inl hold))
        · cases hnew
      · rcases heffect hmem with hold | hnew
        · exact Nat.lt_succ_of_lt (h.done other number (.inr hold))
        · obtain ⟨-, rfl⟩ := Effect.removed.inj hnew
          exact Nat.lt_succ_self _
    · intro entry hentry number hremoved
      obtain ⟨hold, hne⟩ := mem_filter.mp hentry
      rcases heffect hremoved with hbefore | hnew
      · exact h.waiting entry hold number hbefore
      · exact absurd (Effect.removed.inj hnew).1 (of_decide_eq_true hne)
    · refine pairwise_append.mpr ⟨h.ordered, pairwise_singleton _ _, ?_⟩
      intro a _ b hb other removal write _ hwritten
      rw [mem_singleton.mp hb] at hwritten
      cases hwritten
  | flush =>
    have hall := @Sound.writeAll _ _ _ _ codec isToml backupPath writer h
    obtain ⟨files, baselines, heq⟩ := @writeAll_frame _ _ _ _ codec isToml backupPath writer
    rw [handle]
    rw [heq] at hall ⊢
    refine ⟨hlt, hall.ascending, fun _ hmem => absurd hmem not_mem_nil,
      fun path number hmem => Nat.lt_succ_of_lt (hall.done path number hmem),
      hall.waiting, hall.ordered, ?_, fun hstop => (hlive hstop).elim⟩
    intro number hnumber hsent
    rcases Nat.lt_succ_iff_lt_or_eq.mp hnumber with hold | rfl
    · exact mem_append_left _ (h.flushed number hold hsent)
    · exact mem_append_right _ (mem_singleton_self _)

theorem Sound.step {act : Act P τ} (h : Sound writer)
    (hstep : writer.step codec isToml backupPath act = some after) : Sound after := by
  cases act with
  | send message =>
    rw [Writer.step] at hstep
    split at hstep
    next hopen =>
      obtain rfl := some.inj hstep
      have hget : ∀ {number : Nat}, number < writer.taken →
          (writer.sent ++ [message])[number]? = writer.sent[number]? := fun hlt =>
        List.getElem?_append_left (hlt.trans_le h.bounded)
      refine ⟨h.bounded.trans (sublist_append_left _ _).length_le, h.ascending, ?_, h.done,
        h.waiting, h.ordered, ?_, fun hstop => ?_⟩
      · intro entry hentry
        obtain ⟨hlt, hsent⟩ := h.jobs entry hentry
        exact ⟨hlt, (hget hlt).trans hsent⟩
      · intro number hlt hsent
        exact h.flushed number hlt ((hget hlt).symm.trans hsent)
      · have hclosed := (h.ended hstop).1
        rw [hclosed] at hopen
        cases hopen
    next => cases hstep
  | take =>
    rw [Writer.step] at hstep
    split at hstep
    · cases hstep
    · obtain ⟨message, hmessage, rfl⟩ := map_eq_some_iff.mp hstep
      exact h.next hmessage
  | timeout =>
    rw [Writer.step] at hstep
    split at hstep
    · cases hstep
    · obtain rfl := some.inj hstep
      exact h.writeAll
  | close =>
    obtain rfl := some.inj hstep
    exact ⟨h.bounded, h.ascending, h.jobs, h.done, h.waiting, h.ordered, h.flushed,
      fun hstop => ⟨rfl, (h.ended hstop).2⟩⟩
  | stop =>
    rw [Writer.step] at hstep
    split at hstep
    · cases hstep
    next hready =>
      obtain rfl := some.inj hstep
      simp only [Bool.or_eq_true, decide_eq_true_eq, not_or, Bool.not_eq_true, not_lt] at hready
      have hall := @Sound.writeAll _ _ _ _ codec isToml backupPath writer h
      obtain ⟨files, baselines, heq⟩ := @writeAll_frame _ _ _ _ codec isToml backupPath writer
      rw [heq] at hall ⊢
      exact ⟨hall.bounded, hall.ascending, hall.jobs, hall.done, hall.waiting, hall.ordered,
        hall.flushed, fun _ => ⟨hready.1.2, le_antisymm h.bounded hready.2, rfl⟩⟩

/-- Once everything that waits is written, the file is on disk as the last word says. -/
theorem Kept.writeAll (hsound : Sound writer) (hclear : Clear backupPath writer.sent path)
    (h : Kept isToml writer path) :
    Kept isToml (Writer.writeAll codec isToml backupPath writer) path := by
  have hapart : ∀ entry ∈ writer.pending, ∀ index, backupPath entry.1 index ≠ path := by
    intro entry hentry index
    obtain ⟨-, hsent⟩ := hsound.jobs entry hentry
    refine hclear entry.1 index ⟨_, mem_of_getElem? hsent, ?_⟩
    rw [Message.word, if_pos rfl]
    intro hnone
    cases hnone
  obtain ⟨hcalm, hfiles⟩ := @foldl_writeOne _ _ _ _ codec isToml backupPath
    { writer with pending := [] } path writer.pending hsound.ascending.nodup hapart h.calm
  obtain ⟨files, baselines, heq⟩ := @writeAll_frame _ _ _ _ codec isToml backupPath writer
  refine ⟨hcalm, fun word hword => ?_⟩
  have hpending : (Writer.writeAll codec isToml backupPath writer).pending.lookup path = none := by
    rw [heq]
    rfl
  rw [hpending]
  have hsame : lastWord path (writer.sent.take writer.taken) = some word := by
    rw [heq] at hword
    exact hword
  have hbefore := h.word word hsame
  refine Eq.trans hfiles ?_
  cases hlookup : writer.pending.lookup path with
  | some job =>
    rw [hlookup] at hbefore
    exact hbefore.symm
  | none =>
    rw [hlookup] at hbefore
    exact hbefore

theorem Kept.next {message : Message P τ} (hsound : Sound writer)
    (hclear : Clear backupPath writer.sent path)
    (hmessage : writer.sent[writer.taken]? = some message) (h : Kept isToml writer path) :
    Kept isToml { handle codec isToml backupPath writer writer.taken message with
      taken := writer.taken + 1 } path := by
  have htaken : writer.sent.take (writer.taken + 1) =
      writer.sent.take writer.taken ++ [message] := by
    rw [take_add_one, hmessage]
    rfl
  cases message with
  | write other bytes backups =>
    refine ⟨h.calm, fun word hword => ?_⟩
    change lastWord path (writer.sent.take (writer.taken + 1)) = some word at hword
    rw [htaken, lastWord_append, Message.word] at hword
    simp only [handle, lookup_insertEntry]
    by_cases hpath : other = path
    · rw [if_pos hpath] at hword
      rw [if_pos hpath.symm]
      exact (some.inj hword).symm
    · rw [if_neg hpath, none_or] at hword
      rw [if_neg (Ne.symm hpath)]
      exact h.word word hword
  | remove other =>
    by_cases hpath : other = path
    · subst hpath
      refine ⟨fun _ base current hbase => ?_, fun word hword => ?_⟩
      · have hnone : Function.update writer.baselines other none other = some base := hbase
        rw [Function.update_self] at hnone
        cases hnone
      · change lastWord other (writer.sent.take (writer.taken + 1)) = some word at hword
        rw [htaken, lastWord_append, Message.word, if_pos rfl] at hword
        simp only [handle, lookup_removeEntry, if_true, Function.update_self]
        exact some.inj hword
    · have hne : path ≠ other := Ne.symm hpath
      refine ⟨fun htoml base current hbase hcurrent => ?_, fun word hword => ?_⟩
      · have hbefore : Function.update writer.baselines other none path = some base := hbase
        have hfile : Function.update writer.files other none path = some current := hcurrent
        rw [Function.update_of_ne hne] at hbefore hfile
        exact h.calm htoml base current hbefore hfile
      · change lastWord path (writer.sent.take (writer.taken + 1)) = some word at hword
        rw [htaken, lastWord_append, Message.word, if_neg hpath, none_or] at hword
        simp only [handle, lookup_removeEntry, if_neg hne, Function.update_of_ne hne]
        exact h.word word hword
  | flush =>
    have hall := @Kept.writeAll _ _ _ _ codec isToml backupPath writer path hsound hclear h
    obtain ⟨files, baselines, heq⟩ := @writeAll_frame _ _ _ _ codec isToml backupPath writer
    rw [handle]
    rw [heq] at hall ⊢
    refine ⟨hall.calm, fun word hword => hall.word word ?_⟩
    change lastWord path (writer.sent.take (writer.taken + 1)) = some word at hword
    rwa [htaken, lastWord_append, Message.word, none_or] at hword

theorem Kept.step {act : Act P τ} (hsound : Sound writer)
    (hclear : Clear backupPath writer.sent path) (h : Kept isToml writer path)
    (hstep : writer.step codec isToml backupPath act = some after) : Kept isToml after path := by
  cases act with
  | send message =>
    rw [Writer.step] at hstep
    split at hstep
    · obtain rfl := some.inj hstep
      refine ⟨h.calm, fun word hword => h.word word ?_⟩
      rwa [take_append_of_le_length hsound.bounded] at hword
    · cases hstep
  | take =>
    rw [Writer.step] at hstep
    split at hstep
    · cases hstep
    · obtain ⟨message, hmessage, rfl⟩ := map_eq_some_iff.mp hstep
      exact h.next hsound hclear hmessage
  | timeout =>
    rw [Writer.step] at hstep
    split at hstep
    · cases hstep
    · obtain rfl := some.inj hstep
      exact h.writeAll hsound hclear
  | close =>
    obtain rfl := some.inj hstep
    exact ⟨h.calm, h.word⟩
  | stop =>
    rw [Writer.step] at hstep
    split at hstep
    · cases hstep
    · obtain rfl := some.inj hstep
      have hall := @Kept.writeAll _ _ _ _ codec isToml backupPath writer path hsound hclear h
      exact ⟨hall.calm, hall.word⟩

theorem sent_of_step {act : Act P τ}
    (hstep : writer.step codec isToml backupPath act = some after) :
    after.sent = writer.sent ∨ ∃ message, after.sent = writer.sent ++ [message] := by
  obtain ⟨files, baselines, heq⟩ := @writeAll_frame _ _ _ _ codec isToml backupPath writer
  cases act with
  | send message =>
    rw [Writer.step] at hstep
    split at hstep
    · obtain rfl := some.inj hstep
      exact .inr ⟨message, rfl⟩
    · cases hstep
  | take =>
    rw [Writer.step] at hstep
    split at hstep
    · cases hstep
    · obtain ⟨message, -, rfl⟩ := map_eq_some_iff.mp hstep
      refine .inl ?_
      cases message with
      | write path bytes backups => rfl
      | remove path => rfl
      | flush => rw [handle, heq]
  | timeout =>
    rw [Writer.step, heq] at hstep
    split at hstep
    · cases hstep
    · obtain rfl := some.inj hstep
      exact .inl rfl
  | close =>
    obtain rfl := some.inj hstep
    exact .inl rfl
  | stop =>
    rw [Writer.step, heq] at hstep
    split at hstep
    · cases hstep
    · obtain rfl := some.inj hstep
      exact .inl rfl

/-- A run of the writer: messages from anywhere, in any order with the timer and the thread. -/
abbrev Run (codec : Codec τ) (isToml : P → Bool) (backupPath : P → Nat → P)
    (files baselines : P → Option τ) (acts : List (Act P τ)) (writer : Writer P τ) : Prop :=
  GoodRun (step codec isToml backupPath) (fun _ _ => True) (start files baselines) acts writer

omit [DecidableEq τ] in
theorem sound_start (files baselines : P → Option τ) : Sound (start files baselines) :=
  ⟨le_refl _, ascending_nil, fun _ hmem => absurd hmem not_mem_nil,
    fun _ _ hmem => hmem.elim (fun h => absurd h not_mem_nil) fun h => absurd h not_mem_nil,
    fun _ hmem => absurd hmem not_mem_nil, .nil,
    fun _ hlt => absurd hlt (Nat.not_lt_zero _), by intro h; cases h⟩

omit [DecidableEq τ] in
theorem kept_start {files baselines : P → Option τ} (hcalm : Calm isToml files baselines path) :
    Kept isToml (start files baselines) path :=
  ⟨hcalm, by intro _ h; cases h⟩

theorem sound_run {files baselines : P → Option τ} {acts : List (Act P τ)}
    (hrun : Run codec isToml backupPath files baselines acts writer) : Sound writer :=
  hrun.invariant (fun hsound _ hstep => hsound.step hstep) (sound_start files baselines)

theorem kept_run {files baselines : P → Option τ} {acts : List (Act P τ)}
    (hrun : Run codec isToml backupPath files baselines acts writer)
    (hcalm : Calm isToml files baselines path) (hclear : Clear backupPath writer.sent path) :
    Kept isToml writer path := by
  have hinv : Sound writer ∧ (Clear backupPath writer.sent path → Kept isToml writer path) := by
    refine GoodRun.invariant (p := fun writer : Writer P τ => Sound writer ∧
      (Clear backupPath writer.sent path → Kept isToml writer path)) 
      (fun {before next act} hinv _ hstep => ?_) hrun
      ⟨sound_start _ _, fun _ => kept_start hcalm⟩
    obtain ⟨hsound, hkept⟩ := hinv
    refine ⟨hsound.step hstep, fun hclear => ?_⟩
    have hbefore : Clear backupPath before.sent path := by
      rcases sent_of_step hstep with hsame | ⟨message, hmore⟩
      · exact hsame ▸ hclear
      · rw [hmore] at hclear
        exact hclear.of_append
    exact (hkept hbefore).step hsound hbefore hstep
  exact hinv.2 hclear

omit [DecidableEq τ] in
/-- Nothing waits once everything is written. -/
theorem Kept.files {word : Option τ} (h : Kept isToml writer path) (hpending : writer.pending = [])
    (hword : lastWord path (writer.sent.take writer.taken) = some word) :
    writer.files path = word := by
  have hfile := h.word word hword
  rwa [hpending] at hfile

theorem taken_of_stop (hstep : writer.step codec isToml backupPath .stop = some after) :
    after.pending = [] ∧ after.sent.take after.taken = writer.sent := by
  obtain ⟨files, baselines, heq⟩ := @writeAll_frame _ _ _ _ codec isToml backupPath writer
  rw [Writer.step, heq] at hstep
  split at hstep
  · cases hstep
  next hready =>
    obtain rfl := some.inj hstep
    simp only [Bool.or_eq_true, decide_eq_true_eq, not_or, not_lt] at hready
    exact ⟨rfl, take_of_length_le hready.2⟩

theorem taken_of_flush (hflush : writer.sent[writer.taken]? = some .flush)
    (hstep : writer.step codec isToml backupPath .take = some after) :
    after.pending = [] ∧ writer.taken ∈ after.answered ∧
      after.sent.take after.taken = writer.sent.take writer.taken ++ [.flush] := by
  obtain ⟨files, baselines, heq⟩ := @writeAll_frame _ _ _ _ codec isToml backupPath writer
  rw [Writer.step] at hstep
  split at hstep
  · cases hstep
  · rw [hflush, map_some, handle, heq] at hstep
    obtain rfl := some.inj hstep
    refine ⟨rfl, mem_append_right _ (mem_singleton_self _), ?_⟩
    change writer.sent.take (writer.taken + 1) = _
    rw [take_add_one, hflush]
    rfl

end

end Writer

open Writer

variable {files baselines : P → Option τ} {acts : List (Act P τ)} {writer : Writer P τ}

/-- In every run, when a flush is answered and when the writer stops, each file holds the last
word queued for it (before the flush), unless another queued file is backed up to it or it was
not on disk as it was known at the start; no write follows the removal it was queued before; and
every flush that was taken is answered, the thread stopping only when all of them were. -/
theorem writer_keeps_last_word (hrun : Run codec isToml backupPath files baselines acts writer) :
    (∀ after, writer.sent[writer.taken]? = some .flush →
      writer.step codec isToml backupPath .take = some after →
      writer.taken ∈ after.answered ∧ ∀ path word, Calm isToml files baselines path →
        Clear backupPath writer.sent path →
        lastWord path (writer.sent.take writer.taken) = some word → after.files path = word) ∧
    (∀ after, writer.step codec isToml backupPath .stop = some after →
      ∀ path word, Calm isToml files baselines path → Clear backupPath writer.sent path →
        lastWord path writer.sent = some word → after.files path = word) ∧
    (∀ earlier later path removal write,
      writer.effects = earlier ++ .removed path removal :: later →
      .wrote path write ∈ later → removal < write) ∧
    (∀ number < writer.taken, writer.sent[number]? = some .flush → number ∈ writer.answered) ∧
    (writer.stopped = true → writer.taken = writer.sent.length) ∧
    (writer.stopped = false → writer.taken < writer.sent.length →
      ∃ after, writer.step codec isToml backupPath .take = some after ∧
        after.taken = writer.taken + 1) := by
  have hsound := sound_run hrun
  refine ⟨fun after hflush hstep => ?_, fun after hstep path word hcalm hclear hword => ?_,
    fun earlier later path removal write heffects hlater => ?_, hsound.flushed,
    fun hstop => (hsound.ended hstop).2.1, fun hlive hlt => ?_⟩
  · obtain ⟨hpending, hanswered, htaken⟩ := taken_of_flush hflush hstep
    refine ⟨hanswered, fun path word hcalm hclear hword => ?_⟩
    have hkept := (kept_run hrun hcalm hclear).step hsound hclear hstep
    refine hkept.files hpending ?_
    rwa [htaken, lastWord_append, Message.word, Option.none_or]
  · obtain ⟨hpending, htaken⟩ := taken_of_stop hstep
    have hkept := (kept_run hrun hcalm hclear).step hsound hclear hstep
    exact hkept.files hpending (htaken.symm ▸ hword)
  · have hordered := hsound.ordered
    rw [heffects] at hordered
    obtain ⟨-, hafter, -⟩ := List.pairwise_append.mp hordered
    exact (List.pairwise_cons.mp hafter).1 _ hlater path removal write rfl rfl
  · have hmessage : writer.sent[writer.taken]? = some writer.sent[writer.taken] :=
      List.getElem?_eq_getElem hlt
    refine ⟨{ handle codec isToml backupPath writer writer.taken writer.sent[writer.taken] with
      taken := writer.taken + 1 }, ?_, rfl⟩
    rw [Writer.step, hlive, hmessage]
    rfl

end

namespace WriterWitness

open InstancesWitness (codec hosts)

/-- Paths are numbers; the backups of 1 are 21, 22 and so on. -/
def backupPath (path index : Nat) : Nat := (path + 1) * 10 + index

theorem one_formed : (Value.table [("host", .array (["a"].map fun
    id => .table [("id", .string id)]))]).wellFormed = true := by decide

theorem two_formed (id : String) : (Value.table [("host", .array (["a", id].map fun
    id => .table [("id", .string id)]))]).wellFormed = true := rfl

def older : Document := hosts ["a"] one_formed

def newer : Document := hosts ["a", "b"] (two_formed "b")

def foreign : Document := hosts ["a", "c"] (two_formed "c")

/-- The file 1 on disk, and nothing else. -/
def disk (held : Document) : Nat → Option Document := fun path =>
  if path = 1 then some held else none

/-- A file is written under the name of a backup, then the file whose backup that is. -/
def overBackup : List (Act Nat Document) :=
  [.send (.write 21 newer 0), .send .flush, .take, .take,
    .send (.write 1 newer 1), .send .flush, .take, .take]

/-- A file that was read is written after something else changed it. -/
def overForeign : List (Act Nat Document) := [.send (.write 1 newer 0), .send .flush, .take, .take]

/-- The last word is not what is on disk when a backup of another file takes its place, or when
it is merged with what something else wrote. -/
theorem last_word_lost :
    (∃ writer, Writer.Run codec (fun _ => true) backupPath (disk older) (fun _ => none)
        overBackup writer ∧ writer.pending = [] ∧ 3 ∈ writer.answered ∧
      lastWord 21 writer.sent = some (some newer) ∧ writer.files 21 = some older) ∧
    ∃ writer, Writer.Run codec (fun _ => true) backupPath (disk foreign) (disk older)
        overForeign writer ∧ writer.pending = [] ∧ 1 ∈ writer.answered ∧
      lastWord 1 writer.sent = some (some newer) ∧ writer.files 1 ≠ some newer := by
  refine ⟨⟨_, .cons trivial rfl (.cons trivial rfl (.cons trivial rfl (.cons trivial rfl
    (.cons trivial rfl (.cons trivial rfl (.cons trivial rfl (.cons trivial rfl (.nil _)))))))),
    ?_⟩, ⟨_, .cons trivial rfl (.cons trivial rfl (.cons trivial rfl (.cons trivial rfl
    (.nil _)))), ?_⟩⟩
  · exact ⟨rfl, by decide, rfl, rfl⟩
  · exact ⟨rfl, by decide, rfl, by decide⟩

/-- A file is written twice and removed, then written again. -/
def several : List (Act Nat Document) :=
  [.send (.write 1 older 1), .send (.write 1 newer 1), .take, .take, .send (.remove 1), .take,
    .send (.write 1 foreign 1), .send .flush, .take]

def severalEnd : Writer Nat Document :=
  (runFrom (Writer.step codec (fun _ => true) backupPath)
    (Writer.start (fun _ => none) fun _ => none) several).getD
      (Writer.start (fun _ => none) fun _ => none)

theorem several_run : Writer.Run codec (fun _ => true) backupPath (fun _ => none) (fun _ => none)
    several severalEnd :=
  .cons trivial rfl (.cons trivial rfl (.cons trivial rfl (.cons trivial rfl (.cons trivial rfl
    (.cons trivial rfl (.cons trivial rfl (.cons trivial rfl (.cons trivial rfl (.nil _)))))))))

theorem several_kept : ∃ after,
    severalEnd.step codec (fun _ => true) backupPath .take = some after ∧
      after.files 1 = some foreign := by
  refine ⟨_, rfl, ((writer_keeps_last_word several_run).1 _ rfl rfl).2 1 (some foreign)
    (by intro _ _ _ h; cases h)
    (fun other index _ hback => ?_) rfl⟩
  rw [backupPath] at hback
  omega

end WriterWitness

end Opensesh.FileWriter
