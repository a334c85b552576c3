/-
Saves one after another on one file: a save that fails before the rename changes nothing, one
that succeeds leaves its contents, and the backups hold the replaced versions, newest first.
-/
import Opensesh.AtomicWriteKept
import Mathlib.Data.List.Chain

namespace Opensesh.FsUtil

open List Option

section OneSave

variable {faults : Faults} {contents : List UInt8} {backups : Nat} {disk after : Disk}

/-- What is removed after a failure goes, and a copy that fails leaves nothing. -/
structure CleansUp (faults : Faults) : Prop where
  removeTemp : faults.removeTemp = false
  discard : faults.discard = false
  copy : ∀ left, faults.copy ≠ some (some left)

variable {place temp : Place} {previous : Option Place} {middle : Disk} {error : SaveError}

theorem put_other {other : Place} (h : place ≠ other) (bytes : Option (List UInt8)) :
    (disk.put other bytes).files place = disk.files place := if_neg h

theorem put_same (place : Place) (bytes : Option (List UInt8)) :
    (disk.put place bytes).files place = bytes := if_pos rfl

theorem tempWritten_other (h : place ≠ .temp disk.counter) :
    (tempWritten disk contents).files place = disk.files place := if_neg h

theorem cleaned_other (htemp : place ≠ temp) (hprevious : previous ≠ some place) :
    (cleaned faults temp previous disk).files place = disk.files place := by
  have hfirst : (if faults.removeTemp = true then disk else disk.put temp none).files place =
      disk.files place := by
    split
    · rfl
    · exact put_other htemp _
  rw [cleaned.eq_def]
  cases previous with
  | none => exact hfirst
  | some previous =>
    dsimp only
    split
    · exact hfirst
    · exact (put_other (fun heq => hprevious (congrArg some heq.symm)) _).trans hfirst

/-- The copy is a hidden file of its own number. -/
theorem CopiedAside.ne (haside : CopiedAside faults backups disk middle previous)
    (h : place ≠ .copy disk.counter) : previous ≠ some place := by
  rcases haside.made with rfl | rfl
  · exact (nomatch ·)
  · exact fun heq => h (some.inj heq).symm

theorem error_leaves (h : atomicWrite faults contents backups disk = (.error error, after))
    (herror : error ≠ .syncDir) (hplace : place.isHidden = false) :
    after.files place = disk.files place := by
  have htemp : place ≠ .temp disk.counter := by
    rintro rfl
    cases hplace
  have hcopy : place ≠ .copy (tempWritten disk contents).counter := by
    rintro rfl
    cases hplace
  have hends := atomicWrite_ends h
  generalize hresult : (Except.error error : Except SaveError WriteOutcome) = result at hends
  cases hends with
  | unchanged => cases hresult
  | parents => rfl
  | write hafter =>
    rw [writeTemp_eq] at hafter
    split at hafter
    · cases hafter
    · obtain rfl := (Prod.mk.inj hafter).2
      dsimp only
      split
      · exact put_other htemp _
      · exact (put_other htemp _).trans (put_other htemp _)
  | rename haside =>
    rw [cleaned_other htemp (haside.ne hcopy), haside.others _ hcopy, tempWritten_other htemp]
  | renamed =>
    split at hresult
    · cases hresult
      exact absurd rfl herror
    · cases hresult

/-- Nor does it leave a hidden file, when what it removes goes. -/
theorem error_cleans (hfresh : Fresh disk) (hcleans : CleansUp faults)
    (h : atomicWrite faults contents backups disk = (.error error, after))
    (herror : error ≠ .syncDir) (place : Place) : after.files place = disk.files place := by
  by_cases hhidden : place.isHidden = true
  · have hends := atomicWrite_ends h
    generalize hresult : (Except.error error : Except SaveError WriteOutcome) = result at hends
    cases hends with
    | unchanged => cases hresult
    | parents => rfl
    | write hafter =>
      rw [writeTemp_eq] at hafter
      split at hafter
      · cases hafter
      · obtain rfl := (Prod.mk.inj hafter).2
        dsimp only
        rw [if_neg (by simp [hcleans.removeTemp])]
        by_cases htemp : place = .temp disk.counter
        · rw [htemp, put_same, (hfresh _ (Nat.le_refl _)).1]
        · exact (put_other htemp _).trans (put_other htemp _)
    | @rename middle previous haside =>
      have hnumber : (tempWritten disk contents).counter = disk.counter + 1 := rfl
      by_cases htemp : place = .temp disk.counter
      · subst htemp
        have hne : previous ≠ some (.temp disk.counter) := haside.ne (nomatch ·)
        have hgone : (cleaned faults (.temp disk.counter) previous middle).files
            (.temp disk.counter) = none := by
          rw [cleaned.eq_def, if_neg (by simp [hcleans.removeTemp])]
          cases previous with
          | none => exact put_same _ _
          | some previous =>
            dsimp only
            rw [if_neg (by simp [hcleans.discard]),
              put_other fun heq => hne (congrArg some heq.symm)]
            exact put_same _ _
        rw [hgone, (hfresh _ (Nat.le_refl _)).1]
      · by_cases hcopy : place = .copy (disk.counter + 1)
        · subst hcopy
          have hnone : disk.files (.copy (disk.counter + 1)) = none := (hfresh _ (Nat.le_succ _)).2
          rw [hnone]
          rcases haside.made with hprevious | hprevious
          · rw [cleaned_other htemp (by rw [hprevious]; exact (nomatch ·))]
            rcases haside.partly hprevious hcleans.copy with heq | heq
            · rw [hnumber, tempWritten_other htemp] at heq
              exact heq.trans hnone
            · exact heq
          · rw [hprevious, cleaned.eq_def, if_neg (by simp [hcleans.removeTemp])]
            dsimp only
            rw [if_neg (by simp [hcleans.discard]), hnumber]
            exact put_same _ _
        · rw [cleaned_other htemp (haside.ne hcopy), haside.others _ hcopy, tempWritten_other htemp]
    | renamed =>
      split at hresult
      · cases hresult
        exact absurd rfl herror
      · cases hresult
  · exact error_leaves h herror (Bool.eq_false_iff.2 hhidden)

theorem renamed_target
    (haside : CopiedAside faults backups (tempWritten disk contents) middle previous) :
    (renamed (.temp disk.counter) middle).files .target = some contents := by
  have htemp : middle.files (.temp disk.counter) = some contents := by
    rw [haside.others (.temp disk.counter) nofun]
    exact put_same _ _
  rw [renamed.eq_def, ← htemp]
  exact (put_other (by simp) _).trans (put_same _ _)

theorem renamed_other (htarget : place ≠ .target) (htemp : place ≠ temp) :
    (renamed temp middle).files place = middle.files place :=
  (put_other htemp _).trans (put_other htarget _)

/-- A save that succeeds leaves exactly its contents. -/
theorem ok_target {outcome : WriteOutcome}
    (h : atomicWrite faults contents backups disk = (.ok outcome, after)) :
    after.files .target = some contents := by
  have hends := atomicWrite_ends h
  generalize hresult : (Except.ok outcome : Except SaveError WriteOutcome) = result at hends
  cases hends with
  | unchanged _ hsame => exact hsame
  | @renamed middle _ previous _ haside hafter =>
    have hkept := @leaves_keepBackups .target faults (fun _ heq => (nomatch heq)) previous
      (haside.ne fun heq => (nomatch heq)) backups (renamed (.temp disk.counter) middle)
    rw [hafter] at hkept
    exact hkept.trans (renamed_target haside)
  | _ => cases hresult

/-- The versions in the backups with one more in front. -/
def pushed (front : Option (List UInt8)) (older : Nat → Option (List UInt8)) :
    Nat → Option (List UInt8) :=
  match front with
  | none => older
  | some version => fun index =>
    match index with
    | 0 => some version
    | index + 1 => older index

/-- The version in a backup, counted from the newest one. -/
def Disk.version (disk : Disk) (index : Nat) : Option (List UInt8) :=
  disk.files (.backup (index + 1))

theorem aside_version {middle : Disk} {previous : Option Place}
    (haside : CopiedAside faults backups (tempWritten disk contents) middle previous)
    (index : Nat) :
    (renamed (.temp disk.counter) middle).version index = disk.version index := by
  have hmoved : (renamed (.temp disk.counter) middle).version index = middle.version index :=
    renamed_other nofun nofun
  have haside : middle.version index = (tempWritten disk contents).version index :=
    haside.others (.backup (index + 1)) nofun
  have hwritten : (tempWritten disk contents).version index = disk.version index :=
    tempWritten_other nofun
  exact hmoved.trans (haside.trans hwritten)

/-- The number of hidden files only grows, and the new ones have a number it has passed. -/
structure Passed (disk after : Disk) : Prop where
  counter : disk.counter ≤ after.counter
  hidden : ∀ number, after.counter ≤ number →
    after.files (.temp number) = disk.files (.temp number) ∧
      after.files (.copy number) = disk.files (.copy number)

theorem Passed.fresh (h : Passed disk after) (hfresh : Fresh disk) : Fresh after := by
  intro number hnumber
  have hsame := h.hidden number hnumber
  have hnone := hfresh number (h.counter.trans hnumber)
  exact ⟨hsame.1.trans hnone.1, hsame.2.trans hnone.2⟩

theorem Passed.trans {last : Disk} (h : Passed disk after) (hnext : Passed after last) :
    Passed disk last := by
  refine ⟨h.counter.trans hnext.counter, fun number hnumber => ?_⟩
  have hfirst := h.hidden number (hnext.counter.trans hnumber)
  have hsecond := hnext.hidden number hnumber
  exact ⟨hsecond.1.trans hfirst.1, hsecond.2.trans hfirst.2⟩

theorem written_pushes (hworks : BackupsWork faults)
    (h : atomicWrite faults contents backups disk = (.ok .written, after)) {index : Nat}
    (hindex : index < backups) :
    after.version index = pushed (disk.files .target) disk.version index := by
  have hends := atomicWrite_ends h
  generalize hresult : (Except.ok WriteOutcome.written : Except SaveError WriteOutcome) = result
    at hends
  cases hends with
  | @renamed middle _ previous hchanged haside hafter =>
    have hsame : (tempWritten disk contents).files .target = disk.files .target :=
      tempWritten_other (by simp)
    cases htarget : disk.files .target with
    | none =>
      have hprevious : previous = none := haside.nothing (Or.inl (hsame.trans htarget))
      subst hprevious
      obtain rfl := (Prod.mk.inj hafter).2
      exact aside_version haside index
    | some current =>
      obtain ⟨rfl, hcopy⟩ := haside.whole current (hsame.trans htarget) (by omega) hworks.copy
      obtain ⟨last, hrotate, _, hlast⟩ := @rotateBackups_ok faults hworks
        (.copy (tempWritten disk contents).counter) backups
        (renamed (.temp disk.counter) middle) (by omega) fun _ heq => by cases heq
      have hattempt : (rotateBackups faults (.copy (tempWritten disk contents).counter)
          backups).attempt (renamed (.temp disk.counter) middle) = (.ok (.ok ()), last) := by
        rw [Attempt.attempt, hrotate]
      rw [keepBackups, Attempt.bind_of_ok hattempt] at hafter
      obtain rfl := (Prod.mk.inj hafter).2
      rw [Disk.version, hlast, rotated]
      cases index with
      | zero =>
        have hmoved : (renamed (.temp disk.counter) middle).files
            (.copy (tempWritten disk contents).counter) =
            middle.files (.copy (tempWritten disk contents).counter) :=
          renamed_other (by simp) (by simp)
        rw [if_pos rfl, hmoved, hcopy, pushed]
      | succ index =>
        rw [if_neg (by omega), if_pos ⟨by omega, by omega⟩]
        exact aside_version haside index
  | _ => cases hresult

theorem CopiedAside.passed (haside : CopiedAside faults backups disk middle previous) :
    Passed disk middle := by
  refine ⟨haside.counter, fun number hnumber => ?_⟩
  by_cases hsame : middle.counter = disk.counter
  · rw [(haside.numbered hsame).2]
    exact ⟨rfl, rfl⟩
  · have hne : Place.copy number ≠ .copy disk.counter := by
      have := haside.counter
      rw [Ne, Place.copy.injEq]
      omega
    exact ⟨haside.others _ nofun, haside.others _ hne⟩

theorem CopiedAside.previous_ne {number : Nat}
    (haside : CopiedAside faults backups disk middle previous) (hnumber : middle.counter ≤ number) :
    previous ≠ some (.copy number) := by
  intro heq
  rcases haside.made with hnone | hcopy
  · rw [hnone] at heq
    cases heq
  · rw [hcopy] at heq
    obtain rfl := Place.copy.inj (some.inj heq)
    have hsame := haside.numbered (Nat.le_antisymm hnumber haside.counter)
    rw [hcopy] at hsame
    exact (nomatch hsame.1)

theorem tempWritten_passed : Passed disk (tempWritten disk contents) := by
  refine ⟨Nat.le_succ _, fun number hnumber => ⟨tempWritten_other ?_, tempWritten_other nofun⟩⟩
  have : disk.counter + 1 ≤ number := hnumber
  rw [Ne, Place.temp.injEq]
  omega

/-- The hidden files of a step that only touches those with smaller numbers. -/
theorem passed_of_other {before : Disk} (hpassed : Passed disk before)
    (hcounter : after.counter = before.counter)
    (hother : ∀ number, before.counter ≤ number →
      after.files (.temp number) = before.files (.temp number) ∧
        after.files (.copy number) = before.files (.copy number)) : Passed disk after :=
  hpassed.trans ⟨Nat.le_of_eq hcounter.symm, fun number hnumber =>
    hother number (hcounter ▸ hnumber)⟩

theorem cleaned_counter : (cleaned faults temp previous disk).counter = disk.counter := by
  have hfirst : (if faults.removeTemp = true then disk else disk.put temp none).counter =
      disk.counter := by
    split <;> rfl
  rw [cleaned.eq_def]
  cases previous with
  | none => exact hfirst
  | some previous =>
    dsimp only
    split
    · exact hfirst
    · exact hfirst

theorem keepBackups_counter (hworks : BackupsWork faults) (hbackups : previous ≠ none → 0 < backups)
    (hprevious : ∀ index, previous ≠ some (.backup index))
    (h : keepBackups faults previous backups disk = (.ok (), after)) :
    after.counter = disk.counter := by
  cases previous with
  | none =>
    obtain rfl := (Prod.mk.inj h).2
    rfl
  | some previous =>
    obtain ⟨last, hrotate, hcounter, _⟩ := @rotateBackups_ok faults hworks previous backups disk
      (hbackups (nomatch ·)) fun index heq => hprevious index (congrArg some heq)
    have hattempt : (rotateBackups faults previous backups).attempt disk =
        (.ok (.ok ()), last) := by
      rw [Attempt.attempt, hrotate]
    rw [keepBackups, Attempt.bind_of_ok hattempt] at h
    obtain rfl := (Prod.mk.inj h).2
    exact hcounter

/-- A save only touches hidden files of numbers it takes. -/
theorem atomicWrite_passed {result : Except SaveError WriteOutcome}
    (hworks : BackupsWork faults)
    (h : atomicWrite faults contents backups disk = (result, after)) : Passed disk after := by
  have hends := atomicWrite_ends h
  cases hends with
  | unchanged => exact ⟨Nat.le_refl _, fun _ _ => ⟨rfl, rfl⟩⟩
  | parents => exact ⟨Nat.le_refl _, fun _ _ => ⟨rfl, rfl⟩⟩
  | write hafter =>
    rw [writeTemp_eq] at hafter
    split at hafter
    · cases hafter
    · obtain rfl := (Prod.mk.inj hafter).2
      refine ⟨?_, fun number hnumber => ?_⟩
      · dsimp only
        split
        · exact Nat.le_succ _
        · exact Nat.le_succ _
      · have hne : Place.temp number ≠ .temp disk.counter := by
          have : disk.counter + 1 ≤ number := by
            dsimp only at hnumber
            split at hnumber
            · exact hnumber
            · exact hnumber
          rw [Ne, Place.temp.injEq]
          omega
        have hcopy : Place.copy number ≠ .temp disk.counter := nofun
        dsimp only
        split
        · exact ⟨put_other hne _, put_other hcopy _⟩
        · exact ⟨(put_other hne _).trans (put_other hne _),
            (put_other hcopy _).trans (put_other hcopy _)⟩
  | @rename middle previous haside =>
    refine passed_of_other (tempWritten_passed.trans haside.passed) cleaned_counter
      fun number hnumber => ⟨cleaned_other ?_ (haside.ne nofun),
        cleaned_other nofun (haside.previous_ne hnumber)⟩
    have : disk.counter + 1 ≤ middle.counter := haside.counter
    rw [Ne, Place.temp.injEq]
    omega
  | @renamed middle _ previous _ haside hafter =>
    have hcounter := keepBackups_counter hworks ?_ ?_ hafter
    · refine passed_of_other (tempWritten_passed.trans haside.passed) hcounter
        fun number hnumber => ⟨?_, ?_⟩
      · have hne : Place.temp number ≠ .temp disk.counter := by
          have : disk.counter + 1 ≤ middle.counter := haside.counter
          rw [Ne, Place.temp.injEq]
          omega
        have hkept := @leaves_keepBackups (.temp number) faults (fun _ => nofun) previous
          (haside.ne nofun) backups (renamed (.temp disk.counter) middle)
        rw [hafter] at hkept
        exact hkept.trans (renamed_other nofun hne)
      · have hkept := @leaves_keepBackups (.copy number) faults (fun _ => nofun) previous
          (haside.previous_ne hnumber) backups (renamed (.temp disk.counter) middle)
        rw [hafter] at hkept
        exact hkept.trans (renamed_other nofun nofun)
    · intro hsome
      by_contra hzero
      exact hsome (haside.nothing (Or.inr (by omega)))
    · exact fun index => haside.ne nofun

end OneSave

/-- One save of the file, and what goes wrong during it. -/
structure SaveCall where
  contents : List UInt8
  backups : Nat
  faults : Faults

/-- The disk after some saves, and the versions they replaced, newest first. -/
structure History where
  disk : Disk
  replaced : List (List UInt8)

/-- One more save; a version is replaced when the save reports that it wrote. -/
def History.save (history : History) (call : SaveCall) : History :=
  match atomicWrite call.faults call.contents call.backups history.disk with
  | (.ok .written, disk) =>
    { disk, replaced := (history.disk.files .target).toList ++ history.replaced }
  | (_, disk) => { history with disk }

def History.run (history : History) (calls : List SaveCall) : History :=
  calls.foldl History.save history

/-- A call that keeps this many versions, with the steps on the backups working. -/
structure SaveCall.Keeps (call : SaveCall) (kept : Nat) : Prop where
  enough : kept ≤ call.backups
  works : BackupsWork call.faults
  synced : call.faults.syncDir = false

/-- The replaced versions, newest first, and after them those the backups held at first. -/
def versions (replaced : List (List UInt8)) (older : Nat → Option (List UInt8)) (index : Nat) :
    Option (List UInt8) :=
  if index < replaced.length then replaced[index]? else older (index - replaced.length)

theorem versions_pushed (front : Option (List UInt8)) (replaced : List (List UInt8))
    (older : Nat → Option (List UInt8)) (index : Nat) :
    versions (front.toList ++ replaced) older index =
      pushed front (versions replaced older) index := by
  cases front with
  | none => rfl
  | some version =>
    cases index with
    | zero => rfl
    | succ index =>
      simp only [versions, pushed, toList_some, singleton_append,
        length_cons, Nat.add_lt_add_iff_right, List.getElem?_cons_succ,
        Nat.add_sub_add_right]

theorem pushed_congr {front : Option (List UInt8)} {older other : Nat → Option (List UInt8)}
    {kept : Nat} (h : ∀ index, index < kept → older index = other index) {index : Nat}
    (hindex : index < kept) : pushed front older index = pushed front other index := by
  cases front with
  | none => exact h index hindex
  | some version =>
    cases index with
    | zero => rfl
    | succ index => exact h index (by omega)

/-- What a run keeps: the hidden files' numbers are free, the first backups hold the replaced
versions, and no version is the one replaced before it. -/
structure History.Kept (history : History) (older : Nat → Option (List UInt8)) (kept : Nat) :
    Prop where
  fresh : Fresh history.disk
  first : history.disk.files .target = none → history.replaced = []
  backups : ∀ index, index < kept →
    history.disk.version index = versions history.replaced older index
  distinct : ((history.disk.files .target).toList ++ history.replaced).IsChain (· ≠ ·)

section Run

variable {history : History} {older : Nat → Option (List UInt8)} {kept : Nat} {call : SaveCall}
  {after : Disk}

/-- Only the files the save touches and the counter may differ. -/
theorem History.Kept.same (hkept : history.Kept older kept) (hpassed : Passed history.disk after)
    (hsame : ∀ place, place.isHidden = false → after.files place = history.disk.files place) :
    History.Kept { history with disk := after } older kept := by
  have htarget := hsame .target rfl
  refine ⟨hpassed.fresh hkept.fresh, fun hnone => ?_, fun index hindex => ?_, ?_⟩
  · exact hkept.first (htarget.symm.trans hnone)
  · exact (hsame (.backup (index + 1)) rfl).trans (hkept.backups index hindex)
  · change ((after.files .target).toList ++ history.replaced).IsChain _
    rw [htarget]
    exact hkept.distinct

variable {faults : Faults} {contents : List UInt8} {backups : Nat}

/-- A save that reports that it wrote was not asked for what was there. -/
theorem written_changed {disk : Disk} (hread : faults.read = false)
    (h : atomicWrite faults contents backups disk = (.ok .written, after)) :
    disk.files .target ≠ some contents := by
  have hends := atomicWrite_ends h
  generalize hresult : (Except.ok WriteOutcome.written : Except SaveError WriteOutcome) = result
    at hends
  cases hends with
  | renamed hchanged => exact hchanged hread
  | _ => cases hresult

theorem History.Kept.written (hkept : history.Kept older kept) (hcall : call.Keeps kept)
    (h : atomicWrite call.faults call.contents call.backups history.disk = (.ok .written, after)) :
    History.Kept
      { disk := after, replaced := (history.disk.files .target).toList ++ history.replaced }
      older kept := by
  have htarget := ok_target h
  have hchanged := written_changed hcall.works.read h
  refine ⟨(atomicWrite_passed hcall.works h).fresh hkept.fresh, fun hnone => ?_,
    fun index hindex => ?_, ?_⟩
  · rw [htarget] at hnone
    cases hnone
  · have hpushed := written_pushes hcall.works h (Nat.lt_of_lt_of_le hindex hcall.enough)
    exact hpushed.trans ((pushed_congr hkept.backups hindex).trans (versions_pushed _ _ _ _).symm)
  · change ((after.files .target).toList ++ _).IsChain _
    rw [htarget]
    cases hold : history.disk.files .target with
    | none =>
      rw [hkept.first hold]
      exact isChain_singleton _
    | some current =>
      have hdistinct := hkept.distinct
      rw [hold] at hdistinct hchanged
      exact isChain_cons_cons.2 ⟨fun heq => hchanged (congrArg some heq.symm), hdistinct⟩

theorem error_synced {disk : Disk} {error : SaveError} (hsynced : faults.syncDir = false)
    (h : atomicWrite faults contents backups disk = (.error error, after)) : error ≠ .syncDir := by
  rintro rfl
  have hends := atomicWrite_ends h
  generalize hresult : (Except.error SaveError.syncDir : Except SaveError WriteOutcome) = result
    at hends
  cases hends with
  | renamed =>
    rw [hsynced] at hresult
    cases hresult
  | _ => cases hresult

theorem ok_unwritten {disk : Disk} {outcome : WriteOutcome} (hwritten : outcome ≠ .written)
    (h : atomicWrite faults contents backups disk = (.ok outcome, after)) : after = disk := by
  have hends := atomicWrite_ends h
  generalize hresult : (Except.ok outcome : Except SaveError WriteOutcome) = result at hends
  cases hends with
  | unchanged => rfl
  | renamed =>
    split at hresult
    · cases hresult
    · exact absurd (Except.ok.inj hresult) hwritten
  | _ => cases hresult

theorem save_kept (hkept : history.Kept older kept) (hcall : call.Keeps kept) :
    (history.save call).Kept older kept := by
  cases hsave : atomicWrite call.faults call.contents call.backups history.disk with
  | mk result after =>
    have hpassed := atomicWrite_passed hcall.works hsave
    rw [History.save, hsave]
    cases result with
    | error error =>
      exact hkept.same hpassed fun place hplace =>
        error_leaves hsave (error_synced hcall.synced hsave) hplace
    | ok outcome =>
      cases outcome with
      | written => exact hkept.written hcall hsave
      | unchanged =>
        obtain rfl := ok_unwritten (by decide) hsave
        exact hkept
      | merged =>
        obtain rfl := ok_unwritten (by decide) hsave
        exact hkept

theorem run_kept {calls : List SaveCall} (hkept : history.Kept older kept)
    (hcalls : ∀ call ∈ calls, call.Keeps kept) : (history.run calls).Kept older kept := by
  induction calls generalizing history with
  | nil => exact hkept
  | cons call calls ih =>
    exact ih (save_kept hkept (hcalls call mem_cons_self))
      fun other hother => hcalls other (mem_cons_of_mem _ hother)

end Run

/-- A failed save leaves the file and its backups, and the disk as it was when cleaning up
works; one that succeeds leaves its contents; and over a run of saves whose steps on the
backups work, the backups hold the versions replaced last, newest first. -/
theorem atomicWrite_keeps_history :
    (∀ faults contents backups disk error after,
      atomicWrite faults contents backups disk = (.error error, after) → error ≠ .syncDir →
        (∀ place, place.isHidden = false → after.files place = disk.files place) ∧
        (Fresh disk → CleansUp faults → ∀ place, after.files place = disk.files place)) ∧
    (∀ faults contents backups disk outcome after,
      atomicWrite faults contents backups disk = (.ok outcome, after) →
        after.files .target = some contents) ∧
    ∀ kept calls start, Fresh start → (∀ call ∈ calls, SaveCall.Keeps call kept) →
      let last := History.run ⟨start, []⟩ calls
      (∀ index, index < kept →
        last.disk.version index = versions last.replaced start.version index) ∧
      ((last.disk.files .target).toList ++ last.replaced).IsChain (· ≠ ·) := by
  refine ⟨?_, ?_, ?_⟩
  · intro faults contents backups disk error after h herror
    exact ⟨fun place => error_leaves h herror,
      fun hfresh hcleans => error_cleans hfresh hcleans h herror⟩
  · intro faults contents backups disk outcome after h
    exact ok_target h
  · intro kept calls start hfresh hcalls
    have hstart : History.Kept ⟨start, []⟩ start.version kept := by
      refine ⟨hfresh, fun _ => rfl, fun _ _ => rfl, ?_⟩
      rw [List.append_nil]
      cases start.files .target with
      | none => exact List.isChain_nil
      | some current => exact List.isChain_singleton _
    have hkept := run_kept hstart hcalls
    exact ⟨hkept.backups, hkept.distinct⟩

namespace HistoryWitness

def quiet : Faults :=
  { read := false, parents := false, write := none, removeTemp := false, copy := none,
    rename := false, removeOldest := false, shift := fun _ => false, place := false,
    discard := false, syncDir := false }

def start : Disk :=
  { files := fun place => if place = .target then some [1] else none, counter := 0 }

theorem fresh : Fresh start := fun _ _ => ⟨rfl, rfl⟩

def call (contents : List UInt8) (faults : Faults) : SaveCall := { contents, backups := 2, faults }

theorem keeps (contents : List UInt8) (rename : Bool) :
    (call contents { quiet with rename := rename }).Keeps 2 :=
  ⟨Nat.le_refl _, ⟨rfl, rfl, rfl, fun _ => rfl, rfl⟩, rfl⟩

/-- A second save that fails, and one with the same contents, do not shift the backups. -/
def calls : List SaveCall :=
  [call [2] quiet, call [3] { quiet with rename := true }, call [2] quiet, call [3] quiet]

theorem calls_keep : ∀ other ∈ calls, SaveCall.Keeps other 2 := by
  intro other hother
  simp only [calls, mem_cons, not_mem_nil, or_false] at hother
  rcases hother with rfl | rfl | rfl | rfl
  · exact keeps [2] false
  · exact keeps [3] true
  · exact keeps [2] false
  · exact keeps [3] false

theorem keeps_both :
    (∀ place, (atomicWrite { quiet with rename := true } [3] 2 start).2.files place =
      start.files place) ∧
    (atomicWrite quiet [2] 2 start).2.files .target = some [2] ∧
    (History.run ⟨start, []⟩ calls).replaced = [[2], [1]] ∧
    (History.run ⟨start, []⟩ calls).disk.version 0 = some [2] ∧
    (History.run ⟨start, []⟩ calls).disk.version 1 = some [1] := by
  obtain ⟨herror, hok, hrun⟩ := atomicWrite_keeps_history
  have hlast := hrun 2 calls start fresh calls_keep
  have hreplaced : (History.run ⟨start, []⟩ calls).replaced = [[2], [1]] := by decide
  refine ⟨?_, hok quiet [2] 2 start _ _ rfl, hreplaced, ?_, ?_⟩
  · exact (herror { quiet with rename := true } [3] 2 start .rename _ rfl nofun).2 fresh
      ⟨rfl, rfl, nofun⟩
  · rw [hlast.1 0 (by omega), hreplaced]
    rfl
  · rw [hlast.1 1 (by omega), hreplaced]
    rfl

/-- A save that cannot copy the replaced version succeeds without keeping it, and a failed
one leaves its temporary file when that cannot be removed. -/
theorem not_kept :
    (History.run ⟨start, []⟩ [call [2] { quiet with copy := some none }]).replaced = [[1]] ∧
    (History.run ⟨start, []⟩ [call [2] { quiet with copy := some none }]).disk.version 0 = none ∧
    (atomicWrite { quiet with copy := some none } [2] 2 start).1 = .ok .written ∧
    (atomicWrite { quiet with rename := true, removeTemp := true } [2] 2 start).1 = .error .rename ∧
    (atomicWrite { quiet with rename := true, removeTemp := true } [2] 2 start).2.files
      (.temp 0) = some [2] :=
  ⟨rfl, rfl, rfl, rfl, rfl⟩

end HistoryWitness

end Opensesh.FsUtil
