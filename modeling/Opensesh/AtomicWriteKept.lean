/-
What a save leaves behind: the old files when it fails before the rename, the new contents
when it succeeds, and over a run of saves the replaced versions in the backups, newest
first.
-/
import Opensesh.AtomicWrite

namespace Opensesh.FsUtil

section Leaves

variable {α β : Type} {x : SaveOp α} {f : α → SaveOp β} {place : Place} {faults : Faults}

/-- However the step ends, it does not change this file. -/
def Leaves (place : Place) (x : SaveOp α) : Prop :=
  ∀ disk, (x disk).2.files place = disk.files place

theorem leaves_done (a : α) : Leaves place (pure a : SaveOp α) := fun _ => rfl

theorem leaves_fail (error : SaveError) : Leaves place (Attempt.fail error : SaveOp α) :=
  fun _ => rfl

theorem leaves_state : Leaves place (Attempt.state : SaveOp Disk) := fun _ => rfl

theorem Leaves.bind (hx : Leaves place x) (hf : ∀ a, Leaves place (f a)) :
    Leaves place (x >>= f) := by
  intro disk
  have hfirst := hx disk
  change (Attempt.andThen x f disk).2.files place = _
  rw [Attempt.andThen]
  cases hrun : x disk with
  | mk result middle =>
    rw [hrun] at hfirst
    cases result with
    | error error => exact hfirst
    | ok a => exact (hf a middle).trans hfirst

theorem Leaves.attempt (hx : Leaves place x) : Leaves place x.attempt := fun disk => hx disk

theorem leaves_put {other : Place} (h : place ≠ other) (bytes : Option (List UInt8)) :
    Leaves place (put other bytes) := fun _ => if_neg h

theorem leaves_moveFile {source goal : Place} (hsource : place ≠ source) (hgoal : place ≠ goal) :
    Leaves place (moveFile source goal) := fun _ =>
  (if_neg hsource).trans (if_neg hgoal)

theorem leaves_tryRemove {other : Place} (h : place ≠ other) (fails : Bool) :
    Leaves place (tryRemove fails other) := by
  rw [tryRemove]
  split
  · exact leaves_done _
  · exact leaves_put h _

theorem leaves_shiftBackups (h : ∀ index, place ≠ .backup index) (backups : Nat) :
    Leaves place (shiftBackups faults backups) := by
  induction backups with
  | zero => exact leaves_done _
  | succ index ih =>
    refine Leaves.bind (leaves_state.bind fun disk => ?_) fun _ => ih
    split
    · exact leaves_done _
    · split
      · exact leaves_fail _
      · exact leaves_moveFile (h _) (h _)

theorem leaves_keepBackups (h : ∀ index, place ≠ .backup index) {previous : Option Place}
    (hprevious : previous ≠ some place) (backups : Nat) :
    Leaves place (keepBackups faults previous backups) := by
  cases previous with
  | none => exact leaves_done _
  | some previous =>
    have hother : place ≠ previous := fun heq => hprevious (congrArg some heq.symm)
    refine (Leaves.attempt ?_).bind fun rotated => ?_
    · refine Leaves.bind ?_ fun _ => (leaves_shiftBackups h _).bind fun _ => ?_
      · rw [removeIfPresent]
        split
        · exact leaves_fail _
        · exact leaves_put (h _) _
      · split
        · exact leaves_fail _
        · exact leaves_moveFile hother (h _)
    · split
      · exact leaves_done _
      · exact leaves_tryRemove hother _

end Leaves

section Rotation

variable {faults : Faults}

/-- The backups after those up to a number were moved. -/
def shifted (files : Place → Option (List UInt8)) (backups : Nat) : Place → Option (List UInt8)
  | .backup index =>
    if 2 ≤ index ∧ index ≤ backups + 1 then files (.backup (index - 1))
    else if index = 1 ∧ 1 ≤ backups then none
    else files (.backup index)
  | place => files place

theorem shiftOne_ok {index : Nat} {disk : Disk} (hshift : faults.shift index = false)
    (hfree : disk.files (.backup (index + 1)) = none) :
    ∃ after, shiftOne faults index disk = (.ok (), after) ∧ after.counter = disk.counter ∧
      ∀ place, after.files place = if place = .backup index then none
        else if place = .backup (index + 1) then disk.files (.backup index)
        else disk.files place := by
  have hstep : shiftOne faults index disk = (if (disk.files (.backup index)).isNone then pure ()
      else if faults.shift index then Attempt.fail .backups
      else moveFile (.backup index) (.backup (index + 1)) : SaveOp Unit) disk := rfl
  rw [hstep]
  by_cases hnone : (disk.files (.backup index)).isNone = true
  · rw [if_pos hnone]
    refine ⟨disk, rfl, rfl, fun place => ?_⟩
    rw [Option.isNone_iff_eq_none] at hnone
    split
    · rename_i heq
      rw [heq, hnone]
    · split
      · rename_i heq
        rw [heq, hfree, hnone]
      · rfl
  · rw [if_neg hnone, if_neg (by simp [hshift])]
    exact ⟨_, rfl, rfl, fun _ => rfl⟩

theorem shiftBackups_ok {backups : Nat} {disk : Disk} (hshift : ∀ index, faults.shift index = false)
    (hfree : disk.files (.backup (backups + 1)) = none) :
    ∃ after, shiftBackups faults backups disk = (.ok (), after) ∧
      after.counter = disk.counter ∧
      ∀ place, after.files place = shifted disk.files backups place := by
  induction backups generalizing disk with
  | zero =>
    refine ⟨disk, rfl, rfl, fun place => ?_⟩
    cases place with
    | backup index =>
      rw [shifted, if_neg (by omega), if_neg (by omega)]
    | _ => rfl
  | succ backups ih =>
    obtain ⟨middle, hone, hcounter, hfiles⟩ := shiftOne_ok (hshift (backups + 1)) hfree
    have hfree : middle.files (.backup (backups + 1)) = none := by
      rw [hfiles, if_pos rfl]
    obtain ⟨after, hrest, hsame, hafter⟩ := ih hfree
    refine ⟨after, ?_, hsame.trans hcounter, fun place => ?_⟩
    · rw [shiftBackups, Attempt.bind_of_ok hone, hrest]
    · rw [hafter]
      cases place with
      | backup index =>
        simp only [shifted, hfiles, Place.backup.injEq]
        split_ifs <;> first
          | rfl
          | omega
          | (congr 2; omega)
      | target => exact hfiles _
      | temp number => exact hfiles _
      | copy number => exact hfiles _

/-- The files after the replaced version became the first backup. -/
def rotated (files : Place → Option (List UInt8)) (previous : Place) (backups : Nat) :
    Place → Option (List UInt8)
  | .backup index =>
    if index = 1 then files previous
    else if 2 ≤ index ∧ index ≤ backups then files (.backup (index - 1))
    else files (.backup index)
  | place => if place = previous then none else files place

/-- None of the steps on the backups fails. -/
structure BackupsWork (faults : Faults) : Prop where
  read : faults.read = false
  copy : faults.copy = none
  removeOldest : faults.removeOldest = false
  shift : ∀ index, faults.shift index = false
  place : faults.place = false

theorem rotateBackups_ok (hworks : BackupsWork faults) {previous : Place} {backups : Nat}
    {disk : Disk} (hbackups : 0 < backups) (hprevious : ∀ index, previous ≠ .backup index) :
    ∃ after, rotateBackups faults previous backups disk = (.ok (), after) ∧
      after.counter = disk.counter ∧
      ∀ place, after.files place = rotated disk.files previous backups place := by
  obtain ⟨shiftable, rfl⟩ : ∃ n, backups = n + 1 := ⟨backups - 1, by omega⟩
  have hremove : removeIfPresent faults (.backup (shiftable + 1)) disk =
      (.ok (), disk.put (.backup (shiftable + 1)) none) := by
    rw [removeIfPresent, if_neg (by simp [hworks.removeOldest])]
    rfl
  obtain ⟨middle, hshift, hcounter, hfiles⟩ := @shiftBackups_ok faults shiftable
    (disk.put (.backup (shiftable + 1)) none) hworks.shift (if_pos rfl)
  refine ⟨(middle.put (.backup 1) (middle.files previous)).put previous none, ?_, hcounter,
    fun place => ?_⟩
  · rw [rotateBackups, Attempt.bind_of_ok hremove, Nat.add_sub_cancel,
      Attempt.bind_of_ok hshift, if_neg (by simp [hworks.place])]
    rfl
  · have hsame : middle.files previous = disk.files previous := by
      rw [hfiles]
      cases previous with
      | backup index => exact absurd rfl (hprevious index)
      | target => rfl
      | temp number => rfl
      | copy number => rfl
    cases place with
    | backup index =>
      have hne : Place.backup index ≠ previous := fun heq => hprevious index heq.symm
      simp only [Disk.put, if_neg hne, hsame, hfiles, rotated, shifted, Place.backup.injEq]
      split_ifs <;> first
        | rfl
        | omega
    | target =>
      simp only [Disk.put, hfiles, rotated, shifted, reduceCtorEq, if_false]
    | temp number =>
      simp only [Disk.put, hfiles, rotated, shifted, reduceCtorEq, if_false]
    | copy number =>
      simp only [Disk.put, hfiles, rotated, shifted, reduceCtorEq, if_false]

end Rotation

section Before

variable {faults : Faults} {disk after : Disk}

/-- The hidden files the counter has not reached are not there. -/
def Fresh (disk : Disk) : Prop :=
  ∀ number, disk.counter ≤ number →
    disk.files (.temp number) = none ∧ disk.files (.copy number) = none

theorem tryRemove_eq (fails : Bool) (place : Place) (disk : Disk) :
    tryRemove fails place disk = (.ok (), if fails = true then disk else disk.put place none) := by
  rw [tryRemove]
  split <;> rfl

theorem writeTemp_eq (contents : List UInt8) (disk : Disk) :
    writeTemp faults contents disk =
      match faults.write with
      | none => (.ok (.temp disk.counter),
          { disk with counter := disk.counter + 1 }.put (.temp disk.counter) (some contents))
      | some left => (.error .write,
          let written := { disk with counter := disk.counter + 1 }.put (.temp disk.counter) left
          if faults.removeTemp = true then written
          else written.put (.temp disk.counter) none) := by
  have hnumber : tempPath disk = (.ok disk.counter, { disk with counter := disk.counter + 1 }) :=
    rfl
  rw [writeTemp, Attempt.bind_of_ok hnumber]
  cases hwrite : faults.write with
  | none =>
    have hwritten : (writeSynced faults (.temp disk.counter) contents).attempt
        { disk with counter := disk.counter + 1 } =
        (.ok (.ok ()), { disk with counter := disk.counter + 1 }.put (.temp disk.counter)
          (some contents)) := by
      rw [Attempt.attempt, writeSynced, hwrite]
      rfl
    rw [Attempt.bind_of_ok hwritten]
    rfl
  | some left =>
    have hwritten : (writeSynced faults (.temp disk.counter) contents).attempt
        { disk with counter := disk.counter + 1 } =
        (.ok (.error .write), { disk with counter := disk.counter + 1 }.put
          (.temp disk.counter) left) := by
      rw [Attempt.attempt, writeSynced, hwrite]
      rfl
    rw [Attempt.bind_of_ok hwritten]
    dsimp only
    rw [Attempt.bind_of_ok (tryRemove_eq _ _ _)]
    rfl

theorem copyAside_eq (disk : Disk) :
    copyAside faults disk =
      match disk.files .target with
      | none => (.ok none, disk)
      | some current =>
        match faults.copy with
        | none => (.ok (some (.copy disk.counter)),
            { disk with counter := disk.counter + 1 }.put (.copy disk.counter) (some current))
        | some left => (.ok none,
            { disk with counter := disk.counter + 1 }.put (.copy disk.counter) left) := by
  have hstate : (Attempt.state : SaveOp Disk) disk = (.ok disk, disk) := rfl
  rw [copyAside, Attempt.bind_of_ok hstate]
  cases disk.files .target with
  | none => rfl
  | some current =>
    have hnumber : tempPath disk =
        (.ok disk.counter, { disk with counter := disk.counter + 1 }) := rfl
    dsimp only
    rw [Attempt.bind_of_ok hnumber]
    cases faults.copy <;> rfl

/-- The copy of the current file, when one is made. -/
structure CopiedAside (faults : Faults) (backups : Nat) (disk after : Disk)
    (previous : Option Place) : Prop where
  others : ∀ place, place ≠ .copy disk.counter → after.files place = disk.files place
  counter : disk.counter ≤ after.counter
  numbered : after.counter = disk.counter → previous = none ∧ after = disk
  made : previous = none ∨ previous = some (.copy disk.counter)
  whole : ∀ current, disk.files .target = some current → 0 < backups → faults.copy = none →
    previous = some (.copy disk.counter) ∧ after.files (.copy disk.counter) = some current
  nothing : disk.files .target = none ∨ backups = 0 → previous = none
  partly : previous = none → (∀ left, faults.copy ≠ some (some left)) →
    after.files (.copy disk.counter) = disk.files (.copy disk.counter) ∨
      after.files (.copy disk.counter) = none

theorem copiedAside (backups : Nat) (disk : Disk) :
    ∃ previous after, backUp faults backups disk = (.ok previous, after) ∧
      CopiedAside faults backups disk after previous := by
  rw [backUp]
  by_cases hbackups : 0 < backups
  · rw [if_pos hbackups, copyAside_eq]
    cases htarget : disk.files .target with
    | none =>
      refine ⟨none, disk, rfl, fun _ _ => rfl, Nat.le_refl _, fun _ => ⟨rfl, rfl⟩,
        Or.inl rfl, ?_, fun _ => rfl, fun _ _ => Or.inl rfl⟩
      intro current hcurrent
      rw [htarget] at hcurrent
      cases hcurrent
    | some current =>
      cases hcopy : faults.copy with
      | none =>
        refine ⟨_, _, rfl, fun place hne => if_neg hne, Nat.le_succ _,
          fun heq => absurd heq (Nat.succ_ne_self _), Or.inr rfl, ?_, ?_, fun hnone => nomatch hnone⟩
        · intro other hother _ _
          rw [htarget] at hother
          exact ⟨rfl, (if_pos rfl).trans hother⟩
        · rintro (hnone | hzero)
          · rw [htarget] at hnone
            cases hnone
          · omega
      | some left =>
        refine ⟨_, _, rfl, fun place hne => if_neg hne, Nat.le_succ _,
          fun heq => absurd heq (Nat.succ_ne_self _), Or.inl rfl, ?_, fun _ => rfl, ?_⟩
        · intro other _ _ hnone
          rw [hcopy] at hnone
          cases hnone
        · intro _ hpartly
          refine Or.inr ((if_pos rfl).trans ?_)
          cases left with
          | none => rfl
          | some left => exact absurd hcopy (hpartly left)
  · rw [if_neg hbackups]
    exact ⟨none, disk, rfl, fun _ _ => rfl, Nat.le_refl _, fun _ => ⟨rfl, rfl⟩,
      Or.inl rfl, fun _ _ hpos => absurd hpos hbackups, fun _ => rfl, fun _ _ => Or.inl rfl⟩

theorem keepBackups_ok (previous : Option Place) (backups : Nat) (disk : Disk) :
    ∃ after, keepBackups faults previous backups disk = (.ok (), after) := by
  cases previous with
  | none => exact ⟨disk, rfl⟩
  | some previous =>
    cases hrotate : rotateBackups faults previous backups disk with
    | mk result middle =>
      have hattempt : (rotateBackups faults previous backups).attempt disk =
          (.ok result, middle) := by
        rw [Attempt.attempt, hrotate]
      rw [keepBackups, Attempt.bind_of_ok hattempt]
      cases result with
      | ok done => exact ⟨middle, rfl⟩
      | error error => exact ⟨_, tryRemove_eq _ _ _⟩

/-- The files as they are once the new contents and the copy are written. -/
def tempWritten (disk : Disk) (contents : List UInt8) : Disk :=
  { disk with counter := disk.counter + 1 }.put (.temp disk.counter) (some contents)

/-- The disk without the temporary file and the copy, as far as removing them works. -/
def cleaned (faults : Faults) (temp : Place) (previous : Option Place) (disk : Disk) : Disk :=
  let disk := if faults.removeTemp = true then disk else disk.put temp none
  match previous with
  | none => disk
  | some previous => if faults.discard = true then disk else disk.put previous none

/-- The disk with the temporary file renamed over the target. -/
def renamed (temp : Place) (disk : Disk) : Disk :=
  (disk.put .target (disk.files temp)).put temp none

/-- How a save ends: before anything was written, with the temporary file not written, with
the rename failed, or with the new file in place. -/
inductive Ends (faults : Faults) (contents : List UInt8) (backups : Nat) (disk : Disk) :
    Except SaveError WriteOutcome → Disk → Prop
  | unchanged (hread : faults.read = false) (hsame : disk.files .target = some contents) :
      Ends faults contents backups disk (.ok .unchanged) disk
  | parents : Ends faults contents backups disk (.error .parents) disk
  | write {after : Disk}
      (hafter : writeTemp faults contents disk = (.error .write, after)) :
      Ends faults contents backups disk (.error .write) after
  | rename {middle : Disk} {previous : Option Place}
      (haside : CopiedAside faults backups (tempWritten disk contents) middle previous) :
      Ends faults contents backups disk (.error .rename)
        (cleaned faults (.temp disk.counter) previous middle)
  | renamed {middle after : Disk} {previous : Option Place}
      (hchanged : faults.read = false → disk.files .target ≠ some contents)
      (haside : CopiedAside faults backups (tempWritten disk contents) middle previous)
      (hafter : keepBackups faults previous backups (renamed (.temp disk.counter) middle) =
        (.ok (), after)) :
      Ends faults contents backups disk
        (if faults.syncDir then .error .syncDir else .ok .written) after

theorem putInPlace_failed {temp : Place} {previous : Option Place}
    (hrename : faults.rename = true) (disk : Disk) :
    putInPlace faults temp previous disk = (.error .rename, cleaned faults temp previous disk) := by
  rw [putInPlace.eq_def, if_pos hrename, Attempt.bind_of_ok (tryRemove_eq _ _ _)]
  cases previous with
  | none => rfl
  | some previous =>
    dsimp only
    rw [Attempt.bind_of_ok (tryRemove_eq _ _ _)]
    rfl

theorem atomicWrite_ends {contents : List UInt8} {backups : Nat}
    {result : Except SaveError WriteOutcome}
    (h : atomicWrite faults contents backups disk = (result, after)) :
    Ends faults contents backups disk result after := by
  have hstate : (Attempt.state : SaveOp Disk) disk = (.ok disk, disk) := rfl
  rw [atomicWrite, Attempt.bind_of_ok hstate] at h
  split at h
  · rename_i hsame
    obtain ⟨rfl, rfl⟩ := Prod.mk.inj h
    exact .unchanged hsame.1 hsame.2
  · rename_i hchanged
    split at h
    · obtain ⟨rfl, rfl⟩ := Prod.mk.inj h
      exact .parents
    · cases hwrite : faults.write with
      | some left =>
        have htemp := @writeTemp_eq faults contents disk
        rw [hwrite] at htemp
        rw [Attempt.bind_of_error htemp] at h
        obtain ⟨rfl, rfl⟩ := Prod.mk.inj h
        exact .write htemp
      | none =>
        have htemp : writeTemp faults contents disk =
            (.ok (.temp disk.counter), tempWritten disk contents) := by
          rw [writeTemp_eq, hwrite]
          rfl
        obtain ⟨previous, middle, hcopy, haside⟩ := @copiedAside faults backups
          (tempWritten disk contents)
        rw [Attempt.bind_of_ok htemp, Attempt.bind_of_ok hcopy] at h
        by_cases hrename : faults.rename = true
        · rw [Attempt.bind_of_error (putInPlace_failed hrename _)] at h
          obtain ⟨rfl, rfl⟩ := Prod.mk.inj h
          exact .rename haside
        · have hmoved : putInPlace faults (.temp disk.counter) previous middle =
              (.ok (), renamed (.temp disk.counter) middle) := by
            rw [putInPlace.eq_def, if_neg hrename]
            rfl
          obtain ⟨last, hlast⟩ := @keepBackups_ok faults previous backups
            (renamed (.temp disk.counter) middle)
          rw [Attempt.bind_of_ok hmoved, Attempt.bind_of_ok hlast] at h
          have hends := Ends.renamed (fun hread hsame => hchanged ⟨hread, hsame⟩) haside hlast
          split at h
          · rename_i hsync
            obtain ⟨rfl, rfl⟩ := Prod.mk.inj h
            rwa [if_pos hsync] at hends
          · rename_i hsync
            obtain ⟨rfl, rfl⟩ := Prod.mk.inj h
            rwa [if_neg hsync] at hends

end Before

end Opensesh.FsUtil
