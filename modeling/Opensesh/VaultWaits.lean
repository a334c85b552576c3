/-
Waits after wrong master passwords, over whole runs: tries at any times, restarts that find the
file of attempts as it was left or not, and a clock that may be set back.
-/
import Opensesh.VaultMap
import Mathlib.Data.List.Pairwise
import Mathlib.Tactic.SplitIfs

namespace Opensesh.Vault

open List

/-- What happens to a program with a vault. -/
inductive Deed where
  | tried (password : List UInt8)
  /-- The wait is asked for. -/
  | polled
  | restarted
  /-- The file of attempts goes missing or is damaged; `found` is what it reads as. -/
  | spoiled (found : Backoff)
  /-- The vault is opened, locked or written. -/
  | settled (state : State) (disk : Option (List UInt8))

structure Moment where
  /-- Seconds on a clock that does not go back. -/
  time : Nat
  /-- Seconds since the epoch on the system's clock. -/
  clock : Nat
  chance : Chance
  deed : Deed

/-- The system's clock shows no more time between two moments than passes; it may be set back. -/
def Steady (moments : List Moment) : Prop :=
  moments.Pairwise fun a b => a.time ≤ b.time ∧ b.clock + a.time ≤ a.clock + b.time

/-- A vault that is watched: the wrong passwords since the last right one, or since a restart
that did not find the waits in their file as they were; when the last of them was tried, and what
has happened since then, that try first. -/
structure Watch where
  world : World
  wrong : Nat
  since : Nat
  recent : List Moment

/-- Something happened that counts no wrong password. -/
def Watch.rest (watch : Watch) (moment : Moment) (world : World) : Watch :=
  { watch with world, recent := watch.recent ++ [moment] }

/-- The wrong passwords count from none again. -/
def Watch.anew (watch : Watch) (moment : Moment) (world : World) : Watch :=
  { watch.rest moment world with wrong := 0 }

def Watch.next (cipher : Cipher) (watch : Watch) (moment : Moment) : Watch :=
  match moment.deed with
  | .tried password =>
    let after := tryPassword cipher moment.chance password moment.clock watch.world
    match after.1 with
    | .ok _ => watch.anew moment after.2
    | .error (.wrongPassword _) => ⟨after.2, watch.wrong + 1, moment.time, [moment]⟩
    | .error _ => watch.rest moment after.2
  | .polled => watch.rest moment (wait moment.chance moment.clock watch.world).2
  | .restarted =>
    let after := (openVault moment.chance watch.world).2
    if watch.world.onDisk = true ∧ watch.world.attempts = watch.world.backoff then
      watch.rest moment after
    else watch.anew moment after
  | .spoiled found => watch.rest moment { watch.world with attempts := found }
  | .settled state disk => watch.rest moment { watch.world with state, disk }

/-- The vault after a run. -/
def watched (cipher : Cipher) (start : World) (moments : List Moment) : Watch :=
  moments.foldl (Watch.next cipher) ⟨start, 0, 0, []⟩

/-- A try at this moment derives a key from its password. -/
def Reaches (world : World) (chance : Chance) (now : Nat) : Prop :=
  (∃ header, world.state.header = some header ∧ header.holder.isPassword = true) ∧
    (wait chance now world).1 = .ok 0

/-- The count that the program keeps for this many wrong passwords. -/
def saturated (wrong : Nat) : UInt32 := .ofNat (min wrong 4294967295)

/-- The errors that report a wait. -/
def VaultError.isWait : VaultError → Bool
  | .wrongPassword _ | .wait _ => true
  | _ => false

section

variable {cipher : Cipher} {chance : Chance} {now : Nat} {world : World}

theorem delayAfter_le (failures : UInt32) : delayAfter failures ≤ maxDelaySecs := by
  rw [delayAfter]
  split
  · exact Nat.zero_le _
  · exact min_le_right _ _

theorem delayAfter_mono {failures others : UInt32} (h : failures ≤ others) :
    delayAfter failures ≤ delayAfter others := by
  rw [delayAfter, delayAfter]
  split_ifs with hfew hfewer hfewer
  · exact le_refl _
  · exact Nat.zero_le _
  · exact absurd (UInt32.lt_of_le_of_lt h hfewer) hfew
  · have hsub : (failures - freeAttempts).toNat ≤ (others - freeAttempts).toNat := by
      have hleft : freeAttempts ≤ failures := UInt32.not_lt.mp hfew
      have hright : freeAttempts ≤ others := UInt32.not_lt.mp hfewer
      rw [UInt32.toNat_sub_of_le _ _ hleft, UInt32.toNat_sub_of_le _ _ hright]
      exact Nat.sub_le_sub_right (UInt32.le_iff_toNat_le.mp h) _
    have hshift : min (failures - freeAttempts).toNat 16 ≤ min (others - freeAttempts).toNat 16 :=
      min_le_min_right _ hsub
    refine min_le_min_right _ ?_
    rw [Nat.shiftLeft_eq, Nat.shiftLeft_eq]
    exact Nat.mul_le_mul_left _ (Nat.pow_le_pow_right (by decide) hshift)

/-- What asking for the wait gives: the wait, and the last failure moved to now when the clock
went back behind it. -/
theorem wait_cases (chance : Chance) (now : Nat) (world : World) :
    (wait chance now world = (.ok (delayAfter world.backoff.failures -
        (now - world.backoff.lastFailure)), world) ∧
      (delayAfter world.backoff.failures = 0 ∨ world.backoff.lastFailure ≤ now)) ∨
    (wait chance now world = (.ok (delayAfter world.backoff.failures),
        (saveBackoff chance { world.backoff with lastFailure := now } world).2) ∧
      0 < delayAfter world.backoff.failures ∧ now < world.backoff.lastFailure) := by
  change (if delayAfter world.backoff.failures = 0 then pure 0
    else if now < world.backoff.lastFailure then do
      saveBackoff chance { world.backoff with lastFailure := now }
      pure (delayAfter world.backoff.failures)
    else pure (delayAfter world.backoff.failures - (now - world.backoff.lastFailure)) :
      VaultOp Nat) world = _ ∧ _ ∨ (if delayAfter world.backoff.failures = 0 then pure 0
    else if now < world.backoff.lastFailure then do
      saveBackoff chance { world.backoff with lastFailure := now }
      pure (delayAfter world.backoff.failures)
    else pure (delayAfter world.backoff.failures - (now - world.backoff.lastFailure)) :
      VaultOp Nat) world = _ ∧ _
  split_ifs with hzero hback
  · refine .inl ⟨?_, .inl hzero⟩
    rw [hzero, Nat.zero_sub]
    rfl
  · exact .inr ⟨rfl, Nat.pos_of_ne_zero hzero, hback⟩
  · exact .inl ⟨rfl, .inr (Nat.le_of_not_lt hback)⟩

theorem wait_le (chance : Chance) (now : Nat) (world : World) :
    ∃ pause, (wait chance now world).1 = .ok pause ∧ pause ≤ maxDelaySecs := by
  rcases wait_cases chance now world with ⟨h, -⟩ | ⟨h, -⟩
  · exact ⟨_, by rw [h], (Nat.sub_le _ _).trans (delayAfter_le _)⟩
  · exact ⟨_, by rw [h], delayAfter_le _⟩

/-- A try that may go on has waited for as long as the count says. -/
theorem delay_le_of_wait (h : (wait chance now world).1 = .ok 0) :
    (wait chance now world).2 = world ∧
      (delayAfter world.backoff.failures = 0 ∨
        world.backoff.lastFailure + delayAfter world.backoff.failures ≤ now) := by
  rcases wait_cases chance now world with ⟨heq, hclock⟩ | ⟨heq, hpos, -⟩
  · rw [heq] at h ⊢
    have hzero : delayAfter world.backoff.failures - (now - world.backoff.lastFailure) = 0 :=
      Except.ok.inj h
    exact ⟨rfl, hclock.imp_right fun hle => by omega⟩
  · rw [heq] at h
    exact absurd (Except.ok.inj h) hpos.ne'

theorem bind_eq_error {α β ε : Type} {x : Except ε α} {f : α → Except ε β} {error : ε}
    (h : x >>= f = .error error) : x = .error error ∨ ∃ a, x = .ok a ∧ f a = .error error := by
  cases x with
  | error other => exact .inl (congrArg Except.error (Except.error.inj h))
  | ok a => exact .inr ⟨a, rfl, h⟩

theorem unwrapKey_error {header : Header} {password : List UInt8} {error : VaultError}
    (h : header.unwrapKey cipher password = .error error) : error.isWait = false := by
  rw [Header.unwrapKey] at h
  split at h
  · obtain rfl := Except.error.inj h
    rfl
  · rcases bind_eq_error h with hderive | ⟨derived, -, h⟩
    · rw [deriveKey] at hderive
      split at hderive
      · cases hderive
      · obtain rfl := Except.error.inj hderive
        rfl
    · rcases bind_eq_error h with hopen | ⟨key, -, h⟩
      · rw [openSealed] at hopen
        split at hopen
        · cases hopen
        · obtain rfl := Except.error.inj hopen
          rfl
      · split at h
        · cases h
        · obtain rfl := Except.error.inj h
          rfl

theorem succeeded_eq (chance : Chance) (world : World) :
    succeeded chance world = (.ok (), if world.backoff.failures = 0 then world
      else (saveBackoff chance ⟨0, 0⟩ world).2) := by
  change (if world.backoff.failures = 0 then pure () else saveBackoff chance ⟨0, 0⟩ :
    VaultOp Unit) world = _
  split <;> rfl

/-- The count after one more wrong password. -/
def oneMore (failures : UInt32) : UInt32 :=
  if failures.toNat = 4294967295 then failures else failures + 1

theorem failed_eq (chance : Chance) (now : Nat) (world : World) :
    failed chance now world =
      (.ok (), (saveBackoff chance ⟨oneMore world.backoff.failures, now⟩ world).2) := rfl

/-- Asking for the wait right after a wrong password leaves the clock out. -/
theorem wait_failed (chance : Chance) (now : Nat) (world : World) :
    ∃ pause, wait chance now (failed chance now world).2 =
        (.ok pause, (failed chance now world).2) ∧ pause ≤ maxDelaySecs := by
  rcases wait_cases chance now (failed chance now world).2 with ⟨h, -⟩ | ⟨-, -, hback⟩
  · exact ⟨_, h, (Nat.sub_le _ _).trans (delayAfter_le _)⟩
  · exact absurd hback (Nat.lt_irrefl now)

/-- How a try ends: without a derivation, with a wait, or with what the derivation gives. -/
theorem tryPassword_cases (cipher : Cipher) (chance : Chance) (password : List UInt8) (now : Nat)
    (world : World) :
    (∃ error, tryPassword cipher chance password now world = (.error error, world) ∧
      error.isWait = false) ∨
    (∃ pause, tryPassword cipher chance password now world =
        (.error (.wait pause), (wait chance now world).2) ∧ pause ≤ maxDelaySecs) ∨
    (Reaches world chance now ∧
      ((∃ key, tryPassword cipher chance password now world =
          (.ok key, (succeeded chance world).2)) ∨
        ∃ pause, tryPassword cipher chance password now world =
          (.error (.wrongPassword pause), (failed chance now world).2) ∧
          pause ≤ maxDelaySecs)) := by
  rw [tryPassword, Attempt.bind_of_ok (rfl : Attempt.state world = (.ok world, world))]
  cases hheader : world.state.header with
  | none => exact .inl ⟨.missing, rfl, rfl⟩
  | some header =>
    by_cases hholder : header.holder.isPassword = false
    · refine .inl ⟨.wrongMode, ?_, rfl⟩
      simp only [if_pos hholder]
      rfl
    · simp only [if_neg hholder]
      obtain ⟨pause, hpause, hle⟩ := wait_le chance now world
      by_cases hzero : 0 < pause
      · have hwait : wait chance now world = (.ok pause, (wait chance now world).2) :=
          Prod.ext hpause rfl
        refine .inr (.inl ⟨pause, ?_, hle⟩)
        rw [Attempt.bind_of_ok hwait]
        simp only [if_pos hzero]
        rfl
      · obtain rfl : pause = 0 := Nat.eq_zero_of_not_pos hzero
        have hreaches : Reaches world chance now :=
          ⟨⟨header, hheader, Bool.eq_true_of_not_eq_false hholder⟩, hpause⟩
        have hwait : wait chance now world = (.ok 0, world) :=
          Prod.ext hpause (delay_le_of_wait hpause).1
        rw [Attempt.bind_of_ok hwait]
        simp only [if_neg hzero]
        cases hunwrap : header.unwrapKey cipher password with
        | ok key =>
          refine .inr (.inr ⟨hreaches, .inl ⟨key, ?_⟩⟩)
          change (succeeded chance >>= fun _ => pure key : VaultOp Key) world = _
          rw [Attempt.bind_of_ok (succeeded_eq chance world), succeeded_eq]
          rfl
        | error error =>
          by_cases hwrong : error = .decrypt
          · subst hwrong
            obtain ⟨pause, hafter, hshort⟩ := wait_failed chance now world
            refine .inr (.inr ⟨hreaches, .inr ⟨pause, ?_, hshort⟩⟩)
            change (failed chance now >>= fun _ => wait chance now >>= fun pause =>
              Attempt.fail (.wrongPassword pause) : VaultOp Key) world = _
            rw [Attempt.bind_of_ok (failed_eq chance now world)]
            exact Attempt.bind_of_ok hafter
          · refine .inl ⟨error, ?_, unwrapKey_error hunwrap⟩
            cases error <;> first | rfl | exact absurd rfl hwrong

theorem reset_of_right {password : List UInt8} {key : Key}
    (h : (tryPassword cipher chance password now world).1 = .ok key) :
    (tryPassword cipher chance password now world).2.backoff.failures = 0 ∧
      (chance.attemptsKept = true → world.onDisk = true → world.attempts = world.backoff →
        (tryPassword cipher chance password now world).2.attempts.failures = 0) := by
  rcases tryPassword_cases cipher chance password now world with
    ⟨error, heq, -⟩ | ⟨pause, heq, -⟩ | ⟨-, ⟨key', heq⟩ | ⟨pause, heq, -⟩⟩
  · rw [heq] at h
    cases h
  · rw [heq] at h
    cases h
  · rw [heq, succeeded_eq]
    by_cases hzero : world.backoff.failures = 0
    · simp only [if_pos hzero]
      exact ⟨hzero, fun _ _ hsame => by rw [hsame, hzero]⟩
    · simp only [if_neg hzero]
      refine ⟨rfl, fun hkept hdisk _ => ?_⟩
      change (if (chance.attemptsKept && world.onDisk) = true then (⟨0, 0⟩ : Backoff)
        else world.attempts).failures = 0
      rw [hkept, hdisk]
      rfl
  · rw [heq] at h
    cases h

theorem pause_le {password : List UInt8} {pause : Nat}
    (h : (tryPassword cipher chance password now world).1 = .error (.wait pause) ∨
      (tryPassword cipher chance password now world).1 = .error (.wrongPassword pause)) :
    pause ≤ maxDelaySecs := by
  rcases tryPassword_cases cipher chance password now world with
    ⟨error, heq, hplain⟩ | ⟨other, heq, hle⟩ | ⟨-, ⟨key, heq⟩ | ⟨other, heq, hle⟩⟩
  · rw [heq] at h
    rcases h with h | h
    · rw [Except.error.inj h] at hplain
      cases hplain
    · rw [Except.error.inj h] at hplain
      cases hplain
  · rw [heq] at h
    rcases h with h | h
    · exact VaultError.wait.inj (Except.error.inj h) ▸ hle
    · cases Except.error.inj h
  · rw [heq] at h
    rcases h with h | h
    · cases h
    · cases h
  · rw [heq] at h
    rcases h with h | h
    · cases Except.error.inj h
    · exact VaultError.wrongPassword.inj (Except.error.inj h) ▸ hle

end

theorem saturated_le_oneMore {wrong : Nat} {failures : UInt32} (h : saturated wrong ≤ failures) :
    saturated (wrong + 1) ≤ oneMore failures := by
  have hof : ∀ n, (saturated n).toNat = min n 4294967295 := fun n => by
    rw [saturated, UInt32.toNat_ofNat']
    exact Nat.mod_eq_of_lt (by omega)
  rw [UInt32.le_iff_toNat_le, hof] at h ⊢
  rw [oneMore]
  split
  · omega
  · have hlt := failures.toNat_lt
    rw [UInt32.toNat_add, Nat.mod_eq_of_lt (by simp; omega)]
    simp
    omega

/-- The wrong passwords count, and at any moment that could come next at least as much time has
passed since the last of them as the clock shows since the last failure. -/
structure Counts (watch : Watch) : Prop where
  failures : saturated watch.wrong ≤ watch.world.backoff.failures
  since : watch.wrong ≠ 0 → ∀ moment, Steady (watch.recent ++ [moment]) →
    watch.since ≤ moment.time ∧
      moment.clock + watch.since ≤ watch.world.backoff.lastFailure + moment.time

section

variable {cipher : Cipher} {watch : Watch} {moment : Moment} {world : World}

theorem saturated_zero_le (failures : UInt32) : saturated 0 ≤ failures :=
  UInt32.le_iff_toNat_le.mpr (Nat.zero_le _)

/-- What steadiness says of a moment, the one after it and those before them. -/
theorem Steady.of_two {moments : List Moment} {last next : Moment}
    (h : Steady (moments ++ [last] ++ [next])) :
    Steady (moments ++ [last]) ∧ Steady (moments ++ [next]) ∧
      last.time ≤ next.time ∧ next.clock + last.time ≤ last.clock + next.time := by
  have hsub : (moments ++ [next]).Sublist (moments ++ [last] ++ [next]) :=
    (sublist_append_left moments [last]).append (List.Sublist.refl _)
  obtain ⟨hfirst, -, hcross⟩ := pairwise_append.mp h
  exact ⟨hfirst, h.sublist hsub,
    hcross last (mem_append_right _ (mem_singleton_self _)) next
      (mem_singleton_self _)⟩

/-- The count goes on when the waits stay as they are. -/
theorem Counts.rest (h : Counts watch) (hsame : world.backoff = watch.world.backoff) :
    Counts (watch.rest moment world) := by
  refine ⟨hsame ▸ h.failures, fun hwrong next hsteady => ?_⟩
  obtain ⟨-, hbefore, -⟩ := hsteady.of_two
  exact hsame ▸ h.since hwrong next hbefore

theorem Counts.anew (watch : Watch) (moment : Moment) (world : World) :
    Counts (watch.anew moment world) :=
  ⟨saturated_zero_le _, fun hwrong => absurd rfl hwrong⟩

/-- Asking for the wait may move the last failure back to the clock, no further. -/
theorem Counts.wait (h : Counts watch) :
    Counts (watch.rest moment (wait moment.chance moment.clock watch.world).2) := by
  rcases wait_cases moment.chance moment.clock watch.world with ⟨heq, -⟩ | ⟨heq, -, hback⟩
  · rw [heq]
    exact h.rest rfl
  · rw [heq]
    refine ⟨h.failures, fun hwrong next hsteady => ?_⟩
    obtain ⟨hnow, -, htime, hclock⟩ := hsteady.of_two
    obtain ⟨hsince, -⟩ := h.since hwrong moment hnow
    change watch.since ≤ next.time ∧ next.clock + watch.since ≤ moment.clock + next.time
    exact ⟨hsince.trans htime, by omega⟩

theorem Counts.failed (h : Counts watch) :
    Counts ⟨(Vault.failed moment.chance moment.clock watch.world).2, watch.wrong + 1,
      moment.time, [moment]⟩ := by
  refine ⟨saturated_le_oneMore h.failures, fun _ next hsteady => ?_⟩
  obtain ⟨-, -, htime, hclock⟩ := @Steady.of_two [] moment next hsteady
  exact ⟨htime, hclock⟩

theorem Counts.tried (h : Counts watch) {password : List UInt8}
    (hdeed : moment.deed = .tried password) : Counts (watch.next cipher moment) := by
  rw [Watch.next, hdeed]
  rcases tryPassword_cases cipher moment.chance password moment.clock watch.world with
    ⟨error, heq, hplain⟩ | ⟨pause, heq, -⟩ | ⟨-, ⟨key, heq⟩ | ⟨pause, heq, -⟩⟩
  · simp only [heq]
    split
    next hok => cases hok
    next pause herror =>
        rw [Except.error.inj herror] at hplain
        cases hplain
    next => exact h.rest rfl
  · simp only [heq]
    exact h.wait
  · simp only [heq]
    exact .anew _ _ _
  · simp only [heq]
    exact h.failed

theorem Counts.next (h : Counts watch) : Counts (watch.next cipher moment) := by
  cases hdeed : moment.deed with
  | tried password => exact h.tried hdeed
  | polled =>
    rw [Watch.next, hdeed]
    exact h.wait
  | restarted =>
    rw [Watch.next, hdeed]
    by_cases hkept : watch.world.onDisk = true ∧ watch.world.attempts = watch.world.backoff
    · simp only [if_pos hkept]
      refine h.rest ?_
      change (if watch.world.onDisk = true then watch.world.attempts else ⟨0, 0⟩) = _
      rw [if_pos hkept.1, hkept.2]
    · simp only [if_neg hkept]
      exact .anew _ _ _
  | spoiled found =>
    rw [Watch.next, hdeed]
    exact h.rest rfl
  | settled state disk =>
    rw [Watch.next, hdeed]
    exact h.rest rfl

theorem Counts.run (h : Counts watch) (moments : List Moment) :
    Counts (moments.foldl (Watch.next cipher) watch) := by
  induction moments generalizing watch with
  | nil => exact h
  | cons moment moments ih => exact ih h.next

theorem counts_watched (cipher : Cipher) (start : World) (moments : List Moment) :
    Counts (watched cipher start moments) :=
  Counts.run ⟨saturated_zero_le _, fun hwrong => absurd rfl hwrong⟩ moments

end

/-- In every run, a try that derives a key comes at least as long after the last wrong password
as the count of wrong ones asks for, when the clock has not gained since that one; no wait is
longer than the longest one, and a right password takes the count back to none. -/
theorem waits_hold (cipher : Cipher) (start : World) (moments : List Moment) (moment : Moment) :
    let watch := watched cipher start moments
    (Reaches watch.world moment.chance moment.clock → Steady (watch.recent ++ [moment]) →
      delayAfter (saturated watch.wrong) ≤ moment.time - watch.since) ∧
    (∃ pause, (wait moment.chance moment.clock watch.world).1 = .ok pause ∧ pause ≤ maxDelaySecs) ∧
    ∀ password,
      let after := tryPassword cipher moment.chance password moment.clock watch.world
      (∀ pause, after.1 = .error (.wait pause) ∨ after.1 = .error (.wrongPassword pause) →
        pause ≤ maxDelaySecs) ∧
      ∀ key, after.1 = .ok key → after.2.backoff.failures = 0 ∧
        (moment.chance.attemptsKept = true → watch.world.onDisk = true →
          watch.world.attempts = watch.world.backoff → after.2.attempts.failures = 0) := by
  have hcounts := counts_watched cipher start moments
  refine ⟨fun hreaches hsteady => ?_, wait_le _ _ _, fun password => ⟨fun pause hpause => ?_,
    fun key hkey => reset_of_right hkey⟩⟩
  · have hmono := delayAfter_mono hcounts.failures
    rcases (delay_le_of_wait hreaches.2).2 with hzero | hdelay
    · rw [hzero] at hmono
      exact hmono.trans (Nat.zero_le _)
    · by_cases hwrong : (watched cipher start moments).wrong = 0
      · rw [hwrong]
        exact Nat.zero_le _
      · obtain ⟨htime, hclock⟩ := hcounts.since hwrong moment hsteady
        omega
  · exact pause_le hpause

namespace WaitWitness

open RunWitness (lucky costs)

/-- A cipher that no password opens. -/
def shut : Cipher where
  encrypt := fun _ _ _ plain => plain
  decrypt := fun _ _ _ _ => none
  argon2 := fun _ _ _ => zeroBlock keyLen

/-- A vault with a master password, before any wrong one. -/
def fresh : World :=
  { RunWitness.empty with state := .locked (MapWitness.headerWith (zeroBlock nonceLen)) [] }

/-- A try at a time, on a clock. -/
def tryAt (time clock : Nat) : Moment := ⟨time, clock, lucky, .tried []⟩

/-- Three wrong passwords in a row. -/
def three : List Moment := [tryAt 0 100, tryAt 0 100, tryAt 0 100]

/-- A clock that is set forward ends the wait at once, and a restart that finds no file of
attempts forgets the wrong passwords. -/
theorem wait_bypassed :
    (watched shut fresh three).wrong = 3 ∧
      Reaches (watched shut fresh three).world lucky (tryAt 0 200).clock ∧
      ¬ delayAfter (saturated 3) ≤ (tryAt 0 200).time - (watched shut fresh three).since ∧
      Reaches (watched shut fresh (three ++
        [⟨0, 100, lucky, .spoiled ⟨0, 0⟩⟩, ⟨0, 100, lucky, .restarted⟩,
          ⟨0, 100, lucky, .settled fresh.state none⟩])).world lucky (tryAt 0 100).clock := by
  have hheader : fresh.state.header = some (MapWitness.headerWith (zeroBlock nonceLen)) := rfl
  exact ⟨rfl, ⟨⟨_, hheader, rfl⟩, rfl⟩, by decide, ⟨_, hheader, rfl⟩, rfl⟩

theorem waits_three :
    delayAfter (saturated (watched shut fresh three).wrong) ≤
      (tryAt 5 105).time - (watched shut fresh three).since := by
  have hsteady : Steady [tryAt 0 100, tryAt 5 105] := by simp [Steady, tryAt]
  exact (waits_hold shut fresh three (tryAt 5 105)).1
    ⟨⟨MapWitness.headerWith (zeroBlock nonceLen), rfl, rfl⟩, rfl⟩ hsteady

end WaitWitness

end Opensesh.Vault
