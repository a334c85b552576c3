/-
Garbage collection and what loading skips: in every run a collection only takes secrets
that no entry refers to, the skipped ones included, as long as every text that was loaded
has each of its references in an entry that is kept.
-/
import Opensesh.Keychain
import Opensesh.KeychainKept
import Opensesh.VaultRuns

namespace Opensesh.Vault

open List Option
open KeychainFile

/-- The tables of a section, whether loading can read them or not. -/
def recordTables (root : Table) (key : String) : List Table :=
  match root.lookup key with
  | some (.array items) => items.filterMap Value.asTable
  | some (.table entries) => [entries]
  | _ => []

/-- The fields of each kind of record that hold references. -/
def secretFields : List (String × List String) :=
  [("identity", ["password"]), ("key", ["private"]), ("host", ["password", "key_passphrase"])]

def tableRefs {τ κ : Type} (format : KeychainFormat τ κ) (fields : List String)
    (table : Table) : List Ulid :=
  fields.filterMap fun field => ((table.lookup field).bind Value.asStr).bind (parseRef format)

/-- Every secret a record of the file refers to, skipped by loading or not. -/
def fileRefs {τ κ : Type} (format : KeychainFormat τ κ) (root : Table) : List Ulid :=
  secretFields.flatMap fun section' =>
    (recordTables root section'.1).flatMap (tableRefs format section'.2)

inductive KeychainOperation (τ κ : Type) where
  | saveIdentity (edit : IdentityEdit)
  | deleteIdentity (id : String)
  | setHostSecret (host : String) (which : HostSecret) (change : PasswordChange)
  | forgetHost (host : String)
  | addKey (key : κ) (name origin : String)
  | renameKey (id name : String)
  | deleteKey (id : String)
  | keepId (record : Keychain.Record) (new wanted : String)
  | collectGarbage
  | resetVault
  | onVault (op : Operation)
  /-- Another program leaves this in the file, and it is read again. -/
  | reload (disk : Option τ)

abbrev KeychainEvent (τ κ : Type) := KeychainOperation τ κ × Luck

namespace Keychain

section Garbage

variable {τ κ : Type} (cipher : Cipher) (format : KeychainFormat τ κ)

/-- The operation without its result. -/
def perform (luck : Luck) : KeychainOperation τ κ → KeychainOp τ Unit
  | .saveIdentity edit => do
    let _ ← saveIdentity cipher format luck edit
    pure ()
  | .deleteIdentity id => deleteIdentity cipher format luck id
  | .setHostSecret host which change => setHostSecret cipher format luck host which change
  | .forgetHost host => forgetHost cipher format luck host
  | .addKey key name origin => do
    let _ ← addKey cipher format luck key name origin
    pure ()
  | .renameKey id name => renameKey format luck id name
  | .deleteKey id => deleteKey cipher format luck id
  | .keepId record new wanted => do
    let _ ← keepId format luck record new wanted
    pure ()
  | .collectGarbage => do
    let _ ← collectGarbage cipher format luck
    pure ()
  | .resetVault => resetVault format luck
  | .onVault op => onVault (Vault.perform cipher luck.storing op)
  | .reload disk => do
    Attempt.modify fun keychain => { keychain with disk }
    reload format luck

/-- The references the text in the file has. -/
def diskRefs (disk : Option τ) : List Ulid :=
  match disk with
  | none => []
  | some text =>
    match format.parse text with
    | .ok root => fileRefs format root
    | .error _ => []

/-- A keychain, and the secrets that a record of the file as it was loaded or one added
since refers to. -/
structure Watched (τ : Type) where
  keychain : Keychain τ
  claimed : List Ulid

/-- What is referred to after a change of the entries: what they refer to now, and what was
referred to before and not given up by the change. -/
def stillClaimed (before after : KeychainFile) (claimed : List Ulid) : List Ulid :=
  after.secretIds format ++ claimed.filter fun id =>
    !((before.secretIds format).contains id && !(after.secretIds format).contains id)

def watch (watched : Watched τ) (event : KeychainEvent τ κ) : Option (Watched τ) :=
  let after := (perform cipher format event.2 event.1 watched.keychain).2
  match event.1 with
  | .reload disk => some ⟨after,
      if watched.keychain.filePath.isSome then diskRefs format disk else watched.claimed⟩
  | _ => some ⟨after, stillClaimed format watched.keychain.file after.file watched.claimed⟩

/-- Every reference of the text is one of an entry that loading keeps, and the ids loading
makes are not in it. -/
structure Whole (luck : Luck) (root : Table) : Prop where
  fresh : FreshFor luck.newIds root
  kept : ∀ id ∈ fileRefs format root, KeptRef format root id

/-- What a text that is loaded meets, when it can be read and is not of a newer version. -/
def LoadsWhole (watched : Watched τ) (event : KeychainEvent τ κ) : Prop :=
  ∀ text root, event.1 = .reload (some text) → watched.keychain.filePath.isSome →
    event.2.readable = true → format.parse text = .ok root →
    (versionOf root).1 ≤ keychainSchemaVersion → Whole format event.2 root

end Garbage

section Steady

variable {τ κ α β : Type} {cipher : Cipher} {format : KeychainFormat τ κ} {luck : Luck}

/-- However the step ends, the file stays as locked as it was. -/
def Steady (x : KeychainOp τ α) : Prop :=
  ∀ keychain, (x keychain).2.lockedFile = keychain.lockedFile

theorem steady_done (a : α) : Steady (pure a : KeychainOp τ α) := fun _ => rfl

theorem steady_fail (error : KeychainOpError) :
    Steady (Attempt.fail error : KeychainOp τ α) := fun _ => rfl

theorem steady_lift (result : Except KeychainOpError α) :
    Steady (Attempt.lift result : KeychainOp τ α) := fun _ => rfl

theorem steady_state : Steady (Attempt.state : KeychainOp τ (Keychain τ)) := fun _ => rfl

variable {x : KeychainOp τ α}

theorem Steady.bind {f : α → KeychainOp τ β} (hx : Steady x) (hf : ∀ a, Steady (f a)) :
    Steady (x >>= f) := by
  intro keychain
  have hfirst := hx keychain
  change (Attempt.andThen x f keychain).2.lockedFile = _
  rw [Attempt.andThen]
  cases hrun : x keychain with
  | mk result middle =>
    rw [hrun] at hfirst
    cases result with
    | error error => exact hfirst
    | ok a => exact (hf a middle).trans hfirst

theorem Steady.attempt (hx : Steady x) : Steady x.attempt := fun keychain => hx keychain

theorem steady_onVault (op : VaultOp α) : Steady (onVault op : KeychainOp τ α) := by
  intro keychain
  rw [onVault]
  split <;> rfl

theorem steady_commit (file : KeychainFile) : Steady (commit format luck file) := by
  refine Steady.bind (steady_state.bind fun keychain => ?_) fun _ _ => rfl
  split
  · exact steady_fail _
  · split
    · exact steady_done _
    · refine (steady_lift _).bind fun text keychain => ?_
      rw [writeText]
      split <;> rfl

theorem steady_ensureVault : Steady (ensureVault cipher luck : KeychainOp τ Unit) := by
  refine steady_state.bind fun keychain => ?_
  split
  · exact steady_done _
  · split
    · exact steady_fail _
    · exact steady_onVault _

theorem steady_forgetSecrets (ids : List Ulid) (chance next : Chance) :
    Steady (forgetSecrets cipher chance next ids : KeychainOp τ Unit) := by
  induction ids generalizing chance next with
  | nil => exact steady_done _
  | cons id rest ih =>
    refine Steady.bind (steady_state.bind fun keychain => ?_) fun _ => ih _ _
    split
    · exact steady_done _
    · exact (steady_onVault _).attempt.bind fun _ => steady_done _

theorem steady_changePasswordTo (old : Option Ulid) (current : Option String)
    (change : PasswordChange) :
    Steady (changePasswordTo cipher format luck old current change) := by
  cases change with
  | keep => exact steady_done _
  | clear => exact steady_done _
  | set secret =>
    refine steady_ensureVault.bind fun _ => ?_
    cases old with
    | none => exact (steady_onVault _).bind fun _ => steady_done _
    | some id => exact (steady_onVault _).bind fun _ => steady_done _

theorem steady_commitStored (file : KeychainFile) (stored : Stored) :
    Steady (commitStored cipher format luck file stored) := by
  refine (steady_commit file).attempt.bind fun committed => ?_
  split
  · exact steady_forgetSecrets _ _ _
  · exact (steady_forgetSecrets _ _ _).bind fun _ => steady_fail _

theorem steady_putIdentity (edit : IdentityEdit) (existing : Option Nat) (identity : Identity) :
    Steady (putIdentity cipher format luck edit existing identity) :=
  (steady_changePasswordTo _ _ _).bind fun _ => steady_state.bind fun _ =>
    (steady_commitStored _ _).bind fun _ => steady_done _

theorem steady_saveIdentity (edit : IdentityEdit) :
    Steady (saveIdentity cipher format luck edit) := by
  refine steady_state.bind fun keychain => ?_
  split
  · exact steady_fail _
  · split
    · exact steady_fail _
    · split
      · exact steady_fail _
      · split
        · exact steady_putIdentity _ _ _
        · exact steady_putIdentity _ _ _

theorem steady_deleteIdentity (id : String) : Steady (deleteIdentity cipher format luck id) := by
  refine steady_state.bind fun keychain => ?_
  split
  · exact steady_fail _
  · exact (steady_commit _).bind fun _ => steady_forgetSecrets _ _ _

theorem steady_setHostSecret (host : String) (which : HostSecret) (change : PasswordChange) :
    Steady (setHostSecret cipher format luck host which change) := by
  refine steady_state.bind fun keychain => ?_
  dsimp only
  split
  · exact steady_done _
  · split
    · exact steady_fail _
    · split
      · exact steady_fail _
      · exact (steady_changePasswordTo _ _ _).bind fun _ => steady_state.bind fun _ =>
          steady_commitStored _ _

theorem steady_forgetHost (host : String) : Steady (forgetHost cipher format luck host) := by
  refine steady_state.bind fun keychain => ?_
  split
  · exact steady_done _
  · split
    · exact steady_fail _
    · exact (steady_commit _).bind fun _ => steady_forgetSecrets _ _ _

theorem steady_addKey (key : κ) (name origin : String) :
    Steady (addKey cipher format luck key name origin) := by
  refine steady_state.bind fun keychain => ?_
  split
  · exact steady_fail _
  · split
    · exact steady_fail _
    · exact steady_ensureVault.bind fun _ => (steady_lift _).bind fun _ =>
        (steady_onVault _).bind fun _ => (steady_commitStored _ _).bind fun _ => steady_done _

theorem steady_renameKey (id name : String) : Steady (renameKey format luck id name) := by
  refine steady_state.bind fun keychain => ?_
  split
  · exact steady_fail _
  · exact steady_commit _

theorem steady_deleteKey (id : String) : Steady (deleteKey cipher format luck id) := by
  refine steady_state.bind fun keychain => ?_
  split
  · exact steady_fail _
  · exact (steady_commit _).bind fun _ => steady_forgetSecrets _ _ _

theorem steady_keepId (record : Record) (new wanted : String) :
    Steady (keepId format luck record new wanted) := by
  refine steady_state.bind fun keychain => ?_
  split
  · exact steady_done _
  · exact (steady_commit _).bind fun _ => steady_done _

theorem steady_collectGarbage : Steady (collectGarbage cipher format luck) := by
  refine steady_state.bind fun keychain => ?_
  split
  · exact steady_done _
  · exact steady_onVault _

theorem steady_resetVault : Steady (resetVault format luck) := by
  refine (steady_onVault _).bind fun _ => steady_state.bind fun keychain => ?_
  split
  · exact steady_done _
  · exact steady_commit _

theorem steady_perform {op : KeychainOperation τ κ} (h : ∀ disk, op ≠ .reload disk) :
    Steady (perform cipher format luck op) := by
  cases op with
  | saveIdentity edit => exact (steady_saveIdentity edit).bind fun _ => steady_done _
  | deleteIdentity id => exact steady_deleteIdentity id
  | setHostSecret host which change => exact steady_setHostSecret host which change
  | forgetHost host => exact steady_forgetHost host
  | addKey key name origin => exact (steady_addKey key name origin).bind fun _ => steady_done _
  | renameKey id name => exact steady_renameKey id name
  | deleteKey id => exact steady_deleteKey id
  | keepId record new wanted =>
    exact (steady_keepId record new wanted).bind fun _ => steady_done _
  | collectGarbage => exact steady_collectGarbage.bind fun _ => steady_done _
  | resetVault => exact steady_resetVault
  | onVault op => exact steady_onVault _
  | reload disk => exact absurd rfl (h disk)

end Steady

section Runs

variable {τ κ : Type} {cipher : Cipher} {format : KeychainFormat τ κ} {luck : Luck}

/-- What is referred to is in the file in memory, when that is one to go by. -/
def Claimed (format : KeychainFormat τ κ) (watched : Watched τ) : Prop :=
  watched.keychain.lockedFile = false →
    ∀ id ∈ watched.claimed, id ∈ watched.keychain.file.secretIds format

/-- The keychain after a file was read, or could not be. -/
def loaded (keychain : Keychain τ) (disk : Option τ) :
    Except KeychainError (KeychainFile × List Warning) → Keychain τ
  | .ok read => { keychain with
      disk, file := read.1, warnings := read.2, lockedFile := read.1.readOnly }
  | .error error => { keychain with
      disk
      file := KeychainFile.empty
      warnings := [⟨keychainFileName, error.text⟩]
      lockedFile := true }

variable {keychain : Keychain τ} {path : String} {watched : Watched τ} {chance : Chance}
  {keep : Ulid → Bool} {vault : Unlocked}

theorem reload_eq (disk : Option τ) (hpath : keychain.filePath = some path) :
    perform cipher format luck (.reload disk) keychain =
      (.ok (), loaded keychain disk (load format luck path disk)) := by
  obtain ⟨filePath, vault, file, warnings, lockedFile, old⟩ := keychain
  obtain rfl : filePath = some path := hpath
  have hreload : perform cipher format luck (.reload disk)
      ⟨some path, vault, file, warnings, lockedFile, old⟩ =
      reload format luck ⟨some path, vault, file, warnings, lockedFile, disk⟩ := rfl
  rw [hreload, reload, Attempt.modify]
  dsimp only
  cases load format luck path disk with
  | ok read => rfl
  | error error => rfl

theorem load_text {text : τ} {root : Table} (hreadable : luck.readable = true)
    (hparse : format.parse text = .ok root) :
    load format luck path (some text) = .ok (fromRoot format luck.newIds root) := by
  rw [load]
  simp only [hreadable, Bool.true_eq_false, if_false, fromTomlStr, hparse]
  rfl

theorem claimed_reload {next : Watched τ} {disk : Option τ} (h : Claimed format watched)
    (hloads : LoadsWhole format watched (.reload disk, luck))
    (hstep : watch cipher format watched (.reload disk, luck) = some next) :
    Claimed format next := by
  obtain rfl := some.inj hstep
  intro hlocked id hid
  cases hpath : watched.keychain.filePath with
  | none =>
    have hsame : (perform cipher format luck (.reload disk) watched.keychain).2 =
        { watched.keychain with disk } := by
      have hreload : perform cipher format luck (.reload disk) watched.keychain =
          reload format luck { watched.keychain with disk } := rfl
      rw [hreload, reload, Attempt.modify, hpath]
    dsimp only at hlocked hid ⊢
    rw [hsame] at hlocked ⊢
    rw [hpath] at hid
    exact h hlocked id hid
  | some path =>
    have hsome : watched.keychain.filePath.isSome = true := by
      rw [hpath]
      rfl
    dsimp only at hlocked hid ⊢
    rw [if_pos hsome] at hid
    rw [reload_eq disk hpath] at hlocked ⊢
    cases disk with
    | none => cases hid
    | some text =>
      by_cases hreadable : luck.readable = true
      · cases hparse : format.parse text with
        | error message =>
          rw [diskRefs, hparse] at hid
          cases hid
        | ok root =>
          rw [load_text hreadable hparse] at hlocked ⊢
          have hversion : (versionOf root).1 ≤ keychainSchemaVersion := by
            have hnewer := of_decide_eq_false hlocked
            omega
          have hwhole := hloads text root rfl hsome hreadable hparse hversion
          rw [diskRefs, hparse] at hid
          exact (mem_secretIds_fromRoot hwhole.fresh).mpr (hwhole.kept id hid)
      · have hload : load format luck path (some text) = .error (.read path) := by
          rw [load, if_pos (Bool.eq_false_of_not_eq_true hreadable)]
        rw [hload] at hlocked
        cases hlocked

theorem claimed_step {next : Watched τ} {event : KeychainEvent τ κ} (h : Claimed format watched)
    (hloads : LoadsWhole format watched event)
    (hstep : watch cipher format watched event = some next) : Claimed format next := by
  obtain ⟨op, luck⟩ := event
  by_cases hreload : ∃ disk, op = .reload disk
  · obtain ⟨disk, rfl⟩ := hreload
    exact claimed_reload h hloads hstep
  · have hother : ∀ disk, op ≠ .reload disk := fun disk heq => hreload ⟨disk, heq⟩
    have hsteady := @steady_perform τ κ cipher format luck op hother watched.keychain
    have hnext : next = ⟨(perform cipher format luck op watched.keychain).2,
        stillClaimed format watched.keychain.file
          (perform cipher format luck op watched.keychain).2.file watched.claimed⟩ := by
      cases op with
      | reload disk => exact absurd rfl (hother disk)
      | _ => exact (some.inj hstep).symm
    subst hnext
    intro hlocked id hid
    rcases mem_append.mp hid with hnow | hbefore
    · exact hnow
    · obtain ⟨hclaimed, hkept⟩ := mem_filter.mp hbefore
      have hheld := h (hsteady.symm.trans hlocked) id hclaimed
      by_contra hnot
      simp [hheld, hnot] at hkept

/-- What a change that fails leaves in memory. -/
theorem change_error_state {α : Type} {f : Entries → α × Entries} {world after : World}
    {error : VaultError} (h : change cipher chance f world = (.error error, after)) :
    after.state = world.state := by
  rw [change] at h
  rcases Attempt.bind_eq_error_iff.mp h with hfail | ⟨vault, middle, hvault, hchange⟩
  · exact (quiet_unlocked.kept hfail).state
  · obtain ⟨-, rfl⟩ := unlocked_eq_ok.mp hvault
    rcases Attempt.bind_eq_error_iff.mp hchange with hwrite | ⟨sealed, written, -, hend⟩
    · rcases Attempt.bind_eq_error_iff.mp hwrite with hseal | ⟨made, sealing, hseal, hput⟩
      · exact ((quiet_lift _).kept hseal).state
      · obtain ⟨-, rfl⟩ := Prod.mk.inj hseal
        rcases Attempt.bind_eq_error_iff.mp hput with hfile | ⟨⟨⟩, wrote, -, hpure⟩
        · rw [writeFile] at hfile
          split at hfile
          · cases hfile
          · split at hfile
            · cases hfile
            · obtain ⟨-, rfl⟩ := Prod.mk.inj hfile
              rfl
            · obtain ⟨-, rfl⟩ := Prod.mk.inj hfile
              rfl
        · exact absurd hpure (done_ne_error _)
    · rcases Attempt.bind_eq_error_iff.mp hend with hset | ⟨⟨⟩, last, -, hpure⟩
      · exact absurd hset (setState_ne_error _ _ _ _)
      · exact absurd hpure (done_ne_error _)

theorem retain_error_state {world after : World} {error : VaultError}
    (h : retain cipher chance keep world = (.error error, after)) : after.state = world.state := by
  rcases Attempt.bind_eq_error_iff.mp h with hfail | ⟨vault, middle, hvault, hrest⟩
  · exact (quiet_unlocked.kept hfail).state
  · obtain ⟨-, rfl⟩ := unlocked_eq_ok.mp hvault
    split at hrest
    · cases hrest
    · exact change_error_state hrest

theorem retain_ok_state {world after : World} {count : Nat} (hstate : world.state = .unlocked vault)
    (h : retain cipher chance keep world = (.ok count, after)) :
    ∃ vault', after.state = .unlocked vault' ∧ ∀ id, vault'.entries.lookup id =
      if keep id = true then vault.entries.lookup id else none := by
  obtain ⟨found, middle, hvault, hrest⟩ := Attempt.bind_eq_ok_iff.mp h
  obtain ⟨hfound, rfl⟩ := unlocked_eq_ok.mp hvault
  rw [hstate] at hfound
  obtain rfl := State.unlocked.inj hfound
  split at hrest
  · rename_i hnone
    obtain ⟨-, rfl⟩ := Prod.mk.inj hrest
    refine ⟨vault, hstate, fun id => ?_⟩
    split
    · rfl
    · rename_i hgone
      -- Nothing is to go, so an id that is not to be kept is not there.
      refine lookup_eq_none_iff.mpr fun entry hmem => ?_
      have hall := filter_eq_nil_iff.mp (length_eq_zero_iff.mp hnone) entry hmem
      refine bne_iff_ne.mpr fun heq => ?_
      rw [← heq] at hall
      simp [hgone] at hall
  · obtain ⟨vault', sealed, hopen, -, -, hbecame⟩ := change_eq_ok hrest
    rw [hstate] at hopen
    obtain rfl := State.unlocked.inj hopen
    exact ⟨_, hbecame.state, fun id => lookup_filter_key keep vault.entries id⟩

/-- A collection leaves every secret that is referred to. -/
theorem collectGarbage_keeps {after : Keychain τ} {result : Except KeychainOpError Nat}
    (hstate : keychain.vault.state = .unlocked vault)
    (h : collectGarbage cipher format luck keychain = (result, after)) :
    ∃ vault', after.vault.state = .unlocked vault' ∧ ∀ id,
      (keychain.lockedFile = false → id ∈ keychain.file.secretIds format) →
      vault'.entries.lookup id = vault.entries.lookup id := by
  have hcollect : collectGarbage cipher format luck keychain =
      (if keychain.lockedFile = true ∨ keychain.vault.state.status ≠ .unlocked then pure 0
      else onVault (retain cipher luck.storing
        fun id => (keychain.file.secretIds format).contains id) : KeychainOp τ Nat)
        keychain := rfl
  rw [hcollect] at h
  split at h
  · obtain ⟨-, rfl⟩ := Prod.mk.inj h
    exact ⟨vault, hstate, fun _ _ => rfl⟩
  · rename_i hready
    obtain ⟨hunlocked, -⟩ := not_or.mp hready
    have hlocked := Bool.eq_false_of_not_eq_true hunlocked
    rw [onVault] at h
    cases hretain : retain cipher luck.storing
        (fun id => (keychain.file.secretIds format).contains id) keychain.vault with
    | mk result world =>
      rw [hretain] at h
      cases result with
      | error error =>
        obtain ⟨-, rfl⟩ := Prod.mk.inj h
        exact ⟨vault, (retain_error_state hretain).trans hstate, fun _ _ => rfl⟩
      | ok count =>
        obtain ⟨-, rfl⟩ := Prod.mk.inj h
        obtain ⟨vault', hstate', hentries⟩ := retain_ok_state hstate hretain
        refine ⟨vault', hstate', fun id hheld => ?_⟩
        rw [hentries id, if_pos (by simpa using hheld hlocked)]

theorem unlocked_ne_error {world after : World} {error : VaultError}
    (hstate : world.state = .unlocked vault) : unlocked world ≠ (.error error, after) := by
  rw [unlocked_eq_ok.mpr ⟨hstate, rfl⟩]
  exact fun h => nomatch (Prod.mk.inj h).1

theorem retain_ok {chance : Chance} {keep : Ulid → Bool} {world : World} {vault : Unlocked}
    (hstate : world.state = .unlocked vault)
    (hwrite : CanWrite world chance (vault.entries.filter fun entry => keep entry.1)) :
    ∃ count after, retain cipher chance keep world = (.ok count, after) := by
  cases hrun : retain cipher chance keep world with
  | mk result after =>
    cases result with
    | ok count => exact ⟨count, after, rfl⟩
    | error error =>
      exfalso
      rcases Attempt.bind_eq_error_iff.mp hrun with hfail | ⟨found, middle, hvault, hrest⟩
      · exact unlocked_ne_error hstate hfail
      obtain ⟨hfound, rfl⟩ := unlocked_eq_ok.mp hvault
      rw [hstate] at hfound
      obtain rfl := State.unlocked.inj hfound
      split at hrest
      · exact done_ne_error _ hrest
      rw [change] at hrest
      rcases Attempt.bind_eq_error_iff.mp hrest with hfail | ⟨open', same, hopen, hchange⟩
      · exact unlocked_ne_error hstate hfail
      obtain ⟨hsame, rfl⟩ := unlocked_eq_ok.mp hopen
      rw [hstate] at hsame
      obtain rfl := State.unlocked.inj hsame
      rcases Attempt.bind_eq_error_iff.mp hchange with hfail | ⟨sealed, written, -, hend⟩
      · exact write_ne_error hwrite _ _ hfail
      rcases Attempt.bind_eq_error_iff.mp hend with hset | ⟨⟨⟩, last, -, hpure⟩
      · exact setState_ne_error _ _ _ _ hset
      · exact done_ne_error _ hpure

theorem collectGarbage_takes {keychain : Keychain τ} {vault : Unlocked} {id : Ulid}
    (hstate : keychain.vault.state = .unlocked vault) (hlocked : keychain.lockedFile = false)
    (hunused : id ∉ keychain.file.secretIds format)
    (hwrite : CanWrite keychain.vault luck.storing (vault.entries.filter
      fun entry => (keychain.file.secretIds format).contains entry.1)) :
    ∃ count after vault', collectGarbage cipher format luck keychain = (.ok count, after) ∧
      after.vault.state = .unlocked vault' ∧ vault'.entries.lookup id = none := by
  obtain ⟨count, after, hretain⟩ := @retain_ok cipher luck.storing
    (fun id => (keychain.file.secretIds format).contains id) _ _ hstate hwrite
  obtain ⟨vault', hopen, hentries⟩ := retain_ok_state hstate hretain
  have hstatus : keychain.vault.state.status = .unlocked := by
    rw [hstate]
    rfl
  refine ⟨count, { keychain with vault := after }, vault', ?_, hopen, ?_⟩
  · have hcollect : collectGarbage cipher format luck keychain =
        (if keychain.lockedFile = true ∨ keychain.vault.state.status ≠ .unlocked then pure 0
        else onVault (retain cipher luck.storing
          fun id => (keychain.file.secretIds format).contains id) : KeychainOp τ Nat)
          keychain := rfl
    rw [hcollect, if_neg (by simp [hlocked, hstatus]), onVault, hretain]
  · rw [hentries id, if_neg (by simpa using hunused)]

/-- As long as each text that is loaded has its references in entries that are kept, a
collection takes no secret that a record of the loaded file or one added since refers to;
and a reference that loading skips is lost to the first collection after it. -/
theorem run_collects {start watched : Watched τ} {events : List (KeychainEvent τ κ)}
    (hstart : start.claimed = [])
    (hrun : GoodRun (watch cipher format) (LoadsWhole format) start events watched) :
    (∀ luck vault result after, watched.keychain.vault.state = .unlocked vault →
      collectGarbage cipher format luck watched.keychain = (result, after) →
      ∃ vault', after.vault.state = .unlocked vault' ∧
        ∀ id ∈ watched.claimed, vault'.entries.lookup id = vault.entries.lookup id) ∧
    ∀ luck text root vault id, watched.keychain.vault.state = .unlocked vault →
      watched.keychain.filePath.isSome → luck.readable = true →
      format.parse text = .ok root → (versionOf root).1 ≤ keychainSchemaVersion →
      FreshFor luck.newIds root → id ∈ fileRefs format root → ¬ KeptRef format root id →
      CanWrite watched.keychain.vault luck.storing (vault.entries.filter fun entry =>
        ((fromRoot format luck.newIds root).1.secretIds format).contains entry.1) →
      ∃ next count after vault',
        watch cipher format watched (.reload (some text), luck) = some next ∧
        id ∈ next.claimed ∧
        collectGarbage cipher format luck next.keychain = (.ok count, after) ∧
        after.vault.state = .unlocked vault' ∧ vault'.entries.lookup id = none := by
  have hclaimed : Claimed format watched := by
    refine hrun.invariant (fun h hloads hstep => claimed_step h hloads hstep) ?_
    intro _ id hid
    rw [hstart] at hid
    cases hid
  refine ⟨fun luck vault result after hstate hcollect => ?_, ?_⟩
  · obtain ⟨vault', hopen, hsame⟩ := collectGarbage_keeps hstate hcollect
    exact ⟨vault', hopen, fun id hid => hsame id fun hlocked => hclaimed hlocked id hid⟩
  · intro luck text root vault id hstate hsome hreadable hparse hversion hfresh hid hnot hwrite
    obtain ⟨path, hpath⟩ := Option.isSome_iff_exists.mp hsome
    have hloaded : (perform cipher format luck (.reload (some text)) watched.keychain).2 =
        loaded watched.keychain (some text) (.ok (fromRoot format luck.newIds root)) := by
      rw [reload_eq _ hpath, load_text hreadable hparse]
    obtain ⟨count, after, vault', hcollect, hopen, hgone⟩ := @collectGarbage_takes τ κ cipher
      format luck (loaded watched.keychain (some text) (.ok (fromRoot format luck.newIds root)))
      vault id hstate (decide_eq_false (by omega))
      (mt (mem_secretIds_fromRoot hfresh).mp hnot) hwrite
    refine ⟨_, count, after, vault', rfl, ?_, ?_, hopen, hgone⟩
    · dsimp only
      rw [if_pos hsome, diskRefs, hparse]
      exact hid
    · rw [← hcollect, ← hloaded]

end Runs

end Keychain

namespace GarbageWitness

open RunWitness (plainCipher lucky created)

def ulidText : String := "00000000000000000000000000"

def id : Ulid := RoundTripWitness.id

/-- Texts that are tables, and the one id that is met. -/
def format : KeychainFormat Table (List UInt8) where
  parse := fun text => .ok text
  print := fun root => .ok root
  header := fun text => text
  ulidOfText := fun text => if text = ulidText then some id else none
  ulidText := fun _ => ulidText
  publicInfo := fun _ => none
  info := fun _ => ⟨"", "", 0, "", "", ""⟩
  toVault := fun key => .ok key
  fromVault := fun data => .ok data

/-- Nothing fails. -/
def luck : Luck where
  storeWorks := true
  creating := lucky
  storing := lucky
  forgetting := lucky
  forgettingNext := lucky
  write := .whole
  readable := true
  newId := "B"
  newIds := fun n => String.ofList (List.replicate n 'x')
  now := 0

def record (notes : Value) : Table :=
  [("identity", .array [.table [("id", .string "A"), ("name", .string "deploy"),
    ("notes", notes), ("password", .string ("vault:" ++ ulidText))]])]

/-- A vault with one secret, and an empty keychain. -/
def start : Keychain.Watched Table where
  keychain :=
    { filePath := some "keychain.toml"
      vault := (perform plainCipher lucky (.insert .password [0x70]) created).2
      file := KeychainFile.empty
      warnings := []
      lockedFile := false
      disk := none }
  claimed := []

theorem fresh (notes : Value) : FreshFor luck.newIds (record notes) := by
  have hids : ∀ other ∈ (keysIn (record notes)).map KeyEntry.id ++
      (identitiesIn (record notes)).map Identity.id, other ∈ ["A"] := by
    intro other hmem
    cases notes with
    | string text => exact hmem
    | _ => cases hmem
  refine FreshIds.of_subset ⟨fun n m heq => ?_, fun n hmem => ?_⟩ hids
  · have hlist := congrArg String.toList heq
    simpa [luck] using congrArg List.length hlist
  · obtain heq := mem_singleton.mp hmem
    have hlist := congrArg String.toList heq
    cases n with
    | zero => simp [luck] at hlist
    | succ n =>
      have hhead := congrArg List.head? hlist
      simp [luck, replicate_succ] at hhead

theorem whole_record : Keychain.Whole format luck (record (.string "")) where
  fresh := fresh _
  kept := by
    intro other hmem
    have hrefs : fileRefs format (record (.string "")) = [id] := by decide
    rw [hrefs, mem_singleton] at hmem
    rw [hmem]
    have href : id ∈ identityRefs format
        ⟨"A", "deploy", "", some ("vault:" ++ ulidText), none, "", []⟩ :=
      mem_singleton.mpr rfl
    have hread : identitiesIn (record (.string "")) =
        [] ++ ⟨"A", "deploy", "", some ("vault:" ++ ulidText), none, "", []⟩ :: [] := rfl
    exact .identity hread (fun own _ => ⟨not_mem_nil, not_mem_nil⟩) href

/-- The keychain with the entry read. -/
def reloaded : Keychain.Watched Table where
  keychain := (Keychain.perform plainCipher format luck
    (.reload (some (record (.string "")))) start.keychain).2
  claimed := [id]

/-- The secret that the entry refers to stays. -/
theorem reloaded_keeps : ∃ after vault,
    Keychain.collectGarbage plainCipher format luck reloaded.keychain = (.ok 0, after) ∧
    after.vault.state = .unlocked vault ∧
    vault.entries.lookup id = some ⟨.password, [0x70]⟩ := by
  have hrun : GoodRun (Keychain.watch plainCipher format) (Keychain.LoadsWhole format) start
      [(.reload (some (record (.string ""))), luck)] reloaded := by
    refine .cons (fun text root heq _ _ hparse _ => ?_) rfl (.nil _)
    obtain rfl := Option.some.inj (KeychainOperation.reload.inj heq)
    obtain rfl := Except.ok.inj hparse
    exact whole_record
  obtain ⟨vault, hopen, hsame⟩ := (Keychain.run_collects rfl hrun).1 luck _ _ _ rfl rfl
  exact ⟨_, vault, rfl, hopen, hsame id (List.mem_singleton.mpr rfl)⟩

/-- An entry whose notes are a number is skipped, and its password is lost to the first
collection. -/
theorem skipped_lost :
    ∃ next after, Keychain.watch plainCipher format start
        (.reload (some (record (.integer 3))), luck) = some next ∧
      next.keychain.lockedFile = false ∧
      next.keychain.vault.get id = .ok ⟨.password, [0x70]⟩ ∧ next.claimed = [id] ∧
      next.keychain.warnings = [⟨"identity[0]", "skipped: a value has the wrong type"⟩] ∧
      Keychain.collectGarbage plainCipher format luck next.keychain = (.ok 1, after) ∧
      after.vault.get id = .error .notFound :=
  ⟨_, _, rfl, rfl, rfl, by decide, by decide, rfl, rfl⟩

end GarbageWitness

end Opensesh.Vault
