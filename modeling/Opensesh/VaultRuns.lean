/-
Runs of the vault's operations: as long as none of them reaches the keyring before a write
that fails, each one that fails changes nothing, and the keyring never has the key of a
vault that says it is not remembered.
-/
import Opensesh.VaultSteps
import Opensesh.Machine

namespace Opensesh.Vault

open Option

inductive Operation where
  | create (password : Option (List UInt8)) (params : KdfParams)
  | unlock (password : List UInt8) (now : Nat)
  | unlockWithKeyring
  | lock
  | insert (kind : SecretKind) (data : List UInt8)
  | replace (id : Ulid) (kind : SecretKind) (data : List UInt8)
  | remove (ids : List Ulid)
  | retain (keep : Ulid → Bool)
  | verifyPassword (password : List UInt8) (now : Nat)
  | changePassword (current new : List UInt8) (params : KdfParams) (now : Nat)
  | removePassword (current : List UInt8) (now : Nat)
  | setPassword (password : List UInt8) (params : KdfParams) (remembered : Bool)
  | setRemember (remembered : Bool)
  | wait (now : Nat)
  | reopen
  | reset

/-- The operation without its result. -/
def perform (cipher : Cipher) (chance : Chance) : Operation → VaultOp Unit
  | .create password params => create cipher chance password params
  | .unlock password now => unlock cipher chance password now
  | .unlockWithKeyring => do
    let _ ← unlockWithKeyring cipher chance
    pure ()
  | .lock => lock
  | .insert kind data => do
    let _ ← insert cipher chance kind data
    pure ()
  | .replace id kind data => replace cipher chance id kind data
  | .remove ids => do
    let _ ← remove cipher chance ids
    pure ()
  | .retain keep => do
    let _ ← retain cipher chance keep
    pure ()
  | .verifyPassword password now => verifyPassword cipher chance password now
  | .changePassword current new params now => changePassword cipher chance current new params now
  | .removePassword current now => removePassword cipher chance current now
  | .setPassword password params remembered =>
    setPassword cipher chance password params remembered
  | .setRemember remembered => setRemember chance remembered
  | .wait now => do
    let _ ← wait chance now
    pure ()
  | .reopen => openVault chance
  | .reset => reset chance

/-- An operation, and what the world does meanwhile. -/
abbrev Event := Operation × Chance

def step (cipher : Cipher) (world : World) (event : Event) : Option World :=
  some (perform cipher event.2 event.1 world).2

/-- The keyring does not have the key of an open vault with a master password that says it
is not remembered. -/
def KeyringTold (world : World) : Prop :=
  ∀ vault, world.state = .unlocked vault → vault.header.holder.isPassword = true →
    vault.remembered = false → world.keyring vault.header.vaultId ≠ some vault.key.bytes

/-- What the operation needs for its failure to change nothing: no write fails once the new
file is in place, and where the key goes to the keyring before a write, the keyring had it
already or the write does not fail. -/
def NeedsBacking (cipher : Cipher) (world : World) (chance : Chance) : Operation → Prop
  | .create password _ =>
    (∀ id, chance.vaultId = some id → world.keyring id = none) ∧
      (password = none → chance.keyringSet = none →
        chance.keyringDelete = none ∨ CanWrite world chance [])
  | .unlock _ _ =>
    chance.keyringGet = none ∨ ∀ header file read, world.state = .locked header file →
      readHeader file = .ok read → world.keyring read.1.vaultId = none
  | .changePassword current new params now =>
    ∀ vault slot, world.state = .unlocked vault → vault.remembered = true →
      (verifyPassword cipher chance current now world).1 = .ok () →
      passwordSlot cipher chance.salt chance.slotNonce vault.header.vaultId vault.key new
        params = .ok slot →
      chance.keyringSet = none → Backed world chance vault
  | .removePassword current now =>
    ∀ vault, world.state = .unlocked vault →
      (verifyPassword cipher chance current now world).1 = .ok () →
      chance.keyringSet = none → Backed world chance vault
  | .setPassword password params remembered =>
    ∀ vault slot, world.state = .unlocked vault → remembered = true →
      passwordSlot cipher chance.salt chance.slotNonce vault.header.vaultId vault.key
        password params = .ok slot →
      chance.keyringSet = none → Backed world chance vault
  | _ => True

def Meets (cipher : Cipher) (world : World) (event : Event) : Prop :=
  NotLate world event.2 ∧ NeedsBacking cipher world event.2 event.1

/-- The operation sets a password without a copy of the key in the keyring. -/
def Forgets (world : World) : Operation → Prop
  | .changePassword _ _ _ _ => world.state.remembered = false
  | .setPassword _ _ remembered => remembered = false
  | _ => False

section Runs

variable {cipher : Cipher} {chance : Chance} {world : World}

variable {α : Type} {op : Operation} {params : KdfParams} {now : Nat}

theorem quiet_or_keeps {x : VaultOp α} (h : Keeps x world) :
    Keeps (do
      let _ ← x
      pure ()) world :=
  h.bind fun _ _ _ _ => done_ne_error _

theorem keeps_unlockWithKeyring : Keeps (unlockWithKeyring cipher chance) world := by
  refine quiet_state.keeps_bind fun found middle _ _ => ?_
  cases found.state with
  | unlocked vault => exact (quiet_done _).keeps _
  | missing => exact (quiet_done _).keeps _
  | unreadable => exact (quiet_done _).keeps _
  | locked header file =>
    refine (quiet_keyringGet chance _).keeps_bind fun stored _ _ _ => ?_
    cases stored with
    | none => exact (quiet_done _).keeps _
    | some stored =>
      refine (quiet_lift _).keeps_bind fun opened _ _ _ => ?_
      cases opened with
      | none => exact (quiet_done _).keeps _
      | some opened =>
        intro error after heq
        rcases Attempt.bind_eq_error_iff.mp heq with hset | ⟨_, _, _, hpure⟩
        · exact absurd hset (setState_ne_error _ _ _ _)
        · exact absurd hpure (done_ne_error _)

/-- A failed operation changes nothing, but for a copy in the keyring that could not be
deleted. -/
theorem run_fails (hmeets : Meets cipher world (op, chance)) (hreset : op ≠ .reset)
    {error : VaultError} {after : World}
    (h : perform cipher chance op world = (.error error, after)) :
    Kept world after ∨ Forgets world op ∧ OnlyDeleteFailed chance world after error := by
  obtain ⟨hlate, hneeds⟩ := hmeets
  cases op with
  | create password params =>
    exact Or.inl (keeps_create hlate password params hneeds.1 hneeds.2 error after h)
  | unlock password now => exact Or.inl (keeps_unlock password now error after h)
  | unlockWithKeyring =>
    exact Or.inl (quiet_or_keeps keeps_unlockWithKeyring error after h)
  | lock => cases h
  | insert kind data =>
    exact Or.inl (quiet_or_keeps (keeps_insert hlate kind data) error after h)
  | replace id kind data => exact Or.inl (keeps_replace hlate id kind data error after h)
  | remove ids => exact Or.inl (quiet_or_keeps (keeps_retain hlate _) error after h)
  | retain keep => exact Or.inl (quiet_or_keeps (keeps_retain hlate keep) error after h)
  | verifyPassword password now =>
    exact Or.inl ((quiet_verifyPassword cipher chance password now).kept h)
  | changePassword current new params now => exact changePassword_fails hlate hneeds h
  | removePassword current now =>
    exact Or.inl (keeps_removePassword hlate current now hneeds error after h)
  | setPassword password params remembered => exact setPassword_fails hlate hneeds h
  | setRemember remembered => exact Or.inl (keeps_setRemember remembered error after h)
  | wait now =>
    exact Or.inl (quiet_or_keeps ((quiet_wait chance now).keeps world) error after h)
  | reopen => cases h
  | reset => exact absurd rfl hreset

theorem told_of_kept {after : World} (h : KeyringTold world) (hkept : Kept world after) :
    KeyringTold after := by
  intro vault hstate hpassword hremembered
  rw [hkept.keyring]
  rw [hkept.state] at hstate
  exact h vault hstate hpassword hremembered

theorem told_of_became {after : World} {vault : Unlocked} {disk : Option (List UInt8)}
    {keyring : Keyring} (h : Became world after (.unlocked vault) disk keyring)
    (htold : vault.header.holder.isPassword = true → vault.remembered = false →
      keyring vault.header.vaultId ≠ some vault.key.bytes) : KeyringTold after := by
  intro found hstate hpassword hremembered
  rw [h.state] at hstate
  obtain rfl := State.unlocked.inj hstate
  rw [h.keyring]
  exact htold hpassword hremembered

theorem sealFile_header {nonce : Option Nonce} {header : Header} {key : Key} {entries : Entries}
    {sealed : Header × List UInt8} (h : sealFile cipher nonce header key entries = .ok sealed) :
    sealed.1.vaultId = header.vaultId ∧ sealed.1.holder = header.holder := by
  obtain ⟨bodyNonce, payload, -, hheader, -, -⟩ := sealFile_eq_ok.mp h
  rw [hheader]
  exact ⟨rfl, rfl⟩

theorem told_change {f : Entries → α × Entries} {a : α} {after : World} (htold : KeyringTold world)
    (h : change cipher chance f world = (.ok a, after)) : KeyringTold after := by
  obtain ⟨vault, sealed, hstate, -, hsealed, hbecame⟩ := change_eq_ok h
  obtain ⟨hid, hholder⟩ := sealFile_header hsealed
  refine told_of_became hbecame fun hpassword hremembered => ?_
  dsimp only at hpassword hremembered ⊢
  rw [hholder] at hpassword
  rw [hid]
  exact htold vault hstate hpassword hremembered

theorem told_retain {keep : Ulid → Bool} {count : Nat} {after : World}
    (htold : KeyringTold world)
    (h : retain cipher chance keep world = (.ok count, after)) : KeyringTold after := by
  rw [retain] at h
  obtain ⟨vault, middle, hvault, hretain⟩ := Attempt.bind_eq_ok_iff.mp h
  obtain ⟨-, rfl⟩ := unlocked_eq_ok.mp hvault
  split at hretain
  · obtain ⟨-, rfl⟩ := Prod.mk.inj hretain
    exact htold
  · exact told_change htold hretain

theorem told_setPassword {password : List UInt8} {remembered : Bool} {after : World}
    (h : setPassword cipher chance password params remembered world = (.ok (), after)) :
    KeyringTold after := by
  obtain ⟨vault, slot, sealed, -, -, hsealed, hbecame⟩ := setPassword_eq_ok h
  obtain ⟨hid, -⟩ := sealFile_header hsealed
  refine told_of_became hbecame fun _ hremembered => ?_
  dsimp only at hremembered ⊢
  rw [hid, hremembered, if_neg Bool.false_ne_true, Keyring.delete, if_pos rfl]
  exact some_ne_none _ |>.symm

theorem told_setRemember {remembered : Bool} {after : World}
    (h : setRemember chance remembered world = (.ok (), after)) : KeyringTold after := by
  obtain ⟨vault, -, -, hbecame⟩ := setRemember_eq_ok h
  refine told_of_became hbecame fun _ hremembered => ?_
  dsimp only at hremembered ⊢
  rw [hremembered, if_neg Bool.false_ne_true, Keyring.delete, if_pos rfl]
  exact some_ne_none _ |>.symm

theorem told_removePassword {current : List UInt8} {after : World}
    (h : removePassword cipher chance current now world = (.ok (), after)) : KeyringTold after := by
  obtain ⟨vault, sealed, -, hsealed, hbecame⟩ := removePassword_eq_ok h
  obtain ⟨-, hholder⟩ := sealFile_header hsealed
  refine told_of_became hbecame fun hpassword _ => ?_
  dsimp only at hpassword
  rw [hholder] at hpassword
  cases hpassword

theorem told_create {password : Option (List UInt8)} {after : World}
    (hfresh : ∀ id, chance.vaultId = some id → world.keyring id = none)
    (h : create cipher chance password params world = (.ok (), after)) : KeyringTold after := by
  obtain ⟨-, vaultId, key, holder, sealed, hid, hholder, hsealed, hbecame⟩ := create_eq_ok h
  obtain ⟨hvaultId, hsame⟩ := sealFile_header hsealed
  refine told_of_became hbecame fun hpassword _ => ?_
  dsimp only at hpassword ⊢
  rcases hholder with ⟨-, rfl⟩ | ⟨master, slot, hsome, -, -⟩
  · rw [hsame] at hpassword
    cases hpassword
  · rw [if_neg (by simp [hsome]), hvaultId, hfresh vaultId hid]
    exact some_ne_none _ |>.symm

theorem told_unlock {password : List UInt8} {after : World} (htold : KeyringTold world)
    (hget : chance.keyringGet = none ∨ ∀ header file read,
      world.state = .locked header file → readHeader file = .ok read →
        world.keyring read.1.vaultId = none)
    (h : unlock cipher chance password now world = (.ok (), after)) : KeyringTold after := by
  rcases unlock_eq_ok h with ⟨vault, -, rfl⟩ | ⟨header, file, key, read, seen, hstate, -, -,
    hopen, -, hseen, hbecame⟩
  · exact htold
  · refine told_of_became hbecame fun _ hunseen hheld => ?_
    dsimp only at hunseen hheld
    rcases hget with hget | hnone
    · rw [hseen hget hheld] at hunseen
      cases hunseen
    · obtain ⟨body, payload, hfile, hbody, hvalid, -, -⟩ := openFile_eq_ok.mp hopen
      have hread := readHeader_eq_ok.mpr ⟨body, hfile, hbody, rfl, hvalid⟩
      rw [hnone header file _ hstate hread] at hheld
      cases hheld

theorem told_unlockWithKeyring {opened : Bool} {after : World} (htold : KeyringTold world)
    (h : unlockWithKeyring cipher chance world = (.ok opened, after)) :
    KeyringTold after := by
  cases opened with
  | true =>
    rcases unlockWithKeyring_eq_true h with ⟨vault, -, rfl⟩ | ⟨header, file, key, read, -, -,
      -, hbecame⟩
    · exact htold
    · refine told_of_became hbecame fun hpassword hunseen => ?_
      dsimp only at hpassword hunseen
      rw [hpassword] at hunseen
      cases hunseen
  | false => exact told_of_kept htold (unlockWithKeyring_eq_false h)

theorem told_of_not_unlocked {after : World} (h : ∀ vault, after.state ≠ .unlocked vault) :
    KeyringTold after := fun vault hstate => absurd hstate (h vault)

theorem succeeded_ne_error {error : VaultError} {after : World} :
    succeeded chance world ≠ (.error error, after) := by
  intro h
  obtain ⟨found, middle, -, hsave⟩ := (Attempt.bind_eq_error_iff.mp h).resolve_left
    fun heq => nomatch (Prod.mk.inj heq).1
  split at hsave
  · exact done_ne_error _ hsave
  · exact nomatch (Prod.mk.inj hsave).1

theorem told_lock (htold : KeyringTold world) {after : World}
    (h : lock world = (.ok (), after)) : KeyringTold after := by
  obtain ⟨-, rfl⟩ := Prod.mk.inj h
  dsimp only
  cases hstate : world.state with
  | unlocked vault => exact told_of_not_unlocked fun _ heq => nomatch heq
  | _ => exact htold

theorem stateOf_ne_unlocked (disk : Option (List UInt8)) (vault : Unlocked) :
    stateOf chance disk ≠ .unlocked vault := by
  intro h
  rw [stateOf.eq_def] at h
  cases disk with
  | none => cases h
  | some file =>
    dsimp only at h
    split at h
    · cases h
    · split at h <;> cases h

theorem told_openVault (world : World) {after : World}
    (h : openVault chance world = (.ok (), after)) : KeyringTold after := by
  obtain ⟨-, rfl⟩ := Prod.mk.inj h
  refine told_of_not_unlocked fun vault => ?_
  dsimp only
  split
  · exact stateOf_ne_unlocked _ vault
  · exact fun heq => nomatch heq

theorem deleteEntry_shrinks : ∃ after, deleteEntry chance world = (.ok (), after) ∧
    after.state = world.state ∧
      ∀ id, after.keyring id = none ∨ after.keyring id = world.keyring id := by
  have hworld : (Attempt.state : VaultOp World) world = (.ok world, world) := rfl
  rw [deleteEntry, Attempt.bind_of_ok hworld]
  cases hheader : world.state.header with
  | none => exact ⟨world, rfl, rfl, fun _ => Or.inr rfl⟩
  | some header =>
    refine ⟨(keyringDelete chance header.vaultId world).2, rfl, ?_⟩
    rw [keyringDelete_snd]
    split
    · refine ⟨rfl, fun id => ?_⟩
      dsimp only
      rw [Keyring.delete]
      split
      · exact Or.inl rfl
      · exact Or.inr rfl
    · exact ⟨rfl, fun _ => Or.inr rfl⟩

theorem told_reset {result : Except VaultError Unit} {after : World}
    (htold : KeyringTold world) (h : reset chance world = (result, after)) :
    KeyringTold after := by
  obtain ⟨shrunk, hdelete, hstate, hkeyring⟩ := @deleteEntry_shrinks chance world
  have hreset : reset chance world =
      (do
        if world.onDisk && !chance.removable then Attempt.fail .write
        else do
          Attempt.modify fun world => { world with disk := none }
          succeeded chance
          setState .missing : VaultOp Unit) shrunk := by
    change (deleteEntry chance >>= _) world = _
    rw [Attempt.bind_of_ok hdelete]
  rw [hreset] at h
  split at h
  · obtain ⟨-, rfl⟩ := Prod.mk.inj h
    intro vault hopen hpassword hremembered
    rw [hstate] at hopen
    rcases hkeyring vault.header.vaultId with hnone | hsame
    · rw [hnone]
      exact some_ne_none _ |>.symm
    · rw [hsame]
      exact htold vault hopen hpassword hremembered
  · refine told_of_not_unlocked fun vault hopen => ?_
    cases result with
    | ok done =>
      obtain ⟨⟨⟩, removed, -, hrest⟩ := Attempt.bind_eq_ok_iff.mp h
      obtain ⟨⟨⟩, cleared, -, hset⟩ := Attempt.bind_eq_ok_iff.mp hrest
      obtain rfl := setState_eq_ok.mp hset
      cases hopen
    | error error =>
      obtain ⟨⟨⟩, removed, -, hrest⟩ := (Attempt.bind_eq_error_iff.mp h).resolve_left
        fun heq => nomatch (Prod.mk.inj heq).1
      obtain ⟨⟨⟩, cleared, -, hset⟩ := (Attempt.bind_eq_error_iff.mp hrest).resolve_left
        succeeded_ne_error
      exact absurd hset (setState_ne_error _ _ _ _)

theorem told_perform (hmeets : Meets cipher world (op, chance)) (htold : KeyringTold world) :
    KeyringTold (perform cipher chance op world).2 := by
  cases hrun : perform cipher chance op world with
  | mk result after =>
    by_cases hreset : op = .reset
    · rw [hreset] at hrun
      exact told_reset htold hrun
    cases result with
    | error error =>
      rcases run_fails hmeets hreset hrun with hkept | ⟨-, hdelete⟩
      · exact told_of_kept htold hkept
      · obtain ⟨vault, reported, store, -, -, hstate, hremembered, -⟩ := hdelete
        intro found hfound _ hfalse
        rw [hstate] at hfound
        obtain rfl := State.unlocked.inj hfound
        rw [hremembered] at hfalse
        cases hfalse
    | ok done =>
      obtain ⟨-, hneeds⟩ := hmeets
      cases op with
      | create password params => exact told_create hneeds.1 hrun
      | unlock password now => exact told_unlock htold hneeds hrun
      | unlockWithKeyring =>
        obtain ⟨opened, middle, hopened, hpure⟩ := Attempt.bind_eq_ok_iff.mp hrun
        obtain ⟨-, rfl⟩ := Prod.mk.inj hpure
        exact told_unlockWithKeyring htold hopened
      | lock => exact told_lock htold hrun
      | insert kind data =>
        obtain ⟨id, middle, hinsert, hpure⟩ := Attempt.bind_eq_ok_iff.mp hrun
        obtain ⟨-, rfl⟩ := Prod.mk.inj hpure
        rw [insert] at hinsert
        split at hinsert
        · cases hinsert
        · exact told_change htold hinsert
      | replace id kind data =>
        rw [perform, replace] at hrun
        split at hrun
        · cases hrun
        · exact told_change htold hrun
      | remove ids =>
        obtain ⟨count, middle, hretain, hpure⟩ := Attempt.bind_eq_ok_iff.mp hrun
        obtain ⟨-, rfl⟩ := Prod.mk.inj hpure
        exact told_retain htold hretain
      | retain keep =>
        obtain ⟨count, middle, hretain, hpure⟩ := Attempt.bind_eq_ok_iff.mp hrun
        obtain ⟨-, rfl⟩ := Prod.mk.inj hpure
        exact told_retain htold hretain
      | verifyPassword password now =>
        exact told_of_kept htold ((quiet_verifyPassword cipher chance password now).kept hrun)
      | changePassword current new params now =>
        obtain ⟨⟨⟩, middle, -, hchange⟩ := Attempt.bind_eq_ok_iff.mp hrun
        exact told_setPassword hchange
      | removePassword current now => exact told_removePassword hrun
      | setPassword password params remembered => exact told_setPassword hrun
      | setRemember remembered => exact told_setRemember hrun
      | wait now =>
        obtain ⟨pause, middle, hwait, hpure⟩ := Attempt.bind_eq_ok_iff.mp hrun
        obtain ⟨-, rfl⟩ := Prod.mk.inj hpure
        exact told_of_kept htold ((quiet_wait chance now).kept hwait)
      | reopen => exact told_openVault world hrun
      | reset => exact absurd rfl hreset

/-- In a run whose operations all meet the condition, the keyring never has the key of an
open vault that says it is not remembered, and an operation that fails changed nothing. -/
theorem run_keeps {old world : World} {opening : Chance} {events : List Event}
    (hrun : GoodRun (step cipher) (Meets cipher) (openVault opening old).2 events world) :
    KeyringTold world ∧ ∀ op chance error after, op ≠ .reset →
      Meets cipher world (op, chance) →
      perform cipher chance op world = (.error error, after) →
      Kept world after ∨ Forgets world op ∧ OnlyDeleteFailed chance world after error := by
  refine ⟨?_, fun op chance error after hreset hmeets h => run_fails hmeets hreset h⟩
  refine hrun.invariant (fun htold hgood hstep => ?_) (told_openVault old rfl)
  rw [← Option.some.inj hstep]
  exact told_perform hgood htold

end Runs

namespace RunWitness

/-- Sealing that adds a tag of zeros, and one derived key for every password. -/
def plainCipher : Cipher where
  encrypt := fun _ _ _ plain => plain ++ List.replicate tagLen 0
  decrypt := fun _ _ _ text => some (text.take (text.length - tagLen))
  argon2 := fun _ _ _ => zeroBlock keyLen

def costs : KdfParams := ⟨64, 1, 1⟩

def master : List UInt8 := [0x70, 0x77]

theorem length_sevens : (List.replicate 32 7 : List UInt8).length = 32 := by decide

/-- Nothing fails. -/
def lucky : Chance where
  vaultId := some (zeroBlock 16)
  key := some ⟨List.replicate 32 7, length_sevens⟩
  salt := some (zeroBlock saltLen)
  slotNonce := some (zeroBlock nonceLen)
  bodyNonce := some (zeroBlock nonceLen)
  secretId := RoundTripWitness.id
  keyringGet := none
  keyringSet := none
  keyringDelete := none
  write := .whole
  readable := true
  removable := true
  attemptsKept := true

/-- The file cannot be written. -/
def unlucky : Chance := { lucky with write := .failedBefore }

def empty : World := ⟨true, .missing, ⟨0, 0⟩, none, ⟨0, 0⟩, fun _ => none⟩

/-- A new vault with a master password. -/
def created : World := (perform plainCipher lucky (.create (some master) costs) empty).2

theorem created_keeps : KeyringTold created ∧ ∀ op chance error after, op ≠ .reset →
    Meets plainCipher created (op, chance) →
    perform plainCipher chance op created = (.error error, after) →
    Kept created after ∨ Forgets created op ∧ OnlyDeleteFailed chance created after error := by
  have hrun : GoodRun (step plainCipher) (Meets plainCipher) (openVault lucky empty).2
      [(.create (some master) costs, lucky)] created :=
    .cons ⟨Or.inr (by decide), fun _ _ => rfl, fun h => nomatch h⟩ rfl (.nil _)
  exact run_keeps hrun

/-- The keyring gets the key of a vault that keeps its master password and says it is not
remembered, when the file cannot be written. -/
theorem created_removePassword :
    (perform plainCipher unlucky (.removePassword master 0) created).1 = .error .write ∧
    created.keyring (zeroBlock 16) = none ∧
    (perform plainCipher unlucky (.removePassword master 0) created).2.keyring
      (zeroBlock 16) = some (List.replicate 32 7) ∧
    (perform plainCipher unlucky (.removePassword master 0) created).2.state.remembered = false ∧
    (perform plainCipher unlucky (.removePassword master 0) created).2.state.header.map
      (fun header => header.holder.isPassword) = some true := by
  exact ⟨rfl, rfl, rfl, rfl, rfl⟩

end RunWitness

end Opensesh.Vault
