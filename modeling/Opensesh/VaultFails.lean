/-
What a failed operation of the vault leaves behind: the file, the keyring and the secrets
in memory as they were, as long as the keyring is not written before a write that fails.
-/
import Opensesh.Vault
import Opensesh.Machine
import Opensesh.VaultRoundTrip

namespace Opensesh.Vault

/-- The file, the keyring and the secrets in memory are what they were. -/
structure Kept (before after : World) : Prop where
  onDisk : after.onDisk = before.onDisk
  disk : after.disk = before.disk
  keyring : after.keyring = before.keyring
  state : after.state = before.state

theorem Kept.rfl {world : World} : Kept world world := ⟨Eq.refl _, Eq.refl _, Eq.refl _, Eq.refl _⟩

theorem Kept.trans {first second third : World} (h : Kept first second)
    (h' : Kept second third) : Kept first third :=
  ⟨h'.onDisk.trans h.onDisk, h'.disk.trans h.disk, h'.keyring.trans h.keyring,
    h'.state.trans h.state⟩

/-- However the operation ends, it changes no more than the waits. -/
def Quiet {α : Type} (x : VaultOp α) : Prop := ∀ world, Kept world (x world).2

/-- When the operation fails, it changed no more than the waits. -/
def Keeps {α : Type} (x : VaultOp α) (world : World) : Prop :=
  ∀ error after, x world = (.error error, after) → Kept world after

section Rules

variable {α β : Type} {x : VaultOp α} {f : α → VaultOp β} {world : World}

theorem Quiet.keeps (h : Quiet x) (world : World) : Keeps x world := by
  intro error after heq
  have hkept := h world
  rwa [heq] at hkept

theorem quiet_done (a : α) : Quiet (pure a : VaultOp α) := fun _ => Kept.rfl

theorem quiet_fail (error : VaultError) : Quiet (Attempt.fail error : VaultOp α) :=
  fun _ => Kept.rfl

theorem quiet_lift (result : Except VaultError α) : Quiet (Attempt.lift result) := fun _ => Kept.rfl

theorem quiet_state : Quiet (Attempt.state : VaultOp World) := fun _ => Kept.rfl

theorem done_ne_error (a : α) {error : VaultError} {after : World} :
    (pure a : VaultOp α) world ≠ (.error error, after) :=
  fun h => nomatch (Prod.mk.inj h).1

theorem Quiet.bind (hx : Quiet x) (hf : ∀ a, Quiet (f a)) : Quiet (x >>= f) := by
  intro world
  have hkept := hx world
  change Kept world (Attempt.andThen x f world).2
  rw [Attempt.andThen]
  cases heq : x world with
  | mk result middle =>
    rw [heq] at hkept
    cases result with
    | error error => exact hkept
    | ok a => exact hkept.trans (hf a middle)

theorem Quiet.attempt (hx : Quiet x) : Quiet x.attempt := fun world => hx world

/-- A step that changes nothing may come before one that fails. -/
theorem Quiet.keeps_bind (hx : Quiet x)
    (hf : ∀ a middle, x world = (.ok a, middle) → Kept world middle → Keeps (f a) middle) :
    Keeps (x >>= f) world := by
  intro error after heq
  have hkept := hx world
  rcases Attempt.bind_eq_error_iff.mp heq with h | ⟨a, middle, h, hrest⟩
  · rwa [h] at hkept
  · rw [h] at hkept
    exact hkept.trans (hf a middle h hkept error after hrest)

/-- A step that fails without change, before steps that never fail. -/
theorem Keeps.bind (hx : Keeps x world)
    (hf : ∀ a middle error after, f a middle ≠ (.error error, after)) :
    Keeps (x >>= f) world := by
  intro error after heq
  rcases Attempt.bind_eq_error_iff.mp heq with h | ⟨a, middle, -, hrest⟩
  · exact hx error after h
  · exact absurd hrest (hf a middle error after)

end Rules

theorem quiet_saveBackoff (chance : Chance) (backoff : Backoff) :
    Quiet (saveBackoff chance backoff) := fun _ => ⟨rfl, rfl, rfl, rfl⟩

theorem quiet_wait (chance : Chance) (now : Nat) : Quiet (wait chance now) := by
  refine quiet_state.bind fun world => ?_
  dsimp only
  split
  · exact quiet_done _
  · split
    · exact (quiet_saveBackoff _ _).bind fun _ => quiet_done _
    · exact quiet_done _

theorem quiet_failed (chance : Chance) (now : Nat) : Quiet (failed chance now) :=
  quiet_state.bind fun _ => quiet_saveBackoff _ _

theorem quiet_succeeded (chance : Chance) : Quiet (succeeded chance) := by
  refine quiet_state.bind fun world => ?_
  split
  · exact quiet_done _
  · exact quiet_saveBackoff _ _

theorem quiet_unlocked : Quiet unlocked := by
  refine quiet_state.bind fun world => ?_
  cases world.state with
  | unlocked vault => exact quiet_done _
  | _ => exact quiet_fail _

theorem quiet_keyringGet (chance : Chance) (id : Block 16) : Quiet (keyringGet chance id) := by
  intro world
  rw [keyringGet]
  split <;> exact Kept.rfl

theorem quiet_seenInKeyring (chance : Chance) (id : Block 16) (key : Key) :
    Quiet (seenInKeyring chance id key) := by
  refine (quiet_keyringGet chance id).attempt.bind fun stored => ?_
  split <;> exact quiet_done _

theorem quiet_tryPassword (cipher : Cipher) (chance : Chance) (password : List UInt8)
    (now : Nat) : Quiet (tryPassword cipher chance password now) := by
  refine quiet_state.bind fun world => ?_
  split
  · exact quiet_fail _
  · split
    · exact quiet_fail _
    · refine (quiet_wait chance now).bind fun pause => ?_
      split
      · exact quiet_fail _
      · split
        · exact (quiet_succeeded chance).bind fun _ => quiet_done _
        · exact (quiet_failed chance now).bind fun _ =>
            (quiet_wait chance now).bind fun _ => quiet_fail _
        · exact quiet_fail _

theorem quiet_verifyPassword (cipher : Cipher) (chance : Chance) (password : List UInt8)
    (now : Nat) : Quiet (verifyPassword cipher chance password now) := by
  refine quiet_unlocked.bind fun vault =>
    (quiet_tryPassword cipher chance password now).bind fun key => ?_
  split
  · exact quiet_done _
  · exact quiet_fail _

/-- The world with this file written. -/
def World.written (world : World) (file : List UInt8) : World :=
  if world.onDisk = false then world else { world with disk := some file }

@[simp] theorem written_keyring (world : World) (file : List UInt8) :
    (world.written file).keyring = world.keyring := by
  rw [World.written]
  split <;> rfl

@[simp] theorem written_onDisk (world : World) (file : List UInt8) :
    (world.written file).onDisk = world.onDisk := by
  rw [World.written]
  split <;> rfl

/-- The write does not fail once the new file is in place. -/
def NotLate (world : World) (chance : Chance) : Prop :=
  world.onDisk = false ∨ chance.write ≠ .failedAfter

variable {chance : Chance}

theorem writeFile_eq_ok {file : List UInt8} {world after : World} :
    writeFile chance file world = (.ok (), after) ↔
      (world.onDisk = false ∨ chance.write = .whole) ∧ after = world.written file := by
  rw [writeFile, World.written]
  by_cases hdisk : world.onDisk = false
  · rw [if_pos hdisk, if_pos hdisk]
    simp [hdisk, eq_comm]
  · rw [if_neg hdisk, if_neg hdisk]
    cases hwrite : chance.write <;> simp [hdisk, eq_comm]

theorem keeps_writeFile {world : World} (h : NotLate world chance) (file : List UInt8) :
    Keeps (writeFile chance file) world := by
  intro error after heq
  rw [writeFile] at heq
  split at heq
  · cases heq
  · rename_i hdisk
    split at heq
    · cases heq
    · obtain ⟨-, rfl⟩ := Prod.mk.inj heq
      exact Kept.rfl
    · rename_i hlate
      exact absurd hlate (h.resolve_left hdisk)

section Operations

variable {cipher : Cipher} {chance : Chance} {world : World}

variable {entries : Entries} {α : Type} {secret : List UInt8} {vault : Unlocked}
  {params : KdfParams} {middle : World}

theorem write_eq_ok {header : Header} {key : Key} {sealed : Header × List UInt8} {after : World} :
    write cipher chance header key entries world = (.ok sealed, after) ↔
      sealFile cipher chance.bodyNonce header key entries = .ok sealed ∧
        (world.onDisk = false ∨ chance.write = .whole) ∧ after = world.written sealed.2 := by
  rw [write, Attempt.bind_eq_ok_iff]
  constructor
  · rintro ⟨found, middle, hfound, h⟩
    obtain ⟨hsealed, rfl⟩ := Prod.mk.inj hfound
    obtain ⟨⟨⟩, written, hwritten, h⟩ := Attempt.bind_eq_ok_iff.mp h
    obtain ⟨hsame, rfl⟩ := Prod.mk.inj h
    obtain rfl := Except.ok.inj hsame
    exact ⟨hsealed, writeFile_eq_ok.mp hwritten⟩
  · rintro ⟨hsealed, hwritten⟩
    refine ⟨sealed, world, Prod.ext hsealed rfl, ?_⟩
    exact Attempt.bind_eq_ok_iff.mpr ⟨(), after, writeFile_eq_ok.mpr hwritten, rfl⟩

theorem keeps_write (h : NotLate world chance) (header : Header) (key : Key)
    (entries : Entries) : Keeps (write cipher chance header key entries) world := by
  refine (quiet_lift _).keeps_bind fun sealed middle hsealed _ => ?_
  obtain ⟨-, rfl⟩ := Prod.mk.inj hsealed
  exact (keeps_writeFile h _).bind fun _ _ _ _ => done_ne_error _

theorem setState_ne_error (state : State) (world : World) (error : VaultError)
    (after : World) : setState state world ≠ (.error error, after) :=
  fun h => nomatch (Prod.mk.inj h).1

theorem keeps_change (h : NotLate world chance) (f : Entries → α × Entries) :
    Keeps (change cipher chance f) world := by
  refine quiet_unlocked.keeps_bind fun vault middle _ hkept => ?_
  have hlate : NotLate middle chance := by
    rw [NotLate, hkept.onDisk]
    exact h
  refine (keeps_write hlate _ _ _).bind fun sealed after error last heq => ?_
  rcases Attempt.bind_eq_error_iff.mp heq with hset | ⟨_, _, _, hpure⟩
  · exact setState_ne_error _ _ _ _ hset
  · exact done_ne_error _ hpure

theorem keeps_insert (h : NotLate world chance) (kind : SecretKind) (data : List UInt8) :
    Keeps (insert cipher chance kind data) world := by
  rw [insert]
  split
  · exact (quiet_fail _).keeps world
  · exact keeps_change h _

theorem keeps_replace (h : NotLate world chance) (id : Ulid) (kind : SecretKind)
    (data : List UInt8) : Keeps (replace cipher chance id kind data) world := by
  rw [replace]
  split
  · exact (quiet_fail _).keeps world
  · exact keeps_change h _

theorem keeps_retain (h : NotLate world chance) (keep : Ulid → Bool) :
    Keeps (retain cipher chance keep) world := by
  refine quiet_unlocked.keeps_bind fun vault middle _ hkept => ?_
  dsimp only
  split
  · exact (quiet_done _).keeps middle
  · refine keeps_change ?_ _
    rw [NotLate, hkept.onDisk]
    exact h

theorem keyringSet_eq_ok {id : Block 16} {after : World} :
    keyringSet chance id secret world = (.ok (), after) ↔
      chance.keyringSet = none ∧ after = { world with keyring := world.keyring.set id secret } := by
  rw [keyringSet]
  cases chance.keyringSet <;> simp [eq_comm]

theorem keyringDelete_eq_ok {id : Block 16} {after : World} :
    keyringDelete chance id world = (.ok (), after) ↔
      chance.keyringDelete = none ∧ after = { world with keyring := world.keyring.delete id } := by
  rw [keyringDelete]
  cases chance.keyringDelete <;> simp [eq_comm]

/-- A deletion that is tried leaves the keyring alone when it fails. -/
theorem attempt_keyringDelete_error {id : Block 16} {error : VaultError} {after : World}
    (h : (keyringDelete chance id).attempt world = (.ok (.error error), after)) :
    ∃ store, chance.keyringDelete = some store ∧ error = .keyring store ∧ after = world := by
  rw [Attempt.attempt, keyringDelete] at h
  cases hchance : chance.keyringDelete with
  | none =>
    rw [hchance] at h
    cases h
  | some store =>
    rw [hchance] at h
    obtain ⟨herror, rfl⟩ := Prod.mk.inj h
    exact ⟨store, rfl, (Except.error.inj (Except.ok.inj herror)).symm, rfl⟩

theorem keyringDelete_snd (id : Block 16) (world : World) :
    (keyringDelete chance id world).2 =
      if chance.keyringDelete = none then
        { world with keyring := world.keyring.delete id }
      else world := by
  rw [keyringDelete]
  cases chance.keyringDelete <;> rfl

theorem keeps_keyringSet (id : Block 16) (secret : List UInt8) :
    Keeps (keyringSet chance id secret) world := by
  intro error after heq
  rw [keyringSet] at heq
  split at heq
  · obtain ⟨-, rfl⟩ := Prod.mk.inj heq
    exact Kept.rfl
  · cases heq

theorem keeps_keyringDelete (id : Block 16) : Keeps (keyringDelete chance id) world := by
  intro error after heq
  rw [keyringDelete] at heq
  split at heq
  · obtain ⟨-, rfl⟩ := Prod.mk.inj heq
    exact Kept.rfl
  · cases heq

/-- Setting what the keyring holds already. -/
theorem kept_of_keyringSet {id : Block 16} {after : World} (hheld : world.keyring id = some secret)
    (h : keyringSet chance id secret world = (.ok (), after)) : Kept world after := by
  obtain ⟨-, rfl⟩ := keyringSet_eq_ok.mp h
  refine ⟨rfl, rfl, ?_, rfl⟩
  funext name
  dsimp only
  rw [Keyring.set]
  split
  · rename_i heq
    rw [heq, hheld]
  · rfl

/-- Sealing these secrets and writing the file both succeed. -/
def CanWrite (world : World) (chance : Chance) (entries : Entries) : Prop :=
  (world.onDisk = false ∨ chance.write = .whole) ∧ chance.bodyNonce.isSome ∧
    ∃ payload, encodePayload entries = .ok payload

theorem write_ne_error (h : CanWrite world chance entries) (header : Header) (key : Key)
    {error : VaultError} {after : World} :
    write cipher chance header key entries world ≠ (.error error, after) := by
  obtain ⟨hwhole, hnonce, payload, hpayload⟩ := h
  obtain ⟨nonce, hnonce⟩ := Option.isSome_iff_exists.mp hnonce
  obtain ⟨sealed, hsealed⟩ : ∃ sealed,
      sealFile cipher chance.bodyNonce header key entries = .ok sealed :=
    ⟨(_, _), sealFile_eq_ok.mpr ⟨nonce, payload, hnonce, rfl, hpayload, rfl⟩⟩
  have hwrite := write_eq_ok.mpr ⟨hsealed, hwhole, rfl⟩
  intro herror
  rw [hwrite] at herror
  exact nomatch (Prod.mk.inj herror).1

/-- A write after the key went to the keyring leaves no trace when it fails: the keyring
had the key before, or the write cannot fail. -/
def Backed (world : World) (chance : Chance) (vault : Unlocked) : Prop :=
  world.keyring vault.header.vaultId = some vault.key.bytes ∨ CanWrite world chance vault.entries

theorem keeps_setThenWrite (hlate : NotLate world chance)
    (hbacked : chance.keyringSet = none → Backed world chance vault) (header : Header)
    {rest : Header × List UInt8 → VaultOp α}
    (hrest : ∀ sealed middle error after, rest sealed middle ≠ (.error error, after)) :
    Keeps (do
      keyringSet chance vault.header.vaultId vault.key.bytes
      let sealed ← write cipher chance header vault.key vault.entries
      rest sealed) world := by
  intro error after heq
  rcases Attempt.bind_eq_error_iff.mp heq with h | ⟨⟨⟩, middle, hset, h⟩
  · exact keeps_keyringSet _ _ error after h
  · obtain ⟨hnone, hmiddle⟩ := keyringSet_eq_ok.mp hset
    rcases hbacked hnone with hheld | hcan
    · have hkept := kept_of_keyringSet hheld hset
      have hlate : NotLate middle chance := by
        rw [NotLate, hkept.onDisk]
        exact hlate
      exact hkept.trans ((keeps_write hlate _ _ _).bind hrest error after h)
    · have hcan : CanWrite middle chance vault.entries := by
        rw [hmiddle]
        exact hcan
      rcases Attempt.bind_eq_error_iff.mp h with hwrite | ⟨sealed, last, -, hlast⟩
      · exact absurd hwrite (write_ne_error hcan _ _)
      · exact absurd hlast (hrest sealed last error after)

/-- Only deleting the old copy in the keyring failed: the password is set, and the vault
reports itself as remembered. -/
def OnlyDeleteFailed (chance : Chance) (before after : World) (error : VaultError) : Prop :=
  ∃ vault reported store, chance.keyringDelete = some store ∧ before.state = .unlocked vault ∧
    after.state = .unlocked reported ∧ reported.remembered = true ∧
    reported.entries = vault.entries ∧ after.keyring = before.keyring ∧
    error = .keyring store

theorem unlocked_eq_ok {after : World} :
    unlocked world = (.ok vault, after) ↔ world.state = .unlocked vault ∧ after = world := by
  have hworld : (Attempt.state : VaultOp World) world = (.ok world, world) := rfl
  rw [unlocked, Attempt.bind_of_ok hworld]
  cases hstate : world.state with
  | unlocked found =>
    change ((.ok found, world) : Except VaultError Unlocked × World) = _ ↔ _
    simp [eq_comm]
  | _ => simp [Attempt.fail]

theorem setPassword_fails (hlate : NotLate world chance) {password : List UInt8} {remembered : Bool}
    (hbacked : ∀ vault slot, world.state = .unlocked vault → remembered = true →
    passwordSlot cipher chance.salt chance.slotNonce vault.header.vaultId vault.key
    password params = .ok slot → chance.keyringSet = none → Backed world chance vault)
    {error : VaultError} {after : World}
    (h : setPassword cipher chance password params remembered world = (.error error, after)) :
    Kept world after ∨ remembered = false ∧ OnlyDeleteFailed chance world after error := by
  rw [setPassword] at h
  rcases Attempt.bind_eq_error_iff.mp h with hfirst | ⟨vault, middle, hvault, hopen⟩
  · exact Or.inl (quiet_unlocked.keeps world error after hfirst)
  obtain ⟨hstate, hsame⟩ := unlocked_eq_ok.mp hvault
  rw [hsame] at hopen
  rcases Attempt.bind_eq_error_iff.mp hopen with hslotted | ⟨slot, middle, hslotted, hsealed⟩
  · exact Or.inl ((quiet_lift _).keeps _ error after hslotted)
  obtain ⟨hslot, rfl⟩ := Prod.mk.inj hslotted
  cases remembered with
  | true =>
    refine Or.inl (keeps_setThenWrite hlate (hbacked vault slot hstate rfl hslot) _ ?_ error
      after hsealed)
    intro sealed middle error after heq
    obtain ⟨forgotten, last, hforgotten, hset⟩ :=
      (Attempt.bind_eq_error_iff.mp heq).resolve_left (done_ne_error _)
    obtain ⟨hok, rfl⟩ := Prod.mk.inj hforgotten
    obtain rfl := Except.ok.inj hok
    exact setState_ne_error _ _ _ _ hset
  | false =>
    obtain ⟨⟨⟩, middle, hpure, hwritten⟩ :=
      (Attempt.bind_eq_error_iff.mp hsealed).resolve_left (done_ne_error _)
    obtain ⟨-, rfl⟩ := Prod.mk.inj hpure
    rcases Attempt.bind_eq_error_iff.mp hwritten with hwrite | ⟨sealed, last, hwrite, hend⟩
    · exact Or.inl (keeps_write hlate _ _ _ error after hwrite)
    obtain ⟨-, -, rfl⟩ := write_eq_ok.mp hwrite
    obtain ⟨forgotten, last, hforgotten, hset⟩ :=
      (Attempt.bind_eq_error_iff.mp hend).resolve_left fun heq => nomatch (Prod.mk.inj heq).1
    cases forgotten with
    | ok done => exact absurd hset (setState_ne_error _ _ _ _)
    | error store =>
      obtain ⟨cause, hcause, rfl, rfl⟩ := attempt_keyringDelete_error hforgotten
      obtain ⟨⟨⟩, last, hstored, hfail⟩ := (Attempt.bind_eq_error_iff.mp hset).resolve_left
        (setState_ne_error _ _ _ _)
      obtain ⟨-, rfl⟩ := Prod.mk.inj hstored
      obtain ⟨herror, rfl⟩ := Prod.mk.inj hfail
      refine Or.inr ⟨rfl, vault, _, cause, hcause, hstate, rfl, rfl, rfl, ?_,
        (Except.error.inj herror).symm⟩
      exact written_keyring _ _

theorem Backed.of_kept (hkept : Kept world middle) (h : Backed world chance vault) :
    Backed middle chance vault := by
  rw [Backed, CanWrite, hkept.keyring, hkept.onDisk]
  exact h

theorem NotLate.of_kept (hkept : Kept world middle) (h : NotLate world chance) :
    NotLate middle chance := by
  rw [NotLate, hkept.onDisk]
  exact h

theorem OnlyDeleteFailed.of_kept {after : World} {error : VaultError} (hkept : Kept world middle)
    (h : OnlyDeleteFailed chance middle after error) :
    OnlyDeleteFailed chance world after error := by
  obtain ⟨vault, reported, store, hstore, hstate, hafter⟩ := h
  rw [hkept.state] at hstate
  rw [hkept.keyring] at hafter
  exact ⟨vault, reported, store, hstore, hstate, hafter⟩

theorem changePassword_fails (hlate : NotLate world chance) {current new : List UInt8} {now : Nat}
    (hbacked : ∀ vault slot, world.state = .unlocked vault → vault.remembered = true →
    (verifyPassword cipher chance current now world).1 = .ok () →
    passwordSlot cipher chance.salt chance.slotNonce vault.header.vaultId vault.key new params =
    .ok slot → chance.keyringSet = none → Backed world chance vault) {error : VaultError}
    {after : World}
    (h : changePassword cipher chance current new params now world = (.error error, after)) :
    Kept world after ∨
      world.state.remembered = false ∧ OnlyDeleteFailed chance world after error := by
  have hverify := quiet_verifyPassword cipher chance current now world
  rw [changePassword] at h
  rcases Attempt.bind_eq_error_iff.mp h with hfirst | ⟨⟨⟩, middle, hverified, hchange⟩
  · rw [hfirst] at hverify
    exact Or.inl hverify
  rw [hverified] at hverify
  dsimp only at hverify
  change setPassword cipher chance new params middle.state.remembered middle =
    (.error error, after) at hchange
  have hset := setPassword_fails (hlate.of_kept hverify) ?_ hchange
  · rcases hset with hkept | ⟨hremembered, hdelete⟩
    · exact Or.inl (hverify.trans hkept)
    · rw [hverify.state] at hremembered
      exact Or.inr ⟨hremembered, hdelete.of_kept hverify⟩
  · intro vault slot hvault hremembered hslot hnone
    rw [hverify.state] at hvault hremembered
    rw [hvault] at hremembered
    exact (hbacked vault slot hvault hremembered (congrArg Prod.fst hverified) hslot
      hnone).of_kept hverify

theorem keeps_removePassword (hlate : NotLate world chance) (current : List UInt8) (now : Nat)
    (hbacked : ∀ vault, world.state = .unlocked vault →
      (verifyPassword cipher chance current now world).1 = .ok () →
      chance.keyringSet = none → Backed world chance vault) :
    Keeps (removePassword cipher chance current now) world := by
  refine (quiet_verifyPassword cipher chance current now).keeps_bind
    fun _ middle hverified hverify => ?_
  refine quiet_unlocked.keeps_bind fun vault last hvault hkept => ?_
  obtain ⟨hstate, hsame⟩ := unlocked_eq_ok.mp hvault
  rw [hsame]
  rw [hverify.state] at hstate
  refine keeps_setThenWrite (hlate.of_kept hverify)
    (fun hnone => (hbacked vault hstate (congrArg Prod.fst hverified) hnone).of_kept hverify)
    _ ?_
  exact fun sealed middle error after => setState_ne_error _ _ _ _

theorem keeps_setRemember (remembered : Bool) : Keeps (setRemember chance remembered) world := by
  refine quiet_unlocked.keeps_bind fun vault middle _ _ => ?_
  split
  · exact (quiet_fail _).keeps _
  · split
    · exact (keeps_keyringSet _ _).bind fun _ _ _ _ => setState_ne_error _ _ _ _
    · exact (keeps_keyringDelete _).bind fun _ _ _ _ => setState_ne_error _ _ _ _

theorem keeps_unlock (password : List UInt8) (now : Nat) :
    Keeps (unlock cipher chance password now) world := by
  refine quiet_state.keeps_bind fun found middle _ _ => ?_
  cases found.state with
  | unlocked vault => exact (quiet_done _).keeps _
  | missing => exact (quiet_fail _).keeps _
  | unreadable => exact (quiet_fail _).keeps _
  | locked header file =>
    refine (quiet_tryPassword cipher chance password now).keeps_bind fun key _ _ _ => ?_
    refine (quiet_lift _).keeps_bind fun read _ _ _ => ?_
    refine (quiet_seenInKeyring chance _ key).keeps_bind fun remembered _ _ _ => ?_
    exact fun error after heq => absurd heq (setState_ne_error _ _ _ _)

theorem random_eq_ok {n : Nat} {drawn : Option (Block n)} {block : Block n} :
    random drawn = .ok block ↔ drawn = some block := by
  cases drawn with
  | none => simp [random]
  | some found => simp [random]

theorem firstWrite_eq_error (hlate : NotLate world chance) {vaultId : Block 16} {holder : Holder}
    {key : Key} {password : Option (List UInt8)} {error : VaultError} {after : World}
    (h : firstWrite cipher chance vaultId holder key password world = (.error error, after)) :
    after.onDisk = world.onDisk ∧ after.disk = world.disk ∧ after.state = world.state ∧
      (password ≠ none → after.keyring = world.keyring) ∧
      (password = none → chance.keyringDelete = none →
        after.keyring = world.keyring.delete vaultId) ∧ ¬ CanWrite world chance [] := by
  obtain ⟨written, middle, hwritten, hend⟩ := (Attempt.bind_eq_error_iff.mp h).resolve_left
    fun heq => nomatch (Prod.mk.inj heq).1
  obtain ⟨hresult, rfl⟩ := Prod.mk.inj hwritten
  have hresult := Except.ok.inj hresult
  cases written with
  | ok sealed => exact absurd hend (setState_ne_error _ _ _ _)
  | error cause =>
    have hwrite : write cipher chance ⟨vaultId, holder, zeroBlock nonceLen⟩ key [] world =
        (.error cause, (write cipher chance ⟨vaultId, holder, zeroBlock nonceLen⟩ key []
          world).2) := Prod.ext hresult rfl
    have hkept := keeps_write hlate _ _ _ _ _ hwrite
    have hcan : ¬ CanWrite world chance [] := fun hcan => write_ne_error hcan _ _ hwrite
    dsimp only at hend
    split at hend
    · rename_i hpassword
      obtain ⟨result, last, hdelete, hfail⟩ :=
        (Attempt.bind_eq_error_iff.mp hend).resolve_left fun heq => nomatch (Prod.mk.inj heq).1
      obtain ⟨-, rfl⟩ := Prod.mk.inj hfail
      obtain ⟨-, rfl⟩ := Prod.mk.inj hdelete
      rw [keyringDelete_snd]
      split
      · exact ⟨hkept.onDisk, hkept.disk, hkept.state, fun hne => absurd hpassword hne,
          fun _ _ => congrArg (Keyring.delete · vaultId) hkept.keyring, hcan⟩
      · rename_i hfails
        exact ⟨hkept.onDisk, hkept.disk, hkept.state, fun _ => hkept.keyring,
          fun _ hnone => absurd hnone hfails, hcan⟩
    · rename_i hpassword
      obtain ⟨-, rfl⟩ := Prod.mk.inj hend
      exact ⟨hkept.onDisk, hkept.disk, hkept.state, fun _ => hkept.keyring,
        fun heq => absurd heq hpassword, hcan⟩

theorem keeps_create (hlate : NotLate world chance) (password : Option (List UInt8))
    (params : KdfParams) (hfresh : ∀ id, chance.vaultId = some id → world.keyring id = none)
    (hundone : password = none → chance.keyringSet = none → chance.keyringDelete = none ∨
    CanWrite world chance []) :
    Keeps (create cipher chance password params) world := by
  refine quiet_state.keeps_bind fun found middle hfound _ => ?_
  obtain ⟨hfound, hmiddle⟩ := Prod.mk.inj hfound
  rw [← hmiddle]
  split
  · refine (quiet_lift _).keeps_bind fun vaultId middle hid _ => ?_
    obtain ⟨hdrew, rfl⟩ := Prod.mk.inj hid
    refine (quiet_lift _).keeps_bind fun key middle hkey _ => ?_
    obtain ⟨-, rfl⟩ := Prod.mk.inj hkey
    have hnone := hfresh vaultId (random_eq_ok.mp hdrew)
    cases password with
    | some password =>
      refine Quiet.keeps_bind ?_ fun holder middle _ hkept => ?_
      · exact (quiet_lift _).bind fun slot => quiet_done _
      · intro error after h
        obtain ⟨honDisk, hdisk, hstate, hkeyring, -, -⟩ :=
          firstWrite_eq_error (hlate.of_kept hkept) h
        exact ⟨honDisk, hdisk, hkeyring (by simp), hstate⟩
    | none =>
      intro error after h
      rcases Attempt.bind_eq_error_iff.mp h with hholder | ⟨holder, middle, hholder, hrest⟩
      · exact (keeps_keyringSet _ _).bind (fun _ _ _ _ => done_ne_error _) error after hholder
      · obtain ⟨⟨⟩, last, hset, hpure⟩ := Attempt.bind_eq_ok_iff.mp hholder
        obtain ⟨-, rfl⟩ := Prod.mk.inj hpure
        obtain ⟨hworks, rfl⟩ := keyringSet_eq_ok.mp hset
        have hlate : NotLate
            { world with keyring := world.keyring.set vaultId key.bytes } chance := hlate
        obtain ⟨honDisk, hdisk, hstate, -, hkeyring, hcan⟩ := firstWrite_eq_error hlate hrest
        have hdelete := (hundone rfl hworks).resolve_right hcan
        refine ⟨honDisk, hdisk, (hkeyring rfl hdelete).trans ?_, hstate⟩
        funext name
        dsimp only
        rw [Keyring.delete, Keyring.set]
        split
        · rename_i heq
          rw [heq, hnone]
        · rfl
  · exact (quiet_fail _).keeps _

end Operations

end Opensesh.Vault
