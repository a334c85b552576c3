/-
The vault as a map: whatever is done to it and however often its file is opened again, its
secrets are those of a plain map, and the password and the keyring open it as they should.
-/
import Opensesh.VaultRuns

namespace Opensesh.Vault

open List Option

/-- A vault as its user sees it: the secrets, the master password, and whether it is
remembered on this computer. -/
structure Plain where
  entries : Entries
  password : Option (List UInt8)
  remembered : Bool

/-- What an operation that succeeds does to the plain map. -/
def Plain.apply (secretId : Ulid) : Operation → Option Plain → Option Plain
  | .create password _, _ => some ⟨[], password, false⟩
  | .insert kind data, plain => plain.map fun plain =>
    { plain with entries := insertEntry secretId ⟨kind, data⟩ plain.entries }
  | .replace id kind data, plain => plain.map fun plain =>
    { plain with entries := insertEntry id ⟨kind, data⟩ plain.entries }
  | .remove ids, plain => plain.map fun plain =>
    { plain with entries := plain.entries.filter fun entry => !(ids.contains entry.1) }
  | .retain keep, plain => plain.map fun plain =>
    { plain with entries := plain.entries.filter fun entry => keep entry.1 }
  | .changePassword _ new _ _, plain => plain.map fun plain =>
    { plain with password := some new }
  | .removePassword _ _, plain => plain.map fun plain =>
    { plain with password := none, remembered := false }
  | .setPassword password _ remembered, plain => plain.map fun plain =>
    { plain with password := some password, remembered }
  | .setRemember remembered, plain => plain.map fun plain => { plain with remembered }
  | _, plain => plain

/-- The world and the plain map after an operation; only one that succeeds counts. -/
def mapStep (cipher : Cipher) (pair : World × Option Plain) (event : Event) :
    Option (World × Option Plain) :=
  match perform cipher event.2 event.1 pair.1 with
  | (.ok (), after) => some (after, Plain.apply event.2.secretId event.1 pair.2)
  | (.error _, after) => some (after, pair.2)

/-- A slot a password made, and the key in it. -/
structure SlotMade where
  vaultId : Block 16
  slot : PasswordSlot
  key : Key
  password : List UInt8

/-- An ideal key slot opens to its key with its password and with no other. -/
def IdealSlot (cipher : Cipher) (made : SlotMade → Prop) : Prop :=
  ∀ entry, made entry → ∀ bodyNonce tried,
    Header.unwrapKey cipher ⟨entry.vaultId, .password entry.slot, bodyNonce⟩ tried =
      if tried = entry.password then .ok entry.key else .error .decrypt

/-- The keyring, the files and the random generator work. -/
structure Works (chance : Chance) : Prop where
  keyringGet : chance.keyringGet = none
  keyringSet : chance.keyringSet = none
  keyringDelete : chance.keyringDelete = none
  write : chance.write = .whole
  readable : chance.readable = true
  bodyNonce : chance.bodyNonce.isSome

/-- The password an operation protects the vault with. -/
def Operation.sets : Operation → Option (List UInt8)
  | .create password _ => password
  | .changePassword _ new _ _ => some new
  | .setPassword password _ _ => some password
  | _ => none

/-- The sealing of the vault as it is now counts as made. -/
def SealedNow (cipher : Cipher) (sealings : Sealing → Prop) (after : World) : Prop :=
  ∀ vault, after.state = .unlocked vault → ∀ payload,
    encodePayload vault.entries = .ok payload →
      sealings (bodySealing cipher vault.header vault.key payload)

/-- What the operation sealed counts as made, and its slot as made by its password; a new
vault draws an id of its own. -/
structure Recorded (cipher : Cipher) (sealings : Sealing → Prop) (slots : SlotMade → Prop)
    (world : World) (event : Event) : Prop where
  sealing : ∀ after, perform cipher event.2 event.1 world = (.ok (), after) →
    SealedNow cipher sealings after
  slot : ∀ after vault slot password,
    perform cipher event.2 event.1 world = (.ok (), after) →
    after.state = .unlocked vault → vault.header.holder = .password slot →
    event.1.sets = some password → slots ⟨vault.header.vaultId, slot, vault.key, password⟩
  fresh : ∀ password params, event.1 = .create password params →
    ∀ id, event.2.vaultId = some id → world.keyring id = none

/-- The slot or the keyring, as the plain vault has a password or not. -/
def HeldBy (cipher : Cipher) (header : Header) (key : Key) : Option (List UInt8) → Prop
  | none => header.holder = .keyring
  | some password => header.holder.isPassword = true ∧ ∀ tried,
    header.unwrapKey cipher tried =
      if tried = password then .ok key else .error .decrypt

/-- The same secrets, some of them perhaps as they are read back. -/
def SameSecrets : Entries → Entries → Prop :=
  List.Forall₂ fun entry plain => entry = plain ∨ entry = asRead plain

/-- The vault on disk, in the keyring and in memory stands for the plain one. -/
structure Stands (cipher : Cipher) (world : World) (plain : Plain) (header : Header)
    (key : Key) (file : List UInt8) : Prop where
  onDisk : world.onDisk = true
  disk : world.disk = some file
  opens : openFile cipher file key = .ok (header, plain.entries.map asRead)
  held : HeldBy cipher header key plain.password
  forgotten : plain.password = none → plain.remembered = false
  keyring : world.keyring header.vaultId =
    if plain.password = none ∨ plain.remembered = true then some key.bytes else none
  ascending : Ascending plain.entries
  encodes : ∃ payload, encodePayload plain.entries = .ok payload
  state : world.state = .locked header file ∨ ∃ entries,
    world.state = .unlocked ⟨header, key, entries, file, plain.remembered⟩ ∧
      SameSecrets entries plain.entries

/-- No vault yet, or one that stands for the plain one. -/
def Refines (cipher : Cipher) : World × Option Plain → Prop
  | (world, none) => world.onDisk = true ∧ world.disk = none ∧ world.state = .missing
  | (world, some plain) => ∃ header key file, Stands cipher world plain header key file

theorem asRead_asRead (entry : Ulid × Secret) : asRead (asRead entry) = asRead entry := by
  rw [asRead, asRead, SecretKind.toByte_fromByte]

variable {entries others : Entries}

theorem SameSecrets.map_asRead (h : SameSecrets entries others) :
    entries.map asRead = others.map asRead := by
  induction h with
  | nil => rfl
  | cons hhead _ ih =>
    rw [map_cons, map_cons, ih]
    rcases hhead with rfl | rfl
    · rfl
    · rw [asRead_asRead]

theorem sameSecrets_asRead (entries : Entries) : SameSecrets (entries.map asRead) entries := by
  induction entries with
  | nil => exact .nil
  | cons entry entries ih => exact .cons (Or.inr rfl) ih

theorem SameSecrets.insertEntry (h : SameSecrets entries others) (id : Ulid) (secret : Secret) :
    SameSecrets (insertEntry id secret entries) (insertEntry id secret others) := by
  induction h with
  | nil => exact .cons (Or.inl rfl) .nil
  | @cons first second entries others hhead hrest ih =>
    obtain ⟨firstId, firstSecret⟩ := first
    obtain ⟨secondId, secondSecret⟩ := second
    obtain rfl : firstId = secondId := by
      rcases hhead with heq | heq
      · exact congrArg Prod.fst heq
      · exact congrArg Prod.fst heq
    rw [Opensesh.insertEntry, Opensesh.insertEntry]
    split
    · exact .cons (Or.inl rfl) (.cons hhead hrest)
    · split
      · exact .cons (Or.inl rfl) hrest
      · exact .cons hhead ih

theorem SameSecrets.filter (h : SameSecrets entries others) (keep : Ulid → Bool) :
    SameSecrets (entries.filter fun entry => keep entry.1)
      (others.filter fun entry => keep entry.1) := by
  induction h with
  | nil => exact .nil
  | @cons first second entries others hhead hrest ih =>
    have hid : first.1 = second.1 := by
      rcases hhead with rfl | rfl
      · rfl
      · rfl
    rw [filter_cons, filter_cons, hid]
    split
    · exact .cons hhead ih
    · exact ih

theorem SameSecrets.eq (h : SameSecrets entries others)
    (hkinds : ∀ entry ∈ others, entry.2.kind ≠ .other 1 ∧ entry.2.kind ≠ .other 2) :
    entries = others := by
  induction h with
  | nil => rfl
  | @cons first second entries others hhead hrest ih =>
    rw [forall_mem_cons] at hkinds
    have hsame : [second].map asRead = [second] := map_asRead_of_kinds (by simpa using hkinds.1)
    rw [ih hkinds.2]
    rcases hhead with rfl | rfl
    · rfl
    · rw [singleton_inj.mp hsame]

theorem ascending_of_map_asRead (h : entries.map asRead = others.map asRead)
    (hascending : Ascending others) : Ascending entries := by
  rw [Ascending, ← map_asRead_keys, h, map_asRead_keys]
  exact hascending

/-- Secrets that are read back the same are written the same. -/
theorem encodePayload_of_map_asRead (h : entries.map asRead = others.map asRead)
    {payload : List UInt8} (hpayload : encodePayload others = .ok payload) :
    encodePayload entries = .ok payload := by
  obtain ⟨hcount, hsize, hsizes, rfl⟩ :=
    encodePayload_eq_ok.mp (encodePayload_map_asRead others hpayload)
  rw [← h] at hcount hsize hsizes ⊢
  refine encodePayload_eq_ok.mpr ⟨?_, ?_, ?_, ?_⟩
  · rwa [length_map] at hcount
  · rwa [paddedSize_map_asRead] at hsize
  · intro entry hmem
    exact hsizes (asRead entry) (mem_map_of_mem hmem)
  · rw [padding, padding, paddedSize_map_asRead, flatMap_entryBytes_asRead, length_map]

theorem unwrapKey_congr (cipher : Cipher) {first second : Header} (tried : List UInt8)
    (hid : first.vaultId = second.vaultId) (hholder : first.holder = second.holder) :
    first.unwrapKey cipher tried = second.unwrapKey cipher tried := by
  obtain ⟨vaultId, holder, bodyNonce⟩ := first
  obtain ⟨vaultId', holder', bodyNonce'⟩ := second
  obtain rfl : vaultId = vaultId' := hid
  obtain rfl : holder = holder' := hholder
  cases holder with
  | keyring => rfl
  | password slot => rfl

theorem HeldBy.congr {cipher : Cipher} {first second : Header} {key : Key}
    {password : Option (List UInt8)} (hid : second.vaultId = first.vaultId)
    (hholder : second.holder = first.holder) (h : HeldBy cipher first key password) :
    HeldBy cipher second key password := by
  cases password with
  | none => exact hholder.trans h
  | some password =>
    refine ⟨by rw [hholder]; exact h.1, fun tried => ?_⟩
    rw [unwrapKey_congr cipher tried hid hholder]
    exact h.2 tried

section Steps

variable {cipher : Cipher} {chance : Chance} {world after : World}

theorem Stands.of_kept {plain : Plain} {header : Header} {key : Key} {file : List UInt8}
    (h : Stands cipher world plain header key file) (hkept : Kept world after) :
    Stands cipher after plain header key file where
  onDisk := hkept.onDisk.trans h.onDisk
  disk := hkept.disk.trans h.disk
  opens := h.opens
  held := h.held
  forgotten := h.forgotten
  keyring := by
    rw [hkept.keyring]
    exact h.keyring
  ascending := h.ascending
  encodes := h.encodes
  state := by
    rw [hkept.state]
    exact h.state

variable {plain : Option Plain}

theorem Refines.of_kept (h : Refines cipher (world, plain)) (hkept : Kept world after) :
    Refines cipher (after, plain) := by
  cases plain with
  | none =>
    obtain ⟨honDisk, hdisk, hstate⟩ := h
    exact ⟨hkept.onDisk.trans honDisk, hkept.disk.trans hdisk, hkept.state.trans hstate⟩
  | some plain =>
    obtain ⟨header, key, file, hstands⟩ := h
    exact ⟨header, key, file, hstands.of_kept hkept⟩

theorem Refines.of_unlocked {vault : Unlocked} (h : Refines cipher (world, plain))
    (hstate : world.state = .unlocked vault) :
    ∃ plain', plain = some plain' ∧ vault.remembered = plain'.remembered ∧
      SameSecrets vault.entries plain'.entries ∧
      Stands cipher world plain' vault.header vault.key vault.file := by
  cases plain with
  | none =>
    obtain ⟨-, -, hmissing⟩ := h
    rw [hstate] at hmissing
    cases hmissing
  | some plain =>
    obtain ⟨header, key, file, hstands⟩ := h
    rcases hstands.state with hlocked | ⟨entries, hopen, hread⟩
    · rw [hstate] at hlocked
      cases hlocked
    · rw [hstate] at hopen
      obtain rfl := State.unlocked.inj hopen
      exact ⟨plain, rfl, rfl, hread, hstands⟩

theorem Refines.of_missing (h : Refines cipher (world, plain)) (hstate : world.state = .missing) :
    plain = none ∧ world.onDisk = true ∧ world.disk = none := by
  cases plain with
  | none => exact ⟨rfl, h.1, h.2.1⟩
  | some plain =>
    obtain ⟨header, key, file, hstands⟩ := h
    rcases hstands.state with hlocked | ⟨entries, hopen, -⟩
    · rw [hstate] at hlocked
      cases hlocked
    · rw [hstate] at hopen
      cases hopen

theorem Refines.of_locked {header : Header} {file : List UInt8} (h : Refines cipher (world, plain))
    (hstate : world.state = .locked header file) :
    ∃ plain' key, plain = some plain' ∧ Stands cipher world plain' header key file := by
  cases plain with
  | none =>
    obtain ⟨-, -, hmissing⟩ := h
    rw [hstate] at hmissing
    cases hmissing
  | some plain =>
    obtain ⟨header', key, file', hstands⟩ := h
    rcases hstands.state with hlocked | ⟨entries, hopen, -⟩
    · rw [hstate] at hlocked
      obtain ⟨rfl, rfl⟩ := State.locked.inj hlocked
      exact ⟨plain, key, rfl, hstands⟩
    · rw [hstate] at hopen
      cases hopen

theorem Refines.fails {op : Operation} {error : VaultError} (h : Refines cipher (world, plain))
    (hworks : Works chance)
    (hfresh : ∀ password params, op = .create password params →
      ∀ id, chance.vaultId = some id → world.keyring id = none) (hreset : op ≠ .reset)
    (hfails : perform cipher chance op world = (.error error, after)) :
    Refines cipher (after, plain) := by
  have hlate : NotLate world chance := by
    refine Or.inr ?_
    rw [hworks.write]
    exact Written.noConfusion
  have hbacked : ∀ vault, world.state = .unlocked vault → Backed world chance vault := by
    intro vault hstate
    obtain ⟨plain', -, -, hread, hstands⟩ := h.of_unlocked hstate
    obtain ⟨payload, hpayload⟩ := hstands.encodes
    exact Or.inr ⟨Or.inr hworks.write, hworks.bodyNonce, payload,
      encodePayload_of_map_asRead hread.map_asRead hpayload⟩
  have hneeds : NeedsBacking cipher world chance op := by
    cases op with
    | create password params =>
      exact ⟨hfresh password params rfl, fun _ _ => Or.inl hworks.keyringDelete⟩
    | unlock password now => exact Or.inl hworks.keyringGet
    | changePassword current new params now =>
      exact fun vault slot hstate _ _ _ _ => hbacked vault hstate
    | removePassword current now => exact fun vault hstate _ _ => hbacked vault hstate
    | setPassword password params remembered =>
      exact fun vault slot hstate _ _ _ => hbacked vault hstate
    | _ => trivial
  rcases run_fails ⟨hlate, hneeds⟩ hreset hfails with hkept | ⟨-, hdelete⟩
  · exact h.of_kept hkept
  · obtain ⟨vault, reported, store, hstore, -⟩ := hdelete
    rw [hworks.keyringDelete] at hstore
    cases hstore

theorem passwordSlot_valid {salt : Option (Block saltLen)} {nonce : Option Nonce}
    {vaultId : Block 16} {key : Key} {password : List UInt8} {params : KdfParams}
    {slot : PasswordSlot}
    (h : passwordSlot cipher salt nonce vaultId key password params = .ok slot) :
    (Holder.password slot).Valid := by
  rw [passwordSlot] at h
  obtain ⟨salt, -, h⟩ := bind_eq_ok.mp h
  obtain ⟨nonce, -, h⟩ := bind_eq_ok.mp h
  obtain ⟨derived, hderived, h⟩ := bind_eq_ok.mp h
  rw [deriveKey] at hderived
  split at hderived
  · rename_i hvalid
    dsimp only at h
    split at h
    · obtain rfl := Except.ok.inj h
      exact hvalid
    · cases h
  · cases hderived

theorem Stands.valid {plain : Plain} {header : Header} {key : Key} {file : List UInt8}
    (h : Stands cipher world plain header key file) : header.holder.Valid := by
  obtain ⟨body, payload, -, -, hvalid, -, -⟩ := openFile_eq_ok.mp h.opens
  exact hvalid

theorem stands_of_sealed {sealings : Sealing → Prop} (hideal : Ideal cipher sealings)
    (plain : Plain) {header : Header} {sealed : Header × List UInt8} {key : Key}
    {entries : Entries} {keyring : Keyring} (honDisk : world.onDisk = true)
    (hsealed : sealFile cipher chance.bodyNonce header key entries = .ok sealed)
    (hbecame : Became world after
      (.unlocked ⟨sealed.1, key, entries, sealed.2, plain.remembered⟩)
      (world.diskWith sealed.2) keyring)
    (hmade : SealedNow cipher sealings after)
    (hvalid : header.holder.Valid) (hascending : Ascending plain.entries)
    (hread : SameSecrets entries plain.entries)
    (hheld : HeldBy cipher sealed.1 key plain.password)
    (hforgotten : plain.password = none → plain.remembered = false)
    (hkeyring : keyring sealed.1.vaultId =
      if plain.password = none ∨ plain.remembered = true then some key.bytes else none) :
    Stands cipher after plain sealed.1 key sealed.2 := by
  obtain ⟨bodyNonce, payload, -, hheader, hpayload, hfile⟩ := sealFile_eq_ok.mp hsealed
  have hmade : sealings (bodySealing cipher sealed.1 key payload) :=
    hmade _ hbecame.state payload hpayload
  have hvalid : sealed.1.holder.Valid := by
    rw [hheader]
    exact hvalid
  have hdecode := decodePayload_encodePayload
    (ascending_of_map_asRead hread.map_asRead hascending) hpayload
  have hopens := openFile_sealed hideal hvalid hmade hdecode
  rw [← hfile, hread.map_asRead] at hopens
  exact
    { onDisk := hbecame.onDisk.trans honDisk
      disk := by rw [hbecame.disk, World.diskWith, if_neg (by simp [honDisk])]
      opens := hopens
      held := hheld
      forgotten := hforgotten
      keyring := by rw [hbecame.keyring, hkeyring]
      ascending := hascending
      encodes := ⟨payload, encodePayload_of_map_asRead hread.map_asRead.symm hpayload⟩
      state := Or.inr ⟨entries, hbecame.state, hread⟩ }

variable {sealings : Sealing → Prop} {plain : Option Plain}

variable {α : Type} {a : α} {params : KdfParams} {now : Nat}

theorem Refines.of_change (h : Refines cipher (world, plain)) (hideal : Ideal cipher sealings)
    {f : Entries → α × Entries} (g : Entries → Entries)
    (hread : ∀ entries others, SameSecrets entries others → SameSecrets (f entries).2 (g others))
    (hascending : ∀ entries, Ascending entries → Ascending (g entries))
    (hchange : change cipher chance f world = (.ok a, after))
    (hmade : SealedNow cipher sealings after) :
    Refines cipher (after, plain.map fun plain => { plain with entries := g plain.entries }) := by
  obtain ⟨vault, sealed, hstate, -, hsealed, hbecame⟩ := change_eq_ok hchange
  obtain ⟨plain', rfl, hremembered, hsame, hstands⟩ := h.of_unlocked hstate
  obtain ⟨hid, hholder⟩ := sealFile_header hsealed
  rw [hremembered] at hbecame
  exact ⟨_, _, _, stands_of_sealed hideal { plain' with entries := g plain'.entries }
    hstands.onDisk hsealed hbecame hmade hstands.valid
    (hascending _ hstands.ascending) (hread _ _ hsame) (hstands.held.congr hid hholder)
    hstands.forgotten (by rw [hid]; exact hstands.keyring)⟩

theorem Refines.of_insert (h : Refines cipher (world, plain)) (hideal : Ideal cipher sealings)
    (id : Ulid) (secret : Secret) {b : α}
    (hchange : change cipher chance (fun entries => (b, insertEntry id secret entries)) world =
      (.ok a, after)) (hmade : SealedNow cipher sealings after) :
    Refines cipher (after, plain.map fun plain =>
      { plain with entries := insertEntry id secret plain.entries }) := by
  exact h.of_change hideal (insertEntry id secret)
    (fun entries others hsame => hsame.insertEntry id secret)
    (fun entries hascending => ascending_insertEntry _ _ hascending) hchange hmade

theorem Refines.of_retain (h : Refines cipher (world, plain)) (hideal : Ideal cipher sealings)
    {keep : Ulid → Bool} {count : Nat}
    (hretain : retain cipher chance keep world = (.ok count, after))
    (hmade : SealedNow cipher sealings after) :
    Refines cipher (after, plain.map fun plain =>
      { plain with entries := plain.entries.filter fun entry => keep entry.1 }) := by
  rw [retain] at hretain
  obtain ⟨vault, middle, hvault, hrest⟩ := Attempt.bind_eq_ok_iff.mp hretain
  obtain ⟨hstate, rfl⟩ := unlocked_eq_ok.mp hvault
  split at hrest
  · rename_i hnone
    obtain ⟨-, rfl⟩ := Prod.mk.inj hrest
    obtain ⟨plain', rfl, -, hsame, hstands⟩ := h.of_unlocked hstate
    -- Nothing was to go from the secrets in memory, which have the ids of the plain ones.
    have hkept : plain'.entries.filter (fun entry => keep entry.1) = plain'.entries := by
      refine List.filter_eq_self.mpr fun entry hmem => ?_
      have hkeys : entry.1 ∈ vault.entries.map Prod.fst := by
        rw [← map_asRead_keys, hsame.map_asRead, map_asRead_keys]
        exact mem_map_of_mem hmem
      obtain ⟨other, hother, heq⟩ := mem_map.mp hkeys
      have hall := filter_eq_nil_iff.mp (length_eq_zero_iff.mp hnone) other hother
      rw [← heq]
      simpa using hall
    rw [map_some, hkept]
    exact h
  · exact h.of_change hideal (fun entries => entries.filter fun entry => keep entry.1)
      (fun entries others hsame => hsame.filter keep)
      (fun entries hascending => hascending.sublist (filter_sublist.map Prod.fst))
      hrest hmade

theorem heldBy_slot {slots : SlotMade → Prop} (hslots : IdealSlot cipher slots)
    {header : Header} {slot : PasswordSlot} {key : Key} {password : List UInt8}
    (hholder : header.holder = .password slot)
    (hmade : slots ⟨header.vaultId, slot, key, password⟩) :
    HeldBy cipher header key (some password) := by
  refine ⟨by rw [hholder]; rfl, fun tried => ?_⟩
  rw [← hslots _ hmade (zeroBlock nonceLen) tried]
  exact unwrapKey_congr cipher tried rfl hholder

theorem Refines.of_setPassword {slots : SlotMade → Prop} {password : List UInt8} {remembered : Bool}
    (h : Refines cipher (world, plain)) (hideal : Ideal cipher sealings)
    (hslots : IdealSlot cipher slots)
    (hset : setPassword cipher chance password params remembered world = (.ok (), after))
    (hmade : SealedNow cipher sealings after)
    (hslotted : ∀ vault slot, after.state = .unlocked vault →
      vault.header.holder = .password slot →
        slots ⟨vault.header.vaultId, slot, vault.key, password⟩) :
    Refines cipher (after, plain.map fun plain =>
      { plain with password := some password, remembered }) := by
  obtain ⟨vault, slot, sealed, hstate, hslot, hsealed, hbecame⟩ := setPassword_eq_ok hset
  obtain ⟨plain', rfl, -, hsame, hstands⟩ := h.of_unlocked hstate
  obtain ⟨hid, hholder⟩ := sealFile_header hsealed
  refine ⟨_, _, _, stands_of_sealed hideal
    { plain' with password := some password, remembered }
    hstands.onDisk hsealed hbecame hmade (passwordSlot_valid hslot) hstands.ascending
    hsame (heldBy_slot hslots hholder (hslotted _ slot hbecame.state hholder))
    (fun hnone => nomatch hnone) ?_⟩
  rw [hid]
  cases remembered <;> simp [Keyring.set, Keyring.delete]

theorem Refines.of_removePassword {current : List UInt8} (h : Refines cipher (world, plain))
    (hideal : Ideal cipher sealings)
    (hremove : removePassword cipher chance current now world = (.ok (), after))
    (hmade : SealedNow cipher sealings after) :
    Refines cipher (after, plain.map fun plain =>
      { plain with password := none, remembered := false }) := by
  obtain ⟨vault, sealed, hstate, hsealed, hbecame⟩ := removePassword_eq_ok hremove
  obtain ⟨plain', rfl, -, hsame, hstands⟩ := h.of_unlocked hstate
  obtain ⟨hid, hholder⟩ := sealFile_header hsealed
  refine ⟨_, _, _, stands_of_sealed hideal
    { plain' with password := none, remembered := false }
    hstands.onDisk hsealed hbecame hmade trivial hstands.ascending
    hsame hholder (fun _ => rfl) ?_⟩
  rw [hid]
  simp [Keyring.set]

theorem Refines.of_setRemember {remembered : Bool} (h : Refines cipher (world, plain))
    (hset : setRemember chance remembered world = (.ok (), after)) :
    Refines cipher (after, plain.map fun plain => { plain with remembered }) := by
  obtain ⟨vault, hstate, hpassword, hbecame⟩ := setRemember_eq_ok hset
  obtain ⟨plain', rfl, -, hsame, hstands⟩ := h.of_unlocked hstate
  have hsome : plain'.password ≠ none := by
    intro hnone
    have hheld := hstands.held
    rw [hnone] at hheld
    rw [show vault.header.holder = .keyring from hheld] at hpassword
    cases hpassword
  refine ⟨vault.header, vault.key, vault.file,
    { onDisk := hbecame.onDisk.trans hstands.onDisk
      disk := hbecame.disk.trans hstands.disk
      opens := hstands.opens
      held := hstands.held
      forgotten := fun hnone => absurd hnone hsome
      keyring := ?_
      ascending := hstands.ascending
      encodes := hstands.encodes
      state := Or.inr ⟨vault.entries, hbecame.state, hsame⟩ }⟩
  rw [hbecame.keyring]
  cases remembered <;> simp [Keyring.set, Keyring.delete, hsome]

theorem Refines.of_create {slots : SlotMade → Prop} {password : Option (List UInt8)}
    (h : Refines cipher (world, plain)) (hideal : Ideal cipher sealings)
    (hslots : IdealSlot cipher slots)
    (hfresh : ∀ id, chance.vaultId = some id → world.keyring id = none)
    (hcreate : create cipher chance password params world = (.ok (), after))
    (hmade : SealedNow cipher sealings after)
    (hslotted : ∀ vault slot master, after.state = .unlocked vault →
      vault.header.holder = .password slot → password = some master →
        slots ⟨vault.header.vaultId, slot, vault.key, master⟩) :
    Refines cipher (after, some ⟨[], password, false⟩) := by
  obtain ⟨hstate, vaultId, key, holder, sealed, hvaultId, hheld, hsealed, hbecame⟩ :=
    create_eq_ok hcreate
  obtain ⟨rfl, honDisk, -⟩ := h.of_missing hstate
  obtain ⟨hid, hholder⟩ := sealFile_header hsealed
  dsimp only at hid hholder
  rcases hheld with ⟨rfl, rfl⟩ | ⟨master, slot, rfl, rfl, hslot⟩
  · refine ⟨_, _, _, stands_of_sealed hideal ⟨[], none, false⟩
      honDisk hsealed hbecame hmade trivial ascending_nil .nil hholder (fun _ => rfl) ?_⟩
    rw [hid]
    simp [Keyring.set]
  · refine ⟨_, _, _, stands_of_sealed hideal ⟨[], some master, false⟩
      honDisk hsealed hbecame hmade (passwordSlot_valid hslot) ascending_nil .nil
      (heldBy_slot hslots hholder (hslotted _ slot master hbecame.state hholder rfl))
      (fun hnone => by cases hnone) ?_⟩
    rw [hid]
    simp [hfresh vaultId hvaultId]

theorem Stands.of_state {plain : Plain} {header : Header} {key : Key} {file : List UInt8}
    {state : State} (h : Stands cipher world plain header key file)
    (hbecame : Became world after state world.disk world.keyring)
    (hstate : state = .locked header file ∨ ∃ entries,
      state = .unlocked ⟨header, key, entries, file, plain.remembered⟩ ∧
        SameSecrets entries plain.entries) :
    Stands cipher after plain header key file where
  onDisk := hbecame.onDisk.trans h.onDisk
  disk := hbecame.disk.trans h.disk
  opens := h.opens
  held := h.held
  forgotten := h.forgotten
  keyring := by
    rw [hbecame.keyring]
    exact h.keyring
  ascending := h.ascending
  encodes := h.encodes
  state := by
    rw [hbecame.state]
    exact hstate

theorem Stands.of_unwrapKey {plain : Plain} {header : Header} {key found : Key}
    {file password : List UInt8} (h : Stands cipher world plain header key file)
    (hunwrap : header.unwrapKey cipher password = .ok found) :
    plain.password = some password ∧ found = key := by
  have hheld := h.held
  cases hpassword : plain.password with
  | none =>
    rw [hpassword] at hheld
    obtain ⟨vaultId, holder, bodyNonce⟩ := header
    obtain rfl : holder = .keyring := hheld
    cases hunwrap
  | some master =>
    rw [hpassword] at hheld
    rw [hheld.2 password] at hunwrap
    split at hunwrap
    · rename_i heq
      rw [heq]
      exact ⟨rfl, (Except.ok.inj hunwrap).symm⟩
    · cases hunwrap

theorem Stands.remembered_iff {plain : Plain} {header : Header} {key : Key}
    {file : List UInt8} (h : Stands cipher world plain header key file) {master : List UInt8}
    (hpassword : plain.password = some master) :
    world.keyring header.vaultId = some key.bytes ↔ plain.remembered = true := by
  rw [h.keyring, hpassword]
  simp

theorem Stands.isPassword_eq {plain : Plain} {header : Header} {key : Key}
    {file : List UInt8} (h : Stands cipher world plain header key file)
    (hheld : plain.password = none ∨ plain.remembered = true) :
    header.holder.isPassword = plain.remembered := by
  have hholder := h.held
  cases hpassword : plain.password with
  | none =>
    rw [hpassword] at hholder
    rw [show header.holder = .keyring from hholder, h.forgotten hpassword]
    rfl
  | some master =>
    rw [hpassword] at hholder hheld
    rw [hholder.1, hheld.resolve_left (some_ne_none master)]

theorem Refines.of_unlock {password : List UInt8} (h : Refines cipher (world, plain))
    (hget : chance.keyringGet = none)
    (hunlock : unlock cipher chance password now world = (.ok (), after)) :
    Refines cipher (after, plain) := by
  rcases unlock_eq_ok hunlock with ⟨vault, -, rfl⟩ | ⟨header, file, found, read, seen, hstate,
    -, hunwrap, hopen, hback, hforth, hbecame⟩
  · exact h
  · obtain ⟨plain', key, rfl, hstands⟩ := h.of_locked hstate
    obtain ⟨hpassword, rfl⟩ := hstands.of_unwrapKey hunwrap
    rw [hstands.opens] at hopen
    obtain rfl := Except.ok.inj hopen
    have hiff := hstands.remembered_iff hpassword
    have hseen : seen = plain'.remembered :=
      Bool.eq_iff_iff.mpr ⟨fun heq => hiff.mp (hback heq), fun heq => hforth hget (hiff.mpr heq)⟩
    refine ⟨header, found, file, hstands.of_state hbecame (Or.inr ⟨_, ?_, sameSecrets_asRead _⟩)⟩
    rw [hseen]

theorem Refines.of_unlockWithKeyring {opened : Bool} (h : Refines cipher (world, plain))
    (hunlock : unlockWithKeyring cipher chance world = (.ok opened, after)) :
    Refines cipher (after, plain) := by
  cases opened with
  | false => exact h.of_kept (unlockWithKeyring_eq_false hunlock)
  | true =>
    rcases unlockWithKeyring_eq_true hunlock with ⟨vault, -, rfl⟩ | ⟨header, file, found, read,
      hstate, hentry, hopen, hbecame⟩
    · exact h
    · obtain ⟨plain', key, rfl, hstands⟩ := h.of_locked hstate
      rw [hstands.keyring] at hentry
      split at hentry
      · rename_i hheld
        obtain rfl := Block.ext (some.inj hentry)
        rw [hstands.opens] at hopen
        obtain rfl := Except.ok.inj hopen
        refine ⟨header, key, file, hstands.of_state hbecame (Or.inr ⟨_, ?_, sameSecrets_asRead _⟩)⟩
        rw [hstands.isPassword_eq hheld]
      · cases hentry

theorem Refines.of_lock (h : Refines cipher (world, plain))
    (hlock : lock world = (.ok (), after)) : Refines cipher (after, plain) := by
  obtain ⟨-, rfl⟩ := Prod.mk.inj hlock
  dsimp only
  cases hstate : world.state with
  | unlocked vault =>
    obtain ⟨plain', rfl, -, -, hstands⟩ := h.of_unlocked hstate
    exact ⟨vault.header, vault.key, vault.file, hstands.of_state ⟨rfl, rfl, rfl, rfl⟩ (Or.inl rfl)⟩
  | _ => exact h

theorem Stands.of_openVault {plain : Plain} {header : Header} {key : Key} {file : List UInt8}
    (h : Stands cipher world plain header key file) (hreadable : chance.readable = true) :
    (openVault chance world).2.state = .locked header file ∧
      Stands cipher (openVault chance world).2 plain header key file := by
  obtain ⟨body, payload, hfile, hbody, hvalid, -, -⟩ := openFile_eq_ok.mp h.opens
  have hread := readHeader_eq_ok.mpr ⟨body, hfile, hbody, rfl, hvalid⟩
  have hstate : stateOf chance world.disk = .locked header file := by
    rw [h.disk, stateOf]
    simp only [hreadable, Bool.true_eq_false, if_false, hread]
  have hlocked : (openVault chance world).2.state = .locked header file := by
    change (if world.onDisk = true then stateOf chance world.disk else .missing) = _
    rw [if_pos h.onDisk, hstate]
  exact ⟨hlocked, h.of_state ⟨rfl, hlocked, rfl, rfl⟩ (Or.inl rfl)⟩

theorem openVault_missing (honDisk : world.onDisk = true) (hdisk : world.disk = none) :
    (openVault chance world).2.state = .missing := by
  change (if world.onDisk = true then stateOf chance world.disk else .missing) = _
  rw [if_pos honDisk, hdisk]
  rfl

theorem Refines.of_openVault (h : Refines cipher (world, plain))
    (hreadable : chance.readable = true) :
    Refines cipher ((openVault chance world).2, plain) := by
  cases plain with
  | none =>
    obtain ⟨honDisk, hdisk, -⟩ := h
    exact ⟨honDisk, hdisk, openVault_missing honDisk hdisk⟩
  | some plain =>
    obtain ⟨header, key, file, hstands⟩ := h
    exact ⟨header, key, file, (hstands.of_openVault hreadable).2⟩

/-- What each step of a run meets: the keyring, the files and the random generator work,
what it seals is recorded, and it does not delete the vault. -/
structure Allowed (cipher : Cipher) (sealings : Sealing → Prop) (slots : SlotMade → Prop)
    (pair : World × Option Plain) (event : Event) : Prop where
  works : Works event.2
  recorded : Recorded cipher sealings slots pair.1 event
  kept : event.1 ≠ .reset

variable {slots : SlotMade → Prop}

theorem Refines.succeeds (hideal : Ideal cipher sealings) (hslots : IdealSlot cipher slots)
    {op : Operation} (h : Refines cipher (world, plain))
    (hallowed : Allowed cipher sealings slots (world, plain) (op, chance))
    (hrun : perform cipher chance op world = (.ok (), after)) :
    Refines cipher (after, Plain.apply chance.secretId op plain) := by
  have hmade := hallowed.recorded.sealing after hrun
  have hslot := hallowed.recorded.slot after
  cases op with
  | create password params =>
    exact h.of_create hideal hslots (hallowed.recorded.fresh password params rfl) hrun hmade
      fun vault slot master hstate hholder hsets =>
        hslot vault slot master hrun hstate hholder hsets
  | unlock password now => exact h.of_unlock hallowed.works.keyringGet hrun
  | unlockWithKeyring =>
    obtain ⟨opened, middle, hopened, hpure⟩ := Attempt.bind_eq_ok_iff.mp hrun
    obtain ⟨-, rfl⟩ := Prod.mk.inj hpure
    exact h.of_unlockWithKeyring hopened
  | lock => exact h.of_lock hrun
  | insert kind data =>
    obtain ⟨id, middle, hinsert, hpure⟩ := Attempt.bind_eq_ok_iff.mp hrun
    obtain ⟨-, rfl⟩ := Prod.mk.inj hpure
    rw [insert] at hinsert
    split at hinsert
    · cases hinsert
    · exact h.of_insert hideal _ _ hinsert hmade
  | replace id kind data =>
    rw [perform, replace] at hrun
    split at hrun
    · cases hrun
    · exact h.of_insert hideal _ _ hrun hmade
  | remove ids =>
    obtain ⟨count, middle, hretain, hpure⟩ := Attempt.bind_eq_ok_iff.mp hrun
    obtain ⟨-, rfl⟩ := Prod.mk.inj hpure
    exact h.of_retain hideal hretain hmade
  | retain keep =>
    obtain ⟨count, middle, hretain, hpure⟩ := Attempt.bind_eq_ok_iff.mp hrun
    obtain ⟨-, rfl⟩ := Prod.mk.inj hpure
    exact h.of_retain hideal hretain hmade
  | verifyPassword password now =>
    exact h.of_kept ((quiet_verifyPassword cipher chance password now).kept hrun)
  | changePassword current new params now =>
    obtain ⟨⟨⟩, middle, hverify, hchange⟩ := Attempt.bind_eq_ok_iff.mp hrun
    have hkept := (quiet_verifyPassword cipher chance current now).kept hverify
    obtain ⟨vault, hopen, -⟩ := verifyPassword_eq_ok hverify
    rw [← hkept.state] at hopen
    have hmiddle := h.of_kept hkept
    obtain ⟨plain', hplain, hremembered, -, -⟩ := hmiddle.of_unlocked hopen
    have hset := hmiddle.of_setPassword hideal hslots hchange hmade
      fun vault slot hstate hholder => hslot vault slot new hrun hstate hholder rfl
    have hsame : middle.state.remembered = plain'.remembered := by
      rw [hopen]
      exact hremembered
    rw [hplain, hsame] at hset
    rw [hplain]
    exact hset
  | removePassword current now => exact h.of_removePassword hideal hrun hmade
  | setPassword password params remembered =>
    exact h.of_setPassword hideal hslots hrun hmade
      fun vault slot hstate hholder => hslot vault slot password hrun hstate hholder rfl
  | setRemember remembered => exact h.of_setRemember hrun
  | wait now =>
    obtain ⟨pause, middle, hwait, hpure⟩ := Attempt.bind_eq_ok_iff.mp hrun
    obtain ⟨-, rfl⟩ := Prod.mk.inj hpure
    exact h.of_kept ((quiet_wait chance now).kept hwait)
  | reopen =>
    obtain ⟨-, rfl⟩ := Prod.mk.inj hrun
    exact h.of_openVault hallowed.works.readable
  | reset => exact absurd rfl hallowed.kept

/-- One operation, whether it succeeds or not, takes the vault and the plain map along. -/
theorem Refines.step (hideal : Ideal cipher sealings) (hslots : IdealSlot cipher slots)
    {pair next : World × Option Plain} {event : Event} (h : Refines cipher pair)
    (hallowed : Allowed cipher sealings slots pair event)
    (hstep : mapStep cipher pair event = some next) : Refines cipher next := by
  obtain ⟨world, plain⟩ := pair
  obtain ⟨op, chance⟩ := event
  rw [mapStep] at hstep
  cases hrun : perform cipher chance op world with
  | mk result after =>
    rw [hrun] at hstep
    cases result with
    | ok done =>
      obtain rfl := some.inj hstep
      exact Refines.succeeds hideal hslots h hallowed hrun
    | error error =>
      obtain rfl := some.inj hstep
      exact h.fails hallowed.works hallowed.recorded.fresh hallowed.kept hrun

/-- The vault is open with the secrets of the plain one. -/
def OpenAs (world : World) (plain : Plain) : Prop :=
  ∃ vault, world.state = .unlocked vault ∧ vault.remembered = plain.remembered ∧
    SameSecrets vault.entries plain.entries

/-- Who may open the vault: the keyring exactly when it holds the key or a copy of it, the
current master password once no wait is pending, and no other password. -/
structure Unlocks (cipher : Cipher) (chance : Chance) (world : World) (plain : Plain) :
    Prop where
  keyring : ∃ after, unlockWithKeyring cipher chance world =
      (.ok (decide (plain.password = none ∨ plain.remembered = true)), after) ∧
    (plain.password = none ∨ plain.remembered = true → OpenAs after plain)
  password : ∀ password now, plain.password = some password →
    (wait chance now world).1 = .ok 0 →
      ∃ after, unlock cipher chance password now world = (.ok (), after) ∧ OpenAs after plain
  others : ∀ tried now, plain.password ≠ some tried →
    ∃ error after, unlock cipher chance tried now world = (.error error, after)

theorem succeeded_ok (chance : Chance) (world : World) :
    ∃ after, succeeded chance world = (.ok (), after) := by
  cases hrun : succeeded chance world with
  | mk result after =>
    cases result with
    | ok done => exact ⟨after, rfl⟩
    | error error => exact absurd hrun succeeded_ne_error

theorem seenInKeyring_ok (chance : Chance) (id : Block 16) (key : Key) (world : World) :
    ∃ seen after, seenInKeyring chance id key world = (.ok seen, after) := by
  rw [seenInKeyring]
  cases hget : (keyringGet chance id world) with
  | mk result after =>
    have hattempt : (keyringGet chance id).attempt world = (.ok result, after) := by
      rw [Attempt.attempt, hget]
    rw [Attempt.bind_of_ok hattempt]
    cases result with
    | error error => exact ⟨false, after, rfl⟩
    | ok stored =>
      cases stored with
      | none => exact ⟨false, after, rfl⟩
      | some stored => exact ⟨_, after, rfl⟩

theorem tryPassword_ok {header : Header} {key : Key} {password : List UInt8} {now : Nat}
    (hheader : world.state.header = some header) (hpassword : header.holder.isPassword = true)
    (hunwrap : header.unwrapKey cipher password = .ok key)
    (hwait : (wait chance now world).1 = .ok 0) :
    ∃ after, tryPassword cipher chance password now world = (.ok key, after) := by
  have hstate : (Attempt.state : VaultOp World) world = (.ok world, world) := rfl
  have hwaited : wait chance now world = (.ok 0, (wait chance now world).2) := Prod.ext hwait rfl
  obtain ⟨after, hsucceeded⟩ := succeeded_ok chance (wait chance now world).2
  refine ⟨after, ?_⟩
  rw [tryPassword, Attempt.bind_of_ok hstate]
  simp only [hheader, hpassword, Bool.true_eq_false, if_false]
  rw [Attempt.bind_of_ok hwaited, if_neg (Nat.lt_irrefl 0), hunwrap]
  dsimp only
  rw [Attempt.bind_of_ok hsucceeded]
  rfl

theorem Stands.unlocks {plain : Plain} {header : Header} {key : Key} {file : List UInt8}
    (h : Stands cipher world plain header key file)
    (hlocked : world.state = .locked header file) (hget : chance.keyringGet = none) :
    Unlocks cipher chance world plain where
  keyring := by
    have hstate : (Attempt.state : VaultOp World) world = (.ok world, world) := rfl
    have hlooked : keyringGet chance header.vaultId world =
        (.ok (world.keyring header.vaultId), world) := keyringGet_eq_ok.mpr ⟨⟨hget, rfl⟩, rfl⟩
    rw [unlockWithKeyring, Attempt.bind_of_ok hstate, hlocked]
    dsimp only
    rw [Attempt.bind_of_ok hlooked, h.keyring]
    by_cases hheld : plain.password = none ∨ plain.remembered = true
    · have hopened : openWithEntry cipher file key.bytes =
          .ok (some (key, plain.entries.map asRead)) :=
        openWithEntry_eq_some.mpr ⟨rfl, header, h.opens⟩
      rw [if_pos hheld, decide_eq_true hheld]
      dsimp only
      rw [hopened]
      exact ⟨_, rfl, fun _ => ⟨_, rfl, h.isPassword_eq hheld, sameSecrets_asRead _⟩⟩
    · rw [if_neg hheld, decide_eq_false hheld]
      exact ⟨world, rfl, fun hopen => absurd hopen hheld⟩
  password := by
    intro password now hpassword hwait
    have hstate : (Attempt.state : VaultOp World) world = (.ok world, world) := rfl
    have hheld := h.held
    rw [hpassword] at hheld
    have hheader : world.state.header = some header := by
      rw [hlocked]
      rfl
    obtain ⟨tried, htried⟩ := tryPassword_ok hheader hheld.1
      ((hheld.2 password).trans (if_pos rfl)) hwait
    have hread : Attempt.lift (openUnwrapped cipher file key) tried =
        (.ok (header, plain.entries.map asRead), tried) :=
      Prod.ext (openUnwrapped_eq_ok.mpr h.opens) rfl
    obtain ⟨seen, looked, hseen⟩ := seenInKeyring_ok chance header.vaultId key tried
    have hunlock : unlock cipher chance password now world = (.ok (), { looked with
        state := .unlocked ⟨header, key, plain.entries.map asRead, file, seen⟩ }) := by
      rw [unlock, Attempt.bind_of_ok hstate, hlocked]
      dsimp only
      rw [Attempt.bind_of_ok htried, Attempt.bind_of_ok hread, Attempt.bind_of_ok hseen]
      rfl
    have hrefines : Refines cipher (world, some plain) := ⟨header, key, file, h⟩
    have hafter := hrefines.of_unlock hget hunlock
    obtain ⟨plain', hplain, hremembered, hsame, -⟩ := hafter.of_unlocked rfl
    obtain rfl := some.inj hplain
    exact ⟨_, hunlock, _, rfl, hremembered, hsame⟩
  others := by
    intro tried now hother
    cases hrun : unlock cipher chance tried now world with
    | mk result after =>
      cases result with
      | error error => exact ⟨error, after, rfl⟩
      | ok done =>
        rcases unlock_eq_ok hrun with ⟨vault, hopen, -⟩ | ⟨header', file', found, read, seen,
          hstate, -, hunwrap, -⟩
        · rw [hlocked] at hopen
          cases hopen
        · rw [hlocked] at hstate
          obtain ⟨rfl, -⟩ := State.locked.inj hstate
          exact absurd (h.of_unwrapKey hunwrap).1 hother

/-- In every run the secrets of an open vault are those of the plain map, and opened again
the vault opens to them for the keyring and the master password as it should. -/
theorem run_refines (hideal : Ideal cipher sealings) (hslots : IdealSlot cipher slots)
    {old : World} {opening : Chance} (honDisk : old.onDisk = true) (hdisk : old.disk = none)
    {events : List Event} (hrun : GoodRun (mapStep cipher) (Allowed cipher sealings slots)
      ((openVault opening old).2, none) events (world, plain)) :
    (∀ vault, world.state = .unlocked vault → ∃ plain', plain = some plain' ∧
      SameSecrets vault.entries plain'.entries ∧
      ((∀ entry ∈ plain'.entries, entry.2.kind ≠ .other 1 ∧ entry.2.kind ≠ .other 2) →
        vault.entries = plain'.entries)) ∧
    ∀ opening chance, opening.readable = true → chance.keyringGet = none →
      match plain with
      | none => (openVault opening world).2.state = .missing
      | some plain => Unlocks cipher chance (openVault opening world).2 plain := by
  have hrefines : Refines cipher (world, plain) :=
    hrun.invariant (fun h hallowed hstep => h.step hideal hslots hallowed hstep)
      ⟨honDisk, hdisk, openVault_missing honDisk hdisk⟩
  refine ⟨fun vault hstate => ?_, fun opening chance hreadable hget => ?_⟩
  · obtain ⟨plain', hplain, -, hsame, -⟩ := hrefines.of_unlocked hstate
    exact ⟨plain', hplain, hsame, hsame.eq⟩
  · cases plain with
    | none => exact openVault_missing hrefines.1 hrefines.2.1
    | some plain =>
      obtain ⟨header, key, file, hstands⟩ := hrefines
      obtain ⟨hlocked, hopened⟩ := hstands.of_openVault hreadable
      exact hopened.unlocks hlocked hget

end Steps

namespace MapWitness

open RunWitness (length_sevens lucky master costs empty)

def vaultKey : Key := ⟨List.replicate 32 7, length_sevens⟩

/-- The key derived from the master password, and the one from any other. -/
def derived (password : List UInt8) : Key :=
  if password = master then zeroBlock keyLen else ⟨List.replicate 32 1, by decide⟩

def otherNonce : Nonce := ⟨List.replicate 24 1, by decide⟩

/-- Another nonce for the second write. -/
def lucky' : Chance := { lucky with bodyNonce := some otherNonce }

def slot : PasswordSlot :=
  ⟨costs, zeroBlock saltLen, zeroBlock nonceLen,
    ⟨List.replicate 32 7 ++ List.replicate 16 0, by decide⟩⟩

def headerWith (nonce : Nonce) : Header := ⟨zeroBlock 16, .password slot, nonce⟩

/-- The text with the start of the nonce as its tag. -/
def tagged (nonce : Nonce) (plain : List UInt8) : List UInt8 := plain ++ nonce.bytes.take tagLen

def body (nonce : Nonce) (entries : Entries) : Sealing :=
  ⟨vaultKey, nonce, (headerWith nonce).encode, RoundTripWitness.payloadOf entries,
    tagged nonce (RoundTripWitness.payloadOf entries)⟩

/-- A secret whose kind has the byte of a password. -/
def disguised : Entries := [(lucky.secretId, ⟨.other 1, []⟩)]

/-- All that is ever sealed: the key, no secret, and one. -/
def sealings : List Sealing :=
  [⟨zeroBlock keyLen, zeroBlock nonceLen, (headerWith (zeroBlock nonceLen)).slotPrefix,
      vaultKey.bytes, tagged (zeroBlock nonceLen) vaultKey.bytes⟩,
    body (zeroBlock nonceLen) [], body otherNonce disguised]

def cipher : Cipher where
  encrypt := fun _ nonce _ plain => tagged nonce plain
  decrypt := fun key nonce aad text =>
    (sealings.find? fun made => decide (made.key = key) && decide (made.nonce = nonce) &&
      decide (made.aad = aad) && decide (made.text = text)).map Sealing.plain
  argon2 := fun password _ _ => derived password

def slots (made : SlotMade) : Prop := made = ⟨zeroBlock 16, slot, vaultKey, master⟩

theorem eq_of_nonce : ∀ first ∈ sealings, ∀ second ∈ sealings, first.key = second.key →
    first.nonce = second.nonce → first = second := by
  intro first hfirst second hsecond hkey hnonce
  simp only [sealings, mem_cons, not_mem_nil, or_false] at hfirst hsecond
  rcases hfirst with rfl | rfl | rfl <;> rcases hsecond with rfl | rfl | rfl <;>
    first
      | rfl
      | exact absurd hkey (by decide)
      | exact absurd hnonce (by decide)

theorem length_tagged (nonce : Nonce) (plain : List UInt8) :
    (tagged nonce plain).length = plain.length + tagLen := by
  have hlength : (nonce.bytes.take tagLen).length = tagLen := by
    rw [length_take, nonce.size]
    rfl
  rw [tagged, length_append, hlength]

theorem tagOf_tagged (nonce : Nonce) (plain : List UInt8) :
    tagOf (tagged nonce plain) = nonce.bytes.take tagLen := by
  rw [tagOf, length_tagged, Nat.add_sub_cancel, tagged, drop_left]

theorem text_of_mem : ∀ made ∈ sealings, made.text = tagged made.nonce made.plain := by
  intro made hmem
  simp only [sealings, mem_cons, not_mem_nil, or_false] at hmem
  rcases hmem with rfl | rfl | rfl
  · rfl
  · rfl
  · rfl

theorem eq_of_tag : ∀ first ∈ sealings, ∀ second ∈ sealings, first.key = second.key →
    tagOf first.text = tagOf second.text → first = second := by
  intro first hfirst second hsecond hkey htag
  rw [text_of_mem _ hfirst, text_of_mem _ hsecond, tagOf_tagged, tagOf_tagged] at htag
  simp only [sealings, mem_cons, not_mem_nil, or_false] at hfirst hsecond
  rcases hfirst with rfl | rfl | rfl <;> rcases hsecond with rfl | rfl | rfl <;>
    first
      | rfl
      | exact absurd hkey (by decide)
      | exact absurd htag (by decide)

theorem ideal : Ideal cipher (· ∈ sealings) where
  decrypts := by
    intro key nonce aad text plain
    simp only [cipher, map_eq_some_iff]
    constructor
    · rintro ⟨made, hfound, rfl⟩
      have hmem := mem_of_find?_eq_some hfound
      have hsame := List.find?_some hfound
      simp only [Bool.and_eq_true, decide_eq_true_eq] at hsame
      obtain ⟨⟨⟨rfl, rfl⟩, rfl⟩, rfl⟩ := hsame
      exact hmem
    · intro hmem
      cases hfound : sealings.find? fun made => decide (made.key = key) &&
          decide (made.nonce = nonce) && decide (made.aad = aad) &&
          decide (made.text = text) with
      | none => exact absurd (List.find?_eq_none.mp hfound _ hmem) (by simp)
      | some made =>
        have hsame := List.find?_some hfound
        simp only [Bool.and_eq_true, decide_eq_true_eq] at hsame
        have heq := eq_of_nonce _ (mem_of_find?_eq_some hfound) _ hmem hsame.1.1.1 hsame.1.1.2
        exact ⟨made, rfl, congrArg Sealing.plain heq⟩
  length := by
    intro made hmem
    rw [text_of_mem made hmem, length_tagged]
  nonce := fun first second hfirst hsecond => eq_of_nonce first hfirst second hsecond
  tag := fun first second hfirst hsecond => eq_of_tag first hfirst second hsecond

theorem idealSlot : IdealSlot cipher slots := by
  rintro made rfl bodyNonce tried
  by_cases heq : tried = master
  · rw [if_pos heq, heq]
    rfl
  · rw [if_neg heq]
    have hderived : derived tried = ⟨List.replicate 32 1, by decide⟩ := if_neg heq
    have hclosed : deriveKey cipher tried slot.salt slot.params =
        .ok ⟨List.replicate 32 1, by decide⟩ := congrArg Except.ok hderived
    rw [Header.unwrapKey]
    dsimp only
    rw [hclosed]
    rfl

/-- A vault with a master password and one secret. -/
def created : World := (perform cipher lucky (.create (some master) costs) empty).2

def stored : World := (perform cipher lucky' (.insert (.other 1) []) created).2

theorem works_lucky : Works lucky := ⟨rfl, rfl, rfl, rfl, rfl, rfl⟩

theorem works_lucky' : Works lucky' := ⟨rfl, rfl, rfl, rfl, rfl, rfl⟩

variable {event : Event}

theorem recorded_of_unlocked {world : World} {nonce : Nonce} {entries : Entries} {file : List UInt8}
    (hstate : (perform cipher event.2 event.1 world).2.state =
      .unlocked ⟨headerWith nonce, vaultKey, entries, file, false⟩)
    (hpayload : encodePayload entries = .ok (RoundTripWitness.payloadOf entries))
    (hmem : body nonce entries ∈ sealings)
    (hsets : ∀ password, event.1.sets = some password → password = master)
    (hfresh : ∀ id, world.keyring id = none) :
    Recorded cipher (· ∈ sealings) slots world event where
  sealing := by
    intro after hrun vault hopen payload hencoded
    rw [hrun, hopen] at hstate
    obtain rfl := State.unlocked.inj hstate
    rw [hpayload] at hencoded
    obtain rfl := Except.ok.inj hencoded
    exact hmem
  slot := by
    intro after vault found password hrun hopen hholder hpassword
    rw [hrun, hopen] at hstate
    obtain rfl := State.unlocked.inj hstate
    obtain rfl := Holder.password.inj hholder
    rw [hsets password hpassword]
    rfl
  fresh := fun _ _ _ id _ => hfresh id

theorem recorded_of_not_unlocked {world : World}
    (h : ∀ after vault, perform cipher event.2 event.1 world = (.ok (), after) →
      after.state ≠ .unlocked vault) (hfresh : ∀ id, world.keyring id = none) :
    Recorded cipher (· ∈ sealings) slots world event where
  sealing := fun after hrun vault hopen => absurd hopen (h after vault hrun)
  slot := fun after vault _ _ hrun hopen => absurd hopen (h after vault hrun)
  fresh := fun _ _ _ id _ => hfresh id

theorem encodePayload_nil : encodePayload [] = .ok (RoundTripWitness.payloadOf []) :=
  encodePayload_eq_ok.mpr ⟨by decide, by decide, by decide, rfl⟩

theorem encodePayload_disguised :
    encodePayload disguised = .ok (RoundTripWitness.payloadOf disguised) :=
  encodePayload_eq_ok.mpr ⟨by decide, by decide, by decide, rfl⟩

theorem allowed_create : Allowed cipher (· ∈ sealings) slots ((openVault lucky empty).2, none)
    (.create (some master) costs, lucky) where
  works := works_lucky
  recorded := recorded_of_unlocked rfl encodePayload_nil
    (mem_cons_of_mem _ mem_cons_self)
    (fun _ hsets => (some.inj hsets).symm) fun _ => rfl
  kept := nofun

theorem allowed_insert : Allowed cipher (· ∈ sealings) slots
    (created, some ⟨[], some master, false⟩) (.insert (.other 1) [], lucky') where
  works := works_lucky'
  recorded := recorded_of_unlocked rfl encodePayload_disguised
    (mem_cons_of_mem _ (mem_cons_of_mem _ mem_cons_self))
    (fun _ hsets => nomatch hsets) fun _ => rfl
  kept := nofun

def wrong : List UInt8 := [0x71]

/-- The file opened again. -/
def reopened : World := (perform cipher lucky .reopen stored).2

/-- A wrong password tried. -/
def wrongly (world : World) : World := (perform cipher lucky (.unlock wrong 0) world).2

def lockedOut : World := wrongly (wrongly (wrongly reopened))

theorem allowed_quiet {world : World} {plain : Option Plain} {op : Operation}
    (hstate : ∀ after vault, perform cipher lucky op world = (.ok (), after) →
    after.state ≠ .unlocked vault) (hfresh : ∀ id, world.keyring id = none) (hkept : op ≠ .reset) :
    Allowed cipher (· ∈ sealings) slots (world, plain) (op, lucky) :=
  ⟨works_lucky, recorded_of_not_unlocked hstate hfresh, hkept⟩

theorem wrongly_fails {world after : World}
    (h : (perform cipher lucky (.unlock wrong 0) world).1 ≠ .ok ()) (vault : Unlocked)
    (hrun : perform cipher lucky (.unlock wrong 0) world = (.ok (), after)) :
    after.state ≠ .unlocked vault := by
  rw [hrun] at h
  exact absurd rfl h

theorem stored_run : GoodRun (mapStep cipher) (Allowed cipher (· ∈ sealings) slots)
    ((openVault lucky empty).2, none)
    [(.create (some master) costs, lucky), (.insert (.other 1) [], lucky')]
    (stored, some ⟨disguised, some master, false⟩) :=
  .cons allowed_create rfl (.cons allowed_insert rfl (.nil _))

set_option maxRecDepth 20000 in
theorem lockedOut_run : GoodRun (mapStep cipher) (Allowed cipher (· ∈ sealings) slots)
    ((openVault lucky empty).2, none)
    [(.create (some master) costs, lucky), (.insert (.other 1) [], lucky'),
      (.reopen, lucky), (.unlock wrong 0, lucky), (.unlock wrong 0, lucky),
      (.unlock wrong 0, lucky)] (lockedOut, some ⟨disguised, some master, false⟩) := by
  refine .cons allowed_create rfl (.cons allowed_insert rfl ?_)
  refine .cons (allowed_quiet ?_ (fun _ => rfl) nofun) rfl ?_
  · intro after vault hrun
    rw [← (Prod.mk.inj hrun).2]
    exact nofun
  have hlocked : ∀ world, world = reopened ∨ world = wrongly reopened ∨
      world = wrongly (wrongly reopened) →
      (perform cipher lucky (.unlock wrong 0) world).1 ≠ .ok () := by
    rintro world (rfl | rfl | rfl)
    · exact nofun
    · exact nofun
    · exact nofun
  exact .cons (allowed_quiet
      (fun _ => wrongly_fails (hlocked reopened (Or.inl rfl))) (fun _ => rfl) nofun) rfl
    (.cons (allowed_quiet (fun _ => wrongly_fails (hlocked (wrongly reopened)
      (Or.inr (Or.inl rfl)))) (fun _ => rfl) nofun) rfl
    (.cons (allowed_quiet (fun _ => wrongly_fails (hlocked (wrongly (wrongly reopened))
      (Or.inr (Or.inr rfl)))) (fun _ => rfl) nofun) rfl (.nil _)))

/-- The open vault has the secret, and after the wrong passwords the file still opens to it. -/
theorem stored_refines :
    (∃ vault, stored.state = .unlocked vault ∧ SameSecrets vault.entries disguised) ∧
    ∀ opening chance, opening.readable = true → chance.keyringGet = none →
      Unlocks cipher chance (openVault opening lockedOut).2 ⟨disguised, some master, false⟩ := by
  have hstored := run_refines ideal idealSlot rfl rfl stored_run
  have hlockedOut := run_refines ideal idealSlot rfl rfl lockedOut_run
  refine ⟨⟨_, rfl, ?_⟩, hlockedOut.2⟩
  obtain ⟨plain, hplain, hsame, -⟩ := hstored.1 _ rfl
  rw [← Option.some.inj hplain] at hsame
  exact hsame

set_option maxRecDepth 20000 in
/-- After three wrong passwords the right one has to wait, and a secret whose kind has the
byte of a password comes back as a password. -/
theorem lockedOut_waits : Ideal cipher (· ∈ sealings) ∧ IdealSlot cipher slots ∧
    GoodRun (mapStep cipher) (Allowed cipher (· ∈ sealings) slots)
      ((openVault lucky empty).2, none)
      [(.create (some master) costs, lucky), (.insert (.other 1) [], lucky'),
        (.reopen, lucky), (.unlock wrong 0, lucky), (.unlock wrong 0, lucky),
        (.unlock wrong 0, lucky)] (lockedOut, some ⟨disguised, some master, false⟩) ∧
    (unlock cipher lucky master 0 (openVault lucky lockedOut).2).1 = .error (.wait 5) ∧
    ∃ vault, (unlock cipher lucky master 5 (openVault lucky lockedOut).2).2.state =
      .unlocked vault ∧ vault.entries ≠ disguised :=
  ⟨ideal, idealSlot, lockedOut_run, rfl, _, rfl, by decide⟩

end MapWitness

end Opensesh.Vault
