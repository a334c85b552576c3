/-
What each operation of the vault does when it succeeds: to the secrets in memory, to the
file and to the keyring.
-/
import Opensesh.VaultFails

namespace Opensesh.Vault

open Option

/-- The state, the file and the keyring after an operation; the waits may be others. -/
structure Became (before after : World) (state : State) (disk : Option (List UInt8))
    (keyring : Keyring) : Prop where
  onDisk : after.onDisk = before.onDisk
  state : after.state = state
  disk : after.disk = disk
  keyring : after.keyring = keyring

/-- The file after this one was written. -/
def World.diskWith (world : World) (file : List UInt8) : Option (List UInt8) :=
  if world.onDisk = false then world.disk else some file

@[simp] theorem written_disk (world : World) (file : List UInt8) :
    (world.written file).disk = world.diskWith file := by
  rw [World.written, World.diskWith]
  split <;> rfl

theorem diskWith_of_kept {world middle : World} (h : Kept world middle)
    (file : List UInt8) : middle.diskWith file = world.diskWith file := by
  rw [World.diskWith, World.diskWith, h.onDisk, h.disk]

section Steps

variable {cipher : Cipher} {chance : Chance} {world after : World}

theorem setState_eq_ok {state : State} : setState state world = (.ok (), after) ↔
    after = { world with state } := by
  constructor
  · intro h
    exact (Prod.mk.inj h).2.symm
  · rintro rfl
    rfl

variable {α : Type} {id vaultId : Block 16} {password : List UInt8} {now : Nat} {params : KdfParams}
  {holder : Holder}

theorem Quiet.kept {x : VaultOp α} {result : Except VaultError α} (h : Quiet x)
    (heq : x world = (result, after)) : Kept world after := by
  have hkept := h world
  rwa [heq] at hkept

/-- The secrets changed as asked, and the file with them. -/
theorem change_eq_ok {f : Entries → α × Entries} {a : α}
    (h : change cipher chance f world = (.ok a, after)) :
    ∃ vault sealed, world.state = .unlocked vault ∧ a = (f vault.entries).1 ∧
      sealFile cipher chance.bodyNonce vault.header vault.key (f vault.entries).2 = .ok sealed ∧
      Became world after (.unlocked { vault with
        entries := (f vault.entries).2, header := sealed.1, file := sealed.2 })
        (world.diskWith sealed.2) world.keyring := by
  rw [change] at h
  obtain ⟨vault, middle, hvault, hchange⟩ := Attempt.bind_eq_ok_iff.mp h
  obtain ⟨hstate, rfl⟩ := unlocked_eq_ok.mp hvault
  obtain ⟨sealed, written, hwrite, hset⟩ := Attempt.bind_eq_ok_iff.mp hchange
  obtain ⟨hsealed, -, rfl⟩ := write_eq_ok.mp hwrite
  obtain ⟨⟨⟩, last, hstored, hpure⟩ := Attempt.bind_eq_ok_iff.mp hset
  obtain rfl := setState_eq_ok.mp hstored
  obtain ⟨hresult, rfl⟩ := Prod.mk.inj hpure
  exact ⟨vault, sealed, hstate, (Except.ok.inj hresult).symm, hsealed,
    written_onDisk _ _, rfl, written_disk _ _, written_keyring _ _⟩

theorem keyringGet_eq_ok {stored : Option (List UInt8)} :
    keyringGet chance id world = (.ok stored, after) ↔
      (chance.keyringGet = none ∧ world.keyring id = stored) ∧ after = world := by
  rw [keyringGet]
  cases chance.keyringGet with
  | some error => simp
  | none => simp [eq_comm]

/-- The password opened the header. -/
theorem tryPassword_eq_ok {key : Key}
    (h : tryPassword cipher chance password now world = (.ok key, after)) :
    ∃ header, world.state.header = some header ∧ header.holder.isPassword = true ∧
      header.unwrapKey cipher password = .ok key := by
  rw [tryPassword, Attempt.state_bind] at h
  cases hheader : world.state.header with
  | none =>
    rw [hheader] at h
    cases h
  | some header =>
    rw [hheader] at h
    dsimp only at h
    split at h
    · cases h
    · rename_i hpassword
      obtain ⟨pause, paused, -, hrest⟩ := Attempt.bind_eq_ok_iff.mp h
      split at hrest
      · cases hrest
      · cases hunwrap : header.unwrapKey cipher password with
        | ok found =>
          rw [hunwrap] at hrest
          obtain ⟨⟨⟩, last, -, hpure⟩ := Attempt.bind_eq_ok_iff.mp hrest
          obtain ⟨hkey, -⟩ := Prod.mk.inj hpure
          obtain rfl := Except.ok.inj hkey
          exact ⟨header, rfl, Bool.eq_true_of_not_eq_false hpassword, hunwrap⟩
        | error cause =>
          rw [hunwrap] at hrest
          cases cause with
          | decrypt =>
            obtain ⟨⟨⟩, last, -, hwait⟩ := Attempt.bind_eq_ok_iff.mp hrest
            obtain ⟨pause, last, -, hfail⟩ := Attempt.bind_eq_ok_iff.mp hwait
            cases hfail
          | _ => cases hrest

theorem remember_eq_ok {remembered : Bool} {key : Key} :
    remember chance remembered id key world = (.ok (), after) ↔
      (remembered = true → chance.keyringSet = none) ∧
        after = { world with keyring :=
          if remembered = true then world.keyring.set id key.bytes else world.keyring } := by
  rw [remember]
  cases remembered with
  | true =>
    rw [if_pos rfl, keyringSet_eq_ok]
    simp
  | false =>
    have hpure : (pure () : VaultOp Unit) world = (.ok (), world) := rfl
    rw [if_neg Bool.false_ne_true, hpure]
    simp only [Prod.mk.injEq, true_and, Bool.false_eq_true, if_false, false_implies]
    exact eq_comm

theorem forget_eq_ok {remembered : Bool} {done : Unit}
    (h : forget chance remembered id world = (.ok (.ok done), after)) :
    after.onDisk = world.onDisk ∧ after.disk = world.disk ∧
      after.keyring =
        if remembered = true then world.keyring else world.keyring.delete id := by
  rw [forget] at h
  cases remembered with
  | true =>
    obtain ⟨-, rfl⟩ := Prod.mk.inj h
    exact ⟨rfl, rfl, rfl⟩
  | false =>
    rw [if_neg Bool.false_ne_true] at h ⊢
    obtain ⟨hresult, rfl⟩ := Prod.mk.inj h
    have hdelete : keyringDelete chance id world = (.ok (), (keyringDelete chance id world).2) :=
      Prod.ext (Except.ok.inj hresult) rfl
    obtain ⟨-, hafter⟩ := keyringDelete_eq_ok.mp hdelete
    rw [hafter]
    exact ⟨rfl, rfl, rfl⟩

theorem setPassword_eq_ok {remembered : Bool}
    (h : setPassword cipher chance password params remembered world = (.ok (), after)) :
    ∃ vault slot sealed, world.state = .unlocked vault ∧
      passwordSlot cipher chance.salt chance.slotNonce vault.header.vaultId vault.key
        password params = .ok slot ∧
      sealFile cipher chance.bodyNonce
        ⟨vault.header.vaultId, .password slot, zeroBlock nonceLen⟩ vault.key vault.entries =
        .ok sealed ∧
      Became world after
        (.unlocked { vault with header := sealed.1, file := sealed.2, remembered })
        (world.diskWith sealed.2)
        (if remembered = true then world.keyring.set vault.header.vaultId vault.key.bytes
        else world.keyring.delete vault.header.vaultId) := by
  rw [setPassword] at h
  obtain ⟨vault, middle, hvault, hopen⟩ := Attempt.bind_eq_ok_iff.mp h
  obtain ⟨hstate, rfl⟩ := unlocked_eq_ok.mp hvault
  obtain ⟨slot, slotted, hslotted, hkeep⟩ := Attempt.bind_eq_ok_iff.mp hopen
  obtain ⟨hslot, rfl⟩ := Prod.mk.inj hslotted
  obtain ⟨⟨⟩, kept, hremember, hseal⟩ := Attempt.bind_eq_ok_iff.mp hkeep
  obtain ⟨-, rfl⟩ := remember_eq_ok.mp hremember
  obtain ⟨sealed, written, hwrite, hend⟩ := Attempt.bind_eq_ok_iff.mp hseal
  obtain ⟨hsealed, -, rfl⟩ := write_eq_ok.mp hwrite
  obtain ⟨forgotten, last, hforgotten, hset⟩ := Attempt.bind_eq_ok_iff.mp hend
  cases forgotten with
  | error store =>
    obtain ⟨⟨⟩, stored, -, hfail⟩ := Attempt.bind_eq_ok_iff.mp hset
    cases hfail
  | ok done =>
    obtain rfl := setState_eq_ok.mp hset
    obtain ⟨honDisk, hdisk, hkeyring⟩ := forget_eq_ok hforgotten
    refine ⟨vault, slot, sealed, hstate, hslot, hsealed, ?_, rfl, ?_, ?_⟩
    · exact honDisk.trans (written_onDisk _ _)
    · exact hdisk.trans (written_disk _ _)
    · refine hkeyring.trans ?_
      rw [written_keyring]
      cases remembered <;> rfl

theorem verifyPassword_eq_ok {password : List UInt8} {now : Nat}
    (h : verifyPassword cipher chance password now world = (.ok (), after)) :
    ∃ vault, world.state = .unlocked vault ∧ vault.header.holder.isPassword = true := by
  rw [verifyPassword] at h
  obtain ⟨vault, middle, hvault, htry⟩ := Attempt.bind_eq_ok_iff.mp h
  obtain ⟨hstate, rfl⟩ := unlocked_eq_ok.mp hvault
  obtain ⟨key, tried, hkey, -⟩ := Attempt.bind_eq_ok_iff.mp htry
  obtain ⟨header, hheader, hpassword, -⟩ := tryPassword_eq_ok hkey
  rw [hstate] at hheader
  obtain rfl := some.inj hheader
  exact ⟨vault, hstate, hpassword⟩

theorem removePassword_eq_ok {current : List UInt8}
    (h : removePassword cipher chance current now world = (.ok (), after)) :
    ∃ vault sealed, world.state = .unlocked vault ∧
      sealFile cipher chance.bodyNonce
        ⟨vault.header.vaultId, .keyring, zeroBlock nonceLen⟩ vault.key vault.entries =
        .ok sealed ∧
      Became world after
        (.unlocked { vault with header := sealed.1, file := sealed.2, remembered := false })
        (world.diskWith sealed.2)
        (world.keyring.set vault.header.vaultId vault.key.bytes) := by
  rw [removePassword] at h
  obtain ⟨⟨⟩, middle, hverify, hopen⟩ := Attempt.bind_eq_ok_iff.mp h
  have hkept := (quiet_verifyPassword cipher chance current now).kept hverify
  obtain ⟨vault, opened, hvault, hset⟩ := Attempt.bind_eq_ok_iff.mp hopen
  obtain ⟨hstate, rfl⟩ := unlocked_eq_ok.mp hvault
  obtain ⟨⟨⟩, stored, hkeyring, hseal⟩ := Attempt.bind_eq_ok_iff.mp hset
  obtain ⟨-, rfl⟩ := keyringSet_eq_ok.mp hkeyring
  obtain ⟨sealed, written, hwrite, hend⟩ := Attempt.bind_eq_ok_iff.mp hseal
  obtain ⟨hsealed, -, rfl⟩ := write_eq_ok.mp hwrite
  obtain rfl := setState_eq_ok.mp hend
  rw [hkept.state] at hstate
  refine ⟨vault, sealed, hstate, hsealed, ?_, rfl, ?_, ?_⟩
  · exact (written_onDisk _ _).trans hkept.onDisk
  · exact (written_disk _ _).trans (diskWith_of_kept hkept _)
  · refine (written_keyring _ _).trans ?_
    rw [hkept.keyring]

theorem setRemember_eq_ok {remembered : Bool}
    (h : setRemember chance remembered world = (.ok (), after)) :
    ∃ vault, world.state = .unlocked vault ∧ vault.header.holder.isPassword = true ∧
      Became world after (.unlocked { vault with remembered }) world.disk
        (if remembered = true then world.keyring.set vault.header.vaultId vault.key.bytes
        else world.keyring.delete vault.header.vaultId) := by
  rw [setRemember] at h
  obtain ⟨vault, middle, hvault, hset⟩ := Attempt.bind_eq_ok_iff.mp h
  obtain ⟨hstate, rfl⟩ := unlocked_eq_ok.mp hvault
  split at hset
  · cases hset
  · rename_i hpassword
    refine ⟨vault, hstate, Bool.eq_true_of_not_eq_false hpassword, ?_⟩
    cases remembered with
    | true =>
      obtain ⟨⟨⟩, stored, hkeyring, hend⟩ := Attempt.bind_eq_ok_iff.mp hset
      obtain ⟨-, rfl⟩ := keyringSet_eq_ok.mp hkeyring
      obtain rfl := setState_eq_ok.mp hend
      exact ⟨rfl, rfl, rfl, rfl⟩
    | false =>
      obtain ⟨⟨⟩, stored, hkeyring, hend⟩ := Attempt.bind_eq_ok_iff.mp hset
      obtain ⟨-, rfl⟩ := keyringDelete_eq_ok.mp hkeyring
      obtain rfl := setState_eq_ok.mp hend
      exact ⟨rfl, rfl, rfl, rfl⟩

theorem newHolder_eq_ok {key : Key} {password : Option (List UInt8)}
    (h : newHolder cipher chance vaultId key password params world = (.ok holder, after)) :
    (password = none ∧ holder = .keyring ∧
      after = { world with keyring := world.keyring.set vaultId key.bytes }) ∨
    ∃ master slot, password = some master ∧ holder = .password slot ∧
      passwordSlot cipher chance.salt chance.slotNonce vaultId key master params = .ok slot ∧
      after = world := by
  cases password with
  | none =>
    rw [newHolder] at h
    obtain ⟨⟨⟩, stored, hkeyring, hpure⟩ := Attempt.bind_eq_ok_iff.mp h
    obtain ⟨-, rfl⟩ := keyringSet_eq_ok.mp hkeyring
    obtain ⟨hholder, rfl⟩ := Prod.mk.inj hpure
    exact Or.inl ⟨rfl, (Except.ok.inj hholder).symm, rfl⟩
  | some master =>
    rw [newHolder] at h
    obtain ⟨slot, slotted, hslotted, hpure⟩ := Attempt.bind_eq_ok_iff.mp h
    obtain ⟨hslot, rfl⟩ := Prod.mk.inj hslotted
    obtain ⟨hholder, rfl⟩ := Prod.mk.inj hpure
    exact Or.inr ⟨master, slot, rfl, (Except.ok.inj hholder).symm, hslot, rfl⟩

theorem firstWrite_eq_ok {key : Key} {password : Option (List UInt8)}
    (h : firstWrite cipher chance vaultId holder key password world = (.ok (), after)) :
    ∃ sealed, sealFile cipher chance.bodyNonce ⟨vaultId, holder, zeroBlock nonceLen⟩ key [] =
        .ok sealed ∧
      Became world after (.unlocked ⟨sealed.1, key, [], sealed.2, false⟩)
        (world.diskWith sealed.2) world.keyring := by
  rw [firstWrite] at h
  obtain ⟨written, middle, hwritten, hend⟩ := Attempt.bind_eq_ok_iff.mp h
  obtain ⟨hresult, rfl⟩ := Prod.mk.inj hwritten
  cases written with
  | ok sealed =>
    have hwrite : write cipher chance ⟨vaultId, holder, zeroBlock nonceLen⟩ key [] world =
        (.ok sealed, (write cipher chance ⟨vaultId, holder, zeroBlock nonceLen⟩ key []
          world).2) := Prod.ext (Except.ok.inj hresult) rfl
    obtain ⟨hsealed, -, hafter⟩ := write_eq_ok.mp hwrite
    obtain rfl := setState_eq_ok.mp hend
    rw [hafter]
    exact ⟨sealed, hsealed, written_onDisk _ _, rfl, written_disk _ _, written_keyring _ _⟩
  | error cause =>
    dsimp only at hend
    split at hend
    · obtain ⟨result, last, -, hfail⟩ := Attempt.bind_eq_ok_iff.mp hend
      cases hfail
    · cases hend

/-- A new vault is empty and unlocked. -/
theorem create_eq_ok {password : Option (List UInt8)}
    (h : create cipher chance password params world = (.ok (), after)) :
    world.state = .missing ∧ ∃ vaultId key holder sealed, chance.vaultId = some vaultId ∧
      (password = none ∧ holder = .keyring ∨
        ∃ master slot, password = some master ∧ holder = .password slot ∧
          passwordSlot cipher chance.salt chance.slotNonce vaultId key master params = .ok slot) ∧
      sealFile cipher chance.bodyNonce ⟨vaultId, holder, zeroBlock nonceLen⟩ key [] = .ok sealed ∧
      Became world after (.unlocked ⟨sealed.1, key, [], sealed.2, false⟩)
        (world.diskWith sealed.2)
        (if password = none then world.keyring.set vaultId key.bytes else world.keyring) := by
  rw [create, Attempt.state_bind] at h
  cases hstate : world.state with
  | missing =>
    rw [hstate] at h
    obtain ⟨vaultId, drawn, hdrawn, hkeyed⟩ := Attempt.bind_eq_ok_iff.mp h
    obtain ⟨hid, rfl⟩ := Prod.mk.inj hdrawn
    obtain ⟨key, drawn, hdrew, hheld⟩ := Attempt.bind_eq_ok_iff.mp hkeyed
    obtain ⟨-, rfl⟩ := Prod.mk.inj hdrew
    obtain ⟨holder, holding, hholder, hwrite⟩ := Attempt.bind_eq_ok_iff.mp hheld
    obtain ⟨sealed, hsealed, hbecame⟩ := firstWrite_eq_ok hwrite
    refine ⟨rfl, vaultId, key, holder, sealed, random_eq_ok.mp hid, ?_, hsealed, ?_⟩
    · rcases newHolder_eq_ok hholder with ⟨hnone, hkeyring, -⟩ | ⟨master, slot, hsome, hslot,
        hmade, -⟩
      · exact Or.inl ⟨hnone, hkeyring⟩
      · exact Or.inr ⟨master, slot, hsome, hslot, hmade⟩
    · rcases newHolder_eq_ok hholder with ⟨hnone, -, rfl⟩ | ⟨master, slot, hsome, -, -, rfl⟩
      · rw [if_pos hnone]
        exact ⟨hbecame.onDisk, hbecame.state, hbecame.disk, hbecame.keyring⟩
      · rw [if_neg (by simp [hsome])]
        exact hbecame
  | _ =>
    rw [hstate] at h
    cases h

theorem openUnwrapped_eq_ok {file : List UInt8} {key : Key} {read : Header × Entries} :
    openUnwrapped cipher file key = .ok read ↔ openFile cipher file key = .ok read := by
  rw [openUnwrapped]
  cases openFile cipher file key with
  | ok found => exact Iff.rfl
  | error error =>
    cases error with
    | _ => simp

theorem seenInKeyring_eq_ok {key : Key} {seen : Bool}
    (h : seenInKeyring chance id key world = (.ok seen, after)) :
    (seen = true → world.keyring id = some key.bytes) ∧
      (chance.keyringGet = none → world.keyring id = some key.bytes → seen = true) := by
  rw [seenInKeyring] at h
  obtain ⟨stored, middle, hlooked, hseen⟩ := Attempt.bind_eq_ok_iff.mp h
  obtain ⟨hresult, rfl⟩ := Prod.mk.inj hlooked
  have hstored := Except.ok.inj hresult
  rw [keyringGet] at hstored
  cases hchance : chance.keyringGet with
  | some error =>
    rw [hchance] at hstored
    obtain rfl := hstored
    obtain ⟨hresult, -⟩ := Prod.mk.inj hseen
    obtain rfl := Except.ok.inj hresult
    exact ⟨fun hfalse => (by cases hfalse), fun hnone => (by cases hnone)⟩
  | none =>
    rw [hchance] at hstored
    obtain rfl := hstored
    cases hentry : world.keyring id with
    | none =>
      rw [hentry] at hseen
      obtain ⟨hresult, -⟩ := Prod.mk.inj hseen
      obtain rfl := Except.ok.inj hresult
      exact ⟨fun hfalse => (by cases hfalse), fun _ hnone => (by cases hnone)⟩
    | some entry =>
      rw [hentry] at hseen
      obtain ⟨hresult, -⟩ := Prod.mk.inj hseen
      obtain rfl := Except.ok.inj hresult
      exact ⟨fun heq => congrArg some (of_decide_eq_true heq),
        fun _ heq => decide_eq_true (some.inj heq)⟩

/-- Unlocking opens the file with its key. -/
theorem unlock_eq_ok (h : unlock cipher chance password now world = (.ok (), after)) :
    (∃ vault, world.state = .unlocked vault ∧ after = world) ∨
    ∃ header file key read seen, world.state = .locked header file ∧
      header.holder.isPassword = true ∧ header.unwrapKey cipher password = .ok key ∧
      openFile cipher file key = .ok read ∧
      (seen = true → world.keyring read.1.vaultId = some key.bytes) ∧
      (chance.keyringGet = none → world.keyring read.1.vaultId = some key.bytes → seen = true) ∧
      Became world after (.unlocked ⟨read.1, key, read.2, file, seen⟩) world.disk
        world.keyring := by
  rw [unlock, Attempt.state_bind] at h
  cases hstate : world.state with
  | unlocked vault =>
    rw [hstate] at h
    obtain ⟨-, rfl⟩ := Prod.mk.inj h
    exact Or.inl ⟨vault, rfl, rfl⟩
  | missing =>
    rw [hstate] at h
    cases h
  | unreadable =>
    rw [hstate] at h
    cases h
  | locked header file =>
    rw [hstate] at h
    obtain ⟨key, tried, htry, hopen⟩ := Attempt.bind_eq_ok_iff.mp h
    have hkept := (quiet_tryPassword cipher chance password now).kept htry
    obtain ⟨slotted, hslotted, hpassword, hunwrap⟩ := tryPassword_eq_ok htry
    rw [hstate] at hslotted
    obtain rfl := some.inj hslotted
    obtain ⟨read, opened, hopened, hlook⟩ := Attempt.bind_eq_ok_iff.mp hopen
    obtain ⟨hread, rfl⟩ := Prod.mk.inj hopened
    obtain ⟨seen, looked, hseen, hend⟩ := Attempt.bind_eq_ok_iff.mp hlook
    have hlooked := (quiet_seenInKeyring chance read.1.vaultId key).kept hseen
    obtain ⟨hback, hforth⟩ := seenInKeyring_eq_ok hseen
    obtain rfl := setState_eq_ok.mp hend
    have hboth := hkept.trans hlooked
    rw [hkept.keyring] at hback hforth
    exact Or.inr ⟨header, file, key, read, seen, rfl, hpassword, hunwrap,
      openUnwrapped_eq_ok.mp hread, hback, hforth, hboth.onDisk, rfl, hboth.disk,
      hboth.keyring⟩

/-- The keyring entry is the key of the file. -/
theorem openWithEntry_eq_some {file stored : List UInt8} {key : Key} {entries : Entries} :
    openWithEntry cipher file stored = .ok (some (key, entries)) ↔
      stored = key.bytes ∧ ∃ header, openFile cipher file key = .ok (header, entries) := by
  rw [openWithEntry]
  cases hblock : Block.ofBytes keyLen stored with
  | none =>
    have hnone : stored ≠ key.bytes := by
      rintro rfl
      rw [Block.ofBytes_bytes] at hblock
      cases hblock
    simp [hnone]
  | some found =>
    obtain rfl := Block.ofBytes_eq_some.mp hblock
    dsimp only
    cases hopen : openFile cipher file found with
    | ok read =>
      simp only [Except.ok.injEq, some.injEq, Prod.mk.injEq]
      constructor
      · rintro ⟨rfl, rfl⟩
        exact ⟨rfl, read.1, hopen⟩
      · rintro ⟨hbytes, header, hread⟩
        obtain rfl := Block.ext hbytes
        rw [hopen] at hread
        exact ⟨rfl, congrArg Prod.snd (Except.ok.inj hread)⟩
    | error error =>
      have hnone : ¬ (found.bytes = key.bytes ∧
          ∃ header, openFile cipher file key = .ok (header, entries)) := by
        rintro ⟨hbytes, header, hread⟩
        obtain rfl := Block.ext hbytes
        rw [hopen] at hread
        cases hread
      cases error <;> simp [hnone]

theorem unlockWithKeyring_eq_true (h : unlockWithKeyring cipher chance world = (.ok true, after)) :
    (∃ vault, world.state = .unlocked vault ∧ after = world) ∨
    ∃ header file key read, world.state = .locked header file ∧
      world.keyring header.vaultId = some key.bytes ∧
      openFile cipher file key = .ok read ∧
      Became world after (.unlocked ⟨header, key, read.2, file, header.holder.isPassword⟩)
        world.disk world.keyring := by
  rw [unlockWithKeyring, Attempt.state_bind] at h
  cases hstate : world.state with
  | unlocked vault =>
    rw [hstate] at h
    obtain ⟨-, rfl⟩ := Prod.mk.inj h
    exact Or.inl ⟨vault, rfl, rfl⟩
  | missing =>
    rw [hstate] at h
    cases h
  | unreadable =>
    rw [hstate] at h
    cases h
  | locked header file =>
    rw [hstate] at h
    obtain ⟨stored, looked, hget, hrest⟩ := Attempt.bind_eq_ok_iff.mp h
    obtain ⟨hentry, rfl⟩ := keyringGet_eq_ok.mp hget
    cases stored with
    | none => cases hrest
    | some stored =>
      obtain ⟨opened, lifted, hlifted, hend⟩ := Attempt.bind_eq_ok_iff.mp hrest
      obtain ⟨hopened, rfl⟩ := Prod.mk.inj hlifted
      cases opened with
      | none => cases hend
      | some opened =>
        obtain ⟨key, entries⟩ := opened
        obtain ⟨⟨⟩, last, hset, hpure⟩ := Attempt.bind_eq_ok_iff.mp hend
        obtain rfl := setState_eq_ok.mp hset
        obtain ⟨-, rfl⟩ := Prod.mk.inj hpure
        obtain ⟨rfl, read, hread⟩ := openWithEntry_eq_some.mp hopened
        exact Or.inr ⟨header, file, key, (read, entries), rfl, hentry.2, hread, rfl, rfl, rfl, rfl⟩

/-- A keyring without a key that fits changes nothing. -/
theorem unlockWithKeyring_eq_false
    (h : unlockWithKeyring cipher chance world = (.ok false, after)) : Kept world after := by
  rw [unlockWithKeyring, Attempt.state_bind] at h
  cases hstate : world.state with
  | unlocked vault =>
    rw [hstate] at h
    cases h
  | missing =>
    rw [hstate] at h
    obtain ⟨-, rfl⟩ := Prod.mk.inj h
    exact Kept.rfl
  | unreadable =>
    rw [hstate] at h
    obtain ⟨-, rfl⟩ := Prod.mk.inj h
    exact Kept.rfl
  | locked header file =>
    rw [hstate] at h
    obtain ⟨stored, looked, hget, hrest⟩ := Attempt.bind_eq_ok_iff.mp h
    obtain ⟨-, rfl⟩ := keyringGet_eq_ok.mp hget
    cases stored with
    | none =>
      obtain ⟨-, rfl⟩ := Prod.mk.inj hrest
      exact Kept.rfl
    | some stored =>
      obtain ⟨opened, lifted, hlifted, hend⟩ := Attempt.bind_eq_ok_iff.mp hrest
      obtain ⟨-, rfl⟩ := Prod.mk.inj hlifted
      cases opened with
      | none =>
        obtain ⟨-, rfl⟩ := Prod.mk.inj hend
        exact Kept.rfl
      | some opened =>
        obtain ⟨⟨⟩, last, -, hpure⟩ := Attempt.bind_eq_ok_iff.mp hend
        cases hpure

end Steps

end Opensesh.Vault
