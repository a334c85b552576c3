/-
What the reader of the vault file accepts: each of its readings succeeds exactly on the
bytes the writer makes of what it read, and goes on right after them.
-/
import Opensesh.VaultFormat
import Opensesh.Outcome

namespace Opensesh.Vault

open List

/-- The bytes still to be read. -/
def Reader.left (reader : Reader) : List UInt8 := reader.bytes.drop reader.pos

/-- The next reader stands right after these bytes. -/
structure Advance (reader : Reader) (read : List UInt8) (next : Reader) : Prop where
  bytes : next.bytes = reader.bytes
  pos : next.pos = reader.pos + read.length
  left : reader.left = read ++ next.left

variable {reader : Reader} {α : Type} {header : Header} {entries : Entries}

theorem Advance.nil_iff {next : Reader} : Advance reader [] next ↔ next = reader := by
  constructor
  · rintro ⟨hbytes, hpos, -⟩
    exact Reader.ext hbytes hpos
  · rintro rfl
    exact ⟨rfl, rfl, rfl⟩

theorem exists_advance {read rest : List UInt8} (h : reader.left = read ++ rest) :
    ∃ next, Advance reader read next ∧ next.left = rest := by
  have hlength : reader.pos + read.length ≤ reader.bytes.length := by
    have hleft := congrArg List.length h
    rw [Reader.left, length_drop, length_append] at hleft
    have hinside := reader.inside
    omega
  have hnext : reader.bytes.drop (reader.pos + read.length) = rest := by
    rw [← drop_drop, ← Reader.left, h, drop_left]
  refine ⟨⟨reader.bytes, reader.pos + read.length, hlength⟩, ⟨rfl, rfl, ?_⟩, hnext⟩
  rw [h, ← hnext]
  rfl

theorem Advance.append_iff {next : Reader} {first second : List UInt8} :
    Advance reader (first ++ second) next ↔
      ∃ middle, Advance reader first middle ∧ Advance middle second next := by
  constructor
  · rintro ⟨hbytes, hpos, hleft⟩
    rw [List.append_assoc] at hleft
    obtain ⟨middle, hfirst, hrest⟩ := exists_advance hleft
    refine ⟨middle, hfirst, hbytes.trans hfirst.bytes.symm, ?_, hrest⟩
    rw [hpos, hfirst.pos, length_append]
    omega
  · rintro ⟨middle, hfirst, hsecond⟩
    refine ⟨hsecond.bytes.trans hfirst.bytes, ?_, ?_⟩
    · rw [hsecond.pos, hfirst.pos, length_append]
      omega
    · rw [hfirst.left, hsecond.left, List.append_assoc]

theorem read_bind_eq_ok {α β : Type} {x : Read α} {f : α → Read β} {reader next : Reader}
    {b : β} : (x >>= f) reader = .ok (b, next) ↔
      ∃ a middle, x reader = .ok (a, middle) ∧ f a middle = .ok (b, next) := by
  change (x reader >>= fun read => f read.1 read.2) = .ok (b, next) ↔ _
  cases hx : x reader with
  | error error =>
    constructor
    · intro h
      cases h
    · rintro ⟨a, middle, h, -⟩
      cases h
  | ok read =>
    constructor
    · intro h
      exact ⟨read.1, read.2, rfl, h⟩
    · rintro ⟨a, middle, h, hf⟩
      cases h
      exact hf

theorem read_pure_eq_ok {a b : α} {next : Reader} :
    (pure a : Read α) reader = .ok (b, next) ↔ b = a ∧ next = reader := by
  change Except.ok (a, reader) = Except.ok (b, next) ↔ _
  simp only [Except.ok.injEq, Prod.mk.injEq]
  exact and_congr eq_comm eq_comm

theorem read_throw_ne_ok {error : VaultError} {read : α × Reader} :
    (throw error : Read α) reader ≠ .ok read :=
  fun h => nomatch h

theorem take_eq_ok {len : Nat} {next : Reader} {slice : List UInt8} :
    Reader.take len reader = .ok (slice, next) ↔
      slice.length = len ∧ Advance reader slice next := by
  rw [Reader.take]
  constructor
  · intro h
    split at h
    · rename_i hinside
      cases h
      have hlength : ((reader.bytes.drop reader.pos).take len).length = len := by
        rw [length_take, length_drop]
        omega
      refine ⟨hlength, rfl, by rw [hlength], ?_⟩
      rw [Reader.left, Reader.left, ← drop_drop, take_append_drop]
    · cases h
  · rintro ⟨rfl, hbytes, hpos, hleft⟩
    have hinside : reader.pos + slice.length ≤ reader.bytes.length := by
      have hnext := next.inside
      rw [hbytes, hpos] at hnext
      exact hnext
    have hslice : (reader.bytes.drop reader.pos).take slice.length = slice := by
      rw [← Reader.left, hleft, take_left]
    rw [dif_pos hinside, hslice]
    exact congrArg (fun next => Except.ok (slice, next)) (Reader.ext hbytes.symm hpos.symm)

theorem array_eq_ok {n : Nat} {next : Reader} {block : Block n} :
    Reader.array n reader = .ok (block, next) ↔ Advance reader block.bytes next := by
  rw [Reader.array, read_bind_eq_ok]
  constructor
  · rintro ⟨slice, middle, hslice, hblock⟩
    obtain ⟨hlength, hadvance⟩ := take_eq_ok.mp hslice
    cases hfound : Block.ofBytes n slice with
    | none =>
      rw [hfound] at hblock
      exact absurd hblock read_throw_ne_ok
    | some found =>
      rw [hfound] at hblock
      obtain ⟨rfl, rfl⟩ := read_pure_eq_ok.mp hblock
      rwa [← Block.ofBytes_eq_some.mp hfound]
  · intro hadvance
    refine ⟨block.bytes, next, take_eq_ok.mpr ⟨block.size, hadvance⟩, ?_⟩
    rw [Block.ofBytes_bytes]
    rfl

theorem u8_eq_ok {next : Reader} {byte : UInt8} :
    Reader.u8 reader = .ok (byte, next) ↔ Advance reader [byte] next := by
  rw [Reader.u8, read_bind_eq_ok]
  constructor
  · rintro ⟨block, middle, hblock, hbyte⟩
    obtain ⟨rfl, rfl⟩ := read_pure_eq_ok.mp hbyte
    have hadvance := array_eq_ok.mp hblock
    obtain ⟨first, hfirst⟩ := length_eq_one_iff.mp block.size
    rw [hfirst] at hadvance ⊢
    exact hadvance
  · intro hadvance
    exact ⟨⟨[byte], rfl⟩, next, array_eq_ok.mpr hadvance, rfl⟩

theorem u16_eq_ok {next : Reader} {value : UInt16} :
    Reader.u16 reader = .ok (value, next) ↔ Advance reader (toLe 2 value.toNat) next := by
  rw [Reader.u16, read_bind_eq_ok]
  constructor
  · rintro ⟨block, middle, hblock, hvalue⟩
    obtain ⟨rfl, rfl⟩ := read_pure_eq_ok.mp hvalue
    have hlt : ofLe block.bytes < 2 ^ 16 := by
      have hlt := ofLe_lt block.bytes
      rwa [block.size] at hlt
    have hbytes := toLe_ofLe block.bytes
    rw [block.size] at hbytes
    rw [UInt16.toNat_ofNat', Nat.mod_eq_of_lt hlt, hbytes]
    exact array_eq_ok.mp hblock
  · intro hadvance
    refine ⟨⟨toLe 2 value.toNat, length_toLe _ _⟩, next, array_eq_ok.mpr hadvance, ?_⟩
    dsimp only
    rw [ofLe_toLe value.toNat_lt, UInt16.ofNat_toNat]
    rfl

theorem u32_eq_ok {next : Reader} {value : UInt32} :
    Reader.u32 reader = .ok (value, next) ↔ Advance reader (toLe 4 value.toNat) next := by
  rw [Reader.u32, read_bind_eq_ok]
  constructor
  · rintro ⟨block, middle, hblock, hvalue⟩
    obtain ⟨rfl, rfl⟩ := read_pure_eq_ok.mp hvalue
    have hlt : ofLe block.bytes < 2 ^ 32 := by
      have hlt := ofLe_lt block.bytes
      rwa [block.size] at hlt
    have hbytes := toLe_ofLe block.bytes
    rw [block.size] at hbytes
    rw [UInt32.toNat_ofNat', Nat.mod_eq_of_lt hlt, hbytes]
    exact array_eq_ok.mp hblock
  · intro hadvance
    refine ⟨⟨toLe 4 value.toNat, length_toLe _ _⟩, next, array_eq_ok.mpr hadvance, ?_⟩
    dsimp only
    rw [ofLe_toLe value.toNat_lt, UInt32.ofNat_toNat]
    rfl

/-- A header whose costs this version accepts. -/
def Holder.Valid : Holder → Prop
  | .keyring => True
  | .password slot => slot.params.isValid = true

/-- The part of the header that says who holds the key. -/
def Holder.bytes : Holder → List UInt8
  | .keyring => [holderKeyring]
  | .password slot =>
    [holderPassword] ++ [kdfArgon2id] ++ toLe 4 slot.params.memoryKib.toNat ++
      toLe 4 slot.params.iterations.toNat ++ toLe 4 slot.params.lanes.toNat ++
      slot.salt.bytes ++ slot.nonce.bytes ++ slot.wrapped.bytes

theorem Header.encode_eq (header : Header) :
    header.encode = magic ++ toLe 2 formatVersion.toNat ++ header.vaultId.bytes ++
      header.holder.bytes ++ header.bodyNonce.bytes := by
  obtain ⟨vaultId, holder, bodyNonce⟩ := header
  cases holder with
  | keyring => simp [Header.encode, Header.slotPrefix, Holder.bytes]
  | password slot => simp [Header.encode, Header.slotPrefix, Holder.bytes]

theorem readHolder_eq_ok {next : Reader} {holder : Holder} :
    readHolder reader = .ok (holder, next) ↔ holder.Valid ∧ Advance reader holder.bytes next := by
  rw [readHolder, read_bind_eq_ok]
  simp only [u8_eq_ok]
  constructor
  · rintro ⟨first, middle, hfirst, h⟩
    split at h
    · rename_i hkeyring
      obtain ⟨rfl, rfl⟩ := read_pure_eq_ok.mp h
      rw [hkeyring] at hfirst
      exact ⟨trivial, hfirst⟩
    · split at h
      · rename_i hpassword
        obtain ⟨kdf, afterKdf, hkdf, h⟩ := read_bind_eq_ok.mp h
        split at h
        · exact absurd h read_throw_ne_ok
        · rename_i hargon
          obtain ⟨memoryKib, afterMemory, hmemory, h⟩ := read_bind_eq_ok.mp h
          obtain ⟨iterations, afterIterations, hiterations, h⟩ := read_bind_eq_ok.mp h
          obtain ⟨lanes, afterLanes, hlanes, h⟩ := read_bind_eq_ok.mp h
          split at h
          · exact absurd h read_throw_ne_ok
          · rename_i hvalid
            obtain ⟨salt, afterSalt, hsalt, h⟩ := read_bind_eq_ok.mp h
            obtain ⟨nonce, afterNonce, hnonce, h⟩ := read_bind_eq_ok.mp h
            obtain ⟨wrapped, afterWrapped, hwrapped, h⟩ := read_bind_eq_ok.mp h
            obtain ⟨rfl, rfl⟩ := read_pure_eq_ok.mp h
            rw [u8_eq_ok, not_not.mp hargon] at hkdf
            rw [hpassword] at hfirst
            rw [u32_eq_ok] at hmemory hiterations hlanes
            rw [array_eq_ok] at hsalt hnonce hwrapped
            refine ⟨Bool.eq_true_of_not_eq_false hvalid, ?_⟩
            simp only [Holder.bytes, Advance.append_iff]
            exact ⟨_, ⟨_, ⟨_, ⟨_, ⟨_, ⟨_, ⟨_, hfirst, hkdf⟩, hmemory⟩, hiterations⟩, hlanes⟩,
              hsalt⟩, hnonce⟩, hwrapped⟩
      · exact absurd h read_throw_ne_ok
  · rintro ⟨hvalid, hadvance⟩
    cases holder with
    | keyring => exact ⟨_, next, hadvance, rfl⟩
    | password slot =>
      simp only [Holder.bytes, Advance.append_iff] at hadvance
      obtain ⟨_, ⟨_, ⟨_, ⟨_, ⟨_, ⟨_, ⟨_, hfirst, hkdf⟩, hmemory⟩, hiterations⟩, hlanes⟩,
        hsalt⟩, hnonce⟩, hwrapped⟩ := hadvance
      refine ⟨_, _, hfirst, ?_⟩
      rw [if_neg (by decide), if_pos rfl, read_bind_eq_ok]
      refine ⟨_, _, u8_eq_ok.mpr hkdf, ?_⟩
      rw [if_neg (not_not.mpr rfl), read_bind_eq_ok]
      refine ⟨_, _, u32_eq_ok.mpr hmemory, ?_⟩
      rw [read_bind_eq_ok]
      refine ⟨_, _, u32_eq_ok.mpr hiterations, ?_⟩
      rw [read_bind_eq_ok]
      refine ⟨_, _, u32_eq_ok.mpr hlanes, ?_⟩
      rw [Holder.Valid] at hvalid
      rw [if_neg (by simp [hvalid]), read_bind_eq_ok]
      refine ⟨_, _, array_eq_ok.mpr hsalt, ?_⟩
      rw [read_bind_eq_ok]
      refine ⟨_, _, array_eq_ok.mpr hnonce, ?_⟩
      rw [read_bind_eq_ok]
      exact ⟨_, _, array_eq_ok.mpr hwrapped, rfl⟩

theorem readFields_eq_ok {next : Reader} :
    readFields reader = .ok (header, next) ↔
      header.holder.Valid ∧ Advance reader header.encode next := by
  rw [readFields, read_bind_eq_ok, Header.encode_eq]
  simp only [take_eq_ok, Advance.append_iff]
  constructor
  · rintro ⟨start, afterMagic, ⟨-, hmagic⟩, h⟩
    split at h
    · exact absurd h read_throw_ne_ok
    · rename_i hstart
      obtain ⟨version, afterVersion, hversion, h⟩ := read_bind_eq_ok.mp h
      split at h
      · exact absurd h read_throw_ne_ok
      · rename_i hnewer
        split at h
        · exact absurd h read_throw_ne_ok
        · rename_i hzero
          obtain ⟨vaultId, afterId, hid, h⟩ := read_bind_eq_ok.mp h
          obtain ⟨holder, afterHolder, hholder, h⟩ := read_bind_eq_ok.mp h
          obtain ⟨bodyNonce, afterNonce, hnonce, h⟩ := read_bind_eq_ok.mp h
          obtain ⟨rfl, rfl⟩ := read_pure_eq_ok.mp h
          have hone : version = formatVersion := by
            apply UInt16.toNat_inj.mp
            have hle := UInt16.not_lt.mp hnewer
            rw [UInt16.le_iff_toNat_le] at hle
            have hne : version.toNat ≠ 0 := fun heq => hzero (UInt16.toNat_inj.mp heq)
            have hversion : formatVersion.toNat = 1 := rfl
            omega
          rw [not_not.mp hstart] at hmagic
          rw [u16_eq_ok, hone] at hversion
          rw [array_eq_ok] at hid hnonce
          obtain ⟨hvalid, hholder⟩ := readHolder_eq_ok.mp hholder
          exact ⟨hvalid, _, ⟨_, ⟨_, ⟨_, hmagic, hversion⟩, hid⟩, hholder⟩, hnonce⟩
  · rintro ⟨hvalid, _, ⟨_, ⟨_, ⟨_, hmagic, hversion⟩, hid⟩, hholder⟩, hnonce⟩
    refine ⟨magic, _, ⟨rfl, hmagic⟩, ?_⟩
    rw [if_neg (not_not.mpr rfl), read_bind_eq_ok]
    refine ⟨_, _, u16_eq_ok.mpr hversion, ?_⟩
    rw [if_neg (by decide), if_neg (by decide), read_bind_eq_ok]
    refine ⟨_, _, array_eq_ok.mpr hid, ?_⟩
    rw [read_bind_eq_ok]
    refine ⟨_, _, readHolder_eq_ok.mpr ⟨hvalid, hholder⟩, ?_⟩
    rw [read_bind_eq_ok]
    exact ⟨_, _, array_eq_ok.mpr hnonce, rfl⟩

theorem readerOf_left (bytes : List UInt8) : (readerOf bytes).left = bytes := rfl

theorem readHeader_eq_ok {bytes : List UInt8} {start : Nat} :
    readHeader bytes = .ok (header, start) ↔
      ∃ body, bytes = header.encode ++ body ∧ tagLen ≤ body.length ∧
        start = header.encode.length ∧ header.holder.Valid := by
  rw [readHeader]
  constructor
  · intro h
    obtain ⟨⟨found, reader⟩, hread, h⟩ := bind_eq_ok.mp h
    obtain ⟨hvalid, hadvance⟩ := readFields_eq_ok.mp hread
    have hpos : reader.pos = found.encode.length := by
      rw [hadvance.pos]
      exact Nat.zero_add _
    dsimp only at h
    split at h
    · cases h
    · rename_i hlong
      obtain ⟨rfl, rfl⟩ := Prod.mk.inj (Except.ok.inj h)
      refine ⟨reader.left, hadvance.left, ?_, hpos, hvalid⟩
      rw [Reader.left, hadvance.bytes, length_drop]
      exact Nat.not_lt.mp hlong
  · rintro ⟨body, rfl, hbody, rfl, hvalid⟩
    obtain ⟨next, hadvance, -⟩ := exists_advance (readerOf_left (header.encode ++ body))
    refine bind_eq_ok.mpr ⟨(header, next), readFields_eq_ok.mpr ⟨hvalid, hadvance⟩, ?_⟩
    have hpos : next.pos = header.encode.length := by
      rw [hadvance.pos]
      exact Nat.zero_add _
    dsimp only
    rw [hpos, length_append, Nat.add_sub_cancel_left, if_neg (Nat.not_lt.mpr hbody)]

@[simp] theorem SecretKind.toByte_fromByte (byte : UInt8) :
    (SecretKind.fromByte byte).toByte = byte := by
  rw [SecretKind.fromByte]
  split
  · rename_i heq
    exact heq.symm
  · split
    · rename_i heq
      exact heq.symm
    · rfl

theorem Ulid.toBytes_fromBytes (block : Block 16) :
    (Ulid.fromBytes block).toBytes = block.bytes := by
  have hbytes := toBe_ofBe block.bytes
  rw [block.size] at hbytes
  exact hbytes

theorem Ulid.fromBytes_toBytes (id : Ulid) (h : id.toBytes.length = 16) :
    Ulid.fromBytes ⟨id.toBytes, h⟩ = id :=
  Ulid.ext (ofBe_toBe id.bound)

/-- A secret as a file can hold it. -/
structure Readable (entry : Ulid × Secret) : Prop where
  size : entry.2.data.length ≤ maxSecret
  kind : SecretKind.fromByte entry.2.kind.toByte = entry.2.kind

theorem readEntry_eq_ok {next : Reader} {entry : Ulid × Secret} :
    readEntry reader = .ok (entry, next) ↔
      Readable entry ∧ Advance reader (entryBytes entry) next := by
  rw [readEntry, read_bind_eq_ok, entryBytes]
  simp only [Advance.append_iff, array_eq_ok]
  constructor
  · rintro ⟨id, afterId, hid, h⟩
    obtain ⟨kind, afterKind, hkind, h⟩ := read_bind_eq_ok.mp h
    obtain ⟨len, afterLen, hlen, h⟩ := read_bind_eq_ok.mp h
    split at h
    · exact absurd h read_throw_ne_ok
    · rename_i hsize
      obtain ⟨data, afterData, hdata, h⟩ := read_bind_eq_ok.mp h
      obtain ⟨rfl, rfl⟩ := read_pure_eq_ok.mp h
      obtain ⟨hlength, hdata⟩ := take_eq_ok.mp hdata
      rw [u8_eq_ok] at hkind
      rw [u32_eq_ok, ← hlength] at hlen
      rw [← Ulid.toBytes_fromBytes] at hid
      refine ⟨⟨by rw [hlength]; exact Nat.not_lt.mp hsize, ?_⟩, _, ⟨_, ⟨_, hid, ?_⟩, hlen⟩, hdata⟩
      · rw [SecretKind.toByte_fromByte]
      · rw [SecretKind.toByte_fromByte]
        exact hkind
  · rintro ⟨⟨hsize, hcanonical⟩, _, ⟨_, ⟨_, hid, hkind⟩, hlen⟩, hdata⟩
    obtain ⟨id, kind, data⟩ := entry
    dsimp only at hsize hcanonical hid hkind hlen hdata
    have hlength : id.toBytes.length = 16 := length_toBe _ _
    have hsmall : data.length < 2 ^ 32 := by
      rw [maxSecret] at hsize
      omega
    have hnat : (UInt32.ofNat data.length).toNat = data.length := by
      rw [UInt32.toNat_ofNat', Nat.mod_eq_of_lt hsmall]
    refine ⟨⟨id.toBytes, hlength⟩, _, hid, ?_⟩
    rw [read_bind_eq_ok]
    refine ⟨_, _, u8_eq_ok.mpr hkind, ?_⟩
    rw [read_bind_eq_ok]
    refine ⟨UInt32.ofNat data.length, _, u32_eq_ok.mpr (by rwa [hnat]), ?_⟩
    rw [hnat, if_neg (Nat.not_lt.mpr hsize), read_bind_eq_ok]
    refine ⟨_, _, take_eq_ok.mpr ⟨rfl, hdata⟩, ?_⟩
    rw [hcanonical, Ulid.fromBytes_toBytes]
    rfl

/-- The secrets that are read are new ones, each as the writer writes it. -/
theorem readEntries_eq_ok {count : Nat} {before : Entries} {next : Reader} :
    readEntries count before reader = .ok (entries, next) ↔
      ∃ items : Entries, items.length = count ∧ (∀ item ∈ items, Readable item) ∧
        (items.map Prod.fst).Nodup ∧ (∀ item ∈ items, before.lookup item.1 = none) ∧
        Advance reader (items.flatMap entryBytes) next ∧ entries = insertAll items before := by
  induction count generalizing before reader with
  | zero =>
    rw [readEntries, read_pure_eq_ok]
    constructor
    · rintro ⟨rfl, rfl⟩
      exact ⟨[], rfl, by simp, nodup_nil, by simp, Advance.nil_iff.mpr rfl, rfl⟩
    · rintro ⟨items, hlength, -, -, -, hadvance, rfl⟩
      obtain rfl := length_eq_zero_iff.mp hlength
      exact ⟨rfl, Advance.nil_iff.mp hadvance⟩
  | succ count ih =>
    rw [readEntries, read_bind_eq_ok]
    constructor
    · rintro ⟨entry, middle, hentry, h⟩
      obtain ⟨hreadable, hadvance⟩ := readEntry_eq_ok.mp hentry
      split at h
      · exact absurd h read_throw_ne_ok
      · rename_i hfresh
        rw [Bool.not_eq_true, Option.isSome_eq_false_iff, Option.isNone_iff_eq_none] at hfresh
        obtain ⟨items, hlength, hitems, hnodup, hnone, hrest, rfl⟩ := ih.mp h
        have hne : ∀ item ∈ items, item.1 ≠ entry.1 ∧ before.lookup item.1 = none := by
          intro item hmem
          have hnone := hnone item hmem
          rw [lookup_insertEntry] at hnone
          split at hnone
          · cases hnone
          · rename_i hne
            exact ⟨hne, hnone⟩
        refine ⟨entry :: items, by rw [length_cons, hlength], ?_, ?_, ?_,
          Advance.append_iff.mpr ⟨middle, hadvance, hrest⟩, rfl⟩
        · exact forall_mem_cons.mpr ⟨hreadable, hitems⟩
        · rw [map_cons, nodup_cons]
          refine ⟨fun hmem => ?_, hnodup⟩
          obtain ⟨item, hitem, heq⟩ := mem_map.mp hmem
          exact (hne item hitem).1 heq
        · exact forall_mem_cons.mpr ⟨hfresh, fun item hmem => (hne item hmem).2⟩
    · rintro ⟨items, hlength, hreadable, hnodup, hnone, hadvance, rfl⟩
      obtain ⟨entry, items, rfl⟩ := exists_cons_of_length_eq_add_one hlength
      rw [map_cons, nodup_cons] at hnodup
      rw [forall_mem_cons] at hreadable hnone
      obtain ⟨middle, hfirst, hrest⟩ := Advance.append_iff.mp hadvance
      refine ⟨entry, middle, readEntry_eq_ok.mpr ⟨hreadable.1, hfirst⟩, ?_⟩
      rw [if_neg (by simp [hnone.1])]
      refine ih.mpr ⟨items, Nat.succ.inj hlength, hreadable.2, hnodup.2, ?_, hrest, rfl⟩
      intro item hmem
      rw [lookup_insertEntry, if_neg, hnone.2 item hmem]
      exact fun heq => hnodup.1 (heq ▸ mem_map_of_mem hmem)

/-- The payload is a count and as many new secrets, and what follows is not read. -/
theorem decodePayload_eq_ok {payload : List UInt8} :
    decodePayload payload = .ok entries ↔
      ∃ (items : Entries) (rest : List UInt8), items.length < 2 ^ 32 ∧
        (∀ item ∈ items, Readable item) ∧ (items.map Prod.fst).Nodup ∧
        payload = toLe 4 items.length ++ items.flatMap entryBytes ++ rest ∧
        entries = insertAll items [] := by
  have hread : ∀ next, readPayload (readerOf payload) = .ok (entries, next) ↔
      ∃ items : Entries, items.length < 2 ^ 32 ∧ (∀ item ∈ items, Readable item) ∧
        (items.map Prod.fst).Nodup ∧
        Advance (readerOf payload) (toLe 4 items.length ++ items.flatMap entryBytes) next ∧
        entries = insertAll items [] := by
    intro next
    rw [readPayload, read_bind_eq_ok]
    simp only [u32_eq_ok, readEntries_eq_ok, Advance.append_iff]
    constructor
    · rintro ⟨count, middle, hcount, items, hlength, hreadable, hnodup, -, hadvance, heq⟩
      rw [← hlength] at hcount
      exact ⟨items, hlength ▸ count.toNat_lt, hreadable, hnodup, ⟨middle, hcount, hadvance⟩, heq⟩
    · rintro ⟨items, hlength, hreadable, hnodup, ⟨middle, hcount, hadvance⟩, heq⟩
      have hnat : (UInt32.ofNat items.length).toNat = items.length := by
        rw [UInt32.toNat_ofNat', Nat.mod_eq_of_lt hlength]
      exact ⟨UInt32.ofNat items.length, middle, by rwa [hnat], items, hnat.symm, hreadable,
        hnodup, fun _ _ => rfl, hadvance, heq⟩
  rw [decodePayload, bind_eq_ok]
  constructor
  · rintro ⟨⟨found, next⟩, hfound, h⟩
    obtain rfl := Except.ok.inj h
    obtain ⟨items, hlength, hreadable, hnodup, hadvance, heq⟩ := (hread next).mp hfound
    exact ⟨items, next.left, hlength, hreadable, hnodup, hadvance.left, heq⟩
  · rintro ⟨items, rest, hlength, hreadable, hnodup, hpayload, heq⟩
    have hleft : (readerOf payload).left =
        (toLe 4 items.length ++ items.flatMap entryBytes) ++ rest := hpayload
    obtain ⟨next, hadvance, -⟩ := exists_advance hleft
    exact ⟨(entries, next), (hread next).mpr ⟨items, hlength, hreadable, hnodup, hadvance, heq⟩,
      rfl⟩

end Opensesh.Vault
