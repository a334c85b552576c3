/-
The vault file read back: what the writer made is read as it was, and under sealing that
opens nothing but what was sealed, no other file is.
-/
import Opensesh.VaultReads
import Mathlib.Algebra.BigOperators.Group.List.Basic

namespace Opensesh.Vault

open List

/-- A secret as it is read back: its kind is the one its byte stands for. -/
def asRead (entry : Ulid × Secret) : Ulid × Secret :=
  (entry.1, ⟨SecretKind.fromByte entry.2.kind.toByte, entry.2.data⟩)

theorem entryBytes_asRead (entry : Ulid × Secret) :
    entryBytes (asRead entry) = entryBytes entry := by
  simp [entryBytes, asRead]

theorem asRead_of_readable {entry : Ulid × Secret} (h : Readable entry) : asRead entry = entry := by
  rw [asRead, h.kind]

theorem map_asRead_keys (entries : Entries) :
    (entries.map asRead).map Prod.fst = entries.map Prod.fst := by
  rw [map_map]
  rfl

variable {entries : Entries} {cipher : Cipher} {file text : List UInt8}

theorem mapM_encodeEntry {written : List (List UInt8)} :
    entries.mapM encodeEntry = .ok written ↔
      (∀ entry ∈ entries, entry.2.data.length ≤ maxSecret) ∧ written = entries.map entryBytes := by
  induction entries generalizing written with
  | nil =>
    rw [mapM_nil]
    constructor
    · intro h
      exact ⟨by simp, (Except.ok.inj h).symm⟩
    · rintro ⟨-, rfl⟩
      rfl
  | cons entry entries ih =>
    rw [mapM_cons, bind_eq_ok, forall_mem_cons]
    constructor
    · rintro ⟨first, hfirst, h⟩
      obtain ⟨rest, hrest, h⟩ := bind_eq_ok.mp h
      obtain rfl := Except.ok.inj h
      obtain ⟨hsizes, rfl⟩ := ih.mp hrest
      rw [encodeEntry] at hfirst
      split at hfirst
      · cases hfirst
      · rename_i hsize
        obtain rfl := Except.ok.inj hfirst
        exact ⟨⟨Nat.not_lt.mp hsize, hsizes⟩, rfl⟩
    · rintro ⟨⟨hsize, hsizes⟩, rfl⟩
      refine ⟨entryBytes entry, ?_, bind_eq_ok.mpr ⟨_, ih.mpr ⟨hsizes, rfl⟩, rfl⟩⟩
      rw [encodeEntry, if_neg (Nat.not_lt.mpr hsize)]

/-- The zeros after the secrets. -/
def padding (entries : Entries) : List UInt8 :=
  List.replicate (paddedSize entries -
    (toLe 4 entries.length ++ entries.flatMap entryBytes).length) 0

theorem encodePayload_eq_ok {payload : List UInt8} :
    encodePayload entries = .ok payload ↔
      entries.length < 2 ^ 32 ∧ paddedSize entries ≤ maxPayload ∧
        (∀ entry ∈ entries, entry.2.data.length ≤ maxSecret) ∧
        payload = toLe 4 entries.length ++ entries.flatMap entryBytes ++ padding entries := by
  rw [encodePayload]
  constructor
  · intro h
    split at h
    · cases h
    · rename_i hcount
      split at h
      · cases h
      · rename_i hsize
        obtain ⟨written, hwritten, h⟩ := bind_eq_ok.mp h
        obtain ⟨hsizes, rfl⟩ := mapM_encodeEntry.mp hwritten
        refine ⟨by omega, Nat.not_lt.mp hsize, hsizes, ?_⟩
        rw [← Except.ok.inj h, padding, flatMap_def]
  · rintro ⟨hcount, hsize, hsizes, rfl⟩
    rw [if_neg (by omega), if_neg (Nat.not_lt.mpr hsize)]
    refine bind_eq_ok.mpr ⟨_, mapM_encodeEntry.mpr ⟨hsizes, rfl⟩, ?_⟩
    rw [padding, flatMap_def]

theorem paddedSize_map_asRead (entries : Entries) :
    paddedSize (entries.map asRead) = paddedSize entries := by
  rw [paddedSize, paddedSize, map_map]
  rfl

theorem flatMap_entryBytes_asRead (entries : Entries) :
    (entries.map asRead).flatMap entryBytes = entries.flatMap entryBytes := by
  rw [flatMap_map]
  exact flatMap_congr fun entry _ => entryBytes_asRead entry

/-- What is read back writes the same bytes again. -/
theorem encodePayload_map_asRead (entries : Entries) {payload : List UInt8}
    (h : encodePayload entries = .ok payload) :
    encodePayload (entries.map asRead) = .ok payload := by
  obtain ⟨hcount, hsize, hsizes, rfl⟩ := encodePayload_eq_ok.mp h
  refine encodePayload_eq_ok.mpr ⟨?_, ?_, ?_, ?_⟩
  · rwa [length_map]
  · rwa [paddedSize_map_asRead]
  · intro entry hmem
    obtain ⟨old, hold, rfl⟩ := mem_map.mp hmem
    exact hsizes old hold
  · rw [padding, padding, paddedSize_map_asRead, flatMap_entryBytes_asRead, length_map]

theorem decodePayload_encodePayload (hascending : Ascending entries) {payload : List UInt8}
    (h : encodePayload entries = .ok payload) :
    decodePayload payload = .ok (entries.map asRead) := by
  obtain ⟨hcount, -, hsizes, rfl⟩ := encodePayload_eq_ok.mp h
  have hread : Ascending ([] ++ entries.map asRead) := by
    rw [List.nil_append, Ascending, map_asRead_keys]
    exact hascending
  refine decodePayload_eq_ok.mpr ⟨entries.map asRead, padding entries, ?_, ?_, ?_, ?_, ?_⟩
  · rwa [length_map]
  · intro entry hmem
    obtain ⟨old, hold, rfl⟩ := mem_map.mp hmem
    exact ⟨hsizes old hold, by rw [asRead, SecretKind.toByte_fromByte]⟩
  · rw [map_asRead_keys]
    exact hascending.nodup
  · rw [flatMap_entryBytes_asRead, length_map]
  · rw [insertAll_of_ascending hread, List.nil_append]

/-- What a payload is read as: as many secrets as it says, in order and ready to be
written. -/
theorem decodePayload_entries {payload : List UInt8} (h : decodePayload payload = .ok entries) :
    Ascending entries ∧ (∀ entry ∈ entries, Readable entry) ∧
      entries.length < 2 ^ 32 ∧ entries.length = ofLe (payload.take 4) := by
  obtain ⟨items, rest, hlength, hreadable, hnodup, rfl, rfl⟩ := decodePayload_eq_ok.mp h
  have hperm : (insertAll items ([] : Entries)).Perm items := by
    have hnone : ∀ entry ∈ items, ([] : Entries).lookup entry.1 = none := fun _ _ => rfl
    have hperm := perm_insertAll hnodup hnone
    rwa [List.append_nil] at hperm
  refine ⟨ascending_insertAll items ascending_nil, ?_, ?_, ?_⟩
  · exact fun entry hmem => hreadable entry (hperm.mem_iff.mp hmem)
  · rwa [hperm.length_eq]
  · have htake : (toLe 4 items.length ++ items.flatMap entryBytes ++ rest).take 4 =
        toLe 4 items.length := by
      rw [List.append_assoc]
      exact take_left' (length_toLe _ _)
    rw [htake, ofLe_toLe hlength, hperm.length_eq]

theorem decode_again {payload : List UInt8} (h : decodePayload payload = .ok entries)
    (hsize : paddedSize entries ≤ maxPayload) :
    ∃ again, encodePayload entries = .ok again ∧ decodePayload again = .ok entries := by
  obtain ⟨hascending, hreadable, hcount, -⟩ := decodePayload_entries h
  have hagain := encodePayload_eq_ok.mpr
    ⟨hcount, hsize, fun entry hmem => (hreadable entry hmem).size, rfl⟩
  refine ⟨_, hagain, ?_⟩
  rw [decodePayload_encodePayload hascending hagain,
    map_congr_left fun entry hmem => asRead_of_readable (hreadable entry hmem),
    map_id']

/-- Something sealed: with which key, nonce and associated data, and what it became. -/
structure Sealing where
  key : Key
  nonce : Nonce
  aad : List UInt8
  plain : List UInt8
  text : List UInt8

/-- The tag at the end of a sealed text. -/
def tagOf (text : List UInt8) : List UInt8 := text.drop (text.length - tagLen)

/-- Ideal sealing: what was made opens to what it was made of and nothing else opens; every
sealing has a nonce and a tag of its own. -/
structure Ideal (cipher : Cipher) (made : Sealing → Prop) : Prop where
  decrypts : ∀ key nonce aad text plain, cipher.decrypt key nonce aad text = some plain ↔
    made ⟨key, nonce, aad, plain, text⟩
  length : ∀ sealing, made sealing → sealing.text.length = sealing.plain.length + tagLen
  nonce : ∀ first second, made first → made second → first.key = second.key →
    first.nonce = second.nonce → first = second
  tag : ∀ first second, made first → made second → first.key = second.key →
    tagOf first.text = tagOf second.text → first = second

/-- The sealing of a payload under a header. -/
def bodySealing (cipher : Cipher) (header : Header) (key : Key) (payload : List UInt8) : Sealing :=
  ⟨key, header.bodyNonce, header.encode, payload,
    cipher.encrypt key header.bodyNonce header.encode payload⟩

theorem sealFile_eq_ok {nonce : Option Nonce} {header sealed : Header} {key : Key} :
    sealFile cipher nonce header key entries = .ok (sealed, file) ↔
      ∃ bodyNonce payload, nonce = some bodyNonce ∧
        sealed = { header with bodyNonce } ∧ encodePayload entries = .ok payload ∧
        file = sealed.encode ++ (bodySealing cipher sealed key payload).text := by
  rw [sealFile, bind_eq_ok]
  constructor
  · rintro ⟨bodyNonce, hnonce, h⟩
    obtain ⟨payload, hpayload, h⟩ := bind_eq_ok.mp h
    obtain ⟨rfl, rfl⟩ := Prod.mk.inj (Except.ok.inj h)
    cases nonce with
    | none => cases hnonce
    | some drawn =>
      obtain rfl := Except.ok.inj hnonce
      exact ⟨drawn, payload, rfl, rfl, hpayload, rfl⟩
  · rintro ⟨bodyNonce, payload, rfl, rfl, hpayload, rfl⟩
    exact ⟨bodyNonce, rfl, bind_eq_ok.mpr ⟨payload, hpayload, rfl⟩⟩

theorem openSealed_eq_ok {key : Key} {nonce : Nonce} {aad plain : List UInt8} :
    openSealed cipher key nonce aad text = .ok plain ↔
      cipher.decrypt key nonce aad text = some plain := by
  rw [openSealed]
  cases cipher.decrypt key nonce aad text <;> simp

theorem openFile_eq_ok {key : Key} {header : Header} :
    openFile cipher file key = .ok (header, entries) ↔
      ∃ body payload, file = header.encode ++ body ∧ tagLen ≤ body.length ∧
        header.holder.Valid ∧
        cipher.decrypt key header.bodyNonce header.encode body = some payload ∧
        decodePayload payload = .ok entries := by
  rw [openFile, bind_eq_ok]
  constructor
  · rintro ⟨⟨found, start⟩, hread, h⟩
    obtain ⟨body, rfl, hbody, rfl, hvalid⟩ := readHeader_eq_ok.mp hread
    obtain ⟨payload, hpayload, h⟩ := bind_eq_ok.mp h
    obtain ⟨secrets, hsecrets, h⟩ := bind_eq_ok.mp h
    obtain ⟨rfl, rfl⟩ := Prod.mk.inj (Except.ok.inj h)
    rw [openSealed_eq_ok, take_left, drop_left] at hpayload
    exact ⟨body, payload, rfl, hbody, hvalid, hpayload, hsecrets⟩
  · rintro ⟨body, payload, rfl, hbody, hvalid, hpayload, hsecrets⟩
    refine ⟨(header, header.encode.length),
      readHeader_eq_ok.mpr ⟨body, rfl, hbody, rfl, hvalid⟩,
      bind_eq_ok.mpr ⟨payload, ?_, bind_eq_ok.mpr ⟨entries, hsecrets, rfl⟩⟩⟩
    rw [openSealed_eq_ok, take_left, drop_left]
    exact hpayload

theorem tagOf_append (front : List UInt8) (h : tagLen ≤ text.length) :
    tagOf (front ++ text) = tagOf text := by
  rw [tagOf, tagOf, length_append, Nat.add_sub_assoc h, drop_append,
    drop_eq_nil_of_le (Nat.le_add_right _ _), List.nil_append, Nat.add_sub_cancel_left]

/-- The header at the start of a file does not depend on what follows it. -/
theorem encode_append_inj {first second : Header} {rest others : List UInt8}
    (hfirst : first.holder.Valid) (hsecond : second.holder.Valid) (hrest : tagLen ≤ rest.length)
    (hothers : tagLen ≤ others.length) (h : first.encode ++ rest = second.encode ++ others) :
    first = second ∧ rest = others := by
  have hread := readHeader_eq_ok.mpr ⟨rest, rfl, hrest, rfl, hfirst⟩
  have hread' := readHeader_eq_ok.mpr ⟨others, rfl, hothers, rfl, hsecond⟩
  rw [h, hread'] at hread
  obtain ⟨rfl, -⟩ := Prod.mk.inj (Except.ok.inj hread)
  exact ⟨rfl, append_cancel_left h⟩

section Sealed

variable {cipher : Cipher} {made : Sealing → Prop} (hideal : Ideal cipher made)
  {header : Header} (hvalid : header.holder.Valid) {key : Key} {payload : List UInt8}
  (hmade : made (bodySealing cipher header key payload))

include hideal hmade

theorem tagLen_le_text : tagLen ≤ (bodySealing cipher header key payload).text.length := by
  rw [hideal.length _ hmade]
  exact Nat.le_add_left _ _

include hvalid

theorem openFile_sealed {entries : Entries} (h : decodePayload payload = .ok entries) :
    openFile cipher (header.encode ++ (bodySealing cipher header key payload).text) key =
      .ok (header, entries) :=
  openFile_eq_ok.mpr ⟨_, payload, rfl, tagLen_le_text hideal hmade, hvalid,
    (hideal.decrypts _ _ _ _ _).mpr hmade, h⟩

variable {read : Header × Entries}

omit hvalid in
theorem eq_of_openFile_tag {file : List UInt8}
    (htag : tagOf file = tagOf (bodySealing cipher header key payload).text)
    (h : openFile cipher file key = .ok read) :
    file = header.encode ++ (bodySealing cipher header key payload).text := by
  obtain ⟨body, plain, rfl, hbody, -, hopens, -⟩ := openFile_eq_ok.mp h
  rw [tagOf_append _ hbody] at htag
  have hsame := hideal.tag _ _ ((hideal.decrypts _ _ _ _ _).mp hopens) hmade rfl htag
  have haad : read.1.encode = header.encode := congrArg Sealing.aad hsame
  have htext : body = (bodySealing cipher header key payload).text := congrArg Sealing.text hsame
  rw [haad, htext]

theorem openFile_take {n : Nat}
    (h : openFile cipher ((header.encode ++
    (bodySealing cipher header key payload).text).take n) key = .ok read) :
    (header.encode ++ (bodySealing cipher header key payload).text).length ≤ n := by
  obtain ⟨body, plain, hfile, hbody, hread, hopens, -⟩ := openFile_eq_ok.mp h
  have hwhole : read.1.encode ++ (body ++
      (header.encode ++ (bodySealing cipher header key payload).text).drop n) =
      header.encode ++ (bodySealing cipher header key payload).text := by
    rw [← List.append_assoc, ← hfile, take_append_drop]
  obtain ⟨hheader, -⟩ := encode_append_inj hread hvalid
    (by rw [length_append]; omega) (tagLen_le_text hideal hmade) hwhole
  have hsame := hideal.nonce _ _ ((hideal.decrypts _ _ _ _ _).mp hopens) hmade rfl
    (congrArg Header.bodyNonce hheader)
  have htext : body = (bodySealing cipher header key payload).text := congrArg Sealing.text hsame
  rw [hheader, htext] at hfile
  have hlength := congrArg List.length hfile
  rw [length_take] at hlength
  omega

end Sealed

theorem map_asRead_of_kinds {entries : Entries}
    (h : ∀ entry ∈ entries, entry.2.kind ≠ .other 1 ∧ entry.2.kind ≠ .other 2) :
    entries.map asRead = entries := by
  have hsame : ∀ entry ∈ entries, asRead entry = entry := by
    rintro ⟨id, kind, data⟩ hmem
    obtain ⟨hone, htwo⟩ := h _ hmem
    cases kind with
    | password => rfl
    | privateKey => rfl
    | other byte =>
      have hbyte : byte ≠ 1 ∧ byte ≠ 2 := ⟨fun heq => hone (heq ▸ rfl), fun heq => htwo (heq ▸ rfl)⟩
      simp [asRead, SecretKind.toByte, SecretKind.fromByte, hbyte]
  rw [map_congr_left hsame, map_id']

/-- What the writer makes of any secrets is read back as them, no changed header and no
shortened file opens, and any payload that is read is read whole and again the same. -/
theorem file_roundTrip {cipher : Cipher} {made : Sealing → Prop} (hideal : Ideal cipher made)
    {nonce : Option Nonce} {header sealed : Header} {key : Key} {entries : Entries}
    {file : List UInt8} (hvalid : header.holder.Valid) (hascending : Ascending entries)
    (hsealed : sealFile cipher nonce header key entries = .ok (sealed, file))
    (hmade : ∀ payload, encodePayload entries = .ok payload →
      made (bodySealing cipher sealed key payload)) :
    openFile cipher file key = .ok (sealed, entries.map asRead) ∧
    ((∀ entry ∈ entries, entry.2.kind ≠ .other 1 ∧ entry.2.kind ≠ .other 2) →
      entries.map asRead = entries) ∧
    encodePayload (entries.map asRead) = encodePayload entries ∧
    (∀ i byte, i < sealed.encode.length → file[i]? ≠ some byte →
      ∃ error, openFile cipher (file.set i byte) key = .error error) ∧
    (∀ n < file.length, ∃ error, openFile cipher (file.take n) key = .error error) ∧
    ∀ payload, (∃ error, decodePayload payload = .error error) ∨
      ∃ read, decodePayload payload = .ok read ∧
        read.length = ofLe (payload.take 4) ∧
        (∃ used rest, payload = used ++ rest ∧
          ∀ others, decodePayload (used ++ others) = .ok read) ∧
        (paddedSize read ≤ maxPayload →
          ∃ again, encodePayload read = .ok again ∧ decodePayload again = .ok read) := by
  obtain ⟨bodyNonce, payload, -, hheader, hpayload, rfl⟩ := sealFile_eq_ok.mp hsealed
  have hmade := hmade payload hpayload
  have hvalid : sealed.holder.Valid := by
    rw [hheader]
    exact hvalid
  have hdecode := decodePayload_encodePayload hascending hpayload
  refine ⟨openFile_sealed hideal hvalid hmade hdecode, map_asRead_of_kinds, ?_, ?_, ?_, ?_⟩
  · rw [hpayload, encodePayload_map_asRead entries hpayload]
  · intro i byte hi hchanged
    cases hopen : openFile cipher
        ((sealed.encode ++ (bodySealing cipher sealed key payload).text).set i byte) key with
    | error error => exact ⟨error, rfl⟩
    | ok read =>
      have htag : tagOf ((sealed.encode ++
          (bodySealing cipher sealed key payload).text).set i byte) =
          tagOf (bodySealing cipher sealed key payload).text := by
        rw [List.set_append_left _ _ hi, tagOf_append _ (tagLen_le_text hideal hmade)]
      have hsame := eq_of_openFile_tag hideal hmade htag hopen
      refine absurd ?_ hchanged
      rw [← hsame, List.getElem?_set_self]
      rw [List.length_append]
      exact Nat.lt_add_right _ hi
  · intro n hn
    cases hopen : openFile cipher
        ((sealed.encode ++ (bodySealing cipher sealed key payload).text).take n) key with
    | error error => exact ⟨error, rfl⟩
    | ok read => exact absurd (openFile_take hideal hvalid hmade hopen) (Nat.not_le.mpr hn)
  · intro payload
    cases hread : decodePayload payload with
    | error error => exact Or.inl ⟨error, rfl⟩
    | ok read =>
      obtain ⟨-, -, -, hcount⟩ := decodePayload_entries hread
      obtain ⟨items, rest, hlength, hreadable, hnodup, hpayload, hitems⟩ :=
        decodePayload_eq_ok.mp hread
      refine Or.inr ⟨read, rfl, hcount, ⟨_, rest, hpayload, fun others => ?_⟩, decode_again hread⟩
      exact decodePayload_eq_ok.mpr ⟨items, others, hlength, hreadable, hnodup, rfl, hitems⟩

namespace RoundTripWitness

def key : Key := zeroBlock keyLen

def header : Header := ⟨zeroBlock 16, .keyring, zeroBlock nonceLen⟩

def id : Ulid := ⟨0, by decide⟩

/-- A password of two bytes. -/
def stored : Entries := [(id, ⟨.password, [0x70, 0x77]⟩)]

/-- A secret of a kind that has the byte of a password. -/
def disguised : Entries := [(id, ⟨.other 1, []⟩)]

def payloadOf (entries : Entries) : List UInt8 :=
  toLe 4 entries.length ++ entries.flatMap entryBytes ++ padding entries

/-- The text with sixteen zeros as its tag. -/
def sealingOf (entries : Entries) : Sealing :=
  ⟨key, header.bodyNonce, header.encode, payloadOf entries,
    payloadOf entries ++ List.replicate tagLen 0⟩

/-- A cipher that opens the one text it made of these secrets. -/
def cipherFor (entries : Entries) : Cipher where
  encrypt := fun _ _ _ plain => plain ++ List.replicate tagLen 0
  decrypt := fun key nonce aad text =>
    if key = (sealingOf entries).key ∧ nonce = (sealingOf entries).nonce ∧
        aad = (sealingOf entries).aad ∧ text = (sealingOf entries).text then
      some (sealingOf entries).plain
    else none
  argon2 := fun _ _ _ => key

theorem ideal (entries : Entries) : Ideal (cipherFor entries) (· = sealingOf entries) where
  decrypts := by
    intro key nonce aad text plain
    constructor
    · intro h
      simp only [cipherFor] at h
      split at h
      · rename_i hsame
        obtain ⟨rfl, rfl, rfl, rfl⟩ := hsame
        rw [← Option.some.inj h]
      · cases h
    · intro h
      simp only [cipherFor, ← h, and_self, if_true]
  length := by
    rintro sealing rfl
    rw [sealingOf, length_append, length_replicate]
  nonce := fun first second hfirst hsecond _ _ => hfirst.trans hsecond.symm
  tag := fun first second hfirst hsecond _ _ => hfirst.trans hsecond.symm

theorem encodePayload_stored : encodePayload stored = .ok (payloadOf stored) :=
  encodePayload_eq_ok.mpr ⟨by decide, by decide, by decide, rfl⟩

theorem encodePayload_disguised : encodePayload disguised = .ok (payloadOf disguised) :=
  encodePayload_eq_ok.mpr ⟨by decide, by decide, by decide, rfl⟩

variable {entries : Entries}

theorem sealFile_of_encode (h : encodePayload entries = .ok (payloadOf entries)) :
    sealFile (cipherFor entries) (some header.bodyNonce) header key entries =
      .ok (header, header.encode ++ (sealingOf entries).text) :=
  sealFile_eq_ok.mpr ⟨header.bodyNonce, payloadOf entries, rfl, rfl, h, rfl⟩

theorem made_of_encode (h : encodePayload entries = .ok (payloadOf entries)) (payload : List UInt8)
    (hpayload : encodePayload entries = .ok payload) :
    bodySealing (cipherFor entries) header key payload = sealingOf entries := by
  rw [h] at hpayload
  obtain rfl := Except.ok.inj hpayload
  rfl

theorem valid_header : header.holder.Valid := trivial

theorem stored_roundTrip :
    openFile (cipherFor stored) (header.encode ++ (sealingOf stored).text) key =
      .ok (header, stored) ∧
    ∀ n < (header.encode ++ (sealingOf stored).text).length, ∃ error,
      openFile (cipherFor stored) ((header.encode ++ (sealingOf stored).text).take n) key =
        .error error := by
  have hall := file_roundTrip (ideal stored) valid_header (by decide)
    (sealFile_of_encode encodePayload_stored) (made_of_encode encodePayload_stored)
  refine ⟨?_, hall.2.2.2.2.1⟩
  rw [← hall.2.1 (by decide)]
  exact hall.1

/-- One of many large secrets. -/
def large (n : Fin 64) : Ulid × Secret :=
  (⟨n.val, n.isLt.trans (by decide)⟩, ⟨.password, List.replicate maxSecret 0⟩)

/-- Secrets that are too much for one payload. -/
def oversized : Entries := (List.finRange 64).map large

theorem ascending_oversized : Ascending oversized := by
  rw [Ascending, oversized, map_map, pairwise_map]
  exact (pairwise_lt_finRange 64).imp fun hlt => hlt

theorem readable_oversized : ∀ entry ∈ oversized, Readable entry := by
  intro entry hmem
  obtain ⟨n, -, rfl⟩ := mem_map.mp hmem
  exact ⟨by rw [large, length_replicate], rfl⟩

theorem maxPayload_lt_oversized : maxPayload < paddedSize oversized := by
  have hsizes : oversized.map entrySize = List.replicate 64 (21 + maxSecret) := by
    rw [oversized, map_map]
    refine eq_replicate_iff.mpr ⟨by rw [length_map, length_finRange], ?_⟩
    intro size hmem
    obtain ⟨n, -, rfl⟩ := mem_map.mp hmem
    rw [Function.comp, entrySize, large, length_replicate]
  rw [paddedSize, hsizes, sum_replicate]
  decide

/-- A secret whose kind has the byte of a password comes back as a password, and a payload
can hold more than is ever written. -/
theorem disguised_oversized :
    (sealFile (cipherFor disguised) (some header.bodyNonce) header key disguised =
        .ok (header, header.encode ++ (sealingOf disguised).text) ∧
      openFile (cipherFor disguised) (header.encode ++ (sealingOf disguised).text) key =
        .ok (header, [(id, ⟨.password, []⟩)]) ∧
      disguised ≠ [(id, ⟨.password, []⟩)]) ∧
    decodePayload (payloadOf oversized) = .ok oversized ∧
    encodePayload oversized = .error (.format "the vault would be too large") := by
  refine ⟨⟨sealFile_of_encode encodePayload_disguised, ?_, by decide⟩, ?_, ?_⟩
  · exact openFile_sealed (ideal disguised) valid_header
      (made_of_encode encodePayload_disguised _ encodePayload_disguised)
      (decodePayload_encodePayload (by decide) encodePayload_disguised)
  · have hascending : Ascending ([] ++ oversized) := ascending_oversized
    refine decodePayload_eq_ok.mpr ⟨oversized, padding oversized, ?_, readable_oversized,
      ascending_oversized.nodup, rfl, ?_⟩
    · rw [oversized, List.length_map, List.length_finRange]
      decide
    · exact (insertAll_of_ascending hascending).symm
  · rw [encodePayload, if_neg, if_pos maxPayload_lt_oversized]
    rw [oversized, List.length_map, List.length_finRange]
    decide

end RoundTripWitness

end Opensesh.Vault
