/-
Text and its bytes in UTF-8: the bytes of a text read back to it.
-/
import Opensesh.Target

namespace Opensesh.Target

open List
open Text

/-- A text read from bytes has these bytes. -/
theorem bytes_of_fromUtf8 {encoded : List UInt8} {text : List Char}
    (h : fromUtf8 encoded = some text) : bytes text = encoded := by
  rw [fromUtf8] at h
  split at h
  · rename_i hascii
    obtain rfl := Option.some.inj h
    rw [all_eq_true] at hascii
    clear h
    induction encoded with
    | nil => rfl
    | cons byte rest ih =>
      have hbyte : byte.toNat < 128 := by
        simpa [UInt8.lt_iff_toNat_lt] using hascii byte mem_cons_self
      obtain ⟨first, others, heq, -, hfirst⟩ := utf8EncodeChar_eq_cons (Char.ofNat byte.toNat)
      rw [toNat_ofNat hbyte] at hfirst
      rcases hfirst with ⟨-, hsame, rfl⟩ | ⟨hge, -⟩
      · rw [map_cons, bytes, flatMap_cons, heq, ← bytes,
          ih fun other hother => hascii other (mem_cons_of_mem _ hother),
          UInt8.toNat_inj.mp hsame, singleton_append]
      · omega
  · obtain ⟨chars, hchars, rfl⟩ := Option.map_eq_some_iff.mp h
    have hback := @ByteArray.utf8Encode_get_utf8Decode? (ByteArray.mk encoded.toArray)
      (by rw [hchars]; rfl)
    simp only [hchars, Option.get_some] at hback
    have hlists := congrArg (fun array => array.data.toList) hback
    simpa [List.utf8Encode, data_toByteArray, bytes] using hlists

/-- The bytes of a text read back to it. -/
theorem fromUtf8_bytes (text : List Char) : fromUtf8 (bytes text) = some text := by
  have hsome : ∃ read, fromUtf8 (bytes text) = some read := by
    rw [fromUtf8]
    split
    · exact ⟨_, rfl⟩
    · have hencode : ByteArray.mk (bytes text).toArray = text.utf8Encode := by
        apply ByteArray.ext
        rw [List.utf8Encode, data_toByteArray, bytes]
      rw [hencode, List.utf8Decode?_utf8Encode]
      exact ⟨_, rfl⟩
  obtain ⟨read, hread⟩ := hsome
  rw [hread, bytes_injective (bytes_of_fromUtf8 hread)]

end Opensesh.Target
