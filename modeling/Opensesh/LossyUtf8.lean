/-
Reading bytes as UTF-8 without failing: each sequence that is no character becomes the
replacement character. What was valid comes back as it was, and nothing gets shorter.
-/
import Opensesh.Text

namespace Opensesh.Text

open List

/-- The character that bytes start with. -/
def decodeChar (encoded : List UInt8) : Option Char := encoded.toByteArray.utf8DecodeChar? 0

def isContinuation (byte : UInt8) : Bool := 0x80 ≤ byte && byte ≤ 0xBF

/-- The bytes that may follow the first one of a character of three or four. -/
def isSecond (first second : UInt8) : Bool :=
  if first = 0xE0 then 0xA0 ≤ second && second ≤ 0xBF
  else if first = 0xED then 0x80 ≤ second && second ≤ 0x9F
  else if first = 0xF0 then 0x90 ≤ second && second ≤ 0xBF
  else if first = 0xF4 then 0x80 ≤ second && second ≤ 0x8F
  else isContinuation second

/-- How many bytes at the start, which is no character, are replaced at once. -/
def invalidLength : List UInt8 → Nat
  | first :: second :: rest =>
    if 0xE0 ≤ first ∧ first ≤ 0xF4 ∧ isSecond first second then
      match rest with
      | third :: _ => if 0xF0 ≤ first ∧ isContinuation third then 3 else 2
      | [] => 2
    else 1
  | _ => 1

/-- The characters after the bytes that are left of the one before. -/
def lossyFrom : Nat → List UInt8 → List Char
  | _, [] => []
  | left + 1, _ :: rest => lossyFrom left rest
  | 0, byte :: rest =>
    match decodeChar (byte :: rest) with
    | some c => c :: lossyFrom (c.utf8Size - 1) rest
    | none => '\uFFFD' :: lossyFrom (invalidLength (byte :: rest) - 1) rest

def fromUtf8Lossy (encoded : List UInt8) : List Char := lossyFrom 0 encoded

theorem bytes_cons (c : Char) (text : List Char) :
    bytes (c :: text) = String.utf8EncodeChar c ++ bytes text := flatMap_cons

theorem decodeChar_append (c : Char) (rest : List UInt8) :
    decodeChar (String.utf8EncodeChar c ++ rest) = some c := by
  rw [decodeChar, toByteArray_append]
  exact ByteArray.utf8DecodeChar?_utf8EncodeChar_append

theorem lossyFrom_drop (left : Nat) (encoded : List UInt8) :
    lossyFrom left encoded = lossyFrom 0 (encoded.drop left) := by
  induction left generalizing encoded with
  | zero => rfl
  | succ left ih =>
    cases encoded with
    | nil => rfl
    | cons byte rest => exact ih rest

theorem lossyFrom_char (c : Char) (rest : List UInt8) :
    lossyFrom 0 (String.utf8EncodeChar c ++ rest) = c :: lossyFrom 0 rest := by
  obtain ⟨first, others, heq, -, -⟩ := utf8EncodeChar_eq_cons c
  have hlength : others.length = c.utf8Size - 1 := by
    have hsize := String.length_utf8EncodeChar c
    rw [heq, length_cons] at hsize
    omega
  have hdecode := decodeChar_append c rest
  rw [heq, cons_append] at hdecode ⊢
  rw [lossyFrom, hdecode]
  change c :: lossyFrom (c.utf8Size - 1) (others ++ rest) = _
  rw [lossyFrom_drop, ← hlength, drop_left]

theorem fromUtf8Lossy_bytes (text : List Char) : fromUtf8Lossy (bytes text) = text := by
  induction text with
  | nil => rfl
  | cons c rest ih =>
    rw [fromUtf8Lossy, bytes_cons, lossyFrom_char]
    exact congrArg _ ih

theorem invalidLength_le (encoded : List UInt8) :
    1 ≤ invalidLength encoded ∧ invalidLength encoded ≤ 3 := by
  rw [invalidLength.eq_def]
  split
  · split
    · split
      · split <;> decide
      · decide
    · decide
  · decide

theorem length_le_lossyFrom (left : Nat) (encoded : List UInt8) :
    encoded.length ≤ left + (bytes (lossyFrom left encoded)).length := by
  induction encoded generalizing left with
  | nil => exact Nat.zero_le _
  | cons byte rest ih =>
    cases left with
    | succ left =>
      have hrest := ih left
      rw [lossyFrom, length_cons]
      omega
    | zero =>
      rw [lossyFrom, length_cons]
      cases decodeChar (byte :: rest) with
      | some c =>
        have hrest := ih (c.utf8Size - 1)
        have hsize := c.utf8Size_pos
        change _ ≤ 0 + (bytes (c :: lossyFrom (c.utf8Size - 1) rest)).length
        rw [bytes_cons, length_append, String.length_utf8EncodeChar]
        omega
      | none =>
        have hrest := ih (invalidLength (byte :: rest) - 1)
        have hlength := invalidLength_le (byte :: rest)
        have hsize : (String.utf8EncodeChar '\uFFFD').length = 3 := by decide
        change _ ≤ 0 + (bytes ('\uFFFD' ::
          lossyFrom (invalidLength (byte :: rest) - 1) rest)).length
        rw [bytes_cons, length_append, hsize]
        omega

/-- A replacement is at least as long as what it replaces. -/
theorem length_le_bytes_lossy (encoded : List UInt8) :
    encoded.length ≤ (bytes (fromUtf8Lossy encoded)).length := by
  have h := length_le_lossyFrom 0 encoded
  rwa [Nat.zero_add] at h

end Opensesh.Text
