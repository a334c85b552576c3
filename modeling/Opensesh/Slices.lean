/-
Ranges of bytes in a text: what stands in them, where they lie on characters' boundaries, and
the same ranges counted in UTF-16 code units.
-/
import Opensesh.LossyUtf8

namespace Opensesh.Text

/-- How many bytes a text takes. -/
def byteLen : List Char → Nat
  | [] => 0
  | c :: rest => c.utf8Size + byteLen rest

/-- The text from a byte on, if a character starts there or the text ends there. -/
def sliceFrom : List Char → Nat → Option (List Char)
  | text, 0 => some text
  | [], _ + 1 => none
  | c :: rest, start => if c.utf8Size ≤ start then sliceFrom rest (start - c.utf8Size) else none

/-- The text up to a byte, if a character starts there or the text ends there. -/
def sliceTo : List Char → Nat → Option (List Char)
  | _, 0 => some []
  | [], _ + 1 => none
  | c :: rest, stop =>
    if c.utf8Size ≤ stop then (sliceTo rest (stop - c.utf8Size)).map (c :: ·) else none

def slice (text : List Char) (start stop : Nat) : Option (List Char) :=
  if start ≤ stop then (sliceTo text stop).bind (sliceFrom · start) else none

@[simp] theorem byteLen_nil : byteLen [] = 0 := rfl

@[simp] theorem byteLen_cons (c : Char) (rest : List Char) :
    byteLen (c :: rest) = c.utf8Size + byteLen rest := rfl

@[simp] theorem byteLen_append (text more : List Char) :
    byteLen (text ++ more) = byteLen text + byteLen more := by
  induction text with
  | nil => exact (Nat.zero_add _).symm
  | cons c rest ih =>
    rw [List.cons_append, byteLen_cons, byteLen_cons, ih, Nat.add_assoc]

theorem bytes_append (text more : List Char) : bytes (text ++ more) = bytes text ++ bytes more :=
  List.flatMap_append

theorem sliceFrom_zero (text : List Char) : sliceFrom text 0 = some text := by
  cases text <;> rfl

theorem sliceTo_zero (text : List Char) : sliceTo text 0 = some [] := by
  cases text <;> rfl

theorem sliceFrom_cons (c : Char) (rest : List Char) (start : Nat) :
    sliceFrom (c :: rest) (c.utf8Size + start) = sliceFrom rest start := by
  have hpos := c.utf8Size_pos
  obtain ⟨last, hlast⟩ : ∃ last, c.utf8Size + start = last + 1 :=
    Nat.exists_eq_succ_of_ne_zero (by omega)
  rw [hlast, sliceFrom, ← hlast, if_pos (Nat.le_add_right _ _), Nat.add_sub_cancel_left]
  omega

theorem sliceTo_cons (c : Char) (rest : List Char) (stop : Nat) :
    sliceTo (c :: rest) (c.utf8Size + stop) = (sliceTo rest stop).map (c :: ·) := by
  have hpos := c.utf8Size_pos
  obtain ⟨last, hlast⟩ : ∃ last, c.utf8Size + stop = last + 1 :=
    Nat.exists_eq_succ_of_ne_zero (by omega)
  rw [hlast, sliceTo, ← hlast, if_pos (Nat.le_add_right _ _), Nat.add_sub_cancel_left]
  omega

theorem sliceFrom_append (text more : List Char) :
    sliceFrom (text ++ more) (byteLen text) = some more := by
  induction text with
  | nil => exact sliceFrom_zero more
  | cons c rest ih => rw [List.cons_append, byteLen_cons, sliceFrom_cons, ih]

theorem sliceTo_append (text more : List Char) :
    sliceTo (text ++ more) (byteLen text) = some text := by
  induction text with
  | nil => exact sliceTo_zero _
  | cons c rest ih => rw [List.cons_append, byteLen_cons, sliceTo_cons, ih, Option.map_some]

/-- A slice is what stands between its ends. -/
theorem slice_append (before text after : List Char) :
    slice (before ++ text ++ after) (byteLen before) (byteLen before + byteLen text) =
      some text := by
  rw [slice, if_pos (Nat.le_add_right _ _), ← byteLen_append, sliceTo_append, Option.bind_some,
    sliceFrom_append]

end Opensesh.Text
