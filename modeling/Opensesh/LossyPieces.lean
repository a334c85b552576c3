/-
Reading bytes as UTF-8 without failing, piece by piece: where a stream can be cut so that the
pieces read one after the other are the whole stream read at once.
-/
import Opensesh.LossyUtf8

namespace Opensesh.Text

open List

/-- How many bytes the character has that a byte begins, by the byte alone. -/
def leadLength (byte : UInt8) : Nat :=
  if 0xC0 ≤ byte ∧ byte ≤ 0xDF then 2
  else if 0xE0 ≤ byte ∧ byte ≤ 0xEF then 3
  else if 0xF0 ≤ byte ∧ byte ≤ 0xF7 then 4
  else 1

theorem isContinuation_iff {byte : UInt8} :
    isContinuation byte = true ↔ 128 ≤ byte.toNat ∧ byte.toNat < 192 := by
  rw [isContinuation, Bool.and_eq_true, decide_eq_true_eq, decide_eq_true_eq, UInt8.le_iff_toNat_le,
    UInt8.le_iff_toNat_le]
  change 128 ≤ byte.toNat ∧ byte.toNat ≤ 191 ↔ _
  omega

theorem leadLength_eq (byte : UInt8) : leadLength byte =
    if byte.toNat < 192 then 1 else if byte.toNat < 224 then 2 else if byte.toNat < 240 then 3
    else if byte.toNat < 248 then 4 else 1 := by
  rw [leadLength]
  simp only [UInt8.le_iff_toNat_le]
  change (if 192 ≤ byte.toNat ∧ byte.toNat ≤ 223 then 2
    else if 224 ≤ byte.toNat ∧ byte.toNat ≤ 239 then 3
    else if 240 ≤ byte.toNat ∧ byte.toNat ≤ 247 then 4 else 1) = _
  have hlt := byte.toNat_lt
  grind

theorem leadLength_le (byte : UInt8) : leadLength byte ≤ 4 := by
  rw [leadLength]
  grind

theorem leadLength_pos (byte : UInt8) : 1 ≤ leadLength byte := by
  rw [leadLength]
  grind

theorem leadLength_continuation {byte : UInt8} (h : isContinuation byte = true) :
    leadLength byte = 1 := by
  rw [leadLength_eq, if_pos (isContinuation_iff.mp h).2]

/-- A character's first byte tells how long it is, and the others are continuation bytes. -/
theorem utf8EncodeChar_lead (c : Char) : ∃ lead rest, String.utf8EncodeChar c = lead :: rest ∧
    leadLength lead = rest.length + 1 ∧ ∀ b ∈ rest, isContinuation b = true := by
  simp only [leadLength_eq, isContinuation_iff]
  unfold String.utf8EncodeChar
  dsimp only
  have hlt : c.val.toNat < 1114112 := by
    rcases c.valid with h | h <;> omega
  split
  · refine ⟨_, [], rfl, ?_, by simp⟩
    rw [UInt8.toNat_ofNat', if_pos (by omega)]
    rfl
  · split
    · refine ⟨_, _, rfl, ?_, fun b hb => ?_⟩
      · rw [UInt8.toNat_ofNat', if_neg (by omega), if_pos (by omega)]
        rfl
      · obtain rfl := mem_singleton.mp hb
        rw [UInt8.toNat_ofNat']
        omega
    · split
      · refine ⟨_, _, rfl, ?_, fun b hb => ?_⟩
        · rw [UInt8.toNat_ofNat', if_neg (by omega), if_neg (by omega), if_pos (by omega)]
          rfl
        · simp only [mem_cons, not_mem_nil, or_false] at hb
          rcases hb with rfl | rfl <;> rw [UInt8.toNat_ofNat'] <;> omega
      · refine ⟨_, _, rfl, ?_, fun b hb => ?_⟩
        · rw [UInt8.toNat_ofNat', if_neg (by omega), if_neg (by omega), if_neg (by omega),
            if_pos (by omega)]
          rfl
        · simp only [mem_cons, not_mem_nil, or_false] at hb
          rcases hb with rfl | rfl | rfl <;> rw [UInt8.toNat_ofNat'] <;> omega

theorem decodeChar_eq_some_iff {encoded : List UInt8} {c : Char} :
    decodeChar encoded = some c ↔ ∃ rest, encoded = String.utf8EncodeChar c ++ rest := by
  constructor
  · intro h
    obtain ⟨rest, hrest⟩ := ByteArray.exists_of_utf8DecodeChar?_eq_some h
    refine ⟨rest.data.toList, ?_⟩
    have hlist := congrArg (fun array : ByteArray => array.data.toList) hrest
    simpa using hlist
  · rintro ⟨rest, rfl⟩
    exact decodeChar_append c rest

/-- The character the next bytes are read as. -/
def unitChar (encoded : List UInt8) : Char := (decodeChar encoded).getD '\uFFFD'

/-- How many bytes are read as it. -/
def unitLength (encoded : List UInt8) : Nat :=
  match decodeChar encoded with
  | some c => c.utf8Size
  | none => invalidLength encoded

theorem unitLength_pos (encoded : List UInt8) : 1 ≤ unitLength encoded := by
  rw [unitLength]
  split
  · exact Char.utf8Size_pos _
  · exact (invalidLength_le encoded).1

theorem fromUtf8Lossy_cons (byte : UInt8) (rest : List UInt8) :
    fromUtf8Lossy (byte :: rest) = unitChar (byte :: rest) ::
      fromUtf8Lossy ((byte :: rest).drop (unitLength (byte :: rest))) := by
  have hpos := unitLength_pos (byte :: rest)
  rw [fromUtf8Lossy, lossyFrom, unitChar, fromUtf8Lossy]
  obtain ⟨left, hleft⟩ := Nat.exists_eq_add_of_le' hpos
  rw [hleft, drop_succ_cons, ← lossyFrom_drop]
  rw [unitLength] at hleft
  cases hdecode : decodeChar (byte :: rest) with
  | some c =>
    rw [hdecode] at hleft
    change c :: lossyFrom (c.utf8Size - 1) rest = c :: lossyFrom left rest
    rw [show c.utf8Size = left + 1 from hleft, Nat.add_sub_cancel]
  | none =>
    rw [hdecode] at hleft
    change '\uFFFD' :: lossyFrom (invalidLength (byte :: rest) - 1) rest =
      '\uFFFD' :: lossyFrom left rest
    rw [show invalidLength (byte :: rest) = left + 1 from hleft, Nat.add_sub_cancel]

theorem isSecond_continuation {first second : UInt8} (h : isSecond first second = true) :
    isContinuation second = true := by
  rw [isContinuation_iff]
  rw [isSecond] at h
  split at h
  · simp [UInt8.le_iff_toNat_le] at h
    omega
  split at h
  · simp [UInt8.le_iff_toNat_le] at h
    omega
  split at h
  · simp [UInt8.le_iff_toNat_le] at h
    omega
  split at h
  · simp [UInt8.le_iff_toNat_le] at h
    omega
  exact isContinuation_iff.mp h

/-- What is replaced at once is a first byte and continuation bytes after it, no more than the
first byte asks for. -/
theorem invalidLength_spec (byte : UInt8) (rest : List UInt8) :
    invalidLength (byte :: rest) ≤ leadLength byte ∧
      invalidLength (byte :: rest) ≤ rest.length + 1 ∧
      ∀ b ∈ rest.take (invalidLength (byte :: rest) - 1), isContinuation b = true := by
  have hlead := leadLength_eq byte
  have hpos := leadLength_pos byte
  rw [invalidLength.eq_def]
  split
  · rename_i first second others heq
    obtain ⟨rfl, rfl⟩ := List.cons.inj heq
    split
    · rename_i hsecond
      simp only [UInt8.le_iff_toNat_le] at hsecond
      obtain ⟨hge, hle, hcont⟩ := hsecond
      change 224 ≤ byte.toNat at hge
      change byte.toNat ≤ 244 at hle
      have hsecondCont := isSecond_continuation hcont
      split
      · rename_i third tail
        split
        · rename_i hthird
          rw [UInt8.le_iff_toNat_le] at hthird
          obtain ⟨hfour, hthirdCont⟩ := hthird
          change 240 ≤ byte.toNat at hfour
          refine ⟨by grind, by simp, ?_⟩
          simp [hsecondCont, hthirdCont]
        · exact ⟨by grind, by simp, by simp [hsecondCont]⟩
      · exact ⟨by grind, by simp, by simp [hsecondCont]⟩
    · exact ⟨hpos, by simp, by simp⟩
  · exact ⟨hpos, by simp, by simp⟩

/-- So for every step. -/
theorem unitLength_spec (byte : UInt8) (rest : List UInt8) :
    unitLength (byte :: rest) ≤ leadLength byte ∧ unitLength (byte :: rest) ≤ rest.length + 1 ∧
      ∀ b ∈ rest.take (unitLength (byte :: rest) - 1), isContinuation b = true := by
  rw [unitLength]
  split
  · rename_i c hdecode
    obtain ⟨later, hlater⟩ := decodeChar_eq_some_iff.mp hdecode
    obtain ⟨lead, tail, htail, hlength, hcont⟩ := utf8EncodeChar_lead c
    have hsize := String.length_utf8EncodeChar c
    rw [htail] at hlater hsize
    rw [cons_append] at hlater
    obtain ⟨rfl, rfl⟩ := List.cons.inj hlater
    rw [length_cons] at hsize
    refine ⟨by omega, by rw [length_append]; omega, ?_⟩
    rw [← hsize, Nat.add_sub_cancel, take_left]
    exact hcont
  · exact invalidLength_spec byte rest

theorem invalidLength_append {front later : List UInt8} (hfront : front ≠ [])
    (h : invalidLength (front ++ later) ≤ front.length) :
    invalidLength front = invalidLength (front ++ later) := by
  match front, hfront with
  | [first], _ =>
    have hpos := (invalidLength_le ([first] ++ later)).1
    exact Nat.le_antisymm hpos h
  | [first, second], _ =>
    cases later with
    | nil => rfl
    | cons third others =>
      simp only [cons_append, List.nil_append, length_cons, length_nil, invalidLength] at h ⊢
      split
      · rename_i hsecond
        rw [if_pos hsecond] at h
        split at h
        · omega
        · rename_i hthird
          rw [if_neg hthird]
      · rfl
  | first :: second :: third :: others, _ => rfl

/-- A step that ends inside the bytes there are doesn't depend on what follows. -/
theorem unit_append {front later : List UInt8} (hfront : front ≠ [])
    (h : unitLength (front ++ later) ≤ front.length) :
    unitLength front = unitLength (front ++ later) ∧ unitChar front = unitChar (front ++ later) := by
  have hdecode : decodeChar front = decodeChar (front ++ later) := by
    cases hwhole : decodeChar (front ++ later) with
    | some c =>
      rw [unitLength, hwhole] at h
      obtain ⟨rest, hrest⟩ := decodeChar_eq_some_iff.mp hwhole
      rw [decodeChar_eq_some_iff]
      have hbegins : String.utf8EncodeChar c <+: front :=
        prefix_of_prefix_length_le ⟨rest, hrest.symm⟩ ⟨later, rfl⟩
          (by rw [String.length_utf8EncodeChar]; exact h)
      obtain ⟨tail, htail⟩ := hbegins
      exact ⟨tail, htail.symm⟩
    | none =>
      cases hpart : decodeChar front with
      | none => rfl
      | some c =>
        obtain ⟨rest, rfl⟩ := decodeChar_eq_some_iff.mp hpart
        rw [List.append_assoc, decodeChar_append] at hwhole
        cases hwhole
  refine ⟨?_, by rw [unitChar, unitChar, hdecode]⟩
  rw [unitLength, unitLength, hdecode] at *
  cases hwhole : decodeChar (front ++ later) with
  | some c => rfl
  | none =>
    rw [hwhole] at h
    exact invalidLength_append hfront h

/-- No character goes on from one piece into the next: one that the last bytes of the first piece
begin is complete, or the next piece begins with no continuation byte. -/
def Apart (front later : List UInt8) : Prop :=
  ∀ before lead rest, front = before ++ lead :: rest →
    (∀ b ∈ rest, isContinuation b = true) →
    leadLength lead ≤ rest.length + 1 ∨ ∀ b ∈ later.head?, isContinuation b = false

theorem Apart.drop {front later : List UInt8} (h : Apart front later) (n : Nat) :
    Apart (front.drop n) later := by
  intro before lead rest heq hcont
  refine h (front.take n ++ before) lead rest ?_ hcont
  rw [List.append_assoc, ← heq, take_append_drop]

theorem Apart.unit_le {lead : UInt8} {rest later : List UInt8} (h : Apart (lead :: rest) later) :
    unitLength (lead :: rest ++ later) ≤ (lead :: rest).length := by
  apply Decidable.byContradiction
  intro hlong
  rw [Nat.not_le, length_cons] at hlong
  obtain ⟨hlead, hfits, hcont⟩ := unitLength_spec lead (rest ++ later)
  rw [← cons_append] at hlead hfits hcont
  have htake : rest ++ later.take (unitLength (lead :: rest ++ later) - 1 - rest.length) =
      (rest ++ later).take (unitLength (lead :: rest ++ later) - 1) := by
    rw [take_append, @take_of_length_le _ _ rest (by omega)]
  rw [length_append] at hfits
  rw [← htake, forall_mem_append] at hcont
  rcases h [] lead rest rfl hcont.1 with hle | hhead
  · omega
  · cases later with
    | nil =>
      rw [length_nil] at hfits
      omega
    | cons next others =>
      obtain ⟨left, hleft⟩ : ∃ left, unitLength (lead :: rest ++ next :: others) - 1 -
          rest.length = left + 1 := ⟨_, (Nat.succ_pred_eq_of_pos (by omega)).symm⟩
      rw [hleft] at hcont
      have hnext := hcont.2 next (by simp)
      rw [hhead next rfl] at hnext
      cases hnext

/-- Pieces read one after the other are the whole read at once. -/
theorem fromUtf8Lossy_append {front later : List UInt8} (h : Apart front later) :
    fromUtf8Lossy (front ++ later) = fromUtf8Lossy front ++ fromUtf8Lossy later := by
  match front with
  | [] => rfl
  | lead :: rest =>
    have hle := h.unit_le
    obtain ⟨hlength, hchar⟩ := unit_append (cons_ne_nil lead rest) hle
    have hpos := unitLength_pos (lead :: rest)
    rw [cons_append, fromUtf8Lossy_cons, ← cons_append, ← hlength, ← hchar,
      fromUtf8Lossy_cons lead rest, drop_append_of_le_length (by omega),
      fromUtf8Lossy_append (h.drop _), cons_append]
termination_by front.length
decreasing_by
  rw [length_drop, length_cons]
  omega

end Opensesh.Text
