/-
What a pasted text writes to the program: its line ends as carriage returns, no other control
characters, and the marks around it if the program asked for them. Nothing in the text can
forge the mark of its end.
-/
import Opensesh.InputKeys
import Opensesh.Slices

namespace Opensesh.Input

open List
open Text Target

def pasteStart : List UInt8 := [0x1B, 0x5B, 0x32, 0x30, 0x30, 0x7E]

def pasteEnd : List UInt8 := [0x1B, 0x5B, 0x32, 0x30, 0x31, 0x7E]

def isBracketed (modes : InputModes) : Bool := modes.term.bracketedPaste

/-- Writes what is left of the text: the characters from the byte `index` on, with the run of
unchanged text that starts at `runStart` still to be copied. -/
def pasteFrom (text : List Char) : Nat → List Char → Nat → List UInt8 → List UInt8
  | _, [], runStart, out => out ++ bytes ((sliceFrom text runStart).getD [])
  | index, '\r' :: '\n' :: rest, runStart, out =>
    pasteFrom text (index + '\r'.utf8Size + 1) rest (index + '\r'.utf8Size + 1)
      (out ++ bytes ((slice text runStart index).getD []) ++ [0x0D])
  | index, c :: rest, runStart, out =>
    if c = '\t' ∨ ¬ isControl c then
      pasteFrom text (index + c.utf8Size) rest runStart out
    else
      pasteFrom text (index + c.utf8Size) rest (index + c.utf8Size)
        (out ++ bytes ((slice text runStart index).getD []) ++
          if c = '\r' ∨ c = '\n' then [0x0D] else [])

/-- The text for the program; nothing at all if there is nothing left to send. -/
def encodePaste (text : List Char) (modes : InputModes) : List UInt8 :=
  let head := if isBracketed modes then pasteStart else []
  let out := pasteFrom text 0 text 0 head
  if out.length = head.length then []
  else if isBracketed modes then out ++ pasteEnd
  else out

/-- Every line end as a carriage return. -/
def lineEnds : List Char → List Char
  | '\r' :: '\n' :: rest => '\r' :: lineEnds rest
  | '\n' :: rest => '\r' :: lineEnds rest
  | c :: rest => c :: lineEnds rest
  | [] => []

def mayPass (c : Char) : Bool := c = '\t' || c = '\r' || !isControl c

/-- A pasted text as the program gets it. -/
def pasted (text : List Char) : List Char := (lineEnds text).filter mayPass

variable {c : Char} {text : List Char}

theorem lineEnds_other (hreturn : c ≠ '\r') (hnewline : c ≠ '\n') (rest : List Char) :
    lineEnds (c :: rest) = c :: lineEnds rest :=
  lineEnds.eq_3 c rest (fun _ heq _ => hreturn heq) hnewline

theorem lineEnds_return {rest : List Char} (hrest : ∀ after, rest ≠ '\n' :: after) :
    lineEnds ('\r' :: rest) = '\r' :: lineEnds rest :=
  lineEnds.eq_3 '\r' rest (fun after _ heq => hrest after heq) (by decide)

theorem pasted_newline (rest : List Char) : pasted ('\n' :: rest) = '\r' :: pasted rest := rfl

theorem pasted_pair (rest : List Char) : pasted ('\r' :: '\n' :: rest) = '\r' :: pasted rest := rfl

theorem pasted_return {rest : List Char} (hrest : ∀ after, rest ≠ '\n' :: after) :
    pasted ('\r' :: rest) = '\r' :: pasted rest := by
  rw [pasted, lineEnds_return hrest]
  rfl

theorem pasted_kept (hc : c = '\t' ∨ ¬ isControl c) (rest : List Char) :
    pasted (c :: rest) = c :: pasted rest := by
  have hreturn : c ≠ '\r' := by rintro rfl; revert hc; decide
  have hnewline : c ≠ '\n' := by rintro rfl; revert hc; decide
  have hpass : mayPass c = true := by
    rcases hc with rfl | hplain
    · rfl
    · simp [mayPass, hplain]
  rw [pasted, lineEnds_other hreturn hnewline, filter_cons_of_pos hpass, pasted]

theorem pasted_dropped (hc : ¬ (c = '\t' ∨ ¬ isControl c)) (hreturn : c ≠ '\r')
    (hnewline : c ≠ '\n') (rest : List Char) : pasted (c :: rest) = pasted rest := by
  have hpass : ¬ mayPass c = true := by
    simp only [not_or, not_not] at hc
    simp [mayPass, hc.1, hc.2, hreturn]
  rw [pasted, lineEnds_other hreturn hnewline, filter_cons_of_neg hpass, pasted]

theorem slice_run {before run rest : List Char} (htext : text = before ++ run ++ rest) :
    bytes ((slice text (byteLen before) (byteLen before + byteLen run)).getD []) = bytes run := by
  rw [htext, slice_append, Option.getD_some]

theorem bytes_return (text rest : List Char) :
    bytes text ++ [0x0D] ++ bytes rest = bytes (text ++ '\r' :: rest) := by
  rw [bytes_append, bytes_cons, List.append_assoc]
  rfl

theorem pasteFrom_eq {text : List Char} (index : Nat) (rest : List Char) (runStart : Nat)
    (out : List UInt8) {before run : List Char} (htext : text = before ++ run ++ rest)
    (hindex : index = byteLen before + byteLen run) (hstart : runStart = byteLen before) :
    pasteFrom text index rest runStart out = out ++ bytes (run ++ pasted rest) := by
  fun_induction pasteFrom text index rest runStart out generalizing before run with
  | case1 index runStart out =>
    rw [htext, hstart, List.append_nil, sliceFrom_append]
    simp [pasted, lineEnds]
  | case2 index rest runStart out ih =>
    have hnext : index + '\r'.utf8Size + 1 = byteLen (before ++ run ++ ['\r', '\n']) := by
      rw [byteLen_append, byteLen_append, ← hindex]
      rfl
    have hrest : text = before ++ run ++ ['\r', '\n'] ++ [] ++ rest := by
      rw [htext]
      simp
    rw [ih hrest hnext hnext, pasted_pair, List.nil_append, hindex, hstart, slice_run htext,
      List.append_assoc out, List.append_assoc out, bytes_return]
  | case3 index c rest runStart out hpair hplain ih =>
    have hrest : text = before ++ (run ++ [c]) ++ rest := by
      rw [htext]
      simp
    have hnext : index + c.utf8Size = byteLen before + byteLen (run ++ [c]) := by
      rw [byteLen_append, ← Nat.add_assoc, ← hindex]
      rfl
    rw [ih hrest hnext hstart, pasted_kept hplain, List.append_assoc, singleton_append]
  | case4 index c rest runStart out hpair hcontrol ih =>
    have hnext : index + c.utf8Size = byteLen (before ++ run ++ [c]) := by
      rw [byteLen_append, byteLen_append, ← hindex]
      rfl
    have hrest : text = before ++ run ++ [c] ++ [] ++ rest := by
      rw [htext]
      simp
    rw [ih hrest hnext hnext, List.nil_append, hindex, hstart, slice_run htext]
    by_cases hend : c = '\r' ∨ c = '\n'
    · have hpasted : pasted (c :: rest) = '\r' :: pasted rest := by
        rcases hend with rfl | rfl
        · exact pasted_return fun after heq => hpair after rfl heq
        · exact pasted_newline rest
      rw [if_pos hend, hpasted, List.append_assoc out, List.append_assoc out, bytes_return]
    · obtain ⟨hreturn, hnewline⟩ := not_or.mp hend
      rw [if_neg hend, pasted_dropped hcontrol hreturn hnewline, bytes_append,
        List.append_nil, List.append_assoc]

theorem encodePaste_eq (text : List Char) (modes : InputModes) :
    encodePaste text modes =
      if pasted text = [] then []
      else if isBracketed modes then pasteStart ++ bytes (pasted text) ++ pasteEnd
      else bytes (pasted text) := by
  have hbody : ∀ head, pasteFrom text 0 text 0 head = head ++ bytes (pasted text) := fun head =>
    @pasteFrom_eq text 0 text 0 head [] [] rfl rfl rfl
  have hempty : bytes (pasted text) = [] ↔ pasted text = [] :=
    ⟨fun heq => bytes_injective heq, fun heq => by rw [heq]; rfl⟩
  simp only [encodePaste, hbody, length_append, Nat.add_eq_left, length_eq_zero_iff, hempty]
  cases isBracketed modes <;> rfl

theorem mayPass_of_mem (hc : c ∈ pasted text) : mayPass c = true := (mem_filter.mp hc).2

theorem newline_not_mem_pasted (text : List Char) : '\n' ∉ pasted text := fun hmem =>
  absurd (mayPass_of_mem hmem) (by decide)

/-- Without newlines and other control characters a text is sent as it is. -/
theorem pasted_of_clean (hclean : ∀ c ∈ text, mayPass c = true) (hnewline : '\n' ∉ text) :
    pasted text = text := by
  induction text with
  | nil => rfl
  | cons c rest ih =>
    have hrest := ih (fun other hother => hclean other (mem_cons_of_mem _ hother))
      (fun hmem => hnewline (mem_cons_of_mem _ hmem))
    have hpass := hclean c mem_cons_self
    by_cases hreturn : c = '\r'
    · subst hreturn
      rw [pasted_return fun after heq => ?_, hrest]
      exact hnewline (by simp [heq])
    · have hkept : c = '\t' ∨ ¬ isControl c = true := by
        simpa [mayPass, hreturn] using hpass
      rw [pasted_kept hkept, hrest]

theorem pasted_pasted (text : List Char) : pasted (pasted text) = pasted text :=
  pasted_of_clean (fun _ hc => mayPass_of_mem hc) (newline_not_mem_pasted text)

theorem escape_not_mem (text : List Char) : 0x1B ∉ bytes (pasted text) := fun hmem =>
  absurd (mayPass_of_mem (mem_of_mem_bytes hmem (by decide))) (by decide)

theorem control_of_mem (hc : c ∈ pasted text) (hcontrol : isControl c = true) :
    c = '\t' ∨ c = '\r' := by
  have hpass := mayPass_of_mem hc
  simpa [mayPass, hcontrol] using hpass

/-- Where a byte stands that comes once before what follows, it comes there or later. -/
theorem split_at_first {α : Type} {mark : α} {before before' after after' : List α}
    (h : before ++ mark :: after = before' ++ mark :: after') (hmark : mark ∉ before')
    (hafter : mark ∉ after') : before = before' ∧ after = after' := by
  induction before generalizing before' with
  | nil =>
    cases before' with
    | nil => exact ⟨rfl, (List.cons.inj h).2⟩
    | cons first rest =>
      obtain ⟨rfl, -⟩ := List.cons.inj h
      exact absurd mem_cons_self hmark
  | cons first rest ih =>
    cases before' with
    | nil =>
      obtain ⟨-, htail⟩ := List.cons.inj h
      exact absurd (htail ▸ mem_append_right rest mem_cons_self) hafter
    | cons first' rest' =>
      obtain ⟨rfl, htail⟩ := List.cons.inj h
      obtain ⟨rfl, rfl⟩ := ih htail fun hmem => hmark (mem_cons_of_mem _ hmem)
      exact ⟨rfl, rfl⟩

theorem end_only_at_end {body before after : List UInt8} (hbody : 0x1B ∉ body)
    (h : pasteStart ++ body ++ pasteEnd = before ++ pasteEnd ++ after) :
    before = pasteStart ++ body ∧ after = [] := by
  cases before with
  | nil => simp [pasteStart, pasteEnd] at h
  | cons first rest =>
    have hwhole : rest ++ (0x1B : UInt8) :: (pasteEnd.tail ++ after) =
        (pasteStart.tail ++ body) ++ 0x1B :: pasteEnd.tail := by
      have htail := (congrArg List.tail h).symm
      simpa [pasteStart, pasteEnd] using htail
    have hfirst : (0x1B : UInt8) ∉ pasteStart.tail ++ body := by
      rw [mem_append, not_or]
      exact ⟨by decide, hbody⟩
    obtain ⟨rfl, hafter⟩ := split_at_first hwhole hfirst (by decide)
    obtain ⟨rfl, -⟩ := List.cons.inj h
    exact ⟨rfl, append_right_eq_self.mp hafter⟩

/-- Pasting sends the text with its line ends as carriage returns and without its other
control characters, between the marks if the program asked for them. The mark of the end
comes at the end only, and pasting what was sent sends the same. -/
theorem encodePaste_safe (text : List Char) (modes : InputModes) :
    (encodePaste text modes =
      if pasted text = [] then []
      else if isBracketed modes then pasteStart ++ bytes (pasted text) ++ pasteEnd
      else bytes (pasted text)) ∧
    (0x1B ∉ bytes (pasted text)) ∧
    (∀ c ∈ pasted text, isControl c = true → c = '\t' ∨ c = '\r') ∧
    (∀ before after, encodePaste text modes = before ++ pasteEnd ++ after →
      isBracketed modes = true ∧ before = pasteStart ++ bytes (pasted text) ∧ after = []) ∧
    ∃ inside, fromUtf8 (bytes (pasted text)) = some inside ∧
      encodePaste inside modes = encodePaste text modes := by
  have hescape := escape_not_mem text
  refine ⟨encodePaste_eq text modes, hescape, fun c => control_of_mem, ?_,
    pasted text, fromUtf8_bytes _, ?_⟩
  · intro before after hout
    rw [encodePaste_eq] at hout
    have hmem : (0x1B : UInt8) ∈ before ++ pasteEnd ++ after :=
      List.mem_append_left _ (List.mem_append_right _ List.mem_cons_self)
    split at hout
    · rw [← hout] at hmem
      cases hmem
    · split at hout
      · rename_i hbracketed
        exact ⟨hbracketed, end_only_at_end hescape hout⟩
      · rw [← hout] at hmem
        exact absurd hmem hescape
  · rw [encodePaste_eq, encodePaste_eq, pasted_pasted]

end Opensesh.Input
