/-
Recording what is typed as the steps of a macro, and typing them again: when that gives the
bytes that were typed, and where the pauses stand.
-/
import Opensesh.LossyUtf8
import Opensesh.Outcome
import Mathlib.Algebra.Group.Nat.Defs

namespace Opensesh.Macro

open List
open Text

inductive Step where
  | send (text : List Char)
  | delay (ms : Nat)
  | waitFor (pattern : List Char) (timeoutMs : Nat)

/-- A piece of a snippet: text, `{{name}}`, or `{{secret:identity}}`. -/
inductive Part where
  | text (plain : List Char)
  | named (name : List Char)
  | secret (reference : List Char)
deriving DecidableEq

/-- What stands between the braces, without white space around it. -/
def placeholder (inside : List Char) : Option Part :=
  let named := if inside ≠ [] ∧ '{' ∉ inside ∧ '\n' ∉ inside then some (.named inside) else none
  match splitOnce ':' inside with
  | some (kind, reference) =>
    if trim kind = "secret".toList ∧ trim reference ≠ [] then some (.secret (trim reference))
    else named
  | none => named

def textPart (plain : List Char) : List Part := if plain = [] then [] else [.text plain]

theorem eq_append_of_splitOnceText {sep text before after : List Char}
    (h : splitOnceText sep text = some (before, after)) : text = before ++ sep ++ after := by
  induction text generalizing before with
  | nil => cases h
  | cons c rest ih =>
    rw [splitOnceText] at h
    split at h
    · rename_i hstart
      obtain ⟨rfl, rfl⟩ := Prod.mk.inj (Option.some.inj h)
      exact eq_append_of_stripPrefix hstart
    · obtain ⟨⟨front, back⟩, hsplit, heq⟩ := Option.map_eq_some_iff.mp h
      obtain ⟨rfl, rfl⟩ := Prod.mk.inj heq
      exact congrArg _ (ih hsplit)

theorem length_lt_of_splitOnceText {c : Char} {sep text before after : List Char}
    (h : splitOnceText (c :: sep) text = some (before, after)) : after.length < text.length := by
  rw [eq_append_of_splitOnceText h]
  simp only [length_append, length_cons]
  omega

/-- The pieces of what is left, after text that was read. -/
def parseFrom (plain rest : List Char) : List Part :=
  match _hopen : splitOnceText ['{', '{'] rest with
  | none => textPart (plain ++ rest)
  | some (before, after) =>
    match _hclose : splitOnceText ['}', '}'] after with
    | none => textPart (plain ++ rest)
    | some (inside, more) =>
      match placeholder (trim inside) with
      | some part => textPart (plain ++ before) ++ part :: parseFrom [] more
      | none => parseFrom (plain ++ (before ++ ['{', '{'] ++ inside ++ ['}', '}'])) more
termination_by rest.length
decreasing_by
  all_goals
    exact Nat.lt_trans (length_lt_of_splitOnceText _hclose) (length_lt_of_splitOnceText _hopen)

def parse (text : List Char) : List Part := parseFrom [] text

/-- How a run ended in one pane. -/
inductive Outcome where
  | done
  | stopped (code : String) (detail : List Char)

def piece (values secrets : List Char → Option (List Char)) : Part → Except Outcome (List UInt8)
  | .text plain => .ok (bytes plain)
  | .named name => ((values name).map bytes).elim (.error (.stopped "missing" name)) .ok
  | .secret name => ((secrets name).map bytes).elim (.error (.stopped "missing" name)) .ok

/-- A newline, or both line ends, as Enter. -/
def foldReturns : Bool → List UInt8 → List UInt8
  | _, [] => []
  | afterCr, byte :: rest =>
    if byte = 10 then
      if afterCr then foldReturns false rest else 13 :: foldReturns false rest
    else byte :: foldReturns (byte = 13) rest

/-- What typing a text sends, its variables and secrets filled in. -/
def typedBytes (text : List Char) (values secrets : List Char → Option (List Char)) :
    Except Outcome (List UInt8) := do
  let pieces ← (parse text).mapM (piece values secrets)
  pure (foldReturns false pieces.flatten)

/-- A pause at least this long becomes a step, in nanoseconds. -/
def PAUSE : Nat := 800000000

def MAX_WAIT_MS : Nat := 600000

/-- A pause in milliseconds, to the tenth of a second. -/
def rounded (pause : Nat) : Nat :=
  min (max (min (pause / 1000000) (2 ^ 64 - 1) / 100 * 100) 100) MAX_WAIT_MS

/-- Enter is stored as a newline. -/
def asNewline (c : Char) : Char := if c = '\r' then '\n' else c

def textOf (typed : List UInt8) : List Char := (fromUtf8Lossy typed).map asNewline

/-- The steps so far, the text that is being typed, and when it was typed last. -/
structure Recording where
  steps : List Step
  text : List UInt8
  last : Option Nat

def sendOf (text : List UInt8) : List Step := if text = [] then [] else [.send (textOf text)]

def Recording.flush (recording : Recording) : List Step := recording.steps ++ sendOf recording.text

def Recording.add (recording : Recording) (typed : Nat × List UInt8) : Recording :=
  match recording.last with
  | some last =>
    if PAUSE ≤ typed.1 - last then
      { steps := recording.flush ++ [.delay (rounded (typed.1 - last))]
        text := typed.2
        last := some typed.1 }
    else { recording with text := recording.text ++ typed.2, last := some typed.1 }
  | none => { recording with text := recording.text ++ typed.2, last := some typed.1 }

/-- Typed input with its times, in nanoseconds, as steps. -/
def stepsOf (typed : List (Nat × List UInt8)) : List Step :=
  (typed.foldl Recording.add ⟨[], [], none⟩).flush

/-- What the steps type when no variable and no secret is asked for. -/
def replay : List Step → Except Outcome (List UInt8)
  | [] => pure []
  | .send text :: rest => do
      let typed ← typedBytes text (fun _ => none) (fun _ => none)
      let more ← replay rest
      pure (typed ++ more)
  | _ :: rest => replay rest

/-- What was typed up to the first pause, and after each pause. -/
def split : List (Nat × List UInt8) → List UInt8 × List (Nat × List UInt8)
  | [] => ([], [])
  | [typed] => (typed.2, [])
  | typed :: next :: rest =>
    if PAUSE ≤ next.1 - typed.1 then
      (typed.2, (next.1 - typed.1, (split (next :: rest)).1) :: (split (next :: rest)).2)
    else (typed.2 ++ (split (next :: rest)).1, (split (next :: rest)).2)

/-- The steps that send groups of input, with a step for each pause between them. -/
def stepsBetween (groups : List UInt8 × List (Nat × List UInt8)) : List Step :=
  sendOf groups.1 ++ groups.2.flatMap fun paused => .delay (rounded paused.1) :: sendOf paused.2

def groups (typed : List (Nat × List UInt8)) : List (List UInt8) :=
  (split typed).1 :: (split typed).2.map (·.2)

theorem split_cons (time : Nat) (first : List UInt8) (rest : List (Nat × List UInt8)) :
    split ((time, first) :: rest) =
      (first ++ (split ((time, []) :: rest)).1, (split ((time, []) :: rest)).2) := by
  cases rest with
  | nil => simp [split]
  | cons next rest =>
    rw [split, split]
    split <;> simp

theorem foldl_add (steps : List Step) (text : List UInt8) (last : Nat)
    (rest : List (Nat × List UInt8)) :
    (rest.foldl Recording.add ⟨steps, text, some last⟩).flush =
      steps ++ stepsBetween (split ((last, text) :: rest)) := by
  induction rest generalizing steps text last with
  | nil => simp [Recording.flush, stepsBetween, split]
  | cons next rest ih =>
    rw [foldl_cons, Recording.add, split]
    dsimp only
    split
    · rw [ih]
      simp [Recording.flush, stepsBetween, List.append_assoc]
    · rw [ih, split_cons next.1 (text ++ next.2), split_cons next.1 next.2]
      simp [List.append_assoc]

/-- A pause step stands exactly where the input paused. -/
theorem stepsOf_eq (typed : List (Nat × List UInt8)) :
    stepsOf typed = stepsBetween (split typed) := by
  cases typed with
  | nil => rfl
  | cons first rest =>
    rw [stepsOf, foldl_cons]
    exact foldl_add [] first.2 first.1 rest

theorem flatten_groups (typed : List (Nat × List UInt8)) :
    (groups typed).flatten = typed.flatMap (·.2) := by
  induction typed with
  | nil => rfl
  | cons first rest ih =>
    cases rest with
    | nil => simp [groups, split]
    | cons next rest =>
      rw [flatMap_cons, ← ih, groups, groups, split]
      split <;> simp

/-- Text that no placeholder is read from. -/
def NoPlaceholders (text : List Char) : Prop := ∀ part ∈ parse text, ∃ plain, part = .text plain

def plainOf : Part → List Char
  | .text plain => plain
  | _ => []

theorem flatMap_textPart (plain : List Char) : (textPart plain).flatMap plainOf = plain := by
  rw [textPart]
  split
  · rename_i hempty
    exact hempty.symm
  · exact List.append_nil plain

theorem placeholder_ne_text {inside plain : List Char} :
    placeholder inside ≠ some (.text plain) := by
  intro h
  simp only [placeholder] at h
  split at h
  · split at h
    · cases h
    · split at h <;> cases h
  · split at h <;> cases h

theorem parseFrom_text (plain rest : List Char)
    (h : ∀ part ∈ parseFrom plain rest, ∃ text, part = .text text) :
    (parseFrom plain rest).flatMap plainOf = plain ++ rest := by
  fun_induction parseFrom plain rest with
  | case1 => exact flatMap_textPart _
  | case2 => exact flatMap_textPart _
  | case3 plain rest before after hopen inside more hclose part hpart ih =>
    obtain ⟨text, rfl⟩ := h part (mem_append_right _ mem_cons_self)
    exact absurd hpart placeholder_ne_text
  | case4 plain rest before after hopen inside more hclose hpart ih =>
    rw [ih h, eq_append_of_splitOnceText hopen, eq_append_of_splitOnceText hclose]
    simp only [List.append_assoc]

variable {parts : List Part} {steps : List Step} {out : List UInt8}

theorem mapM_piece_text (h : ∀ part ∈ parts, ∃ plain, part = .text plain)
    (values secrets : List Char → Option (List Char)) :
    parts.mapM (piece values secrets) = .ok (parts.map fun part => bytes (plainOf part)) := by
  induction parts with
  | nil => rfl
  | cons part parts ih =>
    obtain ⟨plain, rfl⟩ := h part mem_cons_self
    rw [mapM_cons, ih fun other hother => h other (mem_cons_of_mem _ hother)]
    rfl

/-- Without values a placeholder is missing. -/
theorem text_of_mapM_piece {pieces : List (List UInt8)}
    (h : parts.mapM (piece (fun _ => none) fun _ => none) = .ok pieces) :
    ∀ part ∈ parts, ∃ plain, part = .text plain := by
  induction parts generalizing pieces with
  | nil => exact fun _ hpart => absurd hpart not_mem_nil
  | cons part parts ih =>
    rw [mapM_cons] at h
    intro other hother
    cases part with
    | text plain =>
      rcases mem_cons.mp hother with rfl | hmem
      · exact ⟨plain, rfl⟩
      · cases hrest : parts.mapM (piece (fun _ => none) fun _ => none) with
        | error outcome =>
          rw [hrest] at h
          cases h
        | ok more => exact ih hrest other hmem
    | named name => cases h
    | secret name => cases h

theorem bytes_flatMap (parts : List Part) :
    (parts.map fun part => bytes (plainOf part)).flatten = bytes (parts.flatMap plainOf) := by
  induction parts with
  | nil => rfl
  | cons part parts ih =>
    rw [map_cons, flatten_cons, ih, flatMap_cons, bytes, bytes, bytes, flatMap_append]

theorem typedBytes_eq_ok {text : List Char} {typed : List UInt8} :
    typedBytes text (fun _ => none) (fun _ => none) = .ok typed ↔
      NoPlaceholders text ∧ typed = foldReturns false (bytes text) := by
  rw [typedBytes, bind_eq_ok]
  constructor
  · rintro ⟨pieces, hpieces, htyped⟩
    have htext := text_of_mapM_piece hpieces
    rw [mapM_piece_text htext] at hpieces
    obtain rfl := Except.ok.inj hpieces
    refine ⟨htext, (Except.ok.inj htyped).symm.trans ?_⟩
    rw [bytes_flatMap, parse, parseFrom_text [] text htext, List.nil_append]
  · rintro ⟨htext, rfl⟩
    refine ⟨_, mapM_piece_text htext _ _, congrArg Except.ok ?_⟩
    rw [bytes_flatMap, parse, parseFrom_text [] text htext, List.nil_append]

def asReturn (c : Char) : Char := if c = '\n' then '\r' else c

def asReturnByte (byte : UInt8) : UInt8 := if byte = 10 then 13 else byte

theorem foldReturns_eq_map {typed : List UInt8} (h : 13 ∉ typed) :
    foldReturns false typed = typed.map asReturnByte := by
  induction typed with
  | nil => rfl
  | cons byte rest ih =>
    rw [mem_cons, not_or] at h
    rw [foldReturns, map_cons, asReturnByte]
    split
    · rw [if_neg (by simp), ih h.2]
    · rw [decide_eq_false (Ne.symm h.1), ih h.2]

theorem map_asReturn (text : List Char) :
    (bytes text).map asReturnByte = bytes (text.map asReturn) := by
  induction text with
  | nil => rfl
  | cons c rest ih =>
    rw [bytes_cons, map_append, ih, map_cons, bytes_cons]
    congr 1
    by_cases hc : c = '\n'
    · subst hc
      decide
    · rw [asReturn, if_neg hc]
      refine (map_congr_left fun byte hbyte => ?_).trans (map_id _)
      refine if_neg fun hten => hc ?_
      rcases mem_utf8EncodeChar hbyte with hsame | hlarge
      · rw [hten] at hsame
        exact (Char.toNat_inj.mp (hsame.symm : c.toNat = '\n'.toNat))
      · rw [hten] at hlarge
        exact absurd hlarge (by decide)

/-- What a group of input is typed as again. -/
def retyped (typed : List UInt8) : List UInt8 := bytes ((textOf typed).map asReturn)

theorem foldReturns_textOf (typed : List UInt8) :
    foldReturns false (bytes (textOf typed)) = retyped typed := by
  rw [retyped, ← map_asReturn]
  refine foldReturns_eq_map fun hmem => ?_
  have hreturn := mem_of_mem_bytes hmem (by decide)
  obtain ⟨c, -, hc⟩ := mem_map.mp hreturn
  rw [asNewline] at hc
  split at hc
  · exact absurd hc (by decide)
  · rename_i hne
    exact hne hc

/-- Whether a group of input is text without line feeds, and none that is read as a
placeholder. -/
def Plain (typed : List UInt8) : Prop :=
  ∃ text, typed = bytes text ∧ '\n' ∉ text ∧ NoPlaceholders (text.map asNewline)

theorem textOf_bytes (text : List Char) : textOf (bytes text) = text.map asNewline := by
  rw [textOf, fromUtf8Lossy_bytes]

theorem asReturn_ne (c : Char) : asReturn c ≠ '\n' := by
  rw [asReturn]
  split
  · decide
  · assumption

theorem plain_iff (typed : List UInt8) :
    Plain typed ↔ NoPlaceholders (textOf typed) ∧ retyped typed = typed := by
  constructor
  · rintro ⟨text, rfl, hnewline, hplain⟩
    rw [textOf_bytes]
    refine ⟨hplain, ?_⟩
    rw [retyped, textOf_bytes, map_map]
    refine congrArg bytes ((map_congr_left fun c hc => ?_).trans (map_id _))
    rw [Function.comp, asNewline]
    split
    · rename_i hreturn
      exact hreturn.symm
    · refine if_neg fun (heq : c = '\n') => hnewline ?_
      rwa [heq] at hc
  · rintro ⟨hplain, htyped⟩
    refine ⟨(textOf typed).map asReturn, htyped.symm, fun hmem => ?_, ?_⟩
    · obtain ⟨c, -, hc⟩ := mem_map.mp hmem
      exact asReturn_ne c hc
    · rw [retyped] at htyped
      rw [← textOf_bytes, htyped]
      exact hplain

theorem length_bytes_map {replace : Char → Char}
    (h : ∀ c, (replace c).utf8Size = c.utf8Size) (text : List Char) :
    (bytes (text.map replace)).length = (bytes text).length := by
  induction text with
  | nil => rfl
  | cons c rest ih =>
    rw [map_cons, bytes_cons, bytes_cons, length_append, length_append, ih,
      String.length_utf8EncodeChar, String.length_utf8EncodeChar, h]

theorem utf8Size_asNewline (c : Char) : (asNewline c).utf8Size = c.utf8Size := by
  rw [asNewline]
  split
  · rename_i hc
    subst hc
    decide
  · rfl

theorem utf8Size_asReturn (c : Char) : (asReturn c).utf8Size = c.utf8Size := by
  rw [asReturn]
  split
  · rename_i hc
    subst hc
    decide
  · rfl

theorem length_le_retyped (typed : List UInt8) : typed.length ≤ (retyped typed).length := by
  rw [retyped, length_bytes_map utf8Size_asReturn, textOf, length_bytes_map utf8Size_asNewline]
  exact length_le_bytes_lossy typed

/-- Pieces that do not shrink and are what they were all together are what they were. -/
theorem eq_of_flatten_map_eq {α : Type} {change : List α → List α}
    (hlength : ∀ piece, piece.length ≤ (change piece).length) {pieces : List (List α)}
    (h : (pieces.map change).flatten = pieces.flatten) :
    ∀ piece ∈ pieces, change piece = piece := by
  have hgrows : ∀ pieces : List (List α),
      pieces.flatten.length ≤ (pieces.map change).flatten.length := by
    intro pieces
    induction pieces with
    | nil => exact Nat.le_refl _
    | cons piece pieces ih =>
      rw [map_cons, flatten_cons, flatten_cons, length_append, length_append]
      exact Nat.add_le_add (hlength piece) ih
  induction pieces with
  | nil => exact fun _ hpiece => absurd hpiece not_mem_nil
  | cons piece pieces ih =>
    rw [map_cons, flatten_cons, flatten_cons] at h
    have hsame : (change piece).length = piece.length := by
      have htotal := congrArg List.length h
      rw [length_append, length_append] at htotal
      have hfirst := hlength piece
      have hrest := hgrows pieces
      omega
    obtain ⟨hpiece, hpieces⟩ := append_inj h hsame
    intro other hother
    rcases mem_cons.mp hother with rfl | hmem
    · exact hpiece
    · exact ih hpieces other hmem

theorem replay_send {text : List Char} :
    replay (.send text :: steps) = .ok out ↔
      NoPlaceholders text ∧
        ∃ more, replay steps = .ok more ∧ out = foldReturns false (bytes text) ++ more := by
  rw [replay, bind_eq_ok]
  constructor
  · rintro ⟨typed, htyped, hrest⟩
    obtain ⟨more, hmore, hout⟩ := bind_eq_ok.mp hrest
    obtain ⟨hplain, rfl⟩ := typedBytes_eq_ok.mp htyped
    exact ⟨hplain, more, hmore, (Except.ok.inj hout).symm⟩
  · rintro ⟨hplain, more, hmore, rfl⟩
    exact ⟨_, typedBytes_eq_ok.mpr ⟨hplain, rfl⟩, bind_eq_ok.mpr ⟨more, hmore, rfl⟩⟩

theorem replay_sendOf {typed : List UInt8} :
    replay (sendOf typed ++ steps) = .ok out ↔
      NoPlaceholders (textOf typed) ∧
        ∃ more, replay steps = .ok more ∧ out = retyped typed ++ more := by
  by_cases hempty : typed = []
  · subst hempty
    have hnone : NoPlaceholders (textOf []) := by
      intro part hpart
      rw [show textOf [] = [] from rfl, parse, parseFrom] at hpart
      exact absurd hpart not_mem_nil
    rw [sendOf, if_pos rfl, List.nil_append]
    exact ⟨fun h => ⟨hnone, out, h, rfl⟩, fun ⟨_, more, hmore, hout⟩ => hmore.trans
      (congrArg Except.ok hout.symm)⟩
  · rw [sendOf, if_neg hempty, singleton_append, replay_send, foldReturns_textOf]

theorem replay_delay (ms : Nat) (steps : List Step) :
    replay (.delay ms :: steps) = replay steps := rfl

theorem replay_groups {more : List (Nat × List UInt8)} :
    replay (more.flatMap fun paused => .delay (rounded paused.1) :: sendOf paused.2) = .ok out ↔
      (∀ group ∈ more.map (·.2), NoPlaceholders (textOf group)) ∧
        out = ((more.map (·.2)).map retyped).flatten := by
  induction more generalizing out with
  | nil =>
    refine ⟨fun h => ⟨fun _ hgroup => absurd hgroup not_mem_nil, ?_⟩, fun h => ?_⟩
    · exact (Except.ok.inj h).symm
    · exact congrArg Except.ok h.2.symm
  | cons first more ih =>
    rw [flatMap_cons, cons_append, replay_delay, replay_sendOf, map_cons,
      forall_mem_cons, map_cons, flatten_cons]
    constructor
    · rintro ⟨hfirst, rest, hrest, rfl⟩
      obtain ⟨hall, rfl⟩ := ih.mp hrest
      exact ⟨⟨hfirst, hall⟩, rfl⟩
    · rintro ⟨⟨hfirst, hall⟩, rfl⟩
      exact ⟨hfirst, _, ih.mpr ⟨hall, rfl⟩, rfl⟩

theorem replay_stepsOf {typed : List (Nat × List UInt8)} :
    replay (stepsOf typed) = .ok out ↔
      (∀ group ∈ groups typed, NoPlaceholders (textOf group)) ∧
        out = ((groups typed).map retyped).flatten := by
  rw [stepsOf_eq, stepsBetween, replay_sendOf, groups, forall_mem_cons, map_cons, flatten_cons]
  constructor
  · rintro ⟨hfirst, more, hmore, rfl⟩
    obtain ⟨hall, rfl⟩ := replay_groups.mp hmore
    exact ⟨⟨hfirst, hall⟩, rfl⟩
  · rintro ⟨⟨hfirst, hall⟩, rfl⟩
    exact ⟨hfirst, _, replay_groups.mpr ⟨hall, rfl⟩, rfl⟩

/-- The steps of a recording pause exactly where its input did, and they type what was typed
exactly when what was typed between two pauses is text without line feeds that no
placeholder is read from. -/
theorem stepsOf_replays (typed : List (Nat × List UInt8)) :
    stepsOf typed = stepsBetween (split typed) ∧
      (replay (stepsOf typed) = .ok (typed.flatMap (·.2)) ↔
        ∀ group ∈ groups typed, Plain group) := by
  refine ⟨stepsOf_eq typed, ?_⟩
  rw [replay_stepsOf, ← flatten_groups]
  constructor
  · rintro ⟨hplain, hsame⟩ group hgroup
    have hretyped := eq_of_flatten_map_eq length_le_retyped hsame.symm group hgroup
    exact (plain_iff group).mpr ⟨hplain group hgroup, hretyped⟩
  · intro h
    have hall := fun group hgroup => (plain_iff group).mp (h group hgroup)
    refine ⟨fun group hgroup => (hall group hgroup).1, ?_⟩
    rw [List.map_congr_left fun group hgroup => (hall group hgroup).2, List.map_id']

namespace MacroWitness

theorem newline_plain : NoPlaceholders ['\n'] := by
  intro part hpart
  have hnone : splitOnceText ['{', '{'] ['\n'] = none := by decide
  rw [parse, parseFrom] at hpart
  split at hpart
  · exact ⟨['\n'], mem_singleton.mp hpart⟩
  · rename_i hopen
    rw [hnone] at hopen
    cases hopen

/-- A line feed that was typed is typed again as a carriage return. -/
theorem newline_changed :
    replay (stepsOf [(0, [10])]) = .ok [13] ∧ replay (stepsOf [(0, [10])]) ≠ .ok [10] := by
  have htext : textOf [10] = ['\n'] := textOf_bytes ['\n']
  have htyped : replay (stepsOf [(0, [10])]) = .ok [13] := by
    refine replay_stepsOf.mpr ⟨fun group hgroup => ?_, by decide⟩
    have hgroup : group = [10] := List.mem_singleton.mp hgroup
    rw [hgroup, htext]
    exact newline_plain
  exact ⟨htyped, fun hsame => absurd (Except.ok.inj (htyped.symm.trans hsame)) (by decide)⟩

end MacroWitness

end Opensesh.Macro
