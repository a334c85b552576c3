/-
The limiter of OSC strings against the terminal parser's own state machine: which bytes it
drops, how much the parser then buffers, and which strings it does not see begin.
-/
import Mathlib.Data.List.Infix
import Mathlib.Tactic.SplitIfs

namespace Opensesh.Osc

open List

/-- Longest OSC string payload passed on to the parsers. -/
def maxOscString : Nat := 8 * 1024

/-- Longest OSC 52 payload when programs may set the clipboard. -/
def maxOsc52String : Nat := 1024 * 1024

/-- The bytes of `52;`. -/
def clipboardPrefix : List UInt8 := [0x35, 0x32, 0x3B]

structure OscLimiter where
  escape : Bool := false
  osc : Option Nat := none
  prefixBytes : List UInt8 := [0, 0, 0]
  clipboard : Bool := false

def OscLimiter.setClipboard (limiter : OscLimiter) (allowed : Bool) : OscLimiter :=
  { limiter with clipboard := allowed }

/-- Whether `byte` passes, and the limiter after it. -/
def OscLimiter.keep (limiter : OscLimiter) (byte : UInt8) : Bool × OscLimiter :=
  match limiter.osc with
  | some length =>
    if byte = 0x07 ∨ byte = 0x18 ∨ byte = 0x1A then
      (true, { limiter with osc := none })
    else if byte = 0x1B then
      (true, { limiter with osc := none, escape := true })
    else
      let prefixBytes := limiter.prefixBytes.set length byte
      let limit :=
        if limiter.clipboard ∧ prefixBytes = clipboardPrefix then maxOsc52String
        else maxOscString
      (length < limit, { limiter with osc := some (length + 1), prefixBytes })
  | none =>
    if limiter.escape ∧ byte = 0x5D then
      (true, { limiter with osc := some 0, prefixBytes := [0, 0, 0], escape := false })
    else
      (true, { limiter with escape := byte = 0x1B })

/-- The loop of `filter`: `seen` is the input so far, `out` what replaces it once a byte was
dropped. -/
def OscLimiter.filterFrom (limiter : OscLimiter) (seen : List UInt8)
    (out : Option (List UInt8)) : List UInt8 → Option (List UInt8) × OscLimiter
  | [] => (out, limiter)
  | byte :: rest =>
    let kept := limiter.keep byte
    let out := if kept.1 then out.map (· ++ [byte]) else some (out.getD seen)
    kept.2.filterFrom (seen ++ [byte]) out rest

/-- `none` when every byte passes, else the bytes to parse instead. -/
def OscLimiter.filter (limiter : OscLimiter) (input : List UInt8) :
    Option (List UInt8) × OscLimiter :=
  limiter.filterFrom [] none input

/-- What a session's parsers are given, chunk after chunk; each chunk comes with whether
programs may set the clipboard. -/
def parseChunks (limiter : OscLimiter) : List (Bool × List UInt8) → List (Bool × List UInt8)
  | [] => []
  | (allowed, bytes) :: chunks =>
    let limited := (limiter.setClipboard allowed).filter bytes
    (allowed, limited.1.getD bytes) :: parseChunks limited.2 chunks

/-- The bytes of the chunks, each with the setting it came under. -/
def stream (chunks : List (Bool × List UInt8)) : List (Bool × UInt8) :=
  chunks.flatMap fun chunk => chunk.2.map fun byte => (chunk.1, byte)

namespace Vt

/-- The parser's states; an OSC string carries the payload that came so far. -/
inductive State where
  | ground
  | escape
  | escapeIntermediate
  | csiEntry
  | csiParam
  | csiIntermediate
  | csiIgnore
  | dcsEntry
  | dcsParam
  | dcsIntermediate
  | dcsIgnore
  | dcsPassthrough
  | oscString (payload : List (Bool × UInt8))
  | sosPmApcString

def between (low high byte : UInt8) : Bool := low ≤ byte && byte ≤ high

/-- What CAN, SUB and ESC do in every state; other bytes keep it. -/
def anywhere (state : State) (byte : UInt8) : State :=
  if byte = 0x18 ∨ byte = 0x1A then .ground else if byte = 0x1B then .escape else state

def step (state : State) (byte : Bool × UInt8) : State :=
  match state with
  | .ground => anywhere .ground byte.2
  | .escape =>
    if between 0x20 0x2F byte.2 then .escapeIntermediate
    else if byte.2 = 0x50 then .dcsEntry
    else if byte.2 = 0x58 ∨ byte.2 = 0x5E ∨ byte.2 = 0x5F then .sosPmApcString
    else if byte.2 = 0x5B then .csiEntry
    else if byte.2 = 0x5D then .oscString []
    else if between 0x30 0x7E byte.2 then .ground
    else anywhere .escape byte.2
  | .escapeIntermediate =>
    if between 0x30 0x7E byte.2 then .ground else anywhere .escapeIntermediate byte.2
  | .csiEntry =>
    if between 0x20 0x2F byte.2 then .csiIntermediate
    else if between 0x30 0x3F byte.2 then .csiParam
    else if between 0x40 0x7E byte.2 then .ground
    else anywhere .csiEntry byte.2
  | .csiParam =>
    if between 0x20 0x2F byte.2 then .csiIntermediate
    else if between 0x3C 0x3F byte.2 then .csiIgnore
    else if between 0x40 0x7E byte.2 then .ground
    else anywhere .csiParam byte.2
  | .csiIntermediate =>
    if between 0x30 0x3F byte.2 then .csiIgnore
    else if between 0x40 0x7E byte.2 then .ground
    else anywhere .csiIntermediate byte.2
  | .csiIgnore =>
    if between 0x40 0x7E byte.2 then .ground else anywhere .csiIgnore byte.2
  | .dcsEntry =>
    if between 0x20 0x2F byte.2 then .dcsIntermediate
    else if between 0x30 0x3F byte.2 then .dcsParam
    else if between 0x40 0x7E byte.2 then .dcsPassthrough
    else anywhere .dcsEntry byte.2
  | .dcsParam =>
    if between 0x20 0x2F byte.2 then .dcsIntermediate
    else if between 0x3C 0x3F byte.2 then .dcsIgnore
    else if between 0x40 0x7E byte.2 then .dcsPassthrough
    else anywhere .dcsParam byte.2
  | .dcsIntermediate =>
    if between 0x30 0x3F byte.2 then .dcsIgnore
    else if between 0x40 0x7E byte.2 then .dcsPassthrough
    else anywhere .dcsIntermediate byte.2
  | .dcsIgnore => anywhere .dcsIgnore byte.2
  | .dcsPassthrough =>
    if byte.2 = 0x9C then .ground else anywhere .dcsPassthrough byte.2
  | .oscString payload =>
    if byte.2 = 0x07 then .ground else anywhere (.oscString (payload ++ [byte])) byte.2
  | .sosPmApcString => anywhere .sosPmApcString byte.2

example : step .escape (true, 0x5D) = .oscString [] := by simp [step, between]

/-- The parser after `bytes`. -/
def run (bytes : List (Bool × UInt8)) : State := bytes.foldl step .ground

/-- The payload bytes the parser stores: it ignores control characters in an OSC string. -/
def buffered (payload : List (Bool × UInt8)) : List UInt8 :=
  (payload.map Prod.snd).filter fun byte => 0x20 ≤ byte

/-- How much of a string may be stored: more for OSC 52 when some of it came while the
clipboard was allowed. -/
def limit (payload : List (Bool × UInt8)) : Nat :=
  if payload.any Prod.fst ∧ (buffered payload).take 3 = clipboardPrefix then maxOsc52String
  else maxOscString

end Vt

/-- The bytes that end an OSC string. -/
def Ends (byte : UInt8) : Prop := byte = 0x07 ∨ byte = 0x18 ∨ byte = 0x1A ∨ byte = 0x1B

instance (byte : UInt8) : Decidable (Ends byte) := by unfold Ends; infer_instance

/-- The bytes that leave the parser in its escape state. -/
def Held (byte : UInt8) : Prop :=
  byte ≤ 0x17 ∨ byte = 0x19 ∨ (0x1C ≤ byte ∧ byte ≤ 0x1F) ∨ 0x7F ≤ byte

instance (byte : UInt8) : Decidable (Held byte) := by unfold Held; infer_instance

open Vt

/-- Wherever the parser stops, the string it is in is within its limit. -/
def Bounded (bytes : List (Bool × UInt8)) : Prop :=
  ∀ front payload, front <+: bytes → run front = .oscString payload →
    (buffered payload).length ≤ limit payload

/-- After `seen`, `byte` is a payload byte past the limit of its string. -/
def PastLimit (seen : List (Bool × UInt8)) (byte : Bool × UInt8) : Prop :=
  ∃ payload, run seen = .oscString payload ∧ ¬ Ends byte.2 ∧
    (if byte.1 ∧ ((payload ++ [byte]).map Prod.snd).take 3 = clipboardPrefix
      then maxOsc52String else maxOscString) ≤ payload.length

/-- `output` is `input` less some payload bytes past the limit, when `seen` came before. -/
inductive Trims : List (Bool × UInt8) → List (Bool × UInt8) → List (Bool × UInt8) → Prop where
  | done (seen : List (Bool × UInt8)) : Trims seen [] []
  | pass {seen input output : List (Bool × UInt8)} {byte : Bool × UInt8} :
      Trims (seen ++ [byte]) input output → Trims seen (byte :: input) (byte :: output)
  | cut {seen input output : List (Bool × UInt8)} {byte : Bool × UInt8} :
      PastLimit seen byte → Trims (seen ++ [byte]) input output →
      Trims seen (byte :: input) output

/-- No payload byte of the stream is past the limit. -/
def AllShort (bytes : List (Bool × UInt8)) : Prop :=
  ∀ front byte, front ++ [byte] <+: bytes → ¬ PastLimit front byte

/-- What the limiter is for: the parser's strings stay within the limit, only payload past it
is dropped, and a stream of short strings passes unchanged. -/
structure Limits (chunks : List (Bool × List UInt8)) : Prop where
  bounded : Bounded (stream (parseChunks {} chunks))
  trims : Trims [] (stream chunks) (stream (parseChunks {} chunks))
  passes : AllShort (stream chunks) → parseChunks {} chunks = chunks

/-- Every string begun by ESC, bytes that keep the parser's escape state, and `]` is within
the limit. -/
def HiddenShort (bytes : List (Bool × UInt8)) : Prop :=
  ∀ before held payload after open' close,
    bytes = before ++ open' :: held ++ close :: payload ++ after →
    open'.2 = 0x1B → held ≠ [] → (∀ byte ∈ held, Held byte.2) → close.2 = 0x5D →
    (∀ byte ∈ payload, ¬ Ends byte.2) → (buffered payload).length ≤ limit payload

namespace Vt

theorem run_snoc (bytes : List (Bool × UInt8)) (byte : Bool × UInt8) :
    run (bytes ++ [byte]) = step (run bytes) byte := by
  rw [run, foldl_append]
  rfl

variable {byte : Bool × UInt8} {payload : List (Bool × UInt8)} {state : State}

theorem step_escape (state : State) (hescape : byte.2 = 0x1B) : step state byte = .escape := by
  obtain ⟨allowed, byte⟩ := byte
  obtain rfl : byte = 0x1B := hescape
  cases state <;> rfl

theorem step_osc (hends : ¬ Ends byte.2) :
    step (.oscString payload) byte = .oscString (payload ++ [byte]) := by
  simp only [Ends, not_or] at hends
  obtain ⟨hbell, hcan, hsub, hescape⟩ := hends
  simp only [step, anywhere, if_neg hbell, if_neg hescape, hcan, hsub, or_self, if_false]

theorem step_held (hheld : Held byte.2) : step .escape byte = .escape := by
  rw [Held] at hheld
  simp only [step, anywhere, between, Bool.and_eq_true, decide_eq_true_eq]
  split_ifs <;> first | rfl | grind

theorem escape_of_step (hstep : step state byte = .escape) :
    byte.2 = 0x1B ∨ state = .escape ∧ Held byte.2 := by
  by_cases hescape : byte.2 = 0x1B
  · exact .inl hescape
  · refine .inr ?_
    cases state with
    | escape =>
      simp only [step, anywhere, between, Bool.and_eq_true, decide_eq_true_eq] at hstep
      rw [Held]
      split_ifs at hstep
      grind
    | _ =>
      simp only [step, anywhere, if_neg hescape] at hstep
      split_ifs at hstep

theorem osc_of_step (hstep : step state byte = .oscString payload) :
    state = .escape ∧ byte.2 = 0x5D ∧ payload = [] ∨
      ∃ earlier, state = .oscString earlier ∧ ¬ Ends byte.2 ∧ payload = earlier ++ [byte] := by
  cases state with
  | escape =>
    refine .inl ⟨rfl, ?_⟩
    simp only [step, anywhere] at hstep
    split_ifs at hstep with _ _ _ _ hclose
    exact ⟨hclose, (State.oscString.inj hstep).symm⟩
  | oscString earlier =>
    refine .inr ⟨earlier, rfl, ?_⟩
    simp only [step, anywhere] at hstep
    split_ifs at hstep with hbell hcan hescape
    refine ⟨?_, (State.oscString.inj hstep).symm⟩
    rintro (h | h | h | h)
    · exact hbell h
    · exact hcan (.inl h)
    · exact hcan (.inr h)
    · exact hescape h
  | _ =>
    simp only [step, anywhere] at hstep
    split_ifs at hstep

end Vt

/-- The limiter after one byte under its setting, and whether the byte passes. -/
def OscLimiter.next (limiter : OscLimiter) (byte : Bool × UInt8) : Bool × OscLimiter :=
  (limiter.setClipboard byte.1).keep byte.2

def OscLimiter.after (limiter : OscLimiter) (bytes : List (Bool × UInt8)) : OscLimiter :=
  bytes.foldl (fun limiter byte => (limiter.next byte).2) limiter

/-- The bytes that pass. -/
def OscLimiter.kept (limiter : OscLimiter) : List (Bool × UInt8) → List (Bool × UInt8)
  | [] => []
  | byte :: rest =>
    if (limiter.next byte).1 then byte :: (limiter.next byte).2.kept rest
    else (limiter.next byte).2.kept rest

theorem kept_append (limiter : OscLimiter) (front back : List (Bool × UInt8)) :
    limiter.kept (front ++ back) = limiter.kept front ++ (limiter.after front).kept back := by
  induction front generalizing limiter with
  | nil => rfl
  | cons byte front ih =>
    rw [cons_append, OscLimiter.kept, OscLimiter.kept, ih]
    split
    · rfl
    · rfl

theorem after_append (limiter : OscLimiter) (front back : List (Bool × UInt8)) :
    limiter.after (front ++ back) = (limiter.after front).after back :=
  foldl_append

theorem kept_sublist (limiter : OscLimiter) (bytes : List (Bool × UInt8)) :
    (limiter.kept bytes).Sublist bytes := by
  induction bytes generalizing limiter with
  | nil => exact List.Sublist.slnil
  | cons byte rest ih =>
    rw [OscLimiter.kept]
    split
    · exact (ih _).cons_cons byte
    · exact (ih _).cons byte

theorem kept_setClipboard (limiter : OscLimiter) (allowed : Bool) (bytes : List (Bool × UInt8)) :
    (limiter.setClipboard allowed).kept bytes = limiter.kept bytes := by
  cases bytes with
  | nil => rfl
  | cons byte rest => rfl

theorem clipboard_keep (limiter : OscLimiter) (byte : UInt8) :
    (limiter.keep byte).2.clipboard = limiter.clipboard := by
  rw [OscLimiter.keep]
  split
  · split_ifs <;> rfl
  · split_ifs <;> rfl

theorem next_of_clipboard {limiter : OscLimiter} {allowed : Bool}
    (hclipboard : limiter.clipboard = allowed) (byte : UInt8) :
    limiter.next (allowed, byte) = limiter.keep byte := by
  obtain rfl := hclipboard
  rfl

/-- What `filter` returns stands for the bytes that pass. -/
theorem filterFrom_eq {allowed : Bool} (rest : List UInt8) (limiter : OscLimiter)
    (seen : List UInt8) (out : Option (List UInt8)) (hclipboard : limiter.clipboard = allowed) :
    ((limiter.filterFrom seen out rest).1.getD (seen ++ rest)).map (fun byte => (allowed, byte)) =
        (out.getD seen).map (fun byte => (allowed, byte)) ++
          limiter.kept (rest.map fun byte => (allowed, byte)) ∧
      (limiter.filterFrom seen out rest).2 =
        limiter.after (rest.map fun byte => (allowed, byte)) := by
  induction rest generalizing limiter seen out with
  | nil => exact ⟨by rw [List.append_nil]; exact (List.append_nil _).symm, rfl⟩
  | cons byte rest ih =>
    have hnext := next_of_clipboard hclipboard byte
    have hstill : (limiter.keep byte).2.clipboard = allowed :=
      (clipboard_keep limiter byte).trans hclipboard
    have hafter : limiter.after ((byte :: rest).map fun byte => (allowed, byte)) =
        (limiter.keep byte).2.after (rest.map fun byte => (allowed, byte)) := by
      rw [← hnext]
      rfl
    rw [hafter, append_cons seen byte rest, map_cons, OscLimiter.kept, hnext]
    rw [OscLimiter.filterFrom]
    refine ⟨(ih _ (seen ++ [byte]) _ hstill).1.trans ?_, (ih _ (seen ++ [byte]) _ hstill).2⟩
    cases hkeep : (limiter.keep byte).1 with
    | true =>
      rw [if_pos rfl, if_pos rfl]
      cases out with
      | some out =>
        rw [Option.map_some, Option.getD_some, Option.getD_some, map_append, List.append_assoc]
        rfl
      | none =>
        rw [Option.map_none, Option.getD_none, Option.getD_none, map_append, List.append_assoc]
        rfl
    | false => rfl

theorem filter_eq (limiter : OscLimiter) (allowed : Bool) (bytes : List UInt8) :
    (((limiter.setClipboard allowed).filter bytes).1.getD bytes).map (fun byte => (allowed, byte)) =
        limiter.kept (bytes.map fun byte => (allowed, byte)) ∧
      ((limiter.setClipboard allowed).filter bytes).2 =
        (limiter.setClipboard allowed).after (bytes.map fun byte => (allowed, byte)) := by
  have hclipboard : (limiter.setClipboard allowed).clipboard = allowed := rfl
  have h := filterFrom_eq bytes (limiter.setClipboard allowed) [] none hclipboard
  rw [kept_setClipboard] at h
  exact h

theorem kept_after_setClipboard (limiter : OscLimiter) (allowed : Bool)
    (front back : List (Bool × UInt8)) :
    ((limiter.setClipboard allowed).after front).kept back = (limiter.after front).kept back := by
  cases front with
  | nil => exact kept_setClipboard limiter allowed back
  | cons byte front => rfl

/-- Where the chunks are cut makes no difference. -/
theorem stream_parseChunks (limiter : OscLimiter) (chunks : List (Bool × List UInt8)) :
    stream (parseChunks limiter chunks) = limiter.kept (stream chunks) := by
  induction chunks generalizing limiter with
  | nil => rfl
  | cons chunk chunks ih =>
    obtain ⟨allowed, bytes⟩ := chunk
    obtain ⟨hbytes, hafter⟩ := filter_eq limiter allowed bytes
    have hsplit : stream ((allowed, bytes) :: chunks) =
        bytes.map (fun byte => (allowed, byte)) ++ stream chunks := rfl
    rw [hsplit, kept_append, ← hbytes, ← kept_after_setClipboard limiter allowed, ← hafter, ← ih]
    rfl

variable {limiter : OscLimiter} {length : Nat} {byte : UInt8} {Item : Type}
  {out : List (Bool × UInt8)}

theorem parseChunks_of_kept {chunks : List (Bool × List UInt8)}
    (hkept : limiter.kept (stream chunks) = stream chunks) :
    parseChunks limiter chunks = chunks := by
  induction chunks generalizing limiter with
  | nil => rfl
  | cons chunk chunks ih =>
    obtain ⟨allowed, bytes⟩ := chunk
    obtain ⟨hbytes, hafter⟩ := filter_eq limiter allowed bytes
    have hsplit : stream ((allowed, bytes) :: chunks) =
        bytes.map (fun byte => (allowed, byte)) ++ stream chunks := rfl
    rw [hsplit, kept_append] at hkept
    have hlengths := congrArg List.length hkept
    rw [length_append, length_append] at hlengths
    have hfront := (kept_sublist limiter (bytes.map fun byte => (allowed, byte))).length_le
    have hback := (kept_sublist (limiter.after (bytes.map fun byte => (allowed, byte)))
      (stream chunks)).length_le
    obtain ⟨hfirst, hrest⟩ := append_inj hkept (by omega)
    have hsame : ((limiter.setClipboard allowed).filter bytes).1.getD bytes = bytes := by
      have hinjective : Function.Injective fun byte : UInt8 => (allowed, byte) :=
        fun _ _ h => (Prod.mk.inj h).2
      exact map_injective_iff.mpr hinjective (hbytes.trans hfirst)
    rw [← kept_after_setClipboard limiter allowed, ← hafter] at hrest
    rw [parseChunks, hsame, ih hrest]

/-- `52;` against the first payload bytes, as the limiter keeps them. -/
def padded (payload : List (Bool × UInt8)) : List UInt8 :=
  (payload.map Prod.snd ++ [0, 0, 0]).take 3

theorem padded_set (payload : List (Bool × UInt8)) (byte : Bool × UInt8) :
    (padded payload).set payload.length byte.2 = padded (payload ++ [byte]) := by
  match payload with
  | [] => rfl
  | [_] => rfl
  | [_, _] => rfl
  | _ :: _ :: _ :: rest =>
    simp only [padded, map_cons, cons_append, take_succ_cons, take_zero,
      length_cons, set_cons_succ, set_nil]

theorem padded_clipboard (payload : List (Bool × UInt8)) :
    padded payload = clipboardPrefix ↔ (payload.map Prod.snd).take 3 = clipboardPrefix := by
  match payload with
  | [] => decide
  | [first] => simp [padded, clipboardPrefix]
  | [first, second] => simp [padded, clipboardPrefix]
  | first :: second :: third :: rest =>
    simp only [padded, map_cons, cons_append, take_succ_cons, take_zero]

theorem keep_ends (hosc : limiter.osc = some length) (hends : Ends byte) :
    (limiter.keep byte).1 = true ∧ (limiter.keep byte).2.osc = none ∧
      (limiter.keep byte).2.escape = (limiter.escape || byte = 0x1B) := by
  rw [OscLimiter.keep, hosc]
  dsimp only
  rcases hends with rfl | rfl | rfl | rfl
  · exact ⟨rfl, rfl, (Bool.or_false _).symm⟩
  · exact ⟨rfl, rfl, (Bool.or_false _).symm⟩
  · exact ⟨rfl, rfl, (Bool.or_false _).symm⟩
  · exact ⟨rfl, rfl, (Bool.or_true _).symm⟩

theorem keep_payload (hosc : limiter.osc = some length) (hends : ¬ Ends byte) :
    limiter.keep byte =
      (decide (length < if limiter.clipboard ∧ limiter.prefixBytes.set length byte = clipboardPrefix
        then maxOsc52String else maxOscString),
        { limiter with
          osc := some (length + 1), prefixBytes := limiter.prefixBytes.set length byte }) := by
  simp only [Ends, not_or] at hends
  obtain ⟨hbell, hcan, hsub, hescape⟩ := hends
  rw [OscLimiter.keep, hosc]
  dsimp only
  rw [if_neg, if_neg hescape]
  rintro (h | h | h)
  · exact hbell h
  · exact hcan h
  · exact hsub h

/-- The payload bytes a string may have, by its first bytes as they came. -/
def allowance (payload : List (Bool × UInt8)) : Nat :=
  if payload.any Prod.fst ∧ (payload.map Prod.snd).take 3 = clipboardPrefix then maxOsc52String
  else maxOscString

theorem maxOscString_le_allowance (payload : List (Bool × UInt8)) :
    maxOscString ≤ allowance payload := by
  rw [allowance]
  split
  · decide
  · exact Nat.le_refl maxOscString

theorem limit_of_allowance {payload : List (Bool × UInt8)}
    (hallowed : payload.length ≤ allowance payload) :
    (buffered payload).length ≤ limit payload := by
  have hfewer : (buffered payload).length ≤ payload.length := by
    refine (length_filter_le _ _).trans ?_
    rw [length_map]
  refine (hfewer.trans hallowed).trans ?_
  rw [allowance]
  split
  next hclipboard =>
    have hbuffered : (buffered payload).take 3 = clipboardPrefix := by
      obtain ⟨_, hpad⟩ := hclipboard
      match payload with
      | [] => cases hpad
      | [_] => simp [clipboardPrefix] at hpad
      | [_, _] => simp [clipboardPrefix] at hpad
      | (_, first) :: (_, second) :: (_, third) :: rest =>
        simp only [map_cons, take_succ_cons, take_zero, clipboardPrefix,
          List.cons.injEq, and_true] at hpad
        obtain ⟨rfl, rfl, rfl⟩ := hpad
        rfl
    rw [limit, if_pos ⟨hclipboard.1, hbuffered⟩]
  next =>
    rw [limit]
    split
    · decide
    · exact Nat.le_refl maxOscString

/-- The strings of `seen` the limiter did not see begin. -/
structure Traced (seen : List (Bool × UInt8)) : Prop where
  escape : run seen = .escape → ∃ before open' held, seen = before ++ open' :: held ∧
    open'.2 = 0x1B ∧ held ≠ [] ∧ ∀ byte ∈ held, Held byte.2
  osc : ∀ payload, run seen = .oscString payload → ∃ before open' held close,
    seen = before ++ open' :: held ++ close :: payload ∧ open'.2 = 0x1B ∧ held ≠ [] ∧
    (∀ byte ∈ held, Held byte.2) ∧ close.2 = 0x5D ∧ ∀ byte ∈ payload, ¬ Ends byte.2

/-- Where the limiter and the parser stand after `seen`, of which `out` passed. -/
inductive Stands (limiter : OscLimiter) (seen out : List (Bool × UInt8)) : Prop where
  | inside (payload passed : List (Bool × UInt8)) (hosc : limiter.osc = some payload.length)
      (hescape : limiter.escape = false) (hpad : limiter.prefixBytes = padded payload)
      (hseen : run seen = .oscString payload) (hout : run out = .oscString passed)
      (hfewer : passed.length ≤ payload.length) (hbegin : passed.take 3 = payload.take 3)
      (hallowed : passed.length ≤ allowance passed)
  | ready (hosc : limiter.osc = none) (hescape : limiter.escape = true)
      (hseen : run seen = .escape) (hout : run out = .escape)
      (hlast : ∃ before byte, seen = before ++ [byte] ∧ byte.2 = 0x1B)
  | outside (hosc : limiter.osc = none) (hescape : limiter.escape = false)
      (hsame : run out = run seen) (htraced : Traced seen)

theorem traced_ground {seen : List (Bool × UInt8)} (hground : run seen = .ground) :
    Traced seen := by
  constructor
  · intro h
    cases hground.symm.trans h
  · intro payload h
    cases hground.symm.trans h

/-- One more byte of a string the limiter is not in. -/
theorem Traced.snoc {seen : List (Bool × UInt8)} {byte : Bool × UInt8} (h : Traced seen)
    (hescape : byte.2 ≠ 0x1B) : Traced (seen ++ [byte]) := by
  constructor
  · intro hrun
    rw [run_snoc] at hrun
    rcases escape_of_step hrun with hopen | ⟨hstate, hheld⟩
    · exact absurd hopen hescape
    · obtain ⟨before, open', held, rfl, hopen, _, hall⟩ := h.escape hstate
      refine ⟨before, open', held ++ [byte], by simp, hopen, by simp, ?_⟩
      intro other hmem
      rcases mem_append.mp hmem with hmem | hmem
      · exact hall other hmem
      · rw [mem_singleton.mp hmem]
        exact hheld
  · intro payload hrun
    rw [run_snoc] at hrun
    rcases osc_of_step hrun with ⟨hstate, hclose, rfl⟩ | ⟨earlier, hstate, hends, rfl⟩
    · obtain ⟨before, open', held, rfl, hopen, hsome, hall⟩ := h.escape hstate
      exact ⟨before, open', held, byte, by simp, hopen, hsome, hall, hclose,
        fun _ hmem => absurd hmem not_mem_nil⟩
    · obtain ⟨before, open', held, close, rfl, hopen, hsome, hall, hclose, hpayload⟩ :=
        h.osc earlier hstate
      refine ⟨before, open', held, close, by simp, hopen, hsome, hall, hclose, ?_⟩
      intro other hmem
      rcases mem_append.mp hmem with hmem | hmem
      · exact hpayload other hmem
      · rw [mem_singleton.mp hmem]
        exact hends

theorem length_of_take {passed payload : List Item} (hbegin : passed.take 3 = payload.take 3)
    (hshort : payload.length < 3) : passed = payload := by
  have hlengths := congrArg List.length hbegin
  rw [length_take, length_take] at hlengths
  rwa [take_of_length_le (by omega), take_of_length_le (by omega)] at hbegin

theorem take_snoc {passed payload : List Item} (item : Item)
    (hbegin : passed.take 3 = payload.take 3) :
    (passed ++ [item]).take 3 = (payload ++ [item]).take 3 := by
  by_cases hshort : payload.length < 3
  · rw [length_of_take hbegin hshort]
  · have hlengths := congrArg List.length hbegin
    rw [length_take, length_take] at hlengths
    rw [take_append_of_le_length (by omega), take_append_of_le_length (by omega), hbegin]

theorem stands_payload {seen : List (Bool × UInt8)} {payload passed : List (Bool × UInt8)}
    {byte : Bool × UInt8} (hosc : limiter.osc = some payload.length)
    (hescape : limiter.escape = false) (hpad : limiter.prefixBytes = padded payload)
    (hseen : run seen = .oscString payload) (hout : run out = .oscString passed)
    (hfewer : passed.length ≤ payload.length) (hbegin : passed.take 3 = payload.take 3)
    (hallowed : passed.length ≤ allowance passed) (hends : ¬ Ends byte.2) :
    Stands (limiter.next byte).2 (seen ++ [byte])
        (if (limiter.next byte).1 then out ++ [byte] else out) ∧
      ((limiter.next byte).1 = false → PastLimit seen byte) := by
  have hosc : (limiter.setClipboard byte.1).osc = some payload.length := hosc
  have hnext : limiter.next byte = _ := keep_payload hosc hends
  have hset : limiter.prefixBytes.set payload.length byte.2 = padded (payload ++ [byte]) := by
    rw [hpad, padded_set]
  have hlimit : (limiter.next byte).1 = decide (payload.length <
      if byte.1 ∧ ((payload ++ [byte]).map Prod.snd).take 3 = clipboardPrefix
        then maxOsc52String else maxOscString) := by
    have hclipboard : (limiter.setClipboard byte.1).clipboard = byte.1 := rfl
    have hbytes : (limiter.setClipboard byte.1).prefixBytes.set payload.length byte.2 =
        padded (payload ++ [byte]) := hset
    rw [hnext, hclipboard, hbytes]
    simp only [padded_clipboard]
  have hgrown : run (seen ++ [byte]) = .oscString (payload ++ [byte]) := by
    rw [run_snoc, hseen, step_osc hends]
  have hosc' : (limiter.next byte).2.osc = some (payload ++ [byte]).length := by
    rw [hnext, length_append]
    rfl
  have hescape' : (limiter.next byte).2.escape = false := by
    rw [hnext]
    exact hescape
  have hpad' : (limiter.next byte).2.prefixBytes = padded (payload ++ [byte]) := by
    rw [hnext]
    exact hset
  have hlonger : (payload ++ [byte]).length = payload.length + 1 := length_append
  have hmin : 3 < maxOscString := by decide
  cases hkeep : (limiter.next byte).1 with
  | true =>
    rw [hkeep, eq_comm, decide_eq_true_eq] at hlimit
    refine ⟨?_, fun h => Bool.noConfusion h⟩
    have htake := take_snoc byte hbegin
    refine .inside (payload ++ [byte]) (passed ++ [byte]) hosc' hescape' hpad' hgrown ?_ ?_ htake ?_
    · rw [if_pos rfl, run_snoc, hout, step_osc hends]
    · rw [hlonger, length_append]
      exact Nat.succ_le_succ hfewer
    · have hlength : (passed ++ [byte]).length ≤ payload.length + 1 := by
        rw [length_append]
        exact Nat.succ_le_succ hfewer
      refine hlength.trans ((Nat.succ_le_of_lt hlimit).trans ?_)
      split
      next hclipboard =>
        have hany : (passed ++ [byte]).any Prod.fst = true := by
          rw [any_append, any_cons, hclipboard.1]
          simp
        have hfirst : ((passed ++ [byte]).map Prod.snd).take 3 = clipboardPrefix := by
          rw [← map_take, htake, map_take]
          exact hclipboard.2
        rw [allowance, if_pos ⟨hany, hfirst⟩]
      next => exact maxOscString_le_allowance _
  | false =>
    rw [hkeep, eq_comm, decide_eq_false_iff_not, Nat.not_lt] at hlimit
    refine ⟨?_, fun _ => ⟨payload, hseen, hends, hlimit⟩⟩
    have hmost : maxOscString ≤ payload.length := by
      refine Nat.le_trans ?_ hlimit
      split
      · decide
      · exact Nat.le_refl maxOscString
    refine .inside (payload ++ [byte]) passed hosc' hescape' hpad' hgrown hout ?_ ?_ hallowed
    · rw [hlonger]
      exact Nat.le_succ_of_le hfewer
    · rw [take_append_of_le_length (by omega), hbegin]

theorem stands_step {limiter : OscLimiter} {seen out : List (Bool × UInt8)}
    (h : Stands limiter seen out) (byte : Bool × UInt8) :
    Stands (limiter.next byte).2 (seen ++ [byte])
        (if (limiter.next byte).1 then out ++ [byte] else out) ∧
      ((limiter.next byte).1 = false → PastLimit seen byte) := by
  cases h with
  | inside payload passed hosc hescape hpad hseen hout hfewer hbegin hallowed =>
    by_cases hends : Ends byte.2
    · have hosc : (limiter.setClipboard byte.1).osc = some payload.length := hosc
      obtain ⟨hpass, hclosed, hescape'⟩ := keep_ends hosc hends
      have hpass : (limiter.next byte).1 = true := hpass
      refine ⟨?_, fun hcut => Bool.noConfusion (hpass.symm.trans hcut)⟩
      rw [if_pos hpass]
      by_cases hopen : byte.2 = 0x1B
      · refine .ready hclosed ?_ ?_ ?_ ⟨seen, byte, rfl, hopen⟩
        · exact hescape'.trans (by rw [hopen]; exact Bool.or_true _)
        · rw [run_snoc, step_escape _ hopen]
        · rw [run_snoc, step_escape _ hopen]
      · have hground : ∀ payload, step (.oscString payload) byte = .ground := by
          intro payload
          obtain ⟨allowed, byte⟩ := byte
          rcases hends with h | h | h | h
          · obtain rfl : byte = 0x07 := h
            rfl
          · obtain rfl : byte = 0x18 := h
            rfl
          · obtain rfl : byte = 0x1A := h
            rfl
          · exact absurd h hopen
        have hquiet : (limiter.next byte).2.escape = false := by
          refine hescape'.trans ?_
          rw [decide_eq_false hopen, Bool.or_false]
          exact hescape
        refine .outside hclosed hquiet ?_ (traced_ground ?_)
        · rw [run_snoc, run_snoc, hseen, hout, hground, hground]
        · rw [run_snoc, hseen, hground]
    · exact stands_payload hosc hescape hpad hseen hout hfewer hbegin hallowed hends
  | ready hosc hescape hseen hout hlast =>
    have hkeep : limiter.next byte = (limiter.setClipboard byte.1).keep byte.2 := rfl
    rw [OscLimiter.keep, OscLimiter.setClipboard, hosc, hescape] at hkeep
    dsimp only at hkeep
    by_cases hclose : byte.2 = 0x5D
    · rw [if_pos ⟨rfl, hclose⟩] at hkeep
      rw [hkeep]
      refine ⟨?_, fun hcut => Bool.noConfusion hcut⟩
      have hbegun : step .escape byte = .oscString [] := by
        obtain ⟨allowed, byte⟩ := byte
        obtain rfl : byte = 0x5D := hclose
        rfl
      refine .inside [] [] rfl rfl rfl ?_ ?_ (Nat.le_refl 0) rfl (Nat.zero_le _)
      · rw [run_snoc, hseen, hbegun]
      · rw [if_pos rfl, run_snoc, hout, hbegun]
    · rw [if_neg fun h => hclose h.2] at hkeep
      rw [hkeep]
      refine ⟨?_, fun hcut => Bool.noConfusion hcut⟩
      rw [if_pos rfl]
      by_cases hopen : byte.2 = 0x1B
      · refine .ready rfl (decide_eq_true hopen) ?_ ?_ ⟨seen, byte, rfl, hopen⟩
        · rw [run_snoc, step_escape _ hopen]
        · rw [run_snoc, step_escape _ hopen]
      · refine .outside rfl (decide_eq_false hopen) ?_ ?_
        · rw [run_snoc, run_snoc, hseen, hout]
        · -- The byte came right after ESC: only one that keeps the escape state is hidden.
          constructor
          · intro hrun
            rw [run_snoc, hseen] at hrun
            rcases escape_of_step hrun with h | ⟨_, hheld⟩
            · exact absurd h hopen
            · obtain ⟨before, open', rfl, hopen'⟩ := hlast
              refine ⟨before, open', [byte], by simp, hopen', by simp, ?_⟩
              intro other hmem
              rw [mem_singleton.mp hmem]
              exact hheld
          · intro payload hrun
            rw [run_snoc, hseen] at hrun
            rcases osc_of_step hrun with ⟨_, h, _⟩ | ⟨_, h, _⟩
            · exact absurd h hclose
            · cases h
  | outside hosc hescape hsame htraced =>
    have hkeep : limiter.next byte = (limiter.setClipboard byte.1).keep byte.2 := rfl
    rw [OscLimiter.keep, OscLimiter.setClipboard, hosc, hescape] at hkeep
    dsimp only at hkeep
    rw [if_neg fun h => Bool.noConfusion h.1] at hkeep
    rw [hkeep]
    refine ⟨?_, fun hcut => Bool.noConfusion hcut⟩
    rw [if_pos rfl]
    by_cases hopen : byte.2 = 0x1B
    · refine .ready rfl (decide_eq_true hopen) ?_ ?_ ⟨seen, byte, rfl, hopen⟩
      · rw [run_snoc, step_escape _ hopen]
      · rw [run_snoc, step_escape _ hopen]
    · refine .outside rfl (decide_eq_false hopen) ?_ (htraced.snoc hopen)
      rw [run_snoc, run_snoc, hsame]

theorem stands_start : Stands {} [] [] := .outside rfl rfl rfl (traced_ground rfl)

/-- Wherever the stream is stopped, limiter and parser stand in step. -/
theorem stands_run (bytes : List (Bool × UInt8)) :
    Stands (({} : OscLimiter).after bytes) bytes (({} : OscLimiter).kept bytes) := by
  induction bytes using List.reverseRecOn with
  | nil => exact stands_start
  | append_singleton bytes byte ih =>
    rw [kept_append, after_append]
    have hstep := (stands_step ih byte).1
    cases hkeep : ((({} : OscLimiter).after bytes).next byte).1 with
    | true =>
      rw [hkeep, if_pos rfl] at hstep
      rw [OscLimiter.kept, hkeep, if_pos rfl]
      exact hstep
    | false =>
      rw [hkeep, if_neg Bool.false_ne_true] at hstep
      rw [OscLimiter.kept, hkeep, if_neg Bool.false_ne_true, OscLimiter.kept, List.append_nil]
      exact hstep

theorem trims_from {seen : List (Bool × UInt8)} (h : Stands limiter seen out)
    (bytes : List (Bool × UInt8)) : Trims seen bytes (limiter.kept bytes) := by
  induction bytes generalizing limiter seen out with
  | nil => exact .done seen
  | cons byte rest ih =>
    obtain ⟨hstands, hcut⟩ := stands_step h byte
    rw [OscLimiter.kept]
    cases hkeep : (limiter.next byte).1 with
    | true => exact .pass (ih hstands)
    | false => exact .cut (hcut hkeep) (ih hstands)

theorem trims_short {seen input output : List (Bool × UInt8)} (h : Trims seen input output)
    (hshort : ∀ front byte, front ++ [byte] <+: input → ¬ PastLimit (seen ++ front) byte) :
    output = input := by
  induction h with
  | done _ => rfl
  | @pass seen input output byte _ ih =>
    refine congrArg (byte :: ·) (ih fun front other hfront => ?_)
    have h := hshort (byte :: front) other (prefix_cons_inj byte |>.mpr hfront)
    rwa [append_cons] at h
  | @cut seen input output byte hpast _ _ =>
    refine absurd hpast ?_
    have h := hshort [] byte (prefix_cons_inj byte |>.mpr List.nil_prefix)
    rwa [List.append_nil] at h

theorem kept_front {bytes front : List (Bool × UInt8)} (hfront : front <+: limiter.kept bytes) :
    ∃ seen, seen <+: bytes ∧ limiter.kept seen = front := by
  induction bytes generalizing limiter front with
  | nil => exact ⟨[], List.nil_prefix, (prefix_nil.mp hfront).symm⟩
  | cons byte rest ih =>
    rw [OscLimiter.kept] at hfront
    cases hkeep : (limiter.next byte).1 with
    | true =>
      rw [hkeep, if_pos rfl] at hfront
      cases front with
      | nil => exact ⟨[], List.nil_prefix, rfl⟩
      | cons first front =>
        obtain ⟨rfl, hrest⟩ := cons_prefix_cons.mp hfront
        obtain ⟨seen, hseen, rfl⟩ := ih hrest
        exact ⟨first :: seen, prefix_cons_inj first |>.mpr hseen, by
          rw [OscLimiter.kept, hkeep, if_pos rfl]⟩
    | false =>
      rw [hkeep, if_neg Bool.false_ne_true] at hfront
      obtain ⟨seen, hseen, rfl⟩ := ih hfront
      exact ⟨byte :: seen, prefix_cons_inj byte |>.mpr hseen, by
        rw [OscLimiter.kept, hkeep, if_neg Bool.false_ne_true]⟩

theorem bounded_of_hidden {bytes : List (Bool × UInt8)} (hhidden : HiddenShort bytes) :
    Bounded (({} : OscLimiter).kept bytes) := by
  intro front payload hfront hrun
  obtain ⟨seen, ⟨after, rfl⟩, rfl⟩ := kept_front hfront
  cases stands_run seen with
  | inside _ passed _ _ _ _ hout _ _ hallowed =>
    obtain rfl := State.oscString.inj (hrun.symm.trans hout)
    exact limit_of_allowance hallowed
  | ready _ _ _ hout _ => cases hrun.symm.trans hout
  | outside _ _ hsame htraced =>
    obtain ⟨before, open', held, close, rfl, hopen, hsome, hall, hclose, hpayload⟩ :=
      htraced.osc payload (hsame.symm.trans hrun)
    exact hhidden before held payload after open' close rfl hopen hsome hall hclose hpayload

theorem ready_after (bytes : List (Bool × UInt8)) {open' : Bool × UInt8} (hopen : open'.2 = 0x1B) :
    (({} : OscLimiter).after (bytes ++ [open'])).osc = none ∧
      run (({} : OscLimiter).kept (bytes ++ [open'])) = .escape := by
  have hescape : run (bytes ++ [open']) = .escape := by rw [run_snoc, step_escape _ hopen]
  cases stands_run (bytes ++ [open']) with
  | inside _ _ _ _ _ hseen _ _ _ _ => cases hescape.symm.trans hseen
  | ready hosc _ _ hout _ => exact ⟨hosc, hout⟩
  | outside hosc _ hsame _ => exact ⟨hosc, hsame.trans hescape⟩

/-- Outside its strings, and not right after ESC, the limiter lets everything pass and stays
there. -/
theorem kept_quiet (hosc : limiter.osc = none) (hescape : limiter.escape = false)
    {bytes : List (Bool × UInt8)} (hquiet : ∀ byte ∈ bytes, byte.2 ≠ 0x1B) :
    limiter.kept bytes = bytes ∧ (limiter.after bytes).osc = none ∧
      (limiter.after bytes).escape = false := by
  induction bytes generalizing limiter with
  | nil => exact ⟨rfl, hosc, hescape⟩
  | cons byte rest ih =>
    have hkeep : limiter.next byte = (limiter.setClipboard byte.1).keep byte.2 := rfl
    rw [OscLimiter.keep, OscLimiter.setClipboard, hosc, hescape] at hkeep
    dsimp only at hkeep
    rw [if_neg fun h => Bool.noConfusion h.1] at hkeep
    have hosc' : (limiter.next byte).2.osc = none := by rw [hkeep]
    have hescape' : (limiter.next byte).2.escape = false := by
      rw [hkeep]
      exact decide_eq_false (hquiet byte mem_cons_self)
    obtain ⟨hrest, hafter⟩ :=
      ih hosc' hescape' fun other hmem => hquiet other (mem_cons_of_mem byte hmem)
    refine ⟨?_, hafter⟩
    rw [OscLimiter.kept, hrest, hkeep, if_pos rfl]

theorem run_payload (seen payload : List (Bool × UInt8)) {earlier : List (Bool × UInt8)}
    (hseen : run seen = .oscString earlier) (hends : ∀ byte ∈ payload, ¬ Ends byte.2) :
    run (seen ++ payload) = .oscString (earlier ++ payload) := by
  induction payload generalizing seen earlier with
  | nil => rwa [List.append_nil, List.append_nil]
  | cons byte rest ih =>
    rw [append_cons, append_cons earlier]
    refine ih (seen ++ [byte]) ?_ fun other hmem => hends other (mem_cons_of_mem byte hmem)
    rw [run_snoc, hseen, step_osc (hends byte mem_cons_self)]

theorem run_held (seen held : List (Bool × UInt8)) (hseen : run seen = .escape)
    (hheld : ∀ byte ∈ held, Held byte.2) : run (seen ++ held) = .escape := by
  induction held generalizing seen with
  | nil => rwa [List.append_nil]
  | cons byte rest ih =>
    rw [append_cons]
    refine ih (seen ++ [byte]) ?_ fun other hmem => hheld other (mem_cons_of_mem byte hmem)
    rw [run_snoc, hseen, step_held (hheld byte mem_cons_self)]

theorem not_escape_of_held (hheld : Held byte) : byte ≠ 0x1B := by
  rintro rfl
  revert hheld
  decide

theorem not_close_of_held (hheld : Held byte) : byte ≠ 0x5D := by
  rintro rfl
  revert hheld
  decide

theorem hidden_of_bounded {bytes : List (Bool × UInt8)}
    (hbounded : Bounded (({} : OscLimiter).kept bytes)) : HiddenShort bytes := by
  intro before held payload after open' close hbytes hopen hsome hall hclose hends
  obtain ⟨hosc, hrun⟩ := ready_after before hopen
  generalize hlimiter : ({} : OscLimiter).after (before ++ [open']) = limiter at hosc
  generalize hout : ({} : OscLimiter).kept (before ++ [open']) = out at hrun
  cases held with
  | nil => exact absurd rfl hsome
  | cons first held =>
    -- The first byte after ESC clears the flag, and the rest passes outside the limiter's strings.
    have hfirst : limiter.next first = (limiter.setClipboard first.1).keep first.2 := rfl
    have hnotescape := not_escape_of_held (hall first mem_cons_self)
    have hnotclose := not_close_of_held (hall first mem_cons_self)
    rw [OscLimiter.keep, OscLimiter.setClipboard, hosc] at hfirst
    dsimp only at hfirst
    rw [if_neg fun h => hnotclose h.2] at hfirst
    have hquiet : ∀ byte ∈ held ++ close :: payload, byte.2 ≠ 0x1B := by
      intro byte hmem
      rcases mem_append.mp hmem with hmem | hmem
      · exact not_escape_of_held (hall byte (mem_cons_of_mem first hmem))
      · rcases mem_cons.mp hmem with rfl | hmem
        · rw [hclose]
          decide
        · exact fun h => hends byte hmem (.inr (.inr (.inr h)))
    have hoscFirst : (limiter.next first).2.osc = none := by rw [hfirst]
    have hescapeFirst : (limiter.next first).2.escape = false := by
      rw [hfirst]
      exact decide_eq_false hnotescape
    obtain ⟨hkept, _⟩ := kept_quiet hoscFirst hescapeFirst hquiet
    have hpassed : limiter.kept (first :: held ++ close :: payload) =
        first :: held ++ close :: payload := by
      rw [cons_append, OscLimiter.kept, hkept, hfirst, if_pos rfl]
    have hsplit : bytes = before ++ [open'] ++ (first :: held ++ close :: payload) ++ after := by
      rw [hbytes]
      simp only [List.append_assoc, cons_append, List.nil_append]
    have hclosed : run (out ++ (first :: held) ++ [close]) = .oscString [] := by
      rw [run_snoc, run_held out (first :: held) hrun hall]
      obtain ⟨allowed, close⟩ := close
      obtain rfl : close = 0x5D := hclose
      rfl
    refine hbounded (out ++ (first :: held) ++ [close] ++ payload) payload ?_ ?_
    · have hwhole : out ++ (first :: held) ++ [close] ++ payload =
          out ++ (first :: held ++ close :: payload) := by
        simp only [List.append_assoc, cons_append, List.nil_append]
      rw [hsplit, kept_append, kept_append, hout, hlimiter, hpassed, hwhole]
      exact prefix_append _ _
    · exact run_payload _ payload hclosed hends

/-- The parser's strings stay within the limit exactly when those begun behind the limiter's
back are short by themselves; whatever comes, only payload past the limit is dropped. -/
theorem limits_iff (chunks : List (Bool × List UInt8)) :
    (Limits chunks ↔ HiddenShort (stream chunks)) ∧
      Trims [] (stream chunks) (stream (parseChunks {} chunks)) := by
  have htrims : Trims [] (stream chunks) (stream (parseChunks {} chunks)) := by
    rw [stream_parseChunks]
    exact trims_from stands_start _
  refine ⟨⟨fun h => ?_, fun hhidden => ⟨?_, htrims, fun hshort => ?_⟩⟩, htrims⟩
  · have hbounded := h.bounded
    rw [stream_parseChunks] at hbounded
    exact hidden_of_bounded hbounded
  · rw [stream_parseChunks]
    exact bounded_of_hidden hhidden
  · refine parseChunks_of_kept ?_
    rw [← stream_parseChunks]
    exact trims_short htrims hshort

section Twice

/-- A limiter that sees only what another one passed: it has counted no more of a string, and
as much until bytes were dropped. -/
structure Behind (first second : OscLimiter) : Prop where
  escape : second.escape = first.escape
  prefixBytes : second.prefixBytes = first.prefixBytes
  length : first.prefixBytes.length = 3
  outside : first.osc = none → second.osc = none
  inside : ∀ n, first.osc = some n → ∃ m, second.osc = some m ∧ m ≤ n ∧ (m = n ∨ maxOscString ≤ m)

variable {first second : OscLimiter}

/-- Bytes past the limit change none of those that tell what a string is. -/
theorem set_past {bytes : List UInt8} (hlength : bytes.length = 3) {n : Nat}
    (hpast : maxOscString ≤ n) (byte : UInt8) : bytes.set n byte = bytes := by
  rw [maxOscString] at hpast
  exact set_eq_of_length_le (by omega)

/-- A byte inside a string: what passed the first limiter passes the second. -/
theorem behind_payload (h : Behind first second) {n : Nat} (hosc : first.osc = some n)
    {byte : UInt8} (hends : ¬ Ends byte) (hclipboard : second.clipboard = first.clipboard) :
    if (first.keep byte).1 then
      (second.keep byte).1 = true ∧ Behind (first.keep byte).2 (second.keep byte).2
    else Behind (first.keep byte).2 second := by
  obtain ⟨m, hm, hle, hcount⟩ := h.inside n hosc
  have hset : first.prefixBytes.set m byte = first.prefixBytes.set n byte := by
    rcases hcount with rfl | hpast
    · rfl
    · rw [set_past h.length hpast, set_past h.length (Nat.le_trans hpast hle)]
  rw [keep_payload hosc hends, keep_payload hm hends, hclipboard, h.prefixBytes, hset]
  simp only [decide_eq_true_eq]
  generalize hlimit : (if first.clipboard ∧ first.prefixBytes.set n byte = clipboardPrefix then
    maxOsc52String else maxOscString) = limit
  have hpast : maxOscString ≤ limit := by
    rw [← hlimit]
    split
    · decide
    · exact Nat.le_refl _
  split
  · rename_i hpass
    refine ⟨Nat.lt_of_le_of_lt hle hpass, ⟨h.escape, rfl, by rw [length_set]; exact h.length,
      nofun, ?_⟩⟩
    rintro _ ⟨⟩
    exact ⟨m + 1, rfl, Nat.succ_le_succ hle, hcount.imp (congrArg (· + 1)) Nat.le_succ_of_le⟩
  · rename_i hdrop
    have hn : maxOscString ≤ n := by omega
    refine ⟨h.escape, ?_, by rw [length_set]; exact h.length, nofun, ?_⟩
    · exact h.prefixBytes.trans (set_past h.length hn byte).symm
    · rintro _ ⟨⟩
      refine ⟨m, hm, Nat.le_succ_of_le hle, .inr ?_⟩
      rcases hcount with rfl | hcount
      · exact hn
      · exact hcount

theorem behind_keep (h : Behind first second) (hclipboard : second.clipboard = first.clipboard)
    (byte : UInt8) :
    if (first.keep byte).1 then
      (second.keep byte).1 = true ∧ Behind (first.keep byte).2 (second.keep byte).2
    else Behind (first.keep byte).2 second := by
  cases hosc : first.osc with
  | some n =>
    by_cases hends : Ends byte
    · obtain ⟨m, hm, -⟩ := h.inside n hosc
      rw [OscLimiter.keep, OscLimiter.keep, hosc, hm]
      rcases hends with rfl | rfl | rfl | rfl
      · exact ⟨rfl, h.escape, h.prefixBytes, h.length, fun _ => rfl, nofun⟩
      · exact ⟨rfl, h.escape, h.prefixBytes, h.length, fun _ => rfl, nofun⟩
      · exact ⟨rfl, h.escape, h.prefixBytes, h.length, fun _ => rfl, nofun⟩
      · exact ⟨rfl, rfl, h.prefixBytes, h.length, fun _ => rfl, nofun⟩
    · exact behind_payload h hosc hends hclipboard
  | none =>
    rw [OscLimiter.keep, OscLimiter.keep, hosc, h.outside hosc, h.escape]
    dsimp only
    by_cases hopen : first.escape = true ∧ byte = 0x5D
    · rw [if_pos hopen, if_pos hopen]
      refine ⟨rfl, rfl, rfl, rfl, nofun, ?_⟩
      rintro _ ⟨⟩
      exact ⟨0, rfl, Nat.le_refl 0, .inl rfl⟩
    · rw [if_neg hopen, if_neg hopen]
      exact ⟨rfl, rfl, h.prefixBytes, h.length, fun _ => rfl, nofun⟩

theorem behind_next (h : Behind first second) (byte : Bool × UInt8) :
    if (first.next byte).1 then
      (second.next byte).1 = true ∧ Behind (first.next byte).2 (second.next byte).2
    else Behind (first.next byte).2 second := by
  have hkeep := @behind_keep (first.setClipboard byte.1) (second.setClipboard byte.1)
    ⟨h.escape, h.prefixBytes, h.length, h.outside, h.inside⟩ rfl byte.2
  rw [OscLimiter.next, OscLimiter.next]
  split
  · rename_i hpass
    rwa [if_pos hpass] at hkeep
  · rename_i hdrop
    rw [if_neg hdrop] at hkeep
    exact ⟨hkeep.escape, hkeep.prefixBytes, hkeep.length, hkeep.outside, hkeep.inside⟩

theorem kept_kept (h : Behind first second) (bytes : List (Bool × UInt8)) :
    second.kept (first.kept bytes) = first.kept bytes := by
  induction bytes generalizing first second with
  | nil => rfl
  | cons byte rest ih =>
    have hnext := behind_next h byte
    rw [OscLimiter.kept]
    split
    · rename_i hpass
      rw [if_pos hpass] at hnext
      rw [OscLimiter.kept, if_pos hnext.1, ih hnext.2]
    · rename_i hdrop
      rw [if_neg hdrop] at hnext
      exact ih hnext

/-- What one limiter lets through, a second one lets through whole, in whatever chunks and with
whatever settings of the clipboard it came. -/
theorem limited_twice (chunks : List (Bool × List UInt8)) :
    parseChunks {} (parseChunks {} chunks) = parseChunks {} chunks := by
  refine parseChunks_of_kept ?_
  rw [stream_parseChunks]
  exact kept_kept ⟨rfl, rfl, rfl, fun _ => rfl, by simp⟩ (stream chunks)

end Twice

namespace LimiterWitness

/-- ESC, NUL, `]` and a title of some letters. -/
def hiddenTitle (letters : Nat) : List (Bool × List UInt8) :=
  [(false, 0x1B :: 0x00 :: 0x5D :: List.replicate letters 0x41)]

theorem le_of_limits {letters : Nat} (h : Limits (hiddenTitle letters)) :
    letters ≤ maxOscString := by
  have hbounded := h.bounded
  rw [stream_parseChunks] at hbounded
  have hstream : stream (hiddenTitle letters) =
      [] ++ (false, 0x1B) :: [(false, 0x00)] ++
        (false, 0x5D) :: List.replicate letters (false, 0x41) ++ [] := by
    simp only [hiddenTitle, stream, flatMap_cons, flatMap_nil, map_cons,
      map_replicate, List.append_nil, List.nil_append, cons_append]
  have hends : ∀ byte ∈ List.replicate letters (false, (0x41 : UInt8)), ¬ Ends byte.2 := by
    intro byte hmem
    rw [eq_of_mem_replicate hmem]
    decide
  have hheld : ∀ byte ∈ [(false, (0x00 : UInt8))], Held byte.2 := by
    intro byte hmem
    rw [mem_singleton.mp hmem]
    decide
  have hlong := hidden_of_bounded hbounded [] [(false, 0x00)]
    (List.replicate letters (false, 0x41)) [] (false, 0x1B) (false, 0x5D) hstream rfl
    (cons_ne_nil _ _) hheld rfl hends
  rw [limit, if_neg, buffered, map_replicate, filter_replicate_of_pos (by decide),
    length_replicate] at hlong
  · exact hlong
  · rintro ⟨hany, _⟩
    obtain ⟨byte, hmem, hallowed⟩ := any_eq_true.mp hany
    rw [eq_of_mem_replicate hmem] at hallowed
    cases hallowed

/-- The limiter does not see the string begin, and the parser stores all of it. -/
theorem hidden_title_stored : ¬ Limits (hiddenTitle 8193) := by
  intro h
  have hle := le_of_limits h
  revert hle
  decide

end LimiterWitness

end Opensesh.Osc
