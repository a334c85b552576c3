/-
The recorder of a session: output decoded piece by piece, a line of JSON for each piece and
each resize, and what is read back from the file.
-/
import Opensesh.Cast
import Opensesh.LossyPieces
import Opensesh.TargetPieces
import Mathlib.Data.NNRat.Defs
import Mathlib.Data.Rat.Floor

namespace Opensesh.Recording

open List
open Text
open Target (digits parseNumber)

/-- The bytes before a character that begins near the end and isn't complete there: from `back`
bytes before the end on, over the last ones in reverse. -/
def completeFrom (length : Nat) : Nat → List UInt8 → Nat
  | _, [] => length
  | back, byte :: rest =>
    if byte &&& 0xC0 = 0x80 then completeFrom length (back + 1) rest
    else if leadLength byte > back then length - back
    else length

/-- How many bytes end on a whole UTF-8 character. -/
def completeUtf8 (encoded : List UInt8) : Nat :=
  completeFrom encoded.length 1 (encoded.reverse.take 3)

/-- A size of the terminal, as the session clamps it. -/
structure TermSize where
  columns : UInt16
  lines : UInt16
  hcolumns : 2 ≤ columns.toNat
  hlines : 1 ≤ lines.toNat

/-- What goes to the writer thread; times are since the recording started. -/
inductive Message where
  | header (size : TermSize)
  | output (time : ℚ≥0) (text : List Char)
  | resize (time : ℚ≥0) (size : TermSize)

structure Recorder where
  /-- The start of a character split across output chunks. -/
  carry : List UInt8

/-- What a session taps after it attached the recorder. -/
inductive Tapped where
  | output (time : ℚ≥0) (encoded : List UInt8)
  | resize (time : ℚ≥0) (size : TermSize)

def Recorder.output (time : ℚ≥0) (encoded : List UInt8) (r : Recorder) : Recorder × List Message :=
  let carry := r.carry ++ encoded
  let complete := completeUtf8 carry
  if complete = 0 then (⟨carry⟩, [])
  else (⟨carry.drop complete⟩, [.output time (fromUtf8Lossy (carry.take complete))])

def Recorder.tap (r : Recorder) : Tapped → Recorder × List Message
  | .output time encoded => r.output time encoded
  | .resize time size => (r, [.resize time size])

def Recorder.run (r : Recorder) : List Tapped → Recorder × List Message
  | [] => (r, [])
  | tapped :: rest =>
    (((r.tap tapped).1.run rest).1, (r.tap tapped).2 ++ ((r.tap tapped).1.run rest).2)

/-- What a session sends to the writer, from the moment it attaches the recorder. -/
def messages (size : TermSize) (taps : List Tapped) : List Message :=
  .header size :: ((⟨[]⟩ : Recorder).run taps).2

/-- A JSON value. -/
inductive Json where
  | null
  | bool (value : Bool)
  | int (value : Int)
  | float (value : ℚ)
  | text (value : List Char)
  | array (items : List Json)
  | object (entries : List (List Char × Json))

/-- The value of a key; null where there is none. -/
def Json.field (key : List Char) : Json → Json
  | .object entries => ((entries.find? fun entry => entry.1 = key).map Prod.snd).getD .null
  | _ => .null

/-- An item of an array; null where there is none. -/
def Json.item (n : Nat) : Json → Json
  | .array items => items[n]?.getD .null
  | _ => .null

def Json.asI64 : Json → Option Int
  | .int value => if -9223372036854775808 ≤ value ∧ value < 9223372036854775808 then some value
      else none
  | _ => none

def Json.asU64 : Json → Option Nat
  | .int value => if 0 ≤ value ∧ value < 18446744073709551616 then some value.toNat else none
  | _ => none

def Json.asF64 : Json → Option ℚ
  | .int value => some value
  | .float value => some value
  | _ => none

def Json.asStr : Json → Option (List Char)
  | .text value => some value
  | _ => none

/-- Printing and parsing of JSON on one line; the parser gives an error's text. -/
structure JsonText where
  print : Json → List Char
  parse : List Char → Except (List Char) Json

/-- A value that the parser gives back, printed without line ends on a line that isn't blank. -/
structure JsonText.Reads (codec : JsonText) (value : Json) : Prop where
  inverse : codec.parse (codec.print value) = .ok value
  oneLine : ∀ c ∈ codec.print value, c ≠ '\n' ∧ c ≠ '\r'
  notBlank : trim (codec.print value) ≠ []

/-- Seconds with microseconds. -/
def round (time : ℚ≥0) : ℚ := (⌊(time : ℚ) * 1000000 + 1 / 2⌋ : ℚ) / 1000000

/-- The line a message is written as. -/
def Message.json (title term : List Char) (timestamp : UInt64) : Message → Json
  | .header size =>
    .object [
      ("version".toList, .int 2),
      ("width".toList, .int size.columns.toNat),
      ("height".toList, .int size.lines.toNat),
      ("timestamp".toList, .int timestamp.toNat),
      ("title".toList, .text title),
      ("env".toList, .object [("TERM".toList, .text term)])]
  | .output time text => .array [.float (round time), .text "o".toList, .text text]
  | .resize time size =>
    .array [.float (round time), .text "r".toList,
      .text (digits size.columns.toNat ++ 'x' :: digits size.lines.toNat)]

/-- The file the writer thread leaves when the recorder is dropped. -/
def writeCast (codec : JsonText) (title term : List Char) (timestamp : UInt64)
    (received : List Message) : List Char :=
  (received.map fun message => codec.print (message.json title term timestamp)).flatMap
    (· ++ ['\n'])

/-- Why a recording couldn't be read. -/
inductive CastError where
  | header (message : List Char)
  /-- A line, counted from 1, that isn't an event. -/
  | event (line : Nat) (message : List Char)

def readSize (header : Json) (key : List Char) : Except CastError UInt16 :=
  match (header.field key).asU64 with
  | some value =>
    if 0 < value ∧ value ≤ 65535 then .ok (UInt16.ofNat value)
    else .error (.header ("no ".toList ++ key))
  | none => .error (.header ("no ".toList ++ key))

def readHeader (header : Json) : Except CastError Header :=
  if (header.field "version".toList).asI64 ≠ some 2 then
    .error (.header "the version is not 2".toList)
  else do
    let width ← readSize header "width".toList
    let height ← readSize header "height".toList
    return {
      width, height
      timestamp := (header.field "timestamp".toList).asI64
      title := (header.field "title".toList).asStr }

/-- The event of a line, if it is of a kind that is kept. -/
def readEvent (line : Nat) (value : Json) : Except CastError (Option Event) :=
  match (value.item 0).asF64, (value.item 1).asStr, (value.item 2).asStr with
  | some time, some code, some data =>
    if time < 0 then .error (.event line "the time is not valid".toList)
    else if code = "o".toList then .ok (some (.output time data))
    else if code = "r".toList then
      match (splitOnce 'x' data).map fun (columns, lines) =>
          (parseNumber 65535 columns, parseNumber 65535 lines) with
      | some (some columns, some lines) =>
        .ok (some (.resize time (UInt16.ofNat columns) (UInt16.ofNat lines)))
      | _ => .error (.event line "a resize is COLSxROWS".toList)
    else .ok none
  | _, _, _ => .error (.event line "expected [time, code, data]".toList)

/-- The events of the lines after the header, each with its index. -/
def readEvents (parse : List Char → Except (List Char) Json) :
    List (List Char × Nat) → Except CastError (List Event)
  | [] => .ok []
  | (line, index) :: rest =>
    match parse line with
    | .error message => .error (.event (index + 1) message)
    | .ok value => do
        let event ← readEvent (index + 1) value
        let events ← readEvents parse rest
        return event.toList ++ events

/-- Reads a recording. -/
def read (parse : List Char → Except (List Char) Json) (text : List Char) : Except CastError Cast :=
  match (lines text).zipIdx.filter fun (line, _) => !(trim line).isEmpty with
  | [] => .error (.header "the file is empty".toList)
  | (first, _) :: rest =>
    match parse first with
    | .error message => .error (.header message)
    | .ok value => do
        let header ← readHeader value
        let events ← readEvents parse rest
        -- Times never go back, though a file edited by hand might say so.
        return ⟨header, settle 0 events, settle_inOrder 0 events⟩

theorem masked_iff (byte : UInt8) : byte &&& 0xC0 = 0x80 ↔ isContinuation byte = true := by
  have h : ∀ n : Fin 256,
      UInt8.ofFin n &&& 0xC0 = 0x80 ↔ isContinuation (UInt8.ofFin n) = true := by
    decide +kernel
  exact h byte.toFin

/-- Bytes that begin like a character, as their first byte tells, and aren't as many. -/
def LooksIncomplete (held : List UInt8) : Prop :=
  ∃ lead tail, held = lead :: tail ∧ (∀ b ∈ tail, isContinuation b = true) ∧
    tail.length + 1 < leadLength lead

/-- Bytes that don't end so. -/
def Whole (encoded : List UInt8) : Prop := ∀ held, held <:+ encoded → ¬ LooksIncomplete held

variable {lead : UInt8} {tail front encoded shown : List UInt8} {r : Recorder}

theorem LooksIncomplete.lead_continuation (h : LooksIncomplete (lead :: tail)) :
    isContinuation lead = false := by
  obtain ⟨_, _, heq, -, hlength⟩ := h
  obtain ⟨rfl, rfl⟩ := List.cons.inj heq
  cases hcont : isContinuation lead with
  | false => rfl
  | true =>
    rw [leadLength_continuation hcont] at hlength
    omega

theorem lastLead {before rest : List UInt8} {byte : UInt8}
    (h : before ++ lead :: rest = front ++ byte :: tail)
    (hrest : ∀ b ∈ rest, isContinuation b = true) (hlead : isContinuation lead = false)
    (htail : ∀ b ∈ tail, isContinuation b = true) (hbyte : isContinuation byte = false) :
    lead = byte ∧ rest = tail := by
  rcases append_eq_append_iff.mp h with ⟨middle, -, hmiddle⟩ | ⟨middle, -, hmiddle⟩
  · cases middle with
    | nil => exact List.cons.inj hmiddle
    | cons other middle =>
      have hmem : byte ∈ rest := by
        rw [(List.cons.inj hmiddle).2]
        exact mem_append_right _ mem_cons_self
      rw [hrest byte hmem] at hbyte
      cases hbyte
  · cases middle with
    | nil =>
      obtain ⟨heq, hsame⟩ := List.cons.inj hmiddle
      exact ⟨heq.symm, hsame.symm⟩
    | cons other middle =>
      have hmem : lead ∈ tail := by
        rw [(List.cons.inj hmiddle).2]
        exact mem_append_right _ mem_cons_self
      rw [htail lead hmem] at hlead
      cases hlead

/-- Three continuation bytes are enough for any first byte before them. -/
theorem whole_of_three (htail : ∀ b ∈ tail, isContinuation b = true)
    (hlength : front ≠ [] → 3 ≤ tail.length) : Whole (front ++ tail) := by
  rintro held ⟨before, hbefore⟩ hheld
  obtain ⟨lead, rest, rfl, hrest, hshort⟩ := id hheld
  have hlead := hheld.lead_continuation
  have hle := leadLength_le lead
  rcases append_eq_append_iff.mp hbefore with ⟨middle, hmiddle, heq⟩ | ⟨middle, -, heq⟩
  · cases middle with
    | nil =>
      rw [htail lead (by rw [← List.nil_append tail, ← heq]; exact mem_cons_self)] at hlead
      cases hlead
    | cons other middle =>
      have hthree := hlength (by simp [hmiddle])
      have hrestEq : rest = middle ++ tail := (List.cons.inj heq).2
      rw [hrestEq, length_append] at hshort
      omega
  · rw [htail lead (by rw [heq]; exact mem_append_right _ mem_cons_self)] at hlead
    cases hlead

theorem completeFrom_spec (left tail : List UInt8) (k : Nat) (hk : k + tail.length = 3)
    (htail : ∀ b ∈ tail, isContinuation b = true) :
    completeFrom (left.length + tail.length) (tail.length + 1) (left.take k) =
        left.length + tail.length ∧ Whole (left.reverse ++ tail) ∨
      ∃ front held, left.reverse ++ tail = front ++ held ∧ LooksIncomplete held ∧
        completeFrom (left.length + tail.length) (tail.length + 1) (left.take k) =
          front.length := by
  induction k generalizing left tail with
  | zero => exact Or.inl ⟨rfl, whole_of_three htail fun _ => by omega⟩
  | succ k ih =>
    cases left with
    | nil => exact Or.inl ⟨rfl, whole_of_three htail fun hne => absurd rfl hne⟩
    | cons byte left =>
      rw [take_succ_cons, completeFrom, reverse_cons, List.append_assoc, singleton_append]
      simp only [masked_iff]
      split
      · rename_i hcont
        have hmore := ih left (byte :: tail) (by rw [length_cons]; omega)
          (forall_mem_cons.mpr ⟨hcont, htail⟩)
        rw [length_cons, ← Nat.add_assoc] at hmore
        rwa [length_cons, Nat.add_right_comm]
      · rename_i hcont
        rw [Bool.not_eq_true] at hcont
        split
        · rename_i hneeds
          refine Or.inr ⟨left.reverse, byte :: tail, rfl, ⟨byte, tail, rfl, htail, hneeds⟩, ?_⟩
          rw [length_cons, length_reverse]
          omega
        · rename_i hneeds
          refine Or.inl ⟨rfl, ?_⟩
          rintro held ⟨before, hbefore⟩ hheld
          obtain ⟨lead, rest, rfl, hrest, hshort⟩ := id hheld
          obtain ⟨rfl, rfl⟩ := lastLead hbefore hrest hheld.lead_continuation htail hcont
          exact hneeds hshort

/-- Everything is complete and the bytes end on whole characters, or all but bytes that begin
like a character. -/
theorem completeUtf8_spec (encoded : List UInt8) :
    completeUtf8 encoded = encoded.length ∧ Whole encoded ∨
      ∃ front held, encoded = front ++ held ∧ LooksIncomplete held ∧
        completeUtf8 encoded = front.length := by
  have h := completeFrom_spec encoded.reverse [] 3 rfl (by simp)
  rw [length_reverse, reverse_reverse, List.append_nil, length_nil, Nat.add_zero] at h
  exact h

theorem Whole.apart (h : Whole front) (later : List UInt8) : Apart front later := by
  rintro before lead rest rfl hrest
  refine Or.inl (Nat.not_lt.mp fun hshort => ?_)
  exact h (lead :: rest) ⟨before, rfl⟩ ⟨lead, rest, rfl, hrest, hshort⟩

/-- The bytes of an output that are held back: those it ends with that begin like a character,
if it ends so. -/
def Final (incomplete : List UInt8 → Prop) (encoded last : List UInt8) : Prop :=
  last <:+ encoded ∧ incomplete last ∨ last = [] ∧ ∀ held, held <:+ encoded → ¬ incomplete held

theorem LooksIncomplete.take {held : List UInt8} (h : LooksIncomplete held) {n : Nat}
    (hn : n ≠ 0) : LooksIncomplete (held.take n) := by
  obtain ⟨lead, tail, rfl, htail, hshort⟩ := h
  obtain ⟨n, rfl⟩ := Nat.exists_eq_succ_of_ne_zero hn
  refine ⟨lead, tail.take n, by rw [take_succ_cons], fun b hb => htail b (mem_of_mem_take hb), ?_⟩
  have hle := length_take_le' n tail
  omega

/-- A recorder that has sent the text of the first of the bytes, and carries the others. -/
structure Recorder.Tracks (encoded shown : List UInt8) (r : Recorder) : Prop where
  split : encoded = shown ++ r.carry
  final : Final LooksIncomplete encoded r.carry

/-- What it sent ends between characters. -/
theorem Recorder.Tracks.apart (h : r.Tracks encoded shown) (later : List UInt8) :
    Apart shown (r.carry ++ later) := by
  rcases h.final with ⟨-, hheld⟩ | ⟨hnil, hwhole⟩
  · obtain ⟨lead, tail, hcarry, -, -⟩ := id hheld
    have hlead := (hcarry ▸ hheld).lead_continuation
    refine fun _ _ _ _ _ => Or.inr fun b hb => ?_
    rw [hcarry, cons_append, List.head?_cons] at hb
    obtain rfl := Option.some.inj hb
    exact hlead
  · have hsplit := h.split
    rw [hnil, List.append_nil] at hsplit
    exact (hsplit ▸ hwhole : Whole shown).apart _

/-- Bytes that were whole, or end with what is carried, stay whole with whole ones after them. -/
theorem Recorder.Tracks.whole (h : r.Tracks encoded shown) {more : List UInt8}
    (hmore : Whole (r.carry ++ more)) : Whole (encoded ++ more) := by
  rintro held ⟨before, hbefore⟩ hheld
  rw [h.split, List.append_assoc] at hbefore
  rcases append_eq_append_iff.mp hbefore with ⟨middle, hmiddle, heq⟩ | ⟨middle, -, heq⟩
  · cases middle with
    | nil => exact hmore held (heq ▸ suffix_refl _) hheld
    | cons lead start =>
      obtain ⟨_, tail, hcons, htail, -⟩ := id hheld
      rw [heq] at hcons
      obtain ⟨rfl, rfl⟩ := List.cons.inj hcons
      have hstart : LooksIncomplete (lead :: start) := by
        have htake := hheld.take (Nat.succ_ne_zero start.length)
        rw [heq] at htake
        rwa [take_left' (by rw [length_cons])] at htake
      rcases h.final with ⟨-, hcarry⟩ | ⟨hnil, hwhole⟩
      · obtain ⟨first, rest, hfirst, -, -⟩ := id hcarry
        have hlead := (hfirst ▸ hcarry).lead_continuation
        rw [htail first (by rw [hfirst]; simp)] at hlead
        cases hlead
      · refine hwhole _ ⟨before, ?_⟩ hstart
        rw [h.split, hnil, List.append_nil, hmiddle]
  · exact hmore held ⟨middle, heq.symm⟩ hheld

/-- The text of messages, one after the other. -/
def Message.text? : Message → Option (List Char)
  | .output _ text => some text
  | .header _ | .resize _ _ => none

def textOf (sent : List Message) : List Char := (sent.filterMap Message.text?).flatten

theorem textOf_append (earlier later : List Message) :
    textOf (earlier ++ later) = textOf earlier ++ textOf later := by
  rw [textOf, filterMap_append, flatten_append, textOf, textOf]

/-- One output: what is sent of it is what comes between characters. -/
theorem Recorder.output_tracks (h : r.Tracks encoded shown) (time : ℚ≥0) (more : List UInt8) :
    ∃ front, (r.output time more).1.Tracks (encoded ++ more) (shown ++ front) ∧
      textOf (r.output time more).2 = fromUtf8Lossy front ∧
      fromUtf8Lossy (shown ++ front) = fromUtf8Lossy shown ++ fromUtf8Lossy front := by
  have hsplit : encoded ++ more = shown ++ (r.carry ++ more) := by
    rw [h.split, List.append_assoc]
  have hstep : ∃ front, r.carry ++ more = front ++ (r.output time more).1.carry ∧
      textOf (r.output time more).2 = fromUtf8Lossy front ∧
      (r.output time more).1.carry = (r.carry ++ more).drop (completeUtf8 (r.carry ++ more)) := by
    by_cases hzero : completeUtf8 (r.carry ++ more) = 0
    · have heq : r.output time more = (⟨r.carry ++ more⟩, []) := if_pos hzero
      rw [heq, hzero]
      exact ⟨[], rfl, rfl, rfl⟩
    · have heq : r.output time more = _ := if_neg hzero
      rw [heq]
      exact ⟨_, (take_append_drop _ _).symm, List.append_nil _, rfl⟩
  obtain ⟨front, hparts, htext, hcarry⟩ := hstep
  generalize (r.output time more).1 = r' at *
  have hkept : Final LooksIncomplete (encoded ++ more) r'.carry := by
    rcases completeUtf8_spec (r.carry ++ more) with ⟨hcomplete, hwhole⟩ | ⟨start, held, heq, hheld, hcut⟩
    · rw [hcomplete, drop_length] at hcarry
      exact Or.inr ⟨hcarry, h.whole hwhole⟩
    · rw [hcut, heq, drop_left] at hcarry
      refine Or.inl ⟨?_, hcarry ▸ hheld⟩
      rw [hsplit, hparts, ← List.append_assoc]
      exact suffix_append _ _
  refine ⟨front, ⟨by rw [hsplit, hparts, List.append_assoc], hkept⟩, htext, ?_⟩
  refine fromUtf8Lossy_append fun before lead rest hbefore hrest => ?_
  rcases h.apart more before lead rest hbefore hrest with hle | hhead
  · exact Or.inl hle
  · refine Or.inr fun b hb => hhead b ?_
    rw [hparts, List.head?_append, hb]
    rfl

/-- The bytes that were tapped. -/
def bytesOf (taps : List Tapped) : List UInt8 :=
  taps.flatMap fun tapped =>
    match tapped with
    | .output _ encoded => encoded
    | .resize _ _ => []

theorem Recorder.run_tracks (h : r.Tracks encoded shown) (taps : List Tapped) :
    ∃ shown', (r.run taps).1.Tracks (encoded ++ bytesOf taps) shown' ∧
      fromUtf8Lossy shown' = fromUtf8Lossy shown ++ textOf (r.run taps).2 := by
  induction taps generalizing encoded shown r with
  | nil =>
    refine ⟨shown, by rwa [bytesOf, flatMap_nil, List.append_nil], ?_⟩
    exact (List.append_nil _).symm
  | cons tapped rest ih =>
    rw [Recorder.run, bytesOf, flatMap_cons, ← bytesOf, ← List.append_assoc]
    cases tapped with
    | output time more =>
      obtain ⟨front, htracks, htext, hlossy⟩ := Recorder.output_tracks h time more
      obtain ⟨shown', htracks', hlossy'⟩ := ih htracks
      refine ⟨shown', htracks', ?_⟩
      rw [hlossy', hlossy, textOf_append, List.append_assoc]
      exact congrArg (_ ++ ·) (congrArg (· ++ _) htext.symm)
    | resize time size =>
      obtain ⟨shown', htracks, hlossy⟩ := ih h
      refine ⟨shown', by rwa [List.append_nil], ?_⟩
      rw [hlossy]
      rfl

theorem Recorder.new_tracks : (⟨[]⟩ : Recorder).Tracks [] [] := by
  refine ⟨rfl, Or.inr ⟨rfl, ?_⟩⟩
  rintro held hsuffix ⟨lead, tail, rfl, -, -⟩
  exact absurd (suffix_nil.mp hsuffix) (cons_ne_nil _ _)

/-- The event a message is read back as. -/
def Message.event? : Message → Option Event
  | .header _ => none
  | .output time text => some (.output (round time) text)
  | .resize time size => some (.resize (round time) size.columns size.lines)

def eventsOf (sent : List Message) : List Event := sent.filterMap Message.event?

/-- The size, if it is a resize. -/
def Event.size? : Event → Option (UInt16 × UInt16)
  | .output _ _ => none
  | .resize _ columns lines => some (columns, lines)

def Tapped.size? : Tapped → Option (UInt16 × UInt16)
  | .output _ _ => none
  | .resize _ size => some (size.columns, size.lines)

theorem round_nonneg (time : ℚ≥0) : 0 ≤ round time := by
  have hfloor : 0 ≤ ⌊(time : ℚ) * 1000000 + 1 / 2⌋ := by
    have htime : (0 : ℚ) ≤ time := time.2
    exact Int.floor_nonneg.mpr (by linarith)
  rw [round]
  exact div_nonneg (by exact_mod_cast hfloor) (by norm_num)

theorem readEvent_json (title term : List Char) (timestamp : UInt64) (line : Nat)
    {message : Message} {event : Event} (h : message.event? = some event) :
    readEvent line (message.json title term timestamp) = .ok (some event) := by
  cases message with
  | header size => cases h
  | output time text =>
    obtain rfl := Option.some.inj h
    exact if_neg (not_lt.mpr (round_nonneg time))
  | resize time size =>
    obtain rfl := Option.some.inj h
    have hsplit : splitOnce 'x' (digits size.columns.toNat ++ 'x' :: digits size.lines.toNat) =
        some (digits size.columns.toNat, digits size.lines.toNat) :=
      splitOnce_append (Target.notMem_digits (by decide) _) _
    have hcolumns := Target.parseNumber_digits (Nat.le_of_lt_succ size.columns.toNat_lt)
    have hlines := Target.parseNumber_digits (Nat.le_of_lt_succ size.lines.toNat_lt)
    refine (if_neg (not_lt.mpr (round_nonneg time))).trans ((if_neg (by decide)).trans ?_)
    refine (if_pos rfl).trans ?_
    rw [hsplit, Option.map_some]
    dsimp only
    rw [hcolumns, hlines]
    dsimp only
    rw [UInt16.ofNat_toNat, UInt16.ofNat_toNat]

variable {codec : JsonText} {title term : List Char} {timestamp : UInt64}

theorem readEvents_written {sent : List Message} (hevent : ∀ m ∈ sent, m.event?.isSome = true)
    (hcodec : ∀ m ∈ sent, codec.Reads (m.json title term timestamp)) (index : Nat) :
    readEvents codec.parse
        ((sent.map fun m => codec.print (m.json title term timestamp)).zipIdx index) =
      .ok (eventsOf sent) := by
  induction sent generalizing index with
  | nil => rfl
  | cons m rest ih =>
    rw [forall_mem_cons] at hevent hcodec
    obtain ⟨event, hsome⟩ := Option.isSome_iff_exists.mp hevent.1
    rw [map_cons, zipIdx_cons, readEvents, hcodec.1.inverse]
    dsimp only
    have heq : eventsOf (m :: rest) = event :: eventsOf rest := filterMap_cons_some hsome
    rw [readEvent_json title term timestamp _ hsome, ih hevent.2 hcodec.2, heq]
    rfl

theorem readSize_eq {header : Json} {key : List Char} {value : UInt16}
    (hfield : header.field key = .int value.toNat) (hpos : 1 ≤ value.toNat) :
    readSize header key = .ok value := by
  have hlt := value.toNat_lt
  have hnat : (Json.int value.toNat).asU64 = some value.toNat := by
    rw [Json.asU64, if_pos ⟨by omega, by omega⟩, Int.toNat_natCast]
  rw [readSize, hfield, hnat]
  dsimp only
  rw [if_pos ⟨hpos, by omega⟩, UInt16.ofNat_toNat]

theorem readHeader_json (size : TermSize) :
    readHeader (Message.json title term timestamp (.header size)) =
      .ok {
        width := size.columns
        height := size.lines
        timestamp := (Json.int timestamp.toNat).asI64
        title := some title } := by
  have hwidth : readSize (Message.json title term timestamp (.header size)) "width".toList =
      .ok size.columns := readSize_eq rfl (le_trans (by decide) size.hcolumns)
  have hheight : readSize (Message.json title term timestamp (.header size)) "height".toList =
      .ok size.lines := readSize_eq rfl size.hlines
  have hversion : ((Message.json title term timestamp (.header size)).field
      "version".toList).asI64 = some 2 := rfl
  rw [readHeader, if_neg (not_not.mpr hversion), hwidth, hheight]
  rfl

theorem read_writeCast (size : TermSize) {sent : List Message}
    (hevent : ∀ m ∈ sent, m.event?.isSome = true)
    (hcodec : ∀ m ∈ .header size :: sent, codec.Reads (m.json title term timestamp)) :
    ∃ cast, read codec.parse (writeCast codec title term timestamp (.header size :: sent)) =
        .ok cast ∧ cast.header.width = size.columns ∧ cast.header.height = size.lines ∧
      cast.header.title = some title ∧ cast.events = settle 0 (eventsOf sent) := by
  have hlines : lines (writeCast codec title term timestamp (.header size :: sent)) =
      (Message.header size :: sent).map fun m => codec.print (m.json title term timestamp) := by
    have hprinted : ∀ line ∈ (Message.header size :: sent).map fun m =>
        codec.print (m.json title term timestamp), ∀ c ∈ line, c ≠ '\n' ∧ c ≠ '\r' := by
      rw [forall_mem_map]
      exact fun m hm => (hcodec m hm).oneLine
    rw [writeCast, ← List.append_nil (List.flatMap _ _),
      lines_flatMap fun line hline hmem => (hprinted line hline _ hmem).1 rfl]
    change _ ++ [] = _
    rw [List.append_nil]
    refine (map_congr_left fun line hline => ?_).trans (map_id _)
    refine if_neg fun hlast => (hprinted line hline '\r' (mem_of_getLast? hlast)).2 rfl
  have hblank : ((Message.header size :: sent).map fun m =>
      codec.print (m.json title term timestamp)).zipIdx.filter
        (fun line => !(trim line.1).isEmpty) = ((Message.header size :: sent).map fun m =>
      codec.print (m.json title term timestamp)).zipIdx := by
    refine List.filter_eq_self.mpr fun line hline => ?_
    obtain ⟨m, hm, heq⟩ := mem_map.mp (fst_mem_of_mem_zipIdx hline)
    rw [← heq]
    simpa using (hcodec m hm).notBlank
  rw [forall_mem_cons] at hcodec
  rw [read, hlines, hblank, map_cons, zipIdx_cons]
  dsimp only
  rw [hcodec.1.inverse]
  dsimp only
  rw [readHeader_json, readEvents_written hevent hcodec.2]
  exact ⟨_, rfl, rfl, rfl, rfl, rfl⟩

/-- The text of events is the lossy decoding of all the bytes but incomplete ones at the end. -/
def KeepsText (incomplete : List UInt8 → Prop) (encoded : List UInt8) (events : List Event) :
    Prop :=
  ∃ shown last, encoded = shown ++ last ∧ Final incomplete encoded last ∧
    (events.filterMap Event.text?).flatten = fromUtf8Lossy shown

/-- A recording against what was tapped, from the moment the recorder was attached. -/
structure Keeps (incomplete : List UInt8 → Prop) (title : List Char) (size : TermSize)
    (taps : List Tapped) (cast : Cast) : Prop where
  width : cast.header.width = size.columns
  height : cast.header.height = size.lines
  title : cast.header.title = some title
  text : KeepsText incomplete (bytesOf taps) cast.events
  resizes : cast.events.filterMap Event.size? = taps.filterMap Tapped.size?
  /-- A resize comes after the text of what was tapped before it, and so before the others. -/
  between : ∀ before time changed after, taps = before ++ .resize time changed :: after →
    ∃ earlier event later, cast.events = earlier ++ event :: later ∧
      event.size? = some (changed.columns, changed.lines) ∧
      KeepsText incomplete (bytesOf before) earlier ∧
      earlier.filterMap Event.size? = before.filterMap Tapped.size?
  inOrder : InOrder 0 cast.events

@[simp] theorem Event.size?_withTime (time : ℚ) (event : Event) :
    (event.withTime time).size? = event.size? := by
  cases event <;> rfl

/-- Settling the times changes nothing else. -/
theorem filterMap_settle {α : Type} {f : Event → Option α}
    (h : ∀ time event, f (event.withTime time) = f event) (last : ℚ) (events : List Event) :
    (settle last events).filterMap f = events.filterMap f := by
  induction events generalizing last with
  | nil => rfl
  | cons event rest ih => rw [settle, filterMap_cons, filterMap_cons, h, ih]

theorem settle_append (last : ℚ) (earlier later : List Event) :
    ∃ next, settle last (earlier ++ later) = settle last earlier ++ settle next later := by
  induction earlier generalizing last with
  | nil => exact ⟨last, rfl⟩
  | cons event rest ih =>
    obtain ⟨next, hnext⟩ := ih (max event.time last)
    exact ⟨next, by rw [cons_append, settle, hnext, settle, cons_append]⟩

theorem eventsOf_append (earlier later : List Message) :
    eventsOf (earlier ++ later) = eventsOf earlier ++ eventsOf later :=
  filterMap_append

theorem text?_eventsOf (sent : List Message) :
    ((eventsOf sent).filterMap Event.text?).flatten = textOf sent := by
  rw [eventsOf, filterMap_filterMap, textOf]
  refine congrArg List.flatten (filterMap_congr fun m _ => ?_)
  cases m <;> rfl

theorem Recorder.run_append (r : Recorder) (before after : List Tapped) :
    (r.run (before ++ after)).2 = (r.run before).2 ++ ((r.run before).1.run after).2 := by
  induction before generalizing r with
  | nil => rfl
  | cons tapped rest ih => rw [cons_append, Recorder.run, ih, Recorder.run, List.append_assoc]

theorem Recorder.tap_events (r : Recorder) (tapped : Tapped) :
    (∀ m ∈ (r.tap tapped).2, m.event?.isSome = true) ∧
      (eventsOf (r.tap tapped).2).filterMap Event.size? = tapped.size?.toList := by
  cases tapped with
  | output time encoded =>
    rw [Recorder.tap, Recorder.output]
    split
    · exact ⟨by simp, rfl⟩
    · exact ⟨by simp [Message.event?], rfl⟩
  | resize time size => exact ⟨by simp [Recorder.tap, Message.event?], rfl⟩

theorem Recorder.run_events (r : Recorder) (taps : List Tapped) :
    (∀ m ∈ (r.run taps).2, m.event?.isSome = true) ∧
      (eventsOf (r.run taps).2).filterMap Event.size? = taps.filterMap Tapped.size? := by
  induction taps generalizing r with
  | nil => exact ⟨by simp [Recorder.run], rfl⟩
  | cons tapped rest ih =>
    obtain ⟨hsome, hsize⟩ := r.tap_events tapped
    obtain ⟨hsomeRest, hsizeRest⟩ := ih (r.tap tapped).1
    rw [Recorder.run]
    refine ⟨forall_mem_append.mpr ⟨hsome, hsomeRest⟩, ?_⟩
    rw [eventsOf_append, filterMap_append, hsize, hsizeRest, filterMap_cons]
    cases tapped.size? <;> rfl

theorem keepsText_run (taps : List Tapped) (last : ℚ) :
    KeepsText LooksIncomplete (bytesOf taps)
      (settle last (eventsOf ((⟨[]⟩ : Recorder).run taps).2)) := by
  obtain ⟨shown, htracks, htext⟩ := Recorder.run_tracks Recorder.new_tracks taps
  rw [List.nil_append] at htracks
  refine ⟨shown, _, htracks.split, htracks.final, ?_⟩
  rw [filterMap_settle (fun time event => event.text?_withTime time), text?_eventsOf, htext]
  rfl

/-- A recording that is read back keeps what was shown, but for bytes at the end that begin like
a character and aren't as many as its first byte asks for. -/
theorem recording_keeps (size : TermSize) (taps : List Tapped)
    (hcodec : ∀ m ∈ messages size taps, codec.Reads (m.json title term timestamp)) :
    ∃ cast, read codec.parse (writeCast codec title term timestamp (messages size taps)) =
      .ok cast ∧ Keeps LooksIncomplete title size taps cast := by
  obtain ⟨hevent, hsizes⟩ := Recorder.run_events ⟨[]⟩ taps
  obtain ⟨cast, hread, hwidth, hheight, htitle, hevents⟩ := read_writeCast size hevent hcodec
  refine ⟨cast, hread, hwidth, hheight, htitle, ?_, ?_, ?_, cast.inOrder⟩
  · rw [hevents]
    exact keepsText_run taps 0
  · rw [hevents, filterMap_settle fun time event => event.size?_withTime time, hsizes]
  · rintro before time changed after rfl
    rw [Recorder.run_append, eventsOf_append] at hevents
    obtain ⟨next, hsettle⟩ := settle_append 0 (eventsOf ((⟨[]⟩ : Recorder).run before).2)
      (eventsOf (((⟨[]⟩ : Recorder).run before).1.run (.resize time changed :: after)).2)
    refine ⟨_, _, _, hevents.trans hsettle, rfl, keepsText_run before 0, ?_⟩
    rw [filterMap_settle fun time event => event.size?_withTime time]
    exact (Recorder.run_events ⟨[]⟩ before).2

namespace RecorderWitness

def screen : TermSize := ⟨80, 24, by decide, by decide⟩

def headerLine : List Char :=
  ("\x7b\"env\":\x7b\"TERM\":\"xterm\"\x7d,\"height\":24,\"timestamp\":0," ++
    "\"title\":\"web-01\",\"version\":2,\"width\":80\x7d").toList

def outputLine : List Char := "[0.0,\"o\",\"h\"]".toList

def resizeLine : List Char := "[1.0,\"r\",\"100x30\"]".toList

def laterLine : List Char := "[2.0,\"o\",\"é!\"]".toList

def wide : TermSize := ⟨100, 30, by decide, by decide⟩

/-- A chunk that ends inside a character, a resize, and the rest of the character. -/
def taps : List Tapped := [.output 0 [0x68, 0xC3], .resize 1 wide, .output 2 [0xA9, 0x21]]

def json : Message → Json := Message.json "web-01".toList "xterm".toList 0

/-- The lines of the recordings below. -/
def sampleJson : JsonText where
  print
    | .object _ => headerLine
    | .array [_, _, .text text] =>
      if text = ['h'] then outputLine else if text = "100x30".toList then resizeLine else laterLine
    | _ => "null".toList
  parse line :=
    if line = headerLine then .ok (json (.header screen))
    else if line = outputLine then .ok (json (.output 0 ['h']))
    else if line = resizeLine then .ok (json (.resize 1 wide))
    else if line = laterLine then .ok (json (.output 2 ['é', '!']))
    else .error "expected value at line 1 column 1".toList

theorem reads_line {line : List Char} {value : Json} (hprint : sampleJson.print value = line)
    (hparse : sampleJson.parse line = .ok value)
    (hline : line.all (fun c => c ≠ '\n' ∧ c ≠ '\r') = true ∧ trim line ≠ []) :
    sampleJson.Reads value where
  inverse := hprint ▸ hparse
  oneLine := by simpa [hprint] using hline.1
  notBlank := hprint ▸ hline.2

theorem header_reads : sampleJson.Reads (json (.header screen)) := reads_line rfl rfl (by decide)

theorem taps_messages : messages screen taps =
    [.header screen, .output 0 ['h'], .resize 1 wide, .output 2 ['é', '!']] := rfl

/-- The first byte of the accented letter waits for the second one, across the resize. -/
theorem recording_keeps_greeting : ∃ cast,
    read sampleJson.parse (writeCast sampleJson "web-01".toList "xterm".toList 0
      (messages screen taps)) = .ok cast ∧
    Keeps LooksIncomplete "web-01".toList screen taps cast := by
  refine recording_keeps screen _ ?_
  rw [taps_messages]
  simp only [List.forall_mem_cons]
  exact ⟨header_reads, reads_line rfl rfl (by decide), reads_line rfl rfl (by decide),
    reads_line rfl rfl (by decide), List.forall_mem_nil _⟩

/-- Bytes that begin a character and aren't all of it. -/
def Incomplete (held : List UInt8) : Prop :=
  held ≠ [] ∧ ∃ c : Char, held <+: String.utf8EncodeChar c ∧ held.length < c.utf8Size

theorem head_utf8EncodeChar (c : Char) : (String.utf8EncodeChar c).head? ≠ some 0xC0 := by
  intro h
  have hlt : c.val.toNat < 1114112 := by
    rcases c.valid with h | h <;> omega
  have hbyte : ∀ n, UInt8.ofNat n = 0xC0 → n % 256 = 192 := fun n hn => by
    have hvalue := congrArg UInt8.toNat hn
    rwa [UInt8.toNat_ofNat'] at hvalue
  unfold String.utf8EncodeChar at h
  dsimp only at h
  split at h
  · have hvalue := hbyte _ (Option.some.inj h)
    omega
  split at h
  · have hvalue := hbyte _ (Option.some.inj h)
    omega
  split at h
  · have hvalue := hbyte _ (Option.some.inj h)
    omega
  · have hvalue := hbyte _ (Option.some.inj h)
    omega

/-- A byte that no character begins with is no incomplete character, but isn't kept either when
it is the last one. -/
theorem invalid_last_byte_lost : ¬ ∃ cast,
    read sampleJson.parse (writeCast sampleJson "web-01".toList "xterm".toList 0
      (messages screen [.output 0 [0xC0]])) = .ok cast ∧
    Keeps Incomplete "web-01".toList screen [.output 0 [0xC0]] cast := by
  rintro ⟨cast, hread, hkeeps⟩
  have hmessages : messages screen [.output 0 [0xC0]] = [.header screen] := rfl
  obtain ⟨found, hfound, -, -, -, hevents⟩ := @read_writeCast sampleJson "web-01".toList
    "xterm".toList 0 screen [] (by simp) (List.forall_mem_singleton.mpr header_reads)
  rw [hmessages, hfound] at hread
  obtain rfl := Except.ok.inj hread
  obtain ⟨shown, last, hsplit, hfinal, htext⟩ := hkeeps.text
  rw [hevents] at htext
  rcases hfinal with ⟨hsuffix, hne, c, hbegins, -⟩ | ⟨rfl, -⟩
  · have hlast : last = [0xC0] := by
      rcases List.suffix_cons_iff.mp hsuffix with heq | hnil
      · exact heq
      · exact absurd (List.suffix_nil.mp hnil) hne
    obtain ⟨rest, hrest⟩ := hbegins
    refine head_utf8EncodeChar c ?_
    rw [← hrest, hlast]
    rfl
  · rw [List.append_nil] at hsplit
    rw [← hsplit] at htext
    exact absurd htext (by decide)

end RecorderWitness

end Opensesh.Recording
