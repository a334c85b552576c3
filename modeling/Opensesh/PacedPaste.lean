/-
Paced pastes: callers set a flag and queue chunks, the engine sends them one at a time and
clears the flag when it runs out.  What is written, how far apart, and when the flag is true.
-/
import Opensesh.Machine
import Mathlib.Data.List.Nodup
import Mathlib.Data.List.Flatten

namespace Opensesh.PacedPaste

open List

/-- A chunk of a paste, with the paste's number and its delay. -/
structure Chunk where
  paste : Nat
  index : Nat
  delay : Nat
  bytes : List UInt8
deriving DecidableEq

/-- The arguments of a `write_paced`, without empty chunks. -/
structure Call where
  chunks : List (List UInt8)
  delay : Nat

/-- What was sent, as the `number`th paste. -/
structure Paste where
  number : Nat
  call : Call

def Paste.chunks (paste : Paste) : List Chunk :=
  paste.call.chunks.zipIdx.map fun (bytes, index) => ⟨paste.number, index, paste.call.delay, bytes⟩

inductive Command where
  | paced (paste : Paste)
  | cancelPaste

def Command.pastes : List Command → List Paste :=
  List.filterMap fun
    | .paced paste => some paste
    | .cancelPaste => none

structure State where
  now : Nat
  pasting : Bool
  /-- Calls that set the flag and are still to send their command. -/
  calls : List Call
  commands : List Command
  /-- The engine's chunks, their delay, and when the next one goes. -/
  paste : List Chunk
  pasteDelay : Nat
  pasteNext : Option Nat
  /-- Stores to the flag that `end_paste` is still to make. -/
  ending : Nat
  /-- How many pastes were sent. -/
  sends : Nat
  /-- The chunks that were queued, in the order they were sent. -/
  queued : List Chunk
  /-- The chunks a `cancel_paste` dropped. -/
  cancelled : List Chunk
  /-- The chunks that were written, and when. -/
  written : List (Chunk × Nat)

def State.initial : State where
  now := 0
  pasting := false
  calls := []
  commands := []
  paste := []
  pasteDelay := 0
  pasteNext := none
  ending := 0
  sends := 0
  queued := []
  cancelled := []
  written := []

inductive Event where
  /-- Time passes. -/
  | wait (time : Nat)
  /-- A `write_paced` sets the flag. -/
  | store (chunks : List (List UInt8)) (delay : Nat)
  /-- One of the calls sends its command and returns. -/
  | send (index : Nat)
  | cancel
  /-- The engine handles a command. -/
  | receive
  | timers
  /-- The engine's `end_paste` clears the flag. -/
  | clear

namespace State

/-- `end_paste`, but for its store to the flag. -/
def endPaste (s : State) : State :=
  { s with
    paste := [], pasteNext := none, ending := s.ending + 1
    cancelled := s.cancelled ++ s.paste }

def writeChunk (s : State) (chunk : Chunk) (rest : List Chunk) : State :=
  { s with
    paste := rest, pasteNext := some (s.now + s.pasteDelay)
    written := s.written ++ [(chunk, s.now)] }

/-- The part of `timers` that is about pastes. -/
def runTimers (s : State) : State :=
  if s.pasteNext.any (· ≤ s.now) then
    match s.paste with
    | chunk :: rest =>
      let sent := s.writeChunk chunk rest
      if rest = [] then sent.endPaste else sent
    | [] => s.endPaste.endPaste
  else s

/-- `Engine::command`. -/
def handle (s : State) : Command → State
  | .paced paste =>
    let extended := { s with
      paste := s.paste ++ paste.chunks, pasteDelay := paste.call.delay }
    if s.pasteNext.isNone then { extended with pasteNext := some s.now }.runTimers
    else extended
  | .cancelPaste => s.endPaste

def step (s : State) : Event → Option State
  | .wait time => some { s with now := s.now + time }
  | .store chunks delay =>
    let chunks := chunks.filter (· ≠ [])
    some (if chunks = [] then s
      else { s with pasting := true, calls := s.calls ++ [⟨chunks, delay⟩] })
  | .send index =>
    (s.calls[index]?).map fun call =>
      let paste : Paste := ⟨s.sends, call⟩
      { s with
        calls := s.calls.eraseIdx index, commands := s.commands ++ [.paced paste]
        sends := s.sends + 1, queued := s.queued ++ paste.chunks }
  | .cancel => some { s with commands := s.commands ++ [.cancelPaste] }
  | .receive =>
    match s.commands, s.ending with
    | command :: rest, 0 => some ({ s with commands := rest }.handle command)
    | _, _ => none
  | .timers => if s.ending = 0 then some s.runTimers else none
  | .clear =>
    if 0 < s.ending then some { s with pasting := false, ending := s.ending - 1 } else none

/-- The chunks on their way to the engine. -/
def onTheWay (s : State) : List Chunk := (Command.pastes s.commands).flatMap Paste.chunks

/-- The chunks still to be written, the next one first. -/
def waiting (s : State) : List Chunk := s.paste ++ s.onTheWay

end State

theorem Paste.mem_chunks {paste : Paste} {chunk : Chunk} (h : chunk ∈ paste.chunks) :
    chunk.paste = paste.number ∧ chunk.delay = paste.call.delay := by
  obtain ⟨⟨bytes, index⟩, -, rfl⟩ := mem_map.mp h
  exact ⟨rfl, rfl⟩

theorem Paste.chunks_nodup (paste : Paste) : paste.chunks.Nodup := by
  have hindexes : paste.chunks.map Chunk.index = List.range' 0 paste.call.chunks.length := by
    rw [Paste.chunks, map_map, ← zipIdx_map_snd]
    rfl
  exact List.Nodup.of_map Chunk.index (by rw [hindexes]; exact nodup_range')

@[simp] theorem pastes_paced (paste : Paste) (rest : List Command) :
    Command.pastes (.paced paste :: rest) = paste :: Command.pastes rest := rfl

@[simp] theorem pastes_cancel (rest : List Command) :
    Command.pastes (.cancelPaste :: rest) = Command.pastes rest := rfl

theorem pastes_append (first second : List Command) :
    Command.pastes (first ++ second) = Command.pastes first ++ Command.pastes second :=
  filterMap_append

theorem pastes_cancelled (commands : List Command) :
    Command.pastes (commands ++ [.cancelPaste]) = Command.pastes commands := by
  rw [pastes_append]
  exact List.append_nil _

namespace State

/-- What every run keeps of the chunks and the commands. -/
structure Kept (s : State) : Prop where
  order : s.queued.filter (· ∉ s.cancelled) = s.written.map Prod.fst ++ s.waiting
  nodup : s.queued.Nodup
  subset : ∀ chunk ∈ s.cancelled, chunk ∈ s.queued
  known : ∀ chunk ∈ s.queued, chunk.paste < s.sends
  /-- Pastes on the way come after those the engine has seen. -/
  later : ∀ chunk ∈ s.written.map Prod.fst ++ s.paste, ∀ paste ∈ Command.pastes s.commands,
    chunk.paste < paste.number
  ascending : ((Command.pastes s.commands).map Paste.number).Pairwise (· < ·)
  sent : ∀ paste ∈ Command.pastes s.commands, paste.number < s.sends

/-- The engine has a time for the next chunk while it has chunks, and has none when it clears
the flag. -/
structure Armed (s : State) : Prop where
  next : s.paste = [] ↔ s.pasteNext = none
  ended : 0 < s.ending → s.paste = []
  calls : ∀ call ∈ s.calls, call.chunks ≠ []
  pastes : ∀ paste ∈ Command.pastes s.commands, paste.call.chunks ≠ []

theorem initial_kept : Kept initial where
  order := rfl
  nodup := nodup_nil
  subset := by simp [initial]
  known := by simp [initial]
  later := by simp [initial]
  ascending := .nil
  sent := by simp [initial, Command.pastes]

theorem initial_armed : Armed initial where
  next := by simp [initial]
  ended h := absurd h (Nat.lt_irrefl 0)
  calls := by simp [initial]
  pastes := by simp [initial, Command.pastes]

variable {s t : State}

theorem Kept.mem_queued (hkept : Kept s) {chunk : Chunk}
    (h : chunk ∈ s.written.map Prod.fst ++ s.waiting) : chunk ∈ s.queued := by
  rw [← hkept.order] at h
  exact (mem_filter.mp h).1

/-- What is dropped is taken out of the middle. -/
theorem kept_endPaste (hkept : Kept s) : Kept s.endPaste := by
  have hnodup : (s.written.map Prod.fst ++ (s.paste ++ s.onTheWay)).Nodup := by
    have h := hkept.nodup.filter (· ∉ s.cancelled)
    rwa [hkept.order] at h
  obtain ⟨-, hrest, hdisjoint⟩ := nodup_append'.mp hnodup
  have hwritten : ∀ chunk ∈ s.written.map Prod.fst, chunk ∉ s.paste := fun chunk hchunk hmem =>
    hdisjoint hchunk (mem_append_left _ hmem)
  have hway : ∀ chunk ∈ s.onTheWay, chunk ∉ s.paste := fun chunk hchunk hmem =>
    (nodup_append'.mp hrest).2.2 hmem hchunk
  refine ⟨?_, hkept.nodup, fun chunk hchunk => ?_, hkept.known, fun chunk hchunk => ?_,
    hkept.ascending, hkept.sent⟩
  · change s.queued.filter (· ∉ s.cancelled ++ s.paste) =
      s.written.map Prod.fst ++ ([] ++ s.onTheWay)
    have hboth : s.queued.filter (· ∉ s.cancelled ++ s.paste) =
        (s.queued.filter (· ∉ s.cancelled)).filter (· ∉ s.paste) := by
      rw [filter_filter]
      exact filter_congr fun chunk _ => by simp [mem_append, not_or, and_comm]
    rw [hboth, hkept.order, waiting, filter_append, filter_append,
      List.filter_eq_self.mpr (by simpa using hwritten),
      filter_eq_nil_iff.mpr (fun chunk hchunk => by simpa using hchunk),
      List.filter_eq_self.mpr (by simpa using hway)]
  · rcases mem_append.mp hchunk with hold | hpaste
    · exact hkept.subset chunk hold
    · exact hkept.mem_queued (mem_append_right _ (mem_append_left _ hpaste))
  · rw [endPaste, List.append_nil] at hchunk
    exact hkept.later chunk (mem_append_left _ hchunk)

theorem kept_writeChunk (hkept : Kept s) {chunk : Chunk} {rest : List Chunk}
    (hpaste : s.paste = chunk :: rest) : Kept (s.writeChunk chunk rest) := by
  have hsame : (s.writeChunk chunk rest).written.map Prod.fst ++
      (s.writeChunk chunk rest).paste = s.written.map Prod.fst ++ s.paste := by
    simp [writeChunk, hpaste]
  refine ⟨?_, hkept.nodup, hkept.subset, hkept.known, ?_, hkept.ascending, hkept.sent⟩
  · rw [waiting, ← List.append_assoc, hsame, List.append_assoc]
    exact hkept.order
  · rw [hsame]
    exact hkept.later

theorem runTimers_cases (harmed : Armed s) : s.runTimers = s ∨
    ∃ chunk rest time, s.paste = chunk :: rest ∧ s.pasteNext = some time ∧ time ≤ s.now ∧
      (rest ≠ [] ∧ s.runTimers = s.writeChunk chunk rest ∨
        rest = [] ∧ s.runTimers = (s.writeChunk chunk rest).endPaste) := by
  rw [runTimers]
  split
  case isFalse => exact .inl rfl
  case isTrue hdue =>
    obtain ⟨time, htime, hle⟩ := (Option.any_eq_true _ _).mp hdue
    refine .inr ?_
    cases hpaste : s.paste with
    | nil =>
      rw [harmed.next.mp hpaste] at htime
      cases htime
    | cons chunk rest =>
      refine ⟨chunk, rest, time, rfl, htime, by simpa using hle, ?_⟩
      by_cases hrest : rest = []
      · exact .inr ⟨hrest, if_pos hrest⟩
      · exact .inl ⟨hrest, if_neg hrest⟩

theorem kept_runTimers (hkept : Kept s) (harmed : Armed s) : Kept s.runTimers := by
  rcases runTimers_cases harmed with h | ⟨chunk, rest, time, hpaste, -, -, ⟨-, h⟩ | ⟨-, h⟩⟩ <;>
    rw [h]
  · exact hkept
  · exact kept_writeChunk hkept hpaste
  · exact kept_endPaste (kept_writeChunk hkept hpaste)

theorem armed_endPaste (harmed : Armed s) : Armed s.endPaste :=
  ⟨⟨fun _ => rfl, fun _ => rfl⟩, fun _ => rfl, harmed.calls, harmed.pastes⟩

theorem armed_runTimers (harmed : Armed s) : Armed s.runTimers := by
  rcases runTimers_cases harmed with h | ⟨chunk, rest, time, hpaste, -, -, ⟨hrest, h⟩ | ⟨-, h⟩⟩ <;>
    rw [h]
  · exact harmed
  · refine ⟨⟨fun hnil => absurd hnil hrest, fun hnone => nomatch hnone⟩, fun hended => ?_,
      harmed.calls, harmed.pastes⟩
    have hnil := harmed.ended hended
    rw [hpaste] at hnil
    cases hnil
  · exact ⟨⟨fun _ => rfl, fun _ => rfl⟩, fun _ => rfl, harmed.calls, harmed.pastes⟩

/-- The engine's fields once it took in a paste, before its timers run. -/
def extend (s : State) (paste : Paste) : State :=
  { s with
    paste := s.paste ++ paste.chunks, pasteDelay := paste.call.delay
    pasteNext := some (s.pasteNext.getD s.now) }

theorem handle_paced (s : State) (paste : Paste) : s.handle (.paced paste) =
    if s.pasteNext = none then (s.extend paste).runTimers else s.extend paste := by
  rw [handle, extend]
  cases hnext : s.pasteNext <;> rfl

theorem onTheWay_paced {paste : Paste} {rest : List Command}
    (hcommands : s.commands = .paced paste :: rest) :
    s.onTheWay = paste.chunks ++ { s with commands := rest }.onTheWay := by
  rw [onTheWay, hcommands, pastes_paced, flatMap_cons]
  rfl

theorem kept_extend (hkept : Kept s) {paste : Paste} {rest : List Command}
    (hcommands : s.commands = .paced paste :: rest) :
    Kept ({ s with commands := rest }.extend paste) := by
  have hpastes : Command.pastes s.commands = paste :: Command.pastes rest := by
    rw [hcommands, pastes_paced]
  have hfirst := hkept.later
  have hascending := hkept.ascending
  have hsent := hkept.sent
  rw [hpastes] at hfirst hascending hsent
  rw [map_cons, pairwise_cons] at hascending
  refine ⟨?_, hkept.nodup, hkept.subset, hkept.known, fun chunk hchunk other hother => ?_,
    hascending.2, fun other hother => hsent other (mem_cons_of_mem _ hother)⟩
  · have horder := hkept.order
    rw [waiting, onTheWay_paced hcommands, ← List.append_assoc s.paste] at horder
    exact horder
  · change chunk ∈ s.written.map Prod.fst ++ (s.paste ++ paste.chunks) at hchunk
    rw [← List.append_assoc, mem_append] at hchunk
    rcases hchunk with hchunk | hchunk
    · exact hfirst chunk hchunk other (mem_cons_of_mem _ hother)
    · rw [(Paste.mem_chunks hchunk).1]
      exact hascending.1 other.number (mem_map_of_mem hother)

theorem kept_commands (hkept : Kept s) {rest : List Command}
    (hrest : Command.pastes rest = Command.pastes s.commands) :
    Kept { s with commands := rest } := by
  refine ⟨?_, hkept.nodup, hkept.subset, hkept.known, ?_, ?_, ?_⟩
  · have horder := hkept.order
    rw [waiting, onTheWay, ← hrest] at horder
    exact horder
  · simpa only [hrest] using hkept.later
  · simpa only [hrest] using hkept.ascending
  · simpa only [hrest] using hkept.sent

theorem Paste.chunks_ne {paste : Paste} (h : paste.call.chunks ≠ []) : paste.chunks ≠ [] := by
  rw [Paste.chunks, ne_eq, map_eq_nil_iff, zipIdx_eq_nil_iff]
  exact h

theorem armed_extend (harmed : Armed s) {paste : Paste} {rest : List Command}
    (hending : s.ending = 0) (hcommands : s.commands = .paced paste :: rest) :
    Armed ({ s with commands := rest }.extend paste) := by
  have hpastes := harmed.pastes
  rw [hcommands, pastes_paced, forall_mem_cons] at hpastes
  refine ⟨⟨fun hnil => ?_, fun hnone => nomatch hnone⟩, fun hended => ?_, harmed.calls, hpastes.2⟩
  · exact absurd (append_eq_nil_iff.mp hnil).2 (Paste.chunks_ne hpastes.1)
  · rw [extend, hending] at hended
    exact absurd hended (Nat.lt_irrefl 0)

theorem kept_receive (hkept : Kept s) (harmed : Armed s) {command : Command}
    {rest : List Command} (hcommands : s.commands = command :: rest) (hending : s.ending = 0) :
    Kept ({ s with commands := rest }.handle command) ∧
      Armed ({ s with commands := rest }.handle command) := by
  cases command with
  | cancelPaste =>
    have hrest : Command.pastes rest = Command.pastes s.commands := by
      rw [hcommands, pastes_cancel]
    refine ⟨kept_endPaste (kept_commands hkept hrest), armed_endPaste ⟨harmed.next, harmed.ended,
      harmed.calls, ?_⟩⟩
    simpa only [hrest] using harmed.pastes
  | paced paste =>
    have hextend := kept_extend hkept hcommands
    have harmed' := armed_extend harmed hending hcommands
    rw [handle_paced]
    split
    · exact ⟨kept_runTimers hextend harmed', armed_runTimers harmed'⟩
    · exact ⟨hextend, harmed'⟩

theorem kept_send (hkept : Kept s) (call : Call) (calls : List Call) :
    Kept { s with
      calls, commands := s.commands ++ [.paced ⟨s.sends, call⟩], sends := s.sends + 1
      queued := s.queued ++ Paste.chunks ⟨s.sends, call⟩ } := by
  have hfresh : ∀ chunk ∈ Paste.chunks ⟨s.sends, call⟩, chunk ∉ s.queued := fun chunk hchunk hmem =>
    absurd (hkept.known chunk hmem) (by rw [(Paste.mem_chunks hchunk).1]; exact Nat.lt_irrefl _)
  have hpastes : Command.pastes (s.commands ++ [.paced ⟨s.sends, call⟩]) =
      Command.pastes s.commands ++ [⟨s.sends, call⟩] := pastes_append _ _
  refine ⟨?_, ?_, fun chunk hchunk => mem_append_left _ (hkept.subset chunk hchunk),
    fun chunk hchunk => ?_, fun chunk hchunk => ?_, ?_, ?_⟩
  · have hway : (Command.pastes (s.commands ++ [.paced ⟨s.sends, call⟩])).flatMap Paste.chunks =
        s.onTheWay ++ Paste.chunks ⟨s.sends, call⟩ := by
      rw [hpastes, flatMap_append, flatMap_singleton, onTheWay]
    change (s.queued ++ Paste.chunks ⟨s.sends, call⟩).filter (· ∉ s.cancelled) =
      s.written.map Prod.fst ++ (s.paste ++ (Command.pastes
        (s.commands ++ [.paced ⟨s.sends, call⟩])).flatMap Paste.chunks)
    rw [hway, filter_append, hkept.order, waiting, List.append_assoc, List.append_assoc,
      List.filter_eq_self.mpr]
    intro chunk hchunk
    have hnot : chunk ∉ s.cancelled := fun hmem => hfresh chunk hchunk (hkept.subset chunk hmem)
    simpa using hnot
  · exact nodup_append'.mpr ⟨hkept.nodup, Paste.chunks_nodup _,
      fun chunk hmem hchunk => hfresh chunk hchunk hmem⟩
  · rcases mem_append.mp hchunk with hmem | hmem
    · exact Nat.lt_succ_of_lt (hkept.known chunk hmem)
    · rw [(Paste.mem_chunks hmem).1]
      exact Nat.lt_succ_self _
  · have hknown : chunk.paste < s.sends := by
      refine hkept.known chunk (hkept.mem_queued ?_)
      rw [waiting, ← List.append_assoc]
      exact mem_append_left _ hchunk
    rw [hpastes, forall_mem_append, forall_mem_singleton]
    exact ⟨hkept.later chunk hchunk, hknown⟩
  · rw [hpastes, map_append, pairwise_append]
    refine ⟨hkept.ascending, pairwise_singleton _ _, fun number hnumber other hother => ?_⟩
    obtain ⟨paste, hpaste, rfl⟩ := mem_map.mp hnumber
    obtain rfl := mem_singleton.mp hother
    exact hkept.sent paste hpaste
  · rw [hpastes, forall_mem_append, forall_mem_singleton]
    exact ⟨fun paste hpaste => Nat.lt_succ_of_lt (hkept.sent paste hpaste), Nat.lt_succ_self _⟩

theorem kept_step (hkept : Kept s) (harmed : Armed s) {event : Event}
    (hstep : s.step event = some t) : Kept t ∧ Armed t := by
  cases event with
  | wait time =>
    obtain rfl := Option.some.inj hstep
    exact ⟨⟨hkept.order, hkept.nodup, hkept.subset, hkept.known, hkept.later, hkept.ascending,
      hkept.sent⟩, ⟨harmed.next, harmed.ended, harmed.calls, harmed.pastes⟩⟩
  | store chunks delay =>
    obtain rfl := Option.some.inj hstep
    split
    · exact ⟨hkept, harmed⟩
    · rename_i hne
      refine ⟨⟨hkept.order, hkept.nodup, hkept.subset, hkept.known, hkept.later, hkept.ascending,
        hkept.sent⟩, ⟨harmed.next, harmed.ended, ?_, harmed.pastes⟩⟩
      rw [forall_mem_append, forall_mem_singleton]
      exact ⟨harmed.calls, hne⟩
  | send index =>
    obtain ⟨call, hcall, rfl⟩ := Option.map_eq_some_iff.mp hstep
    refine ⟨kept_send hkept call _, ⟨harmed.next, harmed.ended,
      fun other hother => harmed.calls other (mem_of_mem_eraseIdx hother), ?_⟩⟩
    rw [pastes_append, forall_mem_append]
    refine ⟨harmed.pastes, ?_⟩
    rw [pastes_paced, forall_mem_cons]
    exact ⟨harmed.calls call (mem_of_getElem? hcall), fun _ h => nomatch h⟩
  | cancel =>
    obtain rfl := Option.some.inj hstep
    refine ⟨kept_commands hkept (pastes_cancelled s.commands),
      ⟨harmed.next, harmed.ended, harmed.calls, ?_⟩⟩
    simpa only [pastes_cancelled] using harmed.pastes
  | receive =>
    rw [step] at hstep
    split at hstep
    · rename_i command rest hcommands hending
      obtain rfl := Option.some.inj hstep
      exact kept_receive hkept harmed hcommands hending
    · cases hstep
  | timers =>
    obtain ⟨-, rfl⟩ := by simpa [step] using hstep
    exact ⟨kept_runTimers hkept harmed, armed_runTimers harmed⟩
  | clear =>
    obtain ⟨-, rfl⟩ := by simpa [step] using hstep
    refine ⟨⟨hkept.order, hkept.nodup, hkept.subset, hkept.known, hkept.later, hkept.ascending,
      hkept.sent⟩, ?_⟩
    exact ⟨harmed.next, fun (h : 0 < s.ending - 1) =>
        harmed.ended (Nat.lt_of_lt_of_le h (Nat.sub_le _ _)), harmed.calls, harmed.pastes⟩

end State

/-- Two chunks of one paste, a delay apart. -/
def Apart (x y : Chunk × Nat) : Prop := x.1.paste = y.1.paste → x.2 + x.1.delay ≤ y.2

instance : DecidableRel Apart := fun _ _ => inferInstanceAs (Decidable (_ → _))

/-- A chunk that is followed by one of its paste has a delay of at most `delay`. -/
def Slow (delay : Nat) (chunks : List Chunk) : Prop :=
  chunks.Pairwise fun x y => x.paste = y.paste → x.delay ≤ delay

/-- The flag is cleared with no paste on its way, and a paste is taken in with a delay that is
at least that of every paste with two chunks left. -/
def Good (s : State) : Event → Prop
  | .clear => s.calls = [] ∧ Command.pastes s.commands = []
  | .receive => ∀ paste rest, s.commands = .paced paste :: rest → Slow paste.call.delay s.paste
  | _ => True

namespace State

structure Timely (s : State) : Prop where
  apart : s.written.Pairwise Apart
  due : ∀ x ∈ s.written, ∀ y ∈ s.paste, x.1.paste = y.paste → ∀ time, s.pasteNext = some time →
    x.2 + x.1.delay ≤ time
  room : Slow s.pasteDelay s.paste

/-- The flag is set while a paste is on its way or has chunks left. -/
def Told (s : State) : Prop :=
  s.calls ≠ [] ∨ Command.pastes s.commands ≠ [] ∨ s.paste ≠ [] → s.pasting = true

variable {s t : State}

theorem timely_endPaste (htimely : Timely s) : Timely s.endPaste :=
  ⟨htimely.apart, fun _ _ _ hmem => absurd hmem not_mem_nil, .nil⟩

theorem timely_writeChunk (htimely : Timely s) {chunk : Chunk} {rest : List Chunk} {time : Nat}
    (hpaste : s.paste = chunk :: rest) (hnext : s.pasteNext = some time) (hdue : time ≤ s.now) :
    Timely (s.writeChunk chunk rest) := by
  have hroom := htimely.room
  rw [hpaste, Slow, pairwise_cons] at hroom
  have hbefore : ∀ x ∈ s.written, ∀ y ∈ s.paste, x.1.paste = y.paste → x.2 + x.1.delay ≤ s.now :=
    fun x hx y hy hsame => Nat.le_trans (htimely.due x hx y hy hsame time hnext) hdue
  refine ⟨?_, fun x hx y hy hsame time' htime => ?_, hroom.2⟩
  · refine pairwise_append.mpr ⟨htimely.apart, pairwise_singleton _ _, ?_⟩
    intro x hx y hy hsame
    obtain rfl := mem_singleton.mp hy
    exact hbefore x hx chunk (by rw [hpaste]; exact mem_cons_self) hsame
  · obtain rfl := Option.some.inj htime
    rcases mem_append.mp hx with hold | hnew
    · have hle := hbefore x hold y (by rw [hpaste]; exact mem_cons_of_mem _ hy) hsame
      exact Nat.le_trans hle (Nat.le_add_right _ _)
    · obtain rfl := mem_singleton.mp hnew
      exact Nat.add_le_add_left (hroom.1 y hy hsame) _

theorem timely_runTimers (htimely : Timely s) (harmed : Armed s) : Timely s.runTimers := by
  rcases runTimers_cases harmed with
    h | ⟨chunk, rest, time, hpaste, hnext, hdue, ⟨-, h⟩ | ⟨-, h⟩⟩ <;> rw [h]
  · exact htimely
  · exact timely_writeChunk htimely hpaste hnext hdue
  · exact timely_endPaste (timely_writeChunk htimely hpaste hnext hdue)

theorem timely_extend (htimely : Timely s) (hkept : Kept s) (harmed : Armed s) {paste : Paste}
    {rest : List Command} (hcommands : s.commands = .paced paste :: rest)
    (hslow : Slow paste.call.delay s.paste) :
    Timely ({ s with commands := rest }.extend paste) := by
  -- The new paste is none of those the engine has seen.
  have hfresh : ∀ x ∈ s.written.map Prod.fst ++ s.paste, ∀ y ∈ paste.chunks, x.paste ≠ y.paste := by
    intro x hx y hy
    rw [(Paste.mem_chunks hy).1]
    refine Nat.ne_of_lt (hkept.later x hx paste ?_)
    rw [hcommands, pastes_paced]
    exact mem_cons_self
  refine ⟨htimely.apart, fun x hx y hy hsame time htime => ?_, ?_⟩
  · rcases mem_append.mp hy with hold | hnew
    · cases hnext : s.pasteNext with
      | none =>
        rw [harmed.next.mpr hnext] at hold
        exact absurd hold not_mem_nil
      | some next =>
        obtain rfl : next = time := by simpa [extend, hnext] using htime
        exact htimely.due x hx y hold hsame next hnext
    · exact absurd hsame (hfresh x.1 (mem_append_left _ (mem_map_of_mem hx)) y hnew)
  · refine pairwise_append.mpr ⟨hslow, ?_, fun x hx y hy hsame => ?_⟩
    · exact pairwise_of_forall_mem_list fun x hx y _ _ => Nat.le_of_eq (Paste.mem_chunks hx).2
    · exact absurd hsame (hfresh x (mem_append_right _ hx) y hy)

theorem runTimers_frame (s : State) : s.runTimers.pasting = s.pasting ∧
    s.runTimers.calls = s.calls ∧ s.runTimers.commands = s.commands ∧
    (s.runTimers.paste ≠ [] → s.paste ≠ []) := by
  rw [runTimers]
  split
  case isFalse => exact ⟨rfl, rfl, rfl, id⟩
  case isTrue =>
    split
    · rename_i chunk rest hpaste
      have hne : s.paste ≠ [] := by rw [hpaste]; exact cons_ne_nil _ _
      dsimp only
      split <;> exact ⟨rfl, rfl, rfl, fun _ => hne⟩
    · exact ⟨rfl, rfl, rfl, fun h => absurd rfl h⟩

theorem handle_frame (s : State) (command : Command) :
    (s.handle command).pasting = s.pasting ∧ (s.handle command).calls = s.calls ∧
      (s.handle command).commands = s.commands := by
  cases command with
  | cancelPaste => exact ⟨rfl, rfl, rfl⟩
  | paced paste =>
    obtain ⟨hpasting, hcalls, hcommands, -⟩ := (s.extend paste).runTimers_frame
    rw [handle_paced]
    split
    · exact ⟨hpasting, hcalls, hcommands⟩
    · exact ⟨rfl, rfl, rfl⟩

theorem timely_step (htimely : Timely s) (hkept : Kept s) (harmed : Armed s) {event : Event}
    (hgood : Good s event) (hstep : s.step event = some t) : Timely t := by
  cases event with
  | wait time =>
    obtain rfl := Option.some.inj hstep
    exact ⟨htimely.apart, htimely.due, htimely.room⟩
  | store chunks delay =>
    obtain rfl := Option.some.inj hstep
    split
    · exact htimely
    · exact ⟨htimely.apart, htimely.due, htimely.room⟩
  | send index =>
    obtain ⟨call, -, rfl⟩ := Option.map_eq_some_iff.mp hstep
    exact ⟨htimely.apart, htimely.due, htimely.room⟩
  | cancel =>
    obtain rfl := Option.some.inj hstep
    exact ⟨htimely.apart, htimely.due, htimely.room⟩
  | receive =>
    rw [step] at hstep
    split at hstep
    case h_2 => cases hstep
    rename_i command rest hcommands hending
    obtain rfl := Option.some.inj hstep
    cases command with
    | cancelPaste => exact ⟨htimely.apart, fun _ _ _ hmem => absurd hmem not_mem_nil, .nil⟩
    | paced paste =>
      have hextend := timely_extend htimely hkept harmed hcommands (hgood paste rest hcommands)
      rw [handle_paced]
      split
      · exact timely_runTimers hextend (armed_extend harmed hending hcommands)
      · exact hextend
  | timers =>
    obtain ⟨-, rfl⟩ := by simpa [step] using hstep
    exact timely_runTimers htimely harmed
  | clear =>
    obtain ⟨-, rfl⟩ := by simpa [step] using hstep
    exact ⟨htimely.apart, htimely.due, htimely.room⟩

theorem told_step (htold : Told s) (harmed : Armed s) {event : Event} (hgood : Good s event)
    (hstep : s.step event = some t) : Told t := by
  cases event with
  | wait time =>
    obtain rfl := Option.some.inj hstep
    exact htold
  | store chunks delay =>
    obtain rfl := Option.some.inj hstep
    split
    · exact htold
    · exact fun _ => rfl
  | send index =>
    obtain ⟨call, hcall, rfl⟩ := Option.map_eq_some_iff.mp hstep
    exact fun _ => htold (.inl (ne_nil_of_mem (mem_of_getElem? hcall)))
  | cancel =>
    obtain rfl := Option.some.inj hstep
    rw [Told, pastes_cancelled]
    exact htold
  | receive =>
    rw [step] at hstep
    split at hstep
    case h_2 => cases hstep
    rename_i command rest hcommands hending
    obtain rfl := Option.some.inj hstep
    obtain ⟨hpasting, hcalls, hrest⟩ := { s with commands := rest }.handle_frame command
    rw [Told, hpasting, hcalls, hrest]
    intro hleft
    refine htold ?_
    rw [hcommands]
    cases command with
    | paced paste => exact .inr (.inl (cons_ne_nil _ _))
    | cancelPaste =>
      rcases hleft with hleft | hleft | hleft
      · exact .inl hleft
      · exact .inr (.inl hleft)
      · exact absurd rfl hleft
  | timers =>
    obtain ⟨-, rfl⟩ := by simpa [step] using hstep
    obtain ⟨hpasting, hcalls, hcommands, hpaste⟩ := s.runTimers_frame
    rw [Told, hpasting, hcalls, hcommands]
    exact fun hleft => htold (hleft.imp_right (.imp_right hpaste))
  | clear =>
    obtain ⟨hending, rfl⟩ := by simpa [step] using hstep
    rintro (hcalls | hpastes | hpaste)
    · exact absurd hgood.1 hcalls
    · exact absurd hgood.2 hpastes
    · exact absurd (harmed.ended hending) hpaste

end State

/-- In every run whose steps are good: the chunks written are, in order and once each, those
queued and not cancelled; two chunks of one paste are its delay apart; and the flag is set while
a chunk that was queued is neither written nor cancelled. -/
theorem pastes_sent {events : List Event} {s : State}
    (hrun : GoodRun State.step Good .initial events s) :
    (s.queued.filter (· ∉ s.cancelled) = s.written.map Prod.fst ++ s.waiting ∧ s.queued.Nodup) ∧
      s.written.Pairwise Apart ∧
      ∀ chunk ∈ s.queued, chunk ∉ s.written.map Prod.fst → chunk ∉ s.cancelled →
        s.pasting = true := by
  have hinvariant : (s.Kept ∧ s.Armed) ∧ s.Timely ∧ s.Told := by
    refine hrun.invariant (p := fun s => (s.Kept ∧ s.Armed) ∧ s.Timely ∧ s.Told) ?_ ?_
    · rintro s t event ⟨⟨hkept, harmed⟩, htimely, htold⟩ hgood hstep
      exact ⟨State.kept_step hkept harmed hstep,
        State.timely_step htimely hkept harmed hgood hstep,
        State.told_step htold harmed hgood hstep⟩
    · exact ⟨⟨State.initial_kept, State.initial_armed⟩,
        ⟨.nil, fun _ hmem => absurd hmem List.not_mem_nil, .nil⟩,
        by simp [State.Told, State.initial, Command.pastes]⟩
  obtain ⟨⟨hkept, -⟩, htimely, htold⟩ := hinvariant
  refine ⟨⟨hkept.order, hkept.nodup⟩, htimely.apart, fun chunk hqueued hwritten hcancelled => ?_⟩
  have hmem : chunk ∈ s.queued.filter (· ∉ s.cancelled) :=
    List.mem_filter.mpr ⟨hqueued, by simpa using hcancelled⟩
  rw [hkept.order, State.waiting, List.mem_append, List.mem_append] at hmem
  rcases hmem with hmem | hmem | hmem
  · exact absurd hmem hwritten
  · exact htold (.inr (.inr (List.ne_nil_of_mem hmem)))
  · refine htold (.inr (.inl fun hnil => ?_))
    rw [State.onTheWay, hnil] at hmem
    exact absurd hmem List.not_mem_nil

namespace PacedWitness

/-- Two lines, five ticks apart. -/
def alone : List Event := [.store [[1], [2]] 5, .send 0, .receive, .wait 5, .timers, .clear]

def aloneEnd : State where
  now := 5
  pasting := false
  calls := []
  commands := []
  paste := []
  pasteDelay := 5
  pasteNext := none
  ending := 0
  sends := 1
  queued := [⟨0, 0, 5, [1]⟩, ⟨0, 1, 5, [2]⟩]
  cancelled := []
  written := [(⟨0, 0, 5, [1]⟩, 0), (⟨0, 1, 5, [2]⟩, 5)]

theorem alone_good : GoodRun State.step Good .initial alone aloneEnd :=
  .cons trivial rfl (.cons trivial rfl (.cons (fun _ _ _ => .nil) rfl (.cons trivial rfl
    (.cons trivial rfl (.cons ⟨rfl, rfl⟩ rfl (.nil aloneEnd))))))

theorem alone_sent :
    (aloneEnd.queued.filter (· ∉ aloneEnd.cancelled) =
      aloneEnd.written.map Prod.fst ++ aloneEnd.waiting ∧ aloneEnd.queued.Nodup) ∧
      aloneEnd.written.Pairwise Apart ∧
      ∀ chunk ∈ aloneEnd.queued, chunk ∉ aloneEnd.written.map Prod.fst →
        chunk ∉ aloneEnd.cancelled → aloneEnd.pasting = true :=
  pastes_sent alone_good

/-- A second paste is queued before the first one's flag is cleared. -/
def flagLost : List Event := [.store [[1]] 0, .send 0, .receive, .store [[2]] 0, .send 0, .clear]

/-- A second paste with a shorter delay is taken in. -/
def delayLost : List Event :=
  [.store [[1], [2], [3]] 10, .send 0, .receive, .store [[4]] 0, .send 0, .receive, .wait 10,
    .timers, .timers]

theorem lost :
    (∃ s, runFrom State.step .initial flagLost = some s ∧ ∃ chunk ∈ s.queued,
      chunk ∉ s.written.map Prod.fst ∧ chunk ∉ s.cancelled ∧ s.pasting = false) ∧
    ∃ s, runFrom State.step .initial delayLost = some s ∧ ¬ s.written.Pairwise Apart :=
  ⟨⟨_, rfl, ⟨1, 0, 0, [2]⟩, by decide, by decide, by decide, rfl⟩, _, rfl, by decide⟩

end PacedWitness

end Opensesh.PacedPaste
