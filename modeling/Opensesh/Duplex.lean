/-
Two processes that write and read bytes over a pair of streams, a byte at a time in any
order: however they are interleaved, they end in the same way.
-/
import Mathlib.Data.Nat.Basic
import Mathlib.Data.List.Basic

namespace Opensesh

/-- A run of so many steps of a relation. -/
inductive Runs {State : Type} (step : State → State → Prop) : Nat → State → State → Prop where
  | none (state : State) : Runs step 0 state state
  | more {count : Nat} {state next last : State} :
      step state next → Runs step count next last → Runs step (count + 1) state last

namespace Runs

variable {State : Type} {step : State → State → Prop}

theorem trans {first second : Nat} {state middle last : State}
    (hfirst : Runs step first state middle) (hsecond : Runs step second middle last) :
    Runs step (first + second) state last := by
  induction hfirst with
  | none _ => rwa [Nat.zero_add]
  | more hstep _ ih =>
    rw [Nat.add_right_comm]
    exact .more hstep (ih hsecond)

theorem one {state next : State} (hstep : step state next) : Runs step 1 state next :=
  .more hstep (.none next)

/-- Where steps from one state meet again in one step, a run that cannot go on fixes how every
run ends, and how long it is. -/
theorem descent (hmeet : ∀ state first second, step state first → step state second → first =
    second ∨ ∃ last, step first last ∧ step second last) {count : Nat} {state last : State}
    (hrun : Runs step count state last) (hstuck : ∀ next, ¬ step last next) {count' : Nat}
    {state' : State} (hrun' : Runs step count' state state') :
    ∃ left, count' + left = count ∧ Runs step left state' last := by
  induction count generalizing state count' state' with
  | zero =>
    cases hrun
    cases hrun' with
    | none _ => exact ⟨0, rfl, .none _⟩
    | more hstep _ => exact absurd hstep (hstuck _)
  | succ count ih =>
    cases hrun with
    | @more _ _ next _ hstep hrest =>
      cases hrun' with
      | none _ => exact ⟨count + 1, Nat.zero_add _, .more hstep hrest⟩
      | @more count' _ next' _ hstep' hrest' =>
        have hother : Runs step count next' last := by
          rcases hmeet state next next' hstep hstep' with rfl | ⟨meet, hfirst, hsecond⟩
          · exact hrest
          · obtain ⟨left, hleft, hmeets⟩ := ih hrest (one hfirst)
            rw [← hleft, Nat.add_comm]
            exact .more hsecond hmeets
        obtain ⟨left, hleft, hends⟩ := ih hother hrest'
        exact ⟨left, by omega, hends⟩

end Runs

/-- A process on a stream: it has ended, keeping the stream or not, it writes, or it waits for
a number of bytes and ends when the stream does. -/
inductive Proc (Result : Type) where
  | done (result : Result) (keeps : Bool)
  | write (bytes : List UInt8) (next : Proc Result)
  | read (count : Nat) (got : List UInt8 → Proc Result) (eof : Result)

namespace Proc

variable {Result : Type}

def closed : Proc Result → Bool
  | .done _ keeps => !keeps
  | _ => false

/-- The next step of a process: what it is then, what is left to read, and what it wrote. -/
def advance (proc : Proc Result) (inbox : List UInt8) (ended : Bool) :
    Option (Proc Result × List UInt8 × List UInt8) :=
  match proc with
  | .done _ _ => none
  | .write [] next => some (next, inbox, [])
  | .write (byte :: bytes) next => some (.write bytes next, inbox, [byte])
  | .read 0 got _ => some (got [], inbox, [])
  | .read (count + 1) got eof =>
    match inbox with
    | byte :: rest => some (.read count (fun others => got (byte :: others)) eof, rest, [])
    | [] => if ended then some (.done eof false, [], []) else none

/-- What the other process writes does not change a step. -/
theorem advance_append {proc proc' : Proc Result} {inbox inbox' written : List UInt8}
    (h : proc.advance inbox false = some (proc', inbox', written)) (more : List UInt8)
    (ended : Bool) : proc.advance (inbox ++ more) ended = some (proc', inbox' ++ more, written) := by
  match proc, inbox with
  | .write [] _, _ =>
    cases h
    rfl
  | .write (_ :: _) _, _ =>
    cases h
    rfl
  | .read 0 _ _, _ =>
    cases h
    rfl
  | .read (_ + 1) _ _, _ :: _ =>
    cases h
    rfl

end Proc

/-- Two processes and the bytes written to each that it has not read. -/
structure Duplex (Left Right : Type) where
  left : Proc Left
  toLeft : List UInt8
  right : Proc Right
  toRight : List UInt8

namespace Duplex

variable {Left Right : Type}

/-- One of the processes does its next step. -/
inductive Step : Duplex Left Right → Duplex Left Right → Prop where
  | left {state : Duplex Left Right} {left : Proc Left} {inbox written : List UInt8}
      (hstep : state.left.advance state.toLeft state.right.closed = some (left, inbox, written)) :
      Step state ⟨left, inbox, state.right, state.toRight ++ written⟩
  | right {state : Duplex Left Right} {right : Proc Right} {inbox written : List UInt8}
      (hstep : state.right.advance state.toRight state.left.closed = some (right, inbox, written)) :
      Step state ⟨state.left, state.toLeft ++ written, right, inbox⟩

/-- A process that still steps has not closed its stream. -/
theorem not_closed {Result : Type} {proc : Proc Result} {inbox : List UInt8} {ended : Bool}
    {result : Proc Result × List UInt8 × List UInt8}
    (h : proc.advance inbox ended = some result) : proc.closed = false := by
  match proc with
  | .write _ _ => rfl
  | .read _ _ _ => rfl

theorem step_meets (state first second : Duplex Left Right) (hfirst : Step state first)
    (hsecond : Step state second) :
    first = second ∨ ∃ last, Step first last ∧ Step second last := by
  have hcross : ∀ {left : Proc Left} {right : Proc Right}
      {inbox inbox' written written' : List UInt8},
      state.left.advance state.toLeft state.right.closed = some (left, inbox, written) →
      state.right.advance state.toRight state.left.closed = some (right, inbox', written') →
      ∃ last, Step ⟨left, inbox, state.right, state.toRight ++ written⟩ last ∧
        Step ⟨state.left, state.toLeft ++ written', right, inbox'⟩ last := by
    intro left right inbox inbox' written written' hleft hright
    refine ⟨⟨left, inbox ++ written', right, inbox' ++ written⟩, .right ?_, .left ?_⟩
    · rw [not_closed hleft] at hright
      exact Proc.advance_append hright written _
    · rw [not_closed hright] at hleft
      exact Proc.advance_append hleft written' _
  cases hfirst with
  | left hleft =>
    cases hsecond with
    | left hleft' =>
      obtain ⟨rfl, h⟩ := Prod.mk.inj (Option.some.inj (hleft.symm.trans hleft'))
      obtain ⟨rfl, rfl⟩ := Prod.mk.inj h
      exact .inl rfl
    | right hright => exact .inr (hcross hleft hright)
  | right hright =>
    cases hsecond with
    | left hleft =>
      obtain ⟨last, h, h'⟩ := hcross hleft hright
      exact .inr ⟨last, h', h⟩
    | right hright' =>
      obtain ⟨rfl, h⟩ := Prod.mk.inj (Option.some.inj (hright.symm.trans hright'))
      obtain ⟨rfl, rfl⟩ := Prod.mk.inj h
      exact .inl rfl

/-- Neither process can do anything more. -/
def Stuck (state : Duplex Left Right) : Prop := ∀ next, ¬ Step state next

theorem stuck_of_done {left : Left} {right : Right} {keeps keeps' : Bool}
    {toLeft toRight : List UInt8} :
    Stuck ⟨.done left keeps, toLeft, .done right keeps', toRight⟩ := by
  intro next hstep
  cases hstep with
  | left h => cases h
  | right h => cases h

/-- The two processes get from one state to another. -/
def Reaches (state last : Duplex Left Right) : Prop := ∃ count, Runs Step count state last

theorem Reaches.trans {state middle last : Duplex Left Right} (hfirst : Reaches state middle)
    (hsecond : Reaches middle last) : Reaches state last := by
  obtain ⟨first, hfirst⟩ := hfirst
  obtain ⟨second, hsecond⟩ := hsecond
  exact ⟨first + second, hfirst.trans hsecond⟩

theorem Reaches.step {state last : Duplex Left Right} (h : Step state last) :
    Reaches state last := ⟨1, Runs.one h⟩

theorem ends_of_reaches {state last : Duplex Left Right} (hreaches : Reaches state last)
    (hstuck : Stuck last) : ∃ bound, ∀ count state', Runs Step count state state' →
      count ≤ bound ∧ (Stuck state' → state' = last) := by
  obtain ⟨bound, hrun⟩ := hreaches
  refine ⟨bound, fun count state' hrun' => ?_⟩
  obtain ⟨left, hleft, hends⟩ := Runs.descent step_meets hrun hstuck hrun'
  refine ⟨by omega, fun hstuck' => ?_⟩
  cases hends with
  | none _ => rfl
  | more hstep _ => exact absurd hstep (hstuck' _)

theorem left_writes (bytes : List UInt8) (next : Proc Left) (toLeft : List UInt8)
    (right : Proc Right) (toRight : List UInt8) :
    Reaches ⟨.write bytes next, toLeft, right, toRight⟩
      ⟨next, toLeft, right, toRight ++ bytes⟩ := by
  induction bytes generalizing toRight with
  | nil => exact .step (.left rfl)
  | cons byte bytes ih =>
    have h := ih (toRight ++ [byte])
    rw [List.append_assoc] at h
    exact .trans (.step (.left rfl)) h

theorem right_writes (bytes : List UInt8) (next : Proc Right) (left : Proc Left)
    (toLeft toRight : List UInt8) :
    Reaches ⟨left, toLeft, .write bytes next, toRight⟩ ⟨left, toLeft ++ bytes, next, toRight⟩ := by
  induction bytes generalizing toLeft with
  | nil => exact .step (.right rfl)
  | cons byte bytes ih =>
    have h := ih (toLeft ++ [byte])
    rw [List.append_assoc] at h
    exact .trans (.step (.right rfl)) h

theorem left_reads (bytes : List UInt8) {count : Nat} (hcount : bytes.length = count)
    (got : List UInt8 → Proc Left) (eof : Left) (rest : List UInt8) (right : Proc Right)
    (toRight : List UInt8) :
    Reaches ⟨.read count got eof, bytes ++ rest, right, toRight⟩
      ⟨got bytes, rest, right, toRight⟩ := by
  subst hcount
  induction bytes generalizing got with
  | nil =>
    have h : Step ⟨.read 0 got eof, rest, right, toRight⟩
        ⟨got [], rest, right, toRight ++ []⟩ := .left rfl
    rw [List.append_nil] at h
    exact .step h
  | cons byte bytes ih =>
    have h : Step ⟨.read (bytes.length + 1) got eof, byte :: (bytes ++ rest), right, toRight⟩
        ⟨.read bytes.length (fun others => got (byte :: others)) eof, bytes ++ rest, right,
          toRight ++ []⟩ := .left rfl
    rw [List.append_nil] at h
    exact .trans (.step h) (ih fun others => got (byte :: others))

theorem right_reads (bytes : List UInt8) {count : Nat} (hcount : bytes.length = count)
    (got : List UInt8 → Proc Right) (eof : Right) (rest : List UInt8) (left : Proc Left)
    (toLeft : List UInt8) :
    Reaches ⟨left, toLeft, .read count got eof, bytes ++ rest⟩ ⟨left, toLeft, got bytes, rest⟩ := by
  subst hcount
  induction bytes generalizing got with
  | nil =>
    have h : Step ⟨left, toLeft, .read 0 got eof, rest⟩
        ⟨left, toLeft ++ [], got [], rest⟩ := .right rfl
    rw [List.append_nil] at h
    exact .step h
  | cons byte bytes ih =>
    have h : Step ⟨left, toLeft, .read (bytes.length + 1) got eof, byte :: (bytes ++ rest)⟩
        ⟨left, toLeft ++ [], .read bytes.length (fun others => got (byte :: others)) eof,
          bytes ++ rest⟩ := .right rfl
    rw [List.append_nil] at h
    exact .trans (.step h) (ih fun others => got (byte :: others))

/-- A process that waits on a closed stream ends. -/
theorem right_ends {left : Left} {count : Nat} (got : List UInt8 → Proc Right) (eof : Right)
    (toLeft : List UInt8) :
    Reaches ⟨.done left false, toLeft, .read (count + 1) got eof, []⟩
      ⟨.done left false, toLeft, .done eof false, []⟩ := by
  have h : Step ⟨.done left false, toLeft, .read (count + 1) got eof, []⟩
      ⟨.done left false, toLeft ++ [], .done eof false, []⟩ := .right rfl
  rw [List.append_nil] at h
  exact .step h

end Duplex

end Opensesh
