/-
A VNC session as the app drives it: what each message from the app sends to the server,
which keys and buttons are remembered as down, and which of them go up again.
-/
import Opensesh.Latch

namespace Opensesh.Vnc

open List Option

inductive Button where
  | left
  | middle
  | right
  | back
  | forward
  deriving DecidableEq

/-- A message of the app about the session. -/
inductive Control where
  | connect
  | certificate (accept : Bool)
  | key (code : UInt8) (extended pressed : Bool)
  | keysym (keysym : UInt32) (pressed : Bool)
  | unicode (character : Char) (pressed : Bool)
  | move (x y : UInt16)
  | button (button : Button) (pressed : Bool)
  | wheel (vertical horizontal : Int16)
  | releaseAll
  | locks (caps num scroll : Bool)
  | ctrlAltDel
  | resize (width height : UInt16)
  | reconnect
  | disconnect
  deriving DecidableEq

inductive ToHelper where
  | control (control : Control)
  | password (password : List Char)
  | clipboard (text : List Char)
  deriving DecidableEq

/-- What the app sends to a session. -/
inductive Input where
  | key (keysym : UInt32) (down : Bool)
  | pointer (buttons : UInt8) (x y : UInt16)
  | clipboard (text : List Char)
  | resize (width height : UInt16)
  deriving DecidableEq

/-- The settings of the connection that the session reads. -/
structure Connect where
  clipboard : Bool
  readOnly : Bool
  width : UInt16
  height : UInt16

/-- The pointer's position and buttons. -/
structure Pointer where
  x : UInt16
  y : UInt16
  buttons : UInt8

def Pointer.event (pointer : Pointer) : Input := .pointer pointer.buttons pointer.x pointer.y

/-- One wheel step: the button down, then up. -/
def Pointer.wheel (pointer : Pointer) (bit : UInt8) : List Input :=
  [.pointer (pointer.buttons ||| bit) pointer.x pointer.y, pointer.event]

/-- A character's keysym: Latin-1 as itself, the rest as a Unicode keysym. -/
def ofChar (character : Char) : UInt32 :=
  let code := character.val
  if (0x20 ≤ code ∧ code ≤ 0x7e) ∨ (0xa0 ≤ code ∧ code ≤ 0xff) then code
  else 0x01000000 + code

/-- What a session remembers: the pointer, the keys down, in no order that matters, and
the password for the next connection. -/
structure Driver where
  pointer : Pointer
  keys : List UInt32
  password : List Char

/-- The order in which a set gives up its keys, which the code does not fix. -/
structure DrainOrder where
  order : List UInt32 → List UInt32
  perm : ∀ keys, (order keys).Perm keys

def buttonBit : Button → Option UInt8
  | .left => some 1
  | .middle => some 2
  | .right => some 4
  | .back | .forward => none

/-- The steps of a wheel movement: one a notch, at least one. -/
def wheelSteps (amount : Int16) : Nat := max 1 (min 20 (amount.toInt.natAbs / 120))

def wheelEvents (pointer : Pointer) (amount : Int16) (positive negative : UInt8) : List Input :=
  if amount = 0 then []
  else
    let bit := if 0 < amount then positive else negative
    (List.replicate (wheelSteps amount) (pointer.wheel bit)).flatten

/-- Control, Alt and Delete. -/
def ctrlAltDelKeys : List UInt32 := [0xffe3, 0xffe9, 0xffff]

def insertKey (keys : List UInt32) (keysym : UInt32) : List UInt32 :=
  if keysym ∈ keys then keys else keys ++ [keysym]

/-- What a control sends to the server; none ends the session. -/
def controlInputs (drain : DrainOrder) (driver : Driver) (control : Control) :
    Driver × Option (List Input) :=
  match control with
  | .disconnect => (driver, none)
  | .keysym keysym pressed =>
    let keys :=
      if pressed then insertKey driver.keys keysym else driver.keys.filter (· ≠ keysym)
    ({ driver with keys }, some [.key keysym pressed])
  | .unicode character pressed => (driver, some [.key (ofChar character) pressed])
  | .move x y =>
    let pointer := { driver.pointer with x, y }
    ({ driver with pointer }, some [pointer.event])
  | .button button pressed =>
    match buttonBit button with
    | none => (driver, some [])
    | some bit =>
      let buttons :=
        if pressed then driver.pointer.buttons ||| bit
        else driver.pointer.buttons &&& ~~~bit
      let pointer := { driver.pointer with buttons }
      ({ driver with pointer }, some [pointer.event])
  | .wheel vertical horizontal =>
    (driver, some (wheelEvents driver.pointer vertical 8 16 ++
      wheelEvents driver.pointer horizontal 64 32))
  | .releaseAll =>
    let released := (drain.order driver.keys).map fun keysym => Input.key keysym false
    if driver.pointer.buttons ≠ 0 then
      let pointer := { driver.pointer with buttons := 0 }
      ({ driver with keys := [], pointer }, some (released ++ [pointer.event]))
    else ({ driver with keys := [] }, some released)
  | .ctrlAltDel =>
    (driver, some (ctrlAltDelKeys.map (.key · true) ++ ctrlAltDelKeys.reverse.map (.key · false)))
  | .resize width height => (driver, some [.resize width height])
  | .connect | .certificate _ | .key _ _ _ | .locks _ _ _ | .reconnect => (driver, some [])

/-- What a message from the app sends to the server; none ends the session. -/
def inputsOf (drain : DrainOrder) (connect : Connect) (driver : Driver)
    (message : ToHelper) : Driver × Option (List Input) :=
  match message with
  | .password password => ({ driver with password }, some [])
  | .clipboard text => (driver, some (if connect.clipboard then [.clipboard text] else []))
  | .control control => controlInputs drain driver control

/-- A session: what it remembers, what it has sent, and whether the app ended it. -/
structure Session where
  driver : Driver
  sent : List Input
  ended : Bool

/-- One message from the app. -/
def Session.handle (drain : DrainOrder) (connect : Connect) (session : Session)
    (message : ToHelper) : Session :=
  if session.ended then session
  else
    match inputsOf drain connect session.driver message with
    | (driver, some inputs) => ⟨driver, session.sent ++ inputs, false⟩
    | (driver, none) => ⟨driver, session.sent, true⟩

/-- A session on a desktop of this size; another size is asked for at once. -/
def Session.start (connect : Connect) (password : List Char) (width height : UInt16) : Session :=
  let sent :=
    if (connect.width, connect.height) ≠ (width, height) ∧ 200 ≤ connect.width then
      [Input.resize connect.width connect.height]
    else []
  ⟨⟨⟨0, 0, 0⟩, [], password⟩, sent, false⟩

def Session.run (drain : DrainOrder) (connect : Connect) (start : Session)
    (messages : List ToHelper) : Session :=
  messages.foldl (Session.handle drain connect) start

/-- What reaches the server: a read-only session sends no input and no clipboard. -/
def written (connect : Connect) (inputs : List Input) : List Input :=
  inputs.filter fun input =>
    match input with
    | .resize _ _ => true
    | _ => !connect.readOnly

/-- Every key and every button that went down went up later. -/
def Released (events : List Input) : Prop :=
  (∀ before keysym after, events = before ++ .key keysym true :: after →
    .key keysym false ∈ after) ∧
  ∀ before buttons x y after (bit : Nat),
    events = before ++ .pointer buttons x y :: after → buttons.toNat.testBit bit = true →
      ∃ later x y, Input.pointer later x y ∈ after ∧ later.toNat.testBit bit = false

/-- The key the control presses. -/
def Control.presses (control : Control) (keysym : UInt32) : Prop :=
  control = .keysym keysym true ∨ ∃ character, control = .unicode character true ∧
    ofChar character = keysym

/-- The control lets the key go: all keys go up only if the key is remembered. -/
def Control.lifts (control : Control) (remembered : Prop) (keysym : UInt32) : Prop :=
  control = .keysym keysym false ∨
  (∃ character, control = .unicode character false ∧ ofChar character = keysym) ∨
  control = .ctrlAltDel ∧ keysym ∈ ctrlAltDelKeys ∨
  control = .releaseAll ∧ remembered

/-- The control says something of the key that a later release goes by. -/
def Control.touches (control : Control) (keysym : UInt32) : Prop :=
  (∃ pressed, control = .keysym keysym pressed) ∨
  (∃ character, control = .unicode character false ∧ ofChar character = keysym) ∨
  control = .ctrlAltDel ∧ keysym ∈ ctrlAltDelKeys

/-- The server was told that the key went down, and not that it went up. -/
def KeyDown (keysym : UInt32) (events : List Input) : Prop :=
  LeftSet (fun _ event => event = .key keysym true)
    (fun _ event => event = .key keysym false) events

/-- The server was told of a button, and not that it went up. -/
def ButtonDown (bit : Nat) (events : List Input) : Prop :=
  LeftSet
    (fun _ event => ∃ buttons x y, event = .pointer buttons x y ∧ buttons.toNat.testBit bit = true)
    (fun _ event => ∃ buttons x y, event = .pointer buttons x y ∧
      buttons.toNat.testBit bit = false) events

variable {events others inputs : List Input} {keysym : UInt32} {bit : Nat} {driver : Driver}
  {control : Control}

theorem released_iff_not_down :
    Released events ↔ (∀ keysym, ¬ KeyDown keysym events) ∧ ∀ bit, ¬ ButtonDown bit events := by
  constructor
  · rintro ⟨hkeys, hbuttons⟩
    constructor
    · rintro keysym ⟨before, event, after, heq, rfl, hkept⟩
      obtain ⟨middle, rest, rfl⟩ := append_of_mem (hkeys before keysym after heq)
      exact hkept middle _ rest rfl rfl
    · rintro bit ⟨before, event, after, heq, ⟨buttons, x, y, rfl, hbit⟩, hkept⟩
      obtain ⟨later, x', y', hmem, hlater⟩ := hbuttons before buttons x y after bit heq hbit
      obtain ⟨middle, rest, rfl⟩ := append_of_mem hmem
      exact hkept middle _ rest rfl ⟨later, x', y', rfl, hlater⟩
  · rintro ⟨hkeys, hbuttons⟩
    constructor
    · intro before keysym after heq
      by_contra hmem
      refine hkeys keysym ⟨before, _, after, heq, rfl, ?_⟩
      rintro middle other rest rfl rfl
      exact hmem (by simp)
    · intro before buttons x y after bit heq hbit
      by_contra hmem
      refine hbuttons bit ⟨before, _, after, heq, ⟨buttons, x, y, rfl, hbit⟩, ?_⟩
      rintro middle other rest rfl ⟨later, x', y', rfl, hlater⟩
      exact hmem ⟨later, x', y', by simp, hlater⟩

theorem keyDown_append (keysym : UInt32) (events others : List Input) :
    KeyDown keysym (events ++ others) ↔
      KeyDown keysym others ∨ KeyDown keysym events ∧ .key keysym false ∉ others := by
  rw [KeyDown, leftSet_append_list]
  simp only [KeyDown]
  have hforall : (∀ other ∈ others, ¬ other = .key keysym false) ↔
      Input.key keysym false ∉ others :=
    ⟨fun h hmem => h _ hmem rfl, fun h other hmem heq => h (heq ▸ hmem)⟩
  rw [hforall]

theorem keyDown_append_others (events : List Input) (h : ∀ keysym down, .key keysym down ∉ others) :
    KeyDown keysym (events ++ others) ↔ KeyDown keysym events := by
  have hnone : ¬ KeyDown keysym others :=
    not_leftSet_of_forall fun event hmem heq => h keysym true (heq ▸ hmem)
  rw [keyDown_append]
  have hno := h keysym false
  tauto

theorem keyDown_append_key {other : UInt32} (events : List Input) (down : Bool) :
    KeyDown keysym (events ++ [.key other down]) ↔
      (other = keysym ∧ down = true) ∨
        KeyDown keysym events ∧ ¬ (other = keysym ∧ down = false) := by
  rw [KeyDown, leftSet_append]
  simp only [KeyDown, Input.key.injEq]

theorem buttonDown_append_pointer (events : List Input) (buttons : UInt8) (x y : UInt16) :
    ButtonDown bit (events ++ [.pointer buttons x y]) ↔ buttons.toNat.testBit bit = true := by
  rw [ButtonDown, leftSet_append]
  cases hbit : buttons.toNat.testBit bit <;> simp [hbit]

theorem buttonDown_append_others (events : List Input)
    (h : ∀ buttons x y, .pointer buttons x y ∉ others) :
    ButtonDown bit (events ++ others) ↔ ButtonDown bit events := by
  have hnone : ¬ ButtonDown bit others := by
    refine not_leftSet_of_forall ?_
    rintro event hmem ⟨buttons, x, y, rfl, -⟩
    exact h buttons x y hmem
  have hclear : ∀ other ∈ others, ¬ ∃ buttons x y, other = Input.pointer buttons x y ∧
      buttons.toNat.testBit bit = false := by
    rintro other hmem ⟨buttons, x, y, rfl, -⟩
    exact h buttons x y hmem
  rw [ButtonDown, leftSet_append_list]
  exact ⟨fun hdown => hdown.elim (fun hothers => absurd hothers hnone) And.left,
    fun hdown => Or.inr ⟨hdown, hclear⟩⟩

theorem wheelEvents_cases (pointer : Pointer) (amount : Int16) (positive negative : UInt8) :
    wheelEvents pointer amount positive negative = [] ∨
      ∃ front, wheelEvents pointer amount positive negative = front ++ [pointer.event] := by
  rw [wheelEvents]
  split
  · exact Or.inl rfl
  · right
    dsimp only
    generalize (if 0 < amount then positive else negative) = bit
    have hpos : 1 ≤ wheelSteps amount := by
      rw [wheelSteps]
      omega
    obtain ⟨steps, hsteps⟩ : ∃ steps, wheelSteps amount = steps + 1 :=
      ⟨wheelSteps amount - 1, by omega⟩
    refine ⟨(List.replicate steps (pointer.wheel bit)).flatten ++
      [.pointer (pointer.buttons ||| bit) pointer.x pointer.y], ?_⟩
    rw [hsteps, replicate_succ', flatten_append, flatten_singleton,
      Pointer.wheel, List.append_assoc]
    rfl

theorem key_notMem_wheelEvents (pointer : Pointer) (amount : Int16)
    (positive negative : UInt8) (keysym : UInt32) (down : Bool) :
    .key keysym down ∉ wheelEvents pointer amount positive negative := by
  rw [wheelEvents]
  split
  · exact not_mem_nil
  · intro hmem
    obtain ⟨step, hstep, hevent⟩ := mem_flatten.mp hmem
    rw [eq_of_mem_replicate hstep] at hevent
    simp [Pointer.wheel, Pointer.event] at hevent

theorem keyDown_ctrlAltDel (keysym : UInt32) (events : List Input) :
    KeyDown keysym (events ++ (ctrlAltDelKeys.map (.key · true) ++
      ctrlAltDelKeys.reverse.map (.key · false))) ↔
      KeyDown keysym events ∧ keysym ∉ ctrlAltDelKeys := by
  have hreleases : ¬ KeyDown keysym (ctrlAltDelKeys.reverse.map (.key · false)) :=
    not_leftSet_of_forall (by simp)
  have hmem : Input.key keysym false ∈ ctrlAltDelKeys.reverse.map (.key · false) ↔
      keysym ∈ ctrlAltDelKeys := by simp
  have hpresses : KeyDown keysym (ctrlAltDelKeys.map (.key · true)) → keysym ∈ ctrlAltDelKeys := by
    rintro ⟨before, event, after, heq, rfl, -⟩
    have hin : Input.key keysym true ∈ ctrlAltDelKeys.map (.key · true) := by
      rw [heq]
      simp
    simpa using hin
  rw [← List.append_assoc, keyDown_append, keyDown_append, hmem]
  have hnone : Input.key keysym false ∉ ctrlAltDelKeys.map (.key · true) := by simp
  tauto

theorem keyDown_released (drain : DrainOrder) (keysym : UInt32) (keys : List UInt32)
    (events : List Input) :
    KeyDown keysym (events ++ (drain.order keys).map fun keysym => .key keysym false) ↔
      KeyDown keysym events ∧ keysym ∉ keys := by
  have hreleases : ¬ KeyDown keysym ((drain.order keys).map fun keysym => .key keysym false) :=
    not_leftSet_of_forall (by simp)
  have hmem : Input.key keysym false ∈
      (drain.order keys).map (fun keysym => .key keysym false) ↔ keysym ∈ keys := by
    rw [← (drain.perm keys).mem_iff]
    simp
  rw [keyDown_append, hmem]
  tauto

theorem keyDown_controlInputs (drain : DrainOrder) (keysym : UInt32) {next : Driver}
    (h : controlInputs drain driver control = (next, some inputs)) (events : List Input) :
    KeyDown keysym (events ++ inputs) ↔
      control.presses keysym ∨
        KeyDown keysym events ∧ ¬ control.lifts (keysym ∈ driver.keys) keysym := by
  have hothers : (∀ keysym, ¬ control.presses keysym) →
      (∀ keysym, ¬ control.lifts (keysym ∈ driver.keys) keysym) →
      (∀ keysym down, Input.key keysym down ∉ inputs) →
      (KeyDown keysym (events ++ inputs) ↔ control.presses keysym ∨
        KeyDown keysym events ∧ ¬ control.lifts (keysym ∈ driver.keys) keysym) := by
    intro hpresses hlifts hnone
    rw [keyDown_append_others events hnone]
    have hpress := hpresses keysym
    have hlift := hlifts keysym
    tauto
  cases control with
  | disconnect => cases h
  | keysym other pressed =>
    obtain ⟨-, hinputs⟩ := Prod.mk.inj h
    obtain rfl := some.inj hinputs
    rw [keyDown_append_key]
    simp [Control.presses, Control.lifts]
  | unicode character pressed =>
    obtain ⟨-, hinputs⟩ := Prod.mk.inj h
    obtain rfl := some.inj hinputs
    rw [keyDown_append_key]
    simp [Control.presses, Control.lifts, and_comm]
  | move x y =>
    obtain ⟨-, hinputs⟩ := Prod.mk.inj h
    obtain rfl := some.inj hinputs
    exact hothers (by simp [Control.presses]) (by simp [Control.lifts]) (by simp [Pointer.event])
  | button button pressed =>
    refine hothers (by simp [Control.presses]) (by simp [Control.lifts]) ?_
    rw [controlInputs] at h
    split at h
    all_goals
      obtain ⟨-, hinputs⟩ := Prod.mk.inj h
      obtain rfl := some.inj hinputs
      simp [Pointer.event]
  | wheel vertical horizontal =>
    obtain ⟨-, hinputs⟩ := Prod.mk.inj h
    obtain rfl := some.inj hinputs
    refine hothers (by simp [Control.presses]) (by simp [Control.lifts]) ?_
    intro keysym down hmem
    rcases mem_append.mp hmem with hmem | hmem
    · exact key_notMem_wheelEvents _ _ _ _ _ _ hmem
    · exact key_notMem_wheelEvents _ _ _ _ _ _ hmem
  | releaseAll =>
    have hlifts : Control.releaseAll.lifts (keysym ∈ driver.keys) keysym ↔ keysym ∈ driver.keys := by
      simp [Control.lifts]
    have hpresses : ¬ Control.releaseAll.presses keysym := by simp [Control.presses]
    rw [controlInputs] at h
    dsimp only at h
    split at h
    · obtain ⟨-, hinputs⟩ := Prod.mk.inj h
      obtain rfl := some.inj hinputs
      rw [← List.append_assoc, keyDown_append_others _ (by simp [Pointer.event]),
        keyDown_released, hlifts]
      exact (or_iff_right hpresses).symm
    · obtain ⟨-, hinputs⟩ := Prod.mk.inj h
      obtain rfl := some.inj hinputs
      rw [keyDown_released, hlifts]
      exact (or_iff_right hpresses).symm
  | ctrlAltDel =>
    obtain ⟨-, hinputs⟩ := Prod.mk.inj h
    obtain rfl := some.inj hinputs
    rw [keyDown_ctrlAltDel]
    simp [Control.presses, Control.lifts]
  | resize width height =>
    obtain ⟨-, hinputs⟩ := Prod.mk.inj h
    obtain rfl := some.inj hinputs
    exact hothers (by simp [Control.presses]) (by simp [Control.lifts]) (by simp)
  | connect | certificate | key | locks | reconnect =>
    obtain ⟨-, hinputs⟩ := Prod.mk.inj h
    obtain rfl := some.inj hinputs
    exact hothers (by simp [Control.presses]) (by simp [Control.lifts]) (by simp)

/-- The buttons the server was told of are the driver's. -/
def ButtonsTold (driver : Driver) (events : List Input) : Prop :=
  ∀ bit, ButtonDown bit events ↔ driver.pointer.buttons.toNat.testBit bit = true

theorem buttonsTold_event (events : List Input) :
    ButtonsTold driver (events ++ [driver.pointer.event]) :=
  fun _ => buttonDown_append_pointer events _ _ _

theorem buttonsTold_wheel (h : ButtonsTold driver events) (amount : Int16)
    (positive negative : UInt8) :
    ButtonsTold driver (events ++ wheelEvents driver.pointer amount positive negative) := by
  rcases wheelEvents_cases driver.pointer amount positive negative with heq | ⟨front, heq⟩
  · rw [heq, List.append_nil]
    exact h
  · rw [heq, ← List.append_assoc]
    exact buttonsTold_event _

theorem buttonsTold_controlInputs (drain : DrainOrder) {next : Driver}
    (h : controlInputs drain driver control = (next, some inputs))
    (htold : ButtonsTold driver events) : ButtonsTold next (events ++ inputs) := by
  have hkept : next.pointer.buttons = driver.pointer.buttons →
      (∀ buttons x y, Input.pointer buttons x y ∉ inputs) →
      ButtonsTold next (events ++ inputs) := by
    intro hsame hnone bit
    rw [buttonDown_append_others events hnone, htold bit, hsame]
  cases control with
  | disconnect => cases h
  | keysym other pressed =>
    obtain ⟨rfl, hinputs⟩ := Prod.mk.inj h
    obtain rfl := some.inj hinputs
    exact hkept rfl (by simp)
  | unicode character pressed =>
    obtain ⟨rfl, hinputs⟩ := Prod.mk.inj h
    obtain rfl := some.inj hinputs
    exact hkept rfl (by simp)
  | move x y =>
    obtain ⟨rfl, hinputs⟩ := Prod.mk.inj h
    obtain rfl := some.inj hinputs
    exact buttonsTold_event events
  | button button pressed =>
    rw [controlInputs] at h
    split at h
    · obtain ⟨rfl, hinputs⟩ := Prod.mk.inj h
      obtain rfl := some.inj hinputs
      exact hkept rfl (by simp)
    · obtain ⟨rfl, hinputs⟩ := Prod.mk.inj h
      obtain rfl := some.inj hinputs
      exact buttonsTold_event events
  | wheel vertical horizontal =>
    obtain ⟨rfl, hinputs⟩ := Prod.mk.inj h
    obtain rfl := some.inj hinputs
    rw [← List.append_assoc]
    exact buttonsTold_wheel (buttonsTold_wheel htold _ _ _) _ _ _
  | releaseAll =>
    rw [controlInputs] at h
    dsimp only at h
    split at h
    · obtain ⟨rfl, hinputs⟩ := Prod.mk.inj h
      obtain rfl := some.inj hinputs
      rw [← List.append_assoc]
      exact fun _ => buttonDown_append_pointer _ _ _ _
    · obtain ⟨rfl, hinputs⟩ := Prod.mk.inj h
      obtain rfl := some.inj hinputs
      exact hkept rfl (by simp)
  | ctrlAltDel =>
    obtain ⟨rfl, hinputs⟩ := Prod.mk.inj h
    obtain rfl := some.inj hinputs
    exact hkept rfl (by simp)
  | resize width height =>
    obtain ⟨rfl, hinputs⟩ := Prod.mk.inj h
    obtain rfl := some.inj hinputs
    exact hkept rfl (by simp)
  | connect | certificate | key | locks | reconnect =>
    obtain ⟨rfl, hinputs⟩ := Prod.mk.inj h
    obtain rfl := some.inj hinputs
    exact hkept rfl (by simp)

section Session

variable (drain : DrainOrder) (connect : Connect) (password : List Char) (width height : UInt16)

/-- The session after some messages. -/
def Session.after (messages : List ToHelper) : Session :=
  .run drain connect (.start connect password width height) messages

/-- The app has not ended the session. -/
def Live (messages : List ToHelper) : Prop := ToHelper.control .disconnect ∉ messages

variable {message : ToHelper} {messages : List ToHelper}

/-- A message before the end: what it sent, and what is remembered of it. -/
theorem inputsOf_live {driver : Driver} (h : message ≠ .control .disconnect) :
    ∃ next inputs, inputsOf drain connect driver message = (next, some inputs) := by
  cases message with
  | password text => exact ⟨_, _, rfl⟩
  | clipboard text => exact ⟨_, _, rfl⟩
  | control control =>
    cases control with
    | disconnect => exact absurd rfl h
    | button button pressed => cases button <;> exact ⟨_, _, rfl⟩
    | releaseAll =>
      rw [inputsOf, controlInputs]
      dsimp only
      split
      · exact ⟨_, _, rfl⟩
      · exact ⟨_, _, rfl⟩
    | _ => exact ⟨_, _, rfl⟩

theorem Live.of_append (h : Live (messages ++ [message])) :
    Live messages ∧ message ≠ .control .disconnect := by
  rw [Live, mem_append, not_or] at h
  exact ⟨h.1, fun heq => h.2 (heq ▸ mem_singleton_self _)⟩

theorem after_append (messages : List ToHelper) (message : ToHelper) :
    Session.after drain connect password width height (messages ++ [message]) =
      (Session.after drain connect password width height messages).handle drain connect
        message := by
  rw [Session.after, Session.run, foldl_append]
  rfl

theorem not_ended (h : Live messages) :
    (Session.after drain connect password width height messages).ended = false := by
  induction messages using List.reverseRecOn with
  | nil => rfl
  | append_singleton messages message ih =>
    obtain ⟨hlive, hmessage⟩ := h.of_append
    obtain ⟨next, inputs, hinputs⟩ := inputsOf_live drain connect hmessage
    rw [after_append, Session.handle, if_neg (by simp [ih hlive]), hinputs]

theorem after_live (h : Live (messages ++ [message])) :
    ∃ next inputs,
      inputsOf drain connect
        (Session.after drain connect password width height messages).driver message =
          (next, some inputs) ∧
      Session.after drain connect password width height (messages ++ [message]) =
        ⟨next, (Session.after drain connect password width height messages).sent ++ inputs,
          false⟩ := by
  obtain ⟨hlive, hmessage⟩ := h.of_append
  obtain ⟨next, inputs, hinputs⟩ := inputsOf_live drain connect hmessage
  have hended := not_ended drain connect password width height hlive
  refine ⟨next, inputs, hinputs, ?_⟩
  rw [after_append, Session.handle, if_neg (by simp [hended]), hinputs]

theorem buttonsTold_after (h : Live messages) :
    ButtonsTold (Session.after drain connect password width height messages).driver
      (Session.after drain connect password width height messages).sent := by
  induction messages using List.reverseRecOn with
  | nil =>
    have hnone : ∀ bit, ¬ ButtonDown bit
        (Session.after drain connect password width height []).sent := fun bit => by
      refine not_leftSet_of_forall ?_
      rintro event hmem ⟨buttons, x, y, rfl, -⟩
      change _ ∈ (Session.start connect password width height).sent at hmem
      rw [Session.start] at hmem
      dsimp only at hmem
      split at hmem
      · cases mem_singleton.mp hmem
      · cases hmem
    intro bit
    change ButtonDown bit _ ↔ (0 : Nat).testBit bit = true
    rw [Nat.zero_testBit]
    exact ⟨fun hdown => absurd hdown (hnone bit), fun hfalse => nomatch hfalse⟩
  | append_singleton messages message ih =>
    obtain ⟨next, inputs, hinputs, heq⟩ := after_live drain connect password width height h
    have htold := ih h.of_append.1
    rw [heq]
    cases message with
    | password text =>
      obtain ⟨rfl, hsent⟩ := Prod.mk.inj hinputs
      obtain rfl := some.inj hsent
      rw [List.append_nil]
      exact htold
    | clipboard text =>
      obtain ⟨rfl, hsent⟩ := Prod.mk.inj hinputs
      obtain rfl := some.inj hsent
      intro bit
      dsimp only
      rw [buttonDown_append_others _ (by split <;> simp), htold bit]
    | control control => exact buttonsTold_controlInputs drain hinputs htold

variable {drain connect password width height}

/-- A message that presses a key of the server. -/
def ToHelper.presses (message : ToHelper) (keysym : UInt32) : Prop :=
  ∃ control, message = .control control ∧ control.presses keysym

/-- A message that lets a key go. -/
def ToHelper.lifts (message : ToHelper) (remembered : Prop) (keysym : UInt32) : Prop :=
  ∃ control, message = .control control ∧ control.lifts remembered keysym

theorem keyDown_after (h : Live (messages ++ [message])) (keysym : UInt32) :
    KeyDown keysym
        (Session.after drain connect password width height (messages ++ [message])).sent ↔
      message.presses keysym ∨
        KeyDown keysym (Session.after drain connect password width height messages).sent ∧
          ¬ message.lifts
            (keysym ∈ (Session.after drain connect password width height messages).driver.keys)
            keysym := by
  obtain ⟨next, inputs, hinputs, heq⟩ := after_live drain connect password width height h
  rw [heq]
  dsimp only
  cases message with
  | password text =>
    obtain ⟨-, hsent⟩ := Prod.mk.inj hinputs
    obtain rfl := some.inj hsent
    simp [ToHelper.presses, ToHelper.lifts]
  | clipboard text =>
    obtain ⟨-, hsent⟩ := Prod.mk.inj hinputs
    obtain rfl := some.inj hsent
    rw [keyDown_append_others _ (by split <;> simp)]
    simp [ToHelper.presses, ToHelper.lifts]
  | control control =>
    rw [keyDown_controlInputs drain keysym hinputs]
    simp [ToHelper.presses, ToHelper.lifts]

theorem not_keyDown_start (keysym : UInt32) :
    ¬ KeyDown keysym (Session.after drain connect password width height []).sent := by
  refine not_leftSet_of_forall ?_
  rintro event hmem rfl
  change _ ∈ (Session.start connect password width height).sent at hmem
  rw [Session.start] at hmem
  dsimp only at hmem
  split at hmem
  · cases mem_singleton.mp hmem
  · cases hmem

theorem mem_keys_after (h : Live (messages ++ [message])) (keysym : UInt32) :
    keysym ∈ (Session.after drain connect password width height
        (messages ++ [message])).driver.keys ↔
      message = .control (.keysym keysym true) ∨
        keysym ∈ (Session.after drain connect password width height messages).driver.keys ∧
          message ≠ .control (.keysym keysym false) ∧ message ≠ .control .releaseAll := by
  obtain ⟨next, inputs, hinputs, heq⟩ := after_live drain connect password width height h
  rw [heq]
  dsimp only
  cases message with
  | password text =>
    obtain ⟨rfl, -⟩ := Prod.mk.inj hinputs
    simp
  | clipboard text =>
    obtain ⟨rfl, -⟩ := Prod.mk.inj hinputs
    simp
  | control control =>
    cases control with
    | disconnect => cases hinputs
    | keysym other pressed =>
      obtain ⟨rfl, -⟩ := Prod.mk.inj hinputs
      cases pressed with
      | true =>
        simp only [if_true, insertKey]
        split
        · rename_i hmem
          simp only [ToHelper.control.injEq, Control.keysym.injEq]
          constructor
          · exact fun hold => Or.inr ⟨hold, by simp, by simp⟩
          · rintro (⟨rfl, -⟩ | ⟨hold, -⟩)
            · exact hmem
            · exact hold
        · simp only [mem_append, mem_singleton, ToHelper.control.injEq, Control.keysym.injEq]
          constructor
          · rintro (hold | rfl)
            · exact Or.inr ⟨hold, by simp, by simp⟩
            · exact Or.inl ⟨rfl, trivial⟩
          · rintro (⟨rfl, -⟩ | ⟨hold, -⟩)
            · exact Or.inr rfl
            · exact Or.inl hold
      | false =>
        have hfilter : keysym ∈
            (if false = true then insertKey
              (Session.after drain connect password width height messages).driver.keys
              other
            else (Session.after drain connect password width height
              messages).driver.keys.filter (· ≠ other)) ↔
            keysym ∈ (Session.after drain connect password width height
              messages).driver.keys ∧ keysym ≠ other := by simp
        rw [hfilter]
        simp only [ToHelper.control.injEq, Control.keysym.injEq, ne_eq]
        constructor
        · rintro ⟨hold, hne⟩
          exact Or.inr ⟨hold, fun heq => hne heq.1.symm, by simp⟩
        · rintro (⟨-, hfalse⟩ | ⟨hold, hne, -⟩)
          · cases hfalse
          · exact ⟨hold, fun heq => hne ⟨heq.symm, trivial⟩⟩
    | unicode character pressed =>
      obtain ⟨rfl, -⟩ := Prod.mk.inj hinputs
      simp
    | button button pressed =>
      have hkeys : next.keys =
          (Session.after drain connect password width height messages).driver.keys := by
        rw [inputsOf, controlInputs] at hinputs
        split at hinputs <;> exact (congrArg Driver.keys (Prod.mk.inj hinputs).1).symm
      rw [hkeys]
      simp
    | releaseAll =>
      have hkeys : next.keys = [] := by
        rw [inputsOf, controlInputs] at hinputs
        dsimp only at hinputs
        split at hinputs <;> exact (congrArg Driver.keys (Prod.mk.inj hinputs).1).symm
      rw [hkeys]
      simp
    | _ =>
      obtain ⟨rfl, -⟩ := Prod.mk.inj hinputs
      simp

/-- The key was pressed by its keysym, and not released so since. -/
def Remembered (keysym : UInt32) (messages : List ToHelper) : Prop :=
  LeftSet (fun _ message => message = .control (.keysym keysym true))
    (fun _ message =>
      message = .control (.keysym keysym false) ∨ message = .control .releaseAll) messages

theorem mem_keys_iff (h : Live messages) (keysym : UInt32) :
    keysym ∈ (Session.after drain connect password width height messages).driver.keys ↔
      Remembered keysym messages := by
  have hstep : ∀ {before message}, Live (before ++ [message]) →
      (keysym ∈ (Session.after drain connect password width height
          (before ++ [message])).driver.keys ↔
        message = .control (.keysym keysym true) ∨
          keysym ∈ (Session.after drain connect password width height before).driver.keys ∧
            ¬ (message = .control (.keysym keysym false) ∨ message = .control .releaseAll)) := by
    intro before message hlive
    rw [mem_keys_after hlive, not_or]
  exact @held_iff_leftSet _ _ _
    (fun before =>
      keysym ∈ (Session.after drain connect password width height before).driver.keys) Live
    (fun hmem => not_mem_nil hmem) (fun hlive => hlive.of_append.1) hstep messages h

theorem keyDown_iff (h : Live messages) (keysym : UInt32) :
    KeyDown keysym (Session.after drain connect password width height messages).sent ↔
      LeftSet (fun _ message => message.presses keysym)
        (fun before message => message.lifts (Remembered keysym before) keysym)
        messages := by
  have hstep : ∀ {before message}, Live (before ++ [message]) →
      (KeyDown keysym
          (Session.after drain connect password width height (before ++ [message])).sent ↔
        message.presses keysym ∨
          KeyDown keysym (Session.after drain connect password width height before).sent ∧
            ¬ message.lifts (Remembered keysym before) keysym) := by
    intro before message hlive
    rw [keyDown_after hlive, mem_keys_iff hlive.of_append.1]
  exact @held_iff_leftSet _ _ _
    (fun before =>
      KeyDown keysym (Session.after drain connect password width height before).sent) Live
    (not_keyDown_start keysym)
    (fun hlive => hlive.of_append.1) hstep messages h

/-- A character pressed while its key is not remembered as down. -/
def PressesUnrecorded (keysym : UInt32) (before : List ToHelper) (message : ToHelper) : Prop :=
  (∃ character, message = .control (.unicode character true) ∧ ofChar character = keysym) ∧
    ¬ Remembered keysym before

/-- A key that is down on the server without being remembered was a character's, and
nothing since was about it. -/
theorem unrecorded_iff (h : Live messages) (keysym : UInt32) :
    (KeyDown keysym (Session.after drain connect password width height messages).sent ∧
      keysym ∉ (Session.after drain connect password width height messages).driver.keys) ↔
      LeftSet (PressesUnrecorded keysym)
        (fun _ message => ∃ control, message = .control control ∧ control.touches keysym)
        messages := by
  have hstep : ∀ {before message}, Live (before ++ [message]) →
      ((KeyDown keysym
            (Session.after drain connect password width height (before ++ [message])).sent ∧
          keysym ∉ (Session.after drain connect password width height
            (before ++ [message])).driver.keys) ↔
        PressesUnrecorded keysym before message ∨
          (KeyDown keysym (Session.after drain connect password width height before).sent ∧
            keysym ∉ (Session.after drain connect password width height before).driver.keys) ∧
            ¬ ∃ control, message = .control control ∧ control.touches keysym) := by
    intro before message hlive
    rw [keyDown_after hlive,
      mem_keys_after hlive, PressesUnrecorded,
      ← mem_keys_iff hlive.of_append.1]
    cases message with
    | password text => simp [ToHelper.presses, ToHelper.lifts]
    | clipboard text => simp [ToHelper.presses, ToHelper.lifts]
    | control control =>
      simp only [ToHelper.presses, ToHelper.lifts, ToHelper.control.injEq,
        exists_eq_left', Control.presses, Control.lifts, Control.touches, ne_eq]
      cases control with
      | keysym other pressed =>
        cases pressed with
        | true => simp; tauto
        | false => simp; tauto
      | unicode character pressed =>
        cases pressed with
        | true => simp; tauto
        | false => simp; tauto
      | ctrlAltDel => simp; tauto
      | releaseAll => simp
      | _ => simp
  exact @held_iff_leftSet _ _ _
    (fun before =>
      KeyDown keysym (Session.after drain connect password width height before).sent ∧
        keysym ∉ (Session.after drain connect password width height before).driver.keys)
    Live
    (fun hheld => not_keyDown_start keysym hheld.1)
    (fun hlive => hlive.of_append.1) hstep messages h

/-- The button was pressed, and not released since. -/
def Held (bit : Nat) (messages : List ToHelper) : Prop :=
  LeftSet
    (fun _ message => ∃ button mask, message = .control (.button button true) ∧
      buttonBit button = some mask ∧ mask.toNat.testBit bit = true)
    (fun _ message => (∃ button mask, message = .control (.button button false) ∧
      buttonBit button = some mask ∧ mask.toNat.testBit bit = true) ∨
      message = .control .releaseAll) messages

theorem testBit_buttons_or (buttons mask : UInt8) (bit : Nat) :
    (buttons ||| mask).toNat.testBit bit =
      (buttons.toNat.testBit bit || mask.toNat.testBit bit) := by
  rw [UInt8.toNat_or, Nat.testBit_or]

theorem testBit_buttons_without (buttons mask : UInt8) (bit : Nat) :
    (buttons &&& ~~~mask).toNat.testBit bit =
      (buttons.toNat.testBit bit && !mask.toNat.testBit bit) := by
  rw [← UInt8.toNat_toBitVec, UInt8.toBitVec_and, UInt8.toBitVec_not, BitVec.testBit_toNat,
    BitVec.getLsbD_and, BitVec.getLsbD_not, ← UInt8.toNat_toBitVec, BitVec.testBit_toNat,
    ← UInt8.toNat_toBitVec, BitVec.testBit_toNat]
  rcases Nat.lt_or_ge bit 8 with hlt | hge
  · simp [hlt]
  · rw [BitVec.getLsbD_of_ge buttons.toBitVec bit hge, Bool.false_and, Bool.false_and]

theorem buttons_after (h : Live (messages ++ [message])) (bit : Nat) :
    (Session.after drain connect password width height
        (messages ++ [message])).driver.pointer.buttons.toNat.testBit bit = true ↔
      (∃ button mask, message = .control (.button button true) ∧
        buttonBit button = some mask ∧ mask.toNat.testBit bit = true) ∨
        (Session.after drain connect password width height
          messages).driver.pointer.buttons.toNat.testBit bit = true ∧
          ¬ ((∃ button mask, message = .control (.button button false) ∧
            buttonBit button = some mask ∧ mask.toNat.testBit bit = true) ∨
            message = .control .releaseAll) := by
  obtain ⟨next, inputs, hinputs, heq⟩ := after_live drain connect password width height h
  rw [heq]
  dsimp only
  cases message with
  | password text =>
    obtain ⟨rfl, -⟩ := Prod.mk.inj hinputs
    simp
  | clipboard text =>
    obtain ⟨rfl, -⟩ := Prod.mk.inj hinputs
    simp
  | control control =>
    cases control with
    | disconnect => cases hinputs
    | button button pressed =>
      rw [inputsOf, controlInputs] at hinputs
      split at hinputs
      · rename_i hnone
        obtain ⟨rfl, -⟩ := Prod.mk.inj hinputs
        simp [hnone]
      · rename_i mask hmask
        obtain ⟨rfl, -⟩ := Prod.mk.inj hinputs
        cases pressed with
        | true =>
          dsimp only
          rw [if_pos rfl, testBit_buttons_or]
          simp [hmask, or_comm]
        | false =>
          dsimp only
          rw [if_neg Bool.false_ne_true, testBit_buttons_without]
          simp [hmask]
    | releaseAll =>
      have hbuttons : next.pointer.buttons = 0 := by
        rw [inputsOf, controlInputs] at hinputs
        dsimp only at hinputs
        split at hinputs
        · exact (congrArg (·.pointer.buttons) (Prod.mk.inj hinputs).1).symm
        · rename_i hzero
          rw [← (Prod.mk.inj hinputs).1]
          exact not_not.mp hzero
      rw [hbuttons]
      simp
    | _ =>
      obtain ⟨rfl, -⟩ := Prod.mk.inj hinputs
      simp

theorem testBit_buttons_iff (h : Live messages) (bit : Nat) :
    (Session.after drain connect password width height
        messages).driver.pointer.buttons.toNat.testBit bit = true ↔ Held bit messages := by
  exact @held_iff_leftSet _ _ _
    (fun before => (Session.after drain connect password width height
      before).driver.pointer.buttons.toNat.testBit bit = true) Live
    (fun hbit => by
      change (0 : Nat).testBit bit = true at hbit
      rw [Nat.zero_testBit] at hbit
      cases hbit)
    (fun hlive => hlive.of_append.1)
    (fun hlive => buttons_after hlive bit) messages h

/-- A character's key is down, was not remembered, and nothing since was about it. -/
def LeftByCharacter (keysym : UInt32) (messages : List ToHelper) : Prop :=
  LeftSet (PressesUnrecorded keysym)
    (fun _ message => ∃ control, message = .control control ∧ control.touches keysym)
    messages

/-- A key was pressed, and no message since let it go. -/
def LeftPressed (keysym : UInt32) (messages : List ToHelper) : Prop :=
  LeftSet (fun _ message => message.presses keysym)
    (fun before message => message.lifts (Remembered keysym before) keysym) messages

theorem released_releaseAll_iff (h : Live messages) :
    Released (Session.after drain connect password width height
        (messages ++ [.control .releaseAll])).sent ↔
      ∀ keysym, ¬ LeftByCharacter keysym messages := by
  have hlive : Live (messages ++ [.control .releaseAll]) := by
    rw [Live, mem_append, not_or]
    exact ⟨h, by simp⟩
  have hbuttons : ∀ bit, ¬ ButtonDown bit (Session.after drain connect password width height
      (messages ++ [.control .releaseAll])).sent := by
    intro bit
    rw [buttonsTold_after drain connect password width height hlive bit, buttons_after hlive]
    simp
  rw [released_iff_not_down, and_iff_left hbuttons]
  refine forall_congr' fun keysym => not_congr ?_
  rw [LeftByCharacter, ← @unrecorded_iff drain connect password width height _ h,
    keyDown_after hlive]
  simp [ToHelper.presses, ToHelper.lifts, Control.presses, Control.lifts]

/-- The end of the session sends nothing, so the app must have let go of everything. -/
theorem released_disconnect_iff (h : Live messages) :
    Released (Session.after drain connect password width height
        (messages ++ [.control .disconnect])).sent ↔
      (∀ keysym, ¬ LeftPressed keysym messages) ∧ ∀ bit, ¬ Held bit messages := by
  have hsent : (Session.after drain connect password width height
      (messages ++ [.control .disconnect])).sent =
      (Session.after drain connect password width height messages).sent := by
    rw [after_append, Session.handle,
      if_neg (by simp [not_ended drain connect password width height h])]
    rfl
  rw [hsent, released_iff_not_down]
  refine and_congr (forall_congr' fun keysym => not_congr ?_)
    (forall_congr' fun bit => not_congr ?_)
  · exact keyDown_iff h keysym
  · rw [buttonsTold_after drain connect password width height h bit, testBit_buttons_iff h]

/-- A read-only session presses nothing; any other writes all it was given. -/
theorem released_written_iff (events : List Input) :
    Released (written connect events) ↔ connect.readOnly = true ∨ Released events := by
  cases hreadOnly : connect.readOnly with
  | true =>
    have hresize : ∀ event ∈ written connect events, ∃ width height,
        event = .resize width height := by
      intro event hmem
      have hkept := (mem_filter.mp hmem).2
      cases event with
      | resize width height => exact ⟨width, height, rfl⟩
      | _ => simp [hreadOnly] at hkept
    have hreleased : Released (written connect events) := by
      constructor
      · intro before keysym after heq
        obtain ⟨_, _, hkey⟩ := hresize (.key keysym true) (by simp [heq])
        cases hkey
      · intro before buttons x y after bit heq
        obtain ⟨_, _, hpointer⟩ := hresize (.pointer buttons x y) (by simp [heq])
        cases hpointer
    simp [hreleased]
  | false =>
    have hall : written connect events = events := by
      refine List.filter_eq_self.mpr fun event _ => ?_
      cases event <;> simp [hreadOnly]
    rw [hall]
    simp

variable (drain connect password width height)

/-- After all keys and buttons were told to go up, and after the end of a session, all are
up exactly when no character left a key down and the app had let go of the rest itself. -/
theorem released_iff {messages : List ToHelper} (hlive : Live messages) :
    (Released (written connect (Session.after drain connect password width height
        (messages ++ [.control .releaseAll])).sent) ↔
      connect.readOnly = true ∨ ∀ keysym, ¬ LeftByCharacter keysym messages) ∧
    (Released (written connect (Session.after drain connect password width height
        (messages ++ [.control .disconnect])).sent) ↔
      connect.readOnly = true ∨
        (∀ keysym, ¬ LeftPressed keysym messages) ∧ ∀ bit, ¬ Held bit messages) := by
  constructor
  · rw [released_written_iff, released_releaseAll_iff hlive]
  · rw [released_written_iff, released_disconnect_iff hlive]

end Session

namespace ReleasedWitness

/-- Keys given up in the order they went down. -/
def inOrder : DrainOrder where
  order := id
  perm := fun keys => List.Perm.refl keys

def desktop : Connect where
  clipboard := true
  readOnly := false
  width := 1024
  height := 768

/-- A key pressed by its keysym goes up with all keys. -/
def pressed : List ToHelper := [.control (.keysym 0x61 true)]

/-- A character's key, pressed. -/
def typed : List ToHelper := [.control (.unicode 'a' true)]

theorem pressed_released :
    (Released (written desktop (Session.after inOrder desktop [] 1024 768
        (pressed ++ [.control .releaseAll])).sent) ↔
      desktop.readOnly = true ∨ ∀ keysym, ¬ LeftByCharacter keysym pressed) ∧
    (Released (written desktop (Session.after inOrder desktop [] 1024 768
        (pressed ++ [.control .disconnect])).sent) ↔
      desktop.readOnly = true ∨
        (∀ keysym, ¬ LeftPressed keysym pressed) ∧ ∀ bit, ¬ Held bit pressed) :=
  released_iff inOrder desktop [] 1024 768 (by simp [Live, pressed])

/-- The key of a character stays down after all keys were told to go up, and a key stays
down when the session ends. -/
theorem typed_not_released :
    (Session.after inOrder desktop [] 1024 768 (typed ++ [.control .releaseAll])).sent =
      [.key 0x61 true] ∧
    ¬ Released (written desktop (Session.after inOrder desktop [] 1024 768
        (typed ++ [.control .releaseAll])).sent) ∧
    ¬ Released (written desktop (Session.after inOrder desktop [] 1024 768
        (pressed ++ [.control .disconnect])).sent) := by
  have hdown : ¬ Released [.key 0x61 true] := fun hreleased =>
    List.not_mem_nil (hreleased.1 [] 0x61 [] rfl)
  have htyped : (Session.after inOrder desktop [] 1024 768
      (typed ++ [.control .releaseAll])).sent = [.key 0x61 true] := by decide
  have hpressed : (Session.after inOrder desktop [] 1024 768
      (pressed ++ [.control .disconnect])).sent = [.key 0x61 true] := by decide
  refine ⟨htyped, ?_, ?_⟩
  · rw [htyped]
    exact hdown
  · rw [hpressed]
    exact hdown

end ReleasedWitness

end Opensesh.Vnc
