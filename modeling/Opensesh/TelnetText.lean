/-
What is typed on a telnet connection, as it is sent, and as a connection that takes it apart
delivers it: commands and answers may come between, in any order and in any pieces.
-/
import Opensesh.TelnetTokens

namespace Opensesh.Telnet

open List

def LF : UInt8 := 10

/-- A connection, with whether the last byte typed on it was a CR. -/
structure Typing where
  nvt : Nvt
  typedCr : Bool

namespace Typing

def new (term : List UInt8) (size : TermSize) : Typing := ⟨Nvt.new term size, false⟩

/-- One typed byte, ready for the server. -/
def encodeByte (binary typedCr : Bool) (byte : UInt8) : List UInt8 :=
  if byte = IAC then [IAC, IAC]
  else if byte = CR ∧ !binary then [CR, LF]
  else if byte = LF ∧ !binary ∧ typedCr then []
  else [byte]

/-- What the user typed, ready for the server. -/
def encode (typing : Typing) : List UInt8 → Typing × List UInt8
  | [] => (typing, [])
  | byte :: rest =>
    let others := encode { typing with typedCr := byte = CR } rest
    (others.1, encodeByte (typing.nvt.ours BINARY) typing.typedCr byte ++ others.2)

/-- The terminal's new size, and what to tell the server of it. -/
def resize (typing : Typing) (size : TermSize) : Typing × List UInt8 :=
  let nvt := { typing.nvt with size }
  ({ typing with nvt }, if nvt.ours NAWS then nvt.windowSize else [])

/-- What a connection does: the user types, bytes come in, or the terminal changes its size. -/
inductive Event where
  | typed (bytes : List UInt8)
  | heard (bytes : List UInt8)
  | resized (size : TermSize)

def Event.isTyped : Event → Bool
  | .typed _ => true
  | _ => false

/-- What is sent for one event. -/
def step (typing : Typing) : Event → Typing × List UInt8
  | .typed bytes => typing.encode bytes
  | .heard bytes =>
    let received := typing.nvt.receive bytes
    ({ typing with nvt := received.1 }, received.2.reply)
  | .resized size => typing.resize size

def run (typing : Typing) : List Event → Typing × List UInt8
  | [] => (typing, [])
  | event :: rest =>
    let first := typing.step event
    let others := first.1.run rest
    (others.1, first.2 ++ others.2)

/-- The bytes that are typed, each with whether it is in binary mode. -/
def typed (typing : Typing) : List Event → List (Bool × UInt8)
  | [] => []
  | .typed bytes :: rest =>
    bytes.map (fun byte => (typing.nvt.ours BINARY, byte)) ++
      (typing.step (.typed bytes)).1.typed rest
  | event :: rest => (typing.step event).1.typed rest

/-- What is sent when nothing is typed. -/
def answers (typing : Typing) (events : List Event) : List UInt8 :=
  (typing.run (events.filter fun event => !event.isTyped)).2

end Typing

/-- Takes bytes apart that come in pieces. -/
def Nvt.receiveAll (nvt : Nvt) : List (List UInt8) → Nvt × Received
  | [] => (nvt, {})
  | piece :: rest =>
    let first := nvt.receive piece
    let others := first.1.receiveAll rest
    (others.1, first.2.append others.2)

/-- Typed bytes under the rules for line ends: outside binary mode a CR, with the LF right after
it if there is one, is CR LF. -/
def lineEnds : List (Bool × UInt8) → List UInt8
  | [] => []
  | (binary, byte) :: rest =>
    if byte = CR ∧ !binary then
      match rest with
      | (false, 10) :: others => CR :: LF :: lineEnds others
      | others => CR :: LF :: lineEnds others
    else byte :: lineEnds rest

/-- An LF that is typed outside binary mode right after a CR in it. -/
def Split (typed : List (Bool × UInt8)) : Prop :=
  ∃ before after, typed = before ++ (true, CR) :: (false, LF) :: after

/-- What was typed reaches the other end, and nothing else comes of it there: it is left, and
answers, as if nothing had been typed. -/
structure Carried (typing : Typing) (events : List Typing.Event) (peer : Nvt)
    (pieces : List (List UInt8)) : Prop where
  data : (peer.receiveAll pieces).2.data = lineEnds (typing.typed events)
  quiet : (peer.receive (typing.answers events)).2.data = []
  unanswered : (peer.receiveAll pieces).2.reply = (peer.receive (typing.answers events)).2.reply
  unmoved : (peer.receiveAll pieces).1 = (peer.receive (typing.answers events)).1

theorem Received.append_assoc (first second third : Received) :
    (first.append second).append third = first.append (second.append third) := by
  rw [append, append, append, append, List.append_assoc, List.append_assoc]

theorem Received.nil_append (received : Received) : Received.append {} received = received := rfl

theorem Received.append_nil (received : Received) : received.append {} = received := by
  rw [append, List.append_nil, List.append_nil]

theorem Nvt.receive_append (nvt : Nvt) (first second : List UInt8) :
    nvt.receive (first ++ second) =
      (((nvt.receive first).1.receive second).1,
        (nvt.receive first).2.append ((nvt.receive first).1.receive second).2) := by
  induction first generalizing nvt with
  | nil => rfl
  | cons byte first ih =>
    rw [cons_append, receive, receive, ih]
    dsimp only
    rw [Received.append_assoc]

/-- However the bytes are cut, they are taken apart the same. -/
theorem Nvt.receiveAll_eq (nvt : Nvt) (pieces : List (List UInt8)) :
    nvt.receiveAll pieces = nvt.receive pieces.flatten := by
  induction pieces generalizing nvt with
  | nil => rfl
  | cons piece pieces ih => rw [receiveAll, flatten_cons, receive_append, ih]

/-- What is sent of one typed byte, before a 255 is doubled. -/
def textByte (binary typedCr : Bool) (byte : UInt8) : List UInt8 :=
  if byte = CR ∧ !binary then [CR, LF]
  else if byte = LF ∧ !binary ∧ typedCr then []
  else [byte]

def sentText (typedCr : Bool) : List (Bool × UInt8) → List UInt8
  | [] => []
  | (binary, byte) :: rest => textByte binary typedCr byte ++ sentText (byte = CR) rest

variable {nvt peer nvt' : Nvt} {byte : UInt8} {typing : Typing} {binary : Bool}

theorem receive_plain (hstate : nvt.state = .data) (hiac : byte ≠ IAC)
    (hcr : ¬ (byte = CR ∧ !nvt.theirs BINARY)) : nvt.receive [byte] = (nvt, ⟨[byte], []⟩) := by
  have hsame : { nvt with state := .data } = nvt := by rw [← hstate]
  have hbyte : nvt.receiveByte byte = (nvt, ⟨[byte], []⟩) := by
    rw [Nvt.receiveByte, hstate]
    dsimp only
    rw [Nvt.text, if_neg hiac, if_neg (by rw [hstate]; simp), if_neg (by exact hcr), hsame]
  rw [Nvt.receive, hbyte]
  rfl

theorem receive_cr (hstate : nvt.state = .data) (hbinary : nvt.theirs BINARY = false) :
    nvt.receive [CR, LF] = (nvt, ⟨[CR, LF], []⟩) := by
  have hsame : { nvt with state := .data } = nvt := by rw [← hstate]
  have hcr : nvt.receiveByte CR = ({ nvt with state := .cr }, ⟨[CR], []⟩) := by
    rw [Nvt.receiveByte, hstate]
    dsimp only
    rw [Nvt.text, if_neg (by decide), if_neg (by rw [hstate]; simp),
      if_pos ⟨rfl, by simpa using hbinary⟩]
  have hlf : { nvt with state := .cr }.receiveByte LF = (nvt, ⟨[LF], []⟩) := by
    rw [Nvt.receiveByte]
    dsimp only
    rw [Nvt.text, if_neg (by decide), if_neg (by simp [LF]), if_neg (by simp [LF, CR])]
    exact congrArg (·, _) hsame
  rw [Nvt.receive, hcr]
  dsimp only
  rw [Nvt.receive, hlf]
  rfl

theorem receive_iac (hstate : nvt.state = .data) : nvt.receive [IAC, IAC] = (nvt, ⟨[IAC], []⟩) := by
  have hsame : { nvt with state := .data } = nvt := by rw [← hstate]
  have hfirst : nvt.receiveByte IAC = ({ nvt with state := .iac }, {}) := by
    rw [Nvt.receiveByte, hstate]
    rfl
  have hsecond : { nvt with state := .iac }.receiveByte IAC = (nvt, ⟨[IAC], []⟩) := by
    rw [Nvt.receiveByte]
    dsimp only
    rw [if_pos rfl]
    exact congrArg (·, _) hsame
  rw [Nvt.receive, hfirst]
  dsimp only
  rw [Nvt.receive, hsecond]
  rfl

theorem receive_encodeByte {nvt : Nvt} (hstate : nvt.state = .data) (typedCr : Bool)
    (byte : UInt8) : nvt.receive (Typing.encodeByte (nvt.theirs BINARY) typedCr byte) =
      (nvt, ⟨textByte (nvt.theirs BINARY) typedCr byte, []⟩) := by
  rw [Typing.encodeByte, textByte]
  by_cases hiac : byte = IAC
  · subst hiac
    rw [if_pos rfl, if_neg (by simp [IAC, CR]), if_neg (by simp [IAC, LF])]
    exact receive_iac hstate
  · rw [if_neg hiac]
    split
    · rename_i hcr
      exact receive_cr hstate (by simpa using hcr.2)
    · rename_i hcr
      split
      · rfl
      · exact receive_plain hstate hiac hcr

theorem receive_encode (hstate : nvt.state = .data)
    (hmode : nvt.theirs BINARY = typing.nvt.ours BINARY) (bytes : List UInt8) :
    nvt.receive (typing.encode bytes).2 =
      (nvt, ⟨sentText typing.typedCr (bytes.map (typing.nvt.ours BINARY, ·)), []⟩) := by
  induction bytes generalizing typing with
  | nil => rfl
  | cons byte rest ih =>
    have hrest := @ih ⟨typing.nvt, byte = CR⟩ hmode
    rw [Typing.encode, Nvt.receive_append, ← hmode, receive_encodeByte hstate]
    dsimp only
    rw [hrest, hmode]
    rfl

theorem encode_nvt (typing : Typing) (bytes : List UInt8) :
    (typing.encode bytes).1.nvt = typing.nvt := by
  induction bytes generalizing typing with
  | nil => rfl
  | cons byte rest ih => exact ih ⟨typing.nvt, byte = CR⟩

/-- A connection that has read all that was sent to it, and knows whether it is in binary mode. -/
structure InStep (nvt peer : Nvt) : Prop where
  state : peer.state = .data
  mode : peer.theirs BINARY = nvt.ours BINARY

/-- What is sent is read without text coming of it, and leaves the other end in step. -/
def Follows (nvt peer : Nvt) (sent : List UInt8) : Prop :=
  ∃ peer' reply, peer.receive sent = (peer', ⟨[], reply⟩) ∧ InStep nvt peer'

theorem Follows.nil (h : InStep nvt peer) : Follows nvt peer [] := ⟨peer, [], rfl, h⟩

theorem Follows.append {first second : Nvt} {sent others : List UInt8} (h : Follows first peer sent)
    (hothers : ∀ peer', InStep first peer' → Follows second peer' others) :
    Follows second peer (sent ++ others) := by
  obtain ⟨peer', reply, hreceive, hstep⟩ := h
  obtain ⟨last, more, hmore, hlast⟩ := hothers peer' hstep
  refine ⟨last, reply ++ more, ?_, hlast⟩
  rw [Nvt.receive_append, hreceive]
  dsimp only
  rw [hmore]
  rfl

theorem receive_cons (nvt : Nvt) (byte : UInt8) (rest : List UInt8) : nvt.receive (byte :: rest) =
    (((nvt.receiveByte byte).1.receive rest).1,
      (nvt.receiveByte byte).2.append ((nvt.receiveByte byte).1.receive rest).2) := rfl

theorem receiveByte_iac (hstate : nvt.state = .data) :
    nvt.receiveByte IAC = ({ nvt with state := .iac }, {}) := by
  rw [Nvt.receiveByte, hstate]
  rfl

theorem receive_command (hstate : nvt.state = .data) (command : Command) :
    nvt.receive command.bytes = ((nvt.negotiate command.verb command.code).1,
      ⟨[], (nvt.negotiate command.verb command.code).2⟩) := by
  have hsame : { nvt with state := .data } = nvt := by rw [← hstate]
  have hverb : { nvt with state := .iac }.receiveByte command.verb =
      ({ nvt with state := .negotiate command.verb }, {}) := by
    rw [Nvt.receiveByte]
    dsimp only
    rw [if_neg (verb_ne_iac command), if_pos (verb_is_verb command)]
  have hcode : { nvt with state := .negotiate command.verb }.receiveByte command.code =
      ((nvt.negotiate command.verb command.code).1,
        ⟨[], (nvt.negotiate command.verb command.code).2⟩) := by
    rw [Nvt.receiveByte]
    dsimp only
    rw [hsame]
  rw [Command.bytes, receive_cons, receiveByte_iac hstate]
  dsimp only
  rw [receive_cons, hverb]
  dsimp only
  rw [receive_cons, hcode]
  dsimp only
  rw [Nvt.receive, Received.nil_append, Received.nil_append, Received.append_nil]

/-- What has been read of a subnegotiation that asks for nothing. -/
def Unasked (sub : List UInt8) : Prop := sub[0]? = some NAWS ∨ sub[1]? = some TTYPE_IS

theorem Unasked.append {sub : List UInt8} (h : Unasked sub) (bytes : List UInt8) :
    Unasked (sub ++ bytes) := by
  have hsome : ∀ (index : Nat) (byte : UInt8), sub[index]? = some byte →
      (sub ++ bytes)[index]? = some byte := by
    intro index byte hbyte
    obtain ⟨hlt, -⟩ := List.getElem?_eq_some_iff.mp hbyte
    rw [List.getElem?_append_left hlt, hbyte]
  exact h.imp (hsome 0 NAWS) (hsome 1 TTYPE_IS)

theorem Unasked.keep {nvt : Nvt} (h : Unasked nvt.sub) (byte : UInt8) :
    Unasked (nvt.keep byte).sub := by
  rw [Nvt.keep]
  split
  · exact h.append [byte]
  · exact h

theorem Unasked.ne {sub : List UInt8} (h : Unasked sub) : sub ≠ [TTYPE, TTYPE_SEND] := by
  rintro rfl
  rcases h with h | h
  · exact absurd h (by decide)
  · exact absurd h (by decide)

theorem cleared_keep (nvt : Nvt) (byte : UInt8) :
    { nvt.keep byte with state := .data, sub := [] } = { nvt with state := .data, sub := [] } := by
  rw [Nvt.keep]
  split
  · rfl
  · rfl

/-- The rest of a subnegotiation that asks for nothing is read, and that is all. -/
theorem receive_tail {state : State} {bytes : List UInt8} (htail : Tail state bytes)
    (hstate : nvt.state = state) (h : Unasked nvt.sub) :
    nvt.receive bytes = ({ nvt with state := .data, sub := [] }, {}) := by
  induction htail generalizing nvt with
  | @plain byte rest hplain _ ih =>
    have hbyte : nvt.receiveByte byte = (nvt.keep byte, {}) := by
      rw [Nvt.receiveByte, hstate]
      dsimp only
      rw [if_neg hplain]
    rw [receive_cons, hbyte]
    dsimp only
    rw [ih ((state_keep nvt byte).trans hstate) (h.keep byte), cleared_keep]
    rfl
  | doubled _ ih =>
    have hbyte : nvt.receiveByte IAC = ({ nvt with state := .subIac }, {}) := by
      rw [Nvt.receiveByte, hstate]
      rfl
    rw [receive_cons, hbyte]
    dsimp only
    rw [@ih { nvt with state := .subIac } rfl h]
    rfl
  | second _ ih =>
    have hbyte : nvt.receiveByte IAC = ({ nvt with state := .sub }.keep IAC, {}) := by
      rw [Nvt.receiveByte, hstate]
      rfl
    rw [receive_cons, hbyte]
    dsimp only
    rw [ih (state_keep { nvt with state := .sub } IAC)
      (@Unasked.keep { nvt with state := .sub } h _), cleared_keep]
    rfl
  | close _ ih =>
    have hbyte : nvt.receiveByte IAC = ({ nvt with state := .subIac }, {}) := by
      rw [Nvt.receiveByte, hstate]
      rfl
    rw [receive_cons, hbyte]
    dsimp only
    rw [@ih { nvt with state := .subIac } rfl h]
    rfl
  | last =>
    have hbyte : nvt.receiveByte SE = ({ nvt with state := .data, sub := [] }, {}) := by
      rw [Nvt.receiveByte, hstate]
      dsimp only
      rw [if_pos rfl, Nvt.subnegotiation]
      dsimp only
      rw [if_neg fun hasked => h.ne hasked.1]
    rw [receive_cons, hbyte]
    rfl

theorem receive_opened (hstate : nvt.state = .data) (rest : List UInt8) :
    nvt.receive (IAC :: SB :: rest) = { nvt with state := .sub, sub := [] }.receive rest := by
  have hopen : { nvt with state := .iac }.receiveByte SB =
      ({ nvt with state := .sub, sub := [] }, {}) := rfl
  rw [receive_cons, receiveByte_iac hstate]
  dsimp only
  rw [receive_cons, hopen]
  rfl

theorem receive_kept (hstate : nvt.state = .sub) (hplain : byte ≠ IAC)
    (hroom : nvt.sub.length < MAX_SUBNEGOTIATION) (rest : List UInt8) :
    nvt.receive (byte :: rest) = { nvt with sub := nvt.sub ++ [byte] }.receive rest := by
  have hbyte : nvt.receiveByte byte = ({ nvt with sub := nvt.sub ++ [byte] }, {}) := by
    rw [Nvt.receiveByte, hstate]
    dsimp only
    rw [if_neg hplain, Nvt.keep, if_pos hroom, hstate]
  rw [receive_cons, hbyte]
  rfl

theorem receive_windowSize (hstate : nvt.state = .data) (size : TermSize) :
    nvt.receive (Nvt.new [] size).windowSize = ({ nvt with state := .data, sub := [] }, {}) := by
  obtain ⟨body, htail, hwindow⟩ := windowSize_eq size
  rw [hwindow, receive_opened hstate, receive_kept rfl (by decide) (by simp [MAX_SUBNEGOTIATION]),
    receive_tail htail rfl (Or.inl rfl)]

theorem tail_plain {body : List UInt8} (h : ∀ byte ∈ body, byte ≠ IAC) :
    Tail .sub (body ++ [IAC, SE]) := by
  induction body with
  | nil => exact .close .last
  | cons byte body ih =>
    rw [forall_mem_cons] at h
    exact .plain h.1 (ih h.2)

/-- The answer to a question for the terminal's type. -/
def terminalType (term : List UInt8) : List UInt8 :=
  [IAC, SB, TTYPE, TTYPE_IS] ++ (term.map Nvt.toAsciiUppercase).filter (· ≠ IAC) ++ [IAC, SE]

theorem receive_terminalType (hstate : nvt.state = .data) (term : List UInt8) :
    nvt.receive (terminalType term) = ({ nvt with state := .data, sub := [] }, {}) := by
  have htail : Tail .sub ((term.map Nvt.toAsciiUppercase).filter (· ≠ IAC) ++ [IAC, SE]) := by
    refine tail_plain fun byte hbyte => ?_
    simpa using (mem_filter.mp hbyte).2
  have hterminal : terminalType term = IAC :: SB :: TTYPE :: TTYPE_IS ::
      ((term.map Nvt.toAsciiUppercase).filter (· ≠ IAC) ++ [IAC, SE]) := rfl
  rw [hterminal, receive_opened hstate,
    receive_kept rfl (by decide) (by simp [MAX_SUBNEGOTIATION]),
    receive_kept rfl (by decide) (by simp [MAX_SUBNEGOTIATION]),
    receive_tail htail rfl (Or.inr rfl)]

theorem answers_register {register register' : Kind → UInt8 → Bool} {command : Command}
    {replies : List Token} (h : Answers register command register' replies) {kind : Kind}
    {code : UInt8} (hallowed : code ∈ kind.allowed) :
    register' kind code =
      if kind = command.kind ∧ code = command.code then command.on else register kind code := by
  cases h with
  | refused hon hcode =>
    rw [if_neg]
    rintro ⟨rfl, rfl⟩
    exact hcode hallowed
  | same hsame =>
    split
    · rename_i hsubject
      rw [hsubject.1, hsubject.2, hsame]
    · rfl
  | changed hchanged hcode hsizes =>
    split
    · rename_i hsubject
      rw [hsubject.1, hsubject.2, setRegister_self]
    · rename_i hother
      exact setRegister_of_ne hother

theorem follows_command (h : InStep nvt peer) (command : Command)
    (hmode : nvt'.ours BINARY =
      if command.kind = .theirs ∧ command.code = BINARY then command.on else nvt.ours BINARY) :
    Follows nvt' peer command.bytes := by
  obtain ⟨replies, hanswers, -, hstate⟩ := negotiate_answered peer command
  have htheirs : (peer.negotiate command.verb command.code).1.theirs BINARY =
      if Kind.theirs = command.kind ∧ BINARY = command.code then command.on
      else peer.theirs BINARY :=
    @answers_register _ _ _ _ hanswers .theirs BINARY (by decide)
  refine ⟨_, _, receive_command h.state command, hstate.trans h.state, ?_⟩
  rw [htheirs, hmode, h.mode]
  simp only [eq_comm]

theorem follows_sizes (h : InStep nvt peer) (sizes : List TermSize) :
    Follows nvt peer (encodeAll (sizes.map .size)) := by
  induction sizes generalizing peer with
  | nil => exact .nil h
  | cons size sizes ih =>
    have hfirst : Follows nvt peer (Nvt.new [] size).windowSize :=
      ⟨_, _, receive_windowSize h.state size, rfl, h.mode⟩
    exact hfirst.append fun peer' hstep => ih hstep

theorem follows_answers {command : Command} {replies : List Token}
    (hanswers : Answers nvt.register command nvt'.register replies) (h : InStep nvt peer) :
    Follows nvt' peer (encodeAll replies) := by
  have hours : nvt'.ours BINARY =
      if Kind.ours = command.kind ∧ BINARY = command.code then command.on else nvt.ours BINARY :=
    @answers_register _ _ _ _ hanswers .ours BINARY (by decide)
  generalize hregister : nvt'.register = register' at hanswers
  cases hanswers with
  | refused hon hcode =>
    have hsame : nvt'.ours = nvt.ours := congrFun hregister .ours
    have hfirst : Follows nvt' peer (Command.mk command.kind.other false command.code).bytes := by
      refine follows_command h _ ?_
      rw [hsame, if_neg]
      rintro ⟨hkind, hbinary⟩
      dsimp only at hkind hbinary
      rw [hbinary] at hcode
      cases hown : command.kind with
      | theirs => rw [hown] at hkind; cases hkind
      | ours => rw [hown] at hcode; exact hcode (by decide)
    exact hfirst.append fun peer' hstep => .nil hstep
  | same hsame =>
    have hsame : nvt'.ours = nvt.ours := congrFun hregister .ours
    exact .nil ⟨h.state, by rw [hsame]; exact h.mode⟩
  | @changed sizes hchanged hcode hsizes =>
    have hfirst : Follows nvt' peer
        (Command.mk command.kind.other command.on command.code).bytes := by
      refine follows_command h _ ?_
      rw [hours]
      cases command.kind <;> simp [Kind.other, eq_comm]
    exact hfirst.append fun peer' hstep => follows_sizes hstep sizes

theorem keep_ours (nvt : Nvt) (byte : UInt8) : (nvt.keep byte).ours = nvt.ours := by
  rw [Nvt.keep]
  split
  · rfl
  · rfl

/-- A byte that is no end of a command or a subnegotiation is not answered. -/
theorem follows_quiet (h : InStep nvt peer) (hours : nvt'.ours = nvt.ours) : Follows nvt' peer [] :=
  .nil ⟨h.state, by rw [hours]; exact h.mode⟩

theorem follows_negotiate (h : InStep nvt peer) (verb code : UInt8) :
    Follows (nvt.negotiate verb code).1 peer (nvt.negotiate verb code).2 := by
  have hverb : (∃ command : Command, command.verb = verb ∧ command.code = code) ∨
      nvt.negotiate verb code = (nvt, []) := by
    by_cases hwill : verb = WILL
    · exact Or.inl ⟨⟨.theirs, true, code⟩, hwill.symm, rfl⟩
    by_cases hwont : verb = WONT
    · exact Or.inl ⟨⟨.theirs, false, code⟩, hwont.symm, rfl⟩
    by_cases hdo : verb = DO
    · exact Or.inl ⟨⟨.ours, true, code⟩, hdo.symm, rfl⟩
    by_cases hdont : verb = DONT
    · exact Or.inl ⟨⟨.ours, false, code⟩, hdont.symm, rfl⟩
    · refine Or.inr ?_
      rw [Nvt.negotiate, if_neg hwill, if_neg hwont, if_neg hdo, if_neg hdont]
  rcases hverb with ⟨command, rfl, rfl⟩ | hnone
  · obtain ⟨replies, hanswers, hreply, -⟩ := negotiate_answered nvt command
    rw [hreply]
    exact follows_answers hanswers h
  · rw [hnone]
    exact .nil h

theorem follows_subnegotiation (h : InStep nvt peer) :
    Follows nvt.subnegotiation.1 peer nvt.subnegotiation.2 := by
  rw [Nvt.subnegotiation]
  dsimp only
  split
  · have hanswer : peer.receive (terminalType nvt.term) =
        ({ peer with state := .data, sub := [] }, {}) := receive_terminalType h.state nvt.term
    exact ⟨_, [], hanswer, rfl, h.mode⟩
  · exact .nil ⟨h.state, h.mode⟩

theorem follows_receiveByte (h : InStep nvt peer) (byte : UInt8) :
    Follows (nvt.receiveByte byte).1 peer (nvt.receiveByte byte).2.reply := by
  have hdata : InStep { nvt with state := .data } peer := ⟨h.state, h.mode⟩
  have htext : Follows (nvt.text byte).1 peer (nvt.text byte).2.reply := by
    rw [Nvt.text]
    dsimp only
    split
    · exact follows_quiet h rfl
    · split
      · exact follows_quiet h rfl
      · split
        · exact follows_quiet h rfl
        · exact follows_quiet h rfl
  rw [Nvt.receiveByte]
  cases nvt.state with
  | data => exact htext
  | cr => exact htext
  | iac =>
    dsimp only
    split
    · exact follows_quiet h rfl
    · split
      · exact follows_quiet h rfl
      · split
        · exact follows_quiet h rfl
        · exact follows_quiet h rfl
  | negotiate verb => exact follows_negotiate hdata verb byte
  | sub =>
    dsimp only
    split
    · exact follows_quiet h rfl
    · exact follows_quiet h (keep_ours nvt byte)
  | subIac =>
    dsimp only
    split
    · exact follows_subnegotiation hdata
    · split
      · exact follows_quiet h (keep_ours _ _)
      · exact follows_quiet h rfl

theorem follows_receive (h : InStep nvt peer) (bytes : List UInt8) :
    Follows (nvt.receive bytes).1 peer (nvt.receive bytes).2.reply := by
  induction bytes generalizing nvt peer with
  | nil => exact .nil h
  | cons byte rest ih => exact (follows_receiveByte h byte).append fun peer' hstep => ih hstep

theorem follows_resize (h : InStep typing.nvt peer) (size : TermSize) :
    Follows (typing.resize size).1.nvt peer (typing.resize size).2 := by
  rw [Typing.resize]
  dsimp only
  split
  · exact ⟨_, [], receive_windowSize h.state size, rfl, h.mode⟩
  · exact .nil ⟨h.state, h.mode⟩

theorem sentText_encode (typing : Typing) (binary : Bool) (bytes : List UInt8)
    (rest : List (Bool × UInt8)) :
    sentText typing.typedCr (bytes.map (binary, ·) ++ rest) =
      sentText typing.typedCr (bytes.map (binary, ·)) ++
        sentText (typing.encode bytes).1.typedCr rest := by
  induction bytes generalizing typing with
  | nil => rfl
  | cons byte bytes ih =>
    have hrest := ih ⟨typing.nvt, byte = CR⟩
    rw [map_cons, cons_append, sentText, sentText, hrest, List.append_assoc]
    rfl

theorem run_congr {first second : Typing} (hnvt : first.nvt = second.nvt)
    {events : List Typing.Event} (h : ∀ event ∈ events, event.isTyped = false) :
    (first.run events).2 = (second.run events).2 := by
  induction events generalizing first second with
  | nil => rfl
  | cons event rest ih =>
    rw [forall_mem_cons] at h
    have hstep : (first.step event).1.nvt = (second.step event).1.nvt ∧
        (first.step event).2 = (second.step event).2 := by
      cases event with
      | typed bytes => cases h.1
      | heard bytes =>
        rw [Typing.step, Typing.step, hnvt]
        exact ⟨rfl, rfl⟩
      | resized size =>
        rw [Typing.step, Typing.step, Typing.resize, Typing.resize, hnvt]
        exact ⟨rfl, rfl⟩
    rw [Typing.run, Typing.run, hstep.2]
    dsimp only
    rw [ih hstep.1 h.2]

theorem answers_typed (typing : Typing) (bytes : List UInt8) (rest : List Typing.Event) :
    typing.answers (.typed bytes :: rest) = (typing.encode bytes).1.answers rest := by
  refine run_congr (encode_nvt typing bytes).symm fun event hevent => ?_
  simpa using (mem_filter.mp hevent).2

theorem receive_run (h : InStep typing.nvt peer) (events : List Typing.Event) : ∃ peer' reply,
      peer.receive (typing.run events).2 =
        (peer', ⟨sentText typing.typedCr (typing.typed events), reply⟩) ∧
      peer.receive (typing.answers events) = (peer', ⟨[], reply⟩) := by
  induction events generalizing typing peer with
  | nil => exact ⟨peer, [], rfl, rfl⟩
  | cons event rest ih =>
    have hanswered : ∀ {next : Typing} {sent : List UInt8}, typing.step event = (next, sent) →
        Follows next.nvt peer sent → next.typedCr = typing.typedCr →
        typing.typed (event :: rest) = next.typed rest →
        typing.answers (event :: rest) = sent ++ next.answers rest →
        ∃ peer' reply, peer.receive (typing.run (event :: rest)).2 =
            (peer', ⟨sentText typing.typedCr (typing.typed (event :: rest)), reply⟩) ∧
          peer.receive (typing.answers (event :: rest)) = (peer', ⟨[], reply⟩) := by
      intro next sent hstep hfollows hcr htyped hanswers
      obtain ⟨peer', reply, hreceive, hin⟩ := hfollows
      obtain ⟨last, others, hall, hquiet⟩ := ih hin
      refine ⟨last, reply ++ others, ?_, ?_⟩
      · rw [Typing.run, hstep, Nvt.receive_append, hreceive]
        dsimp only
        rw [hall, hcr, htyped]
        rfl
      · rw [hanswers, Nvt.receive_append, hreceive]
        dsimp only
        rw [hquiet]
        rfl
    cases event with
    | typed bytes =>
      have hin : InStep (typing.encode bytes).1.nvt peer := by rwa [encode_nvt]
      obtain ⟨last, reply, hall, hquiet⟩ := ih hin
      refine ⟨last, reply, ?_, ?_⟩
      · rw [Typing.run, Typing.step, Nvt.receive_append, receive_encode h.state h.mode]
        dsimp only
        rw [hall, Typing.typed, sentText_encode]
        rfl
      · rw [answers_typed, hquiet]
    | heard bytes => exact hanswered rfl (follows_receive h bytes) rfl rfl rfl
    | resized size => exact hanswered rfl (follows_resize h size) rfl rfl rfl

theorem lineEnds_pair (rest : List (Bool × UInt8)) :
    lineEnds ((false, CR) :: (false, LF) :: rest) = CR :: LF :: lineEnds rest := rfl

theorem lineEnds_cr {rest : List (Bool × UInt8)} (h : rest.head? ≠ some (false, LF)) :
    lineEnds ((false, CR) :: rest) = CR :: LF :: lineEnds rest := by
  rw [lineEnds, if_pos ⟨rfl, rfl⟩]
  rintro others rfl
  exact h rfl

theorem lineEnds_other (h : ¬ (byte = CR ∧ !binary)) (rest : List (Bool × UInt8)) :
    lineEnds ((binary, byte) :: rest) = byte :: lineEnds rest := by
  rw [lineEnds.eq_def]
  exact if_neg h

theorem sentText_head {rest : List (Bool × UInt8)} (h : rest.head? ≠ some (false, LF))
    (typedCr : Bool) : sentText typedCr rest = sentText false rest := by
  cases rest with
  | nil => rfl
  | cons first rest =>
    obtain ⟨binary, byte⟩ := first
    have hlf : ¬ (byte = LF ∧ !binary) := by
      rintro ⟨rfl, hbinary⟩
      rw [Bool.not_eq_true'] at hbinary
      rw [hbinary] at h
      exact h rfl
    have hbyte : textByte binary typedCr byte = textByte binary false byte := by
      rw [textByte, textByte]
      split
      · rfl
      · rw [if_neg fun hall => hlf ⟨hall.1, hall.2.1⟩, if_neg fun hall => hlf ⟨hall.1, hall.2.1⟩]
    rw [sentText, sentText, hbyte]

theorem sentText_cr (typedCr : Bool) (rest : List (Bool × UInt8)) :
    sentText typedCr ((false, CR) :: rest) = CR :: LF :: sentText true rest := rfl

theorem sentText_other (h : ¬ (byte = CR ∧ !binary)) (rest : List (Bool × UInt8)) :
    sentText false ((binary, byte) :: rest) = byte :: sentText (byte = CR) rest := by
  rw [sentText, textByte, if_neg h, if_neg (by simp)]
  rfl

theorem sentText_dropped (rest : List (Bool × UInt8)) :
    sentText true ((false, LF) :: rest) = sentText false rest := rfl

theorem split_cons {first : Bool × UInt8} {rest : List (Bool × UInt8)}
    (h : ¬ (first = (true, CR) ∧ rest.head? = some (false, LF))) :
    Split (first :: rest) ↔ Split rest := by
  refine ⟨?_, fun ⟨before, after, heq⟩ => ⟨first :: before, after, by rw [heq]; rfl⟩⟩
  rintro ⟨before, after, heq⟩
  cases before with
  | nil =>
    obtain ⟨rfl, rfl⟩ := List.cons.inj heq
    exact absurd ⟨rfl, rfl⟩ h
  | cons _ before => exact ⟨before, after, (List.cons.inj heq).2⟩

theorem not_split_nil : ¬ Split [] := by
  rintro ⟨before, after, heq⟩
  cases before <;> cases heq

theorem split_of_head {first : Bool × UInt8} {rest : List (Bool × UInt8)}
    (h : first = (true, CR) ∧ rest.head? = some (false, LF)) : Split (first :: rest) := by
  obtain ⟨rfl, hlf⟩ := h
  obtain ⟨others, rfl⟩ := List.head?_eq_some_iff.mp hlf
  exact ⟨[], others, rfl⟩

instance decidableSplit : ∀ typed, Decidable (Split typed)
  | [] => isFalse not_split_nil
  | first :: rest =>
    if h : first = (true, CR) ∧ rest.head? = some (false, LF) then isTrue (split_of_head h)
    else
      have := decidableSplit rest
      decidable_of_iff (Split rest) (split_cons h).symm

/-- The ways typed bytes can begin, as far as line ends go. -/
theorem typed_induction {motive : List (Bool × UInt8) → Prop} (nil : motive [])
    (pair : ∀ rest, motive rest → motive ((false, CR) :: (false, LF) :: rest))
    (cr : ∀ rest, rest.head? ≠ some (false, LF) → motive rest → motive ((false, CR) :: rest))
    (split : ∀ rest, motive rest → motive ((true, CR) :: (false, LF) :: rest))
    (other : ∀ binary byte rest, ¬ (byte = CR ∧ !binary) →
      (byte = CR → rest.head? ≠ some (false, LF)) → motive rest → motive ((binary, byte) :: rest)) :
    ∀ typed, motive typed
  | [] => nil
  | (binary, byte) :: rest => by
    have hrest := typed_induction nil pair cr split other rest
    by_cases hcr : byte = CR
    · subst hcr
      by_cases hlf : rest.head? = some (false, LF)
      · obtain ⟨others, rfl⟩ := List.head?_eq_some_iff.mp hlf
        have hothers := typed_induction nil pair cr split other others
        cases binary with
        | false => exact pair others hothers
        | true => exact split others hothers
      · cases binary with
        | false => exact cr rest hlf hrest
        | true => exact other true CR rest (by simp) (fun _ => hlf) hrest
    · exact other binary byte rest (fun h => hcr h.1) (fun h => absurd h hcr) hrest
termination_by typed => typed.length

theorem length_sentText_le (typed : List (Bool × UInt8)) :
    (sentText false typed).length ≤ (lineEnds typed).length := by
  induction typed using typed_induction with
  | nil => exact Nat.le_refl 0
  | pair rest ih =>
    rw [sentText_cr, sentText_dropped, lineEnds_pair]
    exact Nat.add_le_add_right ih 2
  | cr rest hhead ih =>
    rw [sentText_cr, sentText_head hhead, lineEnds_cr hhead]
    exact Nat.add_le_add_right ih 2
  | split rest ih =>
    rw [sentText_other (by simp), lineEnds_other (by simp), lineEnds_other (by decide)]
    exact Nat.add_le_add_right (Nat.le_succ_of_le ih) 1
  | other binary byte rest hbyte hhead ih =>
    rw [sentText_other hbyte, lineEnds_other hbyte]
    refine Nat.add_le_add_right ?_ 1
    by_cases hcr : byte = CR
    · rwa [sentText_head (hhead hcr)]
    · rwa [decide_eq_false hcr]

/-- The rules for line ends are kept but for an LF that is dropped for a CR in binary mode. -/
theorem sentText_iff (typed : List (Bool × UInt8)) :
    sentText false typed = lineEnds typed ↔ ¬ Split typed := by
  induction typed using typed_induction with
  | nil => exact ⟨fun _ => not_split_nil, fun _ => rfl⟩
  | pair rest ih =>
    rw [sentText_cr, sentText_dropped, lineEnds_pair, split_cons (by simp),
      split_cons (by simp), ← ih]
    simp
  | cr rest hhead ih =>
    rw [sentText_cr, sentText_head hhead, lineEnds_cr hhead, split_cons (by simp), ← ih]
    simp
  | split rest ih =>
    refine ⟨fun heq => ?_, fun hnot => absurd ⟨[], rest, rfl⟩ hnot⟩
    rw [sentText_other (by simp), lineEnds_other (by simp), lineEnds_other (by decide)] at heq
    have hlength := congrArg List.length (List.cons.inj heq).2
    have hle := length_sentText_le rest
    change (sentText false rest).length = (lineEnds rest).length + 1 at hlength
    omega
  | other binary byte rest hbyte hhead ih =>
    have hrest : sentText (byte = CR) rest = sentText false rest := by
      by_cases hcr : byte = CR
      · exact sentText_head (hhead hcr) _
      · rw [decide_eq_false hcr]
    rw [sentText_other hbyte, lineEnds_other hbyte, hrest, split_cons, ← ih]
    · simp
    · rintro ⟨hfirst, hlf⟩
      exact hhead (Prod.mk.inj hfirst).2 hlf

/-- Between two connections what is typed is delivered under the rules for line ends, and nothing
else comes of it, when no CR and LF are split by the end of binary mode, and only then. -/
theorem carried_iff (term term' : List UInt8) (size size' : TermSize)
    (events : List Typing.Event) {pieces : List (List UInt8)}
    (hpieces : pieces.flatten = ((Typing.new term size).run events).2) :
    Carried (Typing.new term size) events (Nvt.new term' size') pieces ↔
      ¬ Split ((Typing.new term size).typed events) := by
  have hstart : InStep (Typing.new term size).nvt (Nvt.new term' size') := ⟨rfl, rfl⟩
  obtain ⟨last, reply, hall, hquiet⟩ := receive_run hstart events
  have hreceived := (Nvt.receiveAll_eq (Nvt.new term' size') pieces).trans
    ((congrArg _ hpieces).trans hall)
  rw [← sentText_iff]
  refine ⟨fun h => ?_, fun h => ?_⟩
  · have hdata := h.data
    rwa [hreceived] at hdata
  · refine ⟨?_, ?_, ?_, ?_⟩
    · rw [hreceived]
      exact h
    · rw [hquiet]
    · rw [hreceived, hquiet]
    · rw [hreceived, hquiet]

namespace TextWitness

open Typing (Event)

def screen : TermSize := ⟨80, 24⟩

/-- A CR and an LF in two chunks, a 255, binary mode turned on and off by the server, and a new
size. -/
def session : List Event :=
  [.heard [IAC, DO, NAWS], .typed [0x6C, 0x73, CR], .typed [LF, IAC], .heard [IAC, DO, BINARY],
    .typed [CR, LF, CR, 0], .resized ⟨255, 40⟩, .heard [IAC, DONT], .heard [BINARY],
    .typed [0, LF, CR]]

theorem session_carried :
    Carried (Typing.new [0x76, 0x74] screen) session (Nvt.new [] screen)
      (((Typing.new [0x76, 0x74] screen).run session).2.map ([·])) := by
  refine (carried_iff _ _ _ _ _ ?_).mpr (by decide)
  rw [← List.flatMap_def, List.flatMap_singleton']

/-- The server ends binary mode after a CR is typed in it, and before an LF is. -/
def ended : List Event :=
  [.heard [IAC, DO, BINARY], .typed [0x61, CR], .heard [IAC, DONT, BINARY], .typed [LF, 0x62]]

/-- The LF does not reach the other end. -/
theorem lf_dropped : ((Typing.new [] screen).run ended).2 =
      [IAC, WILL, BINARY, 0x61, CR, IAC, WONT, BINARY, 0x62] ∧
    ((Nvt.new [] screen).receiveAll [((Typing.new [] screen).run ended).2]).2.data =
      [0x61, CR, 0x62] ∧
    lineEnds ((Typing.new [] screen).typed ended) = [0x61, CR, LF, 0x62] ∧
    ¬ Carried (Typing.new [] screen) ended (Nvt.new [] screen)
      [((Typing.new [] screen).run ended).2] := by
  refine ⟨by decide, by decide, by decide, fun h => ?_⟩
  exact absurd h.data (by decide)

end TextWitness

end Opensesh.Telnet
