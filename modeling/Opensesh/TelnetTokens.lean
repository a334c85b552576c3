/-
The bytes of a telnet negotiation as tokens: what one end does on a command, and how it reads
commands and window sizes a byte at a time.
-/
import Opensesh.Telnet

namespace Opensesh.Telnet

open List

def Kind.other : Kind → Kind
  | .theirs => .ours
  | .ours => .theirs

/-- The options of this kind an end turns on. -/
def Kind.allowed : Kind → List UInt8
  | .theirs => THEIRS
  | .ours => OURS

theorem Kind.other_other (kind : Kind) : kind.other.other = kind := by
  cases kind <;> rfl

theorem mutual_iff (kind : Kind) (code : UInt8) :
    Mutual code ↔ code ∈ kind.allowed ∧ code ∈ kind.other.allowed := by
  cases kind with
  | theirs => exact Iff.rfl
  | ours => exact and_comm

def Nvt.register (nvt : Nvt) : Kind → UInt8 → Bool
  | .theirs => nvt.theirs
  | .ours => nvt.ours

/-- An option's state of a kind set to `on`. -/
def setRegister (register : Kind → UInt8 → Bool) (kind : Kind) (code : UInt8) (on : Bool) :
    Kind → UInt8 → Bool :=
  Function.update register kind (Function.update (register kind) code on)

theorem setRegister_self (register : Kind → UInt8 → Bool) (kind : Kind) (code : UInt8)
    (on : Bool) : setRegister register kind code on kind code = on := by
  rw [setRegister, Function.update_self, Function.update_self]

theorem setRegister_of_ne {register : Kind → UInt8 → Bool} {kind kind' : Kind}
    {code code' : UInt8} {on : Bool} (hne : ¬ (kind' = kind ∧ code' = code)) :
    setRegister register kind code on kind' code' = register kind' code' := by
  by_cases hkind : kind' = kind
  · subst hkind
    rw [setRegister, Function.update_self, Function.update_of_ne fun h => hne ⟨rfl, h⟩]
  · rw [setRegister, Function.update_of_ne hkind]

inductive Token where
  | command (command : Command)
  | size (size : TermSize)

def Token.bytes : Token → List UInt8
  | .command given => given.bytes
  | .size shown => (Nvt.new [] shown).windowSize

def encodeAll (tokens : List Token) : List UInt8 := tokens.flatMap Token.bytes

theorem encodeAll_append (first second : List Token) :
    encodeAll (first ++ second) = encodeAll first ++ encodeAll second := flatMap_append

/-- What an end does on a command: how its options stand after it, and its answer. -/
inductive Answers (register : Kind → UInt8 → Bool) :
    Command → (Kind → UInt8 → Bool) → List Token → Prop where
  | refused {command : Command} (hon : command.on = true)
      (hcode : command.code ∉ command.kind.allowed) :
      Answers register command register [.command ⟨command.kind.other, false, command.code⟩]
  | same {command : Command} (hsame : register command.kind command.code = command.on) :
      Answers register command register []
  | changed {command : Command} {sizes : List TermSize}
      (hchanged : register command.kind command.code = !command.on)
      (hcode : command.on = true → command.code ∈ command.kind.allowed)
      (hsizes : sizes.length ≤ 1) :
      Answers register command (setRegister register command.kind command.code command.on)
        (.command ⟨command.kind.other, command.on, command.code⟩ :: sizes.map .size)

theorem register_theirs (nvt : Nvt) (code : UInt8) (on : Bool) :
    { nvt with theirs := Function.update nvt.theirs code on }.register =
      setRegister nvt.register .theirs code on := by
  funext kind
  cases kind <;> rfl

theorem register_ours (nvt : Nvt) (code : UInt8) (on : Bool) :
    { nvt with ours := Function.update nvt.ours code on }.register =
      setRegister nvt.register .ours code on := by
  funext kind
  cases kind <;> rfl

/-- A command is answered with these bytes, and the options follow. -/
def Answered (nvt : Nvt) (command : Command) (result : Nvt × List UInt8) : Prop :=
  ∃ replies, Answers nvt.register command result.1.register replies ∧
    result.2 = encodeAll replies ∧ result.1.state = nvt.state

theorem Answered.changed {nvt nvt' : Nvt} {command : Command} {reply : List UInt8}
    (hregister : nvt'.register = setRegister nvt.register command.kind command.code command.on)
    (hchanged : nvt.register command.kind command.code = !command.on)
    (hcode : command.on = true → command.code ∈ command.kind.allowed)
    (sizes : List TermSize) (hsizes : sizes.length ≤ 1)
    (hreply : reply = encodeAll
      (.command ⟨command.kind.other, command.on, command.code⟩ :: sizes.map .size))
    (hstate : nvt'.state = nvt.state) : Answered nvt command (nvt', reply) := by
  refine ⟨_, ?_, hreply, hstate⟩
  rw [hregister]
  exact .changed hchanged hcode hsizes

theorem Answered.same {nvt : Nvt} {command : Command}
    (hsame : nvt.register command.kind command.code = command.on) :
    Answered nvt command (nvt, []) :=
  ⟨_, .same hsame, rfl, rfl⟩

variable {nvt : Nvt} {byte : UInt8} {rest : List UInt8} {tokens : List Token}

theorem Answered.refused {command : Command} (hon : command.on = true)
    (hcode : command.code ∉ command.kind.allowed) :
    Answered nvt command (nvt, (Command.mk command.kind.other false command.code).bytes) :=
  ⟨_, .refused hon hcode, (List.append_nil _).symm, rfl⟩

theorem answered_will (nvt : Nvt) (code : UInt8) :
    Answered nvt ⟨.theirs, true, code⟩ (nvt.negotiate WILL code) := by
  rw [Nvt.negotiate, if_pos rfl]
  split
  next hcode => exact .refused rfl hcode
  next hcode =>
    split
    next hoff =>
      rw [Bool.not_eq_true'] at hoff
      exact .changed (register_theirs nvt code true) hoff (fun _ => not_not.mp hcode) []
        (Nat.zero_le 1) rfl rfl
    next hon =>
      rw [Bool.not_eq_true', Bool.not_eq_false] at hon
      exact .same hon

theorem answered_wont (nvt : Nvt) (code : UInt8) :
    Answered nvt ⟨.theirs, false, code⟩ (nvt.negotiate WONT code) := by
  rw [Nvt.negotiate, if_neg (by decide), if_pos rfl]
  split
  next hon =>
    exact .changed (register_theirs nvt code false) hon (fun h => Bool.noConfusion h) []
      (Nat.zero_le 1) rfl rfl
  next hoff => exact .same (Bool.not_eq_true _ ▸ hoff)

theorem answered_do (nvt : Nvt) (code : UInt8) :
    Answered nvt ⟨.ours, true, code⟩ (nvt.negotiate DO code) := by
  rw [Nvt.negotiate, if_neg (by decide), if_neg (by decide), if_pos rfl]
  split
  next hcode => exact .refused rfl hcode
  next hcode =>
    split
    next hoff =>
      rw [Bool.not_eq_true'] at hoff
      by_cases hnaws : code = NAWS
      · rw [if_pos hnaws]
        exact .changed (register_ours nvt code true) hoff (fun _ => not_not.mp hcode) [nvt.size]
          (Nat.le_refl 1) (congrArg _ (List.append_nil _).symm) rfl
      · rw [if_neg hnaws]
        exact .changed (register_ours nvt code true) hoff (fun _ => not_not.mp hcode) []
          (Nat.zero_le 1) rfl rfl
    next hon =>
      rw [Bool.not_eq_true', Bool.not_eq_false] at hon
      exact .same hon

theorem answered_dont (nvt : Nvt) (code : UInt8) :
    Answered nvt ⟨.ours, false, code⟩ (nvt.negotiate DONT code) := by
  rw [Nvt.negotiate, if_neg (by decide), if_neg (by decide), if_neg (by decide), if_pos rfl]
  split
  next hon =>
    exact .changed (register_ours nvt code false) hon (fun h => Bool.noConfusion h) []
      (Nat.zero_le 1) rfl rfl
  next hoff => exact .same (Bool.not_eq_true _ ▸ hoff)

theorem negotiate_answered (nvt : Nvt) (command : Command) :
    Answered nvt command (nvt.negotiate command.verb command.code) := by
  obtain ⟨kind, on, code⟩ := command
  cases kind with
  | theirs =>
    cases on with
    | true => exact answered_will nvt code
    | false => exact answered_wont nvt code
  | ours =>
    cases on with
    | true => exact answered_do nvt code
    | false => exact answered_dont nvt code

/-- What is left of a subnegotiation, in the states that read one. -/
inductive Tail : State → List UInt8 → Prop where
  | plain {byte : UInt8} {rest : List UInt8} (hplain : byte ≠ IAC) :
      Tail .sub rest → Tail .sub (byte :: rest)
  | doubled {rest : List UInt8} : Tail .subIac (IAC :: rest) → Tail .sub (IAC :: IAC :: rest)
  | second {rest : List UInt8} : Tail .sub rest → Tail .subIac (IAC :: rest)
  | close : Tail .subIac [SE] → Tail .sub [IAC, SE]
  | last : Tail .subIac [SE]

theorem tail_numbers (numbers : List UInt8) :
    Tail .sub (numbers.flatMap (fun byte => if byte = IAC then [byte, IAC] else [byte]) ++
      [IAC, SE]) := by
  induction numbers with
  | nil => exact .close .last
  | cons byte numbers ih =>
    rw [flatMap_cons]
    split
    next hiac =>
      subst hiac
      exact .doubled (.second ih)
    next hplain => exact .plain hplain ih

/-- What an end has still to read of the tokens on their way to it, the first of which may be
read in part. -/
inductive Reads (nvt : Nvt) : List UInt8 → List Token → Prop where
  | between (tokens : List Token) (hstate : nvt.state = .data) : Reads nvt (encodeAll tokens) tokens
  | afterIac (command : Command) (tokens : List Token) (hstate : nvt.state = .iac) :
      Reads nvt (command.verb :: command.code :: encodeAll tokens) (.command command :: tokens)
  | afterVerb (command : Command) (tokens : List Token)
      (hstate : nvt.state = .negotiate command.verb) :
      Reads nvt (command.code :: encodeAll tokens) (.command command :: tokens)
  | sizeIac (size : TermSize) (tokens : List Token) {body : List UInt8} (htail : Tail .sub body)
      (hstate : nvt.state = .iac) :
      Reads nvt (SB :: NAWS :: (body ++ encodeAll tokens)) (.size size :: tokens)
  | sizeStart (size : TermSize) (tokens : List Token) {body : List UInt8} (htail : Tail .sub body)
      (hstate : nvt.state = .sub) (hsub : nvt.sub = []) :
      Reads nvt (NAWS :: (body ++ encodeAll tokens)) (.size size :: tokens)
  | sizeBody (size : TermSize) (tokens : List Token) {body : List UInt8}
      (htail : Tail nvt.state body) (hsub : nvt.sub.head? = some NAWS) :
      Reads nvt (body ++ encodeAll tokens) (.size size :: tokens)

theorem windowSize_eq (size : TermSize) : ∃ body, Tail .sub body ∧
    (Nvt.new [] size).windowSize = IAC :: SB :: NAWS :: body :=
  ⟨_, tail_numbers _, List.append_assoc _ _ _⟩

theorem verb_is_verb (command : Command) : command.verb = WILL ∨ command.verb = WONT ∨
    command.verb = DO ∨ command.verb = DONT := by
  obtain ⟨kind, on, code⟩ := command
  cases kind with
  | theirs =>
    cases on with
    | true => exact .inl rfl
    | false => exact .inr (.inl rfl)
  | ours =>
    cases on with
    | true => exact .inr (.inr (.inl rfl))
    | false => exact .inr (.inr (.inr rfl))

theorem verb_ne_iac (command : Command) : command.verb ≠ IAC := by
  rcases verb_is_verb command with h | h | h | h
  · exact h ▸ by decide
  · exact h ▸ by decide
  · exact h ▸ by decide
  · exact h ▸ by decide

/-- What one byte does: it is read as part of a token, or it ends a token, and a command is
answered. -/
inductive Heard (nvt : Nvt) (rest : List UInt8) (tokens : List Token) :
    Nvt × Received → Prop where
  | part {nvt' : Nvt} {data : List UInt8} (hreads : Reads nvt' rest tokens)
      (hregister : nvt'.register = nvt.register) : Heard nvt rest tokens (nvt', ⟨data, []⟩)
  | size {nvt' : Nvt} {data : List UInt8} {size : TermSize} {later : List Token}
      (htokens : tokens = .size size :: later) (hreads : Reads nvt' rest later)
      (hregister : nvt'.register = nvt.register) : Heard nvt rest tokens (nvt', ⟨data, []⟩)
  | command {nvt' : Nvt} {data : List UInt8} {command : Command} {later replies : List Token}
      (htokens : tokens = .command command :: later) (hreads : Reads nvt' rest later)
      (hanswers : Answers nvt.register command nvt'.register replies) :
      Heard nvt rest tokens (nvt', ⟨data, encodeAll replies⟩)

theorem register_of_fields {first second : Nvt} (hours : first.ours = second.ours)
    (htheirs : first.theirs = second.theirs) : first.register = second.register := by
  funext kind
  cases kind with
  | theirs => exact htheirs
  | ours => exact hours

theorem heard_between (hstate : nvt.state = .data) (hbytes : encodeAll tokens = byte :: rest) :
    Heard nvt rest tokens (nvt.receiveByte byte) := by
  cases tokens with
  | nil => cases hbytes
  | cons token later =>
    have hiac : nvt.receiveByte IAC = ({ nvt with state := .iac }, {}) := by
      rw [Nvt.receiveByte, hstate]
      rfl
    cases token with
    | command command =>
      obtain ⟨rfl, rfl⟩ := List.cons.inj hbytes
      rw [hiac]
      exact .part (.afterIac command later rfl) (register_of_fields rfl rfl)
    | size size =>
      obtain ⟨body, htail, hwindow⟩ := windowSize_eq size
      have hall : encodeAll (.size size :: later) =
          IAC :: SB :: NAWS :: (body ++ encodeAll later) :=
        congrArg (· ++ encodeAll later) hwindow
      rw [hall] at hbytes
      obtain ⟨rfl, rfl⟩ := List.cons.inj hbytes
      rw [hiac]
      exact .part (.sizeIac size later htail rfl) (register_of_fields rfl rfl)

theorem head_keep {nvt : Nvt} (byte : UInt8) (hsub : nvt.sub.head? = some NAWS) :
    (nvt.keep byte).sub.head? = some NAWS := by
  rw [Nvt.keep]
  split
  · change (nvt.sub ++ [byte]).head? = some NAWS
    rw [List.head?_append, hsub]
    rfl
  · exact hsub

theorem state_keep (nvt : Nvt) (byte : UInt8) : (nvt.keep byte).state = nvt.state := by
  rw [Nvt.keep]
  split
  · rfl
  · rfl

theorem register_keep (nvt : Nvt) (byte : UInt8) : (nvt.keep byte).register = nvt.register := by
  rw [Nvt.keep]
  split
  · exact register_of_fields rfl rfl
  · rfl

theorem heard_body {body : List UInt8} (size : TermSize) {later : List Token}
    (htail : Tail nvt.state body) (hsub : nvt.sub.head? = some NAWS)
    (hbytes : body ++ encodeAll later = byte :: rest) :
    Heard nvt rest (.size size :: later) (nvt.receiveByte byte) := by
  generalize hstate : nvt.state = state at htail
  cases htail with
  | @plain other left hplain htail =>
    obtain ⟨rfl, rfl⟩ := List.cons.inj hbytes
    rw [Nvt.receiveByte, hstate]
    dsimp only
    rw [if_neg hplain]
    have hkept : (nvt.keep other).state = .sub := (state_keep nvt other).trans hstate
    exact .part (.sizeBody size later (hkept ▸ htail) (head_keep other hsub))
      (register_keep nvt other)
  | @doubled left htail =>
    obtain ⟨rfl, rfl⟩ := List.cons.inj hbytes
    rw [Nvt.receiveByte, hstate]
    exact .part (.sizeBody size later htail hsub) (register_of_fields rfl rfl)
  | @second left htail =>
    obtain ⟨rfl, rfl⟩ := List.cons.inj hbytes
    rw [Nvt.receiveByte, hstate]
    dsimp only
    rw [if_neg (by decide), if_pos rfl]
    have hkept : ({ nvt with state := .sub }.keep IAC).state = .sub :=
      state_keep { nvt with state := .sub } IAC
    refine .part (.sizeBody size later ?_ ?_) ?_
    · rw [hkept]
      exact htail
    · exact @head_keep { nvt with state := .sub } IAC hsub
    · rw [register_keep]
      exact register_of_fields rfl rfl
  | close htail =>
    obtain ⟨rfl, rfl⟩ := List.cons.inj hbytes
    rw [Nvt.receiveByte, hstate]
    exact .part (.sizeBody size later htail hsub) (register_of_fields rfl rfl)
  | last =>
    obtain ⟨rfl, rfl⟩ := List.cons.inj hbytes
    rw [Nvt.receiveByte, hstate]
    dsimp only
    rw [if_pos rfl, Nvt.subnegotiation]
    -- The subnegotiation is a window size, so it is not answered.
    have hother : ¬ (nvt.sub = [TTYPE, TTYPE_SEND] ∧ nvt.ours TTYPE) := by
      rintro ⟨hsend, -⟩
      rw [hsend] at hsub
      cases hsub
    dsimp only
    rw [if_neg hother]
    exact .size rfl (.between later rfl) (register_of_fields rfl rfl)

theorem heard_byte (hreads : Reads nvt (byte :: rest) tokens) :
    Heard nvt rest tokens (nvt.receiveByte byte) := by
  generalize hbytes : byte :: rest = bytes at hreads
  cases hreads with
  | between _ hstate => exact heard_between hstate hbytes.symm
  | afterIac command later hstate =>
    obtain ⟨rfl, rfl⟩ := List.cons.inj hbytes
    rw [Nvt.receiveByte, hstate]
    dsimp only
    rw [if_neg (verb_ne_iac command), if_pos (verb_is_verb command)]
    exact .part (.afterVerb command later rfl) (register_of_fields rfl rfl)
  | afterVerb command later hstate =>
    obtain ⟨rfl, rfl⟩ := List.cons.inj hbytes
    rw [Nvt.receiveByte, hstate]
    obtain ⟨replies, hanswers, hreply, hdata⟩ :=
      negotiate_answered { nvt with state := .data } command
    dsimp only
    rw [hreply]
    exact .command rfl (.between later hdata) hanswers
  | sizeIac size later htail hstate =>
    obtain ⟨rfl, rfl⟩ := List.cons.inj hbytes
    rw [Nvt.receiveByte, hstate]
    exact .part (.sizeStart size later htail rfl rfl) (register_of_fields rfl rfl)
  | sizeStart size later htail hstate hsub =>
    obtain ⟨rfl, rfl⟩ := List.cons.inj hbytes
    rw [Nvt.receiveByte, hstate]
    dsimp only
    rw [if_neg (by decide)]
    have hkept : (nvt.keep NAWS).state = .sub := (state_keep nvt NAWS).trans hstate
    refine .part (.sizeBody size later (hkept ▸ htail) ?_) (register_keep nvt NAWS)
    rw [Nvt.keep, hsub, if_pos (by decide)]
    rfl
  | sizeBody size later htail hsub => exact heard_body size htail hsub hbytes.symm

theorem reads_some {nvt : Nvt} {token : Token} {tokens : List Token} {bytes : List UInt8}
    (hreads : Reads nvt bytes (token :: tokens)) : bytes ≠ [] := by
  generalize hall : token :: tokens = all at hreads
  cases hreads with
  | between _ _ =>
    subst hall
    cases token with
    | command command => exact cons_ne_nil _ _
    | size size =>
      obtain ⟨body, _, hwindow⟩ := windowSize_eq size
      have hbytes : encodeAll (.size size :: tokens) =
          IAC :: SB :: NAWS :: (body ++ encodeAll tokens) :=
        congrArg (· ++ encodeAll tokens) hwindow
      rw [hbytes]
      exact cons_ne_nil _ _
  | afterIac _ _ _ => exact cons_ne_nil _ _
  | afterVerb _ _ _ => exact cons_ne_nil _ _
  | sizeIac _ _ _ _ => exact cons_ne_nil _ _
  | sizeStart _ _ _ _ _ => exact cons_ne_nil _ _
  | sizeBody _ _ htail _ =>
    generalize nvt.state = state at htail
    cases htail <;> exact cons_ne_nil _ _

end Opensesh.Telnet
