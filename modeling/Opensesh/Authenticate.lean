/-
SSH authentication of one hop: the methods in order, the keys, passwords and
answers sent, with every exchange in a log.
-/
import Opensesh.Logged

namespace Opensesh

namespace Authenticate

inductive AuthMethod
  | publicKey
  | keyboardInteractive
  | password
deriving DecidableEq

/-- The methods a server names. -/
inductive MethodKind
  | none
  | password
  | publicKey
  | hostBased
  | keyboardInteractive
deriving DecidableEq

def kind : AuthMethod → MethodKind
  | .publicKey => .publicKey
  | .keyboardInteractive => .keyboardInteractive
  | .password => .password

/-- The order when a host doesn't set one. -/
def defaultOrder : List AuthMethod := [.publicKey, .keyboardInteractive, .password]

/-- One keyboard-interactive prompt. -/
structure Prompt where
  prompt : String
  echo : Bool

/-- A secret that is sent: the saved password, or what the user just typed. -/
inductive Secret
  | saved
  | typed (text : String)
deriving DecidableEq

/-- Where a key comes from. -/
inductive KeySource
  | key (i : Nat)
  | file (i : Nat)
  | agent (stream i : Nat)
  | fallback (i : Nat)

inductive Request (κ : Type)
  | none
  | key (source : KeySource) (offer : κ)
  | keyboardStart
  | respond (answers : List Secret)
  | password (secret : Secret)

inductive AuthResult
  | success
  | failure (remainingMethods : List MethodKind) (partialSuccess : Bool)

inductive Reply
  | result (result : AuthResult)
  | infoRequest (name instructions : String) (prompts : List Prompt)
  | error

inductive Question
  | password (retry canRemember : Bool)
  | passphrase (key : String) (retry canRemember : Bool)
  | keyboardInteractive (name instructions : String) (fields : List Prompt)

inductive Answer
  | secrets (secrets : List String)
  | remember (secrets : List String)
  | other

/-- A secret the user typed and asked to remember. -/
inductive Remembered
  | password
  | keyPassphrase

inductive Event (κ : Type)
  | started (method : AuthMethod)
  | sent (request : Request κ) (reply : Reply)
  | asked (question : Question) (answer : Answer)
  | remembered (which : Remembered) (secret : String)
  /-- The agent failed after the server had answered about keys of it. -/
  | repliesLost

inductive AuthError
  | cancelled
  /-- Every method failed: those tried, or what the server offers. -/
  | auth (tried : List AuthMethod) (remaining : List MethodKind)
  /-- The connection, the secrets or the agent failed. -/
  | failed
  /-- The steps given ran out. -/
  | stopped

/-- What reading a key file gives. -/
inductive KeyRead (κ : Type)
  | key (key : κ)
  | encrypted
  | notUsed

/-- What a program sees of the server, the user and this computer; each may
depend on all that happened before. -/
structure World (κ : Type) where
  /-- The server's answer; none when the exchange fails. -/
  authenticate : List (Event κ) → Request κ → Option AuthResult
  interactive : List (Event κ) → Request κ → Option Reply
  ask : List (Event κ) → Question → Answer
  readKey : List (Event κ) → String → KeyRead κ
  /-- The key an encrypted file holds, by passphrase. -/
  decrypt : List (Event κ) → String → String → Option κ
  isFile : List (Event κ) → String → Bool
  /-- The certificate next to a key file. -/
  certificate : List (Event κ) → String → Option κ
  /-- The agents' identities; none where one cannot be reached or asked. -/
  agent : List (Event κ) → Option (List (Option (List κ)))
  lower : String → String

/-- Secrets fetched when a connection needs them. -/
structure Secrets (κ : Type) where
  password : Option String
  keyPassphrase : Option String
  keys : List κ

/-- How to authenticate to one server. -/
structure AuthPlan (κ : Type) where
  order : List AuthMethod
  password : Option String
  keys : List κ
  keyFiles : List String
  keyPassphrase : Option String
  agent : Bool
  fallbackKeyFiles : List String
  /-- More secrets; the fetch may fail. -/
  source : Option (Option (Secrets κ))
  canRemember : Bool

def AuthPlan.methods {κ : Type} (plan : AuthPlan κ) : List AuthMethod :=
  if plan.order.isEmpty then defaultOrder else plan.order

/-- How a method went. -/
inductive Step
  | success
  /-- Accepted, but the server wants more (these methods). -/
  | more (remaining : List MethodKind)
  /-- Refused (the server still offers these methods). -/
  | failed (remaining : List MethodKind)

def Step.of : AuthResult → Step
  | .success => .success
  | .failure remaining true => .more remaining
  | .failure remaining false => .failed remaining

/-- An empty list says nothing: try. -/
def offers (remaining : List MethodKind) (method : AuthMethod) : Bool :=
  remaining.isEmpty || remaining.contains (kind method)

/-- Programs that log events; they keep whether the saved password was used. -/
abbrev Auth (κ : Type) := EStateM AuthError (Trace (Event κ) Bool)

section Programs

variable {κ : Type} (world : World κ) (plan : AuthPlan κ)

def exchange (request : Request κ) : Auth κ AuthResult := do
  let log ← Trace.getLog
  match world.authenticate log request with
  | some result =>
    Trace.emit (.sent request (.result result))
    pure result
  | none =>
    Trace.emit (.sent request .error)
    throw .failed

def interact (request : Request κ) : Auth κ Reply := do
  let log ← Trace.getLog
  match world.interactive log request with
  | some reply =>
    Trace.emit (.sent request reply)
    pure reply
  | none =>
    Trace.emit (.sent request .error)
    throw .failed

def ask (question : Question) : Auth κ Answer := do
  let log ← Trace.getLog
  let answer := world.ask log question
  Trace.emit (.asked question answer)
  pure answer

/-- The secret typed in a prompt, and whether to remember it. -/
def typed : Answer → Option (String × Bool)
  | .secrets secrets => secrets.head?.map fun secret => (secret, false)
  | .remember secrets => secrets.head?.map fun secret => (secret, true)
  | .other => none

/-- Asks for the passphrase of a key file, three times at most. -/
def askPassphrase (file : String) (attempt : Nat) : Nat → Auth κ (Option κ)
  | 0 => pure none
  | tries + 1 => do
      let answer ← ask world (.passphrase file (decide (attempt > 0)) plan.canRemember)
      match typed answer with
      | none => pure none
      | some (passphrase, remember) =>
        let log ← Trace.getLog
        match world.decrypt log file passphrase with
        | some key =>
          if remember && plan.canRemember then
            Trace.emit (.remembered .keyPassphrase passphrase)
            pure (some key)
          else pure (some key)
        | none => askPassphrase file (attempt + 1) tries

def loadKeyFile (file : String) : Auth κ (Option κ) := do
  let log ← Trace.getLog
  match world.readKey log file with
  | .key key => pure (some key)
  | .notUsed => pure none
  | .encrypted =>
    match plan.keyPassphrase.bind (world.decrypt log file) with
    | some key => pure (some key)
    | none => askPassphrase world plan file 0 3

/-- Tries each in turn until one is not refused; what the server offered last. -/
def tryEach {α : Type} (act : Nat → α → Auth κ (Option Step)) :
    Nat → List α → List MethodKind → Auth κ (Step ⊕ List MethodKind)
  | _, [], last => pure (.inr last)
  | i, a :: rest, last => do
      match ← act i a with
      | none => tryEach act (i + 1) rest last
      | some (.failed next) => tryEach act (i + 1) rest next
      | some step => pure (.inl step)

def tryKey (i : Nat) (key : κ) : Auth κ (Option Step) := do
  let result ← exchange world (.key (.key i) key)
  pure (some (Step.of result))

def tryFile (i : Nat) (file : String) : Auth κ (Option Step) := do
  match ← loadKeyFile world plan file with
  | none => pure none
  | some key =>
    let log ← Trace.getLog
    let result ← exchange world (.key (.file i) ((world.certificate log file).getD key))
    pure (some (Step.of result))

def tryFallback (i : Nat) (file : String) : Auth κ (Option Step) := do
  let log ← Trace.getLog
  if world.isFile log file then
    match ← loadKeyFile world plan file with
    | none => pure none
    | some key =>
      let result ← exchange world (.key (.fallback i) key)
      pure (some (Step.of result))
  else pure none

/-- An error of the agent, after the answers it had. -/
def agentError {α : Type} (last : Option (List MethodKind)) : Auth κ α := do
  if last.isSome then
    Trace.emit .repliesLost
    throw .failed
  else throw .failed

def agentIdentities (stream : Nat) : Nat → List κ → Option (List MethodKind) →
    Auth κ (Step ⊕ Option (List MethodKind))
  | _, [], last => pure (.inr last)
  | i, identity :: rest, last => do
      let log ← Trace.getLog
      match world.authenticate log (.key (.agent stream i) identity) with
      | none =>
        Trace.emit (.sent (.key (.agent stream i) identity) .error)
        agentError last
      | some result =>
        Trace.emit (.sent (.key (.agent stream i) identity) (.result result))
        match Step.of result with
        | .failed next => agentIdentities stream (i + 1) rest (some next)
        | step => pure (.inl step)

def agentStreams : Nat → List (Option (List κ)) → Option (List MethodKind) →
    Auth κ (Step ⊕ Option (List MethodKind))
  | _, [], last => pure (.inr last)
  | _, none :: _, last => agentError last
  | stream, some identities :: rest, last => do
      match ← agentIdentities world stream 0 identities last with
      | .inl step => pure (.inl step)
      | .inr last => agentStreams (stream + 1) rest last

/-- Tries every key of the local agent. -/
def agentKeys : Auth κ (Option Step) := do
  let log ← Trace.getLog
  match world.agent log with
  | none => agentError none
  | some streams =>
    match ← agentStreams world 0 streams none with
    | .inl step => pure (some step)
    | .inr last => pure (last.map .failed)

/-- An agent that cannot be used is left out. -/
def tryAgent : Auth κ (Option Step) :=
  if plan.agent then tryCatch (agentKeys world) fun _ => pure none
  else pure none

/-- OpenSSH's default key files, and what the server offered last. -/
def fallbackKeys (last : List MethodKind) : Auth κ Step := do
  match ← tryEach (tryFallback world plan) 0 plan.fallbackKeyFiles last with
  | .inl step => pure step
  | .inr last => pure (.failed last)

def publicKeys : Auth κ Step := do
  match ← tryEach (tryKey world) 0 plan.keys [] with
  | .inl step => pure step
  | .inr last =>
    match ← tryEach (tryFile world plan) 0 plan.keyFiles last with
    | .inl step => pure step
    | .inr last =>
      match ← tryAgent world plan with
      | none => fallbackKeys world plan last
      | some (.failed next) => fallbackKeys world plan next
      | some step => pure step

/-- Whether a prompt asks for a password. -/
def asksPassword (prompt : Prompt) : Bool :=
  (world.lower prompt.prompt).toList.tails.any fun tail => "password".toList.isPrefixOf tail

/-- The saved password, once, for a single masked prompt that asks for one. -/
def passwordFor (prompts : List Prompt) : Auth κ (Option Secret) := do
  let used ← Trace.getOwn
  match prompts with
  | [prompt] =>
    if plan.password.isSome && !used && !prompt.echo && asksPassword world prompt then
      Trace.setOwn true
      pure (some .saved)
    else pure none
  | _ => pure none

/-- The answers to prompts: none, the saved password, or what the user types. -/
def promptAnswers (name instructions : String) (prompts : List Prompt) : Auth κ (List Secret) := do
  if prompts.isEmpty then pure []
  else
    match ← passwordFor world plan prompts with
    | some secret => pure [secret]
    | none =>
      match ← ask world (.keyboardInteractive name instructions prompts) with
      | .secrets secrets => pure (secrets.map .typed)
      | .remember secrets => pure (secrets.map .typed)
      | .other => throw .cancelled

def keyboardLoop : Nat → Reply → Auth κ Step
  | 0, _ => throw .stopped
  | fuel + 1, reply =>
    match reply with
    | .result result => pure (Step.of result)
    | .error => throw .failed
    | .infoRequest name instructions prompts => do
        let answers ← promptAnswers world plan name instructions prompts
        let reply ← interact world (.respond answers)
        keyboardLoop fuel reply

def keyboard (fuel : Nat) : Auth κ Step := do
  let reply ← interact world .keyboardStart
  keyboardLoop world plan fuel reply

/-- The saved password when it is unused, else one the user types. -/
def nextPassword (attempt : Nat) : Auth κ (Secret × Option String) := do
  let used ← Trace.getOwn
  if plan.password.isSome && !used then
    Trace.setOwn true
    pure (.saved, none)
  else
    let answer ← ask world (.password (decide (attempt > 0)) plan.canRemember)
    match typed answer with
    | some (secret, remember) =>
      pure (.typed secret, if remember then some secret else none)
    | none => throw .cancelled

def passwordLoop (attempt : Nat) : Nat → List MethodKind → Auth κ Step
  | 0, last => pure (.failed last)
  | tries + 1, _ => do
      let (secret, remember) ← nextPassword world plan attempt
      let result ← exchange world (.password secret)
      match Step.of result with
      | .failed next =>
        if offers next .password then passwordLoop (attempt + 1) tries next
        else pure (.failed next)
      | step =>
        match remember with
        | some text =>
          if plan.canRemember then
            Trace.emit (.remembered .password text)
            pure step
          else pure step
        | none => pure step

def password : Auth κ Step := passwordLoop world plan 0 3 []

def runMethod (fuel : Nat) : AuthMethod → Auth κ Step
  | .publicKey => publicKeys world plan
  | .keyboardInteractive => keyboard world plan fuel
  | .password => password world plan

/-- The loop over methods: those done, and those tried so far. -/
def authenticateLoop : Nat → List MethodKind → List AuthMethod → List AuthMethod → Auth κ Unit
  | 0, _, _, _ => throw .stopped
  | fuel + 1, remaining, done, tried =>
    match plan.methods.find? fun method => !done.contains method && offers remaining method with
    | none => throw (.auth tried remaining)
    | some method => do
        Trace.emit (.started method)
        match ← runMethod world plan fuel method with
        | .success => pure ()
        | .more next =>
          authenticateLoop fuel next
            ((method :: done).filter fun other => decide (other = method))
            (tried ++ [method])
        | .failed next =>
          authenticateLoop fuel next (method :: done) (tried ++ [method])

/-- The plan with the secrets of its source. -/
def AuthPlan.fetched (plan : AuthPlan κ) : Option (AuthPlan κ) :=
  match plan.source with
  | none => some plan
  | some none => none
  | some (some secrets) =>
    some
      { plan with
        source := none
        password := plan.password.or secrets.password
        keyPassphrase := plan.keyPassphrase.or secrets.keyPassphrase
        keys := secrets.keys ++ plan.keys }

/-- Authenticates a hop, in so many steps. -/
def authenticate (fuel : Nat) : Auth κ Unit := do
  match plan.fetched with
  | none => throw .failed
  | some plan =>
    match ← exchange world .none with
    | .success => pure ()
    | .failure remaining _ => authenticateLoop world plan fuel remaining [] []

end Programs

end Authenticate

end Opensesh
