/-
What authentication sends: methods the server offers, each key source once in a
round, the saved password once and as the answer to a masked prompt.
-/
import Opensesh.Authenticate
import Mathlib.Data.List.Induction

namespace Opensesh

open List

namespace Authenticate

/-- What is known of the methods the server wants. -/
inductive Word
  | nobody
  /-- The list of the last answer. -/
  | methods (remaining : List MethodKind)
  /-- A method was started and has no answer yet. -/
  | nothing
  /-- The agent failed after the last answer. -/
  | lost

/-- A summary of a log. -/
structure Seen (κ : Type) where
  word : Word
  current : Option AuthMethod
  /-- The methods started since the last partial success. -/
  round : List AuthMethod
  /-- The key sources used since then. -/
  sources : List KeySource
  /-- How often the saved password was sent. -/
  saved : Nat
  last : Option (Event κ)

def Request.source {κ : Type} : Request κ → List KeySource
  | .key source _ => [source]
  | _ => []

def Request.savedCount {κ : Type} : Request κ → Nat
  | .password .saved => 1
  | .respond answers => answers.count .saved
  | _ => 0

section Summary

variable {κ : Type}

def nobodySeen : Seen κ := ⟨.nobody, none, [], [], 0, none⟩

def Seen.next (w : Seen κ) (e : Event κ) : Seen κ :=
  match e with
  | .started method =>
    { w with
      word := .nothing
      current := some method
      round := method :: w.round
      last := some e }
  | .sent request reply =>
    match reply with
    | .result (.failure remaining true) =>
      { w with
        word := .methods remaining
        round := []
        sources := []
        saved := w.saved + request.savedCount
        last := some e }
    | .result (.failure remaining false) =>
      { w with
        word := .methods remaining
        sources := request.source ++ w.sources
        saved := w.saved + request.savedCount
        last := some e }
    | _ =>
      { w with
        sources := request.source ++ w.sources
        saved := w.saved + request.savedCount
        last := some e }
  | .repliesLost => { w with word := .lost, last := some e }
  | .asked _ _ | .remembered _ _ => { w with last := some e }

/-- A method is in the latest list the server sent, or the list is empty; or the
public-key method before it had no answer, or lost it to the agent. -/
def Offered (w : Seen κ) (method : AuthMethod) : Prop :=
  match w.word with
  | .methods remaining => remaining = [] ∨ kind method ∈ remaining
  | .nothing | .lost => w.current = some .publicKey
  | .nobody => False

/-- What may be sent after what was seen. -/
def Allowed (world : World κ) (w : Seen κ) : Event κ → Prop
  | .started method => Offered w method ∧ method ∉ w.round
  | .sent (.key source _) _ =>
    w.current = some .publicKey ∧ source ∉ w.sources
  | .sent .keyboardStart _ => w.current = some .keyboardInteractive
  | .sent (.respond answers) _ =>
    w.current = some .keyboardInteractive ∧
      (.saved ∈ answers → answers = [.saved] ∧ w.saved = 0 ∧
        ∃ request name instructions prompt, w.last = some (.sent request
          (.infoRequest name instructions [prompt])) ∧ prompt.echo = false ∧
          asksPassword world prompt = true)
  | .sent (.password secret) _ =>
    w.current = some .password ∧
      (∀ remaining, w.word = .methods remaining → remaining = [] ∨ .password ∈ remaining) ∧
      match secret with
      | .saved => w.saved = 0
      | .typed text => ∃ retry canRemember answer remember,
          w.last = some (.asked (.password retry canRemember) answer) ∧
            typed answer = some (text, remember)
  | _ => True

end Summary

section Specs

variable {κ α : Type} (world : World κ) (plan : AuthPlan κ)

/-- Pre- and postconditions of the programs here. -/
abbrev Does (p : Seen κ → Bool → Prop) (m : Auth κ α) (q : α → Seen κ → Bool → Prop)
    (err : Seen κ → Bool → Prop) : Prop :=
  Trace.Spec Seen.next nobodySeen (Allowed world) p m q err

variable {world plan}

/-- While the saved password is unused it was not sent. -/
def Unused (w : Seen κ) (used : Bool) : Prop := used = false → w.saved = 0

variable {p : Seen κ → Bool → Prop} {err : Seen κ → Bool → Prop}

variable {request : Request κ}

theorem does_exchange {q : AuthResult → Seen κ → Bool → Prop}
    (hok : ∀ w used reply, p w used → Allowed world w (.sent request reply))
    (hq : ∀ w used result, p w used → q result (w.next (.sent request (.result result))) used)
    (herr : ∀ w used, p w used → err (w.next (.sent request .error)) used) :
    Does world p (exchange world request) q err := by
  refine Trace.Spec.bind (Trace.Spec.getLog fun _ _ _ h => h) fun log => ?_
  split
  · rename_i result _
    refine Trace.Spec.bind (q := fun _ => q result)
      (Trace.Spec.emit fun w used h => ⟨hok w used _ h, hq w used result h⟩) fun _ => ?_
    exact Trace.Spec.pure fun _ _ h => h
  · refine Trace.Spec.bind (q := fun _ => err)
      (Trace.Spec.emit fun w used h => ⟨hok w used _ h, herr w used h⟩) fun _ => ?_
    exact Trace.Spec.throw fun _ _ h => h

theorem does_interact {q : Reply → Seen κ → Bool → Prop}
    (hok : ∀ w used reply, p w used → Allowed world w (.sent request reply))
    (hq : ∀ w used reply, p w used → q reply (w.next (.sent request reply)) used)
    (herr : ∀ w used, p w used → err (w.next (.sent request .error)) used) :
    Does world p (interact world request) q err := by
  refine Trace.Spec.bind (Trace.Spec.getLog fun _ _ _ h => h) fun log => ?_
  split
  · rename_i reply _
    refine Trace.Spec.bind (q := fun _ => q reply)
      (Trace.Spec.emit fun w used h => ⟨hok w used _ h, hq w used reply h⟩) fun _ => ?_
    exact Trace.Spec.pure fun _ _ h => h
  · refine Trace.Spec.bind (q := fun _ => err)
      (Trace.Spec.emit fun w used h => ⟨hok w used _ h, herr w used h⟩) fun _ => ?_
    exact Trace.Spec.throw fun _ _ h => h

theorem does_ask {question : Question} {q : Answer → Seen κ → Bool → Prop}
    (hq : ∀ w used answer, p w used → q answer (w.next (.asked question answer)) used) :
    Does world p (ask world question) q err := by
  refine Trace.Spec.bind (Trace.Spec.getLog fun _ _ _ h => h) fun log => ?_
  refine Trace.Spec.bind (q := fun _ => q (world.ask log question))
    (Trace.Spec.emit fun w used h => ⟨trivial, hq w used _ h⟩) fun _ => ?_
  exact Trace.Spec.pure fun _ _ h => h

end Specs

section Methods

variable {κ : Type}

/-- What holds when the next method is chosen. -/
def Ready (remaining : List MethodKind) (done : List AuthMethod) (w : Seen κ)
    (used : Bool) : Prop :=
  Unused w used ∧
    (w.word = .methods remaining ∨
      (w.word = .nothing ∨ w.word = .lost) ∧ w.current = some .publicKey) ∧
    (∀ method ∈ w.round, method ∈ done) ∧ (.publicKey ∉ done → w.sources = [])

/-- What holds when a method was started. -/
def Begun (method : AuthMethod) (done : List AuthMethod) (w : Seen κ) (used : Bool) : Prop :=
  Unused w used ∧ w.word = .nothing ∧ w.current = some method ∧
    (∀ other ∈ w.round, other ∈ method :: done) ∧ (.publicKey ∉ done → w.sources = [])

/-- What holds when a method ended. -/
def Ended (method : AuthMethod) (done : List AuthMethod) (step : Step) (w : Seen κ)
    (used : Bool) : Prop :=
  match step with
  | .success => True
  | .more next => Ready next [method] w used
  | .failed next => Ready next (method :: done) w used

/-- The position of a key source: its kind, and its place there. -/
def KeySource.position : KeySource → Nat × Nat × Nat
  | .key i => (0, i, 0)
  | .file i => (1, i, 0)
  | .agent stream i => (2, stream, i)
  | .fallback i => (3, i, 0)

/-- A source comes before a position. -/
def KeySource.Before (source : KeySource) (a b c : Nat) : Prop :=
  source.position.1 < a ∨ source.position.1 = a ∧
    (source.position.2.1 < b ∨ source.position.2.1 = b ∧ source.position.2.2 < c)

theorem KeySource.Before.mono {source : KeySource} {a b c a' b' c' : Nat}
    (h : source.Before a b c) (hle : a < a' ∨ a = a' ∧ (b < b' ∨ b = b' ∧ c ≤ c')) :
    source.Before a' b' c' := by
  unfold KeySource.Before at *
  omega

/-- What holds while keys are tried: the sources used come before a position. -/
def Trying (done : List AuthMethod) (a b c : Nat) (last : List MethodKind)
    (w : Seen κ) (used : Bool) : Prop :=
  Unused w used ∧ w.current = some .publicKey ∧
    (w.word = .methods last ∨ w.word = .nothing ∨ w.word = .lost) ∧
    (∀ method ∈ w.round, method ∈ AuthMethod.publicKey :: done) ∧
    ∀ source ∈ w.sources, source.Before a b c

variable {done : List AuthMethod} {last : List MethodKind} {w : Seen κ} {used : Bool}

theorem Trying.mono {a b c a' b' c' : Nat} (h : Trying done a b c last w used)
    (hle : a < a' ∨ a = a' ∧ (b < b' ∨ b = b' ∧ c ≤ c')) : Trying done a' b' c' last w used :=
  ⟨h.1, h.2.1, h.2.2.1, h.2.2.2.1, fun source hsource => (h.2.2.2.2 source hsource).mono hle⟩

theorem Trying.ended {a b c : Nat} (h : Trying done a b c last w used) :
    Ended .publicKey done (.failed last) w used := by
  refine ⟨h.1, ?_, h.2.2.2.1, fun hnot => absurd mem_cons_self hnot⟩
  rcases h.2.2.1 with hword | hword
  · exact Or.inl hword
  · exact Or.inr ⟨hword, h.2.1⟩

/-- What a refusal, or a partial success, of a key leaves. -/
theorem Trying.sent {a b c a' b' c' : Nat} (h : Trying done a b c last w used) {source : KeySource}
    (offer : κ) (hafter : source.Before a' b' c')
    (hle : a < a' ∨ a = a' ∧ (b < b' ∨ b = b' ∧ c ≤ c')) (result : AuthResult) :
    match Step.of result with
    | .failed next => Trying done a' b' c' next
        (w.next (.sent (.key source offer) (.result result))) used
    | step => Ended .publicKey done step
        (w.next (.sent (.key source offer) (.result result))) used := by
  obtain ⟨hunused, hcurrent, -, hround, hsources⟩ := h
  cases result with
  | success => trivial
  | failure remaining partialSuccess =>
    cases partialSuccess with
    | true =>
      refine ⟨hunused, Or.inl rfl, ?_, fun _ => rfl⟩
      exact fun method hmethod => absurd hmethod not_mem_nil
    | false =>
      refine ⟨hunused, hcurrent, Or.inl rfl, hround, fun other hother => ?_⟩
      rcases mem_cons.mp hother with rfl | hold
      · exact hafter
      · exact (hsources other hold).mono hle

end Methods

section Keys

variable {κ α : Type} {world : World κ} {plan : AuthPlan κ} {done : List AuthMethod}

/-- Nothing is claimed of failures. -/
def anything (_ : Seen κ) (_ : Bool) : Prop := True

/-- What trying one key leaves. -/
def Tried (done : List AuthMethod) (a b c : Nat) (last : List MethodKind)
    (tried : Option Step) (w : Seen κ) (used : Bool) : Prop :=
  match tried with
  | none => Trying done a b c last w used
  | some (.failed next) => Trying done a b c next w used
  | some step => Ended .publicKey done step w used

theorem does_tryEach {act : Nat → α → Auth κ (Option Step)} {a : Nat}
    (hact : ∀ i item last, Does world (Trying done a i 0 last) (act i item)
      (Tried done a (i + 1) 0 last) anything) (i : Nat) (items : List α)
    (last : List MethodKind) :
    Does world (Trying done a i 0 last) (tryEach act i items last)
      (fun result => match result with
        | .inl step => Ended .publicKey done step
        | .inr last => Trying done (a + 1) 0 0 last) anything := by
  induction items generalizing i last with
  | nil => exact Trace.Spec.pure fun w used h => h.mono (by omega)
  | cons item rest ih =>
    refine Trace.Spec.bind (hact i item last) fun tried => ?_
    cases tried with
    | none => exact ih (i + 1) last
    | some step =>
      cases step with
      | failed next => exact ih (i + 1) next
      | success => exact Trace.Spec.pure fun _ _ h => h
      | more next => exact Trace.Spec.pure fun _ _ h => h

theorem does_offer {a b c a' b' c' : Nat} {last : List MethodKind} {source : KeySource}
    {offer : κ} (hposition : source.position = (a, b, c))
    (hafter : source.Before a' b' c')
    (hle : a < a' ∨ a = a' ∧ (b < b' ∨ b = b' ∧ c ≤ c')) :
    Does world (Trying done a b c last) (exchange world (.key source offer))
      (fun result => Tried done a' b' c' last (some (Step.of result))) anything := by
  refine does_exchange (fun w used reply h => ⟨h.2.1, fun hmem => ?_⟩)
    (fun w used result h => ?_) fun _ _ _ => trivial
  · have hbefore := h.2.2.2.2 source hmem
    unfold KeySource.Before at hbefore
    rw [hposition] at hbefore
    dsimp only at hbefore
    omega
  · have hsent := h.sent offer hafter hle result
    unfold Tried
    cases hstep : Step.of result with
    | failed next => rw [hstep] at hsent; exact hsent
    | success => rw [hstep] at hsent; exact hsent
    | more next => rw [hstep] at hsent; exact hsent

/-- A try of one key: the next one of its kind is what may come after it. -/
theorem does_tryNext {k i : Nat} {last : List MethodKind} {source : KeySource} {offer : κ}
    (hposition : source.position = (k, i, 0)) :
    Does world (Trying done k i 0 last)
      (exchange world (.key source offer) >>= fun result => pure (some (Step.of result)))
      (Tried done k (i + 1) 0 last) anything := by
  refine Trace.Spec.bind (does_offer hposition ?_ ?_) fun result => Trace.Spec.pure fun _ _ h => h
  · unfold KeySource.Before
    rw [hposition]
    dsimp only
    omega
  · omega

theorem does_tryKey (i : Nat) (key : κ) (last : List MethodKind) :
    Does world (Trying done 0 i 0 last) (tryKey world i key)
      (Tried done 0 (i + 1) 0 last) anything := does_tryNext rfl

variable {p : Seen κ → Bool → Prop}

theorem does_askPassphrase (hstable : ∀ w used last, p w used → p { w with last } used)
    (file : String) (attempt tries : Nat) :
    Does world p (askPassphrase world plan file attempt tries) (fun _ => p) anything := by
  induction tries generalizing attempt with
  | zero => exact Trace.Spec.pure fun _ _ h => h
  | succ tries ih =>
    refine Trace.Spec.bind (q := fun _ => p)
      (does_ask fun w used answer h => hstable w used _ h) fun answer => ?_
    split
    · exact Trace.Spec.pure fun _ _ h => h
    · refine Trace.Spec.bind (q := fun _ => p) (Trace.Spec.getLog fun _ _ _ h => h) fun log => ?_
      split
      · split
        · refine Trace.Spec.bind (q := fun _ => p)
            (Trace.Spec.emit fun w used h => ⟨trivial, hstable w used _ h⟩) fun _ => ?_
          exact Trace.Spec.pure fun _ _ h => h
        · exact Trace.Spec.pure fun _ _ h => h
      · exact ih (attempt + 1)

theorem does_loadKeyFile (hstable : ∀ w used last, p w used → p { w with last } used)
    (file : String) : Does world p (loadKeyFile world plan file) (fun _ => p) anything := by
  refine Trace.Spec.bind (q := fun _ => p) (Trace.Spec.getLog fun _ _ _ h => h) fun log => ?_
  split
  · exact Trace.Spec.pure fun _ _ h => h
  · exact Trace.Spec.pure fun _ _ h => h
  · split
    · exact Trace.Spec.pure fun _ _ h => h
    · exact does_askPassphrase hstable file 0 3

theorem does_tryFile (i : Nat) (file : String) (last : List MethodKind) :
    Does world (Trying done 1 i 0 last) (tryFile world plan i file)
      (Tried done 1 (i + 1) 0 last) anything := by
  refine Trace.Spec.bind (does_loadKeyFile (fun _ _ _ h => h) file) fun found => ?_
  cases found with
  | none => exact Trace.Spec.pure fun _ _ h => h.mono (by omega)
  | some key =>
    refine Trace.Spec.bind (q := fun _ => Trying done 1 i 0 last)
      (Trace.Spec.getLog fun _ _ _ h => h) fun log => ?_
    exact does_tryNext rfl

theorem does_tryFallback (i : Nat) (file : String) (last : List MethodKind) :
    Does world (Trying done 3 i 0 last) (tryFallback world plan i file)
      (Tried done 3 (i + 1) 0 last) anything := by
  refine Trace.Spec.bind (q := fun _ => Trying done 3 i 0 last)
    (Trace.Spec.getLog fun _ _ _ h => h) fun log => ?_
  split
  · refine Trace.Spec.bind (does_loadKeyFile (fun _ _ _ h => h) file) fun found => ?_
    cases found with
    | none => exact Trace.Spec.pure fun _ _ h => h.mono (by omega)
    | some key => exact does_tryNext rfl
  · exact Trace.Spec.pure fun _ _ h => h.mono (by omega)

/-- What holds while the agent's keys are tried: its last answer, else that from
before. -/
def AgentTrying (done : List AuthMethod) (b c : Nat) (before : List MethodKind)
    (last : Option (List MethodKind)) : Seen κ → Bool → Prop :=
  Trying done 2 b c (last.getD before)

/-- An agent that fails leaves what was known before it, or the answers lost. -/
theorem does_agentError {b c : Nat} {before : List MethodKind}
    {last : Option (List MethodKind)} {q : α → Seen κ → Bool → Prop} :
    Does world (AgentTrying done b c before last) (agentError last) q
      (Trying done 3 0 0 before) := by
  unfold agentError
  cases last with
  | none => exact Trace.Spec.throw fun _ _ h => h.mono (by omega)
  | some next =>
    refine Trace.Spec.bind (q := fun _ => Trying done 3 0 0 before)
      (Trace.Spec.emit fun w used h => ⟨trivial, ?_⟩) fun _ => Trace.Spec.throw fun _ _ h => h
    have hnext : Trying done 3 0 0 next w used := h.mono (by omega)
    exact ⟨hnext.1, hnext.2.1, Or.inr (Or.inr rfl), hnext.2.2.2⟩

/-- What the agent's keys leave. -/
def AgentTried (done : List AuthMethod) (b c : Nat) (before : List MethodKind)
    (result : Step ⊕ Option (List MethodKind)) (w : Seen κ) (used : Bool) : Prop :=
  match result with
  | .inl step => Ended .publicKey done step w used ∧ ∀ next, step ≠ .failed next
  | .inr last => AgentTrying done b c before last w used

theorem does_agentIdentities (stream : Nat) (identities : List κ) (i : Nat)
    (before : List MethodKind) (last : Option (List MethodKind)) :
    Does world (AgentTrying done stream i before last)
      (agentIdentities world stream i identities last)
      (AgentTried done (stream + 1) 0 before) (Trying done 3 0 0 before) := by
  induction identities generalizing i last with
  | nil => exact Trace.Spec.pure fun _ _ h => h.mono (by omega)
  | cons identity rest ih =>
    have hafter : (KeySource.agent stream i).Before 2 stream (i + 1) := by
      unfold KeySource.Before KeySource.position
      dsimp only
      omega
    have hallowed : ∀ (w : Seen κ) used reply, AgentTrying done stream i before last w used →
        Allowed world w (.sent (.key (.agent stream i) identity) reply) := by
      intro w used reply h
      refine ⟨h.2.1, fun hmem => ?_⟩
      have hbefore := h.2.2.2.2 _ hmem
      unfold KeySource.Before KeySource.position at hbefore
      dsimp only at hbefore
      omega
    refine Trace.Spec.bind (q := fun _ => AgentTrying done stream i before last)
      (Trace.Spec.getLog fun _ _ _ h => h) fun log => ?_
    split
    · refine Trace.Spec.bind (q := fun _ => AgentTrying done stream (i + 1) before last)
        (Trace.Spec.emit fun w used h => ⟨hallowed w used _ h, ?_⟩) fun _ => does_agentError
      refine ⟨h.1, h.2.1, h.2.2.1, h.2.2.2.1, fun source hsource => ?_⟩
      rcases mem_cons.mp hsource with rfl | hold
      · exact hafter
      · exact (h.2.2.2.2 source hold).mono (by omega)
    · rename_i result _
      refine Trace.Spec.bind (q := fun _ w used => match Step.of result with
          | .failed next => AgentTrying done stream (i + 1) before (some next) w used
          | step => Ended .publicKey done step w used)
        (Trace.Spec.emit fun w used h => ⟨hallowed w used _ h, ?_⟩) fun _ => ?_
      · exact h.sent identity hafter (by omega) result
      · cases Step.of result with
        | failed next => exact ih (i + 1) (some next)
        | success => exact Trace.Spec.pure fun _ _ h => ⟨h, by simp⟩
        | more next => exact Trace.Spec.pure fun _ _ h => ⟨h, by simp⟩

theorem does_agentStreams (streams : List (Option (List κ))) (stream : Nat)
    (before : List MethodKind) (last : Option (List MethodKind)) :
    Does world (AgentTrying done stream 0 before last)
      (agentStreams world stream streams last)
      (fun result w used => match result with
        | .inl step => Ended .publicKey done step w used ∧ ∀ next, step ≠ .failed next
        | .inr last => Trying done 3 0 0 (last.getD before) w used)
      (Trying done 3 0 0 before) := by
  induction streams generalizing stream last with
  | nil => exact Trace.Spec.pure fun _ _ h => h.mono (by omega)
  | cons identities rest ih =>
    cases identities with
    | none => exact does_agentError
    | some identities =>
      refine Trace.Spec.bind (does_agentIdentities stream identities 0 before last) fun result => ?_
      cases result with
      | inl step => exact Trace.Spec.pure fun _ _ h => h
      | inr last => exact ih (stream + 1) last

theorem does_agentKeys (before : List MethodKind) :
    Does world (Trying done 2 0 0 before) (agentKeys world)
      (Tried done 3 0 0 before) (Trying done 3 0 0 before) := by
  refine Trace.Spec.bind (q := fun _ => AgentTrying done 0 0 before none)
    (Trace.Spec.getLog fun _ _ _ h => h) fun log => ?_
  split
  · exact does_agentError
  · rename_i streams _
    refine Trace.Spec.bind (does_agentStreams streams 0 before none) fun result => ?_
    cases result with
    | inl step =>
      refine Trace.Spec.pure fun w used h => ?_
      cases step with
      | failed next => exact absurd rfl (h.2 next)
      | success => exact h.1
      | more next => exact h.1
    | inr last =>
      refine Trace.Spec.pure fun w used h => ?_
      cases last with
      | none => exact h
      | some next => exact h

theorem does_tryAgent (last : List MethodKind) :
    Does world (Trying done 2 0 0 last) (tryAgent world plan) (Tried done 3 0 0 last) anything := by
  unfold tryAgent
  split
  · exact Trace.Spec.tryCatch (does_agentKeys last) fun _ => Trace.Spec.pure fun _ _ h => h
  · exact Trace.Spec.pure fun _ _ h => h.mono (by omega)

theorem does_fallbackKeys (last : List MethodKind) :
    Does world (Trying done 3 0 0 last) (fallbackKeys world plan last)
      (Ended .publicKey done) anything := by
  refine Trace.Spec.bind (does_tryEach does_tryFallback 0 plan.fallbackKeyFiles last)
    fun result => ?_
  cases result with
  | inl step => exact Trace.Spec.pure fun _ _ h => h
  | inr last => exact Trace.Spec.pure fun _ _ h => h.ended

theorem does_publicKeys (hdone : .publicKey ∉ done) :
    Does world (Begun .publicKey done) (publicKeys world plan)
      (Ended .publicKey done) anything := by
  have hbegin : Does world (Begun .publicKey done) (tryEach (tryKey world) 0 plan.keys [])
      (fun result => match result with
        | .inl step => Ended .publicKey done step
        | .inr last => Trying done 1 0 0 last) anything := by
    refine (does_tryEach does_tryKey 0 plan.keys []).weaken (fun w used h => ?_)
      (fun _ _ _ h => h) fun _ _ h => h
    obtain ⟨hunused, hword, hcurrent, hround, hsources⟩ := h
    refine ⟨hunused, hcurrent, Or.inr (Or.inl hword), hround, ?_⟩
    rw [hsources hdone]
    exact fun source hsource => absurd hsource not_mem_nil
  refine Trace.Spec.bind hbegin fun result => ?_
  cases result with
  | inl step => exact Trace.Spec.pure fun _ _ h => h
  | inr last =>
    refine Trace.Spec.bind (does_tryEach does_tryFile 0 plan.keyFiles last) fun result => ?_
    cases result with
    | inl step => exact Trace.Spec.pure fun _ _ h => h
    | inr last =>
      refine Trace.Spec.bind (does_tryAgent last) fun tried => ?_
      cases tried with
      | none => exact does_fallbackKeys last
      | some step =>
        cases step with
        | failed next => exact does_fallbackKeys next
        | success => exact Trace.Spec.pure fun _ _ h => h
        | more next => exact Trace.Spec.pure fun _ _ h => h

end Keys

section Secrets

variable {κ : Type} {world : World κ} {plan : AuthPlan κ} {done : List AuthMethod}

/-- What holds while a method other than public keys has no answer yet. -/
def Waiting (method : AuthMethod) (done : List AuthMethod) (w : Seen κ) (used : Bool) : Prop :=
  Unused w used ∧ w.current = some method ∧
    (∀ other ∈ w.round, other ∈ method :: done) ∧
    (.publicKey ∉ method :: done → w.sources = [])

variable {method : AuthMethod} {w : Seen κ} {used : Bool}

theorem Begun.waiting (h : Begun method done w used) : Waiting method done w used :=
  ⟨h.1, h.2.2.1, h.2.2.2.1, fun hnot => h.2.2.2.2 fun hmem => hnot (mem_cons_of_mem _ hmem)⟩

theorem Waiting.ended (h : Waiting method done w used) {request : Request κ}
    (hsource : request.source = []) (hsaved : used = false → request.savedCount = 0)
    (result : AuthResult) :
    Ended method done (Step.of result) (w.next (.sent request (.result result))) used := by
  have hunused : used = false → w.saved + request.savedCount = 0 := fun hused => by
    rw [h.1 hused, hsaved hused]
  cases result with
  | success => trivial
  | failure remaining partialSuccess =>
    cases partialSuccess with
    | true => exact ⟨hunused, Or.inl rfl, by simp [Seen.next], fun _ => rfl⟩
    | false =>
      refine ⟨hunused, Or.inl rfl, h.2.2.1, fun hnot => ?_⟩
      change request.source ++ w.sources = []
      rw [hsource, h.2.2.2 hnot]
      rfl

/-- What holds when answers to prompts are known. -/
def Answering (world : World κ) (done : List AuthMethod) (answers : List Secret)
    (w : Seen κ) (used : Bool) : Prop :=
  Waiting .keyboardInteractive done w used ∧
    (.saved ∈ answers → used = true ∧ answers = [.saved] ∧ w.saved = 0 ∧
      ∃ request name instructions prompt, w.last = some (.sent request
        (.infoRequest name instructions [prompt])) ∧ prompt.echo = false ∧
        asksPassword world prompt = true)

/-- What holds when the server has asked for answers. -/
def Prompted (done : List AuthMethod) (name instructions : String)
    (prompts : List Prompt) (w : Seen κ) (used : Bool) : Prop :=
  Waiting .keyboardInteractive done w used ∧
    ∃ request, w.last = some (.sent request (.infoRequest name instructions prompts))

theorem does_passwordFor (name instructions : String) (prompts : List Prompt) :
    Does world (Prompted done name instructions prompts)
      (passwordFor world plan prompts)
      (fun found w used => match found with
        | some secret => Answering world done [secret] w used
        | none => Waiting .keyboardInteractive done w used) anything := by
  refine Trace.Spec.bind (q := fun own w used =>
      Prompted done name instructions prompts w used ∧ own = used)
    (Trace.Spec.getOwn fun _ _ h => ⟨h, rfl⟩) fun own => ?_
  split
  · rename_i prompt
    split
    · rename_i hall
      rw [Bool.and_eq_true, Bool.and_eq_true, Bool.and_eq_true, Bool.not_eq_true',
        Bool.not_eq_true'] at hall
      obtain ⟨⟨⟨-, hunused⟩, hecho⟩, hasks⟩ := hall
      refine Trace.Spec.bind (q := fun _ => Answering world done [.saved])
        (Trace.Spec.setOwn fun w used h => ?_) fun _ => Trace.Spec.pure fun _ _ h => h
      obtain ⟨⟨hwait, request, hlast⟩, rfl⟩ := h
      refine ⟨⟨(by simp [Unused]), hwait.2⟩, fun _ => ?_⟩
      exact ⟨rfl, rfl, hwait.1 hunused, request, name, instructions, prompt, hlast, hecho, hasks⟩
    · exact Trace.Spec.pure fun _ _ h => h.1.1
  · exact Trace.Spec.pure fun _ _ h => h.1.1

theorem saved_notMem_typed (secrets : List String) : .saved ∉ secrets.map Secret.typed := by
  intro hmem
  obtain ⟨text, -, heq⟩ := mem_map.mp hmem
  cases heq

theorem does_promptAnswers (name instructions : String) (prompts : List Prompt) :
    Does world (Prompted done name instructions prompts)
      (promptAnswers world plan name instructions prompts)
      (fun answers => Answering world done answers) anything := by
  unfold promptAnswers
  split
  · exact Trace.Spec.pure fun _ _ h => ⟨h.1, fun hmem => absurd hmem not_mem_nil⟩
  · refine Trace.Spec.bind (does_passwordFor name instructions prompts) fun found => ?_
    cases found with
    | some secret => exact Trace.Spec.pure fun _ _ h => h
    | none =>
      refine Trace.Spec.bind (q := fun _ => Waiting .keyboardInteractive done)
        (does_ask fun _ _ _ h => h) fun answer => ?_
      cases answer with
      | secrets secrets =>
        exact Trace.Spec.pure fun _ _ h => ⟨h, fun hmem => absurd hmem (saved_notMem_typed secrets)⟩
      | remember secrets =>
        exact Trace.Spec.pure fun _ _ h => ⟨h, fun hmem => absurd hmem (saved_notMem_typed secrets)⟩
      | other => exact Trace.Spec.throw fun _ _ _ => trivial

/-- What holds when the server answered a keyboard-interactive request. -/
def Replied (done : List AuthMethod) (reply : Reply) (w : Seen κ) (used : Bool) : Prop :=
  match reply with
  | .result result => Ended .keyboardInteractive done (Step.of result) w used
  | .infoRequest name instructions prompts =>
    Prompted done name instructions prompts w used
  | .error => True

theorem Waiting.replied {w : Seen κ} {used : Bool}
    (h : Waiting .keyboardInteractive done w used) {request : Request κ}
    (hsource : request.source = []) (hsaved : used = false → request.savedCount = 0)
    (reply : Reply) : Replied done reply (w.next (.sent request reply)) used := by
  cases reply with
  | result result => exact h.ended hsource hsaved result
  | error => trivial
  | infoRequest name instructions prompts =>
    refine ⟨⟨fun hused => ?_, h.2.1, h.2.2.1, fun hnot => ?_⟩, request, rfl⟩
    · change w.saved + request.savedCount = 0
      rw [h.1 hused, hsaved hused]
    · change request.source ++ w.sources = []
      rw [hsource, h.2.2.2 hnot]
      rfl

theorem does_keyboardLoop (fuel : Nat) (reply : Reply) :
    Does world (Replied done reply) (keyboardLoop world plan fuel reply)
      (Ended .keyboardInteractive done) anything := by
  induction fuel generalizing reply with
  | zero => exact Trace.Spec.throw fun _ _ _ => trivial
  | succ fuel ih =>
    cases reply with
    | result result => exact Trace.Spec.pure fun _ _ h => h
    | error => exact Trace.Spec.throw fun _ _ _ => trivial
    | infoRequest name instructions prompts =>
      refine Trace.Spec.bind (does_promptAnswers name instructions prompts) fun answers => ?_
      refine Trace.Spec.bind (q := Replied done) (does_interact
        (fun w used reply h => ⟨h.1.2.1, fun hmem => ?_⟩) (fun w used reply h => ?_)
        fun _ _ _ => trivial) fun reply => ih reply
      · obtain ⟨-, hanswers, hsaved, hprompt⟩ := h.2 hmem
        exact ⟨hanswers, hsaved, hprompt⟩
      · refine h.1.replied rfl (fun hused => ?_) reply
        refine count_eq_zero.mpr fun hmem => ?_
        rw [(h.2 hmem).1] at hused
        cases hused

theorem does_keyboard (fuel : Nat) :
    Does world (Begun .keyboardInteractive done) (keyboard world plan fuel)
      (Ended .keyboardInteractive done) anything :=
  Trace.Spec.bind (does_interact (fun _ _ _ h => h.2.2.1)
    (fun _ _ reply h => h.waiting.replied rfl (fun _ => rfl) reply)
    fun _ _ _ => trivial) fun reply => does_keyboardLoop fuel reply

/-- What holds when a password may be sent. -/
def MaySend (done : List AuthMethod) (w : Seen κ) (used : Bool) : Prop :=
  Waiting .password done w used ∧ ∀ remaining, w.word = .methods remaining →
    remaining = [] ∨ .password ∈ remaining

/-- What holds when a password is known. -/
def Sending (done : List AuthMethod) (secret : Secret) (w : Seen κ) (used : Bool) : Prop :=
  MaySend done w used ∧
    match secret with
    | .saved => used = true ∧ w.saved = 0
    | .typed text => ∃ retry canRemember answer remember,
        w.last = some (.asked (.password retry canRemember) answer) ∧
          typed answer = some (text, remember)

theorem does_nextPassword (attempt : Nat) :
    Does world (MaySend done) (nextPassword world plan attempt)
      (fun found => Sending done found.1) anything := by
  refine Trace.Spec.bind (q := fun own w used => MaySend done w used ∧ own = used)
    (Trace.Spec.getOwn fun _ _ h => ⟨h, rfl⟩) fun own => ?_
  split
  · rename_i hall
    rw [Bool.and_eq_true, Bool.not_eq_true'] at hall
    refine Trace.Spec.bind (q := fun _ => Sending done .saved)
      (Trace.Spec.setOwn fun w used h => ?_) fun _ => Trace.Spec.pure fun _ _ h => h
    obtain ⟨⟨hwait, hword⟩, rfl⟩ := h
    exact ⟨⟨⟨by simp [Unused], hwait.2⟩, hword⟩, rfl, hwait.1 hall.2⟩
  · refine Trace.Spec.bind (q := fun answer w used => MaySend done w used ∧
        ∃ retry canRemember, w.last = some (.asked (.password retry canRemember) answer))
      (does_ask fun w used answer h => ⟨h.1, _, _, rfl⟩) fun answer => ?_
    split
    · rename_i secret remember htyped
      refine Trace.Spec.pure fun w used h => ⟨h.1, ?_⟩
      obtain ⟨retry, canRemember, hlast⟩ := h.2
      exact ⟨retry, canRemember, answer, remember, hlast, htyped⟩
    · exact Trace.Spec.throw fun _ _ _ => trivial

/-- What a password's answer leaves. -/
theorem Sending.ended {secret : Secret} (h : Sending done secret w used) (result : AuthResult) :
    Ended .password done (Step.of result)
        (w.next (.sent (.password secret) (.result result))) used ∧
      ∀ next, Step.of result = .failed next → offers next .password = true →
        MaySend done (w.next (.sent (.password secret) (.result result))) used := by
  have hsaved : used = false → (Request.password (κ := κ) secret).savedCount = 0 := by
    intro hused
    cases secret with
    | saved =>
      rw [h.2.1] at hused
      cases hused
    | typed text => rfl
  refine ⟨h.1.1.ended rfl hsaved result, fun next hstep hoffers => ?_⟩
  cases result with
  | success => cases hstep
  | failure remaining partialSuccess =>
    cases partialSuccess with
    | true => cases hstep
    | false =>
      obtain rfl := Step.failed.inj hstep
      refine ⟨⟨fun hused => ?_, h.1.1.2⟩, fun other hother => ?_⟩
      · change w.saved + (Request.password (κ := κ) secret).savedCount = 0
        rw [h.1.1.1 hused, hsaved hused]
      · obtain rfl := Word.methods.inj hother
        rw [offers, Bool.or_eq_true] at hoffers
        exact hoffers.imp List.isEmpty_iff.mp fun h => by simpa [kind] using h

theorem does_rememberPassword {step : Step} (remember : Option String)
    (hstep : ∀ next, step ≠ .failed next) :
    Does world (Ended .password done step)
      (match remember with
        | some text =>
          if plan.canRemember then do
            Trace.emit (.remembered .password text)
            pure step
          else pure step
        | none => pure step)
      (Ended .password done) anything := by
  cases remember with
  | none => exact Trace.Spec.pure fun _ _ h => h
  | some text =>
    dsimp only
    split
    · refine Trace.Spec.bind (q := fun _ => Ended .password done step)
        (Trace.Spec.emit fun w used h => ⟨trivial, ?_⟩) fun _ => Trace.Spec.pure fun _ _ h => h
      cases step with
      | success => trivial
      | more next => exact h
      | failed next => exact absurd rfl (hstep next)
    · exact Trace.Spec.pure fun _ _ h => h

theorem does_passwordLoop (attempt tries : Nat) (last : List MethodKind) :
    Does world (fun w used => MaySend done w used ∧
        (tries = 0 → Ended .password done (.failed last) w used))
      (passwordLoop world plan attempt tries last) (Ended .password done) anything := by
  induction tries generalizing attempt last with
  | zero => exact Trace.Spec.pure fun _ _ h => h.2 rfl
  | succ tries ih =>
    refine Trace.Spec.bind (q := fun found => Sending done found.1)
      ((does_nextPassword attempt).weaken (fun _ _ h => h.1) (fun _ _ _ h => h)
        fun _ _ h => h) fun found => ?_
    obtain ⟨secret, remember⟩ := found
    refine Trace.Spec.bind (q := fun result w used =>
        Ended .password done (Step.of result) w used ∧
          ∀ next, Step.of result = .failed next → offers next .password = true →
            MaySend done w used)
      (does_exchange (fun w used reply h => ?_) (fun w used result h => h.ended result)
        fun _ _ _ => trivial) fun result => ?_
    · refine ⟨h.1.1.2.1, h.1.2, ?_⟩
      cases secret with
      | saved => exact h.2.2
      | typed text => exact h.2
    · cases hstep : Step.of result with
      | failed next =>
        dsimp only
        split
        · rename_i hoffers
          refine (ih (attempt + 1) next).weaken (fun w used h => ?_)
            (fun _ _ _ h => h) fun _ _ h => h
          exact ⟨h.2 next rfl hoffers, fun _ => h.1⟩
        · exact Trace.Spec.pure fun _ _ h => h.1
      | success =>
        exact (does_rememberPassword remember (by simp)).weaken (fun _ _ h => h.1)
          (fun _ _ _ h => h) fun _ _ h => h
      | more next =>
        exact (does_rememberPassword remember (by simp)).weaken (fun _ _ h => h.1)
          (fun _ _ _ h => h) fun _ _ h => h

theorem does_password :
    Does world (Begun .password done) (password world plan) (Ended .password done) anything := by
  refine (does_passwordLoop 0 3 []).weaken (fun w used h => ⟨⟨h.waiting, ?_⟩, ?_⟩)
    (fun _ _ _ h => h) fun _ _ h => h
  · intro remaining hword
    rw [h.2.1] at hword
    cases hword
  · exact fun hzero => absurd hzero (by decide)

end Secrets

section Loop

variable {κ : Type} {world : World κ} {plan : AuthPlan κ}

variable {method : AuthMethod} {done : List AuthMethod}

theorem does_runMethod (hdone : method ∉ done) (fuel : Nat) :
    Does world (Begun method done) (runMethod world plan fuel method)
      (Ended method done) anything := by
  cases method with
  | publicKey => exact does_publicKeys hdone
  | keyboardInteractive => exact does_keyboard fuel
  | password => exact does_password

theorem Ready.started {remaining : List MethodKind} {w : Seen κ} {used : Bool}
    (h : Ready remaining done w used) (hdone : method ∉ done)
    (hoffers : offers remaining method = true) :
    Allowed world w (.started method) ∧ Begun method done (w.next (.started method)) used := by
  refine ⟨⟨?_, fun hmem => hdone (h.2.2.1 method hmem)⟩, h.1, rfl, rfl, ?_, h.2.2.2⟩
  · rw [offers, Bool.or_eq_true] at hoffers
    unfold Offered
    rcases h.2.1 with hword | ⟨hword | hword, hcurrent⟩
    · rw [hword]
      exact hoffers.imp List.isEmpty_iff.mp fun hmem => by simpa using hmem
    · rw [hword]
      exact hcurrent
    · rw [hword]
      exact hcurrent
  · intro other hother
    rcases mem_cons.mp hother with rfl | hold
    · exact mem_cons_self
    · exact mem_cons_of_mem _ (h.2.2.1 other hold)

theorem filter_done (hdone : method ∉ done) :
    (method :: done).filter (fun other => decide (other = method)) = [method] := by
  rw [filter_cons_of_pos (by simp), filter_eq_nil_iff.mpr]
  intro other hother heq
  exact hdone (by simpa using (of_decide_eq_true heq) ▸ hother)

theorem does_authenticateLoop (fuel : Nat) (remaining : List MethodKind)
    (done tried : List AuthMethod) :
    Does world (Ready remaining done)
      (authenticateLoop world plan fuel remaining done tried) (fun _ => anything)
      anything := by
  induction fuel generalizing remaining done tried with
  | zero => exact Trace.Spec.throw fun _ _ _ => trivial
  | succ fuel ih =>
    rw [authenticateLoop]
    split
    · exact Trace.Spec.throw fun _ _ _ => trivial
    · rename_i method hfind
      have hfound := List.find?_some hfind
      rw [Bool.and_eq_true, Bool.not_eq_true'] at hfound
      have hdone : method ∉ done := by simpa using hfound.1
      refine Trace.Spec.bind (q := fun _ => Begun method done)
        (Trace.Spec.emit fun w used h => h.started hdone hfound.2) fun _ => ?_
      refine Trace.Spec.bind (does_runMethod hdone fuel) fun step => ?_
      cases step with
      | success => exact Trace.Spec.pure fun _ _ _ => trivial
      | failed next => exact ih next (method :: done) (tried ++ [method])
      | more next =>
        rw [filter_done hdone]
        exact ih next [method] (tried ++ [method])

/-- What holds after the answer to the first request. -/
def FirstAnswer (result : AuthResult) (w : Seen κ) (used : Bool) : Prop :=
  match result with
  | .success => True
  | .failure remaining _ => Ready remaining [] w used

theorem does_authenticate (world : World κ) (plan : AuthPlan κ) (fuel : Nat) :
    Does world (fun w used => w = nobodySeen ∧ used = false)
      (authenticate world plan fuel) (fun _ => anything) anything := by
  unfold authenticate
  split
  · exact Trace.Spec.throw fun _ _ _ => trivial
  · rename_i fetched _
    refine Trace.Spec.bind (q := FirstAnswer) (does_exchange (fun _ _ _ _ => trivial)
      (fun w used result h => ?_) fun _ _ _ => trivial) fun result => ?_
    · obtain ⟨rfl, rfl⟩ := h
      cases result with
      | success => trivial
      | failure remaining partialSuccess =>
        cases partialSuccess <;>
          exact ⟨fun _ => rfl, Or.inl rfl, by simp [Seen.next, nobodySeen], fun _ => rfl⟩
    · cases result with
      | success => exact Trace.Spec.pure fun _ _ _ => trivial
      | failure remaining partialSuccess => exact does_authenticateLoop fuel remaining [] []

/-- The log of an authentication, in so many steps. -/
def authenticated (world : World κ) (plan : AuthPlan κ) (fuel : Nat) : List (Event κ) :=
  match authenticate world plan fuel ⟨[], false⟩ with
  | .ok _ t => t.log
  | .error _ t => t.log

theorem every_authenticated (world : World κ) (plan : AuthPlan κ) (fuel : Nat) :
    Trace.Every Seen.next nobodySeen (Allowed world) (authenticated world plan fuel) := by
  have h := does_authenticate world plan fuel ⟨[], false⟩ ⟨Trace.every_nil, rfl, rfl⟩
  unfold authenticated
  cases hrun : authenticate world plan fuel ⟨[], false⟩ with
  | ok _ t => rw [hrun] at h; exact h.1
  | error _ t => rw [hrun] at h; exact h.1

/-- The saved password is sent once at most. -/
theorem saved_le_one {log : List (Event κ)}
    (h : Trace.Every Seen.next nobodySeen (Allowed world) log) :
    (Trace.seen Seen.next nobodySeen log).saved ≤ 1 := by
  induction log using List.reverseRecOn with
  | nil => exact Nat.zero_le 1
  | append_singleton before e ih =>
    have hbefore := ih fun earlier f later heq => h earlier f (later ++ [e]) (by rw [heq]; simp)
    have hallowed := h before e [] rfl
    rw [Trace.seen_append]
    generalize Trace.seen Seen.next nobodySeen before = w at hbefore hallowed
    cases e with
    | started method => exact hbefore
    | asked question answer => exact hbefore
    | remembered which secret => exact hbefore
    | repliesLost => exact hbefore
    | sent request reply =>
      have hnext : (w.next (.sent request reply)).saved = w.saved + request.savedCount := by
        unfold Seen.next
        dsimp only
        split <;> rfl
      rw [hnext]
      cases request with
      | none => exact hbefore
      | key source offer => exact hbefore
      | keyboardStart => exact hbefore
      | password secret =>
        cases secret with
        | saved =>
          have hzero : w.saved = 0 := hallowed.2.2
          rw [hzero]
          exact Nat.le_refl 1
        | typed text => exact hbefore
      | respond answers =>
        by_cases hmem : Secret.saved ∈ answers
        · obtain ⟨rfl, hzero, -⟩ := hallowed.2 hmem
          rw [hzero]
          exact Nat.le_refl 1
        · have hcount : (Request.respond (κ := κ) answers).savedCount = 0 := count_eq_zero.mpr hmem
          rw [hcount]
          exact hbefore

/-- Methods are started while the server offers them or says nothing, once in a
round, as key sources are used once; the saved password is sent once, as the
password or the answer to a single masked prompt. -/
theorem authenticate_allowed (world : World κ) (plan : AuthPlan κ) (fuel : Nat) :
    Trace.Every Seen.next nobodySeen (Allowed world) (authenticated world plan fuel) ∧
      (Trace.seen Seen.next nobodySeen (authenticated world plan fuel)).saved ≤ 1 :=
  ⟨every_authenticated world plan fuel, saved_le_one (every_authenticated world plan fuel)⟩

end Loop

namespace OffersWitness

/-- A server that refuses everything and names no method. -/
def silent : World Unit where
  authenticate _ _ := some (.failure [] false)
  interactive _ _ := some (.result (.failure [] false))
  ask _ _ := .other
  readKey _ _ := .notUsed
  decrypt _ _ _ := none
  isFile _ _ := false
  certificate _ _ := none
  agent _ := none
  lower := id

def plan : AuthPlan Unit := ⟨[], some "secret", [], [], none, false, [], none, false⟩

/-- Every method is started, although the server's list is empty. -/
theorem started_unlisted :
    authenticated silent plan 5 = [.sent .none (.result (.failure [] false)),
      .started .publicKey, .started .keyboardInteractive,
      .sent .keyboardStart (.result (.failure [] false)), .started .password,
      .sent (.password .saved) (.result (.failure [] false)),
      .asked (.password true false) .other] ∧
    kind .password ∉ ([] : List MethodKind) := by
  refine ⟨rfl, by decide⟩

end OffersWitness

end Authenticate

end Opensesh
