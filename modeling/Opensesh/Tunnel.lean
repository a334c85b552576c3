/-
Remote forwards over one SSH connection: the route table keyed by the port the
server listens on, written before the server answers and corrected after it.
-/
import Opensesh.Machine
import Mathlib.Data.List.Basic

namespace Opensesh

open Option

namespace Tunnel

/-- A host (a name or an address) and a port. -/
structure Endpoint where
  host : String
  port : Nat
deriving DecidableEq

/-- Where a port's channels go, and the forward whose counts and stop signal are
used. -/
structure Route where
  target : Endpoint
  owner : Nat

/-- Where a remote forward's connections go, by the port the server listens on. -/
def Routes := Nat → Option Route

namespace Routes

def get (routes : Routes) (port : Nat) : Option Route := routes port

def insert (routes : Routes) (port : Nat) (route : Route) : Routes :=
  fun other => if other = port then some route else routes other

def remove (routes : Routes) (port : Nat) : Routes :=
  fun other => if other = port then none else routes other

@[simp] theorem get_insert (routes : Routes) (port : Nat) (route : Route)
    (other : Nat) : (routes.insert port route).get other =
      if other = port then some route else routes.get other := rfl

@[simp] theorem get_remove (routes : Routes) (port other : Nat) :
    (routes.remove port).get other =
      if other = port then none else routes.get other := rfl

end Routes

/-- Where the task of a remote forward is. -/
inductive Phase
  /-- Not registered on the connection. -/
  | starting
  /-- The server was asked to listen. -/
  | asking
  /-- The server's answer is on its way to the task: a port, or a refusal. -/
  | answered (reply : Option Nat)
  /-- Reported as listening at a port. -/
  | running (port : Nat)
  | failed
  /-- The server was asked to stop listening. -/
  | cancelling (port : Nat) (finish : Bool)
  | finished

structure Forward where
  bind : Endpoint
  target : Endpoint
  phase : Phase

structure State where
  forwards : List Forward
  routes : Routes
  /-- The channels opened for listening forwards, and where they went. -/
  handed : List (Nat × Option Endpoint)

inductive Event
  | start (bind target : Endpoint)
  | ask (i : Nat)
  /-- The connection has no target to ask. -/
  | noTarget (i : Nat)
  | answer (i : Nat) (reply : Option Nat)
  | take (i : Nat)
  /-- The wait after `register` ends: the forward is stopped (it finishes), or the
  connection is replaced. -/
  | leave (i : Nat) (finish : Bool)
  | cancelled (i : Nat)
  /-- The server opens a channel for the listener of a forward. -/
  | channel (i : Nat)

/-- The port listened on: the server says it only when it picked one. -/
def listenPort (bind : Endpoint) (reply : Nat) : Nat :=
  if reply = 0 then bind.port else reply

/-- Sets a forward's phase, and the routes. -/
def State.move (s : State) (i : Nat) (phase : Phase) (routes : Routes) : State :=
  { s with
    forwards := s.forwards.modify i fun forward => { forward with phase }
    routes }

/-- `server_channel_open_forwarded_tcpip`: where a channel goes, if it is accepted. -/
def State.serve (s : State) (connectedPort : Nat) : Option Endpoint :=
  (s.routes.get connectedPort).map Route.target

/-- `register`, up to the request: a fixed port is routed before asking, so no
early connection is refused. -/
def State.register (s : State) (i : Nat) (forward : Forward) : State :=
  s.move i .asking
    (if forward.bind.port ≠ 0 then s.routes.insert forward.bind.port ⟨forward.target, i⟩
      else s.routes)

/-- `register`, once the server answered. -/
def State.registered (s : State) (i : Nat) (forward : Forward) : Option Nat → State
  | some reply =>
    let port := listenPort forward.bind reply
    let routes := s.routes.insert port ⟨forward.target, i⟩
    if port < 65536 then s.move i (.running port) routes
    else s.move i .failed routes
  | none => s.move i .failed (s.routes.remove forward.bind.port)

/-- `unregister`, up to the request. -/
def State.unregister (s : State) (i : Nat) (port : Nat) (finish : Bool) : State :=
  s.move i (.cancelling port finish) (s.routes.remove port)

/-- The port of the server's listener, where the task knows it. -/
def Forward.listening (forward : Forward) : Option Nat :=
  match forward.phase with
  | .running port => some port
  | .answered (some reply) =>
    if forward.bind.port = 0 then none else some (listenPort forward.bind reply)
  | _ => none

def stepForward (s : State) (i : Nat) (forward : Forward) : Event → Option State
  | .ask _ =>
    match forward.phase with
    | .starting => some (s.register i forward)
    | _ => none
  | .noTarget _ =>
    match forward.phase with
    | .starting => some (s.move i .failed s.routes)
    | _ => none
  | .answer _ reply =>
    match forward.phase with
    | .asking => some (s.move i (.answered reply) s.routes)
    | _ => none
  | .take _ =>
    match forward.phase with
    | .answered reply => some (s.registered i forward reply)
    | _ => none
  | .leave _ finish =>
    match forward.phase with
    | .running port => some (s.unregister i port finish)
    | .failed | .starting =>
      some (s.move i (if finish then .finished else .starting) s.routes)
    | _ => none
  | .cancelled _ =>
    match forward.phase with
    | .cancelling _ finish =>
      some (s.move i (if finish then .finished else .starting) s.routes)
    | _ => none
  | .channel _ =>
    forward.listening.map fun port => { s with handed := s.handed ++ [(i, s.serve port)] }
  | .start _ _ => none

def Event.index : Event → Nat
  | .start _ _ => 0
  | .ask i | .noTarget i | .answer i _ | .take i | .leave i _
  | .cancelled i | .channel i => i

def step (s : State) (event : Event) : Option State :=
  match event with
  | .start bind target =>
    some { s with forwards := s.forwards ++ [⟨bind, target, .starting⟩] }
  | event =>
    s.forwards[event.index]?.bind fun forward => stepForward s event.index forward event

/-- A connection without forwards. -/
def opened : State := ⟨[], fun _ => none, []⟩

/-- The port a forward needs: its fixed port from when it asks, or the one the
server gave. -/
def Forward.port (forward : Forward) : Option Nat :=
  match forward.phase with
  | .asking | .answered none =>
    if forward.bind.port = 0 then none else some forward.bind.port
  | .answered (some reply) => some (listenPort forward.bind reply)
  | .running port => some port
  | _ => none

/-- No other forward needs a port. -/
def State.free (s : State) (i : Nat) (port : Nat) : Prop :=
  ∀ j < s.forwards.length, j ≠ i → s.forwards[j]?.bind Forward.port ≠ some port

instance (s : State) (i port : Nat) : Decidable (s.free i port) :=
  inferInstanceAs (Decidable (∀ j < s.forwards.length, j ≠ i →
    s.forwards[j]?.bind Forward.port ≠ some port))

/-- A fixed port is asked for while no other forward needs it, and the server
gives that port, or one that no other forward needs. -/
def ApartForward (s : State) (i : Nat) (forward : Forward) : Event → Prop
  | .ask _ => forward.bind.port ≠ 0 → s.free i forward.bind.port
  | .answer _ (some reply) =>
    listenPort forward.bind reply ≠ 0 ∧
      (forward.bind.port ≠ 0 → listenPort forward.bind reply = forward.bind.port) ∧
      s.free i (listenPort forward.bind reply)
  | _ => True

instance (s : State) (i : Nat) (forward : Forward) (event : Event) :
    Decidable (ApartForward s i forward event) :=
  match event with
  | .ask _ => inferInstanceAs (Decidable (_ → _))
  | .answer _ (some _) => inferInstanceAs (Decidable (_ ∧ _))
  | .answer _ none | .start _ _ | .noTarget _ | .take _ | .leave _ _
  | .cancelled _ | .channel _ => inferInstanceAs (Decidable True)

def Apart (s : State) (event : Event) : Prop :=
  match s.forwards[event.index]? with
  | some forward => ApartForward s event.index forward event
  | none => True

instance (s : State) (event : Event) : Decidable (Apart s event) := by
  unfold Apart
  split
  · infer_instance
  · exact inferInstanceAs (Decidable True)

/-- The port whose route is a forward's own: all but a port the server picked
and the task was not told yet. -/
def Forward.routed (forward : Forward) : Option Nat :=
  match forward.phase with
  | .answered (some reply) =>
    if forward.bind.port = 0 then none else some (listenPort forward.bind reply)
  | _ => forward.port

theorem Forward.port_of_routed {forward : Forward} {port : Nat}
    (h : forward.routed = some port) : forward.port = some port := by
  unfold Forward.routed at h
  split at h
  · rename_i reply hphase
    split at h
    · cases h
    · rw [Forward.port, hphase]
      exact h
  · exact h

theorem Forward.routed_of_listening {forward : Forward} {port : Nat}
    (h : forward.listening = some port) : forward.routed = some port := by
  unfold Forward.listening at h
  split at h
  · rename_i hphase
    rw [Forward.routed, hphase, Forward.port, hphase]
    exact h
  · rename_i hphase
    rw [Forward.routed, hphase]
    exact h
  · cases h

theorem getElem_move (s : State) (i : Nat) (phase : Phase) (routes : Routes) (j : Nat) :
    (s.move i phase routes).forwards[j]? =
      if i = j then s.forwards[j]?.map fun forward => { forward with phase }
      else s.forwards[j]? := by
  rw [State.move, List.getElem?_modify]
  split
  · rfl
  · exact Option.map_id'

/-- Forwards need different ports, none of them 0, and the routes are theirs. -/
structure Routed (s : State) : Prop where
  apart : ∀ (i j : Nat) (f g : Forward) (port : Nat), s.forwards[i]? = some f →
    s.forwards[j]? = some g → f.port = some port → g.port = some port → i = j
  nonzero : ∀ (i : Nat) (f : Forward), s.forwards[i]? = some f → f.port ≠ some 0
  own : ∀ (i : Nat) (f : Forward) (port : Nat), s.forwards[i]? = some f → f.routed = some port →
    s.routes.get port = some ⟨f.target, i⟩
  handed : ∀ entry ∈ s.handed, ∃ f : Forward, s.forwards[entry.1]? = some f ∧
    entry.2 = some f.target

variable {s : State} {i j : Nat} {g f : Forward} {phase : Phase} {routes : Routes}

theorem State.free.eq {port : Nat} (h : s.free i port) (hg : s.forwards[j]? = some g)
    (hport : g.port = some port) : j = i := by
  by_contra hne
  refine h j (List.getElem?_eq_some_iff.mp hg).1 hne ?_
  rw [hg]
  exact hport

theorem forward_move (hf : s.forwards[i]? = some f)
    (hg : (s.move i phase routes).forwards[j]? = some g) :
    j = i ∧ g = { f with phase } ∨ j ≠ i ∧ s.forwards[j]? = some g := by
  rw [getElem_move] at hg
  split at hg
  · subst j
    rw [hf, map_some] at hg
    exact Or.inl ⟨rfl, (some.inj hg).symm⟩
  · rename_i hne
    exact Or.inr ⟨Ne.symm hne, hg⟩

theorem forward_kept (i : Nat) (phase : Phase) (routes : Routes) (hg : s.forwards[j]? = some g) :
    ∃ k : Forward, (s.move i phase routes).forwards[j]? = some k ∧ k.target = g.target := by
  rw [getElem_move]
  split
  · exact ⟨{ g with phase }, by rw [hg, map_some], rfl⟩
  · exact ⟨g, hg, rfl⟩

theorem Routed.move (h : Routed s) (hf : s.forwards[i]? = some f)
    (hport : ∀ port, { f with phase : Forward }.port = some port → port ≠ 0 ∧ s.free i port)
    (hown : ∀ port, { f with phase : Forward }.routed = some port →
      routes.get port = some ⟨f.target, i⟩)
    (hothers : ∀ (j : Nat) (g : Forward) (port : Nat), s.forwards[j]? = some g →
      j ≠ i → g.routed = some port → routes.get port = s.routes.get port) :
    Routed (s.move i phase routes) where
  apart j k g g' port hg hg' hgport hgport' := by
    rcases forward_move hf hg with ⟨rfl, rfl⟩ | ⟨-, hold⟩ <;>
      rcases forward_move hf hg' with ⟨rfl, rfl⟩ | ⟨-, hold'⟩
    · rfl
    · exact ((hport port hgport).2.eq hold' hgport').symm
    · exact (hport port hgport').2.eq hold hgport
    · exact h.apart j k g g' port hold hold' hgport hgport'
  nonzero j g hg hzero := by
    rcases forward_move hf hg with ⟨rfl, rfl⟩ | ⟨-, hold⟩
    · exact (hport 0 hzero).1 rfl
    · exact h.nonzero j g hold hzero
  own j g port hg hrouted := by
    rcases forward_move hf hg with ⟨rfl, rfl⟩ | ⟨hne, hold⟩
    · exact hown port hrouted
    · exact (hothers j g port hold hne hrouted).trans (h.own j g port hold hrouted)
  handed entry hentry := by
    obtain ⟨g, hg, hto⟩ := h.handed entry hentry
    obtain ⟨k, hk, htarget⟩ := forward_kept i phase routes hg
    exact ⟨k, hk, htarget ▸ hto⟩

theorem Routed.free_of_port (h : Routed s) (hf : s.forwards[i]? = some f) {port : Nat}
    (hport : f.port = some port) : port ≠ 0 ∧ s.free i port := by
  refine ⟨fun hzero => h.nonzero i f hf (hzero ▸ hport), fun j hj hne hother => hne ?_⟩
  obtain ⟨g, hg, hgport⟩ := bind_eq_some_iff.mp hother
  exact h.apart j i g f port hg hf hgport hport

theorem State.free.ne {port : Nat} (h : s.free i port) (hg : s.forwards[j]? = some g) (hne : j ≠ i)
    {other : Nat} (hrouted : g.routed = some other) : other ≠ port := by
  rintro rfl
  exact hne (h.eq hg (Forward.port_of_routed hrouted))

section Operations

variable {s : State} (h : Routed s) {i : Nat} {f : Forward} (hf : s.forwards[i]? = some f)

include h hf

/-- Phases without a port need no route. -/
theorem Routed.move_idle {phase : Phase} {routes : Routes}
    (hidle : { f with phase : Forward }.port = none)
    (hothers : ∀ (j : Nat) (g : Forward) (port : Nat), s.forwards[j]? = some g →
      j ≠ i → g.routed = some port → routes.get port = s.routes.get port) :
    Routed (s.move i phase routes) := by
  refine h.move hf (fun port hport => ?_) (fun port hrouted => ?_) hothers
  · rw [hidle] at hport
    cases hport
  · rw [Forward.port_of_routed hrouted] at hidle
    cases hidle

theorem Routed.register (hfree : f.bind.port ≠ 0 → s.free i f.bind.port) :
    Routed (s.register i f) := by
  have hfixed : ∀ port, { f with phase := Phase.asking : Forward }.port = some port →
      f.bind.port ≠ 0 ∧ f.bind.port = port := by
    intro port hport
    change (if f.bind.port = 0 then none else some f.bind.port) = some port at hport
    split at hport
    · cases hport
    · rename_i hzero
      exact ⟨hzero, some.inj hport⟩
  refine h.move hf (fun port hport => ?_) (fun port hrouted => ?_) fun j g port hg hne hrouted => ?_
  · obtain ⟨hzero, rfl⟩ := hfixed port hport
    exact ⟨hzero, hfree hzero⟩
  · obtain ⟨hzero, rfl⟩ := hfixed port (Forward.port_of_routed hrouted)
    rw [if_pos hzero, Routes.get_insert, if_pos rfl]
  · split
    · rename_i hzero
      rw [Routes.get_insert, if_neg ((hfree hzero).ne hg hne hrouted)]
    · rfl

theorem Routed.answered (hphase : f.phase = .asking) (reply : Option Nat)
    (hgood : ApartForward s i f (.answer i reply)) :
    Routed (s.move i (.answered reply) s.routes) := by
  have hrouted : f.routed = f.port := by rw [Forward.routed, hphase]
  have hport : f.port = if f.bind.port = 0 then none else some f.bind.port := by
    rw [Forward.port, hphase]
  cases reply with
  | none =>
    have hsame : { f with phase := Phase.answered none : Forward }.port = f.port := hport.symm
    refine h.move hf (fun port hp => ?_) (fun port hr => ?_) fun _ _ _ _ _ _ => rfl
    · exact h.free_of_port hf (hsame ▸ hp)
    · exact h.own i f port hf (hrouted.trans (hsame ▸ Forward.port_of_routed hr))
  | some reply =>
    obtain ⟨hzero, hsame, hfree⟩ := hgood
    refine h.move hf (fun port hp => ?_) (fun port hr => ?_) fun _ _ _ _ _ _ => rfl
    · obtain rfl := some.inj hp
      exact ⟨hzero, hfree⟩
    · rw [Forward.routed] at hr
      dsimp only at hr
      split at hr
      · cases hr
      · rename_i hfixed
        obtain rfl := some.inj hr
        refine h.own i f _ hf (hrouted.trans ?_)
        rw [hport, if_neg hfixed, hsame hfixed]

theorem Routed.registered {reply : Option Nat} (hphase : f.phase = .answered reply) :
    Routed (s.registered i f reply) := by
  cases reply with
  | none =>
    refine h.move_idle hf rfl fun j g port hg hne hrouted => ?_
    rw [Routes.get_remove, if_neg]
    rintro rfl
    have hport := Forward.port_of_routed hrouted
    refine hne (h.apart j i g f _ hg hf hport ?_)
    rw [Forward.port, hphase]
    refine if_neg fun hzero => ?_
    rw [hzero] at hport
    exact h.nonzero j g hg hport
  | some reply =>
    have hport : f.port = some (listenPort f.bind reply) := by
      rw [Forward.port, hphase]
    obtain ⟨hzero, hfree⟩ := h.free_of_port hf hport
    have hothers : ∀ (j : Nat) (g : Forward) (port : Nat), s.forwards[j]? = some g →
        j ≠ i → g.routed = some port →
        (s.routes.insert (listenPort f.bind reply) ⟨f.target, i⟩).get port = s.routes.get port := by
      intro j g port hg hne hrouted
      rw [Routes.get_insert, if_neg (hfree.ne hg hne hrouted)]
    rw [State.registered]
    split
    · refine h.move hf (fun port hp => ?_) (fun port hr => ?_) hothers
      · obtain rfl := some.inj hp
        exact ⟨hzero, hfree⟩
      · obtain rfl := some.inj hr
        rw [Routes.get_insert, if_pos rfl]
    · exact h.move_idle hf rfl hothers

theorem Routed.unregister {port : Nat} (hphase : f.phase = .running port)
    (finish : Bool) : Routed (s.unregister i port finish) := by
  have hport : f.port = some port := by rw [Forward.port, hphase]
  refine h.move_idle hf rfl fun j g other hg hne hrouted => ?_
  rw [Routes.get_remove, if_neg ((h.free_of_port hf hport).2.ne hg hne hrouted)]

theorem Routed.stepForward {event : Event} {t : State}
    (hgood : ApartForward s i f event) (hindex : event.index = i)
    (hstep : stepForward s i f event = some t) : Routed t := by
  cases event with
  | start bind target => cases hstep
  | ask j =>
    rw [Tunnel.stepForward] at hstep
    split at hstep
    · obtain rfl := some.inj hstep
      exact h.register hf hgood
    · cases hstep
  | noTarget j =>
    rw [Tunnel.stepForward] at hstep
    split at hstep
    · obtain rfl := some.inj hstep
      exact h.move_idle hf rfl fun _ _ _ _ _ _ => rfl
    · cases hstep
  | answer j reply =>
    obtain rfl : j = i := hindex
    rw [Tunnel.stepForward] at hstep
    split at hstep
    · rename_i hphase
      obtain rfl := some.inj hstep
      exact h.answered hf hphase reply hgood
    · cases hstep
  | take j =>
    rw [Tunnel.stepForward] at hstep
    split at hstep
    · rename_i reply hphase
      obtain rfl := some.inj hstep
      exact h.registered hf hphase
    · cases hstep
  | leave j finish =>
    have hidle : Routed (s.move i (if finish then .finished else .starting) s.routes) := by
      refine h.move_idle hf ?_ fun _ _ _ _ _ _ => rfl
      cases finish <;> rfl
    rw [Tunnel.stepForward] at hstep
    split at hstep
    · rename_i port hphase
      obtain rfl := some.inj hstep
      exact h.unregister hf hphase finish
    · obtain rfl := some.inj hstep
      exact hidle
    · obtain rfl := some.inj hstep
      exact hidle
    · cases hstep
  | cancelled j =>
    rw [Tunnel.stepForward] at hstep
    split at hstep
    · rename_i port finish hphase
      obtain rfl := some.inj hstep
      refine h.move_idle hf ?_ fun _ _ _ _ _ _ => rfl
      cases finish <;> rfl
    · cases hstep
  | channel j =>
    rw [Tunnel.stepForward] at hstep
    obtain ⟨port, hport, rfl⟩ := map_eq_some_iff.mp hstep
    refine ⟨h.apart, h.nonzero, h.own, fun entry hentry => ?_⟩
    rcases List.mem_append.mp hentry with hold | hnew
    · exact h.handed entry hold
    · obtain rfl := List.mem_singleton.mp hnew
      refine ⟨f, hf, ?_⟩
      rw [State.serve, h.own i f port hf (Forward.routed_of_listening hport)]
      rfl

end Operations

variable {s : State}

theorem Routed.start (h : Routed s) (bind target : Endpoint) :
    Routed { s with forwards := s.forwards ++ [⟨bind, target, .starting⟩] } := by
  have hold : ∀ (j : Nat) (g : Forward) (port : Nat),
      (s.forwards ++ [⟨bind, target, .starting⟩])[j]? = some g →
      g.port = some port → s.forwards[j]? = some g := by
    intro j g port hg hport
    rw [List.getElem?_append] at hg
    split at hg
    · exact hg
    · obtain rfl := List.mem_singleton.mp (List.mem_of_getElem? hg)
      cases hport
  refine ⟨?_, ?_, ?_, ?_⟩
  · intro j k g g' port hg hg' hport hport'
    exact h.apart j k g g' port (hold j g port hg hport) (hold k g' port hg' hport') hport hport'
  · exact fun j g hg hzero => h.nonzero j g (hold j g 0 hg hzero) hzero
  · intro j g port hg hrouted
    exact h.own j g port (hold j g port hg (Forward.port_of_routed hrouted)) hrouted
  · intro entry hentry
    obtain ⟨g, hg, hto⟩ := h.handed entry hentry
    refine ⟨g, ?_, hto⟩
    rw [List.getElem?_append_left (List.getElem?_eq_some_iff.mp hg).1]
    exact hg

theorem routed_step {t : State} {event : Event} (h : Routed s) (hgood : Apart s event)
    (hstep : step s event = some t) : Routed t := by
  cases event with
  | start bind target =>
    obtain rfl := some.inj hstep
    exact h.start bind target
  | _ =>
    obtain ⟨f, hf, hnext⟩ := bind_eq_some_iff.mp hstep
    rw [Apart, hf] at hgood
    exact h.stepForward hf hgood rfl hnext

theorem routed_opened : Routed opened :=
  ⟨by simp [opened], by simp [opened], by simp [opened], by simp [opened]⟩

theorem Routed.serve (h : Routed s) {i : Nat} {f : Forward} (hf : s.forwards[i]? = some f)
    {port : Nat} (hport : f.listening = some port) : s.serve port = some f.target := by
  rw [State.serve, h.own i f port hf (Forward.routed_of_listening hport)]
  rfl

/-- Channels go to the target of the forward they are for, while forwards ask
only for ports that no other needs; no step changes where another's go. -/
theorem forwards_apart {s : State} {events : List Event}
    (hrun : GoodRun step Apart opened events s) :
    (∀ (i : Nat) (f : Forward) (port : Nat), s.forwards[i]? = some f →
      f.listening = some port → s.serve port = some f.target) ∧
    (∀ entry ∈ s.handed, ∃ f : Forward, s.forwards[entry.1]? = some f ∧ entry.2 = some f.target) ∧
    ∀ (event : Event) (t : State), Apart s event → step s event = some t →
      ∀ (i : Nat) (f g : Forward) (port : Nat), s.forwards[i]? = some f →
        t.forwards[i]? = some g → f.target = g.target →
        f.listening = some port → g.listening = some port →
        t.serve port = s.serve port := by
  have h := hrun.invariant (p := Routed) routed_step routed_opened
  refine ⟨fun i f port hf hport => h.serve hf hport, h.handed, ?_⟩
  intro event t hgood hstep i f g port hf hg htarget hport hport'
  rw [h.serve hf hport, (routed_step h hgood hstep).serve hg hport', htarget]

namespace RoutesWitness

def first : Endpoint := ⟨"10.0.0.1", 80⟩

def second : Endpoint := ⟨"10.0.0.2", 80⟩

/-- A forward that listens on the server's port 8080. -/
def running (i : Nat) (host : String) (target : Endpoint) : List Event :=
  [.start ⟨host, 8080⟩ target, .ask i, .answer i (some 0), .take i]

/-- The same port on another host: its route replaces the first one's. -/
def stealing : List Event :=
  running 0 "127.0.0.1" first ++ running 1 "127.0.0.2" second ++ [.channel 0]

/-- The server refuses the second: the first one's route is removed. -/
def refusing : List Event :=
  running 0 "127.0.0.1" first ++ [.start ⟨"127.0.0.2", 8080⟩ second, .ask 1,
    .answer 1 none, .take 1, .channel 0]

theorem channel_stolen :
    (runFrom step opened stealing).map State.handed = some [(0, some second)] ∧
      (runFrom step opened refusing).map State.handed = some [(0, none)] ∧
      first ≠ second := by decide

/-- Two ports, one of them picked by the server. -/
def sharing : List Event :=
  running 0 "127.0.0.1" first ++
    [.start ⟨"127.0.0.2", 0⟩ second, .ask 1, .answer 1 (some 40000), .take 1,
      .channel 0, .channel 1, .leave 1 true, .channel 0]

theorem channels_apart : ∃ s, GoodRun step Apart opened sharing s ∧ s.serve 8080 = some first := by
  have hrun : GoodRun step Apart opened sharing _ := GoodRun.of_isSome (by decide) rfl
  exact ⟨_, hrun, (forwards_apart hrun).1 0 _ 8080 rfl rfl⟩

end RoutesWitness

end Tunnel

end Opensesh
