/-
Whole runs of the tunnels: what every operation and every callback keeps, so that a tunnel
hears its own run only, a question has one answer, and tied tunnels follow their sessions.
-/
import Opensesh.Tunnels

namespace Opensesh.Tunnels

open List

/-- The run numbers that the step's tunnels come to. -/
def Event.reaches (state : State) : Event → List (String × Nat)
  | .load file autostart _ =>
    if autostart && state.runtime then
      (file.tunnels.filter (·.autostart)).map fun tunnel => (tunnel.id, 1)
    else []
  | .reload file _ => file.tunnels.filterMap fun tunnel => (state.entry tunnel.id).bind fun entry =>
    if entry.tunnel.eq tunnel then none
    else some (tunnel.id, if entry.on then entry.run + 2 else entry.run + 1)
  | .upsert tunnel _ =>
    if tunnel.problem.isSome then []
    else ((state.entry tunnel.id).bind fun entry =>
      if entry.tunnel.eq tunnel then none
      else some (tunnel.id, if entry.on then entry.run + 2 else entry.run + 1)).toList
  | .setOn id on _ => ((state.entry id).bind fun entry =>
    if entry.on = on || on && !state.runtime then none else some (id, entry.run + 1)).toList
  | .stopAll => state.entries.map fun entry => (entry.tunnel.id, entry.run + 1)
  | _ => []

/-- No tunnel comes to a number that a run of an earlier tunnel with its id had. -/
def Careful (state : State) (event : Event) : Prop :=
  ∀ run ∈ state.runs, (run.id, run.number) ∉ event.reaches state

instance (state : State) (event : Event) : Decidable (Careful state event) :=
  inferInstanceAs (Decidable (∀ run ∈ state.runs, (run.id, run.number) ∉ event.reaches state))

/-- A run that was not halted. -/
def State.Live (state : State) (g : Nat) : Prop := ∃ entry ∈ state.entries, entry.current = some g

def Told.tells (host : String) (pane : Int) : Told → Option Bool
  | .live h p => if h = host ∧ p = pane then some true else none
  | .gone h p => if h = host ∧ p = pane then some false else none
  | .closed p but => if p = pane ∧ host ∉ but then some false else none

/-- What was last said of a pane's connection to a host. -/
def State.said (state : State) (host : String) (pane : Int) : Option Bool :=
  state.told.findSome? (Told.tells host pane)

/-- Some pane's connection was reported live, and not gone or closed since. -/
def State.Up (state : State) (host : String) : Prop := ∃ pane, state.said host pane = some true

def pending (entries : List Entry) : List Nat :=
  entries.flatMap fun entry => entry.requests.map (·.id)

section Invariant

variable {state after : State} {except later : List String} {entry next : Entry}
  {es es' rest : List Entry} {news : List (Nat × Nat)} {id : String}

/-- What an entry keeps; two things may wait until an excepted one is started. -/
structure EntryKept (except : List String) (state : State) (entry : Entry) : Prop where
  current : ∀ g, entry.current = some g → ∃ run, state.runs[g]? = some run ∧
    run.id = entry.tunnel.id ∧ run.number = entry.run ∧ run.tied = entry.tunnel.tied
  requests : ∀ request ∈ entry.requests, ∃ g, entry.current = some g ∧ (request.id, g) ∈ state.asked
  on : entry.on = true → state.runtime = true
  link : entry.on = true → entry.tunnel.tied = true → entry.link = none
  fresh : entry.tunnel.id ∉ except → ∀ g run, state.runs[g]? = some run →
    run.id = entry.tunnel.id → run.number = entry.run → entry.current = some g
  session : entry.tunnel.id ∉ except → entry.on = true → entry.tunnel.tied = true →
    entry.session = (state.sessions entry.tunnel.host).sender.isSome

/-- A host's table has the panes that were last reported live, and sends the first. -/
structure Heard (state : State) (host : String) : Prop where
  sender : (state.sessions host).sender = (state.sessions host).panes.head?.map (·.2)
  said : ∀ pane, pane ∈ (state.sessions host).panes.map (·.1) ↔ state.said host pane = some true
  hosts : (state.sessions host).panes ≠ [] → host ∈ state.hosts

structure Core (except : List String) (state : State) : Prop where
  ids : (state.entries.map (·.tunnel.id)).Nodup
  entries : ∀ entry ∈ state.entries, EntryKept except state entry
  runs : ∀ run ∈ state.runs, 0 < run.number
  asked : (state.asked.map (·.1)).Nodup
  answered : (pending state.entries ++ state.answers.map (·.request)).Perm (state.asked.map (·.1))
  answers : ∀ given ∈ state.answers, given.byUser = true ∨ given.answer = .cancel
  heard : ∀ host, Heard state host

/-- The sessions stay, and the questions and the hosts grow. -/
structure Frame (state after : State) (news : List (Nat × Nat)) : Prop where
  runtime : after.runtime = state.runtime
  sessions : after.sessions = state.sessions
  hosts : ∀ host ∈ state.hosts, host ∈ after.hosts
  told : after.told = state.told
  asked : after.asked = state.asked ++ news

theorem Heard.of_frame {host : String} (h : Heard state host) (hframe : Frame state after news) :
    Heard after host where
  sender := by
    rw [hframe.sessions]
    exact h.sender
  said := by
    intro pane
    rw [hframe.sessions, State.said, hframe.told]
    exact h.said pane
  hosts := by
    rw [hframe.sessions]
    exact fun hpanes => hframe.hosts _ (h.hosts hpanes)

/-- No run was started, or one of another tunnel. -/
def OtherRuns (state after : State) (id : String) : Prop :=
  after.runs = state.runs ∨ ∃ run : Run, run.id ≠ id ∧ after.runs = state.runs ++ [run]

theorem OtherRuns.kept (h : OtherRuns state after id) {g : Nat} {run : Run}
    (hrun : state.runs[g]? = some run) : after.runs[g]? = some run := by
  rcases h with heq | ⟨new, -, heq⟩
  · rw [heq, hrun]
  · rw [heq, List.getElem?_append_left (List.getElem?_eq_some_iff.mp hrun).1, hrun]

variable {g : Nat} {event : Event} {refused : Option String} {refuses : String → Option String}
  {todo : List Tunnel} {change : Entry → Entry} {connection : Option Nat}

theorem OtherRuns.only (h : OtherRuns state after id) {run : Run} (hrun : after.runs[g]? = some run)
    (hid : run.id = id) : state.runs[g]? = some run := by
  rcases h with heq | ⟨new, hnew, heq⟩
  · rwa [heq] at hrun
  · rw [heq, List.getElem?_append] at hrun
    split at hrun
    · exact hrun
    · rw [List.getElem?_singleton] at hrun
      split at hrun
      · obtain rfl := Option.some.inj hrun
        exact absurd hid hnew
      · cases hrun

/-- An entry that the step leaves alone. -/
theorem EntryKept.grow (h : EntryKept except state entry) (hframe : Frame state after news)
    (hruns : OtherRuns state after entry.tunnel.id)
    (hexcept : entry.tunnel.id ∈ except → entry.tunnel.id ∈ later) :
    EntryKept later after entry where
  current := fun g hg => by
    obtain ⟨run, hrun, hrest⟩ := h.current g hg
    exact ⟨run, hruns.kept hrun, hrest⟩
  requests := fun request hrequest => by
    obtain ⟨g, hg, hasked⟩ := h.requests request hrequest
    exact ⟨g, hg, hframe.asked ▸ mem_append_left _ hasked⟩
  on := fun hon => hframe.runtime.trans (h.on hon)
  link := h.link
  fresh := fun hid g run hrun hrunid hnumber =>
    h.fresh (mt hexcept hid) g run (hruns.only hrun hrunid) hrunid hnumber
  session := fun hid hon htied => by
    rw [hframe.sessions]
    exact h.session (mt hexcept hid) hon htied

theorem pending_append (es rest : List Entry) : pending (es ++ rest) = pending es ++ pending rest :=
  flatMap_append

theorem pending_perm (h : es.Perm es') : (pending es).Perm (pending es') := h.flatMap_right _

theorem Core.exchange (h : Core except state) (hframe : Frame state after news)
    (hold : state.entries.Perm (es ++ rest)) (hnew : after.entries.Perm (es' ++ rest))
    (hids : (es'.map (·.tunnel.id)).Nodup)
    (hother : ∀ other ∈ rest, ∀ next ∈ es', other.tunnel.id ≠ next.tunnel.id)
    (hkept : ∀ next ∈ es', EntryKept later after next)
    (hruns : ∀ other ∈ rest, OtherRuns state after other.tunnel.id)
    (hpositive : ∀ run ∈ after.runs, 0 < run.number)
    (hexcept : ∀ other ∈ rest, other.tunnel.id ∈ except → other.tunnel.id ∈ later)
    (hasked : (after.asked.map (·.1)).Nodup)
    (hperm : (pending es' ++ after.answers.map (·.request)).Perm
      (pending es ++ state.answers.map (·.request) ++ news.map (·.1)))
    (hanswers : ∀ given ∈ after.answers, given.byUser = true ∨ given.answer = .cancel) :
    Core later after where
  ids := by
    have hnodup := ((hold.map (·.tunnel.id)).nodup_iff.mp h.ids)
    rw [map_append, nodup_append] at hnodup
    refine (hnew.map (·.tunnel.id)).nodup_iff.mpr ?_
    rw [map_append, nodup_append]
    refine ⟨hids, hnodup.2.1, fun a ha b hb => ?_⟩
    obtain ⟨next, hnext, rfl⟩ := mem_map.mp ha
    obtain ⟨other, hmem, rfl⟩ := mem_map.mp hb
    exact (hother other hmem next hnext).symm
  entries := fun other hmem => by
    rcases mem_append.mp (hnew.mem_iff.mp hmem) with hnext | hrest
    · exact hkept other hnext
    · exact (h.entries other (hold.mem_iff.mpr (mem_append_right _ hrest))).grow hframe
        (hruns other hrest) (hexcept other hrest)
  runs := hpositive
  asked := hasked
  answered := by
    have hbefore : (pending es ++ pending rest ++ state.answers.map (·.request)).Perm
        (state.asked.map (·.1)) := by
      rw [← pending_append]
      exact ((pending_perm hold).symm.append_right _).trans h.answered
    rw [hframe.asked, map_append]
    calc
      (pending after.entries ++ after.answers.map (·.request)).Perm
          (pending es' ++ pending rest ++ after.answers.map (·.request)) := by
        rw [← pending_append]
        exact (pending_perm hnew).append_right _
      List.Perm _ (pending rest ++ (pending es' ++ after.answers.map (·.request))) := by
        rw [← List.append_assoc]
        exact perm_append_comm.append_right _
      List.Perm _ (pending rest ++
          (pending es ++ state.answers.map (·.request) ++ news.map (·.1))) :=
        hperm.append_left _
      List.Perm _ (pending es ++ pending rest ++ state.answers.map (·.request) ++
          news.map (·.1)) := by
        rw [← List.append_assoc, ← List.append_assoc]
        exact (perm_append_comm.append_right _).append_right _
      List.Perm _ (state.asked.map (·.1) ++ news.map (·.1)) := hbefore.append_right _
  answers := hanswers
  heard := fun host => (h.heard host).of_frame hframe

theorem replaceF_first {front back : List Entry} (hfront : ∀ other ∈ front, other.tunnel.id ≠ id)
    (hid : entry.tunnel.id = id) :
    (front ++ entry :: back).replaceF (fun other =>
      if other.tunnel.id = id then some next else none) = front ++ next :: back := by
  induction front with
  | nil =>
    rw [List.nil_append, replaceF_cons, if_pos hid]
    rfl
  | cons other front ih =>
    rw [cons_append, replaceF_cons, if_neg (hfront other mem_cons_self)]
    exact congrArg (other :: ·) (ih fun mid hmem => hfront mid (mem_cons_of_mem _ hmem))

theorem entry_split (h : state.entry id = some entry) : entry.tunnel.id = id ∧
    ∃ rest, state.entries.Perm ([entry] ++ rest) ∧
      (∀ next, (state.put id next).entries.Perm ([next] ++ rest)) ∧
        (state.entries.eraseP fun other => other.tunnel.id = id).Perm rest := by
  obtain ⟨hid, front, back, heq, hfront⟩ := List.find?_eq_some_iff_append.mp h
  have hid : entry.tunnel.id = id := of_decide_eq_true hid
  have hother : ∀ other ∈ front, other.tunnel.id ≠ id := fun other hmem hsame => by
    have hnot := hfront other hmem
    rw [hsame, decide_eq_true rfl] at hnot
    cases hnot
  refine ⟨hid, front ++ back, ?_, fun next => ?_, ?_⟩
  · rw [heq]
    exact perm_middle
  · rw [State.put, heq]
    dsimp only
    rw [replaceF_first hother hid]
    exact perm_middle
  · rw [heq, eraseP_append_right _ fun other hmem =>
      fun hsame => hother other hmem (of_decide_eq_true hsame),
      eraseP_cons_of_pos (by exact decide_eq_true hid)]

theorem entry_none (h : state.entry id = none) : ∀ other ∈ state.entries, other.tunnel.id ≠ id := by
  intro other hother
  have hnot := List.find?_eq_none.mp h other hother
  rwa [decide_eq_true_iff] at hnot

theorem entry_of_mem (hids : (state.entries.map (·.tunnel.id)).Nodup)
    (hmem : entry ∈ state.entries) : state.entry entry.tunnel.id = some entry := by
  cases hfound : state.entry entry.tunnel.id with
  | none => exact absurd rfl (entry_none hfound entry hmem)
  | some found =>
    have hid : found.tunnel.id = entry.tunnel.id := (entry_split hfound).1
    exact congrArg some (inj_on_of_nodup_map hids (mem_of_find?_eq_some hfound) hmem hid)

theorem Core.other_ids (h : Core except state) (hold : state.entries.Perm ([entry] ++ rest)) :
    ∀ other ∈ rest, other.tunnel.id ≠ entry.tunnel.id := by
  have hnodup := (hold.map (·.tunnel.id)).nodup_iff.mp h.ids
  rw [singleton_append, map_cons, nodup_cons] at hnodup
  exact fun other hother heq => hnodup.1 (heq ▸ mem_map_of_mem hother)

theorem cancel_perm (state : State) (requests : List Request) :
    ((state.cancel requests).answers.map (·.request)).Perm
      (requests.map (·.id) ++ state.answers.map (·.request)) := by
  rw [State.cancel, map_append, map_map]
  exact perm_append_comm

theorem answers_cancel {requests : List Request}
    (h : ∀ given ∈ state.answers, given.byUser = true ∨ given.answer = .cancel) :
    ∀ given ∈ (state.cancel requests).answers, given.byUser = true ∨ given.answer = .cancel := by
  intro given hgiven
  rcases mem_append.mp hgiven with hold | hnew
  · exact h given hold
  · obtain ⟨request, -, rfl⟩ := mem_map.mp hnew
    exact Or.inr rfl

theorem Core.swapped (h : Core except state) (hframe : Frame state after news)
    (hold : state.entries.Perm ([entry] ++ rest)) (hnew : after.entries.Perm ([next] ++ rest))
    (hid : next.tunnel.id = entry.tunnel.id) (hkept : EntryKept later after next)
    (hruns : after.runs = state.runs ∨ ∃ run : Run, run.id = entry.tunnel.id ∧ 0 < run.number ∧
      after.runs = state.runs ++ [run])
    (hexcept : ∀ other ∈ except, other ≠ entry.tunnel.id → other ∈ later)
    (hasked : (after.asked.map (·.1)).Nodup)
    (hperm : (next.requests.map (·.id) ++ after.answers.map (·.request)).Perm
      (entry.requests.map (·.id) ++ state.answers.map (·.request) ++ news.map (·.1)))
    (hanswers : ∀ given ∈ after.answers, given.byUser = true ∨ given.answer = .cancel) :
    Core later after := by
  have hother := h.other_ids hold
  have hids : ([next].map (·.tunnel.id)).Nodup := nodup_singleton _
  refine h.exchange hframe hold hnew hids ?_ ?_ ?_ ?_ ?_ hasked ?_ hanswers
  · intro other hmem single hsingle
    obtain rfl := mem_singleton.mp hsingle
    exact hid ▸ hother other hmem
  · intro single hsingle
    obtain rfl := mem_singleton.mp hsingle
    exact hkept
  · intro other hmem
    refine hruns.imp_right ?_
    rintro ⟨run, hrun, -, hafter⟩
    exact ⟨run, fun hsame => hother other hmem (hsame.symm.trans hrun), hafter⟩
  · intro run hrun
    rcases hruns with hsame | ⟨new, -, hpositive, hafter⟩
    · exact h.runs run (hsame ▸ hrun)
    · rw [hafter] at hrun
      rcases mem_append.mp hrun with hmem | hmem
      · exact h.runs run hmem
      · obtain rfl := mem_singleton.mp hmem
        exact hpositive
  · exact fun other hmem hin => hexcept _ hin (hother other hmem)
  · rw [pending, pending, flatMap_singleton, flatMap_singleton]
    exact hperm

theorem Core.swap (h : Core except state) (hentry : state.entry id = some entry)
    (hframe : Frame state after news) (hnew : after.entries = (state.put id next).entries)
    (hid : next.tunnel.id = id) (hkept : EntryKept later after next)
    (hruns : after.runs = state.runs ∨ ∃ run : Run, run.id = id ∧ 0 < run.number ∧ after.runs =
    state.runs ++ [run]) (hexcept : ∀ other ∈ except, other ≠ id → other ∈ later)
    (hasked : (after.asked.map (·.1)).Nodup)
    (hperm : (next.requests.map (·.id) ++ after.answers.map (·.request)).Perm
    (entry.requests.map (·.id) ++ state.answers.map (·.request) ++ news.map (·.1)))
    (hanswers : ∀ given ∈ after.answers, given.byUser = true ∨ given.answer = .cancel) :
    Core later after := by
  obtain ⟨rfl, rest, hold, hput, -⟩ := entry_split hentry
  exact h.swapped hframe hold (hnew ▸ hput next) hid hkept hruns hexcept hasked hperm hanswers

/-- No run has a number with an id. -/
def Unused (state : State) (id : String) (number : Nat) : Prop :=
  ∀ run ∈ state.runs, ¬ (run.id = id ∧ run.number = number)

theorem Careful.unused (h : Careful state event) {number : Nat}
    (hreaches : (id, number) ∈ event.reaches state) : Unused state id number :=
  fun run hrun hsame => h run hrun (by rw [hsame.1, hsame.2]; exact hreaches)

theorem entryKept_new (tunnel : Tunnel) (hruns : ∀ run ∈ after.runs, 0 < run.number) :
    EntryKept later after { tunnel } where
  current := nofun
  requests := nofun
  on := nofun
  link := nofun
  fresh := fun _ _ run hrun _ hnumber =>
    absurd hnumber (Nat.ne_of_gt (hruns run (mem_of_getElem? hrun)))
  session := nofun

theorem entryKept_halt {tunnel : Tunnel} (h : EntryKept except state entry)
    (hruntime : after.runtime = state.runtime)
    (hlater : tunnel.id ∉ later → entry.on = false ∧ Unused after tunnel.id (entry.run + 1)) :
    EntryKept later after { entry.halt with tunnel } where
  current := nofun
  requests := nofun
  on := fun hon => hruntime.trans (h.on hon)
  link := fun _ _ => rfl
  fresh := fun hid _ run hrun hrunid hnumber =>
    absurd ⟨hrunid, hnumber⟩ ((hlater hid).2 run (mem_of_getElem? hrun))
  session := fun hid hon => absurd hon (Bool.eq_false_iff.mp (hlater hid).1)

/-- The questions of a halted run are cancelled. -/
theorem halted_perm (state : State) (requests : List Request) :
    (([] : List Nat) ++ (state.cancel requests).answers.map (·.request)).Perm
      (requests.map (·.id) ++ state.answers.map (·.request) ++ []) := by
  rw [List.nil_append, List.append_nil]
  exact cancel_perm state requests

theorem mem_sessionsOf (state : State) (host : String) :
    host ∈ (state.sessionsOf host).hosts ∧
      ∀ other ∈ state.hosts, other ∈ (state.sessionsOf host).hosts := by
  rw [State.sessionsOf]
  dsimp only
  split
  · rename_i hmem
    exact ⟨hmem, fun _ hmem => hmem⟩
  · exact ⟨mem_cons_self, fun _ => mem_cons_of_mem _⟩

theorem getElem?_last {runs : List Run} {run other : Run} (h : (runs ++ [run])[g]? = some other) :
    runs[g]? = some other ∨ g = runs.length ∧ other = run := by
  rw [List.getElem?_append] at h
  split at h
  · exact Or.inl h
  · rename_i hlen
    rw [List.getElem?_singleton] at h
    split at h
    · exact Or.inr ⟨by omega, (Option.some.inj h).symm⟩
    · cases h

theorem entryKept_started {tunnel : Tunnel} {session : Bool} (htunnel : tunnel.id = id)
    (hruns : after.runs = state.runs ++ [⟨id, entry.run + 1, tunnel.tied⟩])
    (hunused : Unused state id (entry.run + 1)) (hruntime : after.runtime = true)
    (hsession : tunnel.tied = true → session = (after.sessions tunnel.host).sender.isSome) :
    EntryKept later after { entry.halt with
      tunnel, session, on := true, current := some state.runs.length } where
  current := by
    rintro g ⟨⟩
    refine ⟨⟨id, entry.run + 1, tunnel.tied⟩, ?_, htunnel.symm, rfl, rfl⟩
    rw [hruns, List.getElem?_append_right (Nat.le_refl _), Nat.sub_self]
    rfl
  requests := nofun
  on := fun _ => hruntime
  link := fun _ _ => rfl
  fresh := by
    intro _ g run hrun hrunid hnumber
    rw [hruns] at hrun
    rcases getElem?_last hrun with hold | ⟨rfl, -⟩
    · exact absurd ⟨hrunid.trans htunnel, hnumber⟩ (hunused run (mem_of_getElem? hold))
    · rfl
  session := fun _ _ htied => hsession htied

theorem core_start (h : Core except state) (hruntime : state.runtime = true)
    (hentry : state.entry id = some entry) (hunused : Unused state id (entry.run + 1))
    (hlater : ∀ other ∈ except, other ≠ id → other ∈ later) :
    Core later (state.start id refused) := by
  have hid : entry.tunnel.id = id := (entry_split hentry).1
  rw [State.start, hruntime, hentry]
  simp only [Bool.not_true, Bool.false_eq_true, if_false]
  split
  · refine h.swap hentry ⟨rfl, rfl, (mem_sessionsOf _ _).2, rfl, (List.append_nil _).symm⟩ rfl hid
      (entryKept_started hid rfl hunused hruntime fun _ => rfl)
      (Or.inr ⟨_, rfl, Nat.succ_pos _, rfl⟩) hlater h.asked
      (halted_perm state entry.requests) (answers_cancel h.answers)
  · rename_i htied
    cases refused with
    | some detail =>
      refine h.swap hentry ⟨rfl, rfl, fun _ hmem => hmem, rfl, (List.append_nil _).symm⟩ rfl hid
        ?_ (Or.inl rfl) hlater h.asked (halted_perm state entry.requests)
        (answers_cancel h.answers)
      refine ⟨nofun, nofun, fun _ => hruntime, fun _ hyes => absurd hyes htied, ?_,
        fun _ _ hyes => absurd hyes htied⟩
      intro _ g run hrun hrunid hnumber
      exact absurd ⟨hrunid.trans hid, hnumber⟩ (hunused run (mem_of_getElem? hrun))
    | none =>
      exact h.swap hentry ⟨rfl, rfl, fun _ hmem => hmem, rfl, (List.append_nil _).symm⟩ rfl hid
        (entryKept_started hid rfl hunused hruntime fun hyes => absurd hyes htied)
        (Or.inr ⟨_, rfl, Nat.succ_pos _, rfl⟩) hlater h.asked
        (halted_perm state entry.requests) (answers_cancel h.answers)

theorem mem_put (hentry : state.entry id = some entry) {other : Entry}
    (hmem : other ∈ state.entries) (hne : other.tunnel.id ≠ id) :
    other ∈ (state.put id next).entries := by
  obtain ⟨hid, rest, hold, hput, -⟩ := entry_split hentry
  refine (hput next).mem_iff.mpr (mem_append_right _ ?_)
  rcases mem_append.mp (hold.mem_iff.mp hmem) with hsame | hrest
  · obtain rfl := mem_singleton.mp hsame
    exact absurd hid hne
  · exact hrest

theorem start_others (state : State) (id : String) (refused : Option String) :
    (state.start id refused).runtime = state.runtime ∧
      (∀ run ∈ (state.start id refused).runs, run ∈ state.runs ∨ run.id = id) ∧
        ∀ other ∈ state.entries, other.tunnel.id ≠ id →
          other ∈ (state.start id refused).entries := by
  have hlast : ∀ number tied, ∀ run ∈ state.runs ++ [⟨id, number, tied⟩],
      run ∈ state.runs ∨ run.id = id := fun number tied run hrun =>
    (mem_append.mp hrun).imp_right fun hnew => by
      obtain rfl := mem_singleton.mp hnew
      rfl
  rw [State.start]
  split
  · exact ⟨rfl, fun run hrun => Or.inl hrun, fun other hother _ => hother⟩
  · cases hentry : state.entry id with
    | none => exact ⟨rfl, fun run hrun => Or.inl hrun, fun other hother _ => hother⟩
    | some entry =>
      dsimp only
      split
      · exact ⟨rfl, hlast _ _, fun other hother hne => mem_put hentry hother hne⟩
      · cases refused with
        | some detail =>
          exact ⟨rfl, fun run hrun => Or.inl hrun,
            fun other hother hne => mem_put hentry hother hne⟩
        | none => exact ⟨rfl, hlast _ _, fun other hother hne => mem_put hentry hother hne⟩

theorem startEach_off {ids : List String} (hruntime : state.runtime = false) :
    State.startEach refuses state ids = state := by
  have hoff : ∀ id refused, state.start id refused = state := fun id refused => by
    rw [State.start, hruntime]
    rfl
  induction ids with
  | nil => rfl
  | cons id ids ih =>
    rw [State.startEach, foldl_cons, hoff]
    exact ih

theorem core_startEach {ids : List String} (hids : ids.Nodup) (h : Core ids state)
    (hruntime : state.runtime = true)
    (hentries : ∀ id ∈ ids, ∃ entry ∈ state.entries, entry.tunnel.id = id ∧
      Unused state id (entry.run + 1)) : Core [] (State.startEach refuses state ids) := by
  induction ids generalizing state with
  | nil => exact h
  | cons id ids ih =>
    obtain ⟨hid, hids⟩ := nodup_cons.mp hids
    obtain ⟨entry, hmem, hentryId, hunused⟩ := hentries id mem_cons_self
    obtain ⟨hsame, hruns, hothers⟩ := start_others state id (refuses id)
    have hentry : state.entry id = some entry := hentryId ▸ entry_of_mem h.ids hmem
    have hstarted : Core ids (state.start id (refuses id)) :=
      core_start h hruntime hentry hunused fun other hother hne =>
        (mem_cons.mp hother).resolve_left hne
    refine ih hids hstarted (hsame.trans hruntime) fun later hlater => ?_
    obtain ⟨other, hother, hotherId, hfree⟩ := hentries later (mem_cons_of_mem _ hlater)
    have hne : later ≠ id := fun heq => hid (heq ▸ hlater)
    refine ⟨other, hothers other hother (hotherId ▸ hne), hotherId, fun run hrun => ?_⟩
    rcases hruns run hrun with hold | hnew
    · exact hfree run hold
    · exact fun heq => hne (heq.1.symm.trans hnew)

theorem pending_eq_map (entries : List Entry) :
    (entries.flatMap (·.requests)).map (·.id) = pending entries := by
  rw [pending, map_flatMap]

theorem Core.replaced (h : Core except state) (hframe : Frame state after [])
    (hruns : after.runs = state.runs) (hids : (after.entries.map (·.tunnel.id)).Nodup)
    (hkept : ∀ next ∈ after.entries, EntryKept later after next)
    (hpending : pending after.entries = [])
    (hanswers : after.answers = (state.cancel (state.entries.flatMap (·.requests))).answers) :
    Core later after := by
  have hold : state.entries.Perm (state.entries ++ []) := by rw [List.append_nil]
  have hnew : after.entries.Perm (after.entries ++ []) := by rw [List.append_nil]
  have hasked : (after.asked.map (·.1)).Nodup := by
    rw [hframe.asked, List.append_nil]
    exact h.asked
  have hperm : (pending after.entries ++ after.answers.map (·.request)).Perm
      (pending state.entries ++ state.answers.map (·.request) ++ []) := by
    rw [hpending, hanswers, ← pending_eq_map]
    exact halted_perm state _
  refine h.exchange hframe hold hnew hids (fun _ hnil => absurd hnil not_mem_nil) hkept
    (fun _ hnil => absurd hnil not_mem_nil) ?_ (fun _ hnil => absurd hnil not_mem_nil)
    hasked hperm ?_
  · rw [hruns]
    exact h.runs
  · rw [hanswers]
    exact answers_cancel h.answers

theorem core_load {file : TunnelsFile} {autostart : Bool} (h : Core [] state)
    (hcareful : Careful state (.load file autostart refuses)) :
    Core [] (state.load file autostart refuses) := by
  have hloaded : ∀ later, Core later { state.cancel (state.entries.flatMap (·.requests)) with
      extra := file.extra, readOnly := file.readOnly
      entries := file.tunnels.map fun tunnel => { tunnel } } := by
    intro later
    refine h.replaced ⟨rfl, rfl, fun _ hmem => hmem, rfl, (List.append_nil _).symm⟩ rfl ?_ ?_ ?_ rfl
    · rw [map_map]
      exact file.distinct
    · intro next hnext
      obtain ⟨tunnel, -, rfl⟩ := mem_map.mp hnext
      exact entryKept_new tunnel h.runs
    · rw [pending, flatMap_map]
      exact flatMap_eq_nil_iff.mpr fun _ _ => rfl
  rw [State.load]
  dsimp only
  split
  · rename_i hautostart
    cases hruntime : state.runtime with
    | false =>
      refine Eq.mpr (congrArg (Core []) (startEach_off ?_)) (hloaded [])
      exact hruntime
    | true =>
      refine core_startEach ?_ (hloaded _) hruntime fun id hid => ?_
      · exact (filter_sublist.map _).nodup file.distinct
      · obtain ⟨tunnel, htunnel, rfl⟩ := mem_map.mp hid
        refine ⟨{ tunnel }, mem_map_of_mem (mem_filter.mp htunnel).1, rfl, hcareful.unused ?_⟩
        rw [Event.reaches, hautostart, hruntime]
        exact mem_map.mpr ⟨tunnel, htunnel, rfl⟩
  · exact hloaded []

/-- The run is halted and the definition replaced. -/
theorem core_halted {next : Entry} (h : Core except state) (hentry : state.entry id = some entry)
    (hid : next.tunnel.id = id) (hkept : EntryKept later state next)
    (hrequests : next.requests = []) (hlater : ∀ other ∈ except, other ≠ id → other ∈ later) :
    Core later ((state.cancel entry.requests).put id next) := by
  have hkept' : EntryKept later ((state.cancel entry.requests).put id next) next :=
    ⟨hkept.current, hkept.requests, hkept.on, hkept.link, hkept.fresh, hkept.session⟩
  refine h.swap hentry ⟨rfl, rfl, fun _ hmem => hmem, rfl, (List.append_nil _).symm⟩ rfl hid hkept'
    (Or.inl rfl) hlater h.asked ?_ (answers_cancel h.answers)
  rw [hrequests]
  exact halted_perm state entry.requests

theorem entry_mem (hentry : state.entry id = some entry) : entry ∈ state.entries :=
  mem_of_find?_eq_some hentry

theorem entry_put (h : Core except ((state.cancel entry.requests).put id next))
    (hentry : state.entry id = some entry) (hid : next.tunnel.id = id) :
    ((state.cancel entry.requests).put id next).entry id = some next := by
  obtain ⟨-, rest, -, hput, -⟩ := entry_split hentry
  have hmem : next ∈ ((state.cancel entry.requests).put id next).entries :=
    (hput next).mem_iff.mpr (mem_append_left _ (mem_singleton.mpr rfl))
  have hfound := entry_of_mem h.ids hmem
  rwa [hid] at hfound

theorem Core.pushed {tunnel : Tunnel} (h : Core except state) (hframe : Frame state after [])
    (hnew : after.entries.Perm ([({ tunnel } : Entry)] ++ state.entries)) (hruns : after.runs = state.runs)
    (hanswers : after.answers = state.answers)
    (hids : ∀ other ∈ state.entries, other.tunnel.id ≠ tunnel.id) : Core except after := by
  have hold : state.entries.Perm ([] ++ state.entries) := List.Perm.refl _
  have hsingle : ([({ tunnel } : Entry)].map (·.tunnel.id)).Nodup := nodup_singleton _
  have hpositive : ∀ run ∈ after.runs, 0 < run.number := hruns ▸ h.runs
  have hasked : (after.asked.map (·.1)).Nodup := by
    rw [hframe.asked, List.append_nil]
    exact h.asked
  refine h.exchange hframe hold hnew hsingle ?_ ?_ (fun _ _ => Or.inl hruns) hpositive
    (fun _ _ hmem => hmem) hasked ?_ (hanswers ▸ h.answers)
  · intro other hother next hnext
    obtain rfl := mem_singleton.mp hnext
    exact hids other hother
  · intro next hnext
    obtain rfl := mem_singleton.mp hnext
    exact entryKept_new tunnel hpositive
  · rw [hanswers]
    exact List.Perm.of_eq (List.append_nil _).symm

/-- Entries are removed, and their questions cancelled. -/
theorem Core.dropped (h : Core except state) (hframe : Frame state after [])
    (hold : state.entries.Perm (es ++ rest)) (hnew : after.entries.Perm rest)
    (hruns : after.runs = state.runs)
    (hanswers : after.answers = (state.cancel (es.flatMap (·.requests))).answers) :
    Core except after := by
  have hnone : after.entries.Perm ([] ++ rest) := hnew
  have hasked : (after.asked.map (·.1)).Nodup := by
    rw [hframe.asked, List.append_nil]
    exact h.asked
  refine h.exchange hframe hold hnone nodup_nil
    (fun _ _ _ hnil => absurd hnil not_mem_nil) (fun _ hnil => absurd hnil not_mem_nil)
    (fun _ _ => Or.inl hruns) (hruns ▸ h.runs) (fun _ _ hmem => hmem) hasked ?_ ?_
  · rw [hanswers, ← pending_eq_map es]
    exact halted_perm state _
  · rw [hanswers]
    exact answers_cancel h.answers

theorem core_upsert {tunnel : Tunnel} (h : Core [] state)
    (hcareful : Careful state (.upsert tunnel refused)) :
    Core [] (state.upsert tunnel refused).2 := by
  rw [State.upsert]
  cases hproblem : tunnel.problem with
  | some problem => exact h
  | none =>
    cases hentry : state.entry tunnel.id with
    | none =>
      exact h.pushed ⟨rfl, rfl, fun _ hmem => hmem, rfl, (List.append_nil _).symm⟩
        perm_append_comm rfl rfl (entry_none hentry)
    | some entry =>
      dsimp only
      split
      · exact h
      · rename_i hchanged
        have hkept := h.entries entry (entry_mem hentry)
        have hreaches : ∀ number, (if entry.on then entry.run + 2 else entry.run + 1) = number →
            Unused state tunnel.id number := by
          rintro number rfl
          refine hcareful.unused ?_
          rw [Event.reaches, hproblem, hentry]
          simp only [Option.isSome_none, Bool.false_eq_true, if_false, Option.bind_some,
            if_neg hchanged, Option.toList_some, mem_singleton]
        split
        · rename_i hon
          have hwaits : EntryKept [tunnel.id] state { entry.halt with tunnel } :=
            entryKept_halt hkept rfl fun hnot => absurd (mem_singleton.mpr rfl) hnot
          have hhalted := core_halted h hentry rfl hwaits rfl nofun
          refine core_start hhalted (hkept.on hon) (entry_put hhalted hentry rfl)
            (hreaches _ (if_pos hon)) fun other hother hne => absurd (mem_singleton.mp hother) hne
        · rename_i hoff
          exact core_halted h hentry rfl (entryKept_halt hkept rfl fun _ =>
            ⟨Bool.eq_false_iff.mpr hoff, hreaches _ (if_neg hoff)⟩) rfl nofun

theorem core_remove (h : Core [] state) (id : String) : Core [] (state.remove id).2 := by
  rw [State.remove]
  cases hentry : state.entry id with
  | none => exact h
  | some entry =>
    obtain ⟨-, rest, hold, -, herase⟩ := entry_split hentry
    refine h.dropped ⟨rfl, rfl, fun _ hmem => hmem, rfl, (List.append_nil _).symm⟩ hold herase
      rfl ?_
    rw [flatMap_singleton]

theorem insertAfter_perm {copy : Entry} {entries : List Entry}
    (h : ∃ entry ∈ entries, entry.tunnel.id = id) :
    (State.insertAfter id copy entries).Perm ([copy] ++ entries) := by
  induction entries with
  | nil =>
    obtain ⟨entry, hnil, -⟩ := h
    cases hnil
  | cons first rest ih =>
    rw [State.insertAfter]
    split
    · exact List.Perm.swap copy first rest
    · rename_i hne
      have hrest : ∃ entry ∈ rest, entry.tunnel.id = id := by
        obtain ⟨entry, hmem, hid⟩ := h
        rcases mem_cons.mp hmem with rfl | hmem
        · exact absurd hid hne
        · exact ⟨entry, hmem, hid⟩
      exact ((ih hrest).cons first).trans (List.Perm.swap copy first rest)

theorem core_duplicate {newId : String} (h : Core [] state)
    (hnew : newId ∉ state.entries.map (·.tunnel.id)) : Core [] (state.duplicate id newId).2 := by
  rw [State.duplicate]
  cases hentry : state.entry id with
  | none => exact h
  | some entry =>
    refine h.pushed ⟨rfl, rfl, fun _ hmem => hmem, rfl, (List.append_nil _).symm⟩
      (insertAfter_perm ⟨entry, entry_mem hentry, (entry_split hentry).1⟩) rfl rfl ?_
    exact fun other hother heq => hnew (mem_map.mpr ⟨other, hother, heq⟩)

theorem core_setOn {on : Bool} {refused : Option String} (h : Core [] state)
    (hcareful : Careful state (.setOn id on refused)) : Core [] (state.setOn id on refused).2 := by
  rw [State.setOn]
  cases hentry : state.entry id with
  | none => exact h
  | some entry =>
    have hid : entry.tunnel.id = id := (entry_split hentry).1
    have hkept := h.entries entry (entry_mem hentry)
    dsimp only
    split
    · exact h
    · rename_i hchanged
      have hunused : (on && !state.runtime) = false → Unused state id (entry.run + 1) := by
        intro hruns
        refine hcareful.unused ?_
        rw [Event.reaches, hentry]
        simp only [Option.bind_some, hchanged, hruns, decide_false, Bool.or_false,
          Bool.false_eq_true, if_false, Option.toList_some, mem_singleton]
      cases on with
      | true =>
        simp only [if_true]
        cases hruntime : state.runtime with
        | false =>
          rw [State.start, hruntime]
          exact h
        | true =>
          exact core_start h hruntime hentry (hunused (by rw [hruntime]; rfl)) nofun
      | false =>
        simp only [Bool.false_eq_true, if_false]
        refine core_halted h hentry hid ?_ rfl nofun
        refine ⟨nofun, nofun, nofun, fun _ _ => rfl, fun _ _ run hrun hrunid hnumber => ?_, nofun⟩
        exact absurd ⟨hrunid.trans hid, hnumber⟩ (hunused rfl run (mem_of_getElem? hrun))

/-- Only what the callbacks and answers change. -/
structure SameRun (entry next : Entry) : Prop where
  tunnel : next.tunnel = entry.tunnel
  on : next.on = entry.on
  session : next.session = entry.session
  run : next.run = entry.run
  current : next.current = entry.current

theorem EntryKept.of_same (h : EntryKept except state entry) (hsame : SameRun entry next)
    (hframe : Frame state after news) (hruns : after.runs = state.runs)
    (hrequests : ∀ request ∈ next.requests, ∃ g, entry.current = some g ∧
      (request.id, g) ∈ after.asked)
    (hlink : entry.on = true → entry.tunnel.tied = true → next.link = none) :
    EntryKept except after next where
  current := by
    rw [hsame.current, hsame.tunnel, hsame.run, hruns]
    exact h.current
  requests := by
    rw [hsame.current]
    exact hrequests
  on := by
    rw [hsame.on, hframe.runtime]
    exact h.on
  link := by
    rw [hsame.on, hsame.tunnel]
    exact hlink
  fresh := by
    rw [hsame.tunnel, hsame.run, hsame.current, hruns]
    exact h.fresh
  session := by
    rw [hsame.tunnel, hsame.on, hsame.session, hframe.sessions]
    exact h.session

theorem Core.changed (h : Core except state) (hentry : state.entry id = some entry)
    (hframe : Frame state after news) (hnew : after.entries = (state.put id next).entries)
    (hsame : SameRun entry next) (hruns : after.runs = state.runs)
    (hrequests : ∀ request ∈ next.requests, ∃ g, entry.current = some g ∧
      (request.id, g) ∈ after.asked)
    (hlink : entry.on = true → entry.tunnel.tied = true → next.link = none)
    (hasked : (after.asked.map (·.1)).Nodup)
    (hperm : (next.requests.map (·.id) ++ after.answers.map (·.request)).Perm
      (entry.requests.map (·.id) ++ state.answers.map (·.request) ++ news.map (·.1)))
    (hanswers : ∀ given ∈ after.answers, given.byUser = true ∨ given.answer = .cancel) :
    Core except after :=
  h.swap hentry hframe hnew (hsame.tunnel ▸ (entry_split hentry).1)
    ((h.entries entry (entry_mem hentry)).of_same hsame hframe hruns hrequests hlink)
    (Or.inl hruns) (fun _ hmem _ => hmem) hasked hperm hanswers

/-- The question that is answered is one of the pending ones. -/
theorem answered_perm (front back answers : List Nat) (request : Nat) :
    (front ++ back ++ (answers ++ [request])).Perm (front ++ request :: back ++ answers ++ []) := by
  rw [List.append_nil, ← List.append_assoc]
  calc
    (front ++ back ++ answers ++ [request]).Perm (request :: (front ++ back ++ answers)) :=
      perm_append_singleton _ _
    List.Perm _ (front ++ request :: back ++ answers) := (perm_middle.append_right answers).symm

theorem core_answer {request : Nat} {answer : Answer} (h : Core [] state) :
    Core [] (state.answer id request answer).2 := by
  rw [State.answer]
  cases hentry : state.entry id with
  | none => exact h
  | some entry =>
    have hkept := h.entries entry (entry_mem hentry)
    dsimp only
    split
    · rename_i hany
      obtain ⟨asked, hasked, hsame⟩ := any_eq_true.mp hany
      refine h.changed hentry ⟨rfl, rfl, fun _ hmem => hmem, rfl, (List.append_nil _).symm⟩ rfl
        ⟨rfl, rfl, rfl, rfl, rfl⟩ rfl (fun other hother => hkept.requests other
          (mem_of_mem_eraseP hother)) hkept.link h.asked ?_ ?_
      · obtain ⟨found, front, back, -, hfound, heq, herase⟩ :=
          exists_of_eraseP (p := fun pending => decide (pending.id = request)) hasked hsame
        have hfound : found.id = request := of_decide_eq_true hfound
        have hids : entry.requests.map (·.id) = front.map (·.id) ++ request :: back.map (·.id) := by
          rw [heq, map_append, map_cons, hfound]
        dsimp only
        rw [herase, hids, map_append, map_append]
        exact answered_perm _ _ _ request
      · intro given hgiven
        rcases mem_append.mp hgiven with hold | hlast
        · exact h.answers given hold
        · obtain rfl := mem_singleton.mp hlast
          exact Or.inl rfl
    · exact h

theorem core_stopAll (h : Core [] state) (hcareful : Careful state .stopAll) :
    Core [] state.stopAll := by
  refine h.replaced ⟨rfl, rfl, fun _ hmem => hmem, rfl, (List.append_nil _).symm⟩ rfl ?_ ?_ ?_ rfl
  · rw [State.stopAll, map_map]
    exact h.ids
  · intro next hnext
    obtain ⟨entry, hentry, rfl⟩ := mem_map.mp hnext
    refine ⟨nofun, nofun, nofun, fun _ _ => rfl, fun _ _ run hrun hrunid hnumber => ?_, nofun⟩
    have hunused : Unused state entry.tunnel.id (entry.run + 1) :=
      hcareful.unused (mem_map.mpr ⟨entry, hentry, rfl⟩)
    exact absurd ⟨hrunid, hnumber⟩ (hunused run (mem_of_getElem? hrun))
  · rw [State.stopAll, pending, flatMap_map]
    exact flatMap_eq_nil_iff.mpr fun _ _ => rfl

theorem find?_eraseP {other : String} (hne : other ≠ id) (entries : List Entry) :
    (entries.eraseP fun entry => entry.tunnel.id = id).find? (fun entry => entry.tunnel.id = other) =
      entries.find? fun entry => entry.tunnel.id = other := by
  induction entries with
  | nil => rfl
  | cons entry rest ih =>
    by_cases hid : entry.tunnel.id = id
    · have hnot : entry.tunnel.id ≠ other := fun hother => hne (hother.symm.trans hid)
      simp only [eraseP_cons, List.find?_cons, hid, hne.symm, decide_true, cond_true, decide_false]
    · simp only [eraseP_cons, List.find?_cons, hid, decide_false, cond_false, ih]

/-- Where `reload` is, with the file's tunnels that are still to be looked at. -/
structure ReloadKept (original : State) (todo : List Tunnel) (reload : State.Reload) : Prop where
  core : Core reload.restart { reload.state with entries := reload.kept ++ reload.state.entries }
  distinct : (todo.map (·.id)).Nodup
  apart : ∀ entry ∈ reload.kept, entry.tunnel.id ∉ todo.map (·.id)
  runs : reload.state.runs = original.runs
  runtime : reload.state.runtime = original.runtime
  entry : ∀ tunnel ∈ todo, reload.state.entry tunnel.id = original.entry tunnel.id
  restart : reload.restart.Nodup
  waits : ∀ id ∈ reload.restart, original.runtime = true ∧ ∃ entry ∈ reload.kept,
    entry.tunnel.id = id ∧ Unused original id (entry.run + 1)

theorem reload_one {reload : State.Reload} {tunnel : Tunnel}
    (h : ReloadKept state (tunnel :: todo) reload)
    (hunused : ∀ entry, state.entry tunnel.id = some entry → ¬ entry.tunnel.eq tunnel →
      Unused state tunnel.id (if entry.on then entry.run + 2 else entry.run + 1)) :
    ReloadKept state todo (State.reloadOne reload tunnel) := by
  obtain ⟨hfirst, htodo⟩ := nodup_cons.mp h.distinct
  have hapart : ∀ entry ∈ reload.kept, entry.tunnel.id ∉ todo.map (·.id) :=
    fun entry hentry hmem => h.apart entry hentry (mem_cons_of_mem _ hmem)
  have hadded : ∀ next : Entry, next.tunnel.id = tunnel.id →
      ∀ entry ∈ reload.kept ++ [next], entry.tunnel.id ∉ todo.map (·.id) := by
    intro next hnext entry hentry
    rcases mem_append.mp hentry with hold | hlast
    · exact hapart entry hold
    · obtain rfl := mem_singleton.mp hlast
      exact hnext ▸ hfirst
  have hwaits : ∀ next : Entry, ∀ id ∈ reload.restart, state.runtime = true ∧
      ∃ entry ∈ reload.kept ++ [next], entry.tunnel.id = id ∧ Unused state id (entry.run + 1) := by
    intro next id hid
    obtain ⟨hruntime, entry, hentry, hrest⟩ := h.waits id hid
    exact ⟨hruntime, entry, mem_append_left _ hentry, hrest⟩
  have hlater : ∀ other ∈ todo, other.id ≠ tunnel.id := fun other hother heq =>
    hfirst (mem_map.mpr ⟨other, hother, heq⟩)
  rw [State.reloadOne]
  cases hentry : reload.state.entry tunnel.id with
  | none =>
    dsimp only
    refine ⟨?_, htodo, hadded _ rfl, h.runs, h.runtime,
      fun other hother => h.entry other (mem_cons_of_mem _ hother), h.restart, hwaits _⟩
    have hnew : (reload.kept ++ [({ tunnel } : Entry)] ++ reload.state.entries).Perm
        ([({ tunnel } : Entry)] ++ (reload.kept ++ reload.state.entries)) := by
      rw [List.append_assoc]
      exact perm_middle
    refine h.core.pushed ⟨rfl, rfl, fun _ hmem => hmem, rfl, (List.append_nil _).symm⟩ hnew rfl rfl
      fun other hother => ?_
    rcases mem_append.mp hother with hkept | hleft
    · exact fun heq => h.apart other hkept (mem_cons.mpr (Or.inl heq))
    · exact entry_none hentry other hleft
  | some entry =>
    dsimp only
    obtain ⟨hid, rest, hold, -, herase⟩ := entry_split hentry
    have hentries : ∀ other ∈ todo, State.entry { reload.state with
        entries := reload.state.entries.eraseP fun other => other.tunnel.id = tunnel.id }
          other.id = state.entry other.id := fun other hother =>
      (find?_eraseP (hlater other hother) _).trans (h.entry other (mem_cons_of_mem _ hother))
    have hbefore : (reload.kept ++ reload.state.entries).Perm ([entry] ++ (reload.kept ++ rest)) :=
      (hold.append_left _).trans perm_middle
    have hafter : ∀ next : Entry, (reload.kept ++ [next] ++ reload.state.entries.eraseP
        fun other => other.tunnel.id = tunnel.id).Perm ([next] ++ (reload.kept ++ rest)) := by
      intro next
      rw [List.append_assoc]
      exact ((herase.append_left _).append_left _).trans perm_middle
    split
    · refine ⟨?_, htodo, hadded _ hid, h.runs, h.runtime, hentries, h.restart, hwaits _⟩
      have hold : (reload.kept ++ reload.state.entries).Perm
          ([] ++ (reload.kept ++ reload.state.entries)) := List.Perm.refl _
      exact h.core.dropped ⟨rfl, rfl, fun _ hmem => hmem, rfl, (List.append_nil _).symm⟩ hold
        ((hafter entry).trans hbefore.symm) rfl (List.append_nil _).symm
    · rename_i hchanged
      have hfree := hunused entry ((h.entry tunnel mem_cons_self).symm.trans hentry) hchanged
      have hkept := h.core.entries entry (mem_append_right _ (entry_mem hentry))
      have hcore : ∀ later, (tunnel.id ∉ later → entry.on = false) →
          (∀ id ∈ reload.restart, id ∈ later) →
            Core later { reload.state.cancel entry.requests with
              entries := reload.kept ++ [{ entry.halt with tunnel }] ++
                reload.state.entries.eraseP fun other => other.tunnel.id = tunnel.id } := by
        intro later hoff hrestart
        refine h.core.swapped ⟨rfl, rfl, fun _ hmem => hmem, rfl, (List.append_nil _).symm⟩ hbefore
          (hafter { entry.halt with tunnel }) hid.symm
          (entryKept_halt hkept rfl fun hnot => ⟨hoff hnot, fun run hrun => ?_⟩) (Or.inl rfl)
          (fun id hin _ => hrestart id hin) h.core.asked
          (halted_perm reload.state entry.requests) (answers_cancel h.core.answers)
        rw [if_neg (Bool.eq_false_iff.mp (hoff hnot))] at hfree
        exact hfree run (h.runs ▸ hrun)
      cases hon : entry.on with
      | false =>
        exact ⟨hcore _ (fun _ => hon) fun _ hmem => hmem, htodo, hadded _ rfl, h.runs, h.runtime,
          hentries, h.restart, hwaits _⟩
      | true =>
        refine ⟨hcore _ (fun hnot => ?_) fun _ hmem => mem_append_left _ hmem, htodo,
          hadded _ rfl, h.runs, h.runtime, hentries, ?_, fun id hmem => ?_⟩
        · exact absurd (mem_append_right _ (mem_singleton.mpr rfl)) hnot
        · refine nodup_append.mpr ⟨h.restart, nodup_singleton _, fun a ha b hb => ?_⟩
          obtain rfl := mem_singleton.mp hb
          obtain ⟨-, other, hother, hotherId, -⟩ := h.waits a ha
          rintro rfl
          exact h.apart other hother (hotherId ▸ mem_cons_self)
        · rcases mem_append.mp hmem with hold | hlast
          · exact hwaits _ id hold
          · obtain rfl := mem_singleton.mp hlast
            rw [if_pos hon] at hfree
            exact ⟨h.runtime.symm.trans (hkept.on hon), _, mem_append_right _
              (mem_singleton.mpr rfl), rfl, hfree⟩

theorem reload_all {reload : State.Reload} (h : ReloadKept state todo reload)
    (hunused : ∀ tunnel ∈ todo, ∀ entry, state.entry tunnel.id = some entry →
      ¬ entry.tunnel.eq tunnel →
        Unused state tunnel.id (if entry.on then entry.run + 2 else entry.run + 1)) :
    ReloadKept state [] (todo.foldl State.reloadOne reload) := by
  induction todo generalizing reload with
  | nil => exact h
  | cons tunnel todo ih =>
    exact ih (reload_one h (hunused tunnel mem_cons_self))
      fun other hother => hunused other (mem_cons_of_mem _ hother)

theorem core_reload {file : TunnelsFile} (h : Core [] state)
    (hcareful : Careful state (.reload file refuses)) : Core [] (state.reload file refuses) := by
  have hunused : ∀ tunnel ∈ file.tunnels, ∀ entry, state.entry tunnel.id = some entry →
      ¬ entry.tunnel.eq tunnel →
        Unused state tunnel.id (if entry.on then entry.run + 2 else entry.run + 1) := by
    intro tunnel htunnel entry hentry hchanged
    refine hcareful.unused ?_
    rw [Event.reaches]
    refine mem_filterMap.mpr ⟨tunnel, htunnel, ?_⟩
    rw [hentry, Option.bind_some, if_neg hchanged]
  have hstart : ReloadKept state file.tunnels
      { state := { state with extra := file.extra, readOnly := file.readOnly } } := by
    refine ⟨?_, file.distinct, fun _ hnil => absurd hnil not_mem_nil, rfl, rfl,
      fun _ _ => rfl, nodup_nil, fun _ hnil => absurd hnil not_mem_nil⟩
    have hold : state.entries.Perm ([] ++ state.entries) := List.Perm.refl _
    exact h.dropped ⟨rfl, rfl, fun _ hmem => hmem, rfl, (List.append_nil _).symm⟩ hold
      (List.Perm.refl _) rfl (List.append_nil _).symm
  have hdone := reload_all hstart hunused
  rw [State.reload]
  generalize file.tunnels.foldl State.reloadOne _ = done at hdone
  have hkept : Core done.restart
      { done.state.cancel (done.state.entries.flatMap (·.requests)) with entries := done.kept } :=
    hdone.core.dropped ⟨rfl, rfl, fun _ hmem => hmem, rfl, (List.append_nil _).symm⟩
      perm_append_comm (List.Perm.refl _) rfl rfl
  dsimp only
  cases hrestart : done.restart with
  | nil =>
    rw [hrestart] at hkept
    exact hkept
  | cons first rest =>
    rw [← hrestart]
    have hruntime : state.runtime = true := (hdone.waits first (hrestart ▸ mem_cons_self)).1
    refine core_startEach hdone.restart hkept (hdone.runtime.trans hruntime) fun id hid => ?_
    obtain ⟨-, entry, hentry, hentryId, hfree⟩ := hdone.waits id hid
    exact ⟨entry, hentry, hentryId, fun run hrun => hfree run (hdone.runs ▸ hrun)⟩

theorem Core.callback {run : Run} (h : Core [] state) (hrun : state.runs[g]? = some run)
    (hentry : state.entry run.id = some entry) (hnumber : entry.run = run.number) :
    entry.current = some g ∧ run.tied = entry.tunnel.tied := by
  have hkept := h.entries entry (entry_mem hentry)
  have hcurrent : entry.current = some g :=
    hkept.fresh not_mem_nil g run hrun (entry_split hentry).1.symm hnumber.symm
  obtain ⟨same, hsame, -, -, htied⟩ := hkept.current g hcurrent
  obtain rfl := Option.some.inj (hrun.symm.trans hsame)
  exact ⟨hcurrent, htied⟩

/-- A callback that leaves the questions alone. -/
theorem core_update {run : Run} (h : Core [] state)
    (hchange : ∀ entry, SameRun entry (change entry) ∧ (change entry).requests = entry.requests)
    (hlink : ∀ entry, state.entry run.id = some entry → entry.run = run.number →
      entry.on = true → entry.tunnel.tied = true → (change entry).link = none) :
    Core [] (state.update run change) := by
  rw [State.update]
  cases hentry : state.entry run.id with
  | none => exact h
  | some entry =>
    dsimp only
    split
    · exact h
    · rename_i hnumber
      obtain ⟨hsame, hrequests⟩ := hchange entry
      refine h.changed hentry ⟨rfl, rfl, fun _ hmem => hmem, rfl, (List.append_nil _).symm⟩ rfl
        hsame rfl ?_ (hlink entry hentry (Decidable.not_not.mp hnumber)) h.asked ?_ h.answers
      · rw [hrequests]
        exact (h.entries entry (entry_mem hentry)).requests
      · rw [hrequests]
        exact List.Perm.of_eq (List.append_nil _).symm

theorem core_report {run : Run} {report : Report} (h : Core [] state) :
    Core [] (state.report run report) := by
  have hlink : ∀ entry, state.entry run.id = some entry → entry.run = run.number →
      entry.on = true → entry.tunnel.tied = true → entry.link = none :=
    fun entry hentry _ => (h.entries entry (entry_mem hentry)).link
  cases report with
  | listening port => exact core_update h (fun _ => ⟨⟨rfl, rfl, rfl, rfl, rfl⟩, rfl⟩) hlink
  | waiting => exact core_update h (fun _ => ⟨⟨rfl, rfl, rfl, rfl, rfl⟩, rfl⟩) hlink
  | failed message =>
    rw [State.report]
    cases hentry : state.entry run.id with
    | none => exact h
    | some entry =>
      dsimp only
      split
      · exact h
      · rename_i hnumber
        exact h.changed hentry ⟨rfl, rfl, fun _ hmem => hmem, rfl, (List.append_nil _).symm⟩ rfl
          ⟨rfl, rfl, rfl, rfl, rfl⟩ rfl nofun
          (hlink entry hentry (Decidable.not_not.mp hnumber)) h.asked
          (halted_perm state entry.requests) (answers_cancel h.answers)

theorem core_link {run : Run} {link : Link} (h : Core [] state) (hrun : state.runs[g]? = some run)
    (htied : run.tied = false) : Core [] (state.link run link) := by
  refine core_update h (fun _ => ⟨⟨rfl, rfl, rfl, rfl, rfl⟩, rfl⟩) ?_
  intro entry hentry hnumber _ hyes
  rw [← (h.callback hrun hentry hnumber).2, htied] at hyes
  cases hyes

theorem core_ask {run : Run} {request : Request} (h : Core [] state)
    (hrun : state.runs[g]? = some run) (hnew : request.id ∉ state.asked.map (·.1)) :
    Core [] ({ state with asked := state.asked ++ [(request.id, g)] }.ask run request) := by
  have hasked : ((state.asked ++ [(request.id, g)]).map (·.1)).Nodup := by
    rw [map_append, nodup_append]
    refine ⟨h.asked, nodup_singleton request.id, fun a ha b hb => ?_⟩
    obtain rfl := mem_singleton.mp hb
    rintro (rfl : a = request.id)
    exact hnew ha
  have hcancelled : Core [] ({ state with asked := state.asked ++ [(request.id, g)] }.cancel
      [request]) := by
    have hold : state.entries.Perm ([] ++ state.entries) := List.Perm.refl _
    have hids : (([] : List Entry).map (·.tunnel.id)).Nodup := nodup_nil
    refine h.exchange ⟨rfl, rfl, fun _ hmem => hmem, rfl, rfl⟩ hold hold hids
      (fun _ _ _ hnil => absurd hnil not_mem_nil)
      (fun _ hnil => absurd hnil not_mem_nil) (fun _ _ => Or.inl rfl) h.runs
      (fun _ _ hmem => hmem) hasked ?_ (answers_cancel h.answers)
    rw [State.cancel, map_append]
    exact List.Perm.refl _
  rw [State.ask]
  cases hentry : State.entry { state with asked := state.asked ++ [(request.id, g)] } run.id with
  | none => exact hcancelled
  | some entry =>
    have hentry : state.entry run.id = some entry := hentry
    dsimp only
    split
    · rename_i hnumber
      have hcurrent := (h.callback hrun hentry hnumber).1
      have hkept := h.entries entry (entry_mem hentry)
      refine h.changed hentry ⟨rfl, rfl, fun _ hmem => hmem, rfl, rfl⟩ rfl
        ⟨rfl, rfl, rfl, rfl, rfl⟩ rfl (fun other hother => ?_) hkept.link hasked ?_ h.answers
      · rcases mem_append.mp hother with hold | hlast
        · obtain ⟨owner, howner, hmem⟩ := hkept.requests other hold
          exact ⟨owner, howner, mem_append_left _ hmem⟩
        · obtain rfl := mem_singleton.mp hlast
          exact ⟨g, hcurrent, mem_append_right _ (mem_singleton.mpr rfl)⟩
      · rw [map_append, List.append_assoc, List.append_assoc]
        exact perm_append_comm.append_left _
    · exact hcancelled

theorem said_cons (state : State) (told : Told) (host : String) (pane : Int) :
    State.said { state with told := told :: state.told } host pane =
      (told.tells host pane).or (state.said host pane) := by
  rw [State.said, List.findSome?_cons]
  cases told.tells host pane <;> rfl

theorem heard_live {host : String} {pane : Int} (h : Heard state host) (other : Int) :
    other ∈ ((state.sessions host).panes.filter (·.1 ≠ pane) ++
        (connection.map fun c => (pane, c)).toList).map (·.1) ↔
      ((if connection.isSome then Told.live host pane else .gone host pane).tells host other).or
        (state.said host other) = some true := by
  rw [map_append, mem_append]
  by_cases hother : pane = other
  · subst hother
    have hfiltered : pane ∉ ((state.sessions host).panes.filter (·.1 ≠ pane)).map (·.1) := by
      intro hmem
      obtain ⟨entry, hentry, heq⟩ := mem_map.mp hmem
      exact absurd heq (of_decide_eq_true (mem_filter.mp hentry).2)
    cases connection with
    | none =>
      rw [Option.map_none, Option.toList_none, map_nil]
      simp [Told.tells]
    | some c => simp [Told.tells]
  · have hkept : other ∈ ((state.sessions host).panes.filter (·.1 ≠ pane)).map (·.1) ↔
        other ∈ (state.sessions host).panes.map (·.1) := by
      simp only [mem_map, mem_filter, decide_eq_true_iff]
      constructor
      · rintro ⟨entry, ⟨hentry, -⟩, heq⟩
        exact ⟨entry, hentry, heq⟩
      · rintro ⟨entry, hentry, rfl⟩
        exact ⟨entry, ⟨hentry, fun heq => hother heq.symm⟩, rfl⟩
    rw [hkept, h.said other]
    cases connection <;> simp [Told.tells, hother, Ne.symm hother]

/-- The panes of a host after one was reported. -/
def panesAfter (state : State) (host : String) (pane : Int) (connection : Option Nat) :
    List (Int × Nat) :=
  (state.sessions host).panes.filter (·.1 ≠ pane) ++ (connection.map fun c => (pane, c)).toList

theorem sessions_live (state : State) (host : String) (pane : Int) (connection : Option Nat)
    (other : String) : (state.sessionLive host pane connection).sessions other =
      if other = host then
        ⟨panesAfter state host pane connection,
          (panesAfter state host pane connection).head?.map (·.2)⟩
      else state.sessions other := by
  rw [State.sessionLive]
  dsimp only
  split
  · refine congrArg (Sessions.mk _) ?_
    split
    · assumption
    · rfl
  · rfl

/-- A tied tunnel of the host is told whether a session is up; the others are left alone. -/
theorem kept_live {host : String} {pane : Int} (h : EntryKept except state entry) :
    EntryKept except (state.sessionLive host pane connection)
      (entry.follows host ((panesAfter state host pane connection).head?.map (·.2)).isSome) := by
  rw [Entry.follows]
  split
  · rename_i hfollows
    refine ⟨h.current, h.requests, h.on, h.link, h.fresh, fun _ _ _ => ?_⟩
    rw [Bool.and_eq_true, decide_eq_true_iff] at hfollows
    rw [sessions_live, if_pos hfollows.2]
  · rename_i hnot
    refine ⟨h.current, h.requests, h.on, h.link, h.fresh, fun hid hon htied => ?_⟩
    rw [sessions_live, if_neg fun hhost => hnot (by rw [htied, hhost, decide_eq_true rfl]; rfl)]
    exact h.session hid hon htied

theorem core_sessionLive {host : String} {pane : Int} {connection : Option Nat}
    (h : Core [] state) : Core [] (state.sessionLive host pane connection) where
  ids := by
    rw [State.sessionLive]
    dsimp only
    rw [map_map]
    simpa only [Function.comp_def, Entry.follows_tunnel, State.sessionsOf] using h.ids
  entries := fun next hnext => by
    obtain ⟨entry, hentry, rfl⟩ := mem_map.mp hnext
    exact kept_live (h.entries entry hentry)
  runs := h.runs
  asked := h.asked
  answered := by
    rw [State.sessionLive]
    dsimp only
    rw [pending, flatMap_map]
    simpa only [Function.comp_def, Entry.follows_requests, pending, State.sessionsOf] using
      h.answered
  answers := h.answers
  heard := by
    intro other
    have hsaid := said_cons state
      (if connection.isSome then .live host pane else .gone host pane) other
    by_cases hother : other = host
    · subst hother
      refine ⟨?_, fun p => ?_, fun _ => (mem_sessionsOf state other).1⟩
      · rw [sessions_live, if_pos rfl]
      · rw [sessions_live, if_pos rfl]
        exact (heard_live (h.heard other) p).trans (Iff.of_eq (congrArg (· = some true) (hsaid p).symm))
    · have hold := h.heard other
      refine ⟨?_, fun p => ?_, fun hpanes => ?_⟩
      · rw [sessions_live, if_neg hother]
        exact hold.sender
      · rw [sessions_live, if_neg hother, hold.said p]
        have hnone : Told.tells other p
            (if connection.isSome then .live host pane else .gone host pane) = none := by
          split
          · exact if_neg fun hsame => hother hsame.1.symm
          · exact if_neg fun hsame => hother hsame.1.symm
        refine Iff.of_eq (congrArg (· = some true) ?_)
        have hp := hsaid p
        rw [hnone] at hp
        exact hp.symm
      · rw [sessions_live, if_neg hother] at hpanes
        exact (mem_sessionsOf state host).2 other (hold.hosts hpanes)

theorem core_sessionClosed (h : Core [] state) (pane : Int) :
    Core [] (state.sessionClosed pane) := by
  have hkept : ∀ entry ∈ state.entries, EntryKept [] (state.sessionClosed pane) entry :=
    fun entry hentry =>
      have hentry := h.entries entry hentry
      ⟨hentry.current, hentry.requests, hentry.on, hentry.link, hentry.fresh, hentry.session⟩
  refine ⟨h.ids, hkept, h.runs, h.asked, h.answered, h.answers, fun host => ?_⟩
  have hold := h.heard host
  refine ⟨hold.sender, fun p => ?_, hold.hosts⟩
  have hsaid := said_cons state (.closed pane
    (state.hosts.filter fun host => (state.sessions host).panes.any (·.1 = pane))) host p
  by_cases hgone : pane = p ∧ host ∉ state.hosts.filter fun host =>
      (state.sessions host).panes.any (·.1 = pane)
  · obtain ⟨rfl, hnot⟩ := hgone
    -- The host's table does not have the pane: it would have been found.
    have habsent : pane ∉ (state.sessions host).panes.map (·.1) := by
      intro hmem
      obtain ⟨entry, hentry, rfl⟩ := mem_map.mp hmem
      exact hnot (mem_filter.mpr ⟨hold.hosts (ne_nil_of_mem hentry),
        any_eq_true.mpr ⟨entry, hentry, decide_eq_true rfl⟩⟩)
    rw [Told.tells, if_pos ⟨rfl, hnot⟩] at hsaid
    refine ⟨fun hmem => absurd hmem habsent, fun hyes => ?_⟩
    cases hsaid.symm.trans hyes
  · rw [Told.tells, if_neg hgone] at hsaid
    exact (hold.said p).trans (Iff.of_eq (congrArg (· = some true) hsaid.symm))

/-- A step keeps the invariant unless a number is used twice. -/
theorem core_step (h : Core [] state) (hcareful : Careful state event)
    (hstep : step state event = some after) : Core [] after := by
  cases event with
  | load file autostart refuses =>
    obtain rfl := Option.some.inj hstep
    exact core_load h hcareful
  | reload file refuses =>
    obtain rfl := Option.some.inj hstep
    exact core_reload h hcareful
  | upsert tunnel refused =>
    obtain rfl := Option.some.inj hstep
    exact core_upsert h hcareful
  | remove id =>
    obtain rfl := Option.some.inj hstep
    exact core_remove h id
  | duplicate id newId =>
    rw [step] at hstep
    split at hstep
    · cases hstep
    · rename_i hnew
      obtain rfl := Option.some.inj hstep
      exact core_duplicate h hnew
  | setOn id on refused =>
    obtain rfl := Option.some.inj hstep
    exact core_setOn h hcareful
  | answer id request answer =>
    obtain rfl := Option.some.inj hstep
    exact core_answer h
  | stopAll =>
    obtain rfl := Option.some.inj hstep
    exact core_stopAll h hcareful
  | sessionLive host pane connection =>
    obtain rfl := Option.some.inj hstep
    exact core_sessionLive h
  | sessionClosed pane =>
    obtain rfl := Option.some.inj hstep
    exact core_sessionClosed h pane
  | takenFrom i =>
    obtain ⟨⟨host, pane⟩, -, rfl⟩ := Option.map_eq_some_iff.mp hstep
    have hless : Core [] { state with closing := state.closing.eraseIdx i } :=
      ⟨h.ids, fun entry hentry => (h.entries entry hentry).grow
        ⟨rfl, rfl, fun _ hmem => hmem, rfl, (List.append_nil _).symm⟩ (Or.inl rfl) nofun,
        h.runs, h.asked, h.answered, h.answers, fun host => (h.heard host).of_frame
          ⟨rfl, rfl, fun _ hmem => hmem, rfl, (List.append_nil _).symm⟩⟩
    exact core_sessionLive hless
  | report g report =>
    obtain ⟨run, -, rfl⟩ := Option.map_eq_some_iff.mp hstep
    exact core_report h
  | link g link =>
    obtain ⟨run, hrun, hlink⟩ := Option.bind_eq_some_iff.mp hstep
    split at hlink
    · cases hlink
    · rename_i htied
      obtain rfl := Option.some.inj hlink
      exact core_link h hrun (Bool.eq_false_iff.mpr htied)
  | ask g request =>
    obtain ⟨run, hrun, hask⟩ := Option.bind_eq_some_iff.mp hstep
    split at hask
    · cases hask
    · rename_i hnot
      obtain rfl := Option.some.inj hask
      rw [Bool.or_eq_true, not_or, contains_iff_mem] at hnot
      exact core_ask h hrun hnot.2

theorem Heard.up {host : String} (h : Heard state host) :
    (state.sessions host).sender.isSome = true ↔ state.Up host := by
  rw [h.sender, Option.isSome_map, isSome_head?]
  constructor
  · intro hpanes
    obtain ⟨entry, hentry⟩ := exists_mem_of_ne_nil _ (by simpa using hpanes)
    exact ⟨entry.1, (h.said entry.1).mp (mem_map_of_mem hentry)⟩
  · rintro ⟨pane, hsaid⟩
    have hmem := (h.said pane).mpr hsaid
    cases hpanes : (state.sessions host).panes with
    | nil =>
      rw [hpanes] at hmem
      cases hmem
    | cons entry rest => exact cons_ne_nil _ _

theorem Core.stale {run : Run} (h : Core [] state) (hrun : state.runs[g]? = some run)
    (hhalted : ¬ state.Live g) : state.entry run.id = none ∨
      ∃ entry, state.entry run.id = some entry ∧ entry.run ≠ run.number := by
  cases hentry : state.entry run.id with
  | none => exact Or.inl rfl
  | some entry =>
    refine Or.inr ⟨entry, rfl, fun hnumber => hhalted ⟨entry, entry_mem hentry, ?_⟩⟩
    exact (h.callback hrun hentry hnumber).1

theorem update_stale {run : Run}
    (h : state.entry run.id = none ∨
    ∃ entry, state.entry run.id = some entry ∧ entry.run ≠ run.number) :
    state.update run change = state := by
  rw [State.update]
  rcases h with hnone | ⟨entry, hentry, hnumber⟩
  · rw [hnone]
  · rw [hentry]
    exact if_pos hnumber

theorem ask_stale {run : Run} {request : Request} {asked : List (Nat × Nat)}
    (h : state.entry run.id = none ∨
      ∃ entry, state.entry run.id = some entry ∧ entry.run ≠ run.number) :
    (State.ask { state with asked } run request).entries = state.entries := by
  rw [State.ask]
  split
  · rename_i entry hentry
    rcases h with hnone | ⟨found, hfound, hnumber⟩
    · cases hnone.symm.trans hentry
    · obtain rfl := Option.some.inj (hfound.symm.trans hentry)
      rw [if_neg hnumber]
      rfl
  · rfl

theorem Core.deaf (h : Core [] state) (hcaller : event.caller = some g) (hhalted : ¬ state.Live g)
    (hstep : step state event = some after) : after.entries = state.entries := by
  cases event with
  | report _ report =>
    obtain rfl := Option.some.inj hcaller
    obtain ⟨run, hrun, rfl⟩ := Option.map_eq_some_iff.mp hstep
    have hstale := h.stale hrun hhalted
    cases report with
    | listening port => exact congrArg State.entries (update_stale hstale)
    | waiting => exact congrArg State.entries (update_stale hstale)
    | failed message =>
      rw [State.report]
      rcases hstale with hnone | ⟨entry, hentry, hnumber⟩
      · rw [hnone]
      · rw [hentry]
        dsimp only
        rw [if_pos hnumber]
  | link _ link =>
    obtain rfl := Option.some.inj hcaller
    obtain ⟨run, hrun, hlink⟩ := Option.bind_eq_some_iff.mp hstep
    split at hlink
    · cases hlink
    · obtain rfl := Option.some.inj hlink
      exact congrArg State.entries (update_stale (h.stale hrun hhalted))
  | ask _ request =>
    obtain rfl := Option.some.inj hcaller
    obtain ⟨run, hrun, hask⟩ := Option.bind_eq_some_iff.mp hstep
    split at hask
    · cases hask
    · obtain rfl := Option.some.inj hask
      exact ask_stale (h.stale hrun hhalted)
  | _ => cases hcaller

theorem Core.once (h : Core [] state) {asked : Nat × Nat} (hasked : asked ∈ state.asked) :
    (state.answers.map (·.request)).count asked.1 = 1 ∨
      (state.answers.map (·.request)).count asked.1 = 0 ∧
        ∃ entry ∈ state.entries, entry.current = some asked.2 ∧
          asked.1 ∈ entry.requests.map (·.id) := by
  have hcount := (h.answered.count_eq asked.1).trans
    (count_eq_one_of_mem h.asked (mem_map_of_mem hasked))
  rw [count_append] at hcount
  by_cases hpending : asked.1 ∈ pending state.entries
  · refine Or.inr ⟨?_, ?_⟩
    · have hpositive := count_pos_iff.mpr hpending
      omega
    · obtain ⟨entry, hentry, hmem⟩ := mem_flatMap.mp hpending
      obtain ⟨request, hrequest, hid⟩ := mem_map.mp hmem
      obtain ⟨g, hg, howner⟩ := (h.entries entry hentry).requests request hrequest
      have hsame : (request.id, g) = asked := inj_on_of_nodup_map h.asked howner hasked hid
      exact ⟨entry, hentry, hsame ▸ hg, hmem⟩
  · rw [count_eq_zero_of_not_mem hpending, Nat.zero_add] at hcount
    exact Or.inl hcount

theorem core_start_state (runtime : Bool) : Core [] { runtime } where
  ids := nodup_nil
  entries := fun _ hnil => absurd hnil not_mem_nil
  runs := fun _ hnil => absurd hnil not_mem_nil
  asked := nodup_nil
  answered := List.Perm.refl _
  answers := fun _ hnil => absurd hnil not_mem_nil
  heard := fun host => ⟨rfl, fun pane => ⟨fun hnil => absurd hnil not_mem_nil, fun hnone => by
    cases hnone⟩, fun hpanes => absurd rfl hpanes⟩

theorem shown_waiting (hon : entry.on = true) (hfailure : entry.failure = none)
    (hlink : entry.link = none) (htied : entry.tunnel.tied = true)
    (hwaiting : entry.waiting = false) : entry.shown = .waiting ↔ entry.session = false := by
  rw [Entry.shown, hon, hfailure, hlink, htied, hwaiting]
  cases entry.session with
  | false => exact ⟨fun _ => rfl, fun _ => rfl⟩
  | true => cases hport : entry.listening <;> exact ⟨nofun, nofun⟩

end Invariant

/-- In every run in which no tunnel comes to a number that an earlier tunnel's run with its id
had: a callback of a halted run changes no entry, each question is answered once or waits in
the entry of its run, only the user answers with anything but `Cancel`, and a tied tunnel that
is on is told of a session exactly when one is up. -/
theorem tunnels_hear {runtime : Bool} {events : List Event} {state : State}
    (hrun : GoodRun step Careful { runtime } events state) :
    (∀ event g after, event.caller = some g → ¬ state.Live g → step state event = some after →
      after.entries = state.entries) ∧
      (∀ asked ∈ state.asked, (state.answers.map (·.request)).count asked.1 = 1 ∨
        (state.answers.map (·.request)).count asked.1 = 0 ∧
          ∃ entry ∈ state.entries, entry.current = some asked.2 ∧
            asked.1 ∈ entry.requests.map (·.id)) ∧
      (∀ given ∈ state.answers, given.byUser = true ∨ given.answer = .cancel) ∧
      ∀ entry ∈ state.entries, entry.on = true → entry.tunnel.tied = true →
        (entry.session = true ↔ state.Up entry.tunnel.host) ∧
          (entry.failure = none → entry.waiting = false →
            (entry.shown = .waiting ↔ ¬ state.Up entry.tunnel.host)) := by
  have h : Core [] state := hrun.invariant (p := Core []) core_step (core_start_state runtime)
  refine ⟨fun event g after hcaller hhalted hstep => h.deaf hcaller hhalted hstep,
    fun asked hasked => h.once hasked, h.answers, fun entry hentry hon htied => ?_⟩
  have hkept := h.entries entry hentry
  have hup : entry.session = true ↔ state.Up entry.tunnel.host := by
    rw [hkept.session List.not_mem_nil hon htied]
    exact (h.heard entry.tunnel.host).up
  refine ⟨hup, fun hfailure hwaiting => ?_⟩
  rw [shown_waiting hon hfailure (hkept.link hon htied) htied hwaiting, ← hup, Bool.not_eq_true]

section Stopped

variable {state after : State} {event : Event}

theorem not_live_stopped (state : State) (g : Nat) : ¬ state.stopAll.Live g := by
  rintro ⟨next, hnext, hcurrent⟩
  obtain ⟨entry, -, rfl⟩ := mem_map.mp hnext
  cases hcurrent

/-- Callbacks that come when no run is live change no entry, and what they ask is answered. -/
theorem late_step (h : Core [] state) (hdead : ∀ g, ¬ state.Live g)
    (hcaller : event.caller.isSome = true) (hstep : step state event = some after) :
    Core [] after ∧ (∀ g, ¬ after.Live g) ∧ after.entries = state.entries := by
  obtain ⟨g, hg⟩ := Option.isSome_iff_exists.mp hcaller
  have hentries := h.deaf hg (hdead g) hstep
  have hcareful : Careful state event := by
    intro run _
    cases event <;> first | exact not_mem_nil | cases hg
  refine ⟨core_step h hcareful hstep, fun g hlive => hdead g ?_, hentries⟩
  rwa [State.Live, hentries] at hlive

/-- Once everything was stopped nothing comes back: callbacks that are still on their way, in
whatever order, leave every tunnel off, and each question ever asked has one answer. -/
theorem stopped_for_good {runtime : Bool} {events late : List Event} {state last : State}
    (hrun : GoodRun step Careful { runtime } events state) (hcareful : Careful state .stopAll)
    (hlate : ∀ event ∈ late, event.caller.isSome = true)
    (hlast : runFrom step state.stopAll late = some last) :
    last.entries = state.entries.map (fun entry => { entry.halt with on := false }) ∧
      ∀ asked ∈ last.asked, (last.answers.map (·.request)).count asked.1 = 1 := by
  have h : Core [] state := hrun.invariant (p := Core []) core_step (core_start_state runtime)
  have hend : Core [] last ∧ (∀ g, ¬ last.Live g) ∧ last.entries = state.stopAll.entries := by
    have hrest : ∀ start, Core [] start → (∀ g, ¬ start.Live g) →
        runFrom step start late = some last →
          Core [] last ∧ (∀ g, ¬ last.Live g) ∧ last.entries = start.entries := by
      clear hlast
      induction late with
      | nil =>
        intro start hcore hdead hlast
        obtain rfl := Option.some.inj hlast
        exact ⟨hcore, hdead, rfl⟩
      | cons event late ih =>
        intro start hcore hdead hlast
        obtain ⟨hevent, hlate⟩ := forall_mem_cons.mp hlate
        obtain ⟨next, hstep, hnext⟩ := Option.bind_eq_some_iff.mp hlast
        obtain ⟨hcore', hdead', hentries⟩ := late_step hcore hdead hevent hstep
        obtain ⟨hcore'', hdead'', hsame⟩ := ih hlate next hcore' hdead' hnext
        exact ⟨hcore'', hdead'', hsame.trans hentries⟩
    exact hrest state.stopAll (core_stopAll h hcareful) (not_live_stopped state) hlast
  obtain ⟨hcore, hdead, hentries⟩ := hend
  refine ⟨hentries, fun asked hasked => (hcore.once hasked).resolve_right ?_⟩
  rintro ⟨-, entry, hentry, hcurrent, -⟩
  exact hdead asked.2 ⟨entry, hentry, hcurrent⟩

end Stopped

namespace TunnelsWitness

def independent : Tunnel := { id := "A", kind := .dynamic, target := "me@box" }

def follower : Tunnel := { id := "B", kind := .dynamic, host := "H", tied := true }

/-- A question is asked and answered, a second one comes after the stop, and a tied tunnel
hears of a session. -/
def asked : List Event :=
  [.upsert independent none, .setOn "A" true none, .ask 0 ⟨7, "password"⟩,
    .answer "A" 7 (.secrets ["x"]), .setOn "A" false none, .ask 0 ⟨8, "password"⟩,
    .upsert follower none, .setOn "B" true none, .sessionLive "H" 3 (some 1)]

/-- The tunnel is removed and comes back. -/
def back : List Event :=
  [.upsert independent none, .setOn "A" true none, .remove "A", .upsert independent none,
    .setOn "A" true none]

theorem hear_asked : ∃ state, runFrom step { runtime := true } asked = some state ∧
    state.answers = [⟨7, .secrets ["x"], true⟩, ⟨8, .cancel, false⟩] ∧
      state.entries.map (·.session) = [false, true] ∧
      (∀ event g after, event.caller = some g → ¬ state.Live g → step state event = some after →
        after.entries = state.entries) ∧
      (∀ asked ∈ state.asked, (state.answers.map (·.request)).count asked.1 = 1 ∨
        (state.answers.map (·.request)).count asked.1 = 0 ∧
          ∃ entry ∈ state.entries, entry.current = some asked.2 ∧
            asked.1 ∈ entry.requests.map (·.id)) ∧
      (∀ given ∈ state.answers, given.byUser = true ∨ given.answer = .cancel) ∧
      ∀ entry ∈ state.entries, entry.on = true → entry.tunnel.tied = true →
        (entry.session = true ↔ state.Up entry.tunnel.host) ∧
          (entry.failure = none → entry.waiting = false →
            (entry.shown = .waiting ↔ ¬ state.Up entry.tunnel.host)) := by
  obtain ⟨state, hrun⟩ : ∃ state, runFrom step { runtime := true } asked = some state := ⟨_, rfl⟩
  have hkept := tunnels_hear (GoodRun.of_isSome (by decide) hrun)
  obtain rfl := Option.some.inj hrun
  exact ⟨_, rfl, by decide, by decide, hkept⟩

/-- A callback of the first run changes the entry that came back, and its question waits there
although its run was halted. -/
theorem hears_back : ∃ state, runFrom step { runtime := true } back = some state ∧
    state.entries.map (·.current) = [some 1] ∧
      (∃ after, step state (.link 0 (.ended "auth" "no")) = some after ∧
        state.entries.map (·.link) = [none] ∧
          after.entries.map (·.link) = [some (.ended "auth" "no")]) ∧
        ∃ after, step state (.ask 0 ⟨7, "password"⟩) = some after ∧ after.answers = [] :=
  ⟨_, rfl, rfl, ⟨_, rfl, rfl, rfl⟩, _, rfl, rfl⟩

/-- A question that waits at the stop and one that comes after it are cancelled. -/
theorem stopped_answers : ∃ state last, runFrom step { runtime := true }
      [.upsert independent none, .setOn "A" true none, .ask 0 ⟨7, "password"⟩] = some state ∧
    runFrom step state.stopAll [.report 0 (.listening 22), .ask 0 ⟨8, "password"⟩] = some last ∧
    last.entries = state.entries.map (fun entry => { entry.halt with on := false }) ∧
      ∀ asked ∈ last.asked, (last.answers.map (·.request)).count asked.1 = 1 := by
  obtain ⟨state, hrun⟩ : ∃ state, runFrom step { runtime := true }
    [.upsert independent none, .setOn "A" true none, .ask 0 ⟨7, "password"⟩] = some state := ⟨_, rfl⟩
  have hgood : GoodRun step Careful _ _ state := GoodRun.of_isSome (by decide) hrun
  obtain rfl := Option.some.inj hrun
  have hlate : ∀ event ∈ ([.report 0 (.listening 22), .ask 0 ⟨8, "password"⟩] : List Event),
      event.caller.isSome = true := by decide
  exact ⟨_, _, rfl, rfl, stopped_for_good hgood (by decide) hlate rfl⟩

end TunnelsWitness

end Opensesh.Tunnels
