/-
What an OpenSSH client configuration says about an alias: the first usable value among the
lines of the `Host` blocks that name it, each block once. The hosts that are read say the
same, unless a name is given twice in a block with a forward or a host name has a `%%`
where one of the two replacements finds something else.
-/
import Opensesh.SshConfig
import Mathlib.Data.List.Flatten

namespace Opensesh.SshConfig

open List Option
open Target (parseNumber)
open Text (toAsciiLower)

/-- A line with a keyword and arguments. -/
structure Statement where
  keyword : Keyword
  args : List (List Char)
  line : Nat

/-- The statement of a numbered line, unless it is blank, a comment or not readable. -/
def Statement.of (numbered : List Char × Nat) : Option Statement :=
  match readLine numbered.1 with
  | some (.ok (keyword, args)) => some ⟨keyword, args, numbered.2⟩
  | _ => none

def statements (text : List Char) : List Statement :=
  ((Text.lines text).zipIdx 1).filterMap Statement.of

def isPlain (pattern : List Char) : Bool := !hasWildcard pattern && !startsWithDash pattern

def Statement.startsBlock (statement : Statement) : Bool :=
  statement.keyword = .host || statement.keyword = .matchBlock

/-- The plain names of a `Host` line. -/
def Statement.names (statement : Statement) : List Alias :=
  if statement.keyword = .host then statement.args.filter isPlain else []

/-- A `Host` line's plain names and the lines up to the next `Host` or `Match`. -/
structure Block where
  names : List Alias
  lines : List Statement

def blocks : List Statement → List Block
  | [] => []
  | statement :: rest =>
    if statement.keyword = .host then
      ⟨statement.names, rest.takeWhile fun next => !next.startsBlock⟩ :: blocks rest
    else blocks rest

/-- The lines of the blocks that name an alias. -/
def linesOf (hostAlias : Alias) (file : List Statement) : List Statement :=
  ((blocks file).filter fun block => hostAlias ∈ block.names).flatMap Block.lines

/-- Every plain name of the `Host` lines. -/
def named (file : List Statement) : List Alias := file.flatMap Statement.names

/-- The first argument of a line for an option, unless it is empty. -/
def Statement.value (setting : Setting) (statement : Statement) : Option (List Char) :=
  if statement.keyword = .setting setting then statement.args.head?.filter (· ≠ []) else none

/-- A `HostName` value whose expansion `ssh` would not read as an option. -/
def hostNameValue (hostAlias : Alias) (statement : Statement) : Option (List Char) :=
  (statement.value .hostName).filter fun value => !startsWithDash (expandName hostAlias value)

def userOf (statement : Statement) : Option (List Char) :=
  (statement.value .user).filter fun value => !startsWithDash value

def portValue (statement : Statement) : Option Nat :=
  (statement.value .port).bind fun value => (parseNumber 65535 value).filter (0 < ·)

def identityOf (statement : Statement) : Option (List Char) :=
  (statement.value .identityFile).filter fun value => value.map toAsciiLower ≠ "none".toList

def jumpOf (statement : Statement) : Option (List (List Char)) :=
  (statement.value .proxyJump).map hopsOf

def forwardOf (statement : Statement) : Option SshForward :=
  match statement.keyword with
  | .forward kind => (parseForward kind statement.args statement.line).toOption
  | _ => none

/-- What a configuration says about the hosts it names. -/
structure Agrees (file : List Statement) (hosts : List SshHost) : Prop where
  aliases : hosts.map SshHost.hostAlias = (named file).eraseDups
  hostName : ∀ host ∈ hosts, host.hostName =
    ((linesOf host.hostAlias file).findSome? (hostNameValue host.hostAlias)).map
      (expandName host.hostAlias)
  user : ∀ host ∈ hosts, host.user = (linesOf host.hostAlias file).findSome? userOf
  port : ∀ host ∈ hosts, host.port = (linesOf host.hostAlias file).findSome? portValue
  proxyJump : ∀ host ∈ hosts, host.proxyJump = (linesOf host.hostAlias file).findSome? jumpOf
  identityFiles : ∀ host ∈ hosts,
    host.identityFiles = ((linesOf host.hostAlias file).filterMap identityOf).eraseDups
  forwards : ∀ host ∈ hosts, host.forwards = (linesOf host.hostAlias file).filterMap forwardOf

/-- What a line changes in a host of its block, its forwards apart. -/
def SshHost.take (hostAlias : Alias) (statement : Statement) (host : SshHost) : SshHost :=
  match statement.keyword with
  | .setting setting => (host.apply hostAlias setting statement.args).1
  | _ => host

section

variable {hostAlias : Alias} {setting : Setting} {statement : Statement} {host : SshHost}

theorem value_setting (setting : Setting) (args : List (List Char)) (line : Nat) :
    Statement.value setting ⟨.setting setting, args, line⟩ =
      if args.headD [] = [] then none else some (args.headD []) := by
  rw [Statement.value, if_pos rfl]
  cases args with
  | nil => rfl
  | cons first args => by_cases h : first = [] <;> simp [Option.filter, h]

theorem startsWithDash_replaceName (value : List Char) :
    startsWithDash (replaceName hostAlias value) = startsWithDash (expandName hostAlias value) := by
  rw [startsWithDash, head?_replaceName, startsWithDash]

/-- An option that is set stays, and one that is not takes the value of the line, if the line
has one that can be used. -/
theorem SshHost.take_eq : host.take hostAlias statement =
    { host with
      hostName := host.hostName.or ((hostNameValue hostAlias statement).map (replaceName hostAlias))
      user := host.user.or (userOf statement)
      port := host.port.or (portValue statement)
      identityFiles := (identityOf statement).elim host.identityFiles (pushNew host.identityFiles)
      proxyJump := host.proxyJump.or (jumpOf statement) } := by
  obtain ⟨keyword, args, line⟩ := statement
  obtain ⟨own, hostName, user, port, identityFiles, proxyJump, forwards, file, number⟩ := host
  cases keyword with
  | setting setting =>
    cases setting with
    | hostName =>
      simp only [userOf, portValue, identityOf, jumpOf, Statement.value,
        Keyword.setting.injEq, reduceCtorEq, ↓reduceIte, filter_none, bind_none,
        map_none, or_none, elim_none]
      simp only [SshHost.take, hostNameValue, value_setting, apply]
      generalize args.headD [] = first
      cases hostName with
      | some name => rfl
      | none =>
        by_cases hfirst : first = []
        · simp [hfirst]
        · by_cases hdash : startsWithDash (expandName hostAlias first) = true <;>
            simp [hfirst, hdash, startsWithDash_replaceName, Option.filter]
    | user =>
      simp only [hostNameValue, portValue, identityOf, jumpOf, Statement.value,
        Keyword.setting.injEq, reduceCtorEq, ↓reduceIte, filter_none, bind_none,
        map_none, or_none, elim_none]
      simp only [SshHost.take, userOf, value_setting, apply]
      generalize args.headD [] = first
      cases user with
      | some name => rfl
      | none =>
        by_cases hfirst : first = []
        · simp [hfirst]
        · by_cases hdash : startsWithDash first = true <;> simp [hfirst, hdash, Option.filter]
    | port =>
      simp only [hostNameValue, userOf, identityOf, jumpOf, Statement.value,
        Keyword.setting.injEq, reduceCtorEq, ↓reduceIte, filter_none,
        map_none, or_none, elim_none]
      simp only [SshHost.take, portValue, value_setting, apply]
      generalize args.headD [] = first
      cases port with
      | some port => rfl
      | none =>
        by_cases hfirst : first = []
        · subst hfirst
          rfl
        · rw [if_neg hfirst, bind_some]
          cases (parseNumber 65535 first).filter (0 < ·) <;> rfl
    | identityFile =>
      simp only [hostNameValue, userOf, portValue, jumpOf, Statement.value,
        Keyword.setting.injEq, reduceCtorEq, ↓reduceIte, filter_none, bind_none,
        map_none, or_none]
      simp only [SshHost.take, identityOf, value_setting, apply]
      generalize args.headD [] = first
      generalize "none".toList = unset
      by_cases hfirst : first = []
      · simp [hfirst]
      · by_cases hnone : first.map toAsciiLower = unset
        · simp [hfirst, hnone, Option.filter]
        · by_cases hthere : first ∈ identityFiles <;>
            simp [hfirst, hnone, hthere, Option.filter, pushNew]
    | proxyJump =>
      simp only [hostNameValue, userOf, portValue, identityOf, Statement.value,
        Keyword.setting.injEq, reduceCtorEq, ↓reduceIte, filter_none, bind_none,
        map_none, or_none, elim_none]
      simp only [SshHost.take, jumpOf, value_setting, apply]
      generalize args.headD [] = first
      cases proxyJump with
      | some hops => rfl
      | none => by_cases hfirst : first = [] <;> simp [hfirst]
  | _ =>
    simp only [SshHost.take, hostNameValue, userOf, portValue, identityOf, jumpOf,
      Statement.value, reduceCtorEq, ↓reduceIte, filter_none, bind_none,
      map_none, or_none, elim_none]

theorem SshHost.take_forwards (forwards : List SshForward) :
    SshHost.take hostAlias statement { host with forwards } =
      { host.take hostAlias statement with forwards } := by
  rw [take_eq, take_eq]

/-- A second time the line changes nothing. -/
theorem SshHost.take_take : (host.take hostAlias statement).take hostAlias statement =
    host.take hostAlias statement := by
  have hor : ∀ {α : Type} (set value : Option α), (set.or value).or value = set.or value :=
    fun set value => by cases set <;> cases value <;> rfl
  rw [take_eq, take_eq]
  cases identityOf statement with
  | none => simp only [hor, elim_none]
  | some file => simp only [hor, elim_some, pushNew_pushNew]

theorem SshHost.foldl_take_forwards (lines : List Statement) (forwards : List SshForward) :
    lines.foldl (fun host line => host.take hostAlias line) { host with forwards } =
      { lines.foldl (fun host line => host.take hostAlias line) host with forwards } := by
  induction lines generalizing host with
  | nil => rfl
  | cons line lines ih => rw [foldl_cons, take_forwards, ih, foldl_cons]

/-- The first value of the lines wins. -/
theorem SshHost.foldl_take (lines : List Statement) :
    lines.foldl (fun host line => host.take hostAlias line) host =
      { host with
        hostName := host.hostName.or
          ((lines.findSome? (hostNameValue hostAlias)).map (replaceName hostAlias))
        user := host.user.or (lines.findSome? userOf)
        port := host.port.or (lines.findSome? portValue)
        identityFiles := (lines.filterMap identityOf).foldl pushNew host.identityFiles
        proxyJump := host.proxyJump.or (lines.findSome? jumpOf) } := by
  have hfirst : ∀ {α : Type} (value : Statement → Option α) (line : Statement)
      (lines : List Statement), (line :: lines).findSome? value =
        (value line).or (lines.findSome? value) := fun value line lines => by
    rw [List.findSome?_cons]
    cases value line <;> rfl
  induction lines generalizing host with
  | nil => simp
  | cons line lines ih =>
    have hmap : ((hostNameValue hostAlias line).or
        (lines.findSome? (hostNameValue hostAlias))).map (replaceName hostAlias) =
          ((hostNameValue hostAlias line).map (replaceName hostAlias)).or
            ((lines.findSome? (hostNameValue hostAlias)).map (replaceName hostAlias)) := by
      cases hostNameValue hostAlias line <;> rfl
    rw [foldl_cons, ih, take_eq, hfirst, hfirst, hfirst, hfirst, hmap]
    cases hidentity : identityOf line with
    | none =>
      simp only [Option.or_assoc, elim_none, filterMap_cons_none hidentity]
    | some file =>
      simp only [Option.or_assoc, elim_some, filterMap_cons_some hidentity, foldl_cons]

end

/-- The host of a name that a `Host` line gives first. -/
def newHost (file : String) (hostAlias : Alias) (statement : Statement) : SshHost :=
  { hostAlias, file, line := statement.line }

def addHost (file : String) (statement : Statement) (hosts : List SshHost)
    (hostAlias : Alias) : List SshHost :=
  if (hostOf hostAlias hosts).isNone then hosts ++ [newHost file hostAlias statement] else hosts

/-- What a line of its block adds to a host. -/
def SshHost.add (statement : Statement) (hostAlias : Alias) (host : SshHost) : SshHost :=
  { host.take hostAlias statement with
    forwards := host.forwards ++ (forwardOf statement).toList }

variable {statement : Statement}

theorem SshHost.add_of_none (h : forwardOf statement = none) (hostAlias : Alias) :
    SshHost.add statement hostAlias = SshHost.take hostAlias statement := by
  funext host
  rw [add, h, toList_none, List.append_nil, take_eq]

theorem SshHost.add_hostAlias {hostAlias : Alias} {host : SshHost} :
    (host.add statement hostAlias).hostAlias = host.hostAlias := by
  have htake := congrArg SshHost.hostAlias (@take_eq hostAlias statement host)
  exact htake

/-- The hosts and the aliases of the block after a line. -/
def act (file : String) (before : List SshHost × List Alias) (statement : Statement) :
    List SshHost × List Alias :=
  if statement.startsBlock then
    (statement.names.foldl (addHost file statement) before.1, statement.names)
  else
    (before.2.foldl (fun hosts hostAlias =>
      updateHost hostAlias (SshHost.add statement hostAlias) hosts) before.1, before.2)

theorem act_line {file : String} (h : statement.startsBlock = false)
    (before : List SshHost × List Alias) : act file before statement =
      (before.2.foldl (fun hosts hostAlias =>
        updateHost hostAlias (SshHost.add statement hostAlias) hosts) before.1, before.2) := by
  rw [act, h, if_neg Bool.false_ne_true]

/-- What of the parser's state the hosts come from. -/
def Parser.view (parser : Parser) : List SshHost × List Alias :=
  (parser.config.hosts, parser.current.getD [])

namespace Parser

variable {includes : Parser → List (List Char) → Nat → Parser} {file : String} {parser : Parser}
  {line : Nat}

theorem view_startHost (args : List (List Char)) :
    (parser.startHost args file line).view = act file parser.view ⟨.host, args, line⟩ := by
  have hpatterns : ∀ (patterns : List (List Char)) (before : Parser × List Alias),
      ((patterns.foldl (startPattern file line) before).1.config.hosts,
        (patterns.foldl (startPattern file line) before).2) =
      ((patterns.filter isPlain).foldl (addHost file ⟨.host, args, line⟩) before.1.config.hosts,
        before.2 ++ patterns.filter isPlain) := by
    intro patterns
    induction patterns with
    | nil => exact fun before => by simp
    | cons pattern patterns ih =>
      intro before
      rw [foldl_cons, ih]
      by_cases hwild : hasWildcard pattern = true
      · simp [startPattern, hwild, isPlain, warn]
      · by_cases hdash : startsWithDash pattern = true
        · simp [startPattern, hwild, hdash, isPlain, warn]
        · have hplain : isPlain pattern = true := by simp [isPlain, hwild, hdash]
          rw [filter_cons_of_pos hplain, foldl_cons, startPattern, if_neg hwild,
            if_neg hdash, addHost]
          split <;> simp [setHosts, newHost]
  have h := hpatterns args (parser, [])
  rw [List.nil_append] at h
  rw [startHost, view, act]
  exact h

theorem view_apply (setting : Setting) (args : List (List Char)) (hostAlias : Alias) :
    (apply setting args file line parser hostAlias).view =
      (updateHost hostAlias (SshHost.add ⟨.setting setting, args, line⟩ hostAlias)
        parser.config.hosts, parser.current.getD []) := by
  rw [apply, SshHost.add_of_none rfl]
  split
  next hnone => rw [updateHost, updateKey_of_none hnone]; rfl
  next => split <;> rfl

theorem view_foldl_apply (setting : Setting) (args : List (List Char)) (aliases : List Alias) :
    (aliases.foldl (apply setting args file line) parser).view =
      (aliases.foldl (fun hosts hostAlias =>
        updateHost hostAlias (SshHost.add ⟨.setting setting, args, line⟩ hostAlias) hosts)
          parser.config.hosts, parser.current.getD []) := by
  induction aliases generalizing parser with
  | nil => rfl
  | cons hostAlias aliases ih =>
    have hview := @view_apply file parser line setting args hostAlias
    rw [view, Prod.mk.injEq] at hview
    rw [foldl_cons, ih, hview.1, hview.2, foldl_cons]

theorem view_foldl_push {statement : Statement} {forward : SshForward}
    (hforward : forwardOf statement = some forward)
    (htake : ∀ hostAlias host, SshHost.take hostAlias statement host = host)
    (aliases : List Alias) :
    (aliases.foldl (push forward) parser).view =
      (aliases.foldl (fun hosts hostAlias =>
        updateHost hostAlias (SshHost.add statement hostAlias) hosts)
          parser.config.hosts, parser.current.getD []) := by
  induction aliases generalizing parser with
  | nil => rfl
  | cons hostAlias aliases ih =>
    have hadd : SshHost.add statement hostAlias =
        fun host => { host with forwards := host.forwards ++ [forward] } := by
      funext host
      rw [SshHost.add, htake, hforward, toList_some]
    rw [foldl_cons, ih, foldl_cons, hadd]
    rfl

theorem act_nothing {statement : Statement} (hstart : statement.startsBlock = false)
    (hforward : forwardOf statement = none)
    (htake : ∀ hostAlias host, SshHost.take hostAlias statement host = host)
    (before : List SshHost × List Alias) : act file before statement = before := by
  have hsame : ∀ (aliases : List Alias) (hosts : List SshHost),
      aliases.foldl (fun hosts hostAlias =>
        updateHost hostAlias (SshHost.add statement hostAlias) hosts) hosts = hosts := by
    intro aliases hosts
    induction aliases with
    | nil => rfl
    | cons hostAlias aliases ih =>
      have hid : updateHost hostAlias (SshHost.take hostAlias statement) hosts = hosts :=
        (map_congr_left fun host _ => by rw [htake, ite_self, id]).trans (map_id hosts)
      rw [foldl_cons, SshHost.add_of_none hforward, hid, ih]
  rw [act_line hstart, hsame]

theorem view_line {numbered : List Char × Nat}
    (hinclude : ∀ statement ∈ Statement.of numbered, statement.keyword ≠ .includeFiles) :
    (parser.line includes file numbered).view =
      (Statement.of numbered).elim parser.view (act file parser.view) := by
  obtain ⟨raw, number⟩ := numbered
  rw [Statement.of] at hinclude ⊢
  dsimp only at hinclude ⊢
  rw [Parser.line]
  cases hread : readLine raw with
  | none => rfl
  | some read =>
    cases read with
    | error message => rfl
    | ok pair =>
      obtain ⟨keyword, args⟩ := pair
      rw [hread] at hinclude
      cases keyword with
      | host => exact view_startHost args
      | matchBlock => rfl
      | includeFiles => exact absurd rfl (hinclude _ rfl)
      | other => exact (act_nothing rfl rfl (fun _ _ => rfl) _).symm
      | forward kind =>
        rw [elim_some, act_line rfl]
        dsimp only
        cases hcurrent : parser.current with
        | none => rw [view, hcurrent]; rfl
        | some aliases =>
          have hof : forwardOf ⟨.forward kind, args, number⟩ =
            (parseForward kind args number).toOption := rfl
          have hview : parser.view = (parser.config.hosts, aliases) := by
            rw [view, hcurrent]; rfl
          cases hforward : parseForward kind args number with
          | error message =>
            rw [hforward] at hof
            have hsame := @act_nothing file _ rfl hof (fun _ _ => rfl) parser.view
            rw [act_line rfl] at hsame
            exact hsame.symm
          | ok forward =>
            rw [hforward] at hof
            have hpush := @view_foldl_push parser _ forward hof (fun _ _ => rfl) aliases
            rw [hcurrent] at hpush
            rw [hview]
            exact hpush
      | setting setting =>
        rw [elim_some, act_line rfl]
        dsimp only
        cases hcurrent : parser.current with
        | none =>
          have hview : parser.view = (parser.config.hosts, []) := by
            rw [view, hcurrent]; rfl
          rw [hview]
          dsimp only
          split
          · exact hview
          · rfl
        | some aliases =>
          have hview : parser.view = (parser.config.hosts, aliases) := by
            rw [view, hcurrent]; rfl
          have happly := @view_foldl_apply file parser number setting args aliases
          rw [hcurrent] at happly
          rw [hview]
          exact happly

theorem view_foldl {numbered : List (List Char × Nat)}
    (hinclude : ∀ statement ∈ numbered.filterMap Statement.of, statement.keyword ≠ .includeFiles) :
    (numbered.foldl (Parser.line includes file) parser).view =
      (numbered.filterMap Statement.of).foldl (act file) parser.view := by
  induction numbered generalizing parser with
  | nil => rfl
  | cons first numbered ih =>
    have hfirst : ∀ statement ∈ Statement.of first, statement.keyword ≠ .includeFiles :=
      fun statement h => hinclude statement (mem_filterMap.mpr ⟨first, mem_cons_self, h⟩)
    have hrest : ∀ statement ∈ numbered.filterMap Statement.of,
        statement.keyword ≠ .includeFiles := fun statement h => by
      obtain ⟨line, hline, hof⟩ := mem_filterMap.mp h
      exact hinclude statement (mem_filterMap.mpr ⟨line, mem_cons_of_mem _ hline, hof⟩)
    rw [foldl_cons, ih hrest, view_line hfirst]
    cases hof : Statement.of first with
    | none => rw [filterMap_cons_none hof, elim_none]
    | some statement => rw [filterMap_cons_some hof, elim_some, foldl_cons]

end Parser

variable {statement : Statement} {file : String} {hosts : List SshHost}

theorem names_of_line (h : statement.startsBlock = false) : statement.names = [] := by
  refine if_neg fun hkeyword => ?_
  rw [Statement.startsBlock, hkeyword] at h
  exact absurd h (by decide)

/-- The lines that reach an alias from the block of `names` on, each as often as `weight`
says. -/
def reaching (weight : List Alias → Nat) : List Alias → List Statement → List Statement
  | _, [] => []
  | names, statement :: rest =>
    if statement.startsBlock then reaching weight statement.names rest
    else List.replicate (weight names) statement ++ reaching weight names rest

/-- Once when the name is among them. -/
def once (hostAlias : Alias) (names : List Alias) : Nat := if hostAlias ∈ names then 1 else 0

theorem hostOf_addHost (names : List Alias) (hostAlias : Alias) :
    hostOf hostAlias (names.foldl (addHost file statement) hosts) =
      (hostOf hostAlias hosts).or
        (if hostAlias ∈ names then some (newHost file hostAlias statement) else none) := by
  induction names generalizing hosts with
  | nil => simp
  | cons name names ih =>
    have hname : hostOf hostAlias (addHost file statement hosts name) =
        (hostOf hostAlias hosts).or
          (if name = hostAlias then some (newHost file hostAlias statement) else none) := by
      unfold addHost
      split
      next hnone =>
        rw [hostOf, findKey_append, findKey_cons]
        by_cases heq : name = hostAlias
        · rw [if_pos heq, if_pos (by exact heq), heq]
          rfl
        · rw [if_neg heq, if_neg (by exact heq)]
          rfl
      next hsome =>
        by_cases heq : name = hostAlias
        · obtain ⟨host, hhost⟩ := ne_none_iff_exists'.mp
            (fun hnone => hsome (isNone_iff_eq_none.mpr hnone))
          rw [← heq, hhost, some_or]
        · rw [if_neg heq, or_none]
    rw [foldl_cons, ih, hname, Option.or_assoc]
    by_cases heq : name = hostAlias
    · rw [if_pos heq, if_pos (mem_cons.mpr (Or.inl heq.symm)), some_or]
    · rw [if_neg heq, none_or]
      simp only [mem_cons, Ne.symm heq, false_or]

theorem map_addHost (names : List Alias) :
    (names.foldl (addHost file statement) hosts).map SshHost.hostAlias =
      names.foldl pushNew (hosts.map SshHost.hostAlias) := by
  induction names generalizing hosts with
  | nil => rfl
  | cons name names ih =>
    have hname : (addHost file statement hosts name).map SshHost.hostAlias =
        pushNew (hosts.map SshHost.hostAlias) name := by
      unfold addHost pushNew
      by_cases hnone : hostOf name hosts = none
      · rw [if_pos (isNone_iff_eq_none.mpr hnone), if_neg (findKey_eq_none_iff.mp hnone)]
        exact map_append
      · rw [if_neg (isNone_iff_eq_none.not.mpr hnone),
          if_pos (not_not.mp (findKey_eq_none_iff.not.mp hnone))]
    rw [foldl_cons, foldl_cons, ih, hname]

theorem SshHost.iterate_add {statement : Statement} {hostAlias : Alias} (n : Nat)
    (host : SshHost) : (SshHost.add statement hostAlias)^[n] host =
      { (if n = 0 then host else host.take hostAlias statement) with
        forwards := host.forwards ++ (List.replicate n statement).filterMap forwardOf } := by
  induction n generalizing host with
  | zero => simp
  | succ n ih =>
    have htwice : (host.add statement hostAlias).take hostAlias statement =
        host.add statement hostAlias := (take_forwards _).trans (by rw [take_take]; rfl)
    have hforwards : (List.replicate (n + 1) statement).filterMap forwardOf =
        (forwardOf statement).toList ++ (List.replicate n statement).filterMap forwardOf := by
      rw [replicate_succ, filterMap_cons]
      cases forwardOf statement <;> rfl
    rw [Function.iterate_succ_apply, ih, htwice, ite_self, if_neg (Nat.succ_ne_zero n),
      hforwards, ← List.append_assoc]
    rfl

section

variable {file : String} {hostAlias : Alias}

/-- A host after the lines that reach its alias. -/
def SshHost.after (hostAlias : Alias) (names : List Alias) (lines : List Statement)
    (host : SshHost) : SshHost :=
  { (reaching (once hostAlias) names lines).foldl (fun host line => host.take hostAlias line) host
    with forwards := host.forwards ++
      (reaching (List.count hostAlias) names lines).filterMap forwardOf }

variable {statement : Statement} {weight : List Alias → Nat}

theorem SshHost.after_start (h : statement.startsBlock = true) (names : List Alias)
    (lines : List Statement) :
    SshHost.after hostAlias names (statement :: lines) =
      SshHost.after hostAlias statement.names lines := by
  funext host
  rw [after, reaching, if_pos h, reaching, if_pos h, after]

theorem SshHost.after_line (h : statement.startsBlock = false) (names : List Alias)
    (lines : List Statement) (host : SshHost) :
    SshHost.after hostAlias names (statement :: lines) host =
      SshHost.after hostAlias names lines
        ((SshHost.add statement hostAlias)^[names.count hostAlias] host) := by
  have htake : (List.replicate (once hostAlias names) statement).foldl
      (fun host line => host.take hostAlias line) host =
        if names.count hostAlias = 0 then host else host.take hostAlias statement := by
    rw [once]
    by_cases hmem : hostAlias ∈ names
    · rw [if_pos hmem, if_neg (count_eq_zero.not.mpr (not_not.mpr hmem))]
      rfl
    · rw [if_neg hmem, if_pos (count_eq_zero.mpr hmem)]
      rfl
  have hrest := @foldl_take_forwards hostAlias
    (if names.count hostAlias = 0 then host else host.take hostAlias statement)
    (reaching (once hostAlias) names lines)
    (host.forwards ++ (List.replicate (names.count hostAlias) statement).filterMap forwardOf)
  rw [iterate_add, after, after, reaching, reaching, h, if_neg Bool.false_ne_true,
    if_neg Bool.false_ne_true, foldl_append, htake, filterMap_append,
    ← List.append_assoc, hrest]

theorem hostOf_foldl_updateHost (names : List Alias) (hosts : List SshHost) :
    hostOf hostAlias (names.foldl (fun hosts hostAlias =>
      updateHost hostAlias (SshHost.add statement hostAlias) hosts) hosts) =
        (hostOf hostAlias hosts).map (SshHost.add statement hostAlias)^[names.count hostAlias] :=
  findKey_foldl_updateKey (fun _ _ => SshHost.add_hostAlias) names hostAlias hosts

theorem map_foldl_updateHost (names : List Alias) (hosts : List SshHost) :
    (names.foldl (fun hosts hostAlias =>
      updateHost hostAlias (SshHost.add statement hostAlias) hosts) hosts).map SshHost.hostAlias =
        hosts.map SshHost.hostAlias := by
  induction names generalizing hosts with
  | nil => rfl
  | cons name names ih =>
    rw [foldl_cons, ih]
    exact map_updateKey (fun _ => SshHost.add_hostAlias) name hosts

theorem hostOf_foldl_act (statements : List Statement) (before : List SshHost × List Alias)
    (hknown : ∀ name ∈ before.2, (hostOf name before.1).isSome) :
    hostOf hostAlias (statements.foldl (act file) before).1 =
      ((hostOf hostAlias before.1).or
        ((statements.find? fun statement => hostAlias ∈ statement.names).map
          (newHost file hostAlias))).map (SshHost.after hostAlias before.2 statements) := by
  induction statements generalizing before with
  | nil =>
    have hid : SshHost.after hostAlias before.2 [] = id := by
      funext host
      simp [SshHost.after, reaching]
    rw [foldl_nil, List.find?_nil, map_none, or_none, hid, Option.map_id]
    rfl
  | cons statement statements ih =>
    rw [foldl_cons]
    by_cases hstart : statement.startsBlock = true
    · rw [act, if_pos hstart, ih, SshHost.after_start hstart, hostOf_addHost, Option.or_assoc,
        List.find?_cons]
      · by_cases hname : hostAlias ∈ statement.names <;> simp [hname]
      · intro name hname
        rw [hostOf_addHost, if_pos hname, isSome_or, isSome_some, Bool.or_true]
    · have hstart : statement.startsBlock = false := Bool.eq_false_iff.mpr hstart
      rw [act_line hstart, ih]
      · rw [hostOf_foldl_updateHost, List.find?_cons_of_neg (by simp [names_of_line hstart])]
        cases hhost : hostOf hostAlias before.1 with
        | none =>
          have hcount : before.2.count hostAlias = 0 := count_eq_zero.mpr fun hmem => by
            have hsome := hknown hostAlias hmem
            rw [hhost] at hsome
            cases hsome
          rw [map_none, none_or]
          refine congrArg (Option.map · _) (funext fun host => ?_)
          rw [SshHost.after_line hstart, hcount, Function.iterate_zero, id]
        | some host =>
          rw [map_some, some_or, some_or, map_some, map_some, SshHost.after_line hstart]
      · intro name hname
        rw [hostOf_foldl_updateHost, isSome_map]
        exact hknown name hname

/-- The hosts are those the `Host` lines name, in the order of their first lines. -/
theorem map_foldl_act (statements : List Statement) (before : List SshHost × List Alias) :
    (statements.foldl (act file) before).1.map SshHost.hostAlias =
      (named statements).foldl pushNew (before.1.map SshHost.hostAlias) := by
  induction statements generalizing before with
  | nil => rfl
  | cons statement statements ih =>
    rw [foldl_cons, ih, named, named, flatMap_cons, foldl_append]
    refine congrArg (List.foldl pushNew · _) ?_
    by_cases hstart : statement.startsBlock = true
    · rw [act, if_pos hstart]
      exact map_addHost statement.names
    · have hstart : statement.startsBlock = false := Bool.eq_false_iff.mpr hstart
      rw [act_line hstart, names_of_line hstart, foldl_nil]
      exact map_foldl_updateHost before.2 before.1

/-- The lines of a block, each as often as `weight` says. -/
def Block.given (weight : List Alias → Nat) (block : Block) : List Statement :=
  block.lines.flatMap fun line => List.replicate (weight block.names) line

theorem reaching_eq {weight : List Alias → Nat} (hnone : weight [] = 0) (names : List Alias)
    (statements : List Statement) : reaching weight names statements =
      ((statements.takeWhile fun next => !next.startsBlock).flatMap
        fun line => List.replicate (weight names) line) ++
          (blocks statements).flatMap (Block.given weight) := by
  induction statements generalizing names with
  | nil => rfl
  | cons statement statements ih =>
    rw [reaching, blocks]
    by_cases hstart : statement.startsBlock = true
    · rw [if_pos hstart, ih, takeWhile_cons_of_neg (by simp [hstart]), flatMap_nil, List.nil_append]
      by_cases hhost : statement.keyword = .host
      · rw [if_pos hhost, flatMap_cons]
        rfl
      · rw [if_neg hhost, Statement.names, if_neg hhost, hnone]
        simp
    · have hhost : statement.keyword ≠ .host := fun hkeyword => hstart (by
        rw [Statement.startsBlock, hkeyword]
        rfl)
      rw [if_neg hstart, if_neg hhost, ih, takeWhile_cons_of_pos (by simpa using hstart),
        flatMap_cons, List.append_assoc]

theorem linesOf_eq (statements : List Statement) :
    linesOf hostAlias statements = (blocks statements).flatMap (Block.given (once hostAlias)) := by
  rw [linesOf]
  induction blocks statements with
  | nil => rfl
  | cons block rest ih =>
    rw [flatMap_cons, ← ih, Block.given, once]
    by_cases hmem : hostAlias ∈ block.names
    · rw [filter_cons_of_pos (by simpa using hmem), if_pos hmem, flatMap_cons]
      refine congrArg (· ++ _) ?_
      exact flatMap_singleton' block.lines |>.symm
    · rw [filter_cons_of_neg (by simpa using hmem), if_neg hmem]
      simp

theorem reaching_start {weight : List Alias → Nat} (hnone : weight [] = 0)
    (statements : List Statement) : reaching weight [] statements =
      (blocks statements).flatMap (Block.given weight) := by
  rw [reaching_eq hnone, hnone]
  simp

/-- A host that is read: the first values of the lines of its blocks, and their forwards as
often as the blocks name it. -/
theorem eq_of_mem {statements : List Statement} {host : SshHost}
    (hmem : host ∈ (statements.foldl (act file) ([], [])).1) :
    ∃ line, host =
      { hostAlias := host.hostAlias
        hostName := ((linesOf host.hostAlias statements).findSome?
          (hostNameValue host.hostAlias)).map (replaceName host.hostAlias)
        user := (linesOf host.hostAlias statements).findSome? userOf
        port := (linesOf host.hostAlias statements).findSome? portValue
        identityFiles := ((linesOf host.hostAlias statements).filterMap identityOf).eraseDups
        proxyJump := (linesOf host.hostAlias statements).findSome? jumpOf
        forwards := ((blocks statements).flatMap
          (Block.given (List.count host.hostAlias))).filterMap forwardOf
        file, line } := by
  have hnodup : ((statements.foldl (act file) ([], [])).1.map SshHost.hostAlias).Nodup := by
    rw [map_foldl_act]
    exact nodup_foldl_pushNew nodup_nil _
  have hfind := (findKey_eq_some_iff hnodup).mpr ⟨hmem, rfl⟩
  have hread := @hostOf_foldl_act file host.hostAlias statements ([], []) nofun
  rw [hostOf, hfind] at hread
  obtain ⟨first, hfirst, hafter⟩ := map_eq_some_iff.mp hread.symm
  obtain ⟨statement, -, rfl⟩ := map_eq_some_iff.mp hfirst
  refine ⟨statement.line, hafter.symm.trans ?_⟩
  rw [SshHost.after, SshHost.foldl_take, reaching_start rfl, reaching_start rfl, ← linesOf_eq,
    ← foldl_pushNew_nil]
  rfl

theorem hosts_parseStr {includes : Parser → List (List Char) → Nat → Parser} {text : List Char}
    (hinclude : ∀ statement ∈ statements text, statement.keyword ≠ .includeFiles) :
    (parseStr includes text file).hosts = ((statements text).foldl (act file) ([], [])).1 :=
  congrArg Prod.fst (Parser.view_foldl hinclude)

theorem length_given (weight : List Alias → Nat) (block : Block) :
    ((block.given weight).filterMap forwardOf).length =
      weight block.names * (block.lines.filterMap forwardOf).length := by
  rw [Block.given]
  induction block.lines with
  | nil => rfl
  | cons line lines ih =>
    rw [flatMap_cons, filterMap_append, length_append, ih, filterMap_replicate, filterMap_cons]
    cases forwardOf line with
    | none => exact Nat.zero_add _
    | some forward =>
      rw [length_cons, Nat.mul_succ, Nat.add_comm]
      exact congrArg _ length_replicate

theorem once_le_count (names : List Alias) : once hostAlias names ≤ names.count hostAlias := by
  unfold once
  split
  next hmem => exact count_pos_iff.mpr hmem
  next => exact Nat.zero_le _

theorem given_sublist (block : Block) :
    (block.given (once hostAlias)).Sublist (block.given (List.count hostAlias)) :=
  List.Sublist.flatMap_right block.lines fun line _ =>
    (replicate_sublist_replicate line).mpr (once_le_count _)

/-- A block gives a name's forwards once exactly when it does not name it twice, or has none. -/
theorem given_once_iff (block : Block) :
    ((block.given (List.count hostAlias)).filterMap forwardOf).length =
        ((block.given (once hostAlias)).filterMap forwardOf).length ↔
      (1 < block.names.count hostAlias → ∀ line ∈ block.lines, forwardOf line = none) := by
  rw [length_given, length_given, ← filterMap_eq_nil_iff, ← length_eq_zero_iff]
  by_cases hmem : hostAlias ∈ block.names
  · have hpos := count_pos_iff.mpr hmem
    rw [once, if_pos hmem, Nat.one_mul]
    constructor
    · intro heq htwice
      refine (Nat.eq_zero_or_pos _).resolve_right fun hlines => ?_
      exact absurd heq (Nat.ne_of_gt ((Nat.lt_mul_iff_one_lt_left hlines).mpr htwice))
    · intro h
      rcases Nat.lt_or_ge 1 (block.names.count hostAlias) with htwice | hle
      · rw [h htwice, Nat.mul_zero]
      · rw [Nat.le_antisymm hle hpos, Nat.one_mul]
  · have hzero := count_eq_zero.mpr hmem
    rw [once, if_neg hmem, hzero]
    exact ⟨fun _ h => absurd h (by decide), fun _ => rfl⟩

theorem forwards_once_iff (all : List Block) :
    (all.flatMap (Block.given (List.count hostAlias))).filterMap forwardOf =
        (all.flatMap (Block.given (once hostAlias))).filterMap forwardOf ↔
      ∀ block ∈ all, 1 < block.names.count hostAlias →
        ∀ line ∈ block.lines, forwardOf line = none := by
  induction all with
  | nil => exact ⟨fun _ => nofun, fun _ => rfl⟩
  | cons block rest ih =>
    rw [forall_mem_cons, ← ih, ← given_once_iff, flatMap_cons, flatMap_cons,
      filterMap_append, filterMap_append]
    constructor
    · intro heq
      have hlengths := congrArg List.length heq
      rw [length_append, length_append] at hlengths
      have hrest := ((List.Sublist.flatMap_right rest fun block _ =>
        @given_sublist hostAlias block).filterMap forwardOf).length_le
      have hblock := ((@given_sublist hostAlias block).filterMap forwardOf).length_le
      have hlength : ((block.given (List.count hostAlias)).filterMap forwardOf).length =
        ((block.given (once hostAlias)).filterMap forwardOf).length := by omega
      exact ⟨hlength, (append_inj heq hlength).2⟩
    · rintro ⟨hlength, hrest⟩
      rw [hrest, ((@given_sublist hostAlias block).filterMap forwardOf).eq_of_length hlength.symm]

theorem mem_named {statements : List Statement} {block : Block} (hblock : block ∈ blocks statements)
    (hmem : hostAlias ∈ block.names) : hostAlias ∈ named statements := by
  induction statements with
  | nil => cases hblock
  | cons statement rest ih =>
    rw [named, flatMap_cons, mem_append]
    rw [blocks] at hblock
    split at hblock
    · rcases mem_cons.mp hblock with rfl | hrest
      · exact Or.inl hmem
      · exact Or.inr (ih hrest)
    · exact Or.inr (ih hblock)

end

/-- Where the hosts that are read say what the file says: no block that names an alias twice
has a forward, and the value that gives an alias its host name expands as it is replaced. -/
structure Plain (file : List Statement) : Prop where
  forwards : ∀ block ∈ blocks file, ∀ hostAlias, 1 < block.names.count hostAlias →
    ∀ line ∈ block.lines, forwardOf line = none
  names : ∀ hostAlias ∈ named file,
    ∀ value ∈ (linesOf hostAlias file).findSome? (hostNameValue hostAlias),
      ExpandsAlike hostAlias value

/-- The hosts that are read say what the file says exactly for plain files. -/
theorem reads_iff_plain {includes : Parser → List (List Char) → Nat → Parser} {text : List Char}
    {file : String} (hinclude : ∀ statement ∈ statements text, statement.keyword ≠ .includeFiles) :
    Agrees (statements text) (parseStr includes text file).hosts ↔ Plain (statements text) := by
  rw [hosts_parseStr hinclude]
  have haliases := @map_foldl_act file (statements text) ([], [])
  rw [List.map_nil, foldl_pushNew_nil] at haliases
  have hmem : ∀ hostAlias ∈ named (statements text),
      ∃ host ∈ ((statements text).foldl (act file) ([], [])).1, host.hostAlias = hostAlias := by
    intro hostAlias hnamed
    rw [← List.mem_eraseDups, ← haliases] at hnamed
    exact List.mem_map.mp hnamed
  constructor
  · intro h
    refine ⟨fun block hblock hostAlias htwice => ?_, fun hostAlias hnamed value hvalue => ?_⟩
    · have hpos := List.count_pos_iff.mp (Nat.lt_trans Nat.one_pos htwice)
      obtain ⟨host, hhost, rfl⟩ := hmem hostAlias (mem_named hblock hpos)
      obtain ⟨line, heq⟩ := eq_of_mem hhost
      have hforwards := (congrArg SshHost.forwards heq).symm.trans (h.forwards host hhost)
      rw [linesOf_eq] at hforwards
      exact (forwards_once_iff _).mp hforwards block hblock htwice
    · obtain ⟨host, hhost, rfl⟩ := hmem hostAlias hnamed
      obtain ⟨line, heq⟩ := eq_of_mem hhost
      have hname := (congrArg SshHost.hostName heq).symm.trans (h.hostName host hhost)
      rw [Option.mem_def.mp hvalue] at hname
      exact expandsAlike_iff.mpr (Option.some.inj hname)
  · intro h
    have hnamed : ∀ host ∈ ((statements text).foldl (act file) ([], [])).1,
        host.hostAlias ∈ named (statements text) := fun host hhost => by
      rw [← List.mem_eraseDups, ← haliases]
      exact List.mem_map_of_mem hhost
    refine ⟨haliases, fun host hhost => ?_, fun host hhost => ?_, fun host hhost => ?_,
      fun host hhost => ?_, fun host hhost => ?_, fun host hhost => ?_⟩ <;>
      obtain ⟨line, heq⟩ := eq_of_mem hhost
    · refine (congrArg SshHost.hostName heq).trans ?_
      refine Option.map_congr fun value hvalue => ?_
      exact expandsAlike_iff.mp (h.names _ (hnamed host hhost) value hvalue)
    · exact congrArg SshHost.user heq
    · exact congrArg SshHost.port heq
    · exact congrArg SshHost.proxyJump heq
    · exact congrArg SshHost.identityFiles heq
    · refine (congrArg SshHost.forwards heq).trans ?_
      rw [linesOf_eq]
      exact (forwards_once_iff _).mpr fun block hblock => h.forwards block hblock _

namespace ReadsWitness

def noFiles : Parser → List (List Char) → Nat → Parser := fun parser _ _ => parser

/-- A `%` and an `h` after it, and a name given twice to a block with a forward. -/
def escaped : List Char := "Host web\n  HostName %%h.example.com\n".toList

def twice : List Char := "Host web web\n  DynamicForward 1080\n".toList

theorem escaped_replaced :
    ¬ Agrees (statements escaped) (parseStr noFiles escaped "config").hosts ∧
    ¬ Agrees (statements twice) (parseStr noFiles twice "config").hosts := by
  constructor
  · intro h
    exact absurd (h.hostName _ (List.mem_of_getElem? (i := 0) rfl)) (by decide)
  · intro h
    exact absurd (h.forwards _ (List.mem_of_getElem? (i := 0) rfl)) (by decide)

/-- Two blocks with a name of both. -/
def blocksOfWeb : List Char :=
  "Host web\n  HostName %h.example.com\n  User me\nHost db web\n  User other\n".toList

theorem blocksOfWeb_read :
    Agrees (statements blocksOfWeb) (parseStr noFiles blocksOfWeb "config").hosts := by
  have hnone : ∀ block ∈ blocks (statements blocksOfWeb), ∀ line ∈ block.lines,
      forwardOf line = none := by decide
  exact (reads_iff_plain (by decide)).mpr ⟨fun block hblock _ _ => hnone block hblock, by decide⟩

end ReadsWitness

end Opensesh.SshConfig
