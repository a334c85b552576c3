/-
The settings copied to another folder before they move there: a walk through folders that makes
folders and files as it goes, in the tree it walks or beside it.
-/
import Opensesh.Keyed
import Mathlib.Data.List.Induction

namespace Opensesh.CopySettings

open List Option

abbrev Path := List String

inductive Node where
  | dir
  | file (content : List UInt8)
deriving DecidableEq

def Node.isFile : Node → Bool
  | .dir => false
  | .file _ => true

/-- Folders and files by their paths; what is named stands in a folder. -/
structure Folders where
  nodes : List (Path × Node)
  nodup : (nodes.map Prod.fst).Nodup
  below : ∀ path ∈ nodes.map Prod.fst, ∃ folder name,
    path = folder ++ [name] ∧ (folder = [] ∨ (folder, Node.dir) ∈ nodes)

namespace Folders

def get (fs : Folders) (path : Path) : Option Node :=
  if path = [] then some .dir else (findKey Prod.fst path fs.nodes).map Prod.snd

variable {path folder : Path} {node : Node} {fs : Folders}

theorem get_eq_some (fs : Folders) (hpath : path ≠ []) :
    fs.get path = some node ↔ (path, node) ∈ fs.nodes := by
  rw [get, if_neg hpath, map_eq_some_iff]
  constructor
  · rintro ⟨⟨other, found⟩, hfound, rfl⟩
    obtain ⟨hmem, rfl⟩ := findKey_some_imp hfound
    exact hmem
  · exact fun hmem => ⟨_, (findKey_eq_some_iff fs.nodup).mpr ⟨hmem, rfl⟩, rfl⟩

theorem get_eq_none (fs : Folders) (h : fs.get path = none) : path ∉ fs.nodes.map Prod.fst := by
  rw [get] at h
  split at h
  · cases h
  · exact findKey_eq_none_iff.mp (map_eq_none_iff.mp h)

theorem get_parent {name : String} (h : fs.get (folder ++ [name]) = some node) :
    fs.get folder = some .dir := by
  have hpath : folder ++ [name] ≠ [] := append_ne_nil_of_right_ne_nil _ (cons_ne_nil _ _)
  obtain ⟨above, last, heq, habove⟩ := fs.below _ (mem_map_of_mem ((fs.get_eq_some hpath).mp h))
  obtain ⟨rfl, -⟩ := append_inj' heq rfl
  by_cases hroot : folder = []
  · rw [get, if_pos hroot]
  · exact (fs.get_eq_some hroot).mpr (habove.resolve_left hroot)

theorem get_above (rest : Path) (hrest : rest ≠ []) (h : fs.get (path ++ rest) = some node) :
    fs.get path = some .dir := by
  induction rest using List.reverseRecOn generalizing node with
  | nil => exact absurd rfl hrest
  | append_singleton rest name ih =>
    rw [← List.append_assoc] at h
    have hparent := get_parent h
    by_cases hnil : rest = []
    · rwa [hnil, List.append_nil] at hparent
    · exact ih hnil hparent

theorem get_prefix {below : Path} (hbelow : path <+: below) (h : fs.get below = some .dir) :
    fs.get path = some .dir := by
  obtain ⟨rest, rfl⟩ := hbelow
  by_cases hnil : rest = []
  · rwa [hnil, List.append_nil] at h
  · exact get_above rest hnil h

theorem nodup_create (h : fs.get path = none) : (((path, node) :: fs.nodes).map Prod.fst).Nodup :=
  nodup_cons.mpr ⟨fs.get_eq_none h, fs.nodup⟩

theorem below_create {name : String} (node : Node) (h : fs.get folder = some .dir) :
    ∀ path ∈ ((folder ++ [name], node) :: fs.nodes).map Prod.fst, ∃ above last,
      path = above ++ [last] ∧
        (above = [] ∨ (above, Node.dir) ∈ (folder ++ [name], node) :: fs.nodes) := by
  intro path hpath
  rcases mem_cons.mp hpath with rfl | hold
  · refine ⟨folder, name, rfl, ?_⟩
    by_cases hroot : folder = []
    · exact .inl hroot
    · exact .inr (mem_cons_of_mem _ ((fs.get_eq_some hroot).mp h))
  · obtain ⟨above, last, heq, habove⟩ := fs.below path hold
    exact ⟨above, last, heq, habove.imp_right (mem_cons_of_mem _)⟩

/-- Makes a folder or a file in a folder. -/
def create (fs : Folders) (folder : Path) (name : String) (node : Node) : Option Folders :=
  if h : fs.get folder = some .dir ∧ fs.get (folder ++ [name]) = none then
    some ⟨(folder ++ [name], node) :: fs.nodes, nodup_create h.2, below_create node h.1⟩
  else none

/-- Makes the folders of a path that are missing, from the top. -/
def createDirAllFrom (fs : Folders) (above : Path) : Path → Option Folders
  | [] => some fs
  | name :: rest =>
    match fs.get (above ++ [name]) with
    | some .dir => createDirAllFrom fs (above ++ [name]) rest
    | some (.file _) => none
    | none => (fs.create above name .dir).bind fun fs => createDirAllFrom fs (above ++ [name]) rest

def createDirAll (fs : Folders) (path : Path) : Option Folders := createDirAllFrom fs [] path

/-- The names in a folder. -/
def names (fs : Folders) (folder : Path) : List String :=
  fs.nodes.filterMap fun entry => if entry.1.dropLast = folder then entry.1.getLast? else none

end Folders

/-- How folders are listed: the names in a folder when it is opened come in any order, and names
that are made in it meanwhile may come as well. -/
structure Listing where
  names : Path → List String → List String
  complete : ∀ folder known, known ⊆ names folder known

structure State where
  fs : Folders
  copied : Nat

/-- A walk goes on without an end, or stops at an error, or is done. -/
inductive Run where
  | endless
  | failed (state : State)
  | done (state : State)

def Run.andThen (next : State → Run) : Run → Run
  | .done state => next state
  | run => run

/-- One walk after the other. -/
def each (visit : String → State → Run) (names : List String) (state : State) : Run :=
  names.foldl (fun run name => run.andThen (visit name)) (.done state)

def copy (listing : Listing) : Nat → Path → Path → State → Run
  | 0, _, _, _ => .endless
  | depth + 1, source, target, state =>
    match state.fs.get source with
    | some .dir =>
      match state.fs.createDirAll target with
      | none => .failed state
      | some fs =>
        each (fun name => copy listing depth (source ++ [name]) (target ++ [name]))
          (listing.names source (fs.names source)) { state with fs }
    | some (.file content) =>
      if state.fs.get target = none then
        match state.fs.create target.dropLast (target.getLast?.getD "") (.file content) with
        | none => .failed state
        | some fs => .done ⟨fs, state.copied + 1⟩
      else .done state
    | none => .done state

def SETTINGS : List String :=
  ["config.toml", "hosts.toml", "snippets.toml", "tunnels.toml", "keybindings.toml",
    "highlights.toml", "known_hosts", "trusted_certificates.toml", "profiles", "themes",
    "workspaces", "location.toml"]

def LOCATION_FILE : String := "location.toml"

/-- The pointer itself stays behind. -/
def listed : List String := SETTINGS.filter (· ≠ LOCATION_FILE)

/-- Copies the settings, never over a file that is there. -/
def copySettings (listing : Listing) (depth : Nat) (fs : Folders) (home target : Path) : Run :=
  match fs.createDirAll target with
  | none => .failed ⟨fs, 0⟩
  | some fs =>
    each (fun name => copy listing depth (home ++ [name]) (target ++ [name])) listed ⟨fs, 0⟩

/-- Nothing that was there is changed. -/
def Grows (fs after : Folders) : Prop :=
  ∀ path node, fs.get path = some node → after.get path = some node

variable {fs : Folders}

theorem Grows.rfl : Grows fs fs := fun _ _ h => h

theorem Grows.trans {fs between after : Folders} (h : Grows fs between)
    (hafter : Grows between after) : Grows fs after :=
  fun path node hnode => hafter path node (h path node hnode)

namespace Folders

variable {fs : Folders} {folder path : Path} {node : Node}

theorem create_eq {after : Folders} {name : String} (h : fs.create folder name node = some after) :
    fs.get (folder ++ [name]) = none ∧ after.nodes = (folder ++ [name], node) :: fs.nodes := by
  rw [create] at h
  split at h
  · rename_i hfree
    rw [← some.inj h]
    exact ⟨hfree.2, rfl⟩
  · cases h

theorem create_isSome {name : String} (node : Node) (hfolder : fs.get folder = some .dir)
    (hfree : fs.get (folder ++ [name]) = none) : ∃ after, fs.create folder name node = some after :=
  ⟨_, dif_pos ⟨hfolder, hfree⟩⟩

theorem get_create {after : Folders} {name : String} (h : fs.create folder name node = some after)
    (path : Path) :
    after.get path = if path = folder ++ [name] then some node else fs.get path := by
  obtain ⟨-, hnodes⟩ := create_eq h
  rw [get, hnodes, findKey_cons]
  by_cases hpath : path = folder ++ [name]
  · rw [if_pos hpath.symm, if_pos hpath, if_neg (by rw [hpath]; exact concat_ne_nil _ _)]
    rfl
  · rw [if_neg (Ne.symm hpath), if_neg hpath, get]

theorem grows_create {fs after : Folders} {folder : Path} {name : String} {node : Node}
    (h : fs.create folder name node = some after) : Grows fs after := by
  intro path found hfound
  rw [get_create h, if_neg]
  · exact hfound
  · rintro rfl
    rw [(create_eq h).1] at hfound
    cases hfound

theorem createDirAllFrom_kept (M : Folders → Prop) {fs after : Folders} {above path : Path}
    (hstep : ∀ (now next : Folders) (front : Path) (name : String),
      front ++ [name] <+: above ++ path → M now → now.create front name .dir = some next → M next)
    (h : fs.createDirAllFrom above path = some after) (hfs : M fs)
    (habove : fs.get above = some .dir) :
    M after ∧ Grows fs after ∧ after.get (above ++ path) = some .dir := by
  induction path generalizing fs above with
  | nil =>
    obtain rfl := some.inj h
    exact ⟨hfs, Grows.rfl, by rwa [List.append_nil]⟩
  | cons name rest ih =>
    have happend : above ++ name :: rest = above ++ [name] ++ rest := by
      rw [List.append_assoc, singleton_append]
    rw [happend] at hstep ⊢
    rw [createDirAllFrom] at h
    split at h
    · rename_i hdir
      exact ih hstep h hfs hdir
    · cases h
    · obtain ⟨made, hmade, hrest⟩ := bind_eq_some_iff.mp h
      have hdir : made.get (above ++ [name]) = some .dir := by rw [get_create hmade, if_pos rfl]
      obtain ⟨hM, hgrows, hafter⟩ := ih hstep hrest
        (hstep fs made above name (prefix_append _ _) hfs hmade) hdir
      exact ⟨hM, (grows_create hmade).trans hgrows, hafter⟩

theorem createDirAll_kept (M : Folders → Prop) {after : Folders}
    (hstep : ∀ (now next : Folders) (front : Path) (name : String), front ++ [name] <+: path →
      M now → now.create front name .dir = some next → M next)
    (h : fs.createDirAll path = some after) (hfs : M fs) :
    M after ∧ Grows fs after ∧ after.get path = some .dir :=
  @createDirAllFrom_kept M fs after [] path hstep h hfs (if_pos rfl)

theorem createDirAll_grows {after : Folders} (h : fs.createDirAll path = some after) :
    Grows fs after ∧ after.get path = some .dir :=
  (createDirAll_kept (fun _ => True) (fun _ _ _ _ _ _ _ => trivial) h trivial).2

theorem createDirAllFrom_isSome {fs : Folders} {above path : Path}
    (hway : ∀ part, part <+: path → ∀ content, fs.get (above ++ part) ≠ some (.file content))
    (habove : fs.get above = some .dir) : ∃ after, fs.createDirAllFrom above path = some after := by
  induction path generalizing fs above with
  | nil => exact ⟨fs, rfl⟩
  | cons name rest ih =>
    have hrest : ∀ part, part <+: rest → above ++ [name] ++ part = above ++ name :: part :=
      fun part _ => by rw [List.append_assoc, singleton_append]
    rw [createDirAllFrom]
    cases hget : fs.get (above ++ [name]) with
    | none =>
      obtain ⟨made, hmade⟩ := create_isSome .dir habove hget
      dsimp only
      rw [hmade, bind_some]
      refine ih (fun part hpart content hfile => ?_) (by rw [get_create hmade, if_pos rfl])
      rw [get_create hmade] at hfile
      split at hfile
      · cases hfile
      · rw [hrest part hpart] at hfile
        exact hway _ (cons_prefix_cons.mpr ⟨rfl, hpart⟩) content hfile
    | some node =>
      cases node with
      | dir =>
        refine ih (fun part hpart content => ?_) hget
        rw [hrest part hpart]
        exact hway _ (cons_prefix_cons.mpr ⟨rfl, hpart⟩) content
      | file content =>
        exact absurd hget (hway [name] (cons_prefix_cons.mpr ⟨rfl, List.nil_prefix⟩) _)

theorem mem_names {name : String} (h : fs.get (folder ++ [name]) = some node) :
    name ∈ fs.names folder := by
  have hmem := (fs.get_eq_some (concat_ne_nil _ _)).mp h
  refine mem_filterMap.mpr ⟨_, hmem, ?_⟩
  rw [if_pos (dropLast_concat), List.getLast?_concat]

end Folders

/-- What a walk leaves, where it ends. -/
def Run.Leaves (M : State → Prop) : Run → Prop
  | .endless => True
  | .failed state | .done state => M state

variable {M : State → Prop}

theorem Run.leaves_andThen {run : Run} {next : State → Run} (hrun : run.Leaves M)
    (hnext : ∀ state, M state → (next state).Leaves M) : (run.andThen next).Leaves M := by
  cases run with
  | endless => trivial
  | failed state => exact hrun
  | done state => exact hnext state hrun

theorem Run.Leaves.mono {N : State → Prop} {run : Run} (h : run.Leaves M)
    (himp : ∀ state, M state → N state) : run.Leaves N := by
  cases run with
  | endless => trivial
  | failed state => exact himp state h
  | done state => exact himp state h

theorem each_cons (visit : String → State → Run) (name : String) (names : List String)
    (state : State) : each visit (name :: names) state =
      (visit name state).andThen (each visit names) := by
  have hstuck : ∀ (names : List String) (run : Run),
      names.foldl (fun run name => run.andThen (visit name)) run =
        run.andThen (each visit names) := by
    intro names
    induction names with
    | nil => exact fun run => by cases run <;> rfl
    | cons name names ih =>
      intro run
      rw [foldl_cons, ih]
      cases run with
      | endless => rfl
      | failed state => rfl
      | done state => exact (ih _).symm
  exact hstuck names _

theorem leaves_each {M : State → Prop} {visit : String → State → Run} {names : List String}
    {state : State} (h : M state)
    (hvisit : ∀ name ∈ names, ∀ now, M now → (visit name now).Leaves M) :
    (each visit names state).Leaves M := by
  induction names generalizing state with
  | nil => exact h
  | cons name names ih =>
    rw [each_cons]
    exact Run.leaves_andThen (hvisit name mem_cons_self state h) fun now hnow =>
      ih hnow fun other hother => hvisit other (mem_cons_of_mem _ hother)

theorem done_each {M : State → Prop} {visit : String → State → Run} {names : List String}
    {state : State} (h : M state)
    (hvisit : ∀ name ∈ names, ∀ now, M now → ∃ after, visit name now = .done after ∧ M after) :
    ∃ after, each visit names state = .done after ∧ M after := by
  induction names generalizing state with
  | nil => exact ⟨state, rfl, h⟩
  | cons name names ih =>
    obtain ⟨now, hnow, hM⟩ := hvisit name mem_cons_self state h
    rw [each_cons, hnow]
    exact ih hM fun other hother => hvisit other (mem_cons_of_mem _ hother)

theorem each_done {visit : String → State → Run} {names : List String} {state after : State}
    (h : M state)
    (hvisit : ∀ name ∈ names, ∀ now, M now →
      (visit name now).Leaves fun next => M next ∧ Grows now.fs next.fs)
    (hdone : each visit names state = .done after) {name : String} (hname : name ∈ names) :
    ∃ now next, M now ∧ Grows state.fs now.fs ∧ visit name now = .done next ∧
      Grows next.fs after.fs := by
  induction names generalizing state with
  | nil => cases hname
  | cons first names ih =>
    rw [each_cons] at hdone
    cases hfirst : visit first state with
    | endless =>
      rw [hfirst] at hdone
      cases hdone
    | failed now =>
      rw [hfirst] at hdone
      cases hdone
    | done now =>
      have hrest : each visit names now = .done after := by rwa [hfirst] at hdone
      have hnow := hvisit first mem_cons_self state h
      rw [hfirst] at hnow
      have hothers := fun other hother => hvisit other (mem_cons_of_mem first hother)
      rcases mem_cons.mp hname with rfl | hlater
      · have hafter := @leaves_each (fun later => M later ∧ Grows now.fs later.fs) visit names
          now ⟨hnow.1, Grows.rfl⟩ fun other hother later hlater =>
            (hothers other hother later hlater.1).mono
              fun _ hnext => ⟨hnext.1, hlater.2.trans hnext.2⟩
        rw [hrest] at hafter
        exact ⟨state, now, h, Grows.rfl, hfirst, hafter.2⟩
      · obtain ⟨later, next, hM, hfrom, hrun, hafter⟩ := ih hnow.1 hothers hrest hlater
        exact ⟨later, next, hM, hnow.2.trans hfrom, hrun, hafter⟩

/-- A path below the settings folder that is copied. -/
def Listed (path : Path) : Prop := ∃ name ∈ listed, ∃ rest, path = name :: rest

/-- What may come to stand in the settings folder, with `home` and `target` one inside the other:
what stands there, the target, and copies of what may come to stand there. -/
inductive Comes (fs : Folders) (home target : Path) : Path → Node → Prop
  | there {path : Path} {node : Node} (h : fs.get (home ++ path) = some node) :
      Comes fs home target path node
  | way {path : Path} (h : home ++ path <+: target) : Comes fs home target path .dir
  | copied {path copy : Path} {node : Node} (hlisted : Listed path)
      (h : Comes fs home target path node) (heq : home ++ copy = target ++ path) :
      Comes fs home target copy node

/-- The target is not one of the listed folders, nor inside one. -/
def Apart (home target : Path) : Prop := ∀ name ∈ listed, ¬ home ++ [name] <+: target

/-- No file stands where a folder is needed, and no folder where a file is. -/
structure Fits (fs : Folders) (home target : Path) : Prop where
  way : ∀ part, part <+: target → ∀ content, fs.get part ≠ some (.file content)
  folders : ∀ path, Listed path → Comes fs home target path .dir →
    ∀ content, fs.get (target ++ path) ≠ some (.file content)
  files : ∀ path, Listed path → ∀ content, fs.get (home ++ path) = some (.file content) →
    fs.get (target ++ path) ≠ some .dir

/-- The files made since. -/
def madeFiles (fs after : Folders) : List (Path × Node) :=
  after.nodes.filter fun entry => entry.2.isFile && fs.get entry.1 = none

/-- Copying the settings ends and changes no file; every settings file is then in the target,
unless a file was there; and the number is that of the files made. -/
def Sane (fs : Folders) (home target : Path) : Prop :=
  ∀ listing, ∃ depth state, copySettings listing depth fs home target = .done state ∧
    (∀ path content, fs.get path = some (.file content) →
      state.fs.get path = some (.file content)) ∧
    (∀ path content, Listed path → fs.get (home ++ path) = some (.file content) →
      state.fs.get (target ++ path) = some (.file content) ∨
        ∃ other, fs.get (target ++ path) = some (.file other)) ∧
    state.copied = (madeFiles fs state.fs).length

/-- What holds while the settings are copied. -/
structure Kept (fs : Folders) (home target : Path) (state : State) : Prop where
  added : ∃ added, state.fs.nodes = added ++ fs.nodes ∧
    state.copied = (added.filter fun entry => entry.2.isFile).length
  made : ∀ path node, state.fs.get path = some node → fs.get path = some node ∨
    (node = .dir ∧ path <+: target) ∨
      ∃ copy, Listed copy ∧ path = target ++ copy ∧ state.fs.get (home ++ copy) = some node
  comes : ∀ path node, state.fs.get (home ++ path) = some node → Comes fs home target path node

section Kept

variable {fs : Folders} {home target : Path}

theorem kept_start : Kept fs home target ⟨fs, 0⟩ :=
  ⟨⟨[], rfl, rfl⟩, fun _ _ h => .inl h, fun _ _ h => .there h⟩

variable {state : State} {node : Node} {path : Path} {depth : Nat}

theorem Kept.create (h : Kept fs home target state) {after : Folders} {front : Path} {name : String}
    (hafter : state.fs.create front name node = some after)
    (hwhy : (node = .dir ∧ front ++ [name] <+: target) ∨ ∃ copy, Listed copy ∧
      front ++ [name] = target ++ copy ∧ state.fs.get (home ++ copy) = some node) :
    Kept fs home target ⟨after, state.copied + if node.isFile then 1 else 0⟩ := by
  obtain ⟨added, hnodes, hcount⟩ := h.added
  have hgrows := Folders.grows_create hafter
  refine ⟨⟨(front ++ [name], node) :: added, ?_, ?_⟩, fun path found hfound => ?_,
    fun path found hfound => ?_⟩
  · rw [(Folders.create_eq hafter).2, hnodes]
    rfl
  · dsimp only
    rw [hcount, filter_cons]
    cases node with
    | dir => rfl
    | file content => rfl
  · rw [Folders.get_create hafter] at hfound
    split at hfound
    · rename_i hpath
      obtain rfl := some.inj hfound
      rw [hpath]
      refine .inr (hwhy.imp_right fun ⟨copy, hlisted, heq, hget⟩ => ?_)
      exact ⟨copy, hlisted, heq, hgrows _ _ hget⟩
    · refine (h.made path found hfound).imp_right fun hmade => hmade.imp_right ?_
      exact fun ⟨copy, hlisted, heq, hget⟩ => ⟨copy, hlisted, heq, hgrows _ _ hget⟩
  · rw [Folders.get_create hafter] at hfound
    split at hfound
    · rename_i hpath
      obtain rfl := some.inj hfound
      rcases hwhy with ⟨rfl, hway⟩ | ⟨copy, hlisted, heq, hget⟩
      · exact .way (hpath ▸ hway)
      · exact .copied hlisted (h.comes copy _ hget) (hpath.trans heq)
    · exact h.comes path found hfound

theorem Listed.front {part : Path} (h : Listed path) (hpart : part <+: path) (hne : part ≠ []) :
    Listed part := by
  obtain ⟨name, hname, rest, rfl⟩ := h
  cases part with
  | nil => exact absurd rfl hne
  | cons first part =>
    obtain ⟨rfl, -⟩ := cons_prefix_cons.mp hpart
    exact ⟨first, hname, part, rfl⟩

theorem Listed.append (h : Listed path) (rest : Path) : Listed (path ++ rest) := by
  obtain ⟨name, hname, front, rfl⟩ := h
  exact ⟨name, hname, front ++ rest, rfl⟩

theorem Listed.ne_nil (h : Listed path) : path ≠ [] := by
  obtain ⟨name, hname, front, rfl⟩ := h
  exact cons_ne_nil name front

/-- What stands above a place in the target is on the way to it or in it. -/
theorem prefix_cases {part : Path} (h : part <+: target ++ path) :
    part <+: target ∨ ∃ inner, inner ≠ [] ∧ inner <+: path ∧ part = target ++ inner := by
  rcases prefix_or_prefix_of_prefix h (prefix_append target path) with hway | hinside
  · exact .inl hway
  · obtain ⟨inner, rfl⟩ := hinside
    by_cases hnil : inner = []
    · exact .inl ⟨[], by rw [hnil, List.append_nil, List.append_nil]⟩
    · exact .inr ⟨inner, hnil, (prefix_append_right_inj target).mp h, rfl⟩

theorem Kept.createDirAll (h : Kept fs home target state) {after : Folders}
    (hlisted : path ≠ [] → Listed path)
    (hsource : path ≠ [] → state.fs.get (home ++ path) = some .dir)
    (hafter : state.fs.createDirAll (target ++ path) = some after) :
    Kept fs home target ⟨after, state.copied⟩ ∧ Grows state.fs after ∧
      after.get (target ++ path) = some .dir := by
  have hstep := Folders.createDirAll_kept
    (fun now => Kept fs home target ⟨now, state.copied⟩ ∧ Grows state.fs now)
    (fun now next front name hfront hnow hnext => by
      refine ⟨hnow.1.create hnext ?_, hnow.2.trans (Folders.grows_create hnext)⟩
      refine (prefix_cases hfront).imp (fun hway => ⟨rfl, hway⟩) fun ⟨inner, hne, hinner, heq⟩ => ?_
      have hpath : path ≠ [] := by
        rintro rfl
        exact hne (prefix_nil.mp hinner)
      refine ⟨inner, (hlisted hpath).front hinner hne, heq, hnow.2 _ _ ?_⟩
      exact Folders.get_prefix ((prefix_append_right_inj home).mpr hinner) (hsource hpath))
    hafter ⟨h, Grows.rfl⟩
  exact ⟨hstep.1.1, hstep.2⟩

theorem get_copied {front : Path} {name : String} {fs after : Folders}
    (h : fs.create (front ++ [name]).dropLast ((front ++ [name]).getLast?.getD "") node =
      some after) : fs.create front name node = some after := by
  rwa [dropLast_concat, List.getLast?_concat] at h

theorem exists_concat (h : Listed path) (front : Path) :
    ∃ above name, front ++ path = above ++ [name] := by
  obtain ⟨above, name, hpath⟩ := eq_nil_or_concat path |>.resolve_left h.ne_nil
  exact ⟨front ++ above, name, by rw [hpath, concat_eq_append, List.append_assoc]⟩

theorem copy_leaves (listing : Listing) (depth : Nat) (hlisted : Listed path)
    (h : Kept fs home target state) :
    (copy listing depth (home ++ path) (target ++ path) state).Leaves fun after =>
      Kept fs home target after ∧ Grows state.fs after.fs := by
  induction depth generalizing path state with
  | zero => exact trivial
  | succ depth ih =>
    rw [copy]
    split
    · rename_i hsource
      split
      · exact ⟨h, Grows.rfl⟩
      · rename_i made hmade
        obtain ⟨hkept, hgrows, -⟩ := h.createDirAll (fun _ => hlisted) (fun _ => hsource) hmade
        refine @leaves_each (fun after => Kept fs home target after ∧ Grows state.fs after.fs)
          _ _ _ ⟨hkept, hgrows⟩ fun name _ now hnow => ?_
        rw [List.append_assoc, List.append_assoc]
        exact (ih (hlisted.append [name]) hnow.1).mono
          fun _ hafter => ⟨hafter.1, hnow.2.trans hafter.2⟩
    · rename_i content hsource
      split
      · obtain ⟨above, name, htarget⟩ := exists_concat hlisted target
        split
        · exact ⟨h, Grows.rfl⟩
        · rename_i made hmade
          rw [htarget] at hmade
          have hcreate := get_copied hmade
          exact ⟨h.create hcreate (.inr ⟨path, hlisted, htarget.symm, hsource⟩),
            Folders.grows_create hcreate⟩
      · exact ⟨h, Grows.rfl⟩
    · exact ⟨h, Grows.rfl⟩

theorem Kept.grows (h : Kept fs home target state) : Grows fs state.fs := by
  intro path node hnode
  obtain ⟨added, hnodes, -⟩ := h.added
  by_cases hpath : path = []
  · rw [hpath, Folders.get, if_pos rfl] at hnode ⊢
    exact hnode
  · rw [Folders.get_eq_some _ hpath] at hnode ⊢
    rw [hnodes]
    exact mem_append_right _ hnode

/-- What the walk makes of a folder or a file of the settings. -/
def Reached (fs : Folders) (target path : Path) (node : Node) (after : Folders) : Prop :=
  (node = .dir → after.get (target ++ path) = some .dir) ∧
    ∀ content, node = .file content →
      after.get (target ++ path) = some (.file content) ∨ fs.get (target ++ path) ≠ none

theorem Reached.mono {between after : Folders} (h : Reached fs target path node between)
    (hafter : Grows between after) : Reached fs target path node after :=
  ⟨fun hdir => hafter _ _ (h.1 hdir),
    fun content hfile => (h.2 content hfile).imp_left (hafter _ _)⟩

theorem reached_file (hlisted : Listed path) (h : Kept fs home target state) {content : List UInt8}
    (hsource : state.fs.get (home ++ path) = some (.file content))
    (hthere : state.fs.get (target ++ path) = some node) :
    Reached fs target path (.file content) state.fs := by
  refine ⟨nofun, fun other hother => ?_⟩
  obtain rfl := Node.file.inj hother
  rcases h.made _ _ hthere with hbefore | ⟨-, hway⟩ | ⟨copied, -, heq, hcopied⟩
  · exact .inr fun hnone => nomatch hbefore.symm.trans hnone
  · have hlength := hway.length_le
    rw [length_append] at hlength
    exact absurd (length_eq_zero_iff.mp (Nat.le_zero.mp (by omega))) hlisted.ne_nil
  · obtain rfl := append_cancel_left heq
    obtain rfl := some.inj (hsource.symm.trans hcopied)
    exact .inl hthere

theorem copy_done (listing : Listing) (depth : Nat) (hlisted : Listed path) {after : State}
    (h : Kept fs home target state)
    (hdone : copy listing depth (home ++ path) (target ++ path) state = .done after) (rest : Path)
    (hnode : fs.get (home ++ (path ++ rest)) = some node) :
    Reached fs target (path ++ rest) node after.fs := by
  induction depth generalizing path state after rest with
  | zero => cases hdone
  | succ depth ih =>
    have hnow := h.grows _ _ hnode
    rw [copy] at hdone
    split at hdone
    · rename_i hsource
      split at hdone
      · cases hdone
      · rename_i made hmade
        obtain ⟨hkept, hgrows, htarget⟩ :=
          h.createDirAll (fun _ => hlisted) (fun _ => hsource) hmade
        have hvisit : ∀ name now, Kept fs home target now →
            (copy listing depth (home ++ path ++ [name]) (target ++ path ++ [name]) now).Leaves
              fun next => Kept fs home target next ∧ Grows now.fs next.fs := by
          intro name now hnow
          rw [List.append_assoc, List.append_assoc]
          exact copy_leaves listing depth (hlisted.append [name]) hnow
        cases rest with
        | nil =>
          rw [List.append_nil, hsource] at hnow
          obtain rfl := some.inj hnow
          have hlater := @leaves_each
            (fun next => Kept fs home target next ∧ Grows made next.fs) _
            (listing.names (home ++ path) (made.names (home ++ path)))
            { state with fs := made } ⟨hkept, Grows.rfl⟩ fun name _ now hnow =>
              (hvisit name now hnow.1).mono fun _ hnext => ⟨hnext.1, hnow.2.trans hnext.2⟩
          rw [hdone] at hlater
          rw [List.append_nil]
          exact ⟨fun _ => hlater.2 _ _ htarget, nofun⟩
        | cons name rest =>
          have hthere : ∃ found, made.get (home ++ path ++ [name]) = some found := by
            by_cases hlast : rest = []
            · subst hlast
              exact ⟨node, hgrows _ _ (by rwa [List.append_assoc])⟩
            · have hbelow : state.fs.get (home ++ path ++ [name] ++ rest) = some node := by
                rwa [List.append_assoc, List.append_assoc, singleton_append]
              exact ⟨.dir, hgrows _ _ (Folders.get_above rest hlast hbelow)⟩
          obtain ⟨found, hfound⟩ := hthere
          have hname := listing.complete (home ++ path) _ (Folders.mem_names hfound)
          obtain ⟨now, next, hkeptNow, -, hrun, hafter⟩ := each_done hkept
            (fun name _ => hvisit name) hdone hname
          rw [List.append_assoc, List.append_assoc] at hrun
          have hreached := ih (hlisted.append [name]) hkeptNow hrun rest (by
            rwa [List.append_assoc, singleton_append])
          rw [List.append_assoc, singleton_append] at hreached
          exact hreached.mono hafter
    · rename_i content hsource
      have hrest : rest = [] := by
        by_contra hrest
        rw [← List.append_assoc] at hnow
        cases hsource.symm.trans (Folders.get_above rest hrest hnow)
      subst hrest
      rw [List.append_nil, hsource] at hnow
      obtain rfl := some.inj hnow
      rw [List.append_nil]
      split at hdone
      · obtain ⟨above, name, htarget⟩ := exists_concat hlisted target
        split at hdone
        · cases hdone
        · rename_i made hmade
          rw [htarget] at hmade
          obtain rfl := Run.done.inj hdone
          refine ⟨nofun, fun other hother => .inl ?_⟩
          obtain rfl := Node.file.inj hother
          rw [htarget, Folders.get_create (get_copied hmade), if_pos rfl]
      · rename_i hthere
        obtain rfl := Run.done.inj hdone
        obtain ⟨found, hfound⟩ := ne_none_iff_exists'.mp hthere
        exact reached_file hlisted h hsource hfound
    · rename_i hsource
      by_cases hrest : rest = []
      · rw [hrest, List.append_nil, hsource] at hnow
        cases hnow
      · rw [← List.append_assoc] at hnow
        cases hsource.symm.trans (Folders.get_above rest hrest hnow)

theorem inside_of_copy (hapart : Apart home target) {copied : Path} (hlisted : Listed copied)
    (heq : home ++ copied = target ++ path) :
    ∃ inner, home = target ++ inner ∧ path = inner ++ copied := by
  rcases append_eq_append_iff.mp heq with ⟨inner, htarget, hcopied⟩ | hinner
  · by_cases hnil : inner = []
    · subst hnil
      rw [List.append_nil] at htarget
      exact ⟨[], by rw [htarget, List.append_nil], hcopied.symm⟩
    · obtain ⟨name, hname, rest, hfirst⟩ := hlisted.front (hcopied ▸ prefix_append inner path) hnil
      refine absurd ?_ (hapart name hname)
      rw [htarget, hfirst]
      exact (prefix_append_right_inj home).mpr ⟨rest, rfl⟩
  · exact hinner

theorem comes_length (hapart : Apart home target) (hlisted : Listed path)
    (h : Comes fs home target path node) :
    ∃ known ∈ fs.nodes, home.length + path.length ≤ known.1.length := by
  induction h with
  | @there path node hnode =>
    exact ⟨_, (fs.get_eq_some (append_ne_nil_of_right_ne_nil _ hlisted.ne_nil)).mp hnode,
      Nat.le_of_eq length_append.symm⟩
  | @way path hway =>
    obtain ⟨name, hname, rest, rfl⟩ := hlisted
    refine absurd (List.IsPrefix.trans ?_ hway) (hapart name hname)
    exact (prefix_append_right_inj home).mpr ⟨rest, rfl⟩
  | @copied path copy node hpath hcomes heq ih =>
    obtain ⟨known, hknown, hlength⟩ := ih hpath
    refine ⟨known, hknown, Nat.le_trans (Nat.add_le_add_left ?_ _) hlength⟩
    obtain ⟨inner, -, rfl⟩ := inside_of_copy hapart hlisted heq
    rw [length_append]
    omega

theorem Kept.way {state : State} (h : Kept fs home target state) (hfits : Fits fs home target)
    {path : Path} (hlisted : path ≠ [] → Listed path)
    (hsource : path ≠ [] → state.fs.get (home ++ path) = some .dir) {part : Path}
    (hpart : part <+: target ++ path) (content : List UInt8) :
    state.fs.get part ≠ some (.file content) := by
  intro hfile
  rcases prefix_cases hpart with hway | ⟨inner, hne, hinner, rfl⟩
  · rcases h.made _ _ hfile with hbefore | ⟨hdir, -⟩ | ⟨copied, hcopied, rfl, -⟩
    · exact hfits.way part hway content hbefore
    · cases hdir
    · have hlength := hway.length_le
      rw [length_append] at hlength
      exact hcopied.ne_nil (length_eq_zero_iff.mp (Nat.le_zero.mp (by omega)))
  · have hpath : path ≠ [] := by
      rintro rfl
      exact hne (prefix_nil.mp hinner)
    have hdir := Folders.get_prefix ((prefix_append_right_inj home).mpr hinner) (hsource hpath)
    rcases h.made _ _ hfile with hbefore | ⟨hnode, -⟩ | ⟨copied, -, heq, hcopied⟩
    · exact hfits.folders inner ((hlisted hpath).front hinner hne) (h.comes _ _ hdir) content
        hbefore
    · cases hnode
    · obtain rfl := append_cancel_left heq
      cases hdir.symm.trans hcopied

theorem copy_ends (listing : Listing) (hapart : Apart home target) (hfits : Fits fs home target)
    {deepest : Nat} (hdeepest : ∀ known ∈ fs.nodes, known.1.length ≤ deepest) (depth : Nat)
    {front : Path} {name : String} (hlisted : Listed (front ++ [name])) {state : State}
    (h : Kept fs home target state) (htarget : state.fs.get (target ++ front) = some .dir)
    (hfront : home.length + front.length ≤ deepest)
    (hdepth : deepest < home.length + front.length + depth) :
    ∃ after, copy listing depth (home ++ (front ++ [name])) (target ++ (front ++ [name])) state =
      .done after ∧ Kept fs home target after ∧ Grows state.fs after.fs := by
  induction depth generalizing front name state with
  | zero => exact absurd hdepth (Nat.not_lt.mpr hfront)
  | succ depth ih =>
    have hleaves := copy_leaves listing (depth + 1) hlisted h
    suffices hdone : ∃ after, copy listing (depth + 1) (home ++ (front ++ [name]))
        (target ++ (front ++ [name])) state = .done after by
      obtain ⟨after, hafter⟩ := hdone
      rw [hafter] at hleaves
      exact ⟨after, hafter, hleaves⟩
    rw [copy]
    split
    · rename_i hsource
      obtain ⟨made, hmade⟩ := @Folders.createDirAllFrom_isSome state.fs []
        (target ++ (front ++ [name]))
        (fun part hpart content => h.way hfits (fun _ => hlisted) (fun _ => hsource) hpart content)
        (if_pos rfl)
      obtain ⟨hkept, hgrows, hdir⟩ := h.createDirAll (fun _ => hlisted) (fun _ => hsource) hmade
      obtain ⟨known, hknown, hlength⟩ := comes_length hapart hlisted (h.comes _ _ hsource)
      have hlong := hdeepest known hknown
      rw [length_append, length_singleton] at hlength
      rw [Folders.createDirAll, hmade]
      obtain ⟨after, hafter, -⟩ := @done_each
        (fun now => Kept fs home target now ∧ Grows made now.fs)
        (fun other => copy listing depth (home ++ (front ++ [name]) ++ [other])
          (target ++ (front ++ [name]) ++ [other]))
        (listing.names (home ++ (front ++ [name])) (made.names (home ++ (front ++ [name]))))
        { state with fs := made } ⟨hkept, Grows.rfl⟩ fun other _ now hnow => by
          obtain ⟨next, hnext, hkeptNext, hgrowsNext⟩ := ih (hlisted.append [other]) hnow.1
            (hnow.2 _ _ hdir) (by rw [length_append, length_singleton]; omega)
            (by rw [length_append, length_singleton]; omega)
          rw [List.append_assoc home, List.append_assoc target]
          exact ⟨next, hnext, hkeptNext, hnow.2.trans hgrowsNext⟩
      exact ⟨after, hafter⟩
    · rename_i content hsource
      split
      · rename_i hfree
        rw [← List.append_assoc, dropLast_concat, List.getLast?_concat, getD_some]
        rw [← List.append_assoc] at hfree
        obtain ⟨made, hmade⟩ := Folders.create_isSome (.file content) htarget hfree
        rw [hmade]
        exact ⟨_, rfl⟩
      · exact ⟨_, rfl⟩
    · exact ⟨_, rfl⟩

theorem get_node {entry : Path × Node} (h : entry ∈ fs.nodes) : fs.get entry.1 ≠ none := by
  obtain ⟨folder, name, heq, -⟩ := fs.below _ (mem_map_of_mem h)
  have hpath : entry.1 ≠ [] := by
    rw [heq]
    exact concat_ne_nil _ _
  rw [(fs.get_eq_some hpath).mpr h]
  exact nofun

theorem Kept.count (h : Kept fs home target state) :
    state.copied = (madeFiles fs state.fs).length := by
  obtain ⟨added, hnodes, hcount⟩ := h.added
  have hnodup := state.fs.nodup
  rw [hnodes, map_append, nodup_append'] at hnodup
  have hold : fs.nodes.filter (fun entry => entry.2.isFile && fs.get entry.1 = none) = [] := by
    rw [filter_eq_nil_iff]
    intro entry hentry
    rw [Bool.and_eq_true, decide_eq_true_iff]
    exact fun hnone => get_node hentry hnone.2
  have hnew : added.filter (fun entry => entry.2.isFile && fs.get entry.1 = none) =
      added.filter fun entry => entry.2.isFile := by
    refine filter_congr fun entry hentry => ?_
    have hnone : fs.get entry.1 = none := by
      have hmem : entry.1 ∈ state.fs.nodes.map Prod.fst := by
        rw [hnodes]
        exact mem_map_of_mem (mem_append_left _ hentry)
      obtain ⟨folder, name, heq, -⟩ := state.fs.below _ hmem
      have hpath : entry.1 ≠ [] := by
        rw [heq]
        exact concat_ne_nil _ _
      cases hget : fs.get entry.1 with
      | none => rfl
      | some node =>
        have hadded : entry.1 ∈ added.map Prod.fst := mem_map_of_mem hentry
        have hknown : entry.1 ∈ fs.nodes.map Prod.fst :=
          mem_map.mpr ⟨_, (fs.get_eq_some hpath).mp hget, rfl⟩
        exact (hnodup.2.2 hadded hknown).elim
    rw [hnone, decide_eq_true rfl, Bool.and_true]
  rw [madeFiles, hnodes, filter_append, hold, hnew, List.append_nil, hcount]

theorem exists_deepest (nodes : List (Path × Node)) (least : Nat) :
    ∃ deepest, least ≤ deepest ∧ ∀ known ∈ nodes, known.1.length ≤ deepest := by
  induction nodes with
  | nil => exact ⟨least, Nat.le_refl _, nofun⟩
  | cons entry nodes ih =>
    obtain ⟨deepest, hleast, hdeepest⟩ := ih
    refine ⟨max entry.1.length deepest, Nat.le_trans hleast (Nat.le_max_right _ _),
      forall_mem_cons.mpr ⟨Nat.le_max_left _ _, fun known hknown => ?_⟩⟩
    exact Nat.le_trans (hdeepest known hknown) (Nat.le_max_right _ _)

theorem kept_target {made : Folders} (h : fs.createDirAll target = some made) :
    Kept fs home target ⟨made, 0⟩ ∧ made.get target = some .dir := by
  rw [← List.append_nil target] at h
  have hmade := (@kept_start fs home target).createDirAll (fun hne => absurd rfl hne)
    (fun hne => absurd rfl hne) h
  rw [List.append_nil] at hmade
  exact ⟨hmade.1, hmade.2.2⟩

theorem listed_top {name : String} (h : name ∈ listed) : Listed [name] := ⟨name, h, [], rfl⟩

theorem copySettings_done {listing : Listing} {after : State}
    (h : copySettings listing depth fs home target = .done after) :
    ∃ made, fs.createDirAll target = some made ∧ Grows made after.fs ∧
      ∀ name ∈ listed, ∃ now next, Kept fs home target now ∧ Grows made now.fs ∧
        copy listing depth (home ++ [name]) (target ++ [name]) now = .done next ∧
          Grows next.fs after.fs := by
  rw [copySettings] at h
  split at h
  · cases h
  · rename_i made hmade
    have hkept := (@kept_target fs home target made hmade).1
    have hvisit : ∀ name ∈ listed, ∀ now : State, Kept fs home target now →
        (copy listing depth (home ++ [name]) (target ++ [name]) now).Leaves fun next =>
          Kept fs home target next ∧ Grows now.fs next.fs :=
      fun name hname now hnow => copy_leaves listing depth (listed_top hname) hnow
    have hgrows := @leaves_each (fun now => Kept fs home target now ∧ Grows made now.fs) _ listed
      ⟨made, 0⟩ ⟨hkept, Grows.rfl⟩ fun name hname now hnow =>
        (hvisit name hname now hnow.1).mono fun _ hnext => ⟨hnext.1, hnow.2.trans hnext.2⟩
    rw [h] at hgrows
    exact ⟨made, hmade, hgrows.2, fun name hname => each_done hkept hvisit h hname⟩

theorem settings_reached {listing : Listing} {after : State}
    (h : copySettings listing depth fs home target = .done after) (hlisted : Listed path)
    (hnode : fs.get (home ++ path) = some node) : Reached fs target path node after.fs := by
  obtain ⟨made, -, -, hvisited⟩ := copySettings_done h
  obtain ⟨name, hname, rest, rfl⟩ := hlisted
  obtain ⟨now, next, hnow, -, hrun, hafter⟩ := hvisited name hname
  exact (copy_done listing depth (listed_top hname) hnow hrun rest hnode).mono hafter

theorem sane_of_fits (hapart : Apart home target) (hfits : Fits fs home target) :
    Sane fs home target := by
  intro listing
  obtain ⟨deepest, hhome, hdeepest⟩ := exists_deepest fs.nodes home.length
  obtain ⟨made, hmade⟩ := @Folders.createDirAllFrom_isSome fs [] target
    (fun part hpart => hfits.way part hpart) (if_pos rfl)
  obtain ⟨hkept, hdir⟩ := @kept_target fs home target made hmade
  have hvisit : ∀ name ∈ listed, ∀ now : State, Kept fs home target now ∧ Grows made now.fs →
      ∃ after, copy listing (deepest + 1) (home ++ [name]) (target ++ [name]) now = .done after ∧
        Kept fs home target after ∧ Grows made after.fs := by
    intro name hname now hnow
    obtain ⟨after, hafter, hkeptAfter, hgrows⟩ := @copy_ends fs home target listing hapart hfits
      deepest hdeepest (deepest + 1) [] name (listed_top hname) now hnow.1
      (by rw [List.append_nil]; exact hnow.2 _ _ hdir) hhome (by omega)
    exact ⟨after, hafter, hkeptAfter, hnow.2.trans hgrows⟩
  obtain ⟨after, hafter, hend, -⟩ := done_each ⟨hkept, Grows.rfl⟩ hvisit
  have hdone : copySettings listing (deepest + 1) fs home target = .done after := by
    rw [copySettings, Folders.createDirAll, hmade]
    exact hafter
  refine ⟨deepest + 1, after, hdone, fun path content => hend.grows path _, ?_, hend.count⟩
  intro path content hlisted hfile
  refine ((settings_reached hdone hlisted hfile).2 content rfl).imp_right fun hthere => ?_
  obtain ⟨node, hnode⟩ := ne_none_iff_exists'.mp hthere
  cases node with
  | dir => exact absurd hnode (hfits.files path hlisted content hfile)
  | file other => exact ⟨other, hnode⟩

/-- Inside a folder that is copied, there is always one more folder to walk into. -/
theorem copy_inside (listing : Listing) {inner : Path} (hinner : inner ≠ []) (depth : Nat)
    {path : Path} (hlisted : Listed path) (hagain : path <+: inner ++ path) {state after : State}
    (h : Kept fs home (home ++ inner) state) (hsource : state.fs.get (home ++ path) = some .dir) :
    copy listing depth (home ++ path) (home ++ inner ++ path) state ≠ .done after := by
  induction depth generalizing path state after with
  | zero => exact nofun
  | succ depth ih =>
    intro hdone
    rw [copy, hsource] at hdone
    dsimp only at hdone
    split at hdone
    · cases hdone
    · rename_i made hmade
      obtain ⟨hkept, hgrows, hdir⟩ := h.createDirAll (fun _ => hlisted) (fun _ => hsource) hmade
      obtain ⟨more, hmore⟩ := hagain
      cases more with
      | nil =>
        have hlength := congrArg List.length hmore
        rw [List.append_nil, length_append] at hlength
        exact hinner (length_eq_zero_iff.mp (by omega))
      | cons name more =>
        have hnext : path ++ [name] <+: inner ++ path :=
          ⟨more, by rw [← hmore, List.append_assoc, singleton_append]⟩
        have hthere : made.get (home ++ (path ++ [name])) = some .dir := by
          refine Folders.get_prefix ((prefix_append_right_inj home).mpr hnext) ?_
          rwa [← List.append_assoc]
        have hname : name ∈ listing.names (home ++ path) (made.names (home ++ path)) :=
          listing.complete _ _ (Folders.mem_names (by rwa [← List.append_assoc] at hthere))
        obtain ⟨now, next, hnow, hlater, hrun, -⟩ := each_done hkept (fun other _ now hnow => by
          rw [List.append_assoc home path, List.append_assoc (home ++ inner)]
          exact copy_leaves listing depth (hlisted.append [other]) hnow) hdone hname
        rw [List.append_assoc home path, List.append_assoc (home ++ inner)] at hrun
        refine ih (hlisted.append [name]) (hnext.trans ?_) hnow (hlater _ _ hthere) hrun
        exact ⟨[name], List.append_assoc _ _ _⟩

theorem apart_of_done {listing : Listing} {after : State}
    (h : copySettings listing depth fs home target = .done after) : Apart home target := by
  rintro name hname ⟨rest, rfl⟩
  obtain ⟨made, hmade, -, hvisited⟩ := copySettings_done h
  obtain ⟨now, next, hnow, hgrows, hrun, -⟩ := hvisited name hname
  have hdir := (@kept_target fs home _ made hmade).2
  rw [List.append_assoc home] at hnow hrun
  refine @copy_inside fs home listing ([name] ++ rest) (cons_ne_nil _ _) depth [name]
    (listed_top hname) ⟨rest ++ [name], rfl⟩ now next hnow (hgrows _ _ ?_) hrun
  exact Folders.get_prefix ⟨rest, rfl⟩ hdir

/-- The settings folder is not inside a copy of a listed folder. -/
def Outside (home target : Path) : Prop := ∀ name ∈ listed, ¬ target ++ [name] <+: home

theorem comes_there (hapart : Apart home target) (houtside : Outside home target)
    (hlisted : Listed path) (h : Comes fs home target path node) :
    fs.get (home ++ path) = some node := by
  induction h with
  | there hnode => exact hnode
  | @way path hway =>
    obtain ⟨name, hname, rest, rfl⟩ := hlisted
    refine absurd (List.IsPrefix.trans ?_ hway) (hapart name hname)
    exact (prefix_append_right_inj home).mpr ⟨rest, rfl⟩
  | @copied path copied node hpath hcomes heq ih =>
    obtain ⟨inner, hhome, rfl⟩ := inside_of_copy hapart hlisted heq
    by_cases hnil : inner = []
    · subst hnil
      exact ih hpath
    · obtain ⟨name, hname, rest, hfirst⟩ := hpath.front (prefix_append inner copied) hnil
      refine absurd ?_ (houtside name hname)
      rw [hhome, hfirst]
      exact (prefix_append_right_inj target).mpr ⟨rest, rfl⟩

theorem fits_of_sane (houtside : Outside home target) (h : Sane fs home target) :
    Fits fs home target := by
  obtain ⟨depth, after, hdone, hkept, hfiles, -⟩ :=
    h ⟨fun _ known => known, fun _ _ => List.Subset.refl _⟩
  have hapart := apart_of_done hdone
  obtain ⟨made, hmade, hafter, -⟩ := copySettings_done hdone
  obtain ⟨hgrows, hdir⟩ := Folders.createDirAll_grows hmade
  refine ⟨fun part hpart content hfile => ?_, fun path hlisted hcomes content hfile => ?_,
    fun path hlisted content hfile hthere => ?_⟩
  · cases (hgrows _ _ hfile).symm.trans (Folders.get_prefix hpart hdir)
  · have hsource := comes_there hapart houtside hlisted hcomes
    have hreached := (settings_reached hdone hlisted hsource).1 rfl
    cases (hkept _ _ hfile).symm.trans hreached
  · rcases hfiles path content hlisted hfile with hcopied | ⟨other, hother⟩
    · cases hcopied.symm.trans (hafter _ _ (hgrows _ _ hthere))
    · cases hother.symm.trans hthere

/-- Copying the settings is sane when the target is outside the listed folders and of one kind with
them; only when it is outside; and, with the settings outside the target's listed folders, only
when both hold. -/
theorem sane_iff (fs : Folders) (home target : Path) :
    (Apart home target ∧ Fits fs home target → Sane fs home target) ∧
      (Sane fs home target → Apart home target) ∧
      (Outside home target → (Sane fs home target ↔ Apart home target ∧ Fits fs home target)) := by
  have hapart : Sane fs home target → Apart home target := fun h => by
    obtain ⟨depth, after, hdone, -⟩ := h ⟨fun _ known => known, fun _ _ => List.Subset.refl _⟩
    exact apart_of_done hdone
  have hsane : Apart home target ∧ Fits fs home target → Sane fs home target :=
    fun h => sane_of_fits h.1 h.2
  exact ⟨hsane, hapart, fun houtside => ⟨fun h => ⟨hapart h, fits_of_sane houtside h⟩, hsane⟩⟩

end Kept

def Run.Goes (M : State → Prop) : Run → Prop
  | .endless => True
  | .failed _ => False
  | .done state => M state

theorem goes_each {M : State → Prop} {visit : String → State → Run} {names : List String}
    {state : State} (h : M state) (hvisit : ∀ name now, M now → (visit name now).Goes M) :
    (each visit names state).Goes M := by
  induction names generalizing state with
  | nil => exact h
  | cons name names ih =>
    rw [each_cons]
    have hfirst := hvisit name state h
    cases hrun : visit name state with
    | endless => trivial
    | failed now =>
      rw [hrun] at hfirst
      exact hfirst.elim
    | done now =>
      rw [hrun] at hfirst
      exact ih hfirst

def NoFiles (fs : Folders) : Prop := ∀ path content, fs.get path ≠ some (.file content)

theorem noFiles_createDirAll {fs : Folders} (h : NoFiles fs) (path : Path) :
    ∃ made, fs.createDirAll path = some made ∧ NoFiles made := by
  obtain ⟨made, hmade⟩ := @Folders.createDirAllFrom_isSome fs [] path
    (fun part _ content => h part content) (if_pos rfl)
  refine ⟨made, hmade, (Folders.createDirAll_kept NoFiles ?_ hmade h).1⟩
  intro now next front name _ hnow hnext other content
  rw [Folders.get_create hnext]
  split
  · exact nofun
  · exact hnow other content

/-- Without files nothing is in the way. -/
theorem copy_goes (listing : Listing) (depth : Nat) (source target : Path) {state : State}
    (h : NoFiles state.fs) :
    (copy listing depth source target state).Goes fun after => NoFiles after.fs := by
  induction depth generalizing source target state with
  | zero => trivial
  | succ depth ih =>
    rw [copy]
    split
    · obtain ⟨made, hmade, hfiles⟩ := noFiles_createDirAll h target
      rw [hmade]
      exact @goes_each (fun after => NoFiles after.fs) _ _ _ hfiles fun name now hnow => ih _ _ hnow
    · rename_i content hsource
      exact absurd hsource (h _ _)
    · exact h

namespace CopySettingsWitness

/-- A settings folder with a folder of themes. -/
def themes : Folders where
  nodes := [(["cfg", "themes"], .dir), (["cfg"], .dir)]
  nodup := by decide
  below := by
    intro path hpath
    rcases List.mem_cons.mp hpath with rfl | hcfg
    · exact ⟨["cfg"], "themes", rfl, .inr (by decide)⟩
    · obtain rfl := List.mem_singleton.mp hcfg
      exact ⟨[], "cfg", rfl, .inl rfl⟩

theorem noFiles_themes : NoFiles themes := by
  intro path content hfile
  by_cases hpath : path = []
  · rw [Folders.get, if_pos hpath] at hfile
    cases hfile
  · have hmem := (themes.get_eq_some hpath).mp hfile
    rcases mem_cons.mp hmem with heq | hrest
    · cases (Prod.mk.inj heq).2
    · cases (Prod.mk.inj (mem_singleton.mp hrest)).2

/-- Copied into a folder among its themes, the settings are copied without an end. -/
theorem themes_endless :
    (∀ listing depth, copySettings listing depth themes ["cfg"] ["cfg", "themes", "backup"] =
      .endless) ∧ ¬ Sane themes ["cfg"] ["cfg", "themes", "backup"] := by
  have hinside : ¬ Apart ["cfg"] ["cfg", "themes", "backup"] := fun h =>
    h "themes" (by decide) ⟨["backup"], rfl⟩
  refine ⟨fun listing depth => ?_, fun h => ?_⟩
  · obtain ⟨made, hmade, hfiles⟩ := noFiles_createDirAll noFiles_themes ["cfg", "themes", "backup"]
    have hgoes := @goes_each (fun after => NoFiles after.fs) (fun name =>
      copy listing depth (["cfg"] ++ [name]) (["cfg", "themes", "backup"] ++ [name])) listed
      ⟨made, 0⟩ hfiles fun name now hnow => copy_goes listing depth _ _ hnow
    cases hrun : copySettings listing depth themes ["cfg"] ["cfg", "themes", "backup"] with
    | endless => rfl
    | failed state =>
      rw [copySettings, hmade] at hrun
      dsimp only at hrun
      rw [hrun] at hgoes
      exact hgoes.elim
    | done state => exact (hinside (apart_of_done hrun)).elim
  · obtain ⟨depth, after, hdone, -⟩ := h ⟨fun _ known => known, fun _ _ => List.Subset.refl _⟩
    exact hinside (apart_of_done hdone)

end CopySettingsWitness

end Opensesh.CopySettings
