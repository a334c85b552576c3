/-
The editor's view of a host or a group: the JSON it gets, how what it sends back is read, and
what saving it does to the library.
-/
import Opensesh.HostValidate
import Opensesh.HostsTidy

namespace Opensesh.Saved

open List Option
open Fields Records

/-- Empty texts mean "not set". -/
def dropEmpty (table : Table) : Table := table.filter fun entry => entry.2.asStr ≠ some ""

theorem wellFormed_dropEmpty {table : Table} (h : (Value.table table).wellFormed = true) :
    (Value.table (dropEmpty table)).wellFormed = true := by
  obtain ⟨hasc, hvalues⟩ := (wellFormed_table table).mp h
  refine (wellFormed_table _).mpr ⟨ascending_filter _ hasc, fun key value hmem => ?_⟩
  exact hvalues key value (mem_filter.mp hmem).1

/-- An object without what means "not set". -/
def withoutEmpty (document : Document) : Document :=
  ⟨dropEmpty document.table, wellFormed_dropEmpty document.wellFormed⟩

/-- The section of a name, where there is one. -/
def sectionOf (document : Document) (name : String) : Option Document :=
  match h : document.table.lookup name with
  | some (.table inner) => some ⟨inner, document.wellFormedOpt_lookup name _ h⟩
  | _ => none

/-- A section without its empty texts. -/
def dropEmptyIn (document : Document) (name : String) : Document :=
  match sectionOf document name with
  | some inner =>
    document.insert name (.table (withoutEmpty inner).table) (withoutEmpty inner).wellFormed
  | none => document

def orEmpty (document : Document) (name : String) : Document :=
  if (document.table.lookup name).isSome then document
  else document.insert name (Form.text.write "") (Form.text.wellFormed _)

/-- Ports the model can't hold are reported, and taken out. -/
def badPort (document : Document) : Bool :=
  match document.table.lookup "port" with
  | none => false
  | some (.integer port) => !(0 < port && port < 65536)
  | some _ => true

def withoutBadPort (document : Document) : Document :=
  if badPort document then document.remove "port" else document

/-- The editor says `none` for "no identity, even if the group has one". -/
def identityFromEditor (identity : Option String) : Option String :=
  identity.map fun id => if id = "none" then "" else trim id

/-- What the fields of a host from the editor become. -/
def Host.tidied (lower : String → String) (host : Host) : Host :=
  { host with
    identity := identityFromEditor host.identity
    name := trim host.name
    address := trim host.address
    user := (host.user.map trim).filter fun user => user ≠ ""
    tags := cleanTags lower host.tags
    jump := host.jump.map fun jump => (jump.map trim).filter fun hop => hop ≠ "" }

/-- The object of a host without what means "not set". -/
def hostSections (object : Document) : Document :=
  dropEmptyIn (dropEmptyIn (dropEmptyIn (withoutEmpty object) "ssh") "sftp") "serial"

/-- A host from the editor's JSON. -/
def hostFromJson (lower : String → String) (object : Document) : Except (List Problem) Host :=
  match Host.read (orEmpty (orEmpty (withoutBadPort (hostSections object)) "id") "name") with
  | none => .error [("host", "invalid")]
  | some host =>
    if badPort (hostSections object) then .error [("port", "invalid")]
    else .ok (host.tidied lower)

/-- The defaults of a group without what means "not set", and whether their port is wrong. -/
def defaultsFromEditor (defaults : Document) : Document × Bool :=
  let sections := dropEmptyIn (dropEmptyIn (withoutEmpty defaults) "ssh") "sftp"
  (withoutBadPort sections, badPort sections)

def Group.tidied (group : Group) : Group :=
  { group with
    defaults := { group.defaults with identity := identityFromEditor group.defaults.identity }
    name := trim group.name }

/-- The object of a group without what means "not set", and whether its port is wrong. -/
def groupSections (object : Document) : Document × Bool :=
  let named := orEmpty (orEmpty (withoutEmpty object) "id") "name"
  match sectionOf named "defaults" with
  | some inner =>
    let (defaults, bad) := defaultsFromEditor inner
    (named.insert "defaults" (.table defaults.table) defaults.wellFormed, bad)
  | none => (named, false)

/-- A group from the editor's JSON. -/
def groupFromJson (object : Document) : Except (List Problem) Group :=
  match Group.read (groupSections object).1 with
  | none => .error [("group", "invalid")]
  | some group =>
    if (groupSections object).2 then .error [("port", "invalid")] else .ok group.tidied

/-- An empty identity, as the editor shows it. -/
def identityToEditor (document : Document) : Document :=
  if document.table.lookup "identity" = some (.string "") then
    document.insert "identity" (Form.text.write "none") (Form.text.wellFormed _)
  else document

def Host.isLinked (host : Host) : Bool := linkedPrefix.toList.isPrefixOf host.id.toList

/-- A host's JSON. -/
def hostJson (host : Host) (inherited : Document) : Document :=
  (((identityToEditor host.toDocument).insert
    "linked" (Form.flag.write host.isLinked) (Form.flag.wellFormed _)).insert
    "protocol" (protocolForm.write host.protocol) (protocolForm.wellFormed _)).insert
    "inherited" (.table inherited.table) inherited.wellFormed

def groupJson (group : Group) (path : String) (inherited : Document) : Document :=
  let document := group.toDocument
  let shown := match sectionOf document "defaults" with
    | some inner =>
      let defaults := identityToEditor inner
      document.insert "defaults" (.table defaults.table) defaults.wellFormed
    | none => document
  (shown.insert "path" (Form.text.write path) (Form.text.wellFormed _)).insert
    "inherited" (.table inherited.table) inherited.wellFormed

/-- A host's JSON without the keys added for display. -/
def editedHost (host : Host) (inherited : Document) : Document :=
  ((hostJson host inherited).remove "linked").remove "inherited"

def editedGroup (group : Group) (path : String) (inherited : Document) : Document :=
  ((groupJson group path inherited).remove "path").remove "inherited"

/-- Changes the first element for which a test holds. -/
def changeFirst {α : Type} (test : α → Bool) (change : α → α) : List α → List α
  | [] => []
  | head :: rest => if test head then change head :: rest else head :: changeFirst test change rest

namespace HostsFile

variable (file : HostsFile)

/-- Replaces the host with that id, or adds a new one before the linked ones. -/
def putHost (host : Host) : HostsFile :=
  if file.hosts.any fun existing => existing.id = host.id then
    { file with
      hosts := changeFirst (fun existing => existing.id = host.id)
        (fun existing =>
          -- Keys this version doesn't know stay.
          if host.extra.table.isEmpty then { host with extra := existing.extra } else host)
        file.hosts }
  else
    { file with hosts := file.hosts.takeWhile (!·.isLinked) ++
        host :: file.hosts.dropWhile (!·.isLinked) }

def putGroup (group : Group) : HostsFile :=
  if file.groups.any fun existing => existing.id = group.id then
    { file with
      groups := changeFirst (fun existing => existing.id = group.id)
        (fun existing =>
          if group.extra.table.isEmpty then { group with extra := existing.extra } else group)
        file.groups }
  else { file with groups := file.groups ++ [group] }

/-- The library after the editor sent a host; it stays as it is when the host is refused. -/
def saveHost (lower : String → String) (newId : String) (object : Document) : HostsFile :=
  match hostFromJson lower object with
  | .error _ => file
  | .ok host =>
    if file.validateHost host ≠ [] then file
    else if host.id = "" then file.putHost { host with id := newId }
    else if host.isLinked || (file.host host.id).any Host.isLinked then file
    else file.putHost host

def saveGroup (newId : String) (object : Document) : HostsFile :=
  match groupFromJson object with
  | .error _ => file
  | .ok group =>
    if file.validateGroup group ≠ [] then file
    else if group.id = "" then file.putGroup { group with id := newId }
    else file.putGroup group

end HostsFile

/-- No text of a table is empty. -/
def NoEmpty (table : Table) : Prop := ∀ entry ∈ table, entry.2.asStr ≠ some ""

def NotEmpty (value : Option Value) : Prop := ∀ v ∈ value, v.asStr ≠ some ""

theorem dropEmpty_eq_self {table : Table} (h : NoEmpty table) : dropEmpty table = table :=
  List.filter_eq_self.mpr fun entry hentry => decide_eq_true (h entry hentry)

theorem lookup_dropEmpty {table : Table} (h : Ascending table) (key : String) :
    (dropEmpty table).lookup key = (table.lookup key).filter fun v => v.asStr ≠ some "" := by
  have hasc : Ascending (dropEmpty table) := ascending_filter _ h
  cases hlookup : table.lookup key with
  | none =>
    rw [filter_none, lookup_eq_none_iff]
    intro entry hentry
    exact lookup_eq_none_iff.mp hlookup entry (mem_filter.mp hentry).1
  | some v =>
    have hmem := (lookup_eq_some_iff_mem h.nodup).mp hlookup
    by_cases hv : v.asStr = some ""
    · rw [filter_some_neg (by simpa using hv), lookup_eq_none_iff]
      intro entry hentry
      rw [bne_iff_ne]
      rintro rfl
      obtain ⟨hold, hkept⟩ := mem_filter.mp hentry
      have hsame := (lookup_eq_some_iff_mem h.nodup).mpr (show (entry.1, entry.2) ∈ table from hold)
      rw [hlookup] at hsame
      obtain rfl := some.inj hsame
      exact of_decide_eq_true hkept hv
    · rw [filter_some_pos (by simpa using hv)]
      exact (lookup_eq_some_iff_mem hasc.nodup).mpr (mem_filter.mpr ⟨hmem, decide_eq_true hv⟩)

theorem lookup_dropEmpty_of {table : Table} (h : Ascending table) {key : String}
    (hkey : NotEmpty (table.lookup key)) : (dropEmpty table).lookup key = table.lookup key := by
  rw [lookup_dropEmpty h]
  cases hlookup : table.lookup key with
  | none => rfl
  | some v => exact filter_some_pos (decide_eq_true (hkey v hlookup))

theorem lookup_insert (document : Document) (key other : String) {value : Value}
    (h : value.wellFormed = true) : (document.insert key value h).table.lookup other =
      if other = key then some value else document.table.lookup other :=
  lookup_insertEntry key other value document.table

theorem lookup_remove (document : Document) (key other : String) :
    (document.remove key).table.lookup other =
      if other = key then none else document.table.lookup other :=
  lookup_removeEntry key other document.table

variable {value v : Value} {document : Document} {name : String} {identity : Option String}
  {ρ : Type}

theorem insert_eq_self (h : value.wellFormed = true)
    (hlookup : document.table.lookup name = some value) :
    document.insert name value h = document := by
  refine Document.ext_lookup fun key => ?_
  rw [lookup_insert]
  split
  case isTrue hkey => rw [hkey, hlookup]
  case isFalse => rfl

theorem lookup_of_sectionOf {inner : Document} (h : sectionOf document name = some inner) :
    document.table.lookup name = some (.table inner.table) := by
  unfold sectionOf at h
  split at h
  case h_1 table hlookup =>
    obtain rfl := some.inj h
    exact hlookup
  case h_2 => cases h

theorem sectionOf_of_lookup {inner : Document}
    (h : document.table.lookup name = some (.table inner.table)) :
    sectionOf document name = some inner := by
  unfold sectionOf
  split
  case h_1 table hlookup =>
    rw [h] at hlookup
    refine congrArg some (Document.ext_table ?_)
    injection hlookup with htable
    injection htable with htable
    exact htable.symm
  case h_2 hnot => exact absurd h (hnot inner.table)

theorem withoutEmpty_eq_self (h : NoEmpty document.table) :
    withoutEmpty document = document := Document.ext_table (dropEmpty_eq_self h)

theorem dropEmptyIn_eq_self (name : String)
    (h : ∀ inner, document.table.lookup name = some (.table inner) → NoEmpty inner) :
    dropEmptyIn document name = document := by
  unfold dropEmptyIn
  split
  case h_1 inner hsection =>
    have hlookup := lookup_of_sectionOf hsection
    refine insert_eq_self _ ?_
    rw [withoutEmpty_eq_self (h inner.table hlookup), hlookup]
  case h_2 => rfl

theorem orEmpty_eq_self (h : document.table.lookup name = some value) :
    orEmpty document name = document := by
  unfold orEmpty
  rw [if_pos (by rw [h]; rfl)]

/-- What loading makes of a host. -/
structure Host.Loaded (lower : String → String) (host : Host) : Prop where
  id : host.id ≠ ""
  name : host.name ≠ "" ∧ trim host.name = host.name
  address : trim host.address = host.address
  group : host.group ≠ some ""
  port : host.port ≠ some 0
  tags : cleanTags lower host.tags = host.tags

/-- No text of a host is one that means "not set" to the editor, or that it trims; its unknown keys
are not those the editor adds. -/
structure Host.Steady (host : Host) : Prop where
  user : ∀ user ∈ host.user, user ≠ "" ∧ trim user = user
  identity : ∀ id ∈ host.identity, id ≠ "none" ∧ trim id = id
  identityFile : host.identityFile ≠ some ""
  jump : ∀ jump ∈ host.jump, ∀ hop ∈ jump, hop ≠ "" ∧ trim hop = hop
  profile : host.profile ≠ some ""
  ssh : NoEmpty (sshSection.table host.ssh)
  sftp : NoEmpty (sftpSection.table host.sftp)
  unknown : NoEmpty host.extra.table
  linked : host.extra.table.lookup "linked" = none
  inherited : host.extra.table.lookup "inherited" = none

/-- An identity as the editor shows it. -/
def shownIdentity (identity : Option String) : Option String :=
  identity.map fun id => if id = "" then "none" else id

theorem shownIdentity_ne : shownIdentity identity ≠ some "" := by
  cases identity with
  | none => exact nofun
  | some id =>
    simp only [shownIdentity, map_some, ne_eq, some.injEq]
    split
    · decide
    · assumption

theorem identityFromEditor_shown (h : ∀ id ∈ identity, id ≠ "none" ∧ trim id = id) :
    identityFromEditor (shownIdentity identity) = identity := by
  cases identity with
  | none => rfl
  | some id =>
    obtain ⟨hnone, htrim⟩ := h id rfl
    by_cases hempty : id = ""
    · subst hempty
      rfl
    · simp only [identityFromEditor, shownIdentity, map_some, if_neg hempty, if_neg hnone, htrim]

theorem lookup_identityToEditor
    (h : document.table.lookup "identity" = identity.map Form.text.write) (key : String) :
    (identityToEditor document).table.lookup key =
      if key = "identity" then (shownIdentity identity).map Form.text.write
      else document.table.lookup key := by
  rw [identityToEditor, h]
  cases identity with
  | none =>
    rw [map_none, if_neg (some_ne_none _).symm]
    split
    case isTrue hkey => rw [hkey, h]; rfl
    case isFalse => rfl
  | some id =>
    rw [map_some]
    by_cases hempty : id = ""
    · subst hempty
      exact lookup_insert document "identity" key (Form.text.wellFormed "none")
    · have hnot : ¬ some (Form.text.write id) = some (.string "") := fun heq =>
        hempty (by injection heq with heq; injection heq)
      rw [if_neg hnot]
      split
      case isTrue hkey =>
        rw [hkey, h, map_some, shownIdentity, map_some, if_neg hempty, map_some]
      case isFalse => rfl

theorem notEmpty_map {α : Type} {form : Form α} {x : Option α}
    (h : ∀ y ∈ x, (form.write y).asStr ≠ some "") : NotEmpty (x.map form.write) := by
  intro v hv
  obtain ⟨y, hy, rfl⟩ := map_eq_some_iff.mp hv
  exact h y hy

theorem notEmpty_port (port : Option (Fin 65536)) : NotEmpty (port.map portForm.write) :=
  notEmpty_map fun _ _ => nofun

theorem notEmpty_texts (texts : Option (List String)) : NotEmpty (texts.map Form.texts.write) :=
  notEmpty_map fun _ _ => nofun

theorem notEmpty_text {text : Option String} (h : text ≠ some "") :
    NotEmpty (text.map Form.text.write) :=
  notEmpty_map fun _ hy heq => h (hy.trans heq)

theorem notEmpty_some (h : v.asStr ≠ some "") : NotEmpty (some v) := by
  rintro v' ⟨⟩
  exact h

theorem notEmpty_ite {p : Prop} [Decidable p] (h : ¬ p → v.asStr ≠ some "") :
    NotEmpty (if p then none else some v) := by
  split
  case isTrue => exact fun _ hv => nomatch hv
  case isFalse hp => exact notEmpty_some (h hp)

theorem notEmpty_filled (text : String) : NotEmpty (filled text) :=
  notEmpty_ite fun hp heq => hp (some.inj heq)

theorem notEmpty_section [DecidableEq ρ] (part : Section ρ) (x : ρ) :
    NotEmpty (part.write x) := notEmpty_ite fun _ => nofun

theorem notEmpty_terminal (terminal : Document) : NotEmpty (terminalField terminal) :=
  notEmpty_ite fun _ => nofun

theorem notEmpty_protocol (protocol : Protocol) :
    (protocolForm.write protocol).asStr ≠ some "" := by
  cases protocol <;> decide

theorem noEmpty_table {ρ : Type} {part : Section ρ} {x : ρ}
    (h : ∀ field ∈ part.fields x, NotEmpty field.2) : NoEmpty (part.table x) := by
  rintro ⟨key, v⟩ hmem
  have hasc : Ascending (part.table x) := ascending_putAll _ ascending_nil
  have hlookup := (lookup_eq_some_iff_mem hasc.nodup).mpr hmem
  by_cases hkey : key ∈ part.keys
  · rw [part.lookup_table x hkey] at hlookup
    have hfield := join_eq_some_iff.mp hlookup
    obtain ⟨before, after, heq, -⟩ := lookup_eq_some_iff.mp hfield
    refine h (key, some v) ?_ v rfl
    rw [heq]
    exact mem_append_right _ mem_cons_self
  · rw [Section.table, putAll, lookup_writeAll, part.keys_fields, if_neg hkey] at hlookup
    cases hlookup

theorem noEmpty_serial (serial : SerialOptions) : NoEmpty (serialSection.table serial) := by
  refine noEmpty_table ?_
  simp only [serialSection, SerialOptions.fields, forall_mem_cons]
  refine ⟨notEmpty_map fun _ _ => nofun, notEmpty_map fun _ _ => nofun,
    notEmpty_map fun parity _ => ?_, notEmpty_map fun _ _ => nofun,
    notEmpty_map fun flow _ => ?_, notEmpty_map fun newline _ => ?_,
    notEmpty_map fun _ _ => nofun, forall_mem_nil _⟩
  · cases parity <;> decide
  · cases flow <;> decide
  · cases newline <;> decide

theorem noEmpty_section [DecidableEq ρ] {part : Section ρ} {x : ρ} {inner : Table}
    (hinner : part.write x = some (.table inner)) (h : NoEmpty (part.table x)) : NoEmpty inner := by
  unfold Section.write at hinner
  split at hinner
  case isTrue => cases hinner
  case isFalse =>
    cases hinner
    exact h

namespace Host

variable {lower : String → String} {host : Host}

/-- A host with its identity as the editor shows it. -/
def shown (host : Host) : Host := { host with identity := shownIdentity host.identity }

theorem notEmpty_fields (hloaded : host.Loaded lower) (hsteady : host.Steady) :
    ∀ key ∈ hostKeys, key ≠ "address" → NotEmpty ((host.shown.fields.lookup key).join) := by
  have hport : NotEmpty (host.port.map portForm.write) := notEmpty_port _
  have hjump : NotEmpty (host.jump.map Form.texts.write) := notEmpty_texts _
  have hicon : NotEmpty (if host.icon = "" ∨ host.icon = "auto" then none
      else some (Form.text.write host.icon)) :=
    notEmpty_ite fun hp heq => hp (.inl (some.inj heq))
  simp only [hostKeys, forall_mem_cons]
  exact ⟨fun _ => notEmpty_some fun heq => hloaded.id (some.inj heq),
    fun _ => notEmpty_some fun heq => hloaded.name.1 (some.inj heq),
    fun _ => notEmpty_text hloaded.group, fun _ => notEmpty_some (notEmpty_protocol _),
    fun h => absurd rfl h, fun _ => hport,
    fun _ => notEmpty_text fun heq => (hsteady.user "" heq).1 rfl,
    fun _ => notEmpty_text shownIdentity_ne, fun _ => notEmpty_text hsteady.identityFile, fun _ => hjump,
    fun _ => notEmpty_text hsteady.profile, fun _ => notEmpty_ite fun _ => nofun,
    fun _ => notEmpty_ite fun _ => nofun, fun _ => notEmpty_filled _, fun _ => hicon,
    fun _ => notEmpty_filled _, fun _ => notEmpty_section _ _, fun _ => notEmpty_section _ _,
    fun _ => notEmpty_section _ _, fun _ => notEmpty_section _ _, fun _ => notEmpty_section _ _,
    fun _ => notEmpty_section _ _, fun _ => notEmpty_section _ _,
    fun _ => notEmpty_terminal _, forall_mem_nil _⟩

theorem lookup_extra (host : Host) {key : String} (hkey : key ∉ hostKeys) :
    host.toDocument.table.lookup key = host.extra.table.lookup key := by
  change (putAll host.fields host.extra.table).lookup key = _
  rw [putAll, lookup_writeAll, if_neg (show key ∉ host.fields.map Prod.fst from hkey)]

theorem editedHost_eq (hsteady : host.Steady) (inherited : Document) :
    editedHost host inherited = host.shown.toDocument := by
  refine Document.ext_lookup fun key => ?_
  rw [editedHost, lookup_remove, lookup_remove, hostJson, lookup_insert, lookup_insert,
    lookup_insert]
  by_cases hinherited : key = "inherited"
  · subst hinherited
    rw [if_pos rfl, host.shown.lookup_extra (by decide)]
    exact hsteady.inherited.symm
  by_cases hlinked : key = "linked"
  · subst hlinked
    rw [if_neg hinherited, if_pos rfl, host.shown.lookup_extra (by decide)]
    exact hsteady.linked.symm
  rw [if_neg hinherited, if_neg hlinked, if_neg hinherited, if_neg hlinked]
  by_cases hprotocol : key = "protocol"
  · subst hprotocol
    rw [if_pos rfl, host.shown.lookup_toDocument _ (by decide)]
    rfl
  have hold : host.toDocument.table.lookup "identity" = host.identity.map Form.text.write :=
    host.lookup_toDocument _ (by decide)
  rw [if_neg hprotocol, lookup_identityToEditor hold]
  by_cases hkey : key ∈ hostKeys
  · rw [host.shown.lookup_toDocument _ hkey, host.lookup_toDocument _ hkey]
    split
    case isTrue hidentity =>
      rw [hidentity]
      rfl
    case isFalse hidentity =>
      simp only [hostKeys, mem_cons, not_mem_nil, or_false] at hkey
      rcases hkey with rfl | rfl | rfl | rfl | rfl | rfl | rfl | rfl | rfl | rfl | rfl | rfl |
        rfl | rfl | rfl | rfl | rfl | rfl | rfl | rfl | rfl | rfl | rfl | rfl <;>
        first
        | rfl
        | exact absurd rfl hidentity
  · have hidentity : key ≠ "identity" := fun heq => hkey (heq ▸ by decide)
    rw [if_neg hidentity, host.lookup_extra hkey, host.shown.lookup_extra hkey]
    rfl

/-- A host as it is read: no icon is the automatic one. -/
def withIcon (host : Host) : Host :=
  { host with icon := if host.icon = "" then "auto" else host.icon }

theorem tidied_shown (hloaded : host.Loaded lower) (hsteady : host.Steady) :
    host.shown.withIcon.tidied lower = host.withIcon := by
  have huser : ((host.user.map trim).filter fun user => user ≠ "") = host.user := by
    cases huser : host.user with
    | none => rfl
    | some user =>
      obtain ⟨hne, htrim⟩ := hsteady.user user huser
      rw [map_some, htrim]
      exact filter_some_pos (decide_eq_true hne)
  have hjump : (host.jump.map fun jump => (jump.map trim).filter fun hop => hop ≠ "") =
      host.jump := by
    cases hjump : host.jump with
    | none => rfl
    | some jump =>
      have hops := hsteady.jump jump hjump
      have hmap : jump.map trim = jump :=
        (map_congr_left fun hop hhop => (hops hop hhop).2).trans (map_id _)
      rw [map_some, hmap, List.filter_eq_self.mpr fun hop hhop => decide_eq_true (hops hop hhop).1]
  simp only [tidied, shown, withIcon, identityFromEditor_shown hsteady.identity, hloaded.name.2,
    hloaded.address, hloaded.tags, huser, hjump]
  rfl

/-- The object a steady host comes back as, once what means "not set" is dropped. -/
def keptObject (host : Host) : Document := withoutEmpty host.shown.toDocument

theorem lookup_keptObject (hloaded : host.Loaded lower) (hsteady : host.Steady) :
    ∀ key ∈ hostKeys, key ≠ "address" →
      host.keptObject.table.lookup key = (host.shown.fields.lookup key).join := by
  intro key hkey haddress
  have hnot := notEmpty_fields hloaded hsteady key hkey haddress
  rw [← host.shown.lookup_toDocument key hkey] at hnot ⊢
  exact lookup_dropEmpty_of host.shown.toDocument.ascending hnot

theorem address_keptObject (host : Host) :
    defaulted .text "" host.keptObject.table "address" = some host.address := by
  have hold : host.shown.toDocument.table.lookup "address" = some (.string host.address) :=
    host.shown.lookup_toDocument _ (by decide)
  have hlookup : host.keptObject.table.lookup "address" =
      (some (Value.string host.address)).filter fun v => v.asStr ≠ some "" := by
    rw [← hold]
    exact lookup_dropEmpty host.shown.toDocument.ascending _
  rw [defaulted, hlookup]
  by_cases hempty : host.address = ""
  · rw [filter_some_neg (by simpa [Value.asStr] using hempty), hempty]
  · rw [filter_some_pos (by simpa [Value.asStr] using hempty)]
    rfl

theorem extra_keptObject (hsteady : host.Steady) :
    Extra.of hostKeys host.keptObject = host.extra := by
  have hasc := host.extra.unknown.ascending
  refine Extra.ext (Ascending.ext (ascending_filter _ host.keptObject.ascending) hasc fun key => ?_)
  change (Records.unknown hostKeys host.keptObject.table).lookup key = _
  rw [Records.unknown, lookup_filter_key fun key => decide (key ∉ hostKeys)]
  by_cases hkey : key ∈ hostKeys
  · rw [if_neg (by simpa using hkey), host.extra.unknown.absent key hkey]
  · have hlookup : host.shown.toDocument.table.lookup key = host.extra.table.lookup key :=
      host.shown.lookup_extra hkey
    rw [if_pos (by simpa using hkey), ← hlookup]
    refine lookup_dropEmpty_of host.shown.toDocument.ascending fun v hv => ?_
    rw [hlookup] at hv
    exact hsteady.unknown (key, v) ((lookup_eq_some_iff_mem hasc.nodup).mp hv)

theorem sections_keptObject (hloaded : host.Loaded lower) (hsteady : host.Steady) :
    hostSections host.shown.toDocument = host.keptObject := by
  change dropEmptyIn (dropEmptyIn (dropEmptyIn host.keptObject "ssh") "sftp") "serial" = _
  have hlookup := lookup_keptObject hloaded hsteady
  have hssh := hlookup "ssh" (by decide) (by decide)
  have hsftp := hlookup "sftp" (by decide) (by decide)
  have hserial := hlookup "serial" (by decide) (by decide)
  rw [dropEmptyIn_eq_self "ssh", dropEmptyIn_eq_self "sftp", dropEmptyIn_eq_self "serial"]
  · exact fun inner hinner => noEmpty_section (hserial.symm.trans hinner)
      (noEmpty_serial host.serial)
  · exact fun inner hinner => noEmpty_section (hsftp.symm.trans hinner) hsteady.sftp
  · exact fun inner hinner => noEmpty_section (hssh.symm.trans hinner) hsteady.ssh

theorem badPort_keptObject (hloaded : host.Loaded lower) (hsteady : host.Steady) :
    badPort host.keptObject = false := by
  have hport : host.keptObject.table.lookup "port" = host.port.map portForm.write :=
    lookup_keptObject hloaded hsteady "port" (by decide) (by decide)
  rw [badPort, hport]
  cases h : host.port with
  | none => rfl
  | some port =>
    have hne : port.val ≠ 0 := fun heq => hloaded.port (h.trans (congrArg some (Fin.ext heq)))
    have hlt := port.isLt
    simp only [map_some, portForm, Form.number, Bool.not_eq_false', Bool.and_eq_true,
      decide_eq_true_eq]
    omega

theorem hostFromJson_edited (hloaded : host.Loaded lower) (hsteady : host.Steady)
    (inherited : Document) :
    hostFromJson lower (editedHost host inherited) = .ok host.withIcon := by
  have hlookup := lookup_keptObject hloaded hsteady
  have hid : host.keptObject.table.lookup "id" = some (Form.text.write host.id) :=
    hlookup "id" (by decide) (by decide)
  have hname : host.keptObject.table.lookup "name" = some (Form.text.write host.name) :=
    hlookup "name" (by decide) (by decide)
  have hread : read host.keptObject = some host.shown.withIcon :=
    read_eq hlookup host.address_keptObject (extra_keptObject hsteady)
  have hsections := sections_keptObject hloaded hsteady
  have hbad := badPort_keptObject hloaded hsteady
  have hport : withoutBadPort host.keptObject = host.keptObject :=
    if_neg (by rw [hbad]; exact Bool.false_ne_true)
  have hnamed : orEmpty (orEmpty host.keptObject "id") "name" = host.keptObject :=
    (congrArg (orEmpty · "name") (orEmpty_eq_self hid)).trans (orEmpty_eq_self hname)
  rw [editedHost_eq hsteady]
  unfold hostFromJson
  rw [hsections, hport, hnamed, hread]
  dsimp only
  rw [hbad, tidied_shown hloaded hsteady]
  rfl

end Host

/-- What loading makes of a group. -/
structure Group.Loaded (group : Group) : Prop where
  id : group.id ≠ ""
  name : group.name ≠ "" ∧ trim group.name = group.name
  parent : group.parent ≠ some ""

structure Group.Steady (group : Group) : Prop where
  user : group.defaults.user ≠ some ""
  identity : ∀ id ∈ group.defaults.identity, id ≠ "none" ∧ trim id = id
  identityFile : group.defaults.identityFile ≠ some ""
  profile : group.defaults.profile ≠ some ""
  ssh : NoEmpty (sshSection.table group.defaults.ssh)
  sftp : NoEmpty (sftpSection.table group.defaults.sftp)
  unknown : NoEmpty group.extra.table
  path : group.extra.table.lookup "path" = none
  inherited : group.extra.table.lookup "inherited" = none

/-- Defaults with their identity as the editor shows it. -/
def HostDefaults.shown (defaults : HostDefaults) : HostDefaults :=
  { defaults with identity := shownIdentity defaults.identity }

/-- The table of a level. -/
def HostDefaults.toDocument (defaults : HostDefaults) : Document where
  table := defaults.toTable
  wellFormed := wellFormed_putAll (defaultsSection.wellFormed defaults)
    (defaultsSection.unknown defaults)

theorem lookup_defaults (defaults : HostDefaults) (key : String) :
    defaults.toDocument.table.lookup key =
      if key ∈ defaultsSection.keys then (defaults.fields.lookup key).join else none := by
  change (putAll defaults.fields []).lookup key = _
  rw [putAll, lookup_writeAll]
  split
  case isTrue hkey =>
    rw [if_pos (show key ∈ defaultsSection.keys from hkey), lookup_nil, or_none]
  case isFalse hkey =>
    rw [if_neg (show key ∉ defaultsSection.keys from hkey), lookup_nil]

theorem identityToEditor_eq (defaults : HostDefaults) :
    identityToEditor defaults.toDocument = defaults.shown.toDocument := by
  have hidentity : defaults.toDocument.table.lookup "identity" =
      defaults.identity.map Form.text.write := lookup_defaults defaults "identity"
  refine Document.ext_lookup fun key => ?_
  rw [lookup_identityToEditor hidentity, lookup_defaults, lookup_defaults]
  split
  case isTrue hkey =>
    rw [hkey]
    rfl
  case isFalse hother =>
    split
    case isTrue hkey =>
      simp only [defaultsSection, mem_cons, not_mem_nil, or_false] at hkey
      rcases hkey with rfl | rfl | rfl | rfl | rfl | rfl | rfl | rfl | rfl <;>
        first
        | rfl
        | exact absurd rfl hother
    case isFalse => rfl

theorem identityToEditor_section (defaults : HostDefaults) (document : Document)
    (h : document.table.lookup "defaults" = defaultsSection.write defaults) :
    (match sectionOf document "defaults" with
      | some inner => document.insert "defaults" (.table (identityToEditor inner).table)
          (identityToEditor inner).wellFormed
      | none => document).table.lookup "defaults" = defaultsSection.write defaults.shown := by
  by_cases hempty : defaults = .empty
  · have hwrite : defaultsSection.write defaults = none := if_pos hempty
    cases hsection : sectionOf document "defaults" with
    | none =>
      rw [h, hwrite, hempty]
      exact (if_pos rfl).symm
    | some inner =>
      have hlookup := lookup_of_sectionOf hsection
      rw [h, hwrite] at hlookup
      cases hlookup
  · have hwrite : defaultsSection.write defaults = some (.table defaults.toDocument.table) :=
      if_neg hempty
    have hsection := sectionOf_of_lookup (h.trans hwrite)
    have hshown : defaults.shown ≠ .empty := by
      intro heq
      refine hempty ?_
      have hidentity : shownIdentity defaults.identity = none := congrArg HostDefaults.identity heq
      have hnone : defaults.identity = none := map_eq_none_iff.mp hidentity
      have hsame : defaults.shown = defaults := by
        rw [HostDefaults.shown, hnone]
        exact congrArg (fun identity => { defaults with identity }) hnone.symm
      rw [← hsame, heq]
    have hshownWrite : defaultsSection.write defaults.shown =
        some (.table defaults.shown.toDocument.table) := if_neg hshown
    rw [hsection, hshownWrite]
    dsimp only
    rw [lookup_insert, if_pos rfl, identityToEditor_eq]

namespace Group

variable {group : Group}

def shown (group : Group) : Group := { group with defaults := group.defaults.shown }

theorem lookup_toDocument (group : Group) {key : String} (hkey : key ∈ groupKeys) :
    group.toDocument.table.lookup key = (group.fields.lookup key).join :=
  @lookup_putAll group.fields _ group.extra.unknown key hkey

theorem lookup_extra (group : Group) {key : String} (hkey : key ∉ groupKeys) :
    group.toDocument.table.lookup key = group.extra.table.lookup key := by
  change (putAll group.fields group.extra.table).lookup key = _
  rw [putAll, lookup_writeAll, if_neg (show key ∉ group.fields.map Prod.fst from hkey)]

theorem editedGroup_eq (hsteady : group.Steady) (path : String) (inherited : Document) :
    editedGroup group path inherited = group.shown.toDocument := by
  have hdefaults := identityToEditor_section group.defaults group.toDocument
    (group.lookup_toDocument (by decide))
  have hothers : ∀ key, key ≠ "defaults" →
      (match sectionOf group.toDocument "defaults" with
        | some inner => group.toDocument.insert "defaults"
            (.table (identityToEditor inner).table) (identityToEditor inner).wellFormed
        | none => group.toDocument).table.lookup key = group.toDocument.table.lookup key := by
    intro key hkey
    split
    · rw [lookup_insert, if_neg hkey]
    · rfl
  refine Document.ext_lookup fun key => ?_
  unfold editedGroup groupJson
  rw [lookup_remove, lookup_remove, lookup_insert, lookup_insert]
  by_cases hinherited : key = "inherited"
  · subst hinherited
    rw [if_pos rfl, group.shown.lookup_extra (by decide)]
    exact hsteady.inherited.symm
  by_cases hpath : key = "path"
  · subst hpath
    rw [if_neg hinherited, if_pos rfl, group.shown.lookup_extra (by decide)]
    exact hsteady.path.symm
  rw [if_neg hinherited, if_neg hpath, if_neg hinherited, if_neg hpath]
  by_cases hkey : key = "defaults"
  · subst hkey
    rw [group.shown.lookup_toDocument (by decide)]
    exact hdefaults
  rw [hothers key hkey]
  by_cases hknown : key ∈ groupKeys
  · rw [group.lookup_toDocument hknown, group.shown.lookup_toDocument hknown]
    simp only [groupKeys, mem_cons, not_mem_nil, or_false] at hknown
    rcases hknown with rfl | rfl | rfl | rfl | rfl | rfl <;>
      first
      | rfl
      | exact absurd rfl hkey
  · rw [group.lookup_extra hknown, group.shown.lookup_extra hknown]
    rfl

theorem noEmpty_toDocument (hloaded : group.Loaded) (hsteady : group.Steady) :
    NoEmpty group.shown.toDocument.table := by
  rintro ⟨key, v⟩ hmem
  have hlookup := (lookup_eq_some_iff_mem group.shown.toDocument.ascending.nodup).mpr hmem
  by_cases hkey : key ∈ groupKeys
  · rw [group.shown.lookup_toDocument hkey] at hlookup
    have hnot : ∀ key ∈ groupKeys, NotEmpty ((group.shown.fields.lookup key).join) := by
      simp only [groupKeys, forall_mem_cons]
      exact ⟨notEmpty_some fun heq => hloaded.id (some.inj heq),
        notEmpty_some fun heq => hloaded.name.1 (some.inj heq),
        notEmpty_text hloaded.parent, notEmpty_filled _, notEmpty_filled _,
        notEmpty_section _ _, forall_mem_nil _⟩
    exact hnot key hkey v hlookup
  · rw [group.shown.lookup_extra hkey] at hlookup
    have hasc := group.extra.unknown.ascending
    exact hsteady.unknown (key, v) ((lookup_eq_some_iff_mem hasc.nodup).mp hlookup)

theorem noEmpty_defaults (hsteady : group.Steady) :
    NoEmpty group.defaults.shown.toDocument.table := by
  refine @noEmpty_table _ defaultsSection group.defaults.shown ?_
  simp only [defaultsSection, HostDefaults.fields, forall_mem_cons]
  exact ⟨notEmpty_text hsteady.user, notEmpty_port _, notEmpty_texts _,
    notEmpty_text shownIdentity_ne, notEmpty_text hsteady.identityFile,
    notEmpty_text hsteady.profile, notEmpty_section _ _, notEmpty_section _ _,
    notEmpty_terminal _, forall_mem_nil _⟩

theorem defaultsFromEditor_eq (hsteady : group.Steady) :
    defaultsFromEditor group.defaults.shown.toDocument =
      (withoutBadPort group.defaults.shown.toDocument,
        badPort group.defaults.shown.toDocument) := by
  have hssh : group.defaults.shown.toDocument.table.lookup "ssh" =
      sshSection.write group.defaults.ssh := lookup_defaults _ "ssh"
  have hsftp : group.defaults.shown.toDocument.table.lookup "sftp" =
      sftpSection.write group.defaults.sftp := lookup_defaults _ "sftp"
  unfold defaultsFromEditor
  rw [withoutEmpty_eq_self (noEmpty_defaults hsteady), dropEmptyIn_eq_self "ssh",
    dropEmptyIn_eq_self "sftp"]
  · exact fun inner hinner => noEmpty_section (hsftp.symm.trans hinner) hsteady.sftp
  · exact fun inner hinner => noEmpty_section (hssh.symm.trans hinner) hsteady.ssh

theorem tidied_shown (hloaded : group.Loaded) (hsteady : group.Steady) :
    group.shown.tidied = group := by
  simp only [tidied, shown, HostDefaults.shown, identityFromEditor_shown hsteady.identity,
    hloaded.name.2]

theorem groupSections_shown (hloaded : group.Loaded) (hsteady : group.Steady) :
    (groupSections group.shown.toDocument).2 = true ∨
      groupSections group.shown.toDocument = (group.shown.toDocument, false) := by
  have hid : group.shown.toDocument.table.lookup "id" = some (Form.text.write group.id) :=
    group.shown.lookup_toDocument (by decide)
  have hname : group.shown.toDocument.table.lookup "name" = some (Form.text.write group.name) :=
    group.shown.lookup_toDocument (by decide)
  have hnamed : orEmpty (orEmpty (withoutEmpty group.shown.toDocument) "id") "name" =
      group.shown.toDocument := by
    rw [withoutEmpty_eq_self (noEmpty_toDocument hloaded hsteady)]
    exact (congrArg (orEmpty · "name") (orEmpty_eq_self hid)).trans (orEmpty_eq_self hname)
  have hdefaults : group.shown.toDocument.table.lookup "defaults" =
      defaultsSection.write group.defaults.shown := group.shown.lookup_toDocument (by decide)
  unfold groupSections
  rw [hnamed]
  dsimp only
  split
  case h_1 inner hsection =>
    have hinner : inner = group.defaults.shown.toDocument := by
      have hlookup := lookup_of_sectionOf hsection
      rw [hdefaults, Section.write] at hlookup
      split at hlookup
      case isTrue => cases hlookup
      case isFalse =>
        refine Document.ext_table ?_
        injection hlookup with htable
        injection htable with htable
        exact htable.symm
    subst hinner
    rw [defaultsFromEditor_eq hsteady]
    cases hbad : badPort group.defaults.shown.toDocument with
    | true => exact .inl rfl
    | false =>
      have hport : withoutBadPort group.defaults.shown.toDocument =
          group.defaults.shown.toDocument := if_neg (by rw [hbad]; exact Bool.false_ne_true)
      have hlookup : group.shown.toDocument.table.lookup "defaults" =
          some (.table (withoutBadPort group.defaults.shown.toDocument).table) := by
        rw [hport]
        exact lookup_of_sectionOf hsection
      exact .inr (Prod.ext (insert_eq_self (withoutBadPort _).wellFormed hlookup) rfl)
  case h_2 => exact .inr rfl

theorem groupFromJson_edited (hloaded : group.Loaded) (hsteady : group.Steady) (path : String)
    (inherited : Document) :
    groupFromJson (editedGroup group path inherited) = .ok group ∨
      ∃ problems, groupFromJson (editedGroup group path inherited) = .error problems := by
  rw [editedGroup_eq hsteady]
  unfold groupFromJson
  rcases groupSections_shown hloaded hsteady with hbad | hsame
  · rw [hbad]
    split
    · exact .inr ⟨_, rfl⟩
    · exact .inr ⟨_, rfl⟩
  · rw [hsame, read_toDocument group.shown]
    exact .inl (congrArg Except.ok (tidied_shown hloaded hsteady))

end Group

variable {α : Type} {test : α → Bool} {items : List α} {first : α} {key : String}

theorem changeFirst_forall₂ {change : α → α} {R : α → α → Prop} (hrefl : ∀ x, R x x)
    (hfirst : items.find? test = some first) (hchange : R first (change first)) :
    List.Forall₂ R items (changeFirst test change items) := by
  induction items with
  | nil => cases hfirst
  | cons head rest ih =>
    rw [changeFirst]
    rw [List.find?_cons] at hfirst
    cases htest : test head with
    | true =>
      rw [htest] at hfirst
      obtain rfl := some.inj hfirst
      rw [if_pos rfl]
      exact .cons hchange (forall₂_same.mpr fun x _ => hrefl x)
    | false =>
      rw [htest] at hfirst
      rw [if_neg Bool.false_ne_true]
      exact .cons (hrefl head) (ih hfirst)

theorem changeFirst_eq_self {change : α → α} (hfirst : items.find? test = some first)
    (hchange : change first = first) : changeFirst test change items = items := by
  have hboth := changeFirst_forall₂ (R := Eq) (fun _ => rfl) hfirst hchange.symm
  exact (forall₂_eq_eq_eq ▸ hboth).symm

/-- Hosts and groups are still there, with their unknown keys, terminal options and tags, and every
host resolves to the same values. -/
structure Undisturbed (file after : HostsFile) : Prop where
  hosts : List.Forall₂ (fun host next : Host =>
    next.id = host.id ∧ next.extra = host.extra ∧ next.terminal = host.terminal ∧
      next.tags = host.tags ∧
      ∀ key ∈ inheritedKeys, (after.resolve next).lookup key = (file.resolve host).lookup key)
    file.hosts after.hosts
  groups : List.Forall₂ (fun group next : Group =>
    next.id = group.id ∧ next.extra = group.extra ∧
      next.defaults.terminal = group.defaults.terminal)
    file.groups after.groups

theorem Undisturbed.refl (file : HostsFile) : Undisturbed file file :=
  ⟨forall₂_same.mpr fun _ _ => ⟨rfl, rfl, rfl, rfl, fun _ _ => rfl⟩,
    forall₂_same.mpr fun _ _ => ⟨rfl, rfl, rfl⟩⟩

theorem groupChainFrom_hosts (file : HostsFile) (hosts : List Host) (steps : Nat)
    (chain : List Group) (group : Option Group) :
    HostsFile.groupChainFrom { file with hosts } steps chain group =
      file.groupChainFrom steps chain group := by
  induction steps generalizing chain group with
  | zero => rfl
  | succ steps ih =>
    cases group with
    | none => rfl
    | some group =>
      rw [HostsFile.groupChainFrom, HostsFile.groupChainFrom]
      split
      · rfl
      · exact ih _ _

theorem resolve_withIcon (file : HostsFile) (hosts : List Host) (host : Host)
    (hkey : key ∈ inheritedKeys) :
    (HostsFile.resolve { file with hosts } host.withIcon).lookup key =
      (file.resolve host).lookup key := by
  have hchain : HostsFile.groupChain { file with hosts } host.group = file.groupChain host.group :=
    groupChainFrom_hosts file hosts _ _ _
  rw [resolve_eq_nearest _ hkey, resolve_eq_nearest _ hkey]
  refine congrArg some ?_
  change HostsFile.nearest { file with hosts } host key = file.nearest host key
  unfold HostsFile.nearest
  rw [hchain]

theorem resolve_hosts (file : HostsFile) (hosts : List Host) (host : Host)
    (hkey : key ∈ inheritedKeys) :
    (HostsFile.resolve { file with hosts } host).lookup key = (file.resolve host).lookup key := by
  have hchain : HostsFile.groupChain { file with hosts } host.group = file.groupChain host.group :=
    groupChainFrom_hosts file hosts _ _ _
  rw [resolve_eq_nearest _ hkey, resolve_eq_nearest _ hkey]
  refine congrArg some ?_
  unfold HostsFile.nearest
  rw [hchain]

variable {lower : String → String} {file : HostsFile}

theorem saveHost_undisturbed {host : Host} (hfound : file.host host.id = some host)
    (hloaded : host.Loaded lower) (hsteady : host.Steady) (newId : String) (inherited : Document) :
    Undisturbed file (file.saveHost lower newId (editedHost host inherited)) := by
  unfold HostsFile.saveHost
  rw [Host.hostFromJson_edited hloaded hsteady]
  dsimp only
  split
  case isTrue => exact .refl file
  case isFalse =>
    rw [if_neg (show host.withIcon.id ≠ "" from hloaded.id)]
    split
    case isTrue => exact .refl file
    case isFalse =>
      have hfirst : file.hosts.find? (fun existing => existing.id = host.id) = some host := by
        rw [HostsFile.host] at hfound
        exact hfound
      have hany : (file.hosts.any fun existing => existing.id = host.withIcon.id) = true :=
        any_eq_true.mpr ⟨host, mem_of_find?_eq_some hfirst, decide_eq_true rfl⟩
      unfold HostsFile.putHost
      rw [if_pos hany]
      refine ⟨?_, forall₂_same.mpr fun _ _ => ⟨rfl, rfl, rfl⟩⟩
      refine changeFirst_forall₂ (fun other => ⟨rfl, rfl, rfl, rfl, fun key hkey =>
        resolve_hosts file _ other hkey⟩) hfirst ?_
      have hsame : (if host.withIcon.extra.table.isEmpty then
          { host.withIcon with extra := host.extra } else host.withIcon) = host.withIcon :=
        ite_self _
      rw [hsame]
      exact ⟨rfl, rfl, rfl, rfl, fun key hkey => resolve_withIcon file _ host hkey⟩

theorem saveGroup_same {group : Group} (hfound : file.group group.id = some group)
    (hloaded : group.Loaded) (hsteady : group.Steady) (newId path : String) (inherited : Document) :
    file.saveGroup newId (editedGroup group path inherited) = file := by
  unfold HostsFile.saveGroup
  rcases Group.groupFromJson_edited hloaded hsteady path inherited with hok | ⟨problems, hbad⟩
  · rw [hok]
    dsimp only
    split
    case isTrue => rfl
    case isFalse =>
      have hfirst : file.groups.find? (fun existing => existing.id = group.id) = some group := by
        rw [HostsFile.group] at hfound
        exact hfound
      have hany : (file.groups.any fun existing => existing.id = group.id) = true :=
        any_eq_true.mpr ⟨group, mem_of_find?_eq_some hfirst, decide_eq_true rfl⟩
      have hsame : (if group.extra.table.isEmpty then { group with extra := group.extra }
          else group) = group := ite_self _
      rw [if_neg hloaded.id]
      unfold HostsFile.putGroup
      have hgroups : changeFirst (fun existing => existing.id = group.id)
          (fun existing => if group.extra.table.isEmpty then { group with extra := existing.extra }
            else group) file.groups = file.groups := changeFirst_eq_self hfirst hsame
      rw [if_pos hany, hgroups]
  · rw [hbad]

/-- Sending a host or a group back to the library as the editor got it changes nothing, where none
of its texts is one that the editor reads as "not set" or trims. -/
theorem editor_changes_nothing (lower : String → String) (file : HostsFile) (newId : String)
    (inherited : Document) :
    (∀ host : Host, file.host host.id = some host → host.Loaded lower → host.Steady →
      Undisturbed file (file.saveHost lower newId (editedHost host inherited))) ∧
    ∀ (group : Group) (path : String), file.group group.id = some group → group.Loaded →
      group.Steady → Undisturbed file (file.saveGroup newId (editedGroup group path inherited)) := by
  refine ⟨fun host hfound hloaded hsteady =>
    saveHost_undisturbed hfound hloaded hsteady newId inherited, ?_⟩
  intro group path hfound hloaded hsteady
  rw [saveGroup_same hfound hloaded hsteady]
  exact .refl file

namespace EditorWitness

open ResolveWitness (bare team)

/-- A host of the group that logs in as root, with no user of its own. -/
def unnamed : Host := { bare with group := some "team", user := some "" }

def library : HostsFile := ⟨[team], [unnamed], .empty⟩

theorem unnamed_loaded : unnamed.Loaded id := by
  constructor <;> decide +kernel

theorem saved_unnamed : library.saveHost id "new" (editedHost unnamed .empty) =
    { library with hosts := [{ unnamed with user := none }] } := by
  rfl

/-- A host whose empty user stands for none gets the user of its group. -/
theorem becomes_root : unnamed.Loaded id ∧ library.host unnamed.id = some unnamed ∧
    ¬ Undisturbed library (library.saveHost id "new" (editedHost unnamed .empty)) := by
  refine ⟨unnamed_loaded, rfl, fun h => ?_⟩
  have hhosts := h.hosts
  rw [saved_unnamed] at hhosts
  obtain ⟨hsame, -⟩ := List.forall₂_cons.mp hhosts
  have huser := congrArg (Option.bind · Resolved.value)
    (hsame.2.2.2.2 "user" (show "user" ∈ inheritedKeys by decide))
  rw [resolve_eq_nearest _ (by decide), resolve_eq_nearest _ (by decide)] at huser
  have hroot : some (Value.string "root") = some (Value.string "") := huser
  injection hroot with hroot
  injection hroot with hroot
  exact absurd hroot (by decide)

/-- A group with defaults, and a key of a later version. -/
def crew : Group :=
  { team with
    defaults :=
      { team.defaults with
        identity := some "ops"
        ssh := { SshOptions.empty with keepaliveSecs := some 20, proxy := some "socks5://gate" } }
    extra := ⟨[("badge", .string "red")], by decide, by decide⟩ }

/-- A host of the group with values of its own over the group's. -/
def guest : Host :=
  { bare with
    group := some "team"
    user := some "eve"
    identity := some "work"
    jump := some ["gate", "me@hop:2222"]
    tags := ["lab", "prod"]
    ssh := { SshOptions.empty with agentForwarding := some true, proxyCommand := some "nc %h %p" }
    terminal := ⟨[("term", .string "xterm")], by decide⟩
    extra := ⟨[("rack", .table [("row", .integer 4)])], by decide, by decide⟩ }

def shared : HostsFile := ⟨[crew], [guest], .empty⟩

theorem shared_kept : (guest.Loaded id ∧ guest.Steady) ∧ crew.Loaded ∧ crew.Steady := by
  refine ⟨⟨?_, ?_⟩, ?_, ?_⟩ <;> constructor <;> (try unfold NoEmpty) <;> decide +kernel

/-- What the group gives, as the editor shows it beside the host's own values. -/
def given : Document := ⟨[("port", .integer 22), ("user", .string "root")], by decide⟩

theorem guest_undisturbed :
    Undisturbed shared (shared.saveHost id "new" (editedHost guest given)) ∧
      Undisturbed shared (shared.saveGroup "new" (editedGroup crew "Team" given)) :=
  have hnothing := editor_changes_nothing id shared "new" given
  ⟨hnothing.1 guest rfl shared_kept.1.1 shared_kept.1.2,
    hnothing.2 crew "Team" rfl shared_kept.2.1 shared_kept.2.2⟩

end EditorWitness

end Opensesh.Saved
