/-
`tunnels.toml`: how a tunnel is written and read, and which tunnels read back as they were
written.
-/
import Opensesh.HostsTidy
import Opensesh.RecordFile
import Opensesh.Tunnels

namespace Opensesh.Tunnels

open List
open Records

def Kind.asStr : Kind → String
  | .localPort => "local"
  | .remote => "remote"
  | .dynamic => "dynamic"

def Kind.parse (text : String) : Option Kind :=
  if text = "local" then some .localPort
  else if text = "remote" then some .remote
  else if text = "dynamic" then some .dynamic
  else none

def place (index : Nat) (name : String) : String :=
  "tunnel[" ++ toString index ++ "]" ++ if name = "" then "" else "." ++ name

/-- A text, trimmed; nothing when it is too long. -/
def readText (key : String) : Option Value → String × List Warning
  | none => ("", [])
  | some (.string value) =>
    if value.utf8ByteSize ≤ maxText then (trim value, []) else ("", [⟨key, "too long; ignored"⟩])
  | some other => ("", [⟨key, "expected a string, found " ++ typeStr other⟩])

def readPort (key : String) : Option Value → UInt16 × List Warning
  | none => (0, [])
  | some (.integer value) =>
    if 0 ≤ value ∧ value < 65536 then (UInt16.ofNat value.toNat, [])
    else (0, [⟨key, "must be 0 to 65535; ignored"⟩])
  | some other => (0, [⟨key, "expected a number, found " ++ typeStr other⟩])

def readFlag (key : String) (fallback : Bool) : Option Value → Bool × List Warning
  | none => (fallback, [])
  | some (.boolean value) => (value, [])
  | some other => (fallback, [⟨key, "expected true or false, found " ++ typeStr other⟩])

namespace Tunnel

/-- The keys of a tunnel. -/
def keys : List String :=
  ["id", "name", "kind", "host", "target", "bind_address", "bind_port", "destination_host",
    "destination_port", "tied", "autostart", "reconnect"]

/-- The fields that come after the id and the kind. -/
def readFields (table : Table) (index : Nat) (id : String) (kind : Kind) : Tunnel × List Warning :=
  let text name := readText (place index name) (table.lookup name)
  let port name := readPort (place index name) (table.lookup name)
  let flag name fallback := readFlag (place index name) fallback (table.lookup name)
  let bindAddress :=
    if (table.lookup "bind_address").isSome then text "bind_address" else ("127.0.0.1", [])
  ({ id
     name := (text "name").1
     kind
     host := (text "host").1
     target := (text "target").1
     bindAddress := bindAddress.1
     bindPort := (port "bind_port").1
     destinationHost := (text "destination_host").1
     destinationPort := (port "destination_port").1
     tied := (flag "tied" false).1
     autostart := (flag "autostart" false).1
     reconnect := (flag "reconnect" true).1
     extra := unknown keys table },
    (text "name").2 ++ (text "host").2 ++ (text "target").2 ++ bindAddress.2 ++
      (port "bind_port").2 ++ (text "destination_host").2 ++ (port "destination_port").2 ++
      (flag "tied" false).2 ++ (flag "autostart" false).2 ++ (flag "reconnect" true).2)

/-- The tunnel of a table, unless it can't be used. -/
def fromTable (table : Table) (index : Nat) : Option Tunnel × List Warning :=
  let (id, idWarnings) := readText (place index "id") (table.lookup "id")
  if id = "" ∨ id.toList.any isControl then
    (none, idWarnings ++ [⟨place index "id", "missing or not valid; the tunnel is skipped"⟩])
  else
    let (kindText, kindWarnings) := readText (place index "kind") (table.lookup "kind")
    match Kind.parse kindText with
    | none => (none, idWarnings ++ kindWarnings ++
        [⟨place index "kind", "expected local, remote or dynamic; the tunnel is skipped"⟩])
    | some kind =>
      let (tunnel, warnings) := readFields table index id kind
      match tunnel.problem with
      | some problem => (none, idWarnings ++ kindWarnings ++ warnings ++
          [⟨place index "", problem ++ "; the tunnel is skipped"⟩])
      | none => (some tunnel, idWarnings ++ kindWarnings ++ warnings)

/-- A text that is left out when it is empty. -/
def filled (text : String) : Option Value := if text = "" then none else some (.string text)

/-- What a tunnel writes. -/
def fields (tunnel : Tunnel) : List (String × Option Value) :=
  [("id", some (.string tunnel.id)),
    ("name", filled tunnel.name),
    ("kind", some (.string tunnel.kind.asStr)),
    ("host", filled tunnel.host),
    ("target", filled tunnel.target),
    ("bind_address", some (.string tunnel.bindAddress)),
    ("bind_port", some (.integer tunnel.bindPort.toNat)),
    ("destination_host",
      if tunnel.kind ≠ .dynamic then some (.string tunnel.destinationHost) else none),
    ("destination_port",
      if tunnel.kind ≠ .dynamic then some (.integer tunnel.destinationPort.toNat) else none),
    ("tied", some (.boolean tunnel.tied)),
    ("autostart", some (.boolean tunnel.autostart)),
    ("reconnect", some (.boolean tunnel.reconnect))]

/-- A tunnel's table: the unknown keys it was read with, and its own. -/
def toTable (tunnel : Tunnel) : Table := putAll tunnel.fields tunnel.extra

end Tunnel

/-- The tunnels of the file. -/
def records : Records.Kind Tunnel where
  name := "tunnel"
  id := Tunnel.id
  fromTable := Tunnel.fromTable
  toTable := Tunnel.toTable
  notTable value := "expected a table, found " ++ typeStr value

theorem records_fromTable : records.fromTable = Tunnel.fromTable := by
  simp only [records]

theorem records_toTable : records.toTable = Tunnel.toTable := by
  simp only [records]

def tunnelsFile : String := "tunnels.toml"

namespace TunnelsFile

variable {τ : Type} (format : TextFormat τ)

/-- Reads a file's text; tunnels that can't be used are skipped with a warning. -/
def fromTomlStr (text : τ) : TunnelsFile × List Warning :=
  match format.parse text with
  | .error error =>
    ({ tunnels := [], readOnly := true, distinct := List.nodup_nil },
      [⟨tunnelsFile, "not valid TOML: " ++ error⟩])
  | .ok root =>
    ({ tunnels := (records.load root).1
       extra := records.others root
       readOnly := schemaVersion < version root
       distinct := records.load_nodup root },
      (records.load root).2)

/-- The file's text. -/
def toTomlString (file : TunnelsFile) : τ := format.print (records.toRoot file.tunnels file.extra)

end TunnelsFile

namespace Tunnel

/-- Texts no longer than what is kept of a text. -/
def Short (text : String) : Prop := text.utf8ByteSize ≤ maxText

instance (text : String) : Decidable (Short text) := inferInstanceAs (Decidable (_ ≤ _))

/-- The same tunnel: every field its kind uses, the name trimmed. -/
structure Same (tunnel found : Tunnel) : Prop where
  id : found.id = tunnel.id
  name : found.name = trim tunnel.name
  kind : found.kind = tunnel.kind
  host : found.host = tunnel.host
  target : found.target = tunnel.target
  bindAddress : found.bindAddress = tunnel.bindAddress
  bindPort : found.bindPort = tunnel.bindPort
  destinationHost : tunnel.kind ≠ .dynamic → found.destinationHost = tunnel.destinationHost
  destinationPort : tunnel.kind ≠ .dynamic → found.destinationPort = tunnel.destinationPort
  tied : found.tied = tunnel.tied
  autostart : found.autostart = tunnel.autostart
  reconnect : found.reconnect = tunnel.reconnect
  extra : found.extra = tunnel.extra

/-- What a tunnel's texts have to be like to be read back. -/
structure Fits (tunnel : Tunnel) : Prop where
  id : Short tunnel.id
  name : Short tunnel.name
  host : Short tunnel.host ∧ trim tunnel.host = tunnel.host
  target : Short tunnel.target ∧ trim tunnel.target = tunnel.target

variable {tunnel : Tunnel}

theorem unknown_fields (hunknown : Unknown keys tunnel.extra) :
    Unknown (tunnel.fields.map Prod.fst) tunnel.extra := hunknown

theorem lookup_toTable (hunknown : Unknown keys tunnel.extra) {key : String}
    (hkey : key ∈ keys) : tunnel.toTable.lookup key = (tunnel.fields.lookup key).join :=
  lookup_putAll (unknown_fields hunknown) hkey

theorem unknown_toTable (hunknown : Unknown keys tunnel.extra) :
    unknown keys tunnel.toTable = tunnel.extra :=
  unknown_putAll (unknown_fields hunknown)

theorem wellFormed_toTable (hunknown : Unknown keys tunnel.extra) :
    (Value.table tunnel.toTable).wellFormed = true := by
  refine wellFormed_putAll ?_ (unknown_fields hunknown)
  have hstring : ∀ text, wellFormedOpt (some (.string text)) := fun _ =>
    (wellFormedOpt_some _).mpr rfl
  have hinteger : ∀ value, wellFormedOpt (some (.integer value)) := fun _ =>
    (wellFormedOpt_some _).mpr rfl
  have hboolean : ∀ value, wellFormedOpt (some (.boolean value)) := fun _ =>
    (wellFormedOpt_some _).mpr rfl
  have hfilled : ∀ text, wellFormedOpt (filled text) := fun text =>
    wellFormedOpt_ite wellFormedOpt_none (hstring text)
  simp only [fields, forall_mem_cons]
  exact ⟨hstring _, hfilled _, hstring _, hfilled _, hfilled _, hstring _, hinteger _,
    wellFormedOpt_ite (hstring _) wellFormedOpt_none,
    wellFormedOpt_ite (hinteger _) wellFormedOpt_none, hboolean _, hboolean _, hboolean _,
    fun _ hmem => absurd hmem not_mem_nil⟩

end Tunnel

theorem readText_filled (key text : String) :
    readText key (Tunnel.filled text) = readText key (some (.string text)) := by
  unfold Tunnel.filled
  split
  case isTrue hempty =>
    subst hempty
    rfl
  case isFalse => rfl

namespace Tunnel

variable {tunnel : Tunnel}

/-- A text of a written tunnel, as it is read. -/
def textBack (index : Nat) (name text : String) : String × List Warning :=
  readText (place index name) (some (.string text))

theorem textBack_eq {text : String} (h : Short text) (index : Nat) (name : String) :
    textBack index name text = (trim text, []) := if_pos h

theorem textBack_warnings (index : Nat) (name text : String) :
    (textBack index name text).2 = [] ↔ Short text := by
  unfold textBack readText
  split
  case h_1 h => cases h
  case h_2 value h =>
    cases h
    split
    case isTrue hshort => exact ⟨fun _ => hshort, fun _ => rfl⟩
    case isFalse hlong => exact ⟨fun h => absurd h (cons_ne_nil _ _), fun h => absurd h hlong⟩
  case h_3 other hother h => cases h; exact absurd rfl (hother text)

theorem readPort_toNat (key : String) (port : UInt16) :
    readPort key (some (.integer port.toNat)) = (port, []) := by
  have hlt : port.toNat < 65536 := port.toNat_lt
  rw [readPort, if_pos ⟨Int.natCast_nonneg _, by omega⟩, Int.toNat_natCast, UInt16.ofNat_toNat]

/-- What `problem` wants of a tunnel. -/
structure Usable (tunnel : Tunnel) : Prop where
  route : ¬ (isBlank tunnel.host && isBlank tunnel.target) = true
  tied : ¬ (tunnel.tied && isBlank tunnel.host) = true
  bindAddress : validAddress tunnel.bindAddress = true
  destinationHost : tunnel.kind ≠ .dynamic →
    isBlank tunnel.destinationHost = false ∧ validAddress tunnel.destinationHost = true
  destinationPort : tunnel.kind ≠ .dynamic → tunnel.destinationPort ≠ 0
  name : tunnel.name.length ≤ maxText ∧ tunnel.name.toList.any isControl = false

theorem problem_eq_none_iff : tunnel.problem = none ↔ Usable tunnel := by
  unfold problem
  simp only [ite_some_eq_none]
  constructor
  · rintro ⟨hroute, htied, hbind, hhost, hport, hname, -⟩
    refine ⟨hroute, htied, by simpa using hbind, fun hkind => ?_, fun hkind => ?_, ?_⟩
    · simpa [hkind] using hhost
    · simpa [hkind] using hport
    · simpa using hname
  · intro h
    refine ⟨h.route, h.tied, by simpa using h.bindAddress, ?_, ?_, ?_, trivial⟩
    · by_cases hkind : tunnel.kind = .dynamic
      · simp [hkind]
      · simp [hkind, h.destinationHost hkind]
    · by_cases hkind : tunnel.kind = .dynamic
      · simp [hkind]
      · simp [hkind, h.destinationPort hkind]
    · simpa using h.name

theorem readText_address (key : String) {address : String} (h : validAddress address = true) :
    readText key (some (.string address)) = (address, []) := by
  have hparts : Short address ∧ ∀ c ∈ address.toList, ¬ isWhitespace c = true := by
    simp only [validAddress, Bool.and_eq_true, decide_eq_true_eq, Bool.not_eq_true',
      any_eq_false, Bool.or_eq_true, not_or] at h
    exact ⟨h.1, fun c hc => (h.2 c hc).1⟩
  have htrim : trim address = address := by
    rw [trim_eq, Text.trim_eq_self, String.ofList_toList]
    · intro c hc
      exact Bool.eq_false_iff.mpr (hparts.2 c (mem_of_mem_head? hc))
    · intro c hc
      exact Bool.eq_false_iff.mpr (hparts.2 c (mem_of_getLast? hc))
  rw [readText, if_pos (show _ ≤ _ from hparts.1), htrim]

/-- A written tunnel, as it is read. -/
def back (tunnel : Tunnel) (index : Nat) : Tunnel :=
  { tunnel with
    name := (textBack index "name" tunnel.name).1
    host := (textBack index "host" tunnel.host).1
    target := (textBack index "target" tunnel.target).1
    destinationHost := if tunnel.kind ≠ .dynamic then tunnel.destinationHost else ""
    destinationPort := if tunnel.kind ≠ .dynamic then tunnel.destinationPort else 0 }

def backWarnings (tunnel : Tunnel) (index : Nat) : List Warning :=
  (textBack index "name" tunnel.name).2 ++ (textBack index "host" tunnel.host).2 ++
    (textBack index "target" tunnel.target).2

theorem readFields_toTable (hunknown : Unknown keys tunnel.extra)
    (husable : Usable tunnel) (index : Nat) :
    readFields tunnel.toTable index tunnel.id tunnel.kind =
      (tunnel.back index, tunnel.backWarnings index) := by
  have hname : tunnel.toTable.lookup "name" = filled tunnel.name :=
    lookup_toTable hunknown (by decide)
  have hhost : tunnel.toTable.lookup "host" = filled tunnel.host :=
    lookup_toTable hunknown (by decide)
  have htarget : tunnel.toTable.lookup "target" = filled tunnel.target :=
    lookup_toTable hunknown (by decide)
  have haddress : tunnel.toTable.lookup "bind_address" = some (.string tunnel.bindAddress) :=
    lookup_toTable hunknown (by decide)
  have hport : tunnel.toTable.lookup "bind_port" = some (.integer tunnel.bindPort.toNat) :=
    lookup_toTable hunknown (by decide)
  have hdestination : tunnel.toTable.lookup "destination_host" =
      if tunnel.kind ≠ .dynamic then some (.string tunnel.destinationHost) else none :=
    lookup_toTable hunknown (by decide)
  have hdestinationPort : tunnel.toTable.lookup "destination_port" =
      if tunnel.kind ≠ .dynamic then some (.integer tunnel.destinationPort.toNat) else none :=
    lookup_toTable hunknown (by decide)
  have htied : tunnel.toTable.lookup "tied" = some (.boolean tunnel.tied) :=
    lookup_toTable hunknown (by decide)
  have hautostart : tunnel.toTable.lookup "autostart" = some (.boolean tunnel.autostart) :=
    lookup_toTable hunknown (by decide)
  have hreconnect : tunnel.toTable.lookup "reconnect" = some (.boolean tunnel.reconnect) :=
    lookup_toTable hunknown (by decide)
  have haddressRead := readText_address (place index "bind_address") husable.bindAddress
  have hdestinationRead : readText (place index "destination_host")
      (if tunnel.kind ≠ .dynamic then some (.string tunnel.destinationHost) else none) =
      (if tunnel.kind ≠ .dynamic then tunnel.destinationHost else "", []) := by
    split
    case isTrue hkind => exact readText_address _ (husable.destinationHost hkind).2
    case isFalse => rfl
  have hdestinationPortRead : readPort (place index "destination_port")
      (if tunnel.kind ≠ .dynamic then some (.integer tunnel.destinationPort.toNat) else none) =
      (if tunnel.kind ≠ .dynamic then tunnel.destinationPort else 0, []) := by
    split
    case isTrue hkind => exact readPort_toNat _ _
    case isFalse => rfl
  unfold readFields
  simp only [hname, hhost, htarget, haddress, hport, hdestination, hdestinationPort, htied,
    hautostart, hreconnect, readText_filled, haddressRead, hdestinationRead,
    hdestinationPortRead, readPort_toNat, readFlag, unknown_toTable hunknown, Option.isSome_some, if_true,
    List.append_nil]
  rfl

theorem backWarnings_eq_nil_iff (tunnel : Tunnel) (index : Nat) :
    tunnel.backWarnings index = [] ↔
      Short tunnel.name ∧ Short tunnel.host ∧ Short tunnel.target := by
  simp only [backWarnings, append_eq_nil_iff, textBack_warnings, and_assoc]

theorem same_back_iff (hname : Short tunnel.name) (hhost : Short tunnel.host)
    (htarget : Short tunnel.target) (index : Nat) :
    Same tunnel (tunnel.back index) ↔
      trim tunnel.host = tunnel.host ∧ trim tunnel.target = tunnel.target := by
  have hnameBack : (tunnel.back index).name = trim tunnel.name :=
    congrArg Prod.fst (textBack_eq hname index "name")
  have hhostBack : (tunnel.back index).host = trim tunnel.host :=
    congrArg Prod.fst (textBack_eq hhost index "host")
  have htargetBack : (tunnel.back index).target = trim tunnel.target :=
    congrArg Prod.fst (textBack_eq htarget index "target")
  constructor
  · intro h
    exact ⟨hhostBack.symm.trans h.host, htargetBack.symm.trans h.target⟩
  · rintro ⟨hhostTrim, htargetTrim⟩
    exact ⟨rfl, hnameBack, rfl, hhostBack.trans hhostTrim, htargetBack.trans htargetTrim, rfl, rfl,
      fun hkind => if_pos hkind, fun hkind => if_pos hkind, rfl, rfl, rfl, rfl⟩

theorem Usable.back (h : Usable tunnel) {index : Nat} (hsame : Same tunnel (tunnel.back index)) :
    Usable (tunnel.back index) := by
  have hsub : (trim tunnel.name).toList.Sublist tunnel.name.toList := by
    rw [trim_eq, String.toList_ofList]
    exact Text.trim_sublist _
  refine ⟨?_, ?_, h.bindAddress, fun hkind => ?_, fun hkind => ?_, ?_, ?_⟩
  · rw [hsame.host, hsame.target]
    exact h.route
  · rw [hsame.host, hsame.tied]
    exact h.tied
  · rw [hsame.destinationHost hkind]
    exact h.destinationHost hkind
  · rw [hsame.destinationPort hkind]
    exact h.destinationPort hkind
  · rw [hsame.name]
    exact Nat.le_trans hsub.length_le h.name.1
  · rw [hsame.name, any_eq_false]
    exact fun c hc => any_eq_false.mp h.name.2 c (hsub.subset hc)

theorem parse_asStr (kind : Kind) : Kind.parse kind.asStr = some kind := by
  cases kind <;> rfl

theorem readText_kind (key : String) (kind : Kind) :
    readText key (some (.string kind.asStr)) = (kind.asStr, []) := by
  cases kind <;> rfl

theorem fromTable_toTable (hunknown : Unknown keys tunnel.extra) (hid : GoodId tunnel.id)
    (husable : Usable tunnel) (hshort : Short tunnel.id) (index : Nat) :
    fromTable tunnel.toTable index =
      match (tunnel.back index).problem with
      | some problem => (none, tunnel.backWarnings index ++
          [⟨place index "", problem ++ "; the tunnel is skipped"⟩])
      | none => (some (tunnel.back index), tunnel.backWarnings index) := by
  have hidLookup : tunnel.toTable.lookup "id" = some (.string tunnel.id) :=
    lookup_toTable hunknown (by decide)
  have hkindLookup : tunnel.toTable.lookup "kind" = some (.string tunnel.kind.asStr) :=
    lookup_toTable hunknown (by decide)
  unfold fromTable
  rw [hidLookup, hkindLookup, readText_kind, readText, if_pos (show _ ≤ _ from hshort), hid.trimmed]
  dsimp only
  rw [if_neg (by rw [hid.printable]; simpa using hid.ne), parse_asStr]
  dsimp only
  rw [readFields_toTable hunknown husable index]
  rfl

theorem fromTable_toTable_iff (hunknown : Unknown keys tunnel.extra) (hid : GoodId tunnel.id)
    (hproblem : tunnel.problem = none) (index : Nat) :
    (∃ found, fromTable tunnel.toTable index = (some found, []) ∧ Same tunnel found) ↔
      Fits tunnel := by
  have husable := problem_eq_none_iff.mp hproblem
  have hidLookup : tunnel.toTable.lookup "id" = some (.string tunnel.id) :=
    lookup_toTable hunknown (by decide)
  constructor
  · rintro ⟨found, hfound, hsame⟩
    have hshort : Short tunnel.id := by
      by_contra hlong
      unfold fromTable at hfound
      rw [hidLookup, readText, if_neg (show ¬ _ ≤ _ from hlong)] at hfound
      dsimp only at hfound
      rw [if_pos (.inl rfl)] at hfound
      cases hfound
    rw [fromTable_toTable hunknown hid husable hshort] at hfound
    split at hfound
    · cases hfound
    · obtain ⟨hsome, hnil⟩ := Prod.mk.inj hfound
      obtain rfl := Option.some.inj hsome
      obtain ⟨hname, hhost, htarget⟩ := (backWarnings_eq_nil_iff tunnel index).mp hnil
      obtain ⟨hhostTrim, htargetTrim⟩ := (same_back_iff hname hhost htarget index).mp hsame
      exact ⟨hshort, hname, ⟨hhost, hhostTrim⟩, ⟨htarget, htargetTrim⟩⟩
  · intro hfits
    have hsame := (same_back_iff hfits.name hfits.host.1 hfits.target.1 index).mpr
      ⟨hfits.host.2, hfits.target.2⟩
    refine ⟨tunnel.back index, ?_, hsame⟩
    rw [fromTable_toTable hunknown hid husable hfits.id, problem_eq_none_iff.mpr (husable.back hsame),
      (backWarnings_eq_nil_iff tunnel index).mpr ⟨hfits.name, hfits.host.1, hfits.target.1⟩]

theorem fromTable_warns (table : Table) (index : Nat)
    (h : (fromTable table index).1 = none) : (fromTable table index).2 ≠ [] := by
  have hcons : ∀ (before : List Warning) (last : Warning), before ++ [last] ≠ [] :=
    fun before last => append_ne_nil_of_right_ne_nil _ (cons_ne_nil _ _)
  unfold fromTable at h ⊢
  dsimp only at h ⊢
  split
  · exact hcons _ _
  · rename_i hvalid
    rw [if_neg hvalid] at h
    split
    · exact hcons _ _
    · rename_i kind hkind
      rw [hkind] at h
      dsimp only at h
      split
      · exact hcons _ _
      · rename_i hproblem
        rw [hproblem] at h
        cases h

end Tunnel

namespace TunnelsFile

variable {τ : Type} (format : TextFormat τ)

/-- Tunnels the editor accepts, with ids told apart. -/
structure Accepted (file : TunnelsFile) : Prop where
  ids : ∀ tunnel ∈ file.tunnels, GoodId tunnel.id
  problem : ∀ tunnel ∈ file.tunnels, tunnel.problem = none
  unknown : ∀ tunnel ∈ file.tunnels, Unknown Tunnel.keys tunnel.extra
  extra : (Value.table file.extra).wellFormed = true

/-- Loading what is saved gives the same tunnels in the same order, without a warning. -/
def Survives (file : TunnelsFile) : Prop :=
  (fromTomlStr format (file.toTomlString format)).2 = [] ∧
    List.Forall₂ Tunnel.Same file.tunnels (fromTomlStr format (file.toTomlString format)).1.tunnels

theorem fromTomlStr_ok {text : τ} {root : Table} (h : format.parse text = .ok root) :
    (fromTomlStr format text).2 = (records.load root).2 ∧
      (fromTomlStr format text).1.tunnels = (records.load root).1 := by
  unfold fromTomlStr
  rw [h]
  exact ⟨rfl, rfl⟩

variable {format}

theorem reads_back_iff (hformat : format.Lawful) {file : TunnelsFile} (h : Accepted file) :
    Survives format file ↔ ∀ tunnel ∈ file.tunnels, Tunnel.Fits tunnel := by
  have hwellFormed : (Value.table (records.toRoot file.tunnels file.extra)).wellFormed = true :=
    Kind.wellFormed_toRoot _ (fun tunnel htunnel =>
      Tunnel.wellFormed_toTable (h.unknown tunnel htunnel)) h.extra
  have hloaded := fromTomlStr_ok format (hformat _ hwellFormed)
  have hwarns : ∀ table index, (records.fromTable table index).1 = none →
      (records.fromTable table index).2 ≠ [] := by
    rw [records_fromTable]
    exact Tunnel.fromTable_warns
  have hid : ∀ tunnel found, Tunnel.Same tunnel found → records.id found = records.id tunnel :=
    fun _ _ hsame => hsame.id
  have hread : ∀ tunnel ∈ file.tunnels, ∀ index, (∃ found,
      records.fromTable (records.toTable tunnel) index = (some found, []) ∧
        Tunnel.Same tunnel found) ↔ Tunnel.Fits tunnel := by
    intro tunnel htunnel index
    rw [records_fromTable, records_toTable]
    exact Tunnel.fromTable_toTable_iff (h.unknown tunnel htunnel) (h.ids tunnel htunnel)
      (h.problem tunnel htunnel) index
  unfold Survives toTomlString
  rw [hloaded.1, hloaded.2]
  exact Kind.load_toRoot_iff hwarns hid file.distinct hread file.extra

end TunnelsFile

/-- A text that was read is trimmed and short. -/
theorem readText_fits (key : String) (value : Option Value) :
    Tunnel.Short (readText key value).1 ∧ trim (readText key value).1 = (readText key value).1 := by
  have hempty : Tunnel.Short "" ∧ trim "" = "" := by decide
  rw [readText.eq_def]
  split
  · exact hempty
  · rename_i text
    split
    · rename_i hshort
      refine ⟨Nat.le_trans ?_ hshort, trim_trim text⟩
      rw [trim_eq, ← @String.ofList_toList text, String.utf8ByteSize_ofList,
        String.utf8ByteSize_ofList, String.ofList_toList]
      exact String.utf8Len_le_of_sublist (Text.trim_sublist text.toList)
    · exact hempty
  · exact hempty

theorem Tunnel.of_fromTable {table : Table} {index : Nat} {tunnel : Tunnel}
    (hwellFormed : (Value.table table).wellFormed = true)
    (h : (fromTable table index).1 = some tunnel) :
    GoodId tunnel.id ∧ tunnel.problem = none ∧ Unknown keys tunnel.extra ∧ Fits tunnel := by
  rw [fromTable] at h
  have hid := readText_fits (place index "id") (table.lookup "id")
  generalize readText (place index "id") (table.lookup "id") = id at h hid
  dsimp only at h
  split at h
  · cases h
  · rename_i hvalid
    split at h
    · cases h
    · rename_i kind hkind
      split at h
      · cases h
      · rename_i hproblem
        obtain rfl := Option.some.inj h
        rw [not_or, Bool.not_eq_true] at hvalid
        exact ⟨⟨hvalid.1, hid.2, hvalid.2⟩, hproblem, unknown_unknown hwellFormed keys, hid.1,
          (readText_fits _ _).1, readText_fits _ _, readText_fits _ _⟩

end Opensesh.Tunnels
