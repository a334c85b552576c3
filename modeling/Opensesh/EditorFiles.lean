/-
What the editors of tunnels and snippets accept, and what of it the next start finds in
`tunnels.toml` and `snippets.toml`.
-/
import Opensesh.SnippetTable
import Opensesh.TunnelTable

namespace Opensesh.EditorFiles

open List
open Records Tunnels Snippets

/-- What the editors accept is there after a save and a load, without a warning, exactly when the
tunnels' texts are at most 255 bytes long and hosts, targets and shortcuts have no white space
around them. -/
theorem survives_iff {τ : Type} {format : TextFormat τ} (hformat : format.Lawful) :
    (∀ file : TunnelsFile, file.Accepted →
      (file.Survives format ↔ ∀ tunnel ∈ file.tunnels, tunnel.Fits)) ∧
    (∀ (regex : String → Option String) (file : SnippetsFile), file.Accepted regex →
      (file.Survives format regex ↔
        ∀ snippet ∈ file.snippets, trim snippet.shortcut = snippet.shortcut)) :=
  ⟨fun _ haccepted => TunnelsFile.reads_back_iff hformat haccepted,
    fun _ _ haccepted => SnippetsFile.reads_back_iff hformat haccepted⟩

/-- Whatever text of `tunnels.toml` or `snippets.toml` is loaded, saving what was loaded and
loading it again gives the same, without a warning. -/
theorem loaded_survives {τ : Type} {format : TextFormat τ} (hformat : format.Lawful)
    (hparse : ∀ text root, format.parse text = .ok root → (Value.table root).wellFormed = true)
    (regex : String → Option String) (text : τ) :
    (TunnelsFile.fromTomlStr format text).1.Survives format ∧
      (SnippetsFile.fromTomlStr format regex text).1.Survives format regex := by
  have hextra : ∀ {α : Type} (kind : Records.Kind α) {root : Table},
      (Value.table root).wellFormed = true → (Value.table (kind.others root)).wellFormed = true :=
    fun _ _ hroot => wellFormed_removeEntry (wellFormed_removeEntry hroot)
  rw [TunnelsFile.fromTomlStr, SnippetsFile.fromTomlStr]
  cases hroot : format.parse text with
  | error error =>
    exact ⟨(TunnelsFile.reads_back_iff hformat ⟨forall_mem_nil _, forall_mem_nil _,
        forall_mem_nil _, wellFormed_empty⟩).mpr (forall_mem_nil _),
      (SnippetsFile.reads_back_iff hformat ⟨forall_mem_nil _, forall_mem_nil _,
        forall_mem_nil _, wellFormed_empty⟩).mpr (forall_mem_nil _)⟩
  | ok root =>
    have hwellFormed := hparse text root hroot
    have htunnel : ∀ tunnel ∈ (Tunnels.records.load root).1, GoodId tunnel.id ∧
        tunnel.problem = none ∧ Unknown Tunnel.keys tunnel.extra ∧ tunnel.Fits := by
      intro tunnel hmem
      obtain ⟨table, place, htable, hread⟩ := Records.Kind.of_mem_load hmem hwellFormed
      rw [Tunnels.records_fromTable] at hread
      exact Tunnel.of_fromTable htable hread
    have hsnippet : ∀ snippet ∈ ((Snippets.records regex).load root).1, GoodId snippet.id ∧
        snippet.problem regex = none ∧ Unknown Snippet.keys snippet.extra ∧
          trim snippet.shortcut = snippet.shortcut := by
      intro snippet hmem
      obtain ⟨table, place, htable, hread⟩ := Records.Kind.of_mem_load hmem hwellFormed
      rw [Snippets.records_fromTable] at hread
      exact Snippet.of_fromTable htable hread
    constructor
    · exact (TunnelsFile.reads_back_iff hformat ⟨fun t h => (htunnel t h).1,
        fun t h => (htunnel t h).2.1, fun t h => (htunnel t h).2.2.1, hextra _ hwellFormed⟩).mpr
        fun t h => (htunnel t h).2.2.2
    · exact (SnippetsFile.reads_back_iff hformat ⟨fun s h => (hsnippet s h).1,
        fun s h => (hsnippet s h).2.1, fun s h => (hsnippet s h).2.2.1, hextra _ hwellFormed⟩).mpr
        fun s h => (hsnippet s h).2.2.2

namespace SurvivesWitness

/-- Tables as their own texts. -/
def format : TextFormat Table := ⟨.ok, id⟩

theorem format_lawful : format.Lawful := fun _ _ => rfl

def tunnel : Tunnel :=
  { id := "t", name := "Postgres", target := "bastion", destinationHost := "db",
    destinationPort := 5432 }

/-- A text of 64 characters of four bytes each. -/
def wide : String := String.ofList (List.replicate 64 '😀')

def named : Tunnel := { tunnel with name := wide }

def targeted : Tunnel := { tunnel with target := wide }

def file (tunnel : Tunnel) : TunnelsFile :=
  { tunnels := [tunnel], distinct := List.nodup_singleton _ }

theorem toList_wide : wide.toList = List.replicate 64 '😀' := String.toList_ofList

theorem wide_name : wide.length ≤ Tunnels.maxText ∧ wide.toList.any isControl = false := by
  have hcontrol : isControl '😀' = false := by decide
  constructor
  · rw [← String.length_toList, toList_wide, length_replicate]
    decide
  · rw [toList_wide, any_replicate, hcontrol]
    rfl

theorem wide_not_blank : isBlank wide = false := by
  have hspace : isWhitespace '😀' = false := by decide
  have htrim : Text.trim (List.replicate 64 '😀') = List.replicate 64 '😀' := by
    refine Text.trim_eq_self (fun c hc => ?_) (fun c hc => ?_)
    · rw [eq_of_mem_replicate (mem_of_mem_head? hc), hspace]
    · rw [eq_of_mem_replicate (mem_of_getLast? hc), hspace]
  rw [isBlank, toList_wide, htrim]
  rfl

theorem named_usable : named.Usable :=
  ⟨by decide, by decide, by decide, fun _ => by decide, fun _ => by decide, wide_name⟩

theorem targeted_usable : targeted.Usable := by
  refine ⟨?_, by decide, by decide, fun _ => by decide, fun _ => by decide, by decide⟩
  change ¬ (isBlank "" && isBlank wide) = true
  rw [wide_not_blank]
  decide

theorem unknown_nil (keys : List String) : Unknown keys [] := ⟨wellFormed_empty, fun _ _ => rfl⟩

theorem goodId_t : GoodId "t" := ⟨by decide, by decide, by decide⟩

theorem file_accepted {tunnel : Tunnel} (hid : tunnel.id = "t") (hproblem : tunnel.problem = none)
    (hextra : tunnel.extra = []) : (file tunnel).Accepted where
  ids := by
    rintro _ (_ | ⟨_, ⟨⟩⟩)
    rw [hid]
    exact goodId_t
  problem := by
    rintro _ (_ | ⟨_, ⟨⟩⟩)
    exact hproblem
  unknown := by
    rintro _ (_ | ⟨_, ⟨⟩⟩)
    rw [hextra]
    exact unknown_nil _
  extra := wellFormed_empty

theorem load_file {tunnel : Tunnel} {found : Option Tunnel} {warnings : List Warning}
    (h : Tunnel.fromTable tunnel.toTable 0 = (found, warnings)) :
    (TunnelsFile.fromTomlStr format ((file tunnel).toTomlString format)).1.tunnels = found.toList ∧
      (TunnelsFile.fromTomlStr format ((file tunnel).toTomlString format)).2 = warnings := by
  have hparse : format.parse ((file tunnel).toTomlString format) =
      .ok (Tunnels.records.toRoot [tunnel] []) := rfl
  have hloaded := TunnelsFile.fromTomlStr_ok format hparse
  have hwritten : Tunnels.records.written [tunnel] = [.table tunnel.toTable] := rfl
  rw [hloaded.1, hloaded.2, Kind.load_toRoot, hwritten, Kind.loadFrom, Tunnels.records_fromTable, h]
  cases found with
  | none => exact ⟨rfl, List.append_nil _⟩
  | some found => exact ⟨rfl, List.append_nil _⟩

/-- The editor accepts a name and a target of 64 characters that are 256 bytes; the next start has
lost the name of the first tunnel, and the second tunnel. -/
theorem accepted_lost :
    ((file named).Accepted ∧ ¬ (file named).Survives format ∧
      (TunnelsFile.fromTomlStr format ((file named).toTomlString format)).2 =
        [⟨"tunnel[0].name", "too long; ignored"⟩]) ∧
    ((file targeted).Accepted ∧ ¬ (file targeted).Survives format ∧
      (TunnelsFile.fromTomlStr format ((file targeted).toTomlString format)).1.tunnels.length = 0) := by
  have hnamed : (file named).Accepted :=
    file_accepted rfl (Tunnel.problem_eq_none_iff.mpr named_usable) rfl
  have htargeted : (file targeted).Accepted :=
    file_accepted rfl (Tunnel.problem_eq_none_iff.mpr targeted_usable) rfl
  have hnamedRead := Tunnel.fromTable_toTable (unknown_nil _) goodId_t named_usable (by decide) 0
  have htargetedRead :=
    Tunnel.fromTable_toTable (unknown_nil _) goodId_t targeted_usable (by decide) 0
  rw [show (named.back 0).problem = none by decide +kernel] at hnamedRead
  rw [show (targeted.back 0).problem = some "no host to go through" by decide +kernel]
    at htargetedRead
  refine ⟨⟨hnamed, ?_, ?_⟩, htargeted, ?_, ?_⟩
  · rw [TunnelsFile.reads_back_iff format_lawful hnamed]
    intro hfits
    exact absurd (hfits named List.mem_cons_self).name (by decide +kernel)
  · rw [(load_file hnamedRead).2]
    decide +kernel
  · rw [TunnelsFile.reads_back_iff format_lawful htargeted]
    intro hfits
    exact absurd (hfits targeted List.mem_cons_self).target.1 (by decide +kernel)
  · rw [(load_file htargetedRead).1]
    rfl

theorem bastion_survives : (file tunnel).Survives format := by
  refine ((survives_iff format_lawful).1 (file tunnel) (file_accepted rfl (by decide) rfl)).mpr ?_
  rintro _ (_ | ⟨_, ⟨⟩⟩)
  exact ⟨by decide, by decide, by decide, by decide⟩

/-- Tables as their own texts, of which those with a key twice are no text. -/
def strict : TextFormat Table :=
  ⟨fun root => if (Value.table root).wellFormed then .ok root else .error "duplicate key", id⟩

/-- A macro with a text beside its steps and a tunnel to a database, each with a key of a later
version, after a snippet without an id and a tunnel of a kind that is not known. -/
def mixed : Table :=
  [("snippet", .array [.table [], .table
      [("id", .string "deploy"), ("mood", .string "calm"), ("name", .string " Deploy "),
        ("step", .array [.table [("send", .string "make")], .table [("delay_ms", .integer 50)]]),
        ("text", .string "left over")]]),
    ("tunnel", .array [.table [("id", .string " t "), ("kind", .string "socks")], .table
      [("color", .string "red"), ("destination_host", .string "db"),
        ("destination_port", .integer 5432), ("id", .string "sql"), ("kind", .string "local"),
        ("target", .string "bastion"), ("tied", .string "yes")]])]

/-- The macro and the tunnel are loaded, and what is loaded reads back. -/
theorem rest_survives :
    ((TunnelsFile.fromTomlStr strict mixed).1.tunnels.map Tunnel.id = ["sql"] ∧
      (SnippetsFile.fromTomlStr strict (fun _ => none) mixed).1.snippets.map Snippet.id =
        ["deploy"]) ∧
    (TunnelsFile.fromTomlStr strict mixed).1.Survives strict ∧
      (SnippetsFile.fromTomlStr strict (fun _ => none) mixed).1.Survives strict fun _ => none :=
  ⟨by decide +kernel, loaded_survives (fun _ hwellFormed => if_pos hwellFormed)
    (fun text root hparse => by
      rw [strict] at hparse
      dsimp only at hparse
      split at hparse
      · rename_i hwellFormed
        exact Except.ok.inj hparse ▸ hwellFormed
      · cases hparse) _ _⟩

end SurvivesWitness

end Opensesh.EditorFiles
