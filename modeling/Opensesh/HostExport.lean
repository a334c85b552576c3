/-
Hosts written as an OpenSSH configuration: a `Host` block for each SSH host with what it
resolves to, under a name that no other block has.
-/
import Opensesh.HostValidate
import Opensesh.TargetPieces
import Mathlib.Data.List.Nodup

namespace Opensesh

open List

def Value.asBool : Value → Option Bool
  | .boolean value => some value
  | _ => none

namespace Saved

open Target (bracketIpv6 digits)
open Text (toAsciiLower)

/-- Every inherited field of a host, with where it comes from. -/
abbrev ResolvedHost := List (String × Resolved)

namespace ResolvedHost

variable (fields : ResolvedHost)

/-- A text, none when it is unset or empty. -/
def string (key : String) : Option (List Char) :=
  (((valueOf fields key).bind Value.asStr).map fun text => Text.trim text.toList).filter (· ≠ [])

def flag (key : String) : Bool := ((valueOf fields key).bind Value.asBool).getD false

/-- A port of the range, none for zero. -/
def portOf (value : Int) : Option Nat :=
  if 0 < value ∧ value ≤ 65535 then some value.toNat else none

def user : Option (List Char) := string fields "user"

def identity : Option (List Char) := string fields "identity"

def port : Option Nat := ((valueOf fields "port").bind Value.asInteger).bind portOf

/-- The references of the jump hosts. -/
def jump : List (List Char) :=
  let items := ((valueOf fields "jump").bind Value.asArray).getD []
  ((items.filterMap Value.asStr).map fun item => Text.trim item.toList).filter (· ≠ [])

def x11 : X11Forwarding :=
  match string fields "ssh.x11" with
  | some text =>
    if text = "untrusted".toList then .untrusted
    else if text = "trusted".toList then .trusted
    else .off
  | none => .off

end ResolvedHost

namespace HostsFile

/-- A jump reference as `[user@]host[:port]`: a saved host becomes its resolved address. -/
def jumpSpec (file : HostsFile) (reference : List Char) : List Char :=
  match (file.findHost (String.ofList reference)).filter (·.address ≠ "") with
  | some host =>
    let resolved : ResolvedHost := file.resolve host
    (match resolved.user with
      | some user => user ++ ['@']
      | none => []) ++
    bracketIpv6 host.address.toList ++
    (match resolved.port.filter (some · ≠ host.protocol.defaultPort) with
      | some port => ':' :: digits port
      | none => [])
  | none => Text.trim reference

end HostsFile

/-- What a character of a name becomes in a pattern. -/
def aliasChar (c : Char) : Option Char :=
  if isWhitespace c then some '-'
  else if ['*', '?', '!', ',', '"', '#'].contains c then none
  else if isControl c then none
  else some c

/-- A `Host` pattern of a name: white space becomes `-`, OpenSSH's pattern characters go. -/
def aliasOf (name : List Char) : List Char :=
  let hostAlias := (Text.trim name).filterMap aliasChar
  if hostAlias = [] then "host".toList else hostAlias

/-- The first of the candidates from a number on that is not taken. -/
def uniqueFrom (hostAlias : List Char) (taken : List (List Char)) :
    Nat → Nat → List Char → List Char
  | 0, _, candidate => candidate
  | steps + 1, n, candidate =>
    if candidate.map toAsciiLower ∈ taken then
      uniqueFrom hostAlias taken steps (n + 1) (hostAlias ++ '-' :: digits n)
    else candidate

/-- A name that is not taken in any case, and the names that are taken with it. -/
def unique (hostAlias : List Char) (taken : List (List Char)) : List Char × List (List Char) :=
  let candidate := uniqueFrom hostAlias taken (taken.length + 1) 2 hostAlias
  (candidate, candidate.map toAsciiLower :: taken)

/-- A value with spaces in double quotes. -/
def quote (value : List Char) : List Char :=
  if value.any isWhitespace then '"' :: (value ++ ['"']) else value

/-- An option of a block. -/
def optionLine (keyword : String) (value : List Char) : List Char :=
  "    ".toList ++ (keyword.toList ++ ' ' :: value)

def identityComment : List Char :=
  "    # Its keychain identity stays in OpenSesh (export the key from the Keychain view).".toList

def x11Lines : X11Forwarding → List (List Char)
  | .off => []
  | .untrusted => [optionLine "ForwardX11" "yes".toList]
  | .trusted => [optionLine "ForwardX11" "yes".toList, optionLine "ForwardX11Trusted" "yes".toList]

namespace HostsFile

variable (file : HostsFile)

/-- The jump hosts of a host, as `ProxyJump` has them. -/
def jumpSpecs (host : Host) : List (List Char) :=
  (ResolvedHost.jump (file.resolve host)).map file.jumpSpec

/-- The comment above a block whose name is not the host's. -/
def nameComment (host : Host) (hostAlias : List Char) : List (List Char) :=
  if hostAlias = host.name.toList then []
  else [['#', ' '] ++ host.name.toList.map fun c => if c = '\n' then ' ' else c]

/-- The options of a block. -/
def optionLines (host : Host) : List (List Char) :=
  let resolved : ResolvedHost := file.resolve host
  let jumps := file.jumpSpecs host
  [optionLine "HostName" (Text.trim host.address.toList)] ++
  (resolved.user.map fun user => optionLine "User" (quote user)).toList ++
  ((resolved.port.filter (· ≠ 22)).map fun port => optionLine "Port" (digits port)).toList ++
  ((resolved.string "identity_file").map fun path =>
    optionLine "IdentityFile" (quote path)).toList ++
  (if resolved.identity.isSome then [identityComment] else []) ++
  (if jumps = [] then [] else [optionLine "ProxyJump" (Text.joinWith ',' jumps)]) ++
  ((resolved.string "ssh.proxy_command").map fun command =>
    optionLine "ProxyCommand" command).toList ++
  (if resolved.flag "ssh.agent_forwarding" then
    [optionLine "ForwardAgent" "yes".toList] else []) ++
  x11Lines resolved.x11 ++
  (if resolved.flag "ssh.compression" then [optionLine "Compression" "yes".toList] else [])

/-- The lines of a host's block. -/
def blockLines (host : Host) (hostAlias : List Char) : List (List Char) :=
  nameComment host hostAlias ++ ["Host ".toList ++ hostAlias] ++ file.optionLines host

end HostsFile

/-- What an export wrote, and what it left out. -/
structure Exported where
  text : List Char
  count : Nat
  warnings : List String

def isSshHost (host : Host) : Bool :=
  match host.protocol with
  | .ssh | .sftp | .mosh => true
  | _ => false

/-- Lines written one after the other. -/
def writeLines (lines : List (List Char)) : List Char := lines.flatMap (· ++ ['\n'])

def header : List Char := "# Exported from OpenSesh.".toList

namespace HostsFile

variable (file : HostsFile)

def proxyWarnings (host : Host) : List String :=
  let resolved : ResolvedHost := file.resolve host
  if (resolved.string "ssh.proxy_command").isNone ∧ (resolved.string "ssh.proxy").isSome then
    [host.name ++ ": its proxy has no OpenSSH setting; left out"]
  else []

/-- One host of the export, with the names that are taken. -/
def exportHost (before : Exported × List (List Char)) (host : Host) : Exported × List (List Char) :=
  let (out, taken) := before
  if !isSshHost host then
    ({ out with warnings := out.warnings ++ [host.name ++ ": not an SSH host; left out"] }, taken)
  else if Text.trim host.address.toList = [] then before
  else
    let (hostAlias, taken) := unique (aliasOf host.name.toList) taken
    ({ text := out.text ++ '\n' :: writeLines (file.blockLines host hostAlias)
       count := out.count + 1
       warnings := out.warnings ++ file.proxyWarnings host }, taken)

/-- Hosts as an OpenSSH config file. -/
def sshConfig (hosts : List Host) : Exported :=
  (hosts.foldl file.exportHost (⟨writeLines [header], 0, []⟩, [])).1

end HostsFile

/-- The hosts that are written. -/
def isExported (host : Host) : Bool := isSshHost host && Text.trim host.address.toList ≠ []

/-- The hosts that are written, each with the name of its block. -/
def withNames : List (List Char) → List Host → List (Host × List Char)
  | _, [] => []
  | taken, host :: rest =>
    if isExported host then
      let (hostAlias, taken) := unique (aliasOf host.name.toList) taken
      (host, hostAlias) :: withNames taken rest
    else withNames taken rest

/-- The names of the blocks. -/
def blockNames (hosts : List Host) : List (List Char) := (withNames [] hosts).map Prod.snd

/-- The lines of the file, as they are written. -/
def HostsFile.written (file : HostsFile) (hosts : List Host) : List (List Char) :=
  header :: (withNames [] hosts).flatMap fun (host, hostAlias) =>
    [] :: file.blockLines host hostAlias

theorem map_withNames (hosts : List Host) (taken : List (List Char)) :
    (withNames taken hosts).map Prod.fst = hosts.filter isExported := by
  induction hosts generalizing taken with
  | nil => rfl
  | cons host hosts ih =>
    rw [withNames]
    by_cases hexported : isExported host = true
    · rw [if_pos hexported, filter_cons_of_pos hexported, map_cons, ih]
    · rw [if_neg hexported, filter_cons_of_neg hexported, ih]

theorem writeLines_append (first rest : List (List Char)) :
    writeLines (first ++ rest) = writeLines first ++ writeLines rest := flatMap_append

theorem text_sshConfig (file : HostsFile) (hosts : List Host) :
    (file.sshConfig hosts).text = writeLines (file.written hosts) := by
  have hfold : ∀ (before : Exported × List (List Char)),
      (hosts.foldl file.exportHost before).1.text = before.1.text ++
        writeLines ((withNames before.2 hosts).flatMap fun (host, hostAlias) =>
          [] :: file.blockLines host hostAlias) := by
    induction hosts with
    | nil => exact fun before => (List.append_nil _).symm
    | cons host hosts ih =>
      rintro ⟨out, taken⟩
      rw [foldl_cons, ih, withNames, HostsFile.exportHost]
      by_cases hssh : isSshHost host = true
      · by_cases haddress : Text.trim host.address.toList = []
        · simp [isExported, hssh, haddress]
        · simp [isExported, hssh, haddress, writeLines]
      · simp [isExported, hssh]
  rw [HostsFile.sshConfig, hfold, HostsFile.written, ← writeLines_append]
  rfl

theorem toAsciiLower_digits (n : Nat) : (digits n).map toAsciiLower = digits n := by
  refine (map_congr_left fun c hc => ?_).trans (map_id _)
  have hdigit := all_eq_true.mp (Target.all_isDigit_digits n) c hc
  rw [Text.toAsciiLower, if_neg, id]
  rintro ⟨hle, -⟩
  rw [Char.isDigit, Bool.and_eq_true, decide_eq_true_eq, decide_eq_true_eq] at hdigit
  exact absurd (le_trans hle hdigit.2) (by decide)

theorem digits_injective : Function.Injective digits := fun m n h => by
  rw [← Nat.ofDigitChars_ten_toDigits (n := m), ← Nat.ofDigitChars_ten_toDigits (n := n)]
  exact congrArg _ h

/-- The candidates for a name, each in small letters: it, and it with a number from `n` on. -/
def candidates (hostAlias : List Char) : Nat → Nat → List Char → List (List Char)
  | 0, _, _ => []
  | steps + 1, n, candidate =>
    candidate.map toAsciiLower :: candidates hostAlias steps (n + 1) (hostAlias ++ '-' :: digits n)

section

variable {hostAlias : List Char} {taken : List (List Char)}

theorem length_candidates (steps n : Nat) (candidate : List Char) :
    (candidates hostAlias steps n candidate).length = steps := by
  induction steps generalizing n candidate with
  | zero => rfl
  | succ steps ih => rw [candidates, length_cons, ih]

theorem mem_candidates {steps n k : Nat} {text : List Char}
    (h : text ∈ candidates hostAlias steps n (hostAlias ++ '-' :: digits k)) (hk : k < n) :
    ∃ number, k ≤ number ∧ text = hostAlias.map toAsciiLower ++ '-' :: digits number := by
  induction steps generalizing n k with
  | zero => cases h
  | succ steps ih =>
    rw [candidates] at h
    rcases mem_cons.mp h with rfl | hrest
    · refine ⟨k, Nat.le_refl k, ?_⟩
      rw [map_append, map_cons, toAsciiLower_digits]
      rfl
    · obtain ⟨number, hle, heq⟩ := ih hrest (Nat.lt_succ_self n)
      exact ⟨number, Nat.le_trans (Nat.le_of_lt hk) hle, heq⟩

theorem nodup_numbered (steps n k : Nat) (hk : k < n) :
    (candidates hostAlias steps n (hostAlias ++ '-' :: digits k)).Nodup := by
  induction steps generalizing n k with
  | zero => exact nodup_nil
  | succ steps ih =>
    rw [candidates, nodup_cons]
    refine ⟨fun hmem => ?_, ih _ _ (Nat.lt_succ_self n)⟩
    obtain ⟨number, hle, heq⟩ := mem_candidates hmem (Nat.lt_succ_self n)
    rw [map_append, map_cons, toAsciiLower_digits, append_cancel_left_eq] at heq
    have hsame := digits_injective (List.cons.inj heq).2
    omega

theorem nodup_candidates (steps : Nat) : (candidates hostAlias steps 2 hostAlias).Nodup := by
  cases steps with
  | zero => exact nodup_nil
  | succ steps =>
    rw [candidates, nodup_cons]
    refine ⟨fun hmem => ?_, nodup_numbered steps 3 2 (by decide)⟩
    obtain ⟨number, -, heq⟩ := mem_candidates hmem (by decide)
    have hlength := congrArg List.length heq
    rw [length_append, length_cons] at hlength
    omega

theorem candidates_subset {steps n : Nat} {candidate : List Char}
    (h : (uniqueFrom hostAlias taken steps n candidate).map toAsciiLower ∈ taken) :
    ∀ text ∈ candidates hostAlias steps n candidate, text ∈ taken := by
  induction steps generalizing n candidate with
  | zero => exact nofun
  | succ steps ih =>
    rw [uniqueFrom] at h
    rw [candidates]
    split at h
    next htaken =>
      intro text hmem
      rcases mem_cons.mp hmem with rfl | hrest
      · exact htaken
      · exact ih h text hrest
    next hfree => exact absurd h hfree

/-- The name is free: there are more candidates than names that are taken. -/
theorem unique_notMem (hostAlias : List Char) (taken : List (List Char)) :
    (unique hostAlias taken).1.map toAsciiLower ∉ taken := by
  intro hmem
  have hle := (nodup_candidates (taken.length + 1)).subperm (candidates_subset hmem) |>.length_le
  rw [length_candidates] at hle
  exact absurd hle (Nat.not_succ_le_self _)

theorem uniqueFrom_eq (steps n : Nat) (candidate : List Char)
    (hcandidate : candidate = hostAlias ∨ ∃ k, candidate = hostAlias ++ '-' :: digits k) :
    uniqueFrom hostAlias taken steps n candidate = hostAlias ∨
      ∃ k, uniqueFrom hostAlias taken steps n candidate = hostAlias ++ '-' :: digits k := by
  induction steps generalizing n candidate with
  | zero => exact hcandidate
  | succ steps ih =>
    rw [uniqueFrom]
    split
    next => exact ih _ _ (Or.inr ⟨n, rfl⟩)
    next => exact hcandidate

end

/-- No two blocks have one name, in any case. -/
theorem withNames_fresh (hosts : List Host) (taken : List (List Char)) :
    ((withNames taken hosts).map fun pair => pair.2.map toAsciiLower).Nodup ∧
    ∀ pair ∈ withNames taken hosts, pair.2.map toAsciiLower ∉ taken := by
  induction hosts generalizing taken with
  | nil => exact ⟨nodup_nil, fun _ hpair => absurd hpair not_mem_nil⟩
  | cons host hosts ih =>
    have hfree := unique_notMem (aliasOf host.name.toList) taken
    have htaken : (unique (aliasOf host.name.toList) taken).2 =
      (unique (aliasOf host.name.toList) taken).1.map toAsciiLower :: taken := rfl
    rw [withNames]
    generalize unique (aliasOf host.name.toList) taken = named at hfree htaken ⊢
    obtain ⟨hostAlias, next⟩ := named
    by_cases hexported : isExported host = true
    · rw [if_pos hexported]
      dsimp only at hfree htaken ⊢
      subst htaken
      obtain ⟨hnodup, hfresh⟩ := ih (hostAlias.map toAsciiLower :: taken)
      refine ⟨nodup_cons.mpr ⟨fun hmem => ?_, hnodup⟩,
        forall_mem_cons.mpr ⟨hfree, fun pair hpair hmem => ?_⟩⟩
      · obtain ⟨pair, hpair, heq⟩ := mem_map.mp hmem
        exact hfresh pair hpair (mem_cons.mpr (Or.inl heq))
      · exact hfresh pair hpair (mem_cons_of_mem _ hmem)
    · rw [if_neg hexported]
      exact ih taken

theorem nodup_blockNames (hosts : List Host) : (blockNames hosts).Nodup := by
  have h := (withNames_fresh hosts []).1
  refine List.Nodup.of_map (List.map toAsciiLower) ?_
  rw [blockNames, map_map]
  exact h

theorem eq_of_mem_withNames {hosts : List Host} {taken : List (List Char)}
    {pair : Host × List Char} (h : pair ∈ withNames taken hosts) :
    pair.2 = aliasOf pair.1.name.toList ∨
      ∃ k, pair.2 = aliasOf pair.1.name.toList ++ '-' :: digits k := by
  induction hosts generalizing taken with
  | nil => cases h
  | cons host hosts ih =>
    rw [withNames] at h
    split at h
    next =>
      rcases mem_cons.mp h with rfl | hrest
      · exact uniqueFrom_eq _ _ _ (Or.inl rfl)
      · exact ih hrest
    next => exact ih h

/-- The characters of a name of a block: no white space, control characters or those that
patterns and lines have. -/
def NameChar (c : Char) : Prop :=
  isWhitespace c = false ∧ ['*', '?', '!', ',', '"', '#'].contains c = false

theorem nameChar_of_aliasChar {c d : Char} (h : aliasChar c = some d) : NameChar d := by
  rw [aliasChar] at h
  split at h
  next =>
    obtain rfl := Option.some.inj h
    exact ⟨by decide, by decide⟩
  next hspace =>
    split at h
    next => cases h
    next hpattern =>
      split at h
      next => cases h
      next =>
        obtain rfl := Option.some.inj h
        exact ⟨Bool.eq_false_iff.mpr hspace, Bool.eq_false_iff.mpr hpattern⟩

theorem aliasOf_ne_nil (name : List Char) : aliasOf name ≠ [] := by
  unfold aliasOf
  dsimp only
  split
  next => decide
  next hne => exact hne

theorem nameChar_aliasOf (name : List Char) : ∀ c ∈ aliasOf name, NameChar c := by
  unfold aliasOf
  dsimp only
  split
  next =>
    intro c hc
    have hall : ("host".toList.all fun c => !isWhitespace c &&
        !(['*', '?', '!', ',', '"', '#'].contains c)) = true := by decide
    have hchar := all_eq_true.mp hall c hc
    rw [Bool.and_eq_true, Bool.not_eq_true', Bool.not_eq_true'] at hchar
    exact hchar
  next =>
    intro c hc
    obtain ⟨d, -, hd⟩ := mem_filterMap.mp hc
    exact nameChar_of_aliasChar hd

theorem nameChar_digit {c : Char} {n : Nat} (h : c ∈ digits n) : NameChar c := by
  have hdigit := all_eq_true.mp (Target.all_isDigit_digits n) c h
  obtain ⟨hlow, hhigh⟩ := Char.isDigit_iff_toNat.mp hdigit
  change 48 ≤ c.toNat at hlow
  change c.toNat ≤ 57 at hhigh
  constructor
  · simp [isWhitespace]
    omega
  · refine Bool.eq_false_iff.mpr fun hmem => ?_
    have hnot : (['*', '?', '!', ',', '"', '#'].all fun d =>
        decide (d.toNat < 48 ∨ 57 < d.toNat)) = true := by decide
    have hout := of_decide_eq_true (all_eq_true.mp hnot c (contains_iff_mem.mp hmem))
    omega

theorem nameChar_of_mem {hosts : List Host} {taken : List (List Char)} {pair : Host × List Char}
    (h : pair ∈ withNames taken hosts) : ∀ c ∈ pair.2, NameChar c := by
  rcases eq_of_mem_withNames h with heq | ⟨k, heq⟩
  · rw [heq]
    exact nameChar_aliasOf _
  · rw [heq]
    intro c hc
    rcases mem_append.mp hc with hname | hnumber
    · exact nameChar_aliasOf _ c hname
    · rcases mem_cons.mp hnumber with rfl | hdigit
      · exact ⟨by decide, by decide⟩
      · exact nameChar_digit hdigit

end Saved

end Opensesh
