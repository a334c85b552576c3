/-
What remembering a host key does to the answers of `check`: the lines that stay,
the line that is written, and the answers for other hosts.
-/
import Opensesh.KnownHosts
import Mathlib.Order.Basic
import Mathlib.Algebra.Order.Group.Nat

namespace Opensesh

open List

namespace KnownHosts

/-- An entry at another line. -/
def KnownHost.atLine (entry : KnownHost) (number : Nat) : KnownHost := { entry with line := number }

section AtLine

variable (crypto : Crypto) (entry : KnownHost) (number : Nat)

@[simp] theorem matches_atLine (name : List Char) :
    (entry.atLine number).matches crypto name = entry.matches crypto name := rfl

@[simp] theorem replacedBy_atLine (name keyType : List Char) :
    (entry.atLine number).replacedBy crypto name keyType =
      entry.replacedBy crypto name keyType := rfl

@[simp] theorem revokes_atLine (key : List UInt8) :
    (entry.atLine number).revokes key = entry.revokes key := rfl

@[simp] theorem line_atLine : (entry.atLine number).line = number := rfl

@[simp] theorem atLine_atLine (other : Nat) :
    (entry.atLine number).atLine other = entry.atLine other := rfl

end AtLine

section Entries

variable (crypto : Crypto)

/-- The entry of a line, wherever it is. -/
def entryOf (line : List Char) : Option KnownHost :=
  if isLeftOut (Text.trim line) then none else parseLine crypto (Text.trim line) 0

theorem parseFields_atLine (number : Nat) (marker : Option (List Char))
    (fields : List (List Char)) :
    parseFields crypto number marker fields =
      (parseFields crypto 0 marker fields).map (·.atLine number) := by
  unfold parseFields
  split
  · rename_i first keyType encoded rest
    cases crypto.decode encoded with
    | none => rfl
    | some blob =>
      rw [Option.bind_some, Option.bind_some]
      split <;> rfl
  · rfl

theorem parseLine_atLine (line : List Char) (number : Nat) :
    parseLine crypto line number = (parseLine crypto line 0).map (·.atLine number) := by
  unfold parseLine
  split
  · rfl
  · split
    · split
      · exact parseFields_atLine crypto number _ _
      · rfl
    · exact parseFields_atLine crypto number _ _

theorem entries_cons (number : Nat) (line : List Char) (rest : List (List Char)) :
    (parseFrom crypto number (line :: rest)).entries =
      ((entryOf crypto line).map (·.atLine number)).toList ++
        (parseFrom crypto (number + 1) rest).entries := by
  rw [parseFrom, entryOf]
  split
  · rfl
  · rw [parseLine_atLine]
    cases parseLine crypto (Text.trim line) 0 <;> rfl

theorem entryOf_stripReturn (line : List Char) :
    entryOf crypto (Text.stripReturn line) = entryOf crypto line := by
  rw [entryOf, entryOf, Text.trim_stripReturn]

theorem entries_stripReturn (number : Nat) (lines : List (List Char)) :
    (parseFrom crypto number (lines.map Text.stripReturn)).entries =
      (parseFrom crypto number lines).entries := by
  induction lines generalizing number with
  | nil => rfl
  | cons line rest ih =>
    rw [map_cons, entries_cons, entries_cons, entryOf_stripReturn, ih]

theorem entries_append (number : Nat) (lines later : List (List Char)) :
    (parseFrom crypto number (lines ++ later)).entries =
      (parseFrom crypto number lines).entries ++
        (parseFrom crypto (number + lines.length) later).entries := by
  induction lines generalizing number with
  | nil => rfl
  | cons line rest ih =>
    rw [cons_append, entries_cons, entries_cons, ih, List.append_assoc,
      length_cons, Nat.add_right_comm, Nat.add_assoc]

theorem entries_shift (number offset : Nat) (lines : List (List Char)) :
    (parseFrom crypto (number + offset) lines).entries =
      (parseFrom crypto number lines).entries.map fun entry =>
        entry.atLine (entry.line + offset) := by
  induction lines generalizing number with
  | nil => rfl
  | cons line rest ih =>
    rw [entries_cons, entries_cons, Nat.add_right_comm, ih, map_append]
    cases entryOf crypto line <;> rfl

theorem le_line {number : Nat} {lines : List (List Char)} {entry : KnownHost}
    (h : entry ∈ (parseFrom crypto number lines).entries) : number ≤ entry.line := by
  induction lines generalizing number with
  | nil => cases h
  | cons line rest ih =>
    rw [entries_cons] at h
    rcases mem_append.mp h with hhead | hrest
    · obtain ⟨found, -, rfl⟩ := Option.map_eq_some_iff.mp (Option.mem_toList.mp hhead)
      exact le_rfl
    · exact Nat.le_of_succ_le (ih hrest)

theorem lines_ascending (number : Nat) (lines : List (List Char)) :
    (parseFrom crypto number lines).entries.Pairwise fun a b => a.line < b.line := by
  induction lines generalizing number with
  | nil => exact List.Pairwise.nil
  | cons line rest ih =>
    rw [entries_cons]
    refine pairwise_append.mpr ⟨?_, ih (number + 1), ?_⟩
    · cases entryOf crypto line <;> simp
    · intro a ha b hb
      obtain ⟨found, -, rfl⟩ := Option.map_eq_some_iff.mp (Option.mem_toList.mp ha)
      exact le_line crypto hb

end Entries

section Kept

variable (crypto : Crypto) (name keyType : List Char)

/-- Where a line is once others before it are gone. -/
def movedLine (replaced : List Nat) (number : Nat) : Nat :=
  number - (replaced.filter (· < number)).length

theorem replaced_nodup (lines : List (List Char)) :
    (replacedLines crypto name keyType (parseFrom crypto 1 lines)).Nodup := by
  have h := (lines_ascending crypto 1 lines).filter (·.replacedBy crypto name keyType)
  rw [replacedLines, List.Nodup, pairwise_map]
  exact h.imp fun hlt => hlt.ne

theorem mem_replaced {lines : List (List Char)} {number : Nat} :
    number ∈ replacedLines crypto name keyType (parseFrom crypto 1 lines) ↔
      ∃ entry ∈ (parseFrom crypto 1 lines).entries,
        entry.line = number ∧ entry.replacedBy crypto name keyType = true := by
  simp only [replacedLines, mem_map, mem_filter]
  exact ⟨fun ⟨entry, ⟨hmem, hrep⟩, hline⟩ => ⟨entry, hmem, hline, hrep⟩,
    fun ⟨entry, hmem, hline, hrep⟩ => ⟨entry, ⟨hmem, hrep⟩, hline⟩⟩

variable {replaced : List Nat}

theorem count_succ (hnodup : replaced.Nodup) (number : Nat) :
    (replaced.filter (· < number + 1)).length =
      (replaced.filter (· < number)).length + if number ∈ replaced then 1 else 0 := by
  induction replaced with
  | nil => rfl
  | cons head rest ih =>
    rw [nodup_cons] at hnodup
    have hrest := ih hnodup.2
    rcases Nat.lt_trichotomy head number with hlt | rfl | hgt
    · rw [filter_cons_of_pos (by simpa using Nat.lt_succ_of_lt hlt),
        filter_cons_of_pos (by simpa using hlt), length_cons,
        length_cons, hrest]
      simp only [mem_cons, hlt.ne', false_or]
      omega
    · rw [if_neg hnodup.1] at hrest
      rw [filter_cons_of_pos (by simp), filter_cons_of_neg (by simp),
        length_cons, hrest, if_pos mem_cons_self]
    · rw [filter_cons_of_neg (by simpa using Nat.succ_le_of_lt hgt),
        filter_cons_of_neg (by simpa using hgt.le), hrest]
      simp only [mem_cons, hgt.ne, false_or]

theorem entries_keepLines (hnodup : replaced.Nodup) (lines : List (List Char)) (number now : Nat)
    (hreplaced : ∀ k, number ≤ k → (k ∈ replaced ↔
      ∃ entry ∈ (parseFrom crypto number lines).entries,
        entry.line = k ∧ entry.replacedBy crypto name keyType = true))
    (hnow : now + (replaced.filter (· < number)).length = number) :
    (parseFrom crypto now (keepLines replaced number lines)).entries =
      ((parseFrom crypto number lines).entries.filter
        (!·.replacedBy crypto name keyType)).map
          fun entry => entry.atLine (movedLine replaced entry.line) := by
  induction lines generalizing number now with
  | nil => rfl
  | cons line rest ih =>
    have hhead : number ∈ replaced ↔ ∃ found, entryOf crypto line = some found ∧
        found.replacedBy crypto name keyType = true := by
      rw [hreplaced number le_rfl, entries_cons]
      constructor
      · rintro ⟨entry, hmem, hline, hrep⟩
        rcases mem_append.mp hmem with hmem | hmem
        · obtain ⟨found, hfound, rfl⟩ := Option.map_eq_some_iff.mp (Option.mem_toList.mp hmem)
          exact ⟨found, hfound, hrep⟩
        · have hle := le_line crypto hmem
          omega
      · rintro ⟨found, hfound, hrep⟩
        refine ⟨found.atLine number, mem_append_left _ ?_, rfl, hrep⟩
        rw [hfound]
        exact mem_singleton_self _
    have htail : ∀ k, number + 1 ≤ k → (k ∈ replaced ↔
        ∃ entry ∈ (parseFrom crypto (number + 1) rest).entries,
          entry.line = k ∧ entry.replacedBy crypto name keyType = true) := by
      intro k hk
      rw [hreplaced k (Nat.le_of_succ_le hk), entries_cons]
      constructor
      · rintro ⟨entry, hmem, hline, hrep⟩
        rcases mem_append.mp hmem with hmem | hmem
        · obtain ⟨found, -, rfl⟩ := Option.map_eq_some_iff.mp (Option.mem_toList.mp hmem)
          rw [line_atLine] at hline
          omega
        · exact ⟨entry, hmem, hline, hrep⟩
      · rintro ⟨entry, hmem, hline, hrep⟩
        exact ⟨entry, mem_append_right _ hmem, hline, hrep⟩
    have hcount := count_succ hnodup number
    rw [keepLines, entries_cons, filter_append, map_append]
    split
    · rename_i hmem
      rw [if_pos hmem] at hcount
      obtain ⟨found, hfound, hrep⟩ := hhead.mp hmem
      rw [ih _ _ htail (by omega), hfound]
      simp [hrep]
    · rename_i hmem
      rw [if_neg hmem] at hcount
      rw [entries_cons, ih _ _ htail (by omega)]
      congr 1
      cases hfound : entryOf crypto line with
      | none => rfl
      | some found =>
        have hrep : found.replacedBy crypto name keyType = false := by
          by_contra hne
          exact hmem (hhead.mpr ⟨found, hfound, by simpa using hne⟩)
        have hmoved : movedLine replaced number = now := by
          rw [movedLine]
          omega
        simp [hrep, hmoved]

end Kept

section After

variable (crypto : Crypto) (current host : List Char) (port : UInt16)
  (keyType : List Char) (key : List UInt8)

theorem mem_keepLines {replaced : List Nat} {number : Nat} {lines : List (List Char)}
    {line : List Char} (h : line ∈ keepLines replaced number lines) : line ∈ lines := by
  induction lines generalizing number with
  | nil => cases h
  | cons head rest ih =>
    rw [keepLines] at h
    split at h
    · exact mem_cons_of_mem _ (ih h)
    · rcases mem_cons.mp h with rfl | hrest
      · exact mem_cons_self
      · exact mem_cons_of_mem _ (ih hrest)

/-- The entries of the line written for a host. -/
def writtenEntries : List KnownHost :=
  (parse crypto (writtenLine crypto (hostName host port) keyType key)).entries

/-- The numbers of the lines that go. -/
def goneLines : List Nat := replacedLines crypto (hostName host port) keyType (parse crypto current)

/-- Entries at the lines where they are once others are gone. -/
def Entries.moved (known : Entries) (replaced : List Nat) : Entries :=
  { known with
    entries := known.entries.map fun entry => entry.atLine (movedLine replaced entry.line) }

/-- The entries after a key is remembered: those that are not replaced, and the
one written. -/
theorem entries_remember : ∃ count,
    (parse crypto (remember crypto current host port keyType key)).entries =
      ((parse crypto current).entries.filter
        (!·.replacedBy crypto (hostName host port) keyType)).map (fun entry =>
          entry.atLine (movedLine (goneLines crypto current host port keyType) entry.line)) ++
      (writtenEntries crypto host port keyType key).map fun entry =>
        entry.atLine (entry.line + count) := by
  have hkept := entries_keepLines crypto (hostName host port) keyType
    (replaced_nodup crypto (hostName host port) keyType (Text.lines current))
    (Text.lines current) 1 1
    (fun k _ => mem_replaced crypto (hostName host port) keyType) (by
      rw [filter_eq_nil_iff.mpr]
      · rfl
      · intro k hk
        obtain ⟨entry, hentry, rfl, -⟩ := (mem_replaced crypto _ _).mp hk
        have hle := le_line crypto hentry
        rw [decide_eq_true_eq]
        omega)
  refine ⟨(keepLines (goneLines crypto current host port keyType) 1
    (Text.lines current)).length, ?_⟩
  rw [parse, remember, Text.lines_flatMap fun line hline =>
      Text.newline_notMem_lines (mem_keepLines hline),
    entries_append, entries_stripReturn, length_map, entries_shift]
  exact congrArg (· ++ _) hkept

variable (name : List Char)

theorem forHost_moved (replaced : List Nat) (known : Entries) :
    forHost crypto name (known.moved replaced) =
      (forHost crypto name known).map fun entry =>
        entry.atLine (movedLine replaced entry.line) := by
  rw [forHost, forHost, Entries.moved, filter_map]
  rfl

theorem forHost_remember : ∃ count,
    forHost crypto name (parse crypto (remember crypto current host port keyType key)) =
      ((forHost crypto name (parse crypto current)).filter
        (!·.replacedBy crypto (hostName host port) keyType)).map (fun entry =>
          entry.atLine (movedLine (goneLines crypto current host port keyType) entry.line)) ++
      ((writtenEntries crypto host port keyType key).filter fun entry =>
        entry.marker.isNone && entry.matches crypto name).map fun entry =>
          entry.atLine (entry.line + count) := by
  obtain ⟨count, hentries⟩ := entries_remember crypto current host port keyType key
  refine ⟨count, ?_⟩
  rw [forHost, hentries, filter_append, filter_map, filter_map,
    filter_filter, forHost, filter_filter]
  congr 2
  refine filter_congr fun entry _ => ?_
  exact Bool.and_comm _ _

theorem not_replaced_of_revokes {entry : KnownHost} {other : List UInt8}
    (h : entry.revokes other = true) : entry.replacedBy crypto name keyType = false := by
  rw [KnownHost.revokes, Bool.and_eq_true, decide_eq_true_eq] at h
  rw [KnownHost.replacedBy, h.1]
  rfl

theorem find_revokes_remember (other : List UInt8)
    (hwritten : ∀ entry ∈ writtenEntries crypto host port keyType key,
      entry.revokes other = false) :
    (parse crypto (remember crypto current host port keyType key)).entries.find? (·.revokes other) =
      ((parse crypto current).moved
        (goneLines crypto current host port keyType)).entries.find? (·.revokes other) := by
  obtain ⟨count, hentries⟩ := entries_remember crypto current host port keyType key
  have hnone : ((writtenEntries crypto host port keyType key).map fun entry =>
      entry.atLine (entry.line + count)).find? (·.revokes other) = none := by
    rw [List.find?_eq_none]
    intro entry hentry
    obtain ⟨old, hold, rfl⟩ := mem_map.mp hentry
    simpa using hwritten old hold
  rw [hentries, List.find?_append, hnone, Option.or_none, Entries.moved, List.find?_map,
    List.find?_map, List.find?_filter]
  congr 2
  funext entry
  rw [Function.comp_apply, Bool.eq_iff_iff, decide_eq_true_eq]
  refine ⟨And.right, fun hrevokes => ⟨?_, hrevokes⟩⟩
  rw [revokes_atLine] at hrevokes
  rw [not_replaced_of_revokes crypto keyType _ hrevokes]
  rfl

end After

section Answers

variable (crypto : Crypto) (current host : List Char) (port : UInt16)
  (keyType : List Char) (key : List UInt8)

variable {φ : Type} {known known' : Entries} {other : List UInt8} {file : φ} {otherType : List Char}

theorem findRevoked_congr (file : φ) (rest : List (φ × Entries))
    (h : known.entries.find? (·.revokes other) = known'.entries.find? (·.revokes other)) :
    findRevoked other ((file, known) :: rest) = findRevoked other ((file, known') :: rest) := by
  rw [findRevoked, findRevoked, h]

theorem checkFiles_congr {rest : List (φ × Entries)} {name : List Char}
    (h : forHost crypto name known = forHost crypto name known') :
    checkFiles crypto name otherType other ((file, known) :: rest) =
      checkFiles crypto name otherType other ((file, known') :: rest) := by
  rw [checkFiles, checkFiles, h]

theorem checkFiles_fresh {name : List Char} (hkey : ∀ entry ∈ known.entries, entry.key ≠ other)
    (htype : ∀ entry ∈ known.entries, entry.keyType ≠ otherType) :
    checkFiles crypto name otherType other [(file, known)] =
      .new ((forHost crypto name known).map fun entry =>
        entry.keyType ++ ' ' :: entry.fingerprint) := by
  have hmem : ∀ entry ∈ forHost crypto name known, entry ∈ known.entries :=
    fun entry hentry => (mem_filter.mp hentry).1
  have hkeys : (forHost crypto name known).find? (fun entry => entry.key = other) =
      none := by
    rw [List.find?_eq_none]
    exact fun entry hentry => by simpa using hkey entry (hmem entry hentry)
  have htypes : (forHost crypto name known).find?
      (fun entry => entry.keyType = otherType) = none := by
    rw [List.find?_eq_none]
    exact fun entry hentry => by simpa using htype entry (hmem entry hentry)
  rw [checkFiles, hkeys, htypes]
  dsimp only
  split
  · rename_i hempty
    rw [List.isEmpty_iff.mp hempty, checkFiles, map_nil]
  · rfl

/-- What `remember` should do: the host's key is known, and every other answer is
as it was, at the lines that are left. -/
structure RemembersOnly : Prop where
  known : ∀ (file : List Char) (rest : List (List Char × Entries)),
    findRevoked key ((file, parse crypto current) :: rest) = none →
      ∃ line, check crypto
        ((file, parse crypto (remember crypto current host port keyType key)) :: rest)
        host port keyType key = .known file line
  same : ∀ (file : List Char) (rest : List (List Char × Entries)) (host' : List Char)
    (port' : UInt16) (keyType' : List Char) (key' : List UInt8),
    hostName host' port' ≠ hostName host port →
      check crypto
        ((file, parse crypto (remember crypto current host port keyType key)) :: rest)
        host' port' keyType' key' =
      check crypto
        ((file, (parse crypto current).moved (goneLines crypto current host port keyType)) :: rest)
        host' port' keyType' key'

/-- The key is revoked in the file, or the file has it for the host afterwards:
in the line written, or in one of another type. -/
def ReadsBack : Prop :=
  (∃ entry ∈ (parse crypto current).entries, entry.revokes key = true) ∨
    (∀ entry ∈ writtenEntries crypto host port keyType key, entry.revokes key = false) ∧
      ∃ entry ∈ (parse crypto current).entries.filter
          (!·.replacedBy crypto (hostName host port) keyType) ++
          writtenEntries crypto host port keyType key,
        (entry.marker.isNone && entry.matches crypto (hostName host port)) = true ∧ entry.key = key

/-- The line written is about no other host, and revokes nothing. -/
def WritesOnly : Prop :=
  ∀ entry ∈ writtenEntries crypto host port keyType key,
    entry.marker ≠ some "revoked".toList ∧
    ∀ (host' : List Char) (port' : UInt16), hostName host' port' ≠ hostName host port →
      (entry.marker.isNone && entry.matches crypto (hostName host' port')) = false

/-- The lines replaced are about no other host. -/
def ReplacesOnly : Prop :=
  ∀ entry ∈ (parse crypto current).entries,
    entry.replacedBy crypto (hostName host port) keyType = true →
    ∀ (host' : List Char) (port' : UInt16), hostName host' port' ≠ hostName host port →
      entry.matches crypto (hostName host' port') = false

variable {crypto current host port keyType key}

theorem mem_forHost_remember {name : List Char} {entry : KnownHost}
    (h : entry ∈ (parse crypto current).entries.filter
        (!·.replacedBy crypto (hostName host port) keyType) ++
        writtenEntries crypto host port keyType key)
    (hname : (entry.marker.isNone && entry.matches crypto name) = true) :
    ∃ number, entry.atLine number ∈
      forHost crypto name (parse crypto (remember crypto current host port keyType key)) := by
  obtain ⟨count, hfor⟩ := forHost_remember crypto current host port keyType key name
  rw [hfor]
  rcases mem_append.mp h with hkept | hnew
  · obtain ⟨hmem, hrep⟩ := mem_filter.mp hkept
    refine ⟨_, mem_append_left _ (mem_map.mpr ⟨entry, ?_, rfl⟩)⟩
    exact mem_filter.mpr ⟨mem_filter.mpr ⟨hmem, hname⟩, hrep⟩
  · exact ⟨_, mem_append_right _ (mem_map.mpr ⟨entry, mem_filter.mpr ⟨hnew, hname⟩, rfl⟩)⟩

theorem known_of_readsBack (h : ReadsBack crypto current host port keyType key)
    (file : List Char) (rest : List (List Char × Entries))
    (hrevoked : findRevoked key ((file, parse crypto current) :: rest) = none) :
    ∃ line, check crypto
      ((file, parse crypto (remember crypto current host port keyType key)) :: rest)
      host port keyType key = .known file line := by
  rw [findRevoked] at hrevoked
  split at hrevoked
  · cases hrevoked
  · rename_i hnone
    rcases h with ⟨entry, hmem, hrevokes⟩ | ⟨hwritten, entry, hmem, hname, hkey⟩
    · exact absurd hrevokes (List.find?_eq_none.mp hnone entry hmem)
    · have hfind := find_revokes_remember crypto current host port keyType key key hwritten
      rw [Entries.moved, List.find?_map] at hfind
      have hclean : (parse crypto (remember crypto current host port keyType
          key)).entries.find? (·.revokes key) = none := by
        rw [hfind, Option.map_eq_none_iff]
        exact hnone
      have hstill : findRevoked key ((file, parse crypto
          (remember crypto current host port keyType key)) :: rest) = none := by
        rw [findRevoked, hclean]
        exact hrevoked
      obtain ⟨number, hthere⟩ := mem_forHost_remember hmem hname
      rw [check, hstill]
      dsimp only
      rw [checkFiles]
      have hfound : ((forHost crypto (hostName host port) (parse crypto
          (remember crypto current host port keyType key))).find?
          fun entry => entry.key = key).isSome := by
        rw [List.find?_isSome]
        exact ⟨_, hthere, decide_eq_true hkey⟩
      obtain ⟨found, hfound⟩ := Option.isSome_iff_exists.mp hfound
      exact ⟨found.line, by rw [hfound]⟩

theorem readsBack_of_known (h : RemembersOnly crypto current host port keyType key) :
    ReadsBack crypto current host port keyType key := by
  by_contra hnot
  rw [ReadsBack, not_or] at hnot
  obtain ⟨hclean, hnot⟩ := hnot
  have hnone : findRevoked key [(([] : List Char), parse crypto current)] = none := by
    rw [findRevoked, List.find?_eq_none.mpr]
    · rfl
    · exact fun entry hentry hrevokes => hclean ⟨entry, hentry, hrevokes⟩
  obtain ⟨line, hknown⟩ := h.known [] [] hnone
  obtain ⟨count, hentries⟩ := entries_remember crypto current host port keyType key
  obtain ⟨count', hfor⟩ :=
    forHost_remember crypto current host port keyType key (hostName host port)
  rw [check] at hknown
  split at hknown
  · cases hknown
  · rename_i hrevoked
    rw [findRevoked] at hrevoked
    split at hrevoked
    · cases hrevoked
    · rename_i hfind
      rw [checkFiles] at hknown
      split at hknown
      · rename_i entry hentry
        have hmem := mem_of_find?_eq_some hentry
        have hkey : entry.key = key := by simpa using List.find?_some hentry
        refine hnot ⟨fun other hother => ?_, ?_⟩
        · have hno := List.find?_eq_none.mp hfind
          rw [hentries] at hno
          simpa using hno _ (mem_append_right _ (mem_map.mpr ⟨other, hother, rfl⟩))
        · rw [hfor] at hmem
          rcases mem_append.mp hmem with hold | hnew
          · obtain ⟨old, hkept, rfl⟩ := mem_map.mp hold
            obtain ⟨hthere, hrep⟩ := mem_filter.mp hkept
            obtain ⟨hthere, hname⟩ := mem_filter.mp hthere
            exact ⟨old, mem_append_left _ (mem_filter.mpr ⟨hthere, hrep⟩), hname, hkey⟩
          · obtain ⟨old, hwritten, rfl⟩ := mem_map.mp hnew
            obtain ⟨hthere, hname⟩ := mem_filter.mp hwritten
            exact ⟨old, mem_append_right _ hthere, hname, hkey⟩
      · split at hknown
        · cases hknown
        · split at hknown
          · rw [checkFiles] at hknown
            cases hknown
          · cases hknown

theorem same_of_only (hwrites : WritesOnly crypto host port keyType key)
    (hreplaces : ReplacesOnly crypto current host port keyType) (file : List Char)
    (rest : List (List Char × Entries)) (host' : List Char) (port' : UInt16) (keyType' : List Char)
    (key' : List UInt8) (hother : hostName host' port' ≠ hostName host port) :
    check crypto
        ((file, parse crypto (remember crypto current host port keyType key)) :: rest)
        host' port' keyType' key' =
      check crypto
        ((file, (parse crypto current).moved (goneLines crypto current host port keyType)) :: rest)
        host' port' keyType' key' := by
  have hrevoked := findRevoked_congr file rest
    (find_revokes_remember crypto current host port keyType key key' fun entry hentry => by
      rw [KnownHost.revokes, decide_eq_false (hwrites entry hentry).1, Bool.false_and])
  have hsame : forHost crypto (hostName host' port')
      (parse crypto (remember crypto current host port keyType key)) =
      forHost crypto (hostName host' port') ((parse crypto current).moved
        (goneLines crypto current host port keyType)) := by
    obtain ⟨count, hfor⟩ :=
      forHost_remember crypto current host port keyType key (hostName host' port')
    have hnew : (writtenEntries crypto host port keyType key).filter (fun entry =>
        entry.marker.isNone && entry.matches crypto (hostName host' port')) = [] := by
      rw [filter_eq_nil_iff]
      intro entry hentry
      rw [(hwrites entry hentry).2 host' port' hother]
      decide
    have hkept : (forHost crypto (hostName host' port') (parse crypto current)).filter
        (!·.replacedBy crypto (hostName host port) keyType) =
        forHost crypto (hostName host' port') (parse crypto current) := by
      rw [List.filter_eq_self]
      intro entry hentry
      obtain ⟨hmem, hname⟩ := mem_filter.mp hentry
      rw [Bool.not_eq_true']
      by_contra hrep
      rw [Bool.not_eq_false] at hrep
      rw [hreplaces entry hmem hrep host' port' hother, Bool.and_false] at hname
      cases hname
    rw [hfor, hnew, hkept, map_nil, List.append_nil, forHost_moved]
  rw [check, check, hrevoked, checkFiles_congr crypto hsame]

/-- A list of another length than those given. -/
theorem exists_fresh {α : Type} (a : α) (lists : List (List α)) : ∃ fresh, fresh ∉ lists := by
  refine ⟨List.replicate (((lists.map List.length).foldr max 0) + 1) a, fun hmem => ?_⟩
  have hle : ∀ list ∈ lists, list.length ≤ (lists.map List.length).foldr max 0 := by
    intro list hlist
    clear hmem
    induction lists with
    | nil => cases hlist
    | cons head rest ih =>
      rw [map_cons, foldr_cons]
      rcases mem_cons.mp hlist with rfl | hrest
      · exact le_max_left _ _
      · exact (ih hrest).trans (le_max_right _ _)
  have hlength := hle _ hmem
  rw [length_replicate] at hlength
  omega

theorem counts_of_same (h : RemembersOnly crypto current host port keyType key)
    {host' : List Char} {port' : UInt16}
    (hother : hostName host' port' ≠ hostName host port) :
    ((parse crypto current).entries.filter fun entry =>
        (entry.marker.isNone && entry.matches crypto (hostName host' port')) &&
          entry.replacedBy crypto (hostName host port) keyType).length =
      ((writtenEntries crypto host port keyType key).filter fun entry =>
        entry.marker.isNone && entry.matches crypto (hostName host' port')).length := by
  obtain ⟨count, hfor⟩ :=
    forHost_remember crypto current host port keyType key (hostName host' port')
  obtain ⟨key', hkey⟩ := exists_fresh 0
    (((parse crypto current).entries ++ (parse crypto
      (remember crypto current host port keyType key)).entries).map KnownHost.key)
  obtain ⟨type', htype⟩ := exists_fresh 'x'
    (((parse crypto current).entries ++ (parse crypto
      (remember crypto current host port keyType key)).entries).map KnownHost.keyType)
  rw [map_append, mem_append, not_or] at hkey htype
  have hanswer : ∀ known : Entries, key' ∉ known.entries.map KnownHost.key →
      type' ∉ known.entries.map KnownHost.keyType →
      check crypto [(([] : List Char), known)] host' port' type' key' =
        .new ((forHost crypto (hostName host' port') known).map fun entry =>
          entry.keyType ++ ' ' :: entry.fingerprint) := by
    intro known hkeys htypes
    have hnone : findRevoked key' [(([] : List Char), known)] = none := by
      rw [findRevoked, List.find?_eq_none.mpr]
      · rfl
      · intro entry hentry hrevokes
        rw [KnownHost.revokes, Bool.and_eq_true, decide_eq_true_eq, decide_eq_true_eq] at hrevokes
        exact hkeys (hrevokes.2 ▸ mem_map_of_mem hentry)
    rw [check, hnone]
    exact checkFiles_fresh crypto
      (fun entry hentry heq => hkeys (heq ▸ mem_map_of_mem hentry))
      fun entry hentry heq => htypes (heq ▸ mem_map_of_mem hentry)
  have hsame := h.same [] [] host' port' type' key' hother
  rw [hanswer _ hkey.2 htype.2, hanswer _ ?_ ?_] at hsame
  · have hlength := congrArg List.length (HostKeyStatus.new.inj hsame)
    rw [length_map, length_map, hfor, forHost_moved, length_append,
      length_map, length_map, length_map] at hlength
    have hsplit := length_eq_length_filter_add
      (l := forHost crypto (hostName host' port') (parse crypto current))
      (·.replacedBy crypto (hostName host port) keyType)
    rw [hsplit] at hlength
    have hrep := (Nat.add_left_cancel (hlength.trans (Nat.add_comm _ _))).symm
    rw [forHost, filter_filter] at hrep
    rw [← hrep]
    exact congrArg List.length (filter_congr fun entry _ => Bool.and_comm _ _)
  · rw [Entries.moved, map_map]
    exact hkey.1
  · rw [Entries.moved, map_map]
    exact htype.1

theorem remembersOnly_iff (hwrites : WritesOnly crypto host port keyType key) :
    RemembersOnly crypto current host port keyType key ↔
      ReadsBack crypto current host port keyType key ∧
        ReplacesOnly crypto current host port keyType := by
  refine ⟨fun h => ⟨readsBack_of_known h, ?_⟩, fun h =>
    ⟨known_of_readsBack h.1, same_of_only hwrites h.2⟩⟩
  intro entry hentry hrep host' port' hother
  have hcount := counts_of_same h hother
  have hnone : (writtenEntries crypto host port keyType key).filter (fun entry =>
      entry.marker.isNone && entry.matches crypto (hostName host' port')) = [] := by
    rw [filter_eq_nil_iff]
    intro written hwritten
    rw [(hwrites written hwritten).2 host' port' hother]
    decide
  rw [hnone, length_nil, length_eq_zero_iff, filter_eq_nil_iff] at hcount
  have hmarker : entry.marker.isNone = true := by
    rw [KnownHost.replacedBy, Bool.and_eq_true, Bool.and_eq_true] at hrep
    exact hrep.1.1
  have hnot := hcount entry hentry
  rw [hrep, hmarker, Bool.and_true, Bool.true_and] at hnot
  exact Bool.not_eq_true _ ▸ hnot

end Answers

section Plain

theorem wildcard_eq {pattern name : List UInt8} (hstar : 42 ∉ pattern) (hany : 63 ∉ pattern) :
    wildcard pattern name = true ↔ pattern.map toLowerByte = name.map toLowerByte := by
  induction pattern generalizing name with
  | nil => cases name <;> simp [wildcard]
  | cons first rest ih =>
    rw [mem_cons, not_or] at hstar hany
    rw [wildcard.eq_def]
    cases name with
    | nil => simp [Ne.symm hstar.1]
    | cons head tail => simp [Ne.symm hstar.1, Ne.symm hany.1, ih hstar.2 hany.2]

theorem toAsciiLower_bounds (c : Char) :
    ¬ (65 ≤ (Text.toAsciiLower c).toNat ∧ (Text.toAsciiLower c).toNat ≤ 90) := by
  rw [Text.toAsciiLower]
  split
  · rename_i h
    obtain ⟨hlow, hhigh⟩ := h
    have hlow' : 65 ≤ c.toNat := hlow
    have hhigh' : c.toNat ≤ 90 := hhigh
    rw [Text.toNat_ofNat (by omega)]
    omega
  · rename_i h
    exact h

/-- A text without capital ASCII letters. -/
def IsLower (text : List Char) : Prop := ∀ c ∈ text, ¬ (65 ≤ c.toNat ∧ c.toNat ≤ 90)

theorem isLower_hostName (host : List Char) (port : UInt16) : IsLower (hostName host port) := by
  have hhost : IsLower ((Text.trim host).map Text.toAsciiLower) := by
    intro c hc
    obtain ⟨old, -, rfl⟩ := mem_map.mp hc
    exact toAsciiLower_bounds old
  rw [hostName]
  split
  · exact hhost
  · intro c hc
    rcases mem_append.mp hc with hc | hc
    · rcases mem_append.mp hc with hc | hc
      · rcases mem_cons.mp hc with rfl | hc
        · decide
        · exact hhost c hc
      · have hends : c = ']' ∨ c = ':' := by simpa using hc
        rcases hends with rfl | rfl <;> decide
    · have hdigit : c.isDigit = true :=
        Nat.isDigit_of_mem_toDigits (by decide) (by decide) (Nat.toList_repr ▸ hc)
      rw [Char.isDigit, Bool.and_eq_true, decide_eq_true_eq, decide_eq_true_eq] at hdigit
      have hhigh : c.toNat ≤ 57 := hdigit.2
      omega

theorem map_toLowerByte {text : List Char} (h : IsLower text) :
    (Text.bytes text).map toLowerByte = Text.bytes text := by
  conv_rhs => rw [← map_id (Text.bytes text)]
  refine map_congr_left fun b hb => ?_
  rw [toLowerByte, if_neg]
  · rfl
  · rintro ⟨hlow, hhigh⟩
    have hlow' : 65 ≤ b.toNat := UInt8.le_iff_toNat_le.mp hlow
    have hhigh' : b.toNat ≤ 90 := UInt8.le_iff_toNat_le.mp hhigh
    have hmem := Text.mem_of_mem_bytes hb (by omega)
    refine h _ hmem ?_
    rw [Text.toNat_ofNat (by omega)]
    exact ⟨hlow', hhigh'⟩

/-- A name without white space and characters that mean something in a line. -/
def isPlain (name : List Char) : Bool :=
  !name.isEmpty && name.all fun c => !isWhitespace c && !"*?!,#@|".toList.contains c

variable {name : List Char}

theorem notMem_of_isPlain (h : isPlain name = true) {c : Char}
    (hc : "*?!,#@|".toList.contains c = true) : c ∉ name := by
  rw [isPlain, Bool.and_eq_true] at h
  intro hmem
  have hplain := all_eq_true.mp h.2 c hmem
  rw [hc] at hplain
  simp at hplain

theorem word_of_isPlain (h : isPlain name = true) :
    name.all (!isWhitespace ·) = true ∧ name ≠ [] := by
  rw [isPlain, Bool.and_eq_true] at h
  refine ⟨all_eq_true.mpr fun c hc => ?_, by simpa using h.1⟩
  exact (Bool.and_eq_true _ _ ▸ all_eq_true.mp h.2 c hc).1

theorem patternsMatch_iff {pattern : List Char} (h : isPlain pattern = true)
    (hpattern : IsLower pattern) (hname : IsLower name) :
    patternsMatch pattern name = true ↔ name = pattern := by
  have hstar : 42 ∉ Text.bytes pattern := fun hmem =>
    notMem_of_isPlain h (by decide) (Text.mem_of_mem_bytes hmem (by decide))
  have hany : 63 ∉ Text.bytes pattern := fun hmem =>
    notMem_of_isPlain h (by decide) (Text.mem_of_mem_bytes hmem (by decide))
  have hne : ([pattern].filter fun pattern => !pattern.isEmpty) = [pattern] := by
    simpa using (word_of_isPlain h).2
  rw [patternsMatch, Text.splitOn_eq_singleton (notMem_of_isPlain h (by decide)), hne,
    matchPatterns, Text.stripPrefix_eq_none (notMem_of_isPlain h (by decide))]
  dsimp only
  rw [matchPatterns, Bool.false_or, wildcard_eq hstar hany, map_toLowerByte hpattern,
    map_toLowerByte hname]
  exact ⟨fun heq => (Text.bytes_injective heq).symm, fun heq => heq ▸ rfl⟩

theorem entryOf_written {crypto : Crypto} {keyType : List Char} {key : List UInt8}
    (hname : isPlain name = true) (htype : keyType.all (!isWhitespace ·) = true ∧ keyType ≠ [])
    (hword : (crypto.encode key).all (!isWhitespace ·) = true ∧ crypto.encode key ≠ [])
    (hdecode : crypto.decode (crypto.encode key) = some key)
    (hblob : blobType key = some (Text.bytes keyType)) :
    entryOf crypto (name ++ ' ' :: keyType ++ ' ' :: crypto.encode key) =
      some ⟨0, none, name, false, name, keyType, key, fingerprint crypto key, []⟩ := by
  obtain ⟨hspace, hne⟩ := word_of_isPlain hname
  obtain ⟨first, rest, rfl⟩ := exists_cons_of_ne_nil hne
  have hall : ∀ {word : List Char}, word.all (!isWhitespace ·) = true →
      ∀ c ∈ word, isWhitespace c = false := fun h c hc => by
    simpa using all_eq_true.mp h c hc
  have htrim : Text.trim (first :: rest ++ ' ' :: keyType ++ ' ' :: crypto.encode key) =
      first :: rest ++ ' ' :: keyType ++ ' ' :: crypto.encode key := by
    refine Text.trim_eq_self (fun c hc => ?_) fun c hc => ?_
    · obtain rfl : first = c := by simpa using hc
      exact hall hspace first mem_cons_self
    · refine hall hword.1 c ?_
      obtain ⟨last, hlast⟩ := List.getLast?_isSome.mpr hword.2 |> Option.isSome_iff_exists.mp
      rw [List.getLast?_append, List.getLast?_cons, hlast] at hc
      obtain rfl : last = c := by simpa using hc
      exact mem_of_getLast? hlast
  have hout : isLeftOut (first :: rest ++ ' ' :: keyType ++ ' ' :: crypto.encode key) = false := by
    have hhash : first ≠ '#' := by
      rintro rfl
      exact notMem_of_isPlain hname (by decide) mem_cons_self
    simp [isLeftOut, hhash]
  have hwords : Text.splitWhitespace
      (first :: rest ++ ' ' :: keyType ++ ' ' :: crypto.encode key) =
      [first :: rest, keyType, crypto.encode key] := by
    rw [List.append_assoc]
    change Text.splitWhitespace (first :: rest ++ ' ' :: (keyType ++ ' ' :: crypto.encode key)) = _
    rw [Text.splitWhitespace_append hspace hne,
      Text.splitWhitespace_append htype.1 htype.2,
      Text.splitWhitespace_word hword.1 hword.2]
  have hhashed : "|1|".toList.isPrefixOf (first :: rest) = false := by
    rw [Bool.eq_false_iff]
    intro hstart
    exact notMem_of_isPlain hname (c := '|') (by decide)
      ((List.isPrefixOf_iff_prefix.mp hstart).subset mem_cons_self)
  rw [entryOf, htrim, hout, parseLine, hwords]
  dsimp only
  rw [Text.stripPrefix_eq_none (notMem_of_isPlain hname (by decide)), if_neg (by decide)]
  dsimp only
  rw [parseFields, hdecode, Option.bind_some, if_pos hblob, hhashed]
  rfl

/-- What a key's line is made of: its type, a word the key starts with, and a
word that decodes to the key. -/
structure WritableKey (crypto : Crypto) (keyType : List Char) (key : List UInt8) :
    Prop where
  type : keyType.all (!isWhitespace ·) = true ∧ keyType ≠ []
  encoded : (crypto.encode key).all (!isWhitespace ·) = true ∧ crypto.encode key ≠ []
  decode : crypto.decode (crypto.encode key) = some key
  blob : blobType key = some (Text.bytes keyType)

variable {crypto : Crypto} {current host keyType : List Char} {port : UInt16} {key : List UInt8}

theorem newline_notMem {word : List Char} (h : word.all (!isWhitespace ·) = true) :
    '\n' ∉ word := by
  intro hmem
  have hspace := all_eq_true.mp h _ hmem
  revert hspace
  decide

theorem writtenEntries_eq (hname : isPlain (hostName host port) = true)
    (hkey : WritableKey crypto keyType key) :
    writtenEntries crypto host port keyType key =
      [⟨1, none, hostName host port, false, hostName host port, keyType, key,
        fingerprint crypto key, []⟩] := by
  have hline : '\n' ∉ hostName host port ++ ' ' :: keyType ++ ' ' :: crypto.encode key := by
    simp only [mem_append, mem_cons, not_or]
    exact ⟨⟨newline_notMem (word_of_isPlain hname).1, by decide,
      newline_notMem hkey.type.1⟩, by decide, newline_notMem hkey.encoded.1⟩
  rw [writtenEntries, parse, writtenLine, Text.lines_append hline]
  change (parseFrom crypto 1 ([_].map Text.stripReturn)).entries = _
  rw [entries_stripReturn, entries_cons,
    entryOf_written hname hkey.type hkey.encoded hkey.decode hkey.blob]
  rfl

theorem writesOnly_of_isPlain (hname : isPlain (hostName host port) = true)
    (hkey : WritableKey crypto keyType key) :
    WritesOnly crypto host port keyType key := by
  intro entry hentry
  rw [writtenEntries_eq hname hkey] at hentry
  obtain rfl := mem_singleton.mp hentry
  refine ⟨by simp, fun host' port' hother => ?_⟩
  rw [Option.isNone_none, Bool.true_and, Bool.eq_false_iff]
  exact fun hmatch => hother ((patternsMatch_iff hname (isLower_hostName host port)
    (isLower_hostName host' port')).mp hmatch)

theorem readsBack_of_isPlain (hname : isPlain (hostName host port) = true)
    (hkey : WritableKey crypto keyType key) :
    ReadsBack crypto current host port keyType key := by
  refine Or.inr ⟨fun entry hentry => ?_, ?_⟩
  · rw [writtenEntries_eq hname hkey] at hentry
    obtain rfl := mem_singleton.mp hentry
    simp [KnownHost.revokes]
  · rw [writtenEntries_eq hname hkey]
    refine ⟨_, mem_append_right _ (mem_singleton_self _), ?_, rfl⟩
    exact (patternsMatch_iff hname (isLower_hostName host port)
      (isLower_hostName host port)).mpr rfl

end Plain

/-- Remembering a key touches only that host exactly when the line written reads
back and the lines replaced are about no other host, for a line that is about no
other host itself, as it is for names without pattern characters; and for any
name as many lines are replaced that are about another host as are written. -/
theorem remembers_only_iff (crypto : Crypto) (current host : List Char) (port : UInt16)
    (keyType : List Char) (key : List UInt8) :
    (WritesOnly crypto host port keyType key →
      (RemembersOnly crypto current host port keyType key ↔
        ReadsBack crypto current host port keyType key ∧
          ReplacesOnly crypto current host port keyType)) ∧
    (RemembersOnly crypto current host port keyType key →
      ReadsBack crypto current host port keyType key ∧
        ∀ (host' : List Char) (port' : UInt16),
          hostName host' port' ≠ hostName host port →
          ((parse crypto current).entries.filter fun entry =>
            (entry.marker.isNone && entry.matches crypto (hostName host' port')) &&
              entry.replacedBy crypto (hostName host port) keyType).length =
          ((writtenEntries crypto host port keyType key).filter fun entry =>
            entry.marker.isNone && entry.matches crypto (hostName host' port')).length) ∧
    (isPlain (hostName host port) = true → WritableKey crypto keyType key →
      WritesOnly crypto host port keyType key ∧ ReadsBack crypto current host port keyType key) :=
  ⟨remembersOnly_iff,
    fun h => ⟨readsBack_of_known h, fun _ _ hother => counts_of_same h hother⟩,
    fun hname hkey => ⟨writesOnly_of_isPlain hname hkey, readsBack_of_isPlain hname hkey⟩⟩

namespace RememberWitness

/-- The digit of six bits in base64. -/
def digit (n : Nat) : Char :=
  if n < 26 then Char.ofNat (65 + n)
  else if n < 52 then Char.ofNat (71 + n)
  else if n < 62 then Char.ofNat (n - 4)
  else if n = 62 then '+' else '/'

def undigit (c : Char) : Option Nat :=
  let n := c.toNat
  if 65 ≤ n ∧ n ≤ 90 then some (n - 65)
  else if 97 ≤ n ∧ n ≤ 122 then some (n - 71)
  else if 48 ≤ n ∧ n ≤ 57 then some (n + 4)
  else if c = '+' then some 62
  else if c = '/' then some 63
  else none

/-- Base64 of whole groups of three bytes. -/
def encode : List UInt8 → List Char
  | a :: b :: c :: rest =>
    let n := (a.toNat * 256 + b.toNat) * 256 + c.toNat
    digit (n / 262144) :: digit (n / 4096 % 64) :: digit (n / 64 % 64) ::
      digit (n % 64) :: encode rest
  | _ => []

def decode : List Char → Option (List UInt8)
  | [] => some []
  | a :: b :: c :: d :: rest => do
      let n := (((← undigit a) * 64 + (← undigit b)) * 64 + (← undigit c)) * 64 + (← undigit d)
      let later ← decode rest
      pure (UInt8.ofNat (n / 65536) :: UInt8.ofNat (n / 256 % 256) ::
        UInt8.ofNat (n % 256) :: later)
  | _ => none

def crypto : Crypto := ⟨decode, encode, encode, id, fun salt _ => salt⟩

/-- A key of type `rsa-x`: its type's length and name, and three bytes. -/
def key (n : UInt8) : List UInt8 := [0, 0, 0, 5, 114, 115, 97, 45, 120, n, n, n]

def keyType : List Char := "rsa-x".toList

def line (hosts : String) (n : UInt8) : List Char :=
  hosts.toList ++ ' ' :: keyType ++ ' ' :: encode (key n) ++ ['\n']

/-- One line for two hosts: remembering a key of the first forgets the second. -/
def shared : List Char := line "a,b" 1

theorem other_host_forgotten :
    (check crypto [((), parse crypto shared)] "b".toList 22 keyType (key 1),
      check crypto [((), parse crypto
        (remember crypto shared "a".toList 22 keyType (key 2)))] "b".toList 22 keyType
        (key 1)) = (.known () 1, .new []) ∧
    (check crypto [((), parse crypto [])] "b".toList 22 keyType (key 1),
      check crypto [((), parse crypto
        (remember crypto [] "*".toList 22 keyType (key 1)))] "b".toList 22 keyType
        (key 1)) = (.new [], .known () 1) := by decide +kernel

/-- A line for each of two hosts. -/
def apart : List Char := line "b" 1 ++ line "a" 1

theorem only_host_remembered : RemembersOnly crypto apart "a".toList 22 keyType (key 2) := by
  have hname : isPlain (hostName "a".toList 22) = true := by decide
  have hkey : WritableKey crypto keyType (key 2) :=
    ⟨by decide, by decide +kernel, by decide +kernel, by decide +kernel⟩
  have hall := remembers_only_iff crypto apart "a".toList 22 keyType (key 2)
  obtain ⟨hwrites, hreads⟩ := hall.2.2 hname hkey
  refine (hall.1 hwrites).mpr ⟨hreads, ?_⟩
  have hhosts : ∀ entry ∈ (parse crypto apart).entries,
      entry.replacedBy crypto (hostName "a".toList 22) keyType = true →
        entry.hashed = false ∧ entry.rawHosts = hostName "a".toList 22 := by
    decide +kernel
  intro entry hentry hrep host' port' hother
  obtain ⟨hhashed, hraw⟩ := hhosts entry hentry hrep
  rw [KnownHost.matches, hhashed, hraw, Bool.eq_false_iff]
  exact fun hmatch => hother ((patternsMatch_iff hname (isLower_hostName _ _)
    (isLower_hostName host' port')).mp hmatch)

end RememberWitness

end KnownHosts

end Opensesh
