/-
The texts of an OpenSSH client configuration: how a line splits into a keyword and
arguments, what a forward's arguments say, and the two replacements a host name is
expanded by, next to the expansion that reads it once from left to right.
-/
import Opensesh.Target
import Opensesh.Tunnels

namespace Opensesh.SshConfig

open List
open Target (parseNumber)
open Text (splitOnce stripPrefix toAsciiLower)

/-- The arguments of the rest of a line, inside or outside quotes and inside or outside an
argument. -/
def argsFrom (current : List Char) (quoted inArg : Bool) :
    List Char → Except String (List (List Char))
  | [] =>
    if quoted then .error "a quote is not closed"
    else .ok (if inArg then [current] else [])
  | c :: rest =>
    if c = '"' then argsFrom current (!quoted) true rest
    else if isWhitespace c && !quoted then
      if inArg then (argsFrom [] quoted false rest).map (current :: ·)
      else argsFrom current quoted false rest
    else argsFrom (current ++ [c]) quoted true rest

/-- Splits the arguments of a line: whitespace separates, double quotes group. -/
def splitArgs (text : List Char) : Except String (List (List Char)) := argsFrom [] false false text

/-- What ends a keyword. -/
def endsKeyword (c : Char) : Bool := isWhitespace c || c == '='

/-- `Keyword args` or `Keyword=args`. -/
def splitKeyword (line : List Char) : Option (List Char × List Char) :=
  let line := Text.trim line
  let keyword := line.takeWhile fun c => !endsKeyword c
  if keyword = [] then none
  else
    let rest := (line.dropWhile fun c => !endsKeyword c).dropWhile isWhitespace
    let rest := match stripPrefix ['='] rest with
      | some after => after.dropWhile isWhitespace
      | none => rest
    some (keyword.map toAsciiLower, rest)

def hasWildcard (pattern : List Char) : Bool :=
  pattern.any fun c => c == '*' || c == '?' || c == '!'

def startsWithDash (text : List Char) : Bool := text.head? == some '-'

/-- A forward of a host. -/
structure SshForward where
  kind : Tunnels.Kind
  bindAddress : Option (List Char)
  bindPort : Nat
  destination : Option (List Char × Nat)
  line : Nat
deriving DecidableEq

/-- `[address]` without its brackets; anything else as it is. -/
def unbracket (text : List Char) : List Char :=
  match text with
  | '[' :: rest => if rest.getLast? = some ']' then rest.dropLast else text
  | _ => text

def portOf (text : List Char) : Except String Nat :=
  match parseNumber 65535 text with
  | some port => .ok port
  | none => .error (String.ofList text ++ " is not a port")

/-- `host:port`, `[v6]:port`, or just `port` when the host is optional. -/
def splitHostPort (text : List Char) (hostOptional : Bool) :
    Except String (Option (List Char) × Nat) :=
  match stripPrefix ['['] text with
  | some rest =>
    match splitOnce ']' rest with
    | none => .error (String.ofList text ++ ": a bracket is not closed")
    | some (address, after) =>
      match stripPrefix [':'] after with
      | none => .error (String.ofList text ++ ": a port is missing")
      | some number => (portOf number).map fun port => (some address, port)
  | none =>
    match Target.rsplitOnce ':' text with
    | some (address, number) =>
      if address.contains ':' then
        .error (String.ofList text ++ ": an IPv6 address needs brackets ([address]:port)")
      else (portOf number).map fun port => (some address, port)
    | none =>
      if hostOptional then (portOf text).map fun port => (none, port)
      else .error (String.ofList text ++ ": expected host:port")

/-- Where the connections of a forward go: nowhere in particular for a dynamic one. -/
def destinationOf (kind : Tunnels.Kind) (target : Option (List Char)) :
    Except String (Option (List Char × Nat)) :=
  match kind, target with
  | .dynamic, _ => .ok none
  | .remote, none => .error
      "RemoteForward without a destination (a SOCKS proxy on the server) is not supported"
  | .localPort, none => .error "a destination (host:port) is missing"
  | _, some target =>
    if target.head? = some '/' then .error "forwarding to Unix sockets is not supported"
    else match splitHostPort target false with
      | .error message => .error message
      | .ok (some host, port) =>
        if host ≠ [] ∧ 0 < port then .ok (some (host, port))
        else .error (String.ofList target ++ ": expected host:port")
      | .ok (none, _) => .error (String.ofList target ++ ": expected host:port")

/-- The arguments of a forward line. -/
def parseForward (kind : Tunnels.Kind) (args : List (List Char)) (line : Nat) :
    Except String SshForward :=
  match args.head? with
  | none => .error "a forward needs a port"
  | some listen =>
    if listen.head? = some '/' then .error "forwarding Unix sockets is not supported"
    else do
      let (bindAddress, bindPort) ← splitHostPort listen true
      let destination ← destinationOf kind args[1]?
      pure { kind, bindAddress := bindAddress.map unbracket, bindPort, destination, line }

/-- A text with one text for every pair of two characters, found from the left. -/
def replacePair (a b : Char) (put : List Char) : List Char → List Char
  | [] => []
  | [c] => [c]
  | c :: d :: rest =>
    if c = a ∧ d = b then put ++ replacePair a b put rest
    else c :: replacePair a b put (d :: rest)

/-- A `HostName` value: the name for every `%h`, and then `%` for every `%%`. -/
def replaceName (hostAlias value : List Char) : List Char :=
  replacePair '%' '%' ['%'] (replacePair '%' 'h' hostAlias value)

/-- A `HostName` value read once from left to right: `%h` is the name, `%%` is `%`. -/
def expandName (hostAlias : List Char) : List Char → List Char
  | [] => []
  | [c] => [c]
  | c :: d :: rest =>
    if c = '%' ∧ d = 'h' then hostAlias ++ expandName hostAlias rest
    else if c = '%' ∧ d = '%' then '%' :: expandName hostAlias rest
    else c :: expandName hostAlias (d :: rest)

/-- How often, from left to right, a `%%` is followed by an `h` that so is no name. -/
def escapes : List Char → Nat
  | [] => 0
  | [_] => 0
  | c :: d :: rest =>
    if c = '%' ∧ d = 'h' then escapes rest
    else if c = '%' ∧ d = '%' then escapes rest + if rest.head? = some 'h' then 1 else 0
    else escapes (d :: rest)

example : replaceName ['a'] ['%', 'h'] = expandName ['a'] ['%', 'h'] ∧ escapes ['%', 'h'] = 0 := by
  simp [replaceName, replacePair, expandName, escapes]

/-- The names and values that the two replacements expand as one reading from left to right
does: no `%%` of the value has an `h` after it, or the name is `h`. With a name that has a `%`
itself, what it stands next to decides. -/
def ExpandsAlike (hostAlias value : List Char) : Prop :=
  if '%' ∈ hostAlias then replaceName hostAlias value = expandName hostAlias value
  else hostAlias = ['h'] ∨ escapes value = 0

instance (hostAlias value : List Char) : Decidable (ExpandsAlike hostAlias value) :=
  inferInstanceAs (Decidable (if '%' ∈ hostAlias then
    replaceName hostAlias value = expandName hostAlias value
  else hostAlias = ['h'] ∨ escapes value = 0))

section

variable {a b c d : Char} {put rest text hostAlias value : List Char}

theorem replacePair_pair : replacePair a b put (a :: b :: rest) =
    put ++ replacePair a b put rest := by
  rw [replacePair, if_pos ⟨rfl, rfl⟩]

theorem replacePair_cons (h : c ≠ a ∨ d ≠ b) :
    replacePair a b put (c :: d :: rest) = c :: replacePair a b put (d :: rest) := by
  rw [replacePair, if_neg fun ⟨hc, hd⟩ => h.elim (· hc) (· hd)]

theorem replacePair_cons_of_ne (h : c ≠ a) :
    replacePair a b put (c :: rest) = c :: replacePair a b put rest := by
  cases rest with
  | nil => rfl
  | cons d rest => exact replacePair_cons (Or.inl h)

theorem replacePair_append (h : a ∉ text) :
    replacePair a b put (text ++ rest) = text ++ replacePair a b put rest := by
  induction text with
  | nil => rfl
  | cons c text ih =>
    rw [mem_cons, not_or] at h
    rw [cons_append, replacePair_cons_of_ne (Ne.symm h.1), ih h.2, cons_append]

/-- A `%` before what is replaced: it is one of two, or it stays. -/
theorem replaceName_percent (h : rest.head? ≠ some 'h') :
    replacePair '%' 'h' hostAlias ('%' :: rest) = '%' :: replacePair '%' 'h' hostAlias rest := by
  cases rest with
  | nil => rfl
  | cons d rest => exact replacePair_cons (Or.inr fun hd => h (congrArg some hd))

theorem head?_replacePair : (replacePair '%' '%' ['%'] text).head? = text.head? := by
  cases text with
  | nil => rfl
  | cons c rest =>
    cases rest with
    | nil => rfl
    | cons d rest =>
      rw [replacePair]
      split
      next h => rw [h.1]; rfl
      next => rfl

/-- Both readings start with the same character. -/
theorem head?_replaceName : (replaceName hostAlias value).head? =
    (expandName hostAlias value).head? := by
  rw [replaceName, head?_replacePair]
  induction value using expandName.induct with
  | case1 => rfl
  | case2 => rfl
  | case3 c d rest h ih =>
    rw [expandName, if_pos h, h.1, h.2, replacePair_pair, List.head?_append, List.head?_append, ih]
  | case4 c d rest hname h ih =>
    rw [expandName, if_neg hname, if_pos h, replacePair_cons (by simpa [← not_and_or] using hname),
      h.1]
    rfl
  | case5 c d rest hname hpercent ih =>
    rw [expandName, if_neg hname, if_neg hpercent,
      replacePair_cons (by simpa [← not_and_or] using hname)]
    rfl

theorem countP_replacePair (p : Char → Bool) (hp : p '%' = false) :
    (replacePair '%' '%' ['%'] text).countP p = text.countP p := by
  have hpercent : ∀ rest, ('%' :: rest).countP p = rest.countP p := fun rest =>
    countP_cons_of_neg (by simp [hp])
  induction text using (replacePair.induct '%' '%') with
  | case1 => rfl
  | case2 => rfl
  | case3 c d rest h ih =>
    rw [h.1, h.2, replacePair_pair, singleton_append, hpercent, hpercent, hpercent, ih]
  | case4 c d rest h ih =>
    rw [replacePair, if_neg h, countP_cons, ih, ← countP_cons]

/-- What the replacements write beside the one reading: the name in place of every `h` that is
no name. -/
theorem countP_replaceName (p : Char → Bool) (hp : p '%' = false) :
    (replaceName hostAlias value).countP p + escapes value * (if p 'h' then 1 else 0) =
      (expandName hostAlias value).countP p + escapes value * hostAlias.countP p := by
  have hpercent : ∀ rest, ('%' :: rest).countP p = rest.countP p := fun rest =>
    countP_cons_of_neg (by simp [hp])
  rw [replaceName, countP_replacePair p hp]
  induction value using expandName.induct with
  | case1 => simp [replacePair, expandName, escapes]
  | case2 => simp [replacePair, expandName, escapes]
  | case3 c d rest h ih =>
    rw [expandName, if_pos h, escapes, if_pos h, h.1, h.2, replacePair_pair,
      countP_append, countP_append]
    omega
  | case4 c d rest hname h ih =>
    rw [expandName, if_neg hname, if_pos h, escapes, if_neg hname, if_pos h, h.1, h.2,
      replacePair_cons (Or.inr (by decide)), hpercent, hpercent]
    by_cases hnext : rest.head? = some 'h'
    · obtain ⟨after, rfl⟩ := List.head?_eq_some_iff.mp hnext
      rw [replacePair_cons_of_ne (by decide), countP_cons] at ih
      rw [replacePair_pair, countP_append, if_pos hnext, Nat.add_mul, Nat.add_mul,
        Nat.one_mul, Nat.one_mul]
      omega
    · rw [replaceName_percent hnext, hpercent, if_neg hnext]
      exact ih
  | case5 c d rest hname hpair ih =>
    rw [expandName, if_neg hname, if_neg hpair, escapes, if_neg hname, if_neg hpair,
      replacePair_cons (by simpa [← not_and_or] using hname), countP_cons,
      @countP_cons _ _ c (expandName _ _)]
    omega

theorem replaceName_eq (hplain : '%' ∉ hostAlias) (h : hostAlias = ['h'] ∨ escapes value = 0) :
    replaceName hostAlias value = expandName hostAlias value := by
  rw [replaceName]
  induction value using expandName.induct with
  | case1 => rfl
  | case2 => rfl
  | case3 c d rest hname ih =>
    rw [escapes, if_pos hname] at h
    rw [expandName, if_pos hname, hname.1, hname.2, replacePair_pair,
      replacePair_append hplain, ih h]
  | case4 c d rest hname hpercent ih =>
    rw [escapes, if_neg hname, if_pos hpercent, Nat.add_eq_zero_iff] at h
    rw [expandName, if_neg hname, if_pos hpercent, hpercent.1, hpercent.2,
      replacePair_cons (Or.inr (by decide)), ← ih (h.imp_right And.left)]
    by_cases hnext : rest.head? = some 'h'
    · obtain ⟨after, rfl⟩ := List.head?_eq_some_iff.mp hnext
      have hname : hostAlias = ['h'] := h.resolve_right fun hzero => by
        rw [if_pos hnext] at hzero
        exact absurd hzero.2 Nat.one_ne_zero
      rw [hname, replacePair_pair, singleton_append,
        replacePair_cons (Or.inr (show 'h' ≠ '%' by decide)),
        replacePair_cons_of_ne (b := 'h') (show 'h' ≠ '%' by decide)]
    · rw [replaceName_percent hnext, replacePair_pair, singleton_append]
  | case5 c d rest hname hpercent ih =>
    rw [escapes, if_neg hname, if_neg hpercent] at h
    rw [expandName, if_neg hname, if_neg hpercent,
      replacePair_cons (by simpa [← not_and_or] using hname), ← ih h]
    by_cases hc : c = '%'
    · rw [not_and] at hpercent
      rw [hc, replacePair_cons_of_ne (hpercent hc), replacePair_cons (Or.inr (hpercent hc))]
    · rw [replacePair_cons_of_ne hc]

theorem expandsAlike_iff :
    ExpandsAlike hostAlias value ↔ replaceName hostAlias value = expandName hostAlias value := by
  rw [ExpandsAlike]
  split
  case isTrue => rfl
  case isFalse hplain =>
    refine ⟨replaceName_eq hplain, fun heq => Classical.or_iff_not_imp_right.mpr fun hne => ?_⟩
    -- As many characters, and as many `h`, where the name stands for an `h`.
    have hlength := @countP_replaceName hostAlias value (fun c => c != '%') rfl
    have hcount := @countP_replaceName hostAlias value (fun c => c == 'h') rfl
    rw [heq, Nat.add_left_cancel_iff] at hlength hcount
    have hlength := Nat.eq_of_mul_eq_mul_left (Nat.pos_of_ne_zero hne) hlength
    have hcount := Nat.eq_of_mul_eq_mul_left (Nat.pos_of_ne_zero hne) hcount
    have hall : ∀ c ∈ hostAlias, (c != '%') = true := fun c hc =>
      bne_iff_ne.mpr fun heq => hplain (heq ▸ hc)
    rw [countP_eq_length.mpr hall] at hlength
    obtain ⟨c, rfl⟩ := length_eq_one_iff.mp hlength.symm
    rw [countP_singleton] at hcount
    by_cases hc : c = 'h'
    · rw [hc]
    · rw [if_neg (show ¬(c == 'h') = true by simpa using hc)] at hcount
      exact absurd hcount Nat.one_ne_zero

end

end Opensesh.SshConfig
