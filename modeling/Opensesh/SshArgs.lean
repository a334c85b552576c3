/-
The command line of OpenSSH: the words a connection becomes, quoted for a shell, and what
`ssh` reads from them. A jump host that holds a comma is read as two.
-/
import Opensesh.TargetPieces
import Opensesh.HostFields

namespace Opensesh.Target

open Option
open Text
open Saved (X11Forwarding)

/-- The OpenSSH options of a connection. -/
structure SshArgs where
  user : Option (List Char)
  host : List Char
  /-- Port, when not 22. -/
  port : Option UInt16
  /-- Jump hosts as `[user@]host[:port]`. -/
  jump : List (List Char)
  identityFile : Option (List Char)
  /-- Keepalive interval in seconds (0: none). -/
  keepaliveSecs : UInt32
  compression : Bool
  agentForwarding : Bool
  x11 : X11Forwarding
  deriving DecidableEq

namespace SshArgs

def default : SshArgs := ⟨none, [], none, [], none, 0, false, false, .off⟩

/-- The port that is written. -/
def shownPort (args : SshArgs) : Option UInt16 := args.port.filter (· ≠ 22)

/-- The key file that is written. -/
def shownFile (args : SshArgs) : Option (List Char) :=
  (args.identityFile.map Text.trim).filter (· ≠ [])

/-- An option with its value, when there is one. -/
def optionWords (option : String) (value : Option (List Char)) : List (List Char) :=
  match value with
  | some value => [option.toList, value]
  | none => []

def jumpWords (args : SshArgs) : List (List Char) :=
  optionWords "-J" (if args.jump.isEmpty then none else some (joinWith ',' args.jump))

def keepaliveName : List Char := "ServerAliveInterval".toList

def keepaliveWords (args : SshArgs) : List (List Char) :=
  optionWords "-o" <|
    if args.keepaliveSecs > 0 then
      some (keepaliveName ++ '=' :: digits args.keepaliveSecs.toNat)
    else none

def flagWords (option : String) (flag : Bool) : List (List Char) :=
  if flag then [option.toList] else []

def x11Words : X11Forwarding → List (List Char)
  | .off => []
  | .untrusted => ["-X".toList]
  | .trusted => ["-Y".toList]

def destination (args : SshArgs) : List Char :=
  match args.user with
  | some user => user ++ '@' :: args.host
  | none => args.host

/-- The arguments after `ssh`. -/
def toArgs (args : SshArgs) : List (List Char) :=
  optionWords "-p" (args.shownPort.map fun port => digits port.toNat) ++
    (optionWords "-i" args.shownFile ++ (args.jumpWords ++ (args.keepaliveWords ++
    (flagWords "-C" args.compression ++ (flagWords "-A" args.agentForwarding ++
    (x11Words args.x11 ++ [args.destination]))))))

/-- Checks what goes on the command line: nothing may look like an option. -/
def check (args : SshArgs) : Except TargetError Unit := do
  checkName args.host
  args.user.elim (.ok ()) checkUser
  checkJump args.jump
  args.identityFile.elim (.ok ()) fun file =>
    if (file.dropWhile isWhitespace).head? = some '-' then .error (.badName file) else .ok ()

end SshArgs

def isSafe (c : Char) : Bool :=
  c.isAlphanum || "@%+=:,./-_[]~".toList.contains c

/-- A word between quotes: each quote of its own is written outside of them. -/
def quoted (arg : List Char) : List Char :=
  '\'' :: (arg.flatMap fun c => if c = '\'' then "'\\''".toList else [c]) ++ ['\'']

/-- Quotes `arg` for a POSIX shell when it has anything but safe characters. -/
def shellQuote (arg : List Char) : List Char :=
  if !arg.isEmpty && arg.all isSafe then arg else quoted arg

/-- The value of an option. -/
def takeOption (args : SshArgs) (option value : List Char) : Option SshArgs :=
  if option = "-p".toList then
    (parseNumber 65535 value).map fun port => { args with port := some (.ofNat port) }
  else if option = "-i".toList then some { args with identityFile := some value }
  else if option = "-J".toList then some { args with jump := splitOn ',' value }
  else if option = "-o".toList then
    match splitOnce '=' value with
    | some (name, secs) =>
      if name = SshArgs.keepaliveName then
        (parseNumber 4294967295 secs).map fun secs => { args with keepaliveSecs := .ofNat secs }
      else none
    | none => none
  else none

/-- An option without a value. -/
def takeFlag (args : SshArgs) (option : List Char) : Option SshArgs :=
  if option = "-C".toList then some { args with compression := true }
  else if option = "-A".toList then some { args with agentForwarding := true }
  else if option = "-X".toList then some { args with x11 := .untrusted }
  else if option = "-Y".toList then some { args with x11 := .trusted }
  else none

def takesValue (option : List Char) : Bool :=
  ["-p".toList, "-i".toList, "-J".toList, "-o".toList].contains option

/-- The user and the host of the destination, split at its last `@`. -/
def takeDestination (args : SshArgs) (word : List Char) : SshArgs :=
  match rsplitOnce '@' word with
  | some (user, host) => { args with user := some user, host }
  | none => { args with user := none, host := word }

/-- What `ssh` reads from its words, and the words of the remote command after the
destination. No other option is known. -/
def readArgs (args : SshArgs) : List (List Char) → Option (SshArgs × List (List Char))
  | [] => none
  | word :: rest =>
    if takesValue word then
      match rest with
      | [] => none
      | value :: rest => do
        let args ← takeOption args word value
        readArgs args rest
    else if word.head? = some '-' then do
      let args ← takeFlag args word
      readArgs args rest
    else some (takeDestination args word, rest)

theorem range_of_isAlphanum {c : Char} (h : c.isAlphanum = true) :
    48 ≤ c.toNat ∧ c.toNat ≤ 122 := by
  have hcases : (decide ('A'.val ≤ c.val ∧ c.val ≤ 'Z'.val) ||
      (decide ('a'.val ≤ c.val) && decide (c.val ≤ 'z'.val)) ||
      (decide ('0'.val ≤ c.val) && decide (c.val ≤ '9'.val))) = true := h
  have hends : 'A'.val.toNat = 65 ∧ 'Z'.val.toNat = 90 ∧ 'a'.val.toNat = 97 ∧
      'z'.val.toNat = 122 ∧ '0'.val.toNat = 48 ∧ '9'.val.toNat = 57 := by decide
  simp only [Bool.or_eq_true, Bool.and_eq_true, decide_eq_true_eq, UInt32.le_iff_toNat_le] at hcases
  rw [Char.toNat]
  omega

theorem plain_of_isSafe {c : Char} (h : isSafe c = true) :
    c ≠ '\'' ∧ c ≠ '"' ∧ c ≠ '\\' ∧ isWhitespace c = false := by
  refine ⟨?_, ?_, ?_, ?_⟩
  · rintro rfl
    exact absurd h (by decide)
  · rintro rfl
    exact absurd h (by decide)
  · rintro rfl
    exact absurd h (by decide)
  · rw [isSafe, Bool.or_eq_true] at h
    rcases h with h | h
    · have hrange := range_of_isAlphanum h
      simp [isWhitespace]
      omega
    · have hall : "@%+=:,./-_[]~".toList.all (fun c => !isWhitespace c) = true := by decide
      simpa using List.all_eq_true.mp hall c (by simpa using h)

section

variable {word current rest : List Char} {inWord : Bool}

theorem wordsIn_safe (h : word.all isSafe = true) :
    wordsIn .none inWord current (word ++ rest) =
      wordsIn .none (inWord || !word.isEmpty) (current ++ word) rest := by
  induction word generalizing inWord current with
  | nil => simp
  | cons c word ih =>
    rw [List.all_cons, Bool.and_eq_true] at h
    obtain ⟨hsingle, hdouble, hescape, hspace⟩ := plain_of_isSafe h.1
    have hstep : wordsIn .none inWord current (c :: (word ++ rest)) =
        wordsIn .none true (current ++ [c]) (word ++ rest) := by
      rw [wordsIn.eq_def]
      simp only [if_neg hsingle, if_neg hdouble, if_neg hescape, hspace, Bool.false_eq_true,
        if_false]
    rw [List.cons_append, hstep, ih h.2]
    simp

theorem wordsIn_open :
    wordsIn .none inWord current ('\'' :: rest) = wordsIn .single true current rest := by
  rw [wordsIn.eq_def]
  rfl

/-- Between quotes a word is read as it is, up to the quote that closes it. -/
theorem wordsIn_quoted :
    wordsIn .single inWord current
        ((word.flatMap fun c => if c = '\'' then "'\\''".toList else [c]) ++ '\'' :: rest) =
      wordsIn .none true (current ++ word) rest := by
  induction word generalizing inWord current with
  | nil => rw [List.flatMap_nil, List.nil_append, wordsIn, if_pos rfl, List.append_nil]
  | cons c word ih =>
    rw [List.flatMap_cons, List.append_assoc]
    by_cases hquote : c = '\''
    · subst hquote
      have hout : ∀ text, wordsIn .single inWord current ("'\\''".toList ++ text) =
          wordsIn .single true (current ++ ['\'']) text := by
        intro text
        change wordsIn .single inWord current ('\'' :: '\\' :: '\'' :: '\'' :: text) = _
        simp only [wordsIn, if_true, wordsIn_open]
        rfl
      rw [if_pos rfl, hout, ih]
      simp
    · rw [if_neg hquote, List.singleton_append, wordsIn, if_neg hquote, ih]
      simp

theorem wordsIn_quote (word rest : List Char) :
    wordsIn .none false [] (quoted word ++ rest) = wordsIn .none true word rest := by
  rw [quoted, List.cons_append, List.cons_append, List.append_assoc, List.singleton_append,
    wordsIn_open]
  exact wordsIn_quoted

theorem wordsIn_shellQuote (word rest : List Char) :
    wordsIn .none false [] (shellQuote word ++ rest) = wordsIn .none true word rest := by
  rw [shellQuote]
  split
  next hsafe =>
    rw [Bool.and_eq_true, Bool.not_eq_true'] at hsafe
    rw [wordsIn_safe hsafe.2, hsafe.1]
    rfl
  next => exact wordsIn_quote word rest

theorem wordsIn_space (word rest : List Char) :
    wordsIn .none true word (' ' :: rest) = (wordsIn .none false [] rest).map (word :: ·) := by
  rw [wordsIn.eq_def]
  rfl

end

theorem splitWords_shellQuote (words : List (List Char)) :
    splitWords (joinWith ' ' (words.map shellQuote)) = .ok words := by
  rw [splitWords]
  induction words with
  | nil => rfl
  | cons word words ih =>
    cases words with
    | nil =>
      have hword := wordsIn_shellQuote word []
      rw [List.append_nil] at hword
      rw [List.map_singleton, joinWith, hword, wordsIn]
      rfl
    | cons next words =>
      rw [List.map_cons, List.map_cons, joinWith, wordsIn_shellQuote, wordsIn_space]
      · rw [List.map_cons] at ih
        rw [ih]
        rfl
      · exact List.cons_ne_nil _ _

theorem takesValue_eq_false {word : List Char} (h : word.head? ≠ some '-') :
    takesValue word = false := by
  rw [takesValue, List.contains_eq_mem, decide_eq_false_iff_not]
  intro hmem
  have hall : ["-p".toList, "-i".toList, "-J".toList, "-o".toList].all
      (fun option => option.head? == some '-') = true := by decide
  exact h (by simpa using List.all_eq_true.mp hall word hmem)

section

variable {args reading next : SshArgs} {rest : List (List Char)}

open SshArgs

theorem readArgs_option {option : String} {value : List Char}
    (hoption : takesValue option.toList = true)
    (htake : takeOption reading option.toList value = some next) :
    readArgs reading (option.toList :: value :: rest) = readArgs next rest := by
  rw [readArgs, if_pos hoption, htake]
  rfl

theorem readArgs_flag {option : String} (hoption : takesValue option.toList = false)
    (hhead : option.toList.head? = some '-') (htake : takeFlag reading option.toList = some next) :
    readArgs reading (option.toList :: rest) = readArgs next rest := by
  rw [readArgs.eq_def]
  simp only [hoption, Bool.false_eq_true, if_false, if_pos hhead, htake]
  rfl

theorem readArgs_port (hfresh : reading.port = none) :
    readArgs reading (optionWords "-p" (args.shownPort.map fun port => digits port.toNat) ++ rest) =
      readArgs { reading with port := args.shownPort } rest := by
  cases args.shownPort with
  | none =>
    change readArgs reading rest = readArgs { reading with port := none } rest
    rw [← hfresh]
  | some port =>
    have hread := parseNumber_digits (Nat.le_of_lt_succ port.toNat_lt)
    refine readArgs_option (by decide) ?_
    rw [takeOption, if_pos rfl, hread, map_some, UInt16.ofNat_toNat]

theorem readArgs_file (hfresh : reading.identityFile = none) :
    readArgs reading (optionWords "-i" args.shownFile ++ rest) =
      readArgs { reading with identityFile := args.shownFile } rest := by
  cases args.shownFile with
  | none =>
    change readArgs reading rest = readArgs { reading with identityFile := none } rest
    rw [← hfresh]
  | some file =>
    exact readArgs_option (by decide) (by rw [takeOption, if_neg (by decide), if_pos rfl])

/-- The jump hosts that are read. -/
def SshArgs.readJump (args : SshArgs) : List (List Char) :=
  if args.jump.isEmpty then [] else splitOn ',' (joinWith ',' args.jump)

theorem readArgs_jump (hfresh : reading.jump = []) :
    readArgs reading (args.jumpWords ++ rest) =
      readArgs { reading with jump := args.readJump } rest := by
  rw [jumpWords, readJump]
  split
  · change readArgs reading rest = readArgs { reading with jump := [] } rest
    rw [← hfresh]
  · exact readArgs_option (by decide)
      (by rw [takeOption, if_neg (by decide), if_neg (by decide), if_pos rfl])

theorem readArgs_keepalive (hfresh : reading.keepaliveSecs = 0) :
    readArgs reading (args.keepaliveWords ++ rest) =
      readArgs { reading with keepaliveSecs := args.keepaliveSecs } rest := by
  rw [keepaliveWords]
  split
  · have hname : '=' ∉ keepaliveName := by decide
    have hread := parseNumber_digits (Nat.le_of_lt_succ args.keepaliveSecs.toNat_lt)
    refine readArgs_option (by decide) ?_
    rw [takeOption, if_neg (by decide), if_neg (by decide), if_neg (by decide), if_pos rfl,
      splitOnce_append hname]
    simp only [if_pos, hread, map_some, UInt32.ofNat_toNat]
  next hzero =>
    have hsecs : args.keepaliveSecs = 0 := by simpa using hzero
    change readArgs reading rest = readArgs { reading with keepaliveSecs := _ } rest
    rw [hsecs, ← hfresh]

theorem readArgs_compression (hfresh : reading.compression = false) :
    readArgs reading (flagWords "-C" args.compression ++ rest) =
      readArgs { reading with compression := args.compression } rest := by
  cases args.compression with
  | false =>
    change readArgs reading rest = readArgs { reading with compression := false } rest
    rw [← hfresh]
  | true => exact readArgs_flag (by decide) (by decide) rfl

theorem readArgs_agent (hfresh : reading.agentForwarding = false) :
    readArgs reading (flagWords "-A" args.agentForwarding ++ rest) =
      readArgs { reading with agentForwarding := args.agentForwarding } rest := by
  cases args.agentForwarding with
  | false =>
    change readArgs reading rest = readArgs { reading with agentForwarding := false } rest
    rw [← hfresh]
  | true => exact readArgs_flag (by decide) (by decide) rfl

theorem readArgs_x11 (hfresh : reading.x11 = .off) :
    readArgs reading (x11Words args.x11 ++ rest) =
      readArgs { reading with x11 := args.x11 } rest := by
  cases args.x11 with
  | off =>
    change readArgs reading rest = readArgs { reading with x11 := .off } rest
    rw [← hfresh]
  | untrusted => exact readArgs_flag (by decide) (by decide) rfl
  | trusted => exact readArgs_flag (by decide) (by decide) rfl

theorem readArgs_destination (hhost : '@' ∉ args.host)
    (hhead : args.destination.head? ≠ some '-') :
    readArgs reading [args.destination] =
      some ({ reading with user := args.user, host := args.host }, []) := by
  rw [readArgs.eq_def]
  simp only [takesValue_eq_false hhead, Bool.false_eq_true, if_false, if_neg hhead]
  rw [takeDestination, destination]
  cases args.user with
  | none => rw [rsplitOnce_eq_none hhost]
  | some user => rw [rsplitOnce_append hhost]

end

section

variable {args : SshArgs} {words : List (List Char)}

theorem SshArgs.of_check (h : args.check = .ok ()) :
    checkName args.host = .ok () ∧ (∀ user ∈ args.user, checkUser user = .ok ()) ∧
      ∀ hop ∈ args.jump, ∃ endpoint, parseEndpoint hop = .ok endpoint := by
  obtain ⟨⟨⟩, hhost, h⟩ := bind_eq_ok.mp h
  obtain ⟨⟨⟩, huser, h⟩ := bind_eq_ok.mp h
  obtain ⟨⟨⟩, hjump, -⟩ := bind_eq_ok.mp h
  refine ⟨hhost, fun user hsome => ?_, checkJump_eq_ok.mp hjump⟩
  rwa [mem_def.mp hsome] at huser

theorem SshArgs.head?_destination (h : args.check = .ok ()) :
    args.destination.head? ≠ some '-' := by
  obtain ⟨hhost, huser, -⟩ := of_check h
  rw [destination]
  split
  next user hsome =>
    obtain ⟨hne, hhead, -⟩ := checkUser_eq_ok.mp (huser user hsome)
    obtain ⟨c, rest, rfl⟩ := List.exists_cons_of_ne_nil hne
    exact hhead
  next => exact (checkName_eq_ok.mp hhost).2.1

/-- What `ssh` reads from the words of a checked connection: all of it, but for the jump hosts,
which are cut at every comma. -/
theorem readArgs_toArgs (h : args.check = .ok ()) :
    readArgs .default args.toArgs =
      some ({ args with
        port := args.shownPort
        identityFile := args.shownFile
        jump := args.readJump }, []) := by
  have hhost : '@' ∉ args.host := fun hat =>
    ((checkName_eq_ok.mp (SshArgs.of_check h).1).2.2 '@' hat).2.2.1 rfl
  rw [SshArgs.toArgs, readArgs_port rfl, readArgs_file rfl, readArgs_jump rfl,
    readArgs_keepalive rfl, readArgs_compression rfl, readArgs_agent rfl, readArgs_x11 rfl,
    readArgs_destination hhost (SshArgs.head?_destination h)]

theorem splitOn_joinWith_iff {c : Char} {pieces : List (List Char)} (hne : pieces ≠ []) :
    splitOn c (joinWith c pieces) = pieces ↔ ∀ piece ∈ pieces, c ∉ piece := by
  constructor
  · intro hsplit piece hpiece
    rw [← hsplit] at hpiece
    exact notMem_of_mem_splitOn hpiece
  · exact splitOn_joinWith hne

theorem SshArgs.readJump_eq_iff : args.readJump = args.jump ↔ ∀ hop ∈ args.jump, ',' ∉ hop := by
  rw [readJump]
  split
  next hempty =>
    rw [List.isEmpty_iff.mp hempty]
    exact iff_of_true rfl fun hop hhop => absurd hhop List.not_mem_nil
  next hne => exact splitOn_joinWith_iff fun hnil => hne (List.isEmpty_iff.mpr hnil)

/-- The key file is written as it is when it has no white space around it. -/
theorem SshArgs.shownFile_eq_iff :
    args.shownFile = args.identityFile ↔
      ∀ file ∈ args.identityFile, Text.trim file = file ∧ file ≠ [] := by
  rw [shownFile]
  cases args.identityFile with
  | none => simp
  | some file =>
    rw [map_some]
    by_cases hblank : Text.trim file = []
    · have hnone : (some (Text.trim file)).filter (fun file => decide (file ≠ [])) = none := by
        simp [hblank]
      rw [hnone]
      constructor
      · nofun
      · intro hfile
        obtain ⟨htrim, hne⟩ := hfile file rfl
        exact absurd (htrim.symm.trans hblank) hne
    · have hsome : (some (Text.trim file)).filter (fun file => decide (file ≠ [])) =
          some (Text.trim file) := by
        simp [hblank]
      rw [hsome, some.injEq]
      constructor
      · rintro htrim other hother
        obtain rfl := some.inj hother
        exact ⟨htrim, htrim ▸ hblank⟩
      · exact fun hfile => (hfile file rfl).1

theorem SshArgs.shownPort_eq_iff : args.shownPort = args.port ↔ args.port ≠ some 22 := by
  rw [shownPort]
  cases args.port with
  | none => simp
  | some port => simp [filter_eq_some_iff]

/-- What `ssh` reads is the connection exactly when no jump host holds a comma: port 22 is not
written and reads as none, a key file is read without the white space around it, a blank one as
none. The words of any command line come back from a shell. -/
theorem ssh_reads_args_iff (args : SshArgs) (words : List (List Char)) (h : args.check = .ok ()) :
    ((readArgs .default args.toArgs =
          some ({ args with port := args.shownPort, identityFile := args.shownFile }, []) ∧
        splitWords (joinWith ' ' (words.map shellQuote)) = .ok words) ↔
      ∀ hop ∈ args.jump, ',' ∉ hop) ∧
    (readArgs .default args.toArgs = some (args, []) ↔
      (∀ hop ∈ args.jump, ',' ∉ hop) ∧ args.port ≠ some 22 ∧
        ∀ file ∈ args.identityFile, Text.trim file = file ∧ file ≠ []) := by
  rw [readArgs_toArgs h]
  constructor
  · rw [and_iff_left (splitWords_shellQuote words), ← SshArgs.readJump_eq_iff]
    simp
  · rw [← SshArgs.readJump_eq_iff, ← SshArgs.shownPort_eq_iff, ← SshArgs.shownFile_eq_iff]
    constructor
    · intro heq
      have hargs := (Prod.mk.inj (Option.some.inj heq)).1
      exact ⟨congrArg SshArgs.jump hargs, congrArg SshArgs.port hargs,
        congrArg SshArgs.identityFile hargs⟩
    · rintro ⟨hjump, hport, hfile⟩
      rw [hjump, hport, hfile]

end

namespace SshArgsWitness

/-- A connection through a jump host with a comma in its name. -/
def through : SshArgs :=
  { SshArgs.default with host := "db".toList, jump := ["bastion,inner".toList] }

/-- The one jump host is read as two. -/
theorem comma_splits_jump :
    through.check = .ok () ∧
      readArgs .default through.toArgs =
        some ({ through with jump := ["bastion".toList, "inner".toList] }, []) ∧
      ¬ readArgs .default through.toArgs = some (through, []) := by
  decide

def direct : SshArgs :=
  { SshArgs.default with
    user := some "deploy".toList
    host := "web".toList
    port := some 2222
    jump := ["me@bastion:2200".toList] }

theorem reads_back_direct : readArgs .default direct.toArgs = some (direct, []) :=
  (ssh_reads_args_iff direct [] (by decide)).2.mpr (by decide)

end SshArgsWitness

end Opensesh.Target
