/-
Saving an edited file through sudo: whether a password line is sent is asked of one command and
the file is written by another, so the file is only right when sudo treats both alike.
-/
import Opensesh.SshArgs

namespace Opensesh.SudoSave

open List
open Target (splitWords)

/-- Text quoted for a POSIX shell. -/
def shellQuote (text : List Char) : List Char := Target.quoted text

/-- The words of a command, as sudo is asked to run it. -/
abbrev Command := List (List Char)

/-- How sudo is set up: which commands need a password now, and which line it takes for the
password. -/
structure Policy where
  needs : Command → Bool
  accepts : List UInt8 → Bool

/-- What a command leaves: its exit status, and the file that `tee` wrote. -/
structure Ran where
  status : Option Nat
  written : Option (List Char × List UInt8)

/-- The first line of the input, without its end, and what comes after it. -/
def readLine (input : List UInt8) : List UInt8 × List UInt8 :=
  (input.takeWhile (· ≠ 10), (input.dropWhile (· ≠ 10)).drop 1)

/-- A command that was let through; `tee` may fail. -/
def execute (teeStatus : Option Nat) (command : Command) (input : List UInt8) : Ran :=
  match command with
  | [program, dashes, path] =>
    if program = "tee".toList ∧ dashes = "--".toList then
      ⟨teeStatus, if teeStatus = some 0 then some (path, input) else none⟩
    else ⟨some 127, none⟩
  | [program] => if program = "true".toList then ⟨some 0, none⟩ else ⟨some 127, none⟩
  | _ => ⟨some 127, none⟩

/-- `sudo -n`: a password that is needed is not asked for. -/
def sudoQuietly (policy : Policy) (teeStatus : Option Nat) (command : Command)
    (input : List UInt8) : Ran :=
  if policy.needs command then ⟨some 1, none⟩ else execute teeStatus command input

/-- `sudo -S`: a password that is needed is one line of the input; the command gets the rest. -/
def sudoFromInput (policy : Policy) (teeStatus : Option Nat) (command : Command)
    (input : List UInt8) : Ran :=
  if policy.needs command then
    if policy.accepts (readLine input).1 then execute teeStatus command (readLine input).2
    else ⟨some 1, none⟩
  else execute teeStatus command input

/-- The words of a command line whose output goes to a file, without the redirection. -/
def withoutRedirect (words : List (List Char)) : List (List Char) :=
  match words.reverse with
  | _ :: arrow :: before => if arrow = [ '>' ] then before.reverse else words
  | _ => words

/-- The user's shell with a command line. -/
def shell (policy : Policy) (teeStatus : Option Nat) (line : List Char) (input : List UInt8) :
    Ran :=
  match splitWords line with
  | .error _ => ⟨some 2, none⟩
  | .ok words =>
    match withoutRedirect words with
    | program :: option :: words =>
      if program ≠ "sudo".toList then ⟨some 127, none⟩
      else if option = "-n".toList then sudoQuietly policy teeStatus words input
      else if option = "-S".toList then
        match words with
        | prompt :: _ :: command =>
          if prompt = "-p".toList then sudoFromInput policy teeStatus command input
          else ⟨some 1, none⟩
        | _ => ⟨some 1, none⟩
      else ⟨some 1, none⟩
    | _ => ⟨some 127, none⟩

/-- What can go wrong besides: reading the local file, the connection during either command,
`tee`, and asking for the file's size and time afterwards. -/
structure Chance where
  content : Except String (List UInt8)
  probe : Option String
  command : Option String
  teeStatus : Option Nat
  known : Except String (Nat × Nat)

/-- Whether sudo asks for a password: with none needed, a password line would become part of
the file. -/
def probeLine : List Char := "sudo -n true".toList

def teeLine (remote : List Char) : List Char :=
  "sudo -S -p '' tee -- ".toList ++ (shellQuote remote ++ " > /dev/null".toList)

/-- What is sent to `tee`'s command. -/
def inputOf (asked : Bool) (password content : List UInt8) : List UInt8 :=
  if asked then password ++ 10 :: content else content

/-- The save's report, and the file that `tee` wrote. -/
def saveWithSudo (policy : Policy) (chance : Chance) (remote : List Char) (password : List UInt8) :
    Except String (Nat × Nat) × Option (List Char × List UInt8) :=
  match chance.content with
  | .error error => (.error error, none)
  | .ok content =>
    match chance.probe with
    | some error => (.error error, none)
    | none =>
      let check := shell policy chance.teeStatus probeLine []
      match chance.command with
      | some error => (.error error, none)
      | none =>
        let ran := shell policy chance.teeStatus (teeLine remote)
          (inputOf (check.status ≠ some 0) password content)
        if ran.status = some 0 then (chance.known, ran.written) else (.error "", ran.written)

/-- A save that reports success wrote the content, whatever else went wrong or not. -/
def Faithful (policy : Policy) (remote : List Char) (password content : List UInt8) : Prop :=
  ∀ chance, chance.content = .ok content → ∀ known,
    (saveWithSudo policy chance remote password).1 = .ok known →
      (saveWithSudo policy chance remote password).2 = some (remote, content)

def probeCommand : Command := ["true".toList]

def teeCommand (remote : List Char) : Command := ["tee".toList, "--".toList, remote]

/-- When a save is faithful: sudo needs a password for both commands, and the password is one
line; or for neither; or only for `tee`, and the content's first line is not taken for it. -/
def Agrees (policy : Policy) (remote : List Char) (password content : List UInt8) : Prop :=
  match policy.needs probeCommand, policy.needs (teeCommand remote) with
  | false, false => True
  | true, true => 10 ∉ password ∨ policy.accepts (readLine password).1 = false
  | true, false => False
  | false, true => content = [] ∨ policy.accepts (readLine content).1 = false

section

variable {policy : Policy} {remote : List Char} {password content input : List UInt8}

theorem wordsIn_word {word : List Char} (h : word.all Target.isSafe = true) (hne : word ≠ [])
    (rest : List Char) :
    Target.wordsIn .none false [] (word ++ ' ' :: rest) =
      (Target.wordsIn .none false [] rest).map (word :: ·) := by
  have hempty : word.isEmpty = false := by
    cases word with
    | nil => exact absurd rfl hne
    | cons c word => rfl
  rw [Target.wordsIn_safe h, hempty]
  exact Target.wordsIn_space word rest

theorem wordsIn_last {word : List Char} (h : word.all Target.isSafe = true) (hne : word ≠ []) :
    Target.wordsIn .none false [] word = .ok [word] := by
  have hempty : word.isEmpty = false := by
    cases word with
    | nil => exact absurd rfl hne
    | cons c word => rfl
  have hword := @Target.wordsIn_safe word [] [] false h
  rw [List.append_nil, hempty] at hword
  exact hword

theorem wordsIn_arrow (rest : List Char) :
    Target.wordsIn .none false [] ('>' :: ' ' :: rest) =
      (Target.wordsIn .none false [] rest).map ([ '>' ] :: ·) := by
  have hstep : Target.wordsIn .none false [] ('>' :: ' ' :: rest) =
      Target.wordsIn .none true [ '>' ] (' ' :: rest) := by
    rw [Target.wordsIn.eq_def]
    rfl
  rw [hstep, Target.wordsIn_space]

theorem splitWords_probeLine :
    splitWords probeLine = .ok ["sudo".toList, "-n".toList, "true".toList] := by
  have hline : probeLine = "sudo".toList ++ ' ' :: ("-n".toList ++ ' ' :: "true".toList) := rfl
  rw [splitWords, hline, wordsIn_word (by decide) (by decide), wordsIn_word (by decide) (by decide),
    wordsIn_last (by decide) (by decide)]
  rfl

theorem splitWords_teeLine (remote : List Char) :
    splitWords (teeLine remote) = .ok ["sudo".toList, "-S".toList, "-p".toList, [], "tee".toList,
      "--".toList, remote, [ '>' ], "/dev/null".toList] := by
  have hline : teeLine remote = "sudo".toList ++ ' ' :: ("-S".toList ++ ' ' ::
      ("-p".toList ++ ' ' :: (Target.quoted [] ++ ' ' :: ("tee".toList ++ ' ' ::
        ("--".toList ++ ' ' :: (Target.quoted remote ++ ' ' :: '>' :: ' ' ::
          "/dev/null".toList)))))) := rfl
  rw [splitWords, hline, wordsIn_word (by decide) (by decide), wordsIn_word (by decide) (by decide),
    wordsIn_word (by decide) (by decide), Target.wordsIn_quote, Target.wordsIn_space,
    wordsIn_word (by decide) (by decide), wordsIn_word (by decide) (by decide),
    Target.wordsIn_quote, Target.wordsIn_space, wordsIn_arrow,
    wordsIn_last (by decide) (by decide)]
  rfl

theorem shell_probeLine (policy : Policy) (teeStatus : Option Nat) :
    shell policy teeStatus probeLine [] = sudoQuietly policy teeStatus probeCommand [] := by
  rw [shell, splitWords_probeLine]
  rfl

theorem shell_teeLine (policy : Policy) (teeStatus : Option Nat) (remote : List Char)
    (input : List UInt8) :
    shell policy teeStatus (teeLine remote) input =
      sudoFromInput policy teeStatus (teeCommand remote) input := by
  rw [shell, splitWords_teeLine]
  rfl

theorem execute_teeCommand (teeStatus : Option Nat) (remote : List Char) (input : List UInt8) :
    execute teeStatus (teeCommand remote) input =
      ⟨teeStatus, if teeStatus = some 0 then some (remote, input) else none⟩ := rfl

theorem asked_iff (policy : Policy) (teeStatus : Option Nat) :
    decide ((shell policy teeStatus probeLine []).status ≠ some 0) = policy.needs probeCommand := by
  rw [shell_probeLine, sudoQuietly]
  cases policy.needs probeCommand <;> rfl

theorem readLine_cons (byte : UInt8) (input : List UInt8) :
    readLine (byte :: input) =
      if byte = 10 then ([], input) else (byte :: (readLine input).1, (readLine input).2) := by
  by_cases heq : byte = 10
  · rw [readLine, takeWhile_cons, dropWhile_cons, heq]
    rfl
  · simp [readLine, heq]

theorem readLine_append (h : 10 ∉ password) (rest : List UInt8) :
    readLine (password ++ 10 :: rest) = (password, rest) := by
  induction password with
  | nil => rfl
  | cons byte password ih =>
    have hbyte : byte ≠ 10 := fun heq => h (heq ▸ mem_cons_self)
    rw [cons_append, readLine_cons, if_neg hbyte, ih fun hmem => h (mem_cons_of_mem _ hmem)]

theorem readLine_append_of_mem (h : 10 ∈ password) (rest : List UInt8) :
    readLine (password ++ rest) = ((readLine password).1, (readLine password).2 ++ rest) := by
  induction password with
  | nil => exact absurd h not_mem_nil
  | cons byte password ih =>
    rw [cons_append, readLine_cons, readLine_cons]
    by_cases heq : byte = 10
    · rw [if_pos heq, if_pos heq]
    · have hmem : 10 ∈ password := (mem_cons.mp h).resolve_left fun hten => heq hten.symm
      rw [if_neg heq, if_neg heq, ih hmem]

theorem length_readLine (h : content ≠ []) : (readLine content).2.length < content.length := by
  have hdrop := (@dropWhile_sublist _ content fun byte : UInt8 => decide (byte ≠ 10)).length_le
  have hpos := length_pos_iff.mpr h
  rw [readLine, length_drop]
  omega

theorem readLine_eq_self : (readLine content).2 = content ↔ content = [] := by
  constructor
  · intro heq
    by_contra hne
    have hlt := length_readLine hne
    rw [heq] at hlt
    exact Nat.lt_irrefl _ hlt
  · rintro rfl
    rfl

theorem sudoFromInput_teeCommand (policy : Policy) (teeStatus : Option Nat) (remote : List Char)
    (input : List UInt8) (hneeds : policy.needs (teeCommand remote) = true →
      policy.accepts (readLine input).1 = true) :
    sudoFromInput policy teeStatus (teeCommand remote) input =
      ⟨teeStatus, if teeStatus = some 0 then
        some (remote, if policy.needs (teeCommand remote) = true then (readLine input).2 else input)
        else none⟩ := by
  rw [sudoFromInput]
  by_cases htee : policy.needs (teeCommand remote) = true
  · rw [if_pos htee, if_pos (hneeds htee), if_pos htee, execute_teeCommand]
  · rw [if_neg htee, if_neg htee, execute_teeCommand]

/-- What a save that reports success wrote. -/
theorem saveWithSudo_ok {chance : Chance} {known : Nat × Nat}
    (hcontent : chance.content = .ok content)
    (h : (saveWithSudo policy chance remote password).1 = .ok known) :
    (policy.needs (teeCommand remote) = true → policy.accepts
      (readLine (inputOf (policy.needs probeCommand) password content)).1 = true) ∧
    (saveWithSudo policy chance remote password).2 = some (remote,
      if policy.needs (teeCommand remote) = true then
        (readLine (inputOf (policy.needs probeCommand) password content)).2
      else inputOf (policy.needs probeCommand) password content) := by
  simp only [saveWithSudo, hcontent, asked_iff, shell_teeLine] at h ⊢
  cases hprobe : chance.probe with
  | some error => simp only [hprobe, reduceCtorEq] at h
  | none =>
    cases hcommand : chance.command with
    | some error => simp only [hprobe, hcommand, reduceCtorEq] at h
    | none =>
      simp only [hprobe, hcommand] at h ⊢
      by_cases hneeds : policy.needs (teeCommand remote) = true → policy.accepts
          (readLine (inputOf (policy.needs probeCommand) password content)).1 = true
      · refine ⟨hneeds, ?_⟩
        rw [sudoFromInput_teeCommand _ _ _ _ hneeds] at h ⊢
        by_cases hstatus : chance.teeStatus = some 0
        · simp only [hstatus, if_true]
        · simp only [hstatus, if_false, reduceCtorEq] at h
      · obtain ⟨htee, hrefused⟩ := Classical.not_imp.mp hneeds
        rw [sudoFromInput, if_pos htee, if_neg hrefused] at h
        cases h

theorem saveWithSudo_lucky (hneeds : policy.needs (teeCommand remote) = true → policy.accepts
      (readLine (inputOf (policy.needs probeCommand) password content)).1 = true) :
    (saveWithSudo policy ⟨.ok content, none, none, some 0, .ok (0, 0)⟩ remote password).1 =
      .ok (0, 0) := by
  simp only [saveWithSudo, asked_iff, shell_teeLine, sudoFromInput_teeCommand _ _ _ _ hneeds,
    if_true]

theorem faithful_iff_input :
    Faithful policy remote password content ↔
      ((policy.needs (teeCommand remote) = true → policy.accepts
        (readLine (inputOf (policy.needs probeCommand) password content)).1 = true) →
      (if policy.needs (teeCommand remote) = true then
        (readLine (inputOf (policy.needs probeCommand) password content)).2
        else inputOf (policy.needs probeCommand) password content) = content) := by
  constructor
  · intro h hneeds
    have hlucky := @saveWithSudo_lucky policy remote password content hneeds
    have hwritten := (saveWithSudo_ok rfl hlucky).2
    rw [h _ rfl _ hlucky] at hwritten
    exact (Prod.mk.inj (Option.some.inj hwritten)).2.symm
  · intro h chance hcontent known hknown
    obtain ⟨hneeds, hwritten⟩ := saveWithSudo_ok hcontent hknown
    rw [hwritten, h hneeds]

/-- A save that reports success wrote exactly the file's content if and only if sudo treats the
two commands alike, or the difference happens to do no harm. -/
theorem save_faithful_iff (policy : Policy) (remote : List Char) (password content : List UInt8) :
    Faithful policy remote password content ↔ Agrees policy remote password content := by
  rw [faithful_iff_input, Agrees]
  cases hprobe : policy.needs probeCommand with
  | false =>
    cases htee : policy.needs (teeCommand remote) with
    | false => simp [inputOf]
    | true =>
      simp only [if_true, inputOf, Bool.false_eq_true, if_false, readLine_eq_self, forall_const]
      cases policy.accepts (readLine content).1 <;> simp
  | true =>
    cases htee : policy.needs (teeCommand remote) with
    | false =>
      simp only [Bool.false_eq_true, if_false, inputOf, if_true, iff_false, false_implies,
        forall_const]
      intro heq
      have hlength := congrArg List.length heq
      rw [List.length_append, List.length_cons] at hlength
      omega
    | true =>
      simp only [if_true, inputOf, forall_const]
      by_cases hmem : 10 ∈ password
      · rw [readLine_append_of_mem hmem]
        have hlonger : (readLine password).2 ++ 10 :: content ≠ content := fun heq => by
          have hlength := congrArg List.length heq
          rw [List.length_append, List.length_cons] at hlength
          omega
        simp only [hlonger, hmem, not_true_eq_false, false_or, imp_false, Bool.not_eq_true]
      · rw [readLine_append hmem]
        simp only [hmem, not_false_eq_true, true_or, implies_true]

end

namespace SudoWitness

/-- `sudo` asks for a password, but not for `tee`. -/
def teeFree : Policy := ⟨fun command => command.head? != some "tee".toList, fun _ => true⟩

/-- `sudo` asks for a password only for `tee`; any line is taken for it. -/
def teeOnly : Policy := ⟨fun command => command.head? == some "tee".toList, fun _ => true⟩

def lucky (content : List UInt8) : Chance := ⟨.ok content, none, none, some 0, .ok (0, 0)⟩

/-- Saves that report success put the password "pw" before the file's line "a", or lose it. -/
theorem password_in_file :
    saveWithSudo teeFree (lucky [97, 10]) "/etc/f".toList [112, 119] =
        (.ok (0, 0), some ("/etc/f".toList, [112, 119, 10, 97, 10])) ∧
      saveWithSudo teeOnly (lucky [97, 10]) "/etc/f".toList [112, 119] =
        (.ok (0, 0), some ("/etc/f".toList, [])) ∧
      ¬ Faithful teeFree "/etc/f".toList [112, 119] [97, 10] := by
  have hfree := @saveWithSudo_lucky teeFree "/etc/f".toList [112, 119] [97, 10] (by decide)
  have honly := @saveWithSudo_lucky teeOnly "/etc/f".toList [112, 119] [97, 10] (by decide)
  have hwritten := (saveWithSudo_ok rfl hfree).2
  refine ⟨Prod.ext hfree (hwritten.trans (by decide)),
    Prod.ext honly ((saveWithSudo_ok rfl honly).2.trans (by decide)), fun h => ?_⟩
  have hsame := hwritten.symm.trans (h _ rfl _ hfree)
  exact absurd hsame (by decide)

end SudoWitness

end Opensesh.SudoSave
