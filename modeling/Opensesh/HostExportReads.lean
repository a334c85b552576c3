/-
Which exports are read back: the lines of an exported file, what each of them says, and for
which names and values the hosts that are read are those that were written.
-/
import Opensesh.HostExport
import Opensesh.SshConfigArgs
import Opensesh.SshConfigWarnings

namespace Opensesh

open List

namespace SshConfig

/-- The first argument of a value's line, unless it is empty. -/
def argOf (value : List Char) : Option (List Char) :=
  if firstArg (valueText value) = [] then none else some (firstArg (valueText value))

end SshConfig

namespace Saved

open SshConfig (KeywordText argOf firstArg valueText withoutEquals statementOf)
open Target (digits)
open Text (toAsciiLower)

def settingText : SshConfig.Setting → String
  | .hostName => "HostName"
  | .user => "User"
  | .port => "Port"
  | .identityFile => "IdentityFile"
  | .proxyJump => "ProxyJump"

def flagNames : List String := ["ForwardAgent", "ForwardX11", "ForwardX11Trusted", "Compression"]

namespace HostsFile

variable (file : HostsFile) (host : Host)

/-- The value of an option, as its line has it. -/
def writtenValue : SshConfig.Setting → Option (List Char)
  | .hostName => some (Text.trim host.address.toList)
  | .user => (ResolvedHost.user (file.resolve host)).map quote
  | .port => ((ResolvedHost.port (file.resolve host)).filter (· ≠ 22)).map digits
  | .identityFile => (ResolvedHost.string (file.resolve host) "identity_file").map quote
  | .proxyJump =>
    if file.jumpSpecs host = [] then none else some (Text.joinWith ',' (file.jumpSpecs host))

def proxyCommand : Option (List Char) := ResolvedHost.string (file.resolve host) "ssh.proxy_command"

/-- What a line of the options can be. -/
inductive OptionLine : List Char → Prop
  | setting (setting : SshConfig.Setting) (value : List Char)
      (h : file.writtenValue host setting = some value) :
      OptionLine (optionLine (settingText setting) value)
  | command (command : List Char) (h : file.proxyCommand host = some command) :
      OptionLine (optionLine "ProxyCommand" command)
  | flag (name : String) (h : name ∈ flagNames) : OptionLine (optionLine name "yes".toList)
  | comment : OptionLine identityComment

/-- The line of an option, when the host has a value for it. -/
def settingLine (setting : SshConfig.Setting) : List (List Char) :=
  ((file.writtenValue host setting).map (optionLine (settingText setting))).toList

/-- The lines of the options that are switched on. -/
def flagLines : List (List Char) :=
  (if ResolvedHost.flag (file.resolve host) "ssh.agent_forwarding" then
    [optionLine "ForwardAgent" "yes".toList] else []) ++
  x11Lines (ResolvedHost.x11 (file.resolve host)) ++
  (if ResolvedHost.flag (file.resolve host) "ssh.compression" then
    [optionLine "Compression" "yes".toList] else [])

theorem optionLines_eq : file.optionLines host =
    file.settingLine host .hostName ++ file.settingLine host .user ++
    file.settingLine host .port ++ file.settingLine host .identityFile ++
    (if (ResolvedHost.identity (file.resolve host)).isSome then [identityComment] else []) ++
    file.settingLine host .proxyJump ++
    ((file.proxyCommand host).map (optionLine "ProxyCommand")).toList ++
    file.flagLines host := by
  have hjump : file.settingLine host .proxyJump =
      if file.jumpSpecs host = [] then []
      else [optionLine "ProxyJump" (Text.joinWith ',' (file.jumpSpecs host))] := by
    rw [settingLine, writtenValue]
    split <;> rfl
  rw [optionLines, hjump, flagLines, proxyCommand]
  simp only [settingLine, writtenValue, Option.map_map, Option.map_some, Option.toList_some,
    List.append_assoc]
  rfl

variable {file host}

theorem flagLine_of_mem {line : List Char} (h : line ∈ file.flagLines host) :
    ∃ name ∈ flagNames, line = optionLine name "yes".toList := by
  rw [flagLines, mem_append, mem_append] at h
  rcases h with (hagent | hx11) | hcompression
  · split at hagent
    next => exact ⟨_, by decide, mem_singleton.mp hagent⟩
    next => cases hagent
  · cases hforward : ResolvedHost.x11 (file.resolve host) with
    | off => rw [hforward] at hx11; cases hx11
    | untrusted =>
      rw [hforward] at hx11
      exact ⟨_, by decide, mem_singleton.mp hx11⟩
    | trusted =>
      rw [hforward, x11Lines, mem_cons, mem_singleton] at hx11
      rcases hx11 with hline | hline
      · exact ⟨_, by decide, hline⟩
      · exact ⟨_, by decide, hline⟩
  · split at hcompression
    next => exact ⟨_, by decide, mem_singleton.mp hcompression⟩
    next => cases hcompression

theorem optionLine_of_mem {line : List Char} (h : line ∈ file.optionLines host) :
    OptionLine file host line := by
  have hsetting : ∀ setting, line ∈ file.settingLine host setting → OptionLine file host line := by
    intro setting hmem
    obtain ⟨value, hvalue, rfl⟩ := Option.map_eq_some_iff.mp (Option.mem_toList.mp hmem)
    exact .setting setting value hvalue
  rw [optionLines_eq] at h
  simp only [mem_append] at h
  rcases h with ((((((hline | hline) | hline) | hline) | hcomment) | hline) | hcommand) | hflag
  · exact hsetting _ hline
  · exact hsetting _ hline
  · exact hsetting _ hline
  · exact hsetting _ hline
  · split at hcomment
    next => exact mem_singleton.mp hcomment ▸ .comment
    next => cases hcomment
  · exact hsetting _ hline
  · obtain ⟨command, hvalue, rfl⟩ := Option.map_eq_some_iff.mp (Option.mem_toList.mp hcommand)
    exact .command command hvalue
  · obtain ⟨name, hname, rfl⟩ := flagLine_of_mem hflag
    exact .flag name hname

theorem mem_of_setting {setting : SshConfig.Setting} {value : List Char}
    (h : file.writtenValue host setting = some value) :
    optionLine (settingText setting) value ∈ file.optionLines host := by
  have hmem : optionLine (settingText setting) value ∈ file.settingLine host setting := by
    rw [settingLine, h]
    exact mem_singleton_self _
  rw [optionLines_eq]
  simp only [mem_append]
  cases setting with
  | hostName => exact .inl (.inl (.inl (.inl (.inl (.inl (.inl hmem))))))
  | user => exact .inl (.inl (.inl (.inl (.inl (.inl (.inr hmem))))))
  | port => exact .inl (.inl (.inl (.inl (.inl (.inr hmem)))))
  | identityFile => exact .inl (.inl (.inl (.inl (.inr hmem))))
  | proxyJump => exact .inl (.inl (.inr hmem))

theorem mem_of_command {command : List Char} (h : file.proxyCommand host = some command) :
    optionLine "ProxyCommand" command ∈ file.optionLines host := by
  rw [optionLines_eq, h]
  simp only [mem_append]
  exact .inl (.inr (mem_singleton_self _))

end HostsFile

theorem keywordText_setting (setting : SshConfig.Setting) :
    KeywordText (settingText setting).toList := by
  cases setting <;> decide

theorem keywordText_flag : ∀ name ∈ flagNames, KeywordText name.toList := by decide

theorem keywordText_command : KeywordText "ProxyCommand".toList := by decide

theorem space_indent : ∀ c ∈ "    ".toList, isWhitespace c = true := all_eq_true.mp (by decide)

theorem readLine_optionLine {keyword : String} (h : KeywordText keyword.toList)
    (value : List Char) : SshConfig.readLine (optionLine keyword value) =
      some ((SshConfig.splitArgs (valueText value)).map fun args =>
        (SshConfig.Keyword.of (keyword.toList.map toAsciiLower), args)) :=
  h.readLine_line space_indent

theorem statementOf_optionLine {keyword : String} (h : KeywordText keyword.toList)
    (value : List Char) : statementOf (optionLine keyword value) =
      (SshConfig.splitArgs (valueText value)).toOption.map fun args =>
        ⟨SshConfig.Keyword.of (keyword.toList.map toAsciiLower), args, 0⟩ := by
  rw [statementOf, SshConfig.Statement.of]
  dsimp only
  rw [readLine_optionLine h]
  cases SshConfig.splitArgs (valueText value) <;> rfl

theorem readLine_identityComment : SshConfig.readLine identityComment = none :=
  SshConfig.readLine_comment space_indent

theorem statementOf_none {line : List Char} (h : SshConfig.readLine line = none) :
    statementOf line = none := by
  rw [statementOf, SshConfig.Statement.of, h]

theorem keyword_setting (setting : SshConfig.Setting) :
    SshConfig.Keyword.of ((settingText setting).toList.map toAsciiLower) = .setting setting := by
  cases setting <;> decide

theorem keyword_flag : ∀ name ∈ flagNames,
    SshConfig.Keyword.of (name.toList.map toAsciiLower) = .other := by decide

theorem keyword_command :
    SshConfig.Keyword.of ("ProxyCommand".toList.map toAsciiLower) = .other := by decide

section

variable {setting : SshConfig.Setting} {value : List Char}

theorem value_of_setting (other : SshConfig.Setting) :
    (statementOf (optionLine (settingText other) value)).bind (SshConfig.Statement.value setting) =
      if other = setting then argOf value else none := by
  rw [statementOf_optionLine (keywordText_setting other), keyword_setting, argOf, firstArg]
  cases hargs : SshConfig.splitArgs (valueText value) with
  | error message => split <;> rfl
  | ok args =>
    change SshConfig.Statement.value setting ⟨.setting other, args, 0⟩ = _
    split
    next heq => rw [heq, SshConfig.value_setting]
    next hne =>
      rw [SshConfig.Statement.value, if_neg]
      exact fun heq => hne (SshConfig.Keyword.setting.inj heq)

theorem value_of_other {keyword : String} (h : KeywordText keyword.toList)
    (hother : SshConfig.Keyword.of (keyword.toList.map toAsciiLower) = .other) :
    (statementOf (optionLine keyword value)).bind (SshConfig.Statement.value setting) = none := by
  rw [statementOf_optionLine h, hother]
  cases SshConfig.splitArgs (valueText value) <;> rfl

end

section

variable {file : HostsFile} {host : Host}

theorem values_settingLine (setting other : SshConfig.Setting) :
    (file.settingLine host other).filterMap
        (fun line => (statementOf line).bind (SshConfig.Statement.value setting)) =
      if other = setting then ((file.writtenValue host other).bind argOf).toList else [] := by
  rw [HostsFile.settingLine]
  cases file.writtenValue host other with
  | none => exact (ite_self _).symm
  | some value =>
    have hvalue := @value_of_setting setting value other
    rw [Option.map_some, Option.toList_some, Option.bind_some]
    split at hvalue
    next heq =>
      rw [if_pos heq, filterMap_cons, filterMap_nil, hvalue]
      cases argOf value <;> rfl
    next hne =>
      rw [if_neg hne, filterMap_cons, filterMap_nil, hvalue]

theorem values_others (setting : SshConfig.Setting) :
    (file.flagLines host).filterMap
        (fun line => (statementOf line).bind (SshConfig.Statement.value setting)) = [] ∧
    (((file.proxyCommand host).map (optionLine "ProxyCommand")).toList).filterMap
        (fun line => (statementOf line).bind (SshConfig.Statement.value setting)) = [] ∧
    (if (ResolvedHost.identity (file.resolve host)).isSome then [identityComment]
        else []).filterMap
          (fun line => (statementOf line).bind (SshConfig.Statement.value setting)) = [] := by
  refine ⟨filterMap_eq_nil_iff.mpr fun line hline => ?_,
    filterMap_eq_nil_iff.mpr fun line hline => ?_,
    filterMap_eq_nil_iff.mpr fun line hline => ?_⟩
  · obtain ⟨name, hname, rfl⟩ := HostsFile.flagLine_of_mem hline
    exact value_of_other (keywordText_flag name hname) (keyword_flag name hname)
  · obtain ⟨command, -, rfl⟩ := Option.map_eq_some_iff.mp (Option.mem_toList.mp hline)
    exact value_of_other keywordText_command keyword_command
  · split at hline
    next =>
      rw [mem_singleton.mp hline, statementOf_none readLine_identityComment]
      rfl
    next => cases hline

theorem values_optionLines (setting : SshConfig.Setting) :
    (file.optionLines host).filterMap
        (fun line => (statementOf line).bind (SshConfig.Statement.value setting)) =
      ((file.writtenValue host setting).bind argOf).toList := by
  obtain ⟨hflags, hcommand, hcomment⟩ := @values_others file host setting
  rw [HostsFile.optionLines_eq]
  simp only [filterMap_append, values_settingLine, hflags, hcommand, hcomment, List.append_nil]
  cases setting <;> simp only [reduceCtorEq, ↓reduceIte, List.append_nil, List.nil_append]

/-- The statements of a block's options. -/
def HostsFile.optionStatements (file : HostsFile) (host : Host) : List SshConfig.Statement :=
  (file.optionLines host).filterMap statementOf

theorem filterMap_optionStatements {β : Type} (setting : SshConfig.Setting)
    (read : List Char → Option β) :
    (file.optionStatements host).filterMap (fun line => (line.value setting).bind read) =
      (((file.writtenValue host setting).bind argOf).bind read).toList := by
  have hvalues : (file.optionStatements host).filterMap
      (fun line => (line.value setting).bind read) =
      (((file.writtenValue host setting).bind argOf).toList).filterMap read := by
    rw [← values_optionLines setting, HostsFile.optionStatements, filterMap_filterMap,
      filterMap_filterMap]
    refine filterMap_congr fun line _ => ?_
    rw [Option.bind_assoc]
  rw [hvalues]
  cases (file.writtenValue host setting).bind argOf with
  | none => rfl
  | some value =>
    rw [Option.toList_some, filterMap_cons, Option.bind_some]
    cases read value <;> rfl

theorem findSome?_optionStatements {β : Type} (setting : SshConfig.Setting)
    (read : List Char → Option β) :
    (file.optionStatements host).findSome? (fun line => (line.value setting).bind read) =
      ((file.writtenValue host setting).bind argOf).bind read := by
  rw [← List.head?_filterMap, filterMap_optionStatements]
  cases ((file.writtenValue host setting).bind argOf).bind read <;> rfl

end

/-- A value that its line has as its first argument: no quotes, and no equals sign before a
value without white space. -/
structure ArgText (value : List Char) : Prop where
  quotes : '"' ∉ value
  equals : value.head? = some '=' → value.any isWhitespace = true

section

variable {value : List Char}

theorem firstArg_quote_iff (htrim : Text.trim value = value) :
    firstArg (valueText (quote value)) = value ↔ ArgText value := by
  rw [quote]
  split
  next hspace =>
    have htext : valueText ('"' :: (value ++ ['"'])) = '"' :: (value ++ ['"']) := by
      rw [valueText, Text.trim_eq_self, SshConfig.withoutEquals_eq_self]
      · exact fun heq => absurd (Option.some.inj heq) (by decide)
      · exact fun c hc => by rw [← Option.some.inj hc]; rfl
      · intro c hc
        rw [← cons_append, List.getLast?_concat] at hc
        rw [← Option.some.inj hc]
        rfl
    rw [htext]
    constructor
    · intro heq
      exact ⟨heq ▸ (SshConfig.firstArg_made _).2, fun _ => hspace⟩
    · exact fun h => SshConfig.firstArg_quoted h.quotes
  next hspace =>
    have hword : ∀ c ∈ value, isWhitespace c = false := fun c hc =>
      Bool.eq_false_iff.mpr fun hc' => hspace (any_eq_true.mpr ⟨c, hc, hc'⟩)
    rw [valueText, htrim]
    constructor
    · intro heq
      refine ⟨heq ▸ (SshConfig.firstArg_made _).2, fun hhead => ?_⟩
      have hlength := (SshConfig.firstArg_made (withoutEquals value)).1.length_le
      rw [heq] at hlength
      exact absurd (SshConfig.length_withoutEquals hhead) (Nat.not_lt_of_le hlength)
    · intro h
      have hhead : value.head? ≠ some '=' := fun hhead => hspace (h.equals hhead)
      rw [SshConfig.withoutEquals_eq_self hhead, SshConfig.firstArg_word h.quotes hword]

theorem read_quoted_iff {own : Option (List Char)}
    (hown : ∀ value ∈ own, value ≠ [] ∧ Text.trim value = value) (test : List Char → Bool) :
    ((own.map quote).bind argOf).filter test = own ↔
      ∀ value ∈ own, ArgText value ∧ test value = true := by
  cases own with
  | none => exact ⟨fun _ _ h => (nomatch h), fun _ => rfl⟩
  | some value =>
    obtain ⟨hne, htrim⟩ := hown value rfl
    rw [Option.map_some, Option.bind_some, argOf]
    have hvalue : (∀ other ∈ some value, ArgText other ∧ test other = true) ↔
        ArgText value ∧ test value = true :=
      ⟨fun h => h value rfl, fun h other hother => Option.some.inj hother ▸ h⟩
    rw [hvalue, ← firstArg_quote_iff htrim]
    by_cases hempty : firstArg (valueText (quote value)) = []
    · rw [if_pos hempty, hempty]
      exact ⟨fun h => (nomatch h), fun h => absurd h.1.symm hne⟩
    · rw [if_neg hempty, Option.filter_some]
      constructor
      · intro h
        split at h
        next htest =>
          have heq := Option.some.inj h
          exact ⟨heq, heq ▸ htest⟩
        next => cases h
      · rintro ⟨heq, htest⟩
        rw [heq, if_pos htest]

end

section

variable {file : HostsFile} {host : Host} {fields : ResolvedHost}

theorem string_filled {key : String} {value : List Char}
    (h : value ∈ ResolvedHost.string fields key) : value ≠ [] ∧ Text.trim value = value := by
  rw [ResolvedHost.string] at h
  obtain ⟨htext, hne⟩ := Option.filter_eq_some_iff.mp h
  obtain ⟨text, -, rfl⟩ := Option.map_eq_some_iff.mp htext
  exact ⟨of_decide_eq_true hne, Text.trim_trim _⟩

theorem port_range {port : Nat} (h : ResolvedHost.port fields = some port) :
    0 < port ∧ port ≤ 65535 := by
  obtain ⟨value, -, hvalue⟩ := Option.bind_eq_some_iff.mp h
  rw [ResolvedHost.portOf] at hvalue
  split at hvalue
  next hrange =>
    obtain rfl := Option.some.inj hvalue
    omega
  next => cases hvalue

theorem firstArg_digits (port : Nat) : firstArg (valueText (digits port)) = digits port := by
  have hquote : '"' ∉ digits port := Target.notMem_digits (by decide) port
  have hspace : ∀ c ∈ digits port, isWhitespace c = false := fun c hc => (nameChar_digit hc).1
  have hhead : (digits port).head? ≠ some '=' := fun hhead =>
    Target.notMem_digits (by decide : '='.isDigit = false) port (mem_of_mem_head? hhead)
  rw [valueText, SshConfig.trim_word hspace, SshConfig.withoutEquals_eq_self hhead,
    SshConfig.firstArg_word hquote hspace]

theorem read_port : ((((file.writtenValue host .port).bind argOf).bind fun value =>
      (Target.parseNumber 65535 value).filter (0 < ·)).getD 22) =
    (ResolvedHost.port (file.resolve host)).getD 22 := by
  rw [HostsFile.writtenValue]
  cases hport : ResolvedHost.port (file.resolve host) with
  | none =>
    rw [Option.filter_none, Option.map_none, Option.bind_none, Option.bind_none, Option.getD_none]
  | some port =>
    obtain ⟨hpos, hle⟩ := port_range hport
    by_cases husual : port = 22
    · rw [husual, Option.filter_some, if_neg (by decide), Option.map_none, Option.bind_none,
        Option.bind_none, Option.getD_none, Option.getD_some]
    · have hread := firstArg_digits port
      rw [Option.filter_some, if_pos (by simpa using husual), Option.map_some,
        Option.bind_some, argOf, hread, if_neg (Target.digits_ne_nil port), Option.bind_some,
        Target.parseNumber_digits hle, Option.filter_some, if_pos (by simpa using hpos)]

theorem jumpSpec_ne_nil {reference : List Char} (h : Text.trim reference ≠ []) :
    file.jumpSpec reference ≠ [] := by
  rw [HostsFile.jumpSpec]
  split
  next host hhost =>
    obtain ⟨-, haddress⟩ := Option.filter_eq_some_iff.mp hhost
    have haddress : host.address.toList ≠ [] := fun hnil =>
      of_decide_eq_true haddress (String.toList_eq_nil_iff.mp hnil)
    have hbracket : Target.bracketIpv6 host.address.toList ≠ [] := by
      rw [Target.bracketIpv6]
      split
      next => exact cons_ne_nil _ _
      next => exact haddress
    exact append_ne_nil_of_left_ne_nil (append_ne_nil_of_right_ne_nil _ hbracket) _
  next => exact h

theorem jumpSpecs_filled : ∀ spec ∈ file.jumpSpecs host, spec ≠ [] := by
  intro spec hspec
  obtain ⟨reference, hreference, rfl⟩ := mem_map.mp hspec
  rw [ResolvedHost.jump] at hreference
  obtain ⟨hmem, hne⟩ := mem_filter.mp hreference
  obtain ⟨item, -, rfl⟩ := mem_map.mp hmem
  refine jumpSpec_ne_nil ?_
  rw [Text.trim_trim]
  exact of_decide_eq_true hne

theorem hopsOf_nil : SshConfig.hopsOf [] = [] := by decide

theorem read_jump_iff :
    (((file.writtenValue host .proxyJump).bind argOf).map SshConfig.hopsOf).getD [] =
        file.jumpSpecs host ↔ SshConfig.Hops (file.jumpSpecs host) := by
  rw [HostsFile.writtenValue]
  by_cases hempty : file.jumpSpecs host = []
  · rw [if_pos hempty, hempty]
    refine ⟨fun _ => ⟨fun spec hspec => absurd hspec not_mem_nil, by decide, by decide⟩,
      fun _ => rfl⟩
  · have hread : ((argOf (Text.joinWith ',' (file.jumpSpecs host))).map SshConfig.hopsOf).getD [] =
        SshConfig.hopsOf (firstArg (valueText (Text.joinWith ',' (file.jumpSpecs host)))) := by
      rw [argOf]
      generalize firstArg (valueText (Text.joinWith ',' (file.jumpSpecs host))) = first
      split
      next hnil => rw [hnil, hopsOf_nil, Option.map_none, Option.getD_none]
      next => rw [Option.map_some, Option.getD_some]
    rw [if_neg hempty, Option.bind_some, hread,
      SshConfig.hopsOf_firstArg_iff hempty jumpSpecs_filled]

theorem read_hostName_iff {hostAlias value : List Char} (hne : value ≠ [])
    (htrim : Text.trim value = value)
    (halias : '"' ∉ hostAlias ∧ ∀ c ∈ hostAlias, isWhitespace c = false) :
    ((argOf value).filter fun name =>
        !SshConfig.startsWithDash (SshConfig.expandName hostAlias name)).map
          (SshConfig.replaceName hostAlias) = some value ↔
      SshConfig.HostText hostAlias value := by
  rw [← SshConfig.hostText_iff htrim halias, argOf]
  by_cases hempty : firstArg (valueText value) = []
  · rw [if_pos hempty, hempty]
    exact ⟨fun h => (nomatch h), fun h => absurd h.1.symm hne⟩
  · rw [if_neg hempty, Option.filter_some]
    have hdash := @SshConfig.startsWithDash_replaceName hostAlias (firstArg (valueText value))
    rw [← hdash]
    constructor
    · intro h
      split at h
      next hname =>
        have heq := Option.some.inj h
        rw [heq, Bool.not_eq_true'] at hname
        exact ⟨heq, hname⟩
      next => cases h
    · rintro ⟨heq, hname⟩
      rw [if_pos (by rw [heq, hname]; rfl), Option.map_some, heq]

end

/-- A host that is read says what the exported one resolves to. -/
structure Tells (file : HostsFile) (host : Host) (read : SshConfig.SshHost) : Prop where
  hostName : read.hostName = some (Text.trim host.address.toList)
  user : read.user = ResolvedHost.user (file.resolve host)
  port : read.port.getD 22 = (ResolvedHost.port (file.resolve host)).getD 22
  identityFiles : read.identityFiles =
    (ResolvedHost.string (file.resolve host) "identity_file").toList
  proxyJump : read.proxyJump.getD [] = file.jumpSpecs host

/-- The names and values of a block that are read as they are. -/
structure Says (file : HostsFile) (host : Host) (hostAlias : SshConfig.Alias) : Prop where
  address : SshConfig.HostText hostAlias (Text.trim host.address.toList)
  user : ∀ user ∈ ResolvedHost.user (file.resolve host),
    ArgText user ∧ SshConfig.startsWithDash user = false
  identityFile : ∀ path ∈ ResolvedHost.string (file.resolve host) "identity_file",
    ArgText path ∧ path.map toAsciiLower ≠ "none".toList
  jump : SshConfig.Hops (file.jumpSpecs host)

/-- What the lines of a host's block give. -/
structure ReadAs (file : HostsFile) (host : Host) (hostAlias : SshConfig.Alias)
    (read : SshConfig.SshHost) : Prop where
  hostName : read.hostName = ((argOf (Text.trim host.address.toList)).filter fun name =>
    !SshConfig.startsWithDash (SshConfig.expandName hostAlias name)).map
      (SshConfig.replaceName hostAlias)
  user : read.user = ((file.writtenValue host .user).bind argOf).filter fun user =>
    !SshConfig.startsWithDash user
  port : read.port = ((file.writtenValue host .port).bind argOf).bind fun value =>
    (Target.parseNumber 65535 value).filter (0 < ·)
  identityFiles : read.identityFiles = (((file.writtenValue host .identityFile).bind argOf).filter
    fun path => path.map toAsciiLower ≠ "none".toList).toList
  proxyJump : read.proxyJump = ((file.writtenValue host .proxyJump).bind argOf).map SshConfig.hopsOf

section

variable {file : HostsFile} {host : Host} {hostAlias : SshConfig.Alias} {read : SshConfig.SshHost}

theorem toList_inj {α : Type} {first second : Option α} :
    first.toList = second.toList ↔ first = second := by
  cases first <;> cases second <;> simp

/-- A block's host says what it should exactly when its names and values are read as they
are. -/
theorem tells_iff (h : ReadAs file host hostAlias read)
    (haddress : Text.trim host.address.toList ≠ [])
    (halias : '"' ∉ hostAlias ∧ ∀ c ∈ hostAlias, isWhitespace c = false) :
    Tells file host read ↔ Says file host hostAlias := by
  have huser := @read_quoted_iff (ResolvedHost.user (file.resolve host))
    (fun _ => string_filled) fun user => !SshConfig.startsWithDash user
  have hidentity := @read_quoted_iff (ResolvedHost.string (file.resolve host) "identity_file")
    (fun _ => string_filled) fun path => path.map toAsciiLower ≠ "none".toList
  have hname := read_hostName_iff haddress (Text.trim_trim _) halias
  simp only [Bool.not_eq_true'] at huser
  simp only [decide_eq_true_eq] at hidentity
  constructor
  · intro htells
    exact ⟨hname.mp (h.hostName.symm.trans htells.hostName),
      huser.mp (h.user.symm.trans htells.user),
      hidentity.mp (toList_inj.mp (h.identityFiles.symm.trans htells.identityFiles)),
      read_jump_iff.mp (h.proxyJump ▸ htells.proxyJump)⟩
  · intro htexts
    exact ⟨h.hostName.trans (hname.mpr htexts.address), h.user.trans (huser.mpr htexts.user),
      h.port ▸ read_port, h.identityFiles.trans (toList_inj.mpr (hidentity.mpr htexts.identityFile)),
      h.proxyJump ▸ read_jump_iff.mpr htexts.jump⟩

end

/-- The arguments of a `Host` line. -/
def hostArgs (hostAlias : List Char) : List (List Char) :=
  if withoutEquals hostAlias = [] then [] else [withoutEquals hostAlias]

/-- A block's first statement. -/
def blockHead (hostAlias : List Char) : SshConfig.Statement := ⟨.host, hostArgs hostAlias, 0⟩

/-- A name of a block: some characters, none of those that end or mark a pattern. -/
structure BlockName (hostAlias : List Char) : Prop where
  ne_nil : hostAlias ≠ []
  chars : ∀ c ∈ hostAlias, NameChar c

theorem blockName_of_mem {hosts : List Host} {taken : List (List Char)} {pair : Host × List Char}
    (h : pair ∈ withNames taken hosts) : BlockName pair.2 := by
  refine ⟨?_, nameChar_of_mem h⟩
  rcases eq_of_mem_withNames h with heq | ⟨k, heq⟩
  · rw [heq]
    exact aliasOf_ne_nil _
  · rw [heq]
    exact append_ne_nil_of_right_ne_nil _ (cons_ne_nil _ _)

namespace BlockName

variable {hostAlias : List Char} (h : BlockName hostAlias)

include h

theorem noSpace : ∀ c ∈ hostAlias, isWhitespace c = false := fun c hc => (h.chars c hc).1

theorem notMem {c : Char} (hc : ['*', '?', '!', ',', '"', '#'].contains c = true) :
    c ∉ hostAlias := fun hmem => by
  have hnot := (h.chars c hmem).2
  rw [hc] at hnot
  cases hnot

theorem read : '"' ∉ withoutEquals hostAlias ∧
    ∀ c ∈ withoutEquals hostAlias, isWhitespace c = false := by
  have hsub := SshConfig.withoutEquals_sublist hostAlias
  exact ⟨fun hmem => h.notMem (by decide) (hsub.subset hmem),
    fun c hc => h.noSpace c (hsub.subset hc)⟩

theorem readLine_host : SshConfig.readLine ("Host ".toList ++ hostAlias) =
    some (.ok (.host, hostArgs hostAlias)) := by
  have hline : "Host ".toList ++ hostAlias = [] ++ ("Host".toList ++ ' ' :: hostAlias) := rfl
  have hkeyword : KeywordText "Host".toList := by decide
  have hargs : SshConfig.splitArgs (valueText hostAlias) = .ok (hostArgs hostAlias) := by
    have hplain : SshConfig.splitArgs (withoutEquals hostAlias) =
        .ok (Text.splitWhitespace (withoutEquals hostAlias)) :=
      SshConfig.argsFrom_plain h.read.1 []
    rw [valueText, SshConfig.trim_word h.noSpace, hplain, hostArgs]
    split
    next hempty => rw [hempty]; rfl
    next hne =>
      rw [Text.splitWhitespace_word _ hne]
      exact all_eq_true.mpr fun c hc => by rw [h.read.2 c hc]; rfl
  rw [hline, hkeyword.readLine_line (fun _ hc => absurd hc not_mem_nil), hargs]
  rfl

theorem statementOf_host : statementOf ("Host ".toList ++ hostAlias) =
    some (blockHead hostAlias) := by
  rw [statementOf, SshConfig.Statement.of, h.readLine_host]
  rfl

theorem isPlain_iff : SshConfig.isPlain (withoutEquals hostAlias) = true ↔
    SshConfig.startsWithDash (withoutEquals hostAlias) = false := by
  have hwild : SshConfig.hasWildcard (withoutEquals hostAlias) = false := by
    refine Bool.eq_false_iff.mpr fun hany => ?_
    obtain ⟨c, hc, hpattern⟩ := any_eq_true.mp hany
    have hmem := (SshConfig.withoutEquals_sublist hostAlias).subset hc
    simp only [Bool.or_eq_true, beq_iff_eq] at hpattern
    rcases hpattern with (rfl | rfl) | rfl
    · exact h.notMem (by decide) hmem
    · exact h.notMem (by decide) hmem
    · exact h.notMem (by decide) hmem
  rw [SshConfig.isPlain, hwild, Bool.not_false, Bool.true_and, Bool.not_eq_true']

theorem names_blockHead : (blockHead hostAlias).names =
    if withoutEquals hostAlias ≠ [] ∧ SshConfig.startsWithDash (withoutEquals hostAlias) = false
    then [withoutEquals hostAlias] else [] := by
  rw [SshConfig.Statement.names, blockHead, if_pos rfl, hostArgs]
  by_cases hempty : withoutEquals hostAlias = []
  · rw [if_pos hempty, if_neg fun hne => hne.1 hempty]
    rfl
  · rw [if_neg hempty]
    by_cases hdash : SshConfig.startsWithDash (withoutEquals hostAlias) = false
    · rw [if_pos ⟨hempty, hdash⟩, filter_cons_of_pos (h.isPlain_iff.mpr hdash), filter_nil]
    · rw [if_neg fun hboth => hdash hboth.2,
        filter_cons_of_neg (fun hplain => hdash (h.isPlain_iff.mp hplain)), filter_nil]

end BlockName

/-- The statements of a host's block, without the numbers of their lines. -/
def HostsFile.blockStatements (file : HostsFile) (pair : Host × List Char) :
    List SshConfig.Statement :=
  blockHead pair.2 :: file.optionStatements pair.1

section

variable {file : HostsFile} {pairs : List (Host × List Char)}

theorem keyword_of_optionLine {host : Host} {line : List Char}
    (h : HostsFile.OptionLine file host line) {statement : SshConfig.Statement}
    (hof : statementOf line = some statement) :
    statement.keyword = .other ∨ ∃ setting, statement.keyword = .setting setting := by
  have hkeyword : ∀ {keyword : String} {value : List Char}, KeywordText keyword.toList →
      statementOf (optionLine keyword value) = some statement →
      statement.keyword = SshConfig.Keyword.of (keyword.toList.map toAsciiLower) := by
    intro keyword value htext hof
    rw [statementOf_optionLine htext] at hof
    obtain ⟨args, -, rfl⟩ := Option.map_eq_some_iff.mp hof
    rfl
  cases h with
  | setting setting value hvalue =>
    exact Or.inr ⟨setting, (hkeyword (keywordText_setting setting) hof).trans
      (keyword_setting setting)⟩
  | command command hcommand =>
    exact Or.inl ((hkeyword keywordText_command hof).trans keyword_command)
  | flag name hname =>
    exact Or.inl ((hkeyword (keywordText_flag name hname) hof).trans (keyword_flag name hname))
  | comment =>
    rw [statementOf_none readLine_identityComment] at hof
    cases hof

theorem line_of_optionStatements {host : Host} {statement : SshConfig.Statement}
    (h : statement ∈ file.optionStatements host) : statement.startsBlock = false := by
  obtain ⟨line, hline, hof⟩ := mem_filterMap.mp h
  rw [SshConfig.Statement.startsBlock]
  rcases keyword_of_optionLine (HostsFile.optionLine_of_mem hline) hof with heq | ⟨setting, heq⟩
  · rw [heq]
    rfl
  · rw [heq]
    rfl

theorem statements_blockLines {host : Host} {hostAlias : List Char} (h : BlockName hostAlias) :
    (file.blockLines host hostAlias).filterMap statementOf =
      file.blockStatements (host, hostAlias) := by
  have hcomment : (HostsFile.nameComment host hostAlias).filterMap statementOf = [] := by
    rw [HostsFile.nameComment]
    split
    next => rfl
    next =>
      refine filterMap_eq_nil_iff.mpr fun line hline => ?_
      rw [mem_singleton.mp hline]
      exact statementOf_none (@SshConfig.readLine_comment _ [] (fun _ hc => absurd hc not_mem_nil))
  rw [HostsFile.blockLines, filterMap_append, filterMap_append, hcomment,
    List.nil_append, filterMap_cons, h.statementOf_host]
  rfl

theorem statements_pairs (h : ∀ pair ∈ pairs, BlockName pair.2) :
    (pairs.flatMap fun (host, hostAlias) =>
      [] :: file.blockLines host hostAlias).filterMap statementOf =
      pairs.flatMap file.blockStatements := by
  induction pairs with
  | nil => rfl
  | cons pair pairs ih =>
    rw [forall_mem_cons] at h
    have hblank : statementOf [] = none := statementOf_none rfl
    rw [flatMap_cons, flatMap_cons, filterMap_append, ih h.2,
      filterMap_cons, hblank, statements_blockLines h.1]

theorem statements_written (hosts : List Host) :
    (file.written hosts).filterMap statementOf =
      (withNames [] hosts).flatMap file.blockStatements := by
  have hheader : statementOf header = none := statementOf_none
    (@SshConfig.readLine_comment _ [] (fun _ hc => absurd hc not_mem_nil))
  rw [HostsFile.written, filterMap_cons, hheader]
  exact statements_pairs fun _ => blockName_of_mem

theorem blocks_pairs : SshConfig.blocks (pairs.flatMap file.blockStatements) =
    pairs.map fun pair => ⟨(blockHead pair.2).names, file.optionStatements pair.1⟩ := by
  induction pairs with
  | nil => rfl
  | cons pair pairs ih =>
    have hrest : ∀ next ∈ (pairs.flatMap file.blockStatements).head?, next.startsBlock = true := by
      cases pairs with
      | nil => exact nofun
      | cons next pairs =>
        intro statement hstatement
        rw [← Option.some.inj hstatement]
        rfl
    rw [flatMap_cons, HostsFile.blockStatements, cons_append,
      SshConfig.blocks_block rfl (fun _ => line_of_optionStatements) hrest, ih, map_cons]

theorem named_pairs : SshConfig.named (pairs.flatMap file.blockStatements) =
    pairs.flatMap fun pair => (blockHead pair.2).names := by
  rw [SshConfig.named, flatMap_assoc]
  refine flatMap_congr fun pair _ => ?_
  have hnone : (file.optionStatements pair.1).flatMap SshConfig.Statement.names = [] :=
    flatMap_eq_nil_iff.mpr fun statement hstatement =>
      SshConfig.names_of_line (line_of_optionStatements hstatement)
  rw [HostsFile.blockStatements, flatMap_cons, hnone, List.append_nil]

theorem linesOf_pairs (hnames : ∀ pair ∈ pairs, (blockHead pair.2).names = [withoutEquals pair.2])
    (hnodup : (pairs.map fun pair => withoutEquals pair.2).Nodup) {pair : Host × List Char}
    (hpair : pair ∈ pairs) :
    SshConfig.linesOf (withoutEquals pair.2) (pairs.flatMap file.blockStatements) =
      file.optionStatements pair.1 := by
  have hfilter : (pairs.filter fun other =>
      decide (withoutEquals pair.2 ∈ (blockHead other.2).names)) = [pair] := by
    rw [← filter_key hnodup hpair]
    refine filter_congr fun other hother => ?_
    rw [hnames other hother]
    simp only [mem_singleton, eq_comm]
  rw [SshConfig.linesOf, blocks_pairs, filter_map, flatMap_map]
  change List.flatMap _ (pairs.filter fun other =>
    decide (withoutEquals pair.2 ∈ (blockHead other.2).names)) = _
  rw [hfilter, flatMap_singleton]

end

/-- A name that a `Host` line has as a plain name. -/
def NameText (name : List Char) : Prop :=
  name ≠ ['='] ∧ SshConfig.startsWithDash (withoutEquals name) = false

section

variable {pairs : List (Host × List Char)}

theorem nameText_iff {name hostAlias : List Char} (hname : BlockName name)
    (halias : hostAlias = name ∨ ∃ k, hostAlias = name ++ '-' :: digits k) :
    withoutEquals hostAlias ≠ [] ∧ SshConfig.startsWithDash (withoutEquals hostAlias) = false ↔
      NameText name := by
  have hdrop : ∀ {rest : List Char}, (∀ c ∈ rest.head?, isWhitespace c = false) →
      withoutEquals ('=' :: rest) = rest := fun h => by
    rw [SshConfig.withoutEquals_cons, Text.dropWhile_eq_self h]
  obtain ⟨c, rest, rfl⟩ := exists_cons_of_ne_nil hname.ne_nil
  have hspace : ∀ d ∈ rest.head?, isWhitespace d = false := fun d hd =>
    hname.noSpace d (mem_cons_of_mem _ (mem_of_mem_head? hd))
  rw [NameText]
  by_cases hc : c = '='
  · subst hc
    rcases halias with rfl | ⟨k, rfl⟩
    · rw [hdrop hspace]
      exact ⟨fun ⟨hne, hdash⟩ => ⟨fun heq => hne (List.cons.inj heq).2, hdash⟩,
        fun ⟨hne, hdash⟩ => ⟨fun heq => hne (congrArg _ heq), hdash⟩⟩
    · cases rest with
      | nil =>
        rw [cons_append, List.nil_append, hdrop (fun d hd => by
          rw [← Option.some.inj hd]
          rfl)]
        exact ⟨fun h => absurd h.2 Bool.noConfusion, fun h => absurd rfl h.1⟩
      | cons d rest =>
        rw [cons_append, cons_append, @hdrop (d :: (rest ++ '-' :: digits k)) hspace, hdrop hspace]
        exact ⟨fun h => ⟨by simp, h.2⟩, fun h => ⟨cons_ne_nil _ _, h.2⟩⟩
  · have hhead : ∀ tail : List Char, withoutEquals (c :: tail) = c :: tail := fun tail =>
      SshConfig.withoutEquals_eq_self fun heq => hc (Option.some.inj heq)
    have hne : c :: rest ≠ ['='] := fun heq => hc (List.cons.inj heq).1
    rcases halias with rfl | ⟨k, rfl⟩
    · rw [hhead]
      exact ⟨fun h => ⟨hne, h.2⟩, fun h => ⟨cons_ne_nil _ _, h.2⟩⟩
    · rw [cons_append, hhead, hhead]
      exact ⟨fun h => ⟨hne, h.2⟩, fun h => ⟨cons_ne_nil _ _, h.2⟩⟩

theorem nodup_withoutEquals_iff {names : List (List Char)} (hnodup : names.Nodup)
    (hspace : ∀ name ∈ names, ∀ c ∈ name, isWhitespace c = false) :
    (names.map withoutEquals).Nodup ↔
      ∀ name ∈ names, name.head? ≠ some '=' → '=' :: name ∉ names := by
  have hdrop : ∀ {rest : List Char}, '=' :: rest ∈ names → withoutEquals ('=' :: rest) = rest := by
    intro rest hmem
    rw [SshConfig.withoutEquals_cons, Text.dropWhile_eq_self]
    exact fun c hc => hspace _ hmem c (mem_cons_of_mem _ (mem_of_mem_head? hc))
  constructor
  · intro h name hname hhead hmem
    have heq := inj_on_of_nodup_map h hmem hname
      ((hdrop hmem).trans (SshConfig.withoutEquals_eq_self hhead).symm)
    exact cons_ne_self _ _ heq
  · intro h
    refine hnodup.map_on fun first hfirst second hsecond heq => ?_
    by_cases hf : first.head? = some '='
    · obtain ⟨rest, rfl⟩ := List.head?_eq_some_iff.mp hf
      rw [hdrop hfirst] at heq
      by_cases hs : second.head? = some '='
      · obtain ⟨other, rfl⟩ := List.head?_eq_some_iff.mp hs
        rw [hdrop hsecond] at heq
        rw [heq]
      · rw [SshConfig.withoutEquals_eq_self hs] at heq
        exact absurd (heq ▸ hfirst) (h second hsecond hs)
    · rw [SshConfig.withoutEquals_eq_self hf] at heq
      by_cases hs : second.head? = some '='
      · obtain ⟨other, rfl⟩ := List.head?_eq_some_iff.mp hs
        rw [hdrop hsecond] at heq
        exact absurd (heq ▸ hsecond) (h first hfirst hf)
      · rw [SshConfig.withoutEquals_eq_self hs] at heq
        exact heq

theorem flatMap_names (h : ∀ pair ∈ pairs, (blockHead pair.2).names = [withoutEquals pair.2]) :
    (pairs.flatMap fun pair => (blockHead pair.2).names) =
      pairs.map fun pair => withoutEquals pair.2 := by
  rw [flatMap_congr h]
  exact flatMap_pure_eq_map _ _

theorem length_names (h : ∀ pair ∈ pairs, BlockName pair.2) :
    (pairs.flatMap fun pair => (blockHead pair.2).names).length ≤ pairs.length ∧
    (pairs.length ≤ (pairs.flatMap fun pair => (blockHead pair.2).names).length →
      ∀ pair ∈ pairs, (blockHead pair.2).names = [withoutEquals pair.2]) := by
  induction pairs with
  | nil => exact ⟨Nat.le_refl _, fun _ _ hpair => absurd hpair not_mem_nil⟩
  | cons pair pairs ih =>
    rw [forall_mem_cons] at h
    obtain ⟨hle, hall⟩ := ih h.2
    have hnames := h.1.names_blockHead
    rw [flatMap_cons, length_append, length_cons, forall_mem_cons]
    split at hnames
    next =>
      rw [hnames, length_singleton]
      exact ⟨by omega, fun hlength => ⟨rfl, hall (by omega)⟩⟩
    next =>
      rw [hnames, length_nil]
      exact ⟨by omega, fun hlength => by omega⟩

/-- The names that are read are those of the blocks, all of them and all different, exactly
when there are as many. -/
theorem names_read_iff (h : ∀ pair ∈ pairs, BlockName pair.2) :
    ((pairs.flatMap fun pair => (blockHead pair.2).names).foldl pushNew []).length = pairs.length ↔
      (∀ pair ∈ pairs, (blockHead pair.2).names = [withoutEquals pair.2]) ∧
      (pairs.map fun pair => withoutEquals pair.2).Nodup := by
  constructor
  · intro hlength
    obtain ⟨-, hall⟩ := length_names h
    have hpush := length_foldl_pushNew_le [] (pairs.flatMap fun pair => (blockHead pair.2).names)
    rw [hlength, length_nil, Nat.zero_add] at hpush
    have hnames := hall hpush
    refine ⟨hnames, ?_⟩
    rw [flatMap_names hnames] at hlength
    have hnodup := @nodup_of_length_foldl_pushNew _ _ [] (pairs.map fun pair =>
      withoutEquals pair.2) nodup_nil (by
        rw [hlength, length_map, length_nil, Nat.zero_add])
    rwa [List.nil_append] at hnodup
  · rintro ⟨hnames, hnodup⟩
    rw [flatMap_names hnames, foldl_pushNew_of_nodup (by rwa [List.nil_append]),
      List.nil_append, length_map]

end

end Saved

end Opensesh
