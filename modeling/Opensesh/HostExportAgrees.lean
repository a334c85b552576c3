/-
An exported file read back: one host for every host that was written, with what it resolves
to, exactly when the names and the values are ones that the lines have as they are.
-/
import Opensesh.HostExportReads

namespace Opensesh.Saved

open SshConfig (KeywordText valueText withoutEquals statementOf)
open Target (digits)
open Text (toAsciiLower)

/-- The keywords of an export, in small letters. -/
def listed : List (List Char) :=
  ["host", "hostname", "user", "port", "identityfile", "proxyjump", "proxycommand",
    "forwardagent", "forwardx11", "forwardx11trusted", "compression"].map String.toList

/-- A line that is blank, a comment, a `Host` line or one of the options. -/
def Listed (line : List Char) : Prop :=
  SshConfig.readLine line = none ∨
    ∃ keyword ∈ listed, ∃ rest, SshConfig.splitKeyword line = some (keyword, rest)

section

variable (includes : SshConfig.Parser → List (List Char) → Nat → SshConfig.Parser)
  (origin : String) (file : HostsFile) (hosts : List Host)

/-- What parsing the export gives. -/
def readBack : SshConfig := SshConfig.parseStr includes (file.sshConfig hosts).text origin

/-- An export that is read back: a line for every line that was written and nothing but the
listed options, no warning, and one host with a name of its own for every host. -/
structure ReadsBack : Prop where
  lines : (Text.lines (file.sshConfig hosts).text).length = (file.written hosts).length
  listed : ∀ line ∈ Text.lines (file.sshConfig hosts).text, Listed line
  warnings : (readBack includes origin file hosts).warnings = []
  names : ((readBack includes origin file hosts).hosts.map SshConfig.SshHost.hostAlias).Nodup
  hosts : List.Forall₂ (Tells file) (hosts.filter isExported)
    (readBack includes origin file hosts).hosts

end

/-- A host that is read back under a name: its values are read as they are, none has a line
end, and the quotes of its proxy command come in pairs. -/
structure Readable (file : HostsFile) (host : Host) (hostAlias : List Char) : Prop where
  reads : Says file host (withoutEquals hostAlias)
  user : ∀ user ∈ ResolvedHost.user (file.resolve host), '\n' ∉ user
  identityFile : ∀ path ∈ ResolvedHost.string (file.resolve host) "identity_file", '\n' ∉ path
  command : ∀ command ∈ file.proxyCommand host, '\n' ∉ command ∧ command.count '"' % 2 = 0

/-- Hosts whose names and values are read back. -/
structure Portable (file : HostsFile) (hosts : List Host) : Prop where
  names : ∀ host ∈ hosts.filter isExported, NameText (aliasOf host.name.toList)
  distinct : ∀ name ∈ blockNames hosts, name.head? ≠ some '=' → '=' :: name ∉ blockNames hosts
  values : ∀ pair ∈ withNames [] hosts, Readable file pair.1 pair.2

section

variable {file : HostsFile} {host : Host}

theorem newline_quote {value : List Char} : '\n' ∈ quote value ↔ '\n' ∈ value := by
  rw [quote]
  split
  next => simp
  next => rfl

theorem newline_optionLine {keyword : String} (h : '\n' ∉ keyword.toList) (value : List Char) :
    '\n' ∈ optionLine keyword value ↔ '\n' ∈ value := by
  rw [optionLine, List.mem_append, List.mem_append, List.mem_cons]
  have hindent : '\n' ∉ "    ".toList := by decide
  have hspace : '\n' ≠ ' ' := by decide
  simp only [hindent, h, hspace, false_or]

theorem newline_setting (setting : SshConfig.Setting) : '\n' ∉ (settingText setting).toList := by
  cases setting <;> decide

theorem newline_optionLines_iff : (∀ line ∈ file.optionLines host, '\n' ∉ line) ↔
    (∀ setting, ∀ value ∈ file.writtenValue host setting, '\n' ∉ value) ∧
      ∀ command ∈ file.proxyCommand host, '\n' ∉ command := by
  have hcommand : '\n' ∉ "ProxyCommand".toList := by decide
  constructor
  · intro h
    exact ⟨fun setting value hvalue hmem => h _ (HostsFile.mem_of_setting hvalue)
        ((newline_optionLine (newline_setting setting) value).mpr hmem),
      fun command hvalue hmem => h _ (HostsFile.mem_of_command hvalue)
        ((newline_optionLine hcommand command).mpr hmem)⟩
  · rintro ⟨hvalues, hcommands⟩ line hline
    cases HostsFile.optionLine_of_mem hline with
    | setting setting value hvalue =>
      exact fun hmem => hvalues setting value hvalue
        ((newline_optionLine (newline_setting setting) value).mp hmem)
    | command command hvalue =>
      exact fun hmem => hcommands command hvalue ((newline_optionLine hcommand command).mp hmem)
    | flag name hname =>
      have hflag : ∀ name ∈ flagNames, '\n' ∉ name.toList := by decide
      have hyes : '\n' ∉ "yes".toList := by decide
      exact fun hmem => hyes ((newline_optionLine (hflag name hname) _).mp hmem)
    | comment => decide

theorem newline_blockLines_iff {hostAlias : List Char} (h : BlockName hostAlias) :
    (∀ line ∈ file.blockLines host hostAlias, '\n' ∉ line) ↔
      ∀ line ∈ file.optionLines host, '\n' ∉ line := by
  rw [HostsFile.blockLines]
  refine ⟨fun hall line hline => hall line (List.mem_append_right _ hline),
    fun hall line hline => ?_⟩
  rw [List.append_assoc, List.mem_append, List.singleton_append, List.mem_cons] at hline
  rcases hline with hcomment | rfl | hoption
  · rw [HostsFile.nameComment] at hcomment
    split at hcomment
    next => cases hcomment
    next =>
      rw [List.mem_singleton.mp hcomment]
      intro hmem
      rcases List.mem_append.mp hmem with hmark | hname
      · exact absurd hmark (by decide)
      · obtain ⟨c, -, hc⟩ := List.mem_map.mp hname
        split at hc
        next => exact absurd hc (by decide)
        next hne => exact hne hc
  · intro hmem
    rcases List.mem_append.mp hmem with hkeyword | hname
    · exact absurd hkeyword (by decide)
    · exact absurd (h.noSpace _ hname) (by decide)
  · exact hall line hoption

theorem newline_written_iff {hosts : List Host} :
    (∀ line ∈ file.written hosts, '\n' ∉ line) ↔
      ∀ pair ∈ withNames [] hosts, ∀ line ∈ file.optionLines pair.1, '\n' ∉ line := by
  constructor
  · intro h pair hpair
    refine (newline_blockLines_iff (blockName_of_mem hpair)).mp fun line hline => h line ?_
    exact List.mem_cons_of_mem _ (List.mem_flatMap.mpr ⟨pair, hpair, List.mem_cons_of_mem _ hline⟩)
  · intro h line hline
    rcases List.mem_cons.mp hline with rfl | hblock
    · decide
    · obtain ⟨pair, hpair, hline⟩ := List.mem_flatMap.mp hblock
      rcases List.mem_cons.mp hline with rfl | hline
      · exact List.not_mem_nil
      · exact (newline_blockLines_iff (blockName_of_mem hpair)).mpr (h pair hpair) line hline

theorem listed_optionLine {line : List Char} (h : HostsFile.OptionLine file host line) :
    Listed line := by
  have hoption : ∀ {keyword : String} {value : List Char}, KeywordText keyword.toList →
      keyword.toList.map toAsciiLower ∈ listed → Listed (optionLine keyword value) :=
    fun htext hmem => Or.inr ⟨_, hmem, _, htext.splitKeyword_line space_indent⟩
  cases h with
  | setting setting value hvalue =>
    exact hoption (keywordText_setting setting) (by cases setting <;> decide)
  | command command hcommand => exact hoption keywordText_command (by decide)
  | flag name hname =>
    have hlisted : ∀ name ∈ flagNames, name.toList.map toAsciiLower ∈ listed := by decide
    exact hoption (keywordText_flag name hname) (hlisted name hname)
  | comment => exact Or.inl readLine_identityComment

theorem listed_written {hosts : List Host} : ∀ line ∈ file.written hosts, Listed line := by
  have hcomment : ∀ text : List Char, Listed ('#' :: text) := fun text => Or.inl
    (@SshConfig.readLine_comment text [] fun _ hc => absurd hc List.not_mem_nil)
  intro line hline
  rcases List.mem_cons.mp hline with rfl | hblock
  · exact hcomment _
  · obtain ⟨pair, hpair, hline⟩ := List.mem_flatMap.mp hblock
    rcases List.mem_cons.mp hline with rfl | hline
    · exact Or.inl rfl
    · rw [HostsFile.blockLines, List.append_assoc, List.mem_append, List.singleton_append,
        List.mem_cons] at hline
      rcases hline with hname | rfl | hoption
      · rw [HostsFile.nameComment] at hname
        split at hname
        next => cases hname
        next =>
          rw [List.mem_singleton.mp hname]
          exact hcomment _
      · have hkeyword : KeywordText "Host".toList := by decide
        exact Or.inr ⟨"host".toList, by decide, _,
          @KeywordText.splitKeyword_line _ _ [] hkeyword fun _ hc => absurd hc List.not_mem_nil⟩
      · exact listed_optionLine (HostsFile.optionLine_of_mem hoption)

theorem listed_stripReturn {line : List Char} (h : Listed line) :
    Listed (Text.stripReturn line) := by
  rw [Listed, SshConfig.readLine_stripReturn, SshConfig.splitKeyword, Text.trim_stripReturn]
  exact h

theorem lines_sshConfig {hosts : List Host} (h : ∀ line ∈ file.written hosts, '\n' ∉ line) :
    Text.lines (file.sshConfig hosts).text = (file.written hosts).map Text.stripReturn := by
  have hlines := Text.lines_flatMap h []
  rw [List.append_nil] at hlines
  rw [text_sshConfig, writeLines, hlines]
  exact List.append_nil _

end

section

variable {includes : SshConfig.Parser → List (List Char) → Nat → SshConfig.Parser}
  {origin : String} {file : HostsFile} {hosts : List Host}

/-- The statements of an export, without the numbers of their lines. -/
theorem erase_statements (h : ∀ line ∈ file.written hosts, '\n' ∉ line) :
    (SshConfig.statements (file.sshConfig hosts).text).map SshConfig.Statement.erase =
      (withNames [] hosts).flatMap file.blockStatements := by
  rw [SshConfig.statements, SshConfig.map_erase_statements, lines_sshConfig h,
    List.filterMap_map, ← statements_written]
  exact List.filterMap_congr fun line _ => SshConfig.statementOf_stripReturn line

theorem no_includes (h : ∀ line ∈ file.written hosts, '\n' ∉ line) :
    ∀ statement ∈ SshConfig.statements (file.sshConfig hosts).text,
      statement.keyword ≠ .includeFiles := by
  intro statement hstatement hkeyword
  have hmem := List.mem_map_of_mem (f := SshConfig.Statement.erase) hstatement
  rw [erase_statements h] at hmem
  obtain ⟨pair, -, hpair⟩ := List.mem_flatMap.mp hmem
  rcases List.mem_cons.mp hpair with heq | hoption
  · have hhost := congrArg SshConfig.Statement.keyword heq
    exact absurd (hkeyword.symm.trans hhost) fun h => nomatch h
  · obtain ⟨line, hline, hof⟩ := List.mem_filterMap.mp hoption
    rcases keyword_of_optionLine (HostsFile.optionLine_of_mem hline) hof with heq | ⟨_, heq⟩
    · exact absurd (hkeyword.symm.trans heq) (by decide)
    · exact absurd (hkeyword.symm.trans heq) (fun h => nomatch h)

theorem aliases_read (h : ∀ line ∈ file.written hosts, '\n' ∉ line) :
    (readBack includes origin file hosts).hosts.map SshConfig.SshHost.hostAlias =
      ((withNames [] hosts).flatMap fun pair => (blockHead pair.2).names).foldl pushNew [] := by
  rw [readBack, SshConfig.hosts_parseStr (no_includes h), SshConfig.map_foldl_act,
    ← SshConfig.named_erase, erase_statements h, named_pairs, List.map_nil]

theorem filter_eq_bind {α : Type} (value : Option α) (test : α → Bool) :
    value.filter test = value.bind fun x => if test x then some x else none := by
  cases value <;> rfl

theorem readAs_of_mem (h : ∀ line ∈ file.written hosts, '\n' ∉ line)
    (hnames : ∀ pair ∈ withNames [] hosts, (blockHead pair.2).names = [withoutEquals pair.2])
    (hnodup : ((withNames [] hosts).map fun pair => withoutEquals pair.2).Nodup)
    {pair : Host × List Char} (hpair : pair ∈ withNames [] hosts) {read : SshConfig.SshHost}
    (hread : read ∈ (readBack includes origin file hosts).hosts)
    (halias : withoutEquals pair.2 = read.hostAlias) :
    ReadAs file pair.1 (withoutEquals pair.2) read := by
  rw [readBack, SshConfig.hosts_parseStr (no_includes h)] at hread
  obtain ⟨line, heq⟩ := SshConfig.eq_of_mem hread
  have hlines : (SshConfig.linesOf read.hostAlias
      (SshConfig.statements (file.sshConfig hosts).text)).map SshConfig.Statement.erase =
        file.optionStatements pair.1 := by
    rw [← SshConfig.linesOf_erase, erase_statements h, ← halias, linesOf_pairs hnames hnodup hpair]
  -- What a line says does not depend on its number.
  have hfirst : ∀ {β : Type} {value : SshConfig.Statement → Option β},
      value ∘ SshConfig.Statement.erase = value →
      (SshConfig.linesOf read.hostAlias (SshConfig.statements
        (file.sshConfig hosts).text)).findSome? value =
          (file.optionStatements pair.1).findSome? value := fun hvalue => by
    rw [← hlines, List.findSome?_map, hvalue]
  have hall : (SshConfig.linesOf read.hostAlias (SshConfig.statements
      (file.sshConfig hosts).text)).filterMap SshConfig.identityOf =
        (file.optionStatements pair.1).filterMap SshConfig.identityOf := by
    rw [← hlines, List.filterMap_map]
    rfl
  have hname : read.hostName = ((SshConfig.linesOf read.hostAlias (SshConfig.statements
      (file.sshConfig hosts).text)).findSome? (SshConfig.hostNameValue read.hostAlias)).map
        (SshConfig.replaceName read.hostAlias) := congrArg SshConfig.SshHost.hostName heq
  have huser : read.user = (SshConfig.linesOf read.hostAlias (SshConfig.statements
      (file.sshConfig hosts).text)).findSome? SshConfig.userOf :=
    congrArg SshConfig.SshHost.user heq
  have hport : read.port = (SshConfig.linesOf read.hostAlias (SshConfig.statements
      (file.sshConfig hosts).text)).findSome? SshConfig.portValue :=
    congrArg SshConfig.SshHost.port heq
  have hfiles : read.identityFiles = ((SshConfig.linesOf read.hostAlias (SshConfig.statements
      (file.sshConfig hosts).text)).filterMap SshConfig.identityOf).eraseDups :=
    congrArg SshConfig.SshHost.identityFiles heq
  have hjump : read.proxyJump = (SshConfig.linesOf read.hostAlias (SshConfig.statements
      (file.sshConfig hosts).text)).findSome? SshConfig.jumpOf :=
    congrArg SshConfig.SshHost.proxyJump heq
  rw [hfirst rfl] at hname huser hport hjump
  rw [hall] at hfiles
  rw [halias]
  refine ⟨?_, ?_, ?_, ?_, ?_⟩
  · have hvalue : SshConfig.hostNameValue read.hostAlias = fun statement =>
        (statement.value .hostName).bind fun value =>
          if !SshConfig.startsWithDash (SshConfig.expandName read.hostAlias value)
          then some value else none := funext fun _ => filter_eq_bind _ _
    rw [hname, filter_eq_bind, hvalue, findSome?_optionStatements]
    rfl
  · have hvalue : SshConfig.userOf = fun statement => (statement.value .user).bind fun value =>
        if !SshConfig.startsWithDash value then some value else none :=
      funext fun _ => filter_eq_bind _ _
    rw [huser, filter_eq_bind, hvalue, findSome?_optionStatements]
  · exact hport.trans (findSome?_optionStatements .port _)
  · have hvalue : SshConfig.identityOf = fun statement =>
        (statement.value .identityFile).bind fun value =>
          if decide (value.map toAsciiLower ≠ "none".toList) then some value else none :=
      funext fun _ => filter_eq_bind _ _
    have hone : ∀ path : Option (List Char), path.toList.eraseDups = path.toList := fun path => by
      cases path <;> rfl
    rw [hfiles, filter_eq_bind, hvalue, filterMap_optionStatements, hone]
  · have hvalue : SshConfig.jumpOf = fun statement => (statement.value .proxyJump).bind
        fun value => some (SshConfig.hopsOf value) := funext fun _ => Option.map_eq_bind
    rw [hjump, hvalue, findSome?_optionStatements, Option.map_eq_bind]
    rfl

/-- Where the names are read, the hosts say what they should exactly when the values of their
blocks are read as they are. -/
theorem tells_all_iff (h : ∀ line ∈ file.written hosts, '\n' ∉ line)
    (hnames : ∀ pair ∈ withNames [] hosts, (blockHead pair.2).names = [withoutEquals pair.2])
    (hnodup : ((withNames [] hosts).map fun pair => withoutEquals pair.2).Nodup) :
    List.Forall₂ (Tells file) (hosts.filter isExported)
        (readBack includes origin file hosts).hosts ↔
      ∀ pair ∈ withNames [] hosts, Says file pair.1 (withoutEquals pair.2) := by
  have haliases := @aliases_read includes origin file hosts h
  rw [flatMap_names hnames, foldl_pushNew_of_nodup (by rwa [List.nil_append]),
    List.nil_append] at haliases
  rw [← map_withNames hosts [], List.forall₂_map_left_iff]
  refine forall₂_iff_of (forall₂_of_map_eq haliases.symm) fun pair hpair read hread halias => ?_
  have hexported : pair.1 ∈ hosts.filter isExported := by
    rw [← map_withNames hosts []]
    exact List.mem_map_of_mem hpair
  have haddress := (Bool.and_eq_true_iff.mp (List.mem_filter.mp hexported).2).2
  exact tells_iff (readAs_of_mem h hnames hnodup hpair hread halias) (of_decide_eq_true haddress)
    (blockName_of_mem hpair).read

end

section

variable {includes : SshConfig.Parser → List (List Char) → Nat → SshConfig.Parser}
  {origin : String} {file : HostsFile} {host : Host} {hostAlias : List Char}

theorem even_writtenValue (h : Says file host (withoutEquals hostAlias))
    {setting : SshConfig.Setting} {value : List Char}
    (hvalue : file.writtenValue host setting = some value) : value.count '"' % 2 = 0 := by
  have hnone : ∀ {text : List Char}, '"' ∉ text → text.count '"' % 2 = 0 := fun hmem => by
    rw [List.count_eq_zero.mpr hmem]
  have hquoted : ∀ {text : List Char}, '"' ∉ text → (quote text).count '"' % 2 = 0 := by
    intro text hmem
    rw [quote]
    split
    next =>
      rw [List.count_cons_self, List.count_append, List.count_eq_zero.mpr hmem]
      rfl
    next => exact hnone hmem
  cases setting with
  | hostName =>
    obtain rfl := Option.some.inj hvalue
    exact hnone h.address.chars.1
  | user =>
    obtain ⟨user, huser, rfl⟩ := Option.map_eq_some_iff.mp hvalue
    exact hquoted (h.user user huser).1.quotes
  | port =>
    obtain ⟨port, -, rfl⟩ := Option.map_eq_some_iff.mp hvalue
    exact hnone (Target.notMem_digits (by decide) port)
  | identityFile =>
    obtain ⟨path, hpath, rfl⟩ := Option.map_eq_some_iff.mp hvalue
    exact hquoted (h.identityFile path hpath).1.quotes
  | proxyJump =>
    rw [HostsFile.writtenValue] at hvalue
    split at hvalue
    next => cases hvalue
    next =>
      obtain rfl := Option.some.inj hvalue
      refine hnone fun hmem => ?_
      rcases SshConfig.mem_joinWith hmem with heq | ⟨spec, hspec, hc⟩
      · exact absurd heq (by decide)
      · exact (h.jump.chars spec hspec).2.1 hc

theorem accepted_writtenValue (h : Says file host (withoutEquals hostAlias))
    (halias : BlockName hostAlias) {setting : SshConfig.Setting} {value : List Char}
    (hvalue : file.writtenValue host setting = some value) :
    SshConfig.Accepted (withoutEquals hostAlias) (SshConfig.firstArg (valueText value))
      setting := by
  cases setting with
  | hostName =>
    obtain rfl := Option.some.inj hvalue
    obtain ⟨hname, hdash⟩ := (SshConfig.hostText_iff (Text.trim_trim _) halias.read).mpr h.address
    rw [SshConfig.Accepted, hname]
    exact hdash
  | user =>
    obtain ⟨user, huser, rfl⟩ := Option.map_eq_some_iff.mp hvalue
    obtain ⟨htext, hdash⟩ := h.user user huser
    rw [SshConfig.Accepted, (firstArg_quote_iff (string_filled huser).2).mpr htext]
    exact hdash
  | port =>
    obtain ⟨port, hport, rfl⟩ := Option.map_eq_some_iff.mp hvalue
    obtain ⟨hpos, hle⟩ := port_range (Option.filter_eq_some_iff.mp hport).1
    rw [SshConfig.Accepted, firstArg_digits, Target.parseNumber_digits hle,
      Option.filter_some, if_pos (by simpa using hpos)]
    rfl
  | identityFile => exact trivial
  | proxyJump => exact trivial

theorem quiet_optionLine (h : Readable file host hostAlias) (halias : BlockName hostAlias)
    {line : List Char} (hline : HostsFile.OptionLine file host line) :
    SshConfig.Parser.Quiet [withoutEquals hostAlias] line := by
  have hother : ∀ {keyword : String} {value : List Char}, KeywordText keyword.toList →
      SshConfig.Keyword.of (keyword.toList.map toAsciiLower) = .other →
      value.count '"' % 2 = 0 →
      SshConfig.Parser.Quiet [withoutEquals hostAlias] (optionLine keyword value) := by
    intro keyword value htext hkeyword heven
    obtain ⟨args, hargs⟩ := (SshConfig.splitArgs_valueText_iff value).mpr heven
    rw [SshConfig.Parser.Quiet, readLine_optionLine htext, hargs, hkeyword]
    exact trivial
  cases hline with
  | setting setting value hvalue =>
    obtain ⟨args, hargs⟩ := (SshConfig.splitArgs_valueText_iff value).mpr
      (even_writtenValue h.reads hvalue)
    have hfirst : SshConfig.firstArg (valueText value) = args.headD [] := by
      rw [SshConfig.firstArg, hargs]
    have haccepted := accepted_writtenValue h.reads halias hvalue
    rw [hfirst] at haccepted
    rw [SshConfig.Parser.Quiet, readLine_optionLine (keywordText_setting setting), hargs,
      keyword_setting]
    intro name hname
    rw [List.mem_singleton.mp hname]
    exact SshConfig.SshHost.apply_quiet haccepted
  | command command hcommand =>
    exact hother keywordText_command keyword_command (h.command command hcommand).2
  | flag name hname => exact hother (keywordText_flag name hname) (keyword_flag name hname) rfl
  | comment =>
    rw [SshConfig.Parser.Quiet, readLine_identityComment]
    exact trivial

theorem foldl_pairs_quiet {pairs : List (Host × List Char)}
    (hname : ∀ pair ∈ pairs, BlockName pair.2 ∧ SshConfig.isPlain (withoutEquals pair.2) = true ∧
      withoutEquals pair.2 ≠ [])
    (hread : ∀ pair ∈ pairs, Readable file pair.1 pair.2) (first : Nat)
    (parser : SshConfig.Parser) :
    ((((pairs.flatMap fun pair => [] :: file.blockLines pair.1 pair.2).map
      Text.stripReturn).zipIdx first).foldl (SshConfig.Parser.line includes origin)
        parser).config.warnings = parser.config.warnings := by
  induction pairs generalizing first parser with
  | nil => rfl
  | cons pair pairs ih =>
    rw [List.forall_mem_cons] at hname hread
    obtain ⟨hblock, hplain, hne⟩ := hname.1
    rw [List.flatMap_cons, List.map_append, List.zipIdx_append, List.foldl_append,
      ih hname.2 hread.2]
    have hsplit : ([] :: file.blockLines pair.1 pair.2).map Text.stripReturn =
        (([] :: HostsFile.nameComment pair.1 pair.2).map Text.stripReturn) ++
          Text.stripReturn ("Host ".toList ++ pair.2) ::
            (file.optionLines pair.1).map Text.stripReturn := by
      simp only [HostsFile.blockLines, List.map_append, List.map_cons,
        List.append_assoc, List.cons_append, List.nil_append]
    have hargs : hostArgs pair.2 = [withoutEquals pair.2] := if_neg hne
    rw [hsplit, List.zipIdx_append, List.zipIdx_cons]
    refine SshConfig.Parser.foldl_block ?_ ?_ (List.forall_mem_singleton.mpr hplain) ?_
    · intro line hline
      obtain ⟨text, htext, hstrip⟩ := List.mem_map.mp (List.fst_mem_of_mem_zipIdx hline)
      rw [← hstrip, SshConfig.readLine_stripReturn]
      rcases List.mem_cons.mp htext with rfl | hcomment
      · rfl
      · rw [HostsFile.nameComment] at hcomment
        split at hcomment
        next => cases hcomment
        next =>
          rw [List.mem_singleton.mp hcomment]
          exact @SshConfig.readLine_comment _ [] fun _ hc => absurd hc List.not_mem_nil
    · rw [SshConfig.readLine_stripReturn, hblock.readLine_host, hargs]
    · intro line hline
      obtain ⟨text, htext, hstrip⟩ := List.mem_map.mp (List.fst_mem_of_mem_zipIdx hline)
      have hquiet := quiet_optionLine hread.1 hblock (HostsFile.optionLine_of_mem htext)
      rw [← hstrip, SshConfig.Parser.Quiet, SshConfig.readLine_stripReturn]
      exact hquiet

end

section

variable {includes : SshConfig.Parser → List (List Char) → Nat → SshConfig.Parser}
  {origin : String} {file : HostsFile} {hosts : List Host}

theorem newline_iff : (∀ line ∈ file.written hosts, '\n' ∉ line) ↔
    ∀ pair ∈ withNames [] hosts,
      (∀ setting, ∀ value ∈ file.writtenValue pair.1 setting, '\n' ∉ value) ∧
        ∀ command ∈ file.proxyCommand pair.1, '\n' ∉ command := by
  rw [newline_written_iff]
  exact forall₂_congr fun pair _ => newline_optionLines_iff

/-- Values that are read as they are have no line end but in a user, a file or a command. -/
theorem newline_of_readable {host : Host} {hostAlias : List Char}
    (h : Readable file host hostAlias) {setting : SshConfig.Setting} {value : List Char}
    (hvalue : file.writtenValue host setting = some value) : '\n' ∉ value := by
  have hspace : ∀ {text : List Char}, (∀ c ∈ text, isWhitespace c = false) → '\n' ∉ text :=
    fun htext hmem => absurd (htext _ hmem) (by decide)
  cases setting with
  | hostName =>
    obtain rfl := Option.some.inj hvalue
    exact hspace h.reads.address.chars.2
  | user =>
    obtain ⟨user, huser, rfl⟩ := Option.map_eq_some_iff.mp hvalue
    exact fun hmem => h.user user huser (newline_quote.mp hmem)
  | port =>
    obtain ⟨port, -, rfl⟩ := Option.map_eq_some_iff.mp hvalue
    exact Target.notMem_digits (by decide) port
  | identityFile =>
    obtain ⟨path, hpath, rfl⟩ := Option.map_eq_some_iff.mp hvalue
    exact fun hmem => h.identityFile path hpath (newline_quote.mp hmem)
  | proxyJump =>
    rw [HostsFile.writtenValue] at hvalue
    split at hvalue
    next => cases hvalue
    next =>
      obtain rfl := Option.some.inj hvalue
      intro hmem
      rcases SshConfig.mem_joinWith hmem with heq | ⟨spec, hspec, hc⟩
      · exact absurd heq (by decide)
      · exact hspace (h.reads.jump.chars spec hspec).2.2 hc

/-- The names of the blocks are read, each as one that no other has, exactly for plain names
that stay different without an equals sign. -/
theorem names_iff : ((∀ pair ∈ withNames [] hosts,
        (blockHead pair.2).names = [withoutEquals pair.2]) ∧
      ((withNames [] hosts).map fun pair => withoutEquals pair.2).Nodup) ↔
    (∀ host ∈ hosts.filter isExported, NameText (aliasOf host.name.toList)) ∧
      ∀ name ∈ blockNames hosts, name.head? ≠ some '=' → '=' :: name ∉ blockNames hosts := by
  have hspace : ∀ name ∈ blockNames hosts, ∀ c ∈ name, isWhitespace c = false := by
    intro name hname
    obtain ⟨pair, hpair, rfl⟩ := List.mem_map.mp hname
    exact (blockName_of_mem hpair).noSpace
  have hmap : ((withNames [] hosts).map fun pair => withoutEquals pair.2) =
      (blockNames hosts).map withoutEquals := by
    rw [blockNames, List.map_map]
    rfl
  have hplain : ∀ pair ∈ withNames [] hosts,
      ((blockHead pair.2).names = [withoutEquals pair.2] ↔
        NameText (aliasOf pair.1.name.toList)) := by
    intro pair hpair
    have hname : BlockName (aliasOf pair.1.name.toList) := ⟨aliasOf_ne_nil _, nameChar_aliasOf _⟩
    rw [(blockName_of_mem hpair).names_blockHead, ← nameText_iff hname (eq_of_mem_withNames hpair)]
    split
    next h => exact ⟨fun _ => h, fun _ => rfl⟩
    next h => exact ⟨fun heq => absurd heq.symm (List.cons_ne_nil _ _), fun hboth => absurd hboth h⟩
  rw [hmap, nodup_withoutEquals_iff (nodup_blockNames hosts) hspace, ← map_withNames hosts [],
    List.forall_mem_map]
  exact and_congr_left fun _ => forall₂_congr hplain

theorem text_lines_iff : (Text.lines (file.sshConfig hosts).text).length =
    (file.written hosts).length ↔ ∀ line ∈ file.written hosts, '\n' ∉ line := by
  rw [text_sshConfig]
  exact (Text.length_lines_iff (file.written hosts)).2

theorem even_of_warnings (hlines : ∀ line ∈ file.written hosts, '\n' ∉ line)
    (hwarnings : (readBack includes origin file hosts).warnings = [])
    {pair : Host × List Char} (hpair : pair ∈ withNames [] hosts) {command : List Char}
    (hcommand : file.proxyCommand pair.1 = some command) : command.count '"' % 2 = 0 := by
  rw [← SshConfig.splitArgs_valueText_iff]
  cases hargs : SshConfig.splitArgs (valueText command) with
  | ok args => exact ⟨args, rfl⟩
  | error message =>
    have hmem : Text.stripReturn (optionLine "ProxyCommand" command) ∈
        Text.lines (file.sshConfig hosts).text := by
      rw [lines_sshConfig hlines]
      refine List.mem_map_of_mem (List.mem_cons_of_mem _ (List.mem_flatMap.mpr ⟨pair, hpair, ?_⟩))
      exact List.mem_cons_of_mem _ (List.mem_append_right _ (HostsFile.mem_of_command hcommand))
    rw [← List.zipIdx_map_fst 1 (Text.lines (file.sshConfig hosts).text)] at hmem
    obtain ⟨numbered, hk, hnumbered⟩ := List.mem_map.mp hmem
    have herror : SshConfig.readLine numbered.1 = some (.error message) := by
      rw [hnumbered, SshConfig.readLine_stripReturn, readLine_optionLine keywordText_command, hargs]
      rfl
    refine absurd hwarnings (SshConfig.Parser.warnings_of_error ?_ hk herror _)
    intro line hline statement hstatement
    exact no_includes hlines statement (List.mem_filterMap.mpr ⟨line, hline, hstatement⟩)

theorem warnings_readBack (hlines : ∀ line ∈ file.written hosts, '\n' ∉ line)
    (hnames : ∀ pair ∈ withNames [] hosts, (blockHead pair.2).names = [withoutEquals pair.2])
    (hvalues : ∀ pair ∈ withNames [] hosts, Readable file pair.1 pair.2) :
    (readBack includes origin file hosts).warnings = [] := by
  have hblocks : ∀ pair ∈ withNames [] hosts, BlockName pair.2 ∧
      SshConfig.isPlain (withoutEquals pair.2) = true ∧ withoutEquals pair.2 ≠ [] := by
    intro pair hpair
    have hblock := blockName_of_mem hpair
    have hname := hnames pair hpair
    rw [hblock.names_blockHead] at hname
    split at hname
    next h => exact ⟨hblock, hblock.isPlain_iff.mpr h.2, h.1⟩
    next => cases hname
  have hheader : SshConfig.readLine (Text.stripReturn header) = none := by
    rw [SshConfig.readLine_stripReturn]
    exact @SshConfig.readLine_comment _ [] fun _ hc => absurd hc List.not_mem_nil
  rw [readBack, SshConfig.parseStr, SshConfig.Parser.parse, lines_sshConfig hlines,
    HostsFile.written, List.map_cons, List.zipIdx_cons, List.foldl_cons,
    SshConfig.Parser.line, hheader]
  exact foldl_pairs_quiet hblocks hvalues _ _

end

/-- An export is read back exactly where names and values are ones that its lines have as they
are. -/
theorem export_reads_back_iff (includes : SshConfig.Parser → List (List Char) → Nat →
    SshConfig.Parser) (origin : String) (file : HostsFile) (hosts : List Host) :
    ReadsBack includes origin file hosts ↔ Portable file hosts := by
  constructor
  · intro h
    have hlines := text_lines_iff.mp h.lines
    have hnewline := newline_iff.mp hlines
    have hlength : (((withNames [] hosts).flatMap fun pair =>
        (blockHead pair.2).names).foldl pushNew []).length = (withNames [] hosts).length := by
      have hcount := h.hosts.length_eq
      rw [← map_withNames hosts [], List.length_map] at hcount
      rw [← @aliases_read includes origin file hosts hlines, List.length_map, hcount]
    obtain ⟨hnames, hnodup⟩ := (names_read_iff fun _ => blockName_of_mem).mp hlength
    have htexts := (tells_all_iff hlines hnames hnodup).mp h.hosts
    obtain ⟨hplain, hdistinct⟩ := names_iff.mp ⟨hnames, hnodup⟩
    refine ⟨hplain, hdistinct, fun pair hpair => ⟨htexts pair hpair, fun user huser hmem => ?_,
      fun path hpath hmem => ?_, fun command hcommand => ⟨(hnewline pair hpair).2 command hcommand,
        even_of_warnings hlines h.warnings hpair hcommand⟩⟩⟩
    · exact (hnewline pair hpair).1 .user (quote user) (Option.map_eq_some_iff.mpr
        ⟨user, huser, rfl⟩) (newline_quote.mpr hmem)
    · exact (hnewline pair hpair).1 .identityFile (quote path) (Option.map_eq_some_iff.mpr
        ⟨path, hpath, rfl⟩) (newline_quote.mpr hmem)
  · intro h
    have hlines : ∀ line ∈ file.written hosts, '\n' ∉ line := newline_iff.mpr fun pair hpair =>
      ⟨fun setting value hvalue => newline_of_readable (h.values pair hpair) hvalue,
        fun command hcommand => ((h.values pair hpair).command command hcommand).1⟩
    obtain ⟨hnames, hnodup⟩ := names_iff.mpr ⟨h.names, h.distinct⟩
    refine ⟨text_lines_iff.mpr hlines, fun line hline => ?_,
      warnings_readBack hlines hnames h.values, ?_,
      (tells_all_iff hlines hnames hnodup).mpr fun pair hpair => (h.values pair hpair).reads⟩
    · rw [lines_sshConfig hlines] at hline
      obtain ⟨written, hwritten, rfl⟩ := List.mem_map.mp hline
      exact listed_stripReturn (listed_written written hwritten)
    · rw [aliases_read hlines]
      exact nodup_foldl_pushNew List.nodup_nil _

namespace ExportWitness

open ResolveWitness (bare)

/-- A host whose key file has a line end in its name, and what comes after it. -/
def broken : Host := { bare with identityFile := some "~/.ssh/id\nHost evil" }

/-- A name that would be an option of `ssh`. -/
def dashed : Host := { bare with name := "-web" }

def library (host : Host) : HostsFile := ⟨[], [host], .empty⟩

def noFiles : SshConfig.Parser → List (List Char) → Nat → SshConfig.Parser :=
  fun parser _ _ => parser

theorem identity_broken : ResolvedHost.string ((library broken).resolve broken) "identity_file" =
    some "~/.ssh/id\nHost evil".toList := by
  rw [ResolvedHost.string, valueOf_resolve _ (by decide)]
  decide

theorem export_adds_host :
    ¬ ReadsBack noFiles "config" (library broken) [broken] ∧
    ¬ ReadsBack noFiles "config" (library dashed) [dashed] := by
  constructor
  · intro h
    have hpair : (broken, "web".toList) ∈ withNames [] [broken] := by
      rw [show withNames [] [broken] = [(broken, "web".toList)] from rfl]
      exact List.mem_singleton_self _
    have hvalue : quote "~/.ssh/id\nHost evil".toList ∈
        (library broken).writtenValue broken .identityFile := by
      rw [HostsFile.writtenValue, identity_broken]
      rfl
    exact (newline_iff.mp (text_lines_iff.mp h.lines) _ hpair).1 .identityFile _ hvalue
      (newline_quote.mpr (by decide))
  · intro h
    have hnames : ((withNames [] [dashed]).flatMap fun pair => (blockHead pair.2).names) = [] := by
      decide
    have hread := @aliases_read noFiles "config" _ _ (text_lines_iff.mp h.lines)
    rw [hnames, List.foldl_nil, List.map_eq_nil_iff] at hread
    have hlength := h.hosts.length_eq
    rw [hread] at hlength
    exact absurd hlength (by decide)

end ExportWitness

end Opensesh.Saved
