/-
The statements of a configuration without the numbers of their lines, the blocks they
give, and which lines leave a warning.
-/
import Opensesh.SshConfigReads

namespace Opensesh.SshConfig

open List

def Statement.erase (statement : Statement) : Statement := { statement with line := 0 }

/-- The statement of a line, whatever its number. -/
def statementOf (line : List Char) : Option Statement := Statement.of (line, 0)

theorem map_erase_statements (lines : List (List Char)) (first : Nat) :
    ((lines.zipIdx first).filterMap Statement.of).map Statement.erase =
      lines.filterMap statementOf := by
  have hof : ∀ numbered : List Char × Nat,
      (Statement.of numbered).map Statement.erase = statementOf numbered.1 := by
    rintro ⟨line, number⟩
    rw [statementOf, Statement.of, Statement.of]
    dsimp only
    split <;> rfl
  induction lines generalizing first with
  | nil => rfl
  | cons line lines ih =>
    rw [zipIdx_cons, filterMap_cons, filterMap_cons, ← hof (line, first), ← ih (first + 1)]
    cases Statement.of (line, first) <;> rfl

theorem named_erase (file : List Statement) : named (file.map Statement.erase) = named file := by
  rw [named, flatMap_map]
  rfl

theorem blocks_erase (file : List Statement) : blocks (file.map Statement.erase) =
    (blocks file).map fun block => ⟨block.names, block.lines.map Statement.erase⟩ := by
  induction file with
  | nil => rfl
  | cons statement rest ih =>
    rw [map_cons, blocks, blocks, ih]
    change (if statement.keyword = .host then _ else _) = _
    split
    next =>
      rw [map_cons, takeWhile_map]
      rfl
    next => rfl

theorem linesOf_erase (hostAlias : Alias) (file : List Statement) :
    linesOf hostAlias (file.map Statement.erase) =
      (linesOf hostAlias file).map Statement.erase := by
  rw [linesOf, linesOf, blocks_erase, filter_map, flatMap_map, map_flatMap]
  rfl

theorem readLine_stripReturn (line : List Char) : readLine (Text.stripReturn line) = readLine line := by
  rw [readLine, readLine, Text.trim_stripReturn]

theorem statementOf_stripReturn (line : List Char) :
    statementOf (Text.stripReturn line) = statementOf line := by
  rw [statementOf, statementOf, Statement.of, Statement.of, readLine_stripReturn]

theorem blocks_block {host : Statement} {lines rest : List Statement}
    (hhost : host.keyword = .host) (hlines : ∀ line ∈ lines, line.startsBlock = false)
    (hrest : ∀ next ∈ rest.head?, next.startsBlock = true) :
    blocks (host :: (lines ++ rest)) = ⟨host.names, lines⟩ :: blocks rest := by
  have hskip : blocks (lines ++ rest) = blocks rest := by
    induction lines with
    | nil => rfl
    | cons line lines ih =>
      have hline := hlines line mem_cons_self
      rw [cons_append, blocks, if_neg, ih fun next hnext => hlines next (mem_cons_of_mem _ hnext)]
      intro hkeyword
      rw [Statement.startsBlock, hkeyword] at hline
      exact absurd hline (by decide)
  have hstop : (rest.takeWhile fun next => !next.startsBlock) = [] := by
    cases rest with
    | nil => rfl
    | cons next rest =>
      have hnext := hrest next rfl
      exact takeWhile_cons_of_neg (by simp [hnext])
  rw [blocks, if_pos hhost, hskip, takeWhile_append_of_pos
    (fun line hline => by rw [hlines line hline]; rfl), hstop, List.append_nil]

namespace Parser

variable {includes : Parser → List (List Char) → Nat → Parser} {file : String}

/-- Warnings stay. -/
def Extends (parser after : Parser) : Prop := parser.config.warnings <+: after.config.warnings

theorem foldl_extends {α : Type} {step : Parser → α → Parser} {items : List α}
    (h : ∀ item ∈ items, ∀ parser, Extends parser (step parser item)) (parser : Parser) :
    Extends parser (items.foldl step parser) := by
  induction items generalizing parser with
  | nil => exact prefix_refl _
  | cons item items ih =>
    rw [forall_mem_cons] at h
    exact (h.1 parser).trans (ih h.2 (step parser item))

theorem warn_extends (parser : Parser) (line : Nat) (message : String) :
    Extends parser (parser.warn file line message) := prefix_append _ _

theorem startHost_extends (parser : Parser) (patterns : List (List Char)) (line : Nat) :
    Extends parser (parser.startHost patterns file line) := by
  have hpatterns : ∀ before : Parser × List Alias,
      Extends before.1 (patterns.foldl (startPattern file line) before).1 := by
    induction patterns with
    | nil => exact fun _ => prefix_refl _
    | cons pattern patterns ih =>
      intro before
      refine List.IsPrefix.trans ?_ (ih _)
      unfold startPattern
      dsimp only
      split
      next => exact warn_extends _ _ _
      next =>
        split
        next => exact warn_extends _ _ _
        next => split <;> exact prefix_refl _
  exact hpatterns (parser, [])

theorem apply_extends (setting : Setting) (args : List (List Char)) (line : Nat)
    (parser : Parser) (hostAlias : Alias) :
    Extends parser (apply setting args file line parser hostAlias) := by
  unfold apply
  split
  next => exact prefix_refl _
  next =>
    dsimp only
    split
    next => exact prefix_append _ _
    next => exact prefix_refl _

theorem line_extends {numbered : List Char × Nat}
    (hinclude : ∀ statement ∈ Statement.of numbered, statement.keyword ≠ .includeFiles)
    (parser : Parser) : Extends parser (parser.line includes file numbered) := by
  obtain ⟨raw, number⟩ := numbered
  rw [Statement.of] at hinclude
  dsimp only at hinclude
  rw [Parser.line]
  cases hread : readLine raw with
  | none => exact prefix_refl _
  | some read =>
    cases read with
    | error message => exact warn_extends _ _ _
    | ok pair =>
      obtain ⟨keyword, args⟩ := pair
      rw [hread] at hinclude
      cases keyword with
      | host => exact startHost_extends _ _ _
      | matchBlock => exact prefix_append _ _
      | includeFiles => exact absurd rfl (hinclude _ rfl)
      | other => exact prefix_refl _
      | forward kind =>
        dsimp only
        split
        next => exact prefix_refl _
        next =>
          split
          next => exact @foldl_extends _ (push _) _ (fun _ _ _ => prefix_refl _) parser
          next => exact warn_extends _ _ _
      | setting setting =>
        dsimp only
        split
        next => split <;> [exact prefix_refl _; exact prefix_append _ _]
        next => exact foldl_extends (fun _ _ _ => apply_extends _ _ _ _ _) _

theorem warnings_of_error {numbered : List (List Char × Nat)} {bad : List Char × Nat}
    {message : String} (hinclude : ∀ line ∈ numbered, ∀ statement ∈ Statement.of line,
    statement.keyword ≠ .includeFiles) (hbad : bad ∈ numbered)
    (herror : readLine bad.1 = some (.error message)) (parser : Parser) :
    (numbered.foldl (Parser.line includes file) parser).config.warnings ≠ [] := by
  obtain ⟨before, after, rfl⟩ := append_of_mem hbad
  have hafter := @foldl_extends _ (Parser.line includes file) after
    (fun line hline => line_extends (hinclude line (mem_append_right _ (mem_cons_of_mem _ hline))))
    (Parser.line includes file (before.foldl (Parser.line includes file) parser) bad)
  rw [foldl_append, foldl_cons]
  intro hnil
  rw [Extends, hnil, prefix_nil, Parser.line, herror] at hafter
  exact append_ne_nil_of_right_ne_nil _ (cons_ne_nil _ _) hafter

/-- What a line of a block may be so that it leaves no warning. -/
def Quiet (names : List Alias) (line : List Char) : Prop :=
  match readLine line with
  | none => True
  | some (.ok (.other, _)) => True
  | some (.ok (.setting setting, args)) =>
    ∀ hostAlias ∈ names, ∀ host : SshHost, (host.apply hostAlias setting args).2 = none
  | _ => False

theorem line_quiet {parser : Parser} {names : List Alias} {numbered : List Char × Nat}
    (hcurrent : parser.current = some names) (h : Quiet names numbered.1) :
    (parser.line includes file numbered).config.warnings = parser.config.warnings ∧
    (parser.line includes file numbered).current = some names := by
  obtain ⟨raw, number⟩ := numbered
  rw [Quiet] at h
  dsimp only at h
  rw [Parser.line]
  split at h
  next hread => rw [hread]; exact ⟨rfl, hcurrent⟩
  next hread => rw [hread]; exact ⟨rfl, hcurrent⟩
  next setting args hread =>
    rw [hread]
    dsimp only
    rw [hcurrent]
    dsimp only
    have happly : ∀ hostAlias ∈ names, ∀ parser : Parser,
        (apply setting args file number parser hostAlias).config.warnings = parser.config.warnings ∧
        (apply setting args file number parser hostAlias).current = parser.current := by
      intro hostAlias hmem parser
      unfold apply
      split
      next => exact ⟨rfl, rfl⟩
      next host _ => simp only [h hostAlias hmem host]; exact ⟨rfl, rfl⟩
    have hfold : ∀ (aliases : List Alias), (∀ name ∈ aliases, name ∈ names) → ∀ parser : Parser,
        (aliases.foldl (apply setting args file number) parser).config.warnings =
          parser.config.warnings ∧
        (aliases.foldl (apply setting args file number) parser).current = parser.current := by
      intro aliases hsub
      induction aliases with
      | nil => exact fun _ => ⟨rfl, rfl⟩
      | cons name aliases ih =>
        intro parser
        rw [forall_mem_cons] at hsub
        have hstep := happly name hsub.1 parser
        have hrest := ih hsub.2 (apply setting args file number parser name)
        rw [hstep.1, hstep.2] at hrest
        exact hrest
    have hall := hfold names (fun _ hmem => hmem) parser
    rw [hcurrent] at hall
    exact hall
  next => exact h.elim

theorem foldl_quiet {parser : Parser} {names : List Alias} {numbered : List (List Char × Nat)}
    (hcurrent : parser.current = some names) (h : ∀ line ∈ numbered, Quiet names line.1) :
    (numbered.foldl (Parser.line includes file) parser).config.warnings =
      parser.config.warnings := by
  induction numbered generalizing parser with
  | nil => rfl
  | cons line numbered ih =>
    rw [forall_mem_cons] at h
    obtain ⟨hwarnings, hnext⟩ := @line_quiet includes file parser names line hcurrent h.1
    rw [foldl_cons, ih hnext h.2, hwarnings]

theorem startHost_plain {parser : Parser} {patterns : List (List Char)} {number : Nat}
    (h : ∀ pattern ∈ patterns, isPlain pattern = true) :
    (parser.startHost patterns file number).config.warnings = parser.config.warnings ∧
    (parser.startHost patterns file number).current = some patterns := by
  have hpatterns : ∀ before : Parser × List Alias,
      (patterns.foldl (startPattern file number) before).1.config.warnings =
        before.1.config.warnings ∧
      (patterns.foldl (startPattern file number) before).2 = before.2 ++ patterns := by
    induction patterns with
    | nil => exact fun before => ⟨rfl, (List.append_nil _).symm⟩
    | cons pattern patterns ih =>
      rintro ⟨parser, aliases⟩
      rw [forall_mem_cons, isPlain, Bool.and_eq_true, Bool.not_eq_true', Bool.not_eq_true'] at h
      have hstep : startPattern file number (parser, aliases) pattern =
          (if (hostOf pattern parser.config.hosts).isNone then
            parser.setHosts (parser.config.hosts ++
              [{ hostAlias := pattern, file, line := number }])
          else parser, aliases ++ [pattern]) := by
        rw [startPattern, h.1.1, h.1.2, if_neg Bool.false_ne_true, if_neg Bool.false_ne_true]
      have hrest := ih h.2 (startPattern file number (parser, aliases) pattern)
      rw [foldl_cons, hrest.1, hrest.2, hstep, List.append_assoc, singleton_append]
      refine ⟨?_, rfl⟩
      dsimp only
      split <;> rfl
  obtain ⟨hwarnings, hnames⟩ := hpatterns (parser, [])
  exact ⟨hwarnings, congrArg some hnames⟩

/-- A block without a warning: lines that say nothing, a `Host` line with plain names, and
quiet options. -/
theorem foldl_block {parser : Parser} {before options : List (List Char × Nat)}
    {head : List Char × Nat} {names : List Alias}
    (hbefore : ∀ line ∈ before, readLine line.1 = none)
    (hhead : readLine head.1 = some (.ok (.host, names)))
    (hplain : ∀ name ∈ names, isPlain name = true)
    (hoptions : ∀ line ∈ options, Quiet names line.1) :
    ((before ++ head :: options).foldl (Parser.line includes file) parser).config.warnings =
      parser.config.warnings := by
  have hskip : before.foldl (Parser.line includes file) parser = parser := by
    induction before with
    | nil => rfl
    | cons line before ih =>
      rw [forall_mem_cons] at hbefore
      rw [foldl_cons, Parser.line, hbefore.1]
      exact ih hbefore.2
  have hstart : Parser.line includes file parser head = parser.startHost names file head.2 := by
    rw [Parser.line, hhead]
  obtain ⟨hwarnings, hcurrent⟩ := @startHost_plain file parser names head.2 hplain
  rw [foldl_append, hskip, foldl_cons, hstart, foldl_quiet hcurrent hoptions, hwarnings]

end Parser

/-- A first argument that gives no warning for an option. -/
def Accepted (hostAlias : Alias) (first : List Char) : Setting → Prop
  | .hostName => startsWithDash (replaceName hostAlias first) = false
  | .user => startsWithDash first = false
  | .port => ((Target.parseNumber 65535 first).filter (0 < ·)).isSome
  | .identityFile => True
  | .proxyJump => True

theorem SshHost.apply_quiet {hostAlias : Alias} {setting : Setting} {args : List (List Char)}
    (h : Accepted hostAlias (args.headD []) setting) (host : SshHost) :
    (host.apply hostAlias setting args).2 = none := by
  cases setting with
  | hostName =>
    have hdash : startsWithDash (replaceName hostAlias (args.headD [])) = false := h
    simp only [apply, hdash, Bool.false_eq_true, ↓reduceIte]
    split <;> rfl
  | user =>
    have hdash : startsWithDash (args.headD []) = false := h
    simp only [apply, hdash, Bool.false_eq_true, ↓reduceIte]
    split <;> rfl
  | port =>
    obtain ⟨port, hport⟩ := Option.isSome_iff_exists.mp h
    simp only [apply, hport]
    split <;> rfl
  | identityFile =>
    simp only [apply]
    split <;> rfl
  | proxyJump =>
    simp only [apply]
    split <;> rfl

end Opensesh.SshConfig
