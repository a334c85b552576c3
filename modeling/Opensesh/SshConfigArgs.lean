/-
What one line of a configuration says when it is written as a keyword, a space and a value:
the value's first argument, which values are their own, and which host names no expansion
changes.
-/
import Opensesh.SshConfigText
import Opensesh.SshConfig
import Mathlib.Data.List.DropRight
import Mathlib.Data.List.Infix

namespace Opensesh.SshConfig

open List
open Text (stripPrefix toAsciiLower)

section

variable {text current : List Char} {quoted inArg : Bool} {args : List (List Char)}

theorem argsFrom_made (h : argsFrom current quoted inArg text = .ok args)
    (hcurrent : '"' ∉ current) :
    ∀ arg ∈ args, arg.Sublist (current ++ text) ∧ '"' ∉ arg := by
  induction text generalizing current quoted inArg args with
  | nil =>
    rw [argsFrom] at h
    split at h
    next => cases h
    next =>
      cases h
      split
      next => exact forall_mem_singleton.mpr ⟨by rw [List.append_nil], hcurrent⟩
      next => exact nofun
  | cons c rest ih =>
    rw [argsFrom] at h
    have hskip : (current ++ rest).Sublist (current ++ c :: rest) :=
      (sublist_cons_self c rest).append_left current
    split at h
    next => exact fun arg harg => (ih h hcurrent arg harg).imp_left (·.trans hskip)
    next hquote =>
      split at h
      next =>
        split at h
        next =>
          cases hrest : argsFrom [] quoted false rest with
          | error message => rw [hrest] at h; cases h
          | ok others =>
            rw [hrest] at h
            cases h
            refine forall_mem_cons.mpr ⟨⟨sublist_append_left _ _, hcurrent⟩, ?_⟩
            exact fun arg harg => (ih hrest not_mem_nil arg harg).imp_left fun hsub =>
              (hsub.trans (sublist_append_right current rest)).trans hskip
        next => exact fun arg harg => (ih h hcurrent arg harg).imp_left (·.trans hskip)
      next =>
        have hnot : '"' ∉ current ++ [c] := fun hmem =>
          (mem_append.mp hmem).elim hcurrent fun hc => hquote (mem_singleton.mp hc).symm
        have hmade := ih h hnot
        rw [List.append_assoc, singleton_append] at hmade
        exact hmade

/-- Without quotes the arguments are the runs between white space. -/
theorem argsFrom_plain (h : '"' ∉ text) (word : List Char) :
    argsFrom word false (!word.isEmpty) text = .ok (Text.wordsFrom word text) := by
  induction text generalizing word with
  | nil => cases word <;> rfl
  | cons c rest ih =>
    rw [mem_cons, not_or] at h
    have hnext := ih h.2 (word ++ [c])
    rw [show (word ++ [c]).isEmpty = false by simp] at hnext
    rw [argsFrom, if_neg (Ne.symm h.1), Text.wordsFrom, Bool.not_false, Bool.and_true]
    split
    next =>
      have hrest : argsFrom [] false false rest = .ok (Text.wordsFrom [] rest) := ih h.2 []
      cases word with
      | nil => exact hrest
      | cons d word =>
        rw [hrest]
        rfl
    next => exact hnext

/-- A line can be read when its quotes come in pairs. -/
theorem isOk_argsFrom : (argsFrom current quoted inArg text).isOk =
    ((text.count '"' % 2 == 1) == quoted) := by
  induction text generalizing current quoted inArg with
  | nil => cases quoted <;> rfl
  | cons c rest ih =>
    rw [argsFrom]
    split
    next hquote =>
      rw [ih, hquote, count_cons_self]
      rcases Nat.mod_two_eq_zero_or_one (rest.count '"') with hmod | hmod <;>
        cases quoted <;> simp [Nat.add_mod, hmod]
    next hquote =>
      rw [count_cons_of_ne hquote]
      split
      next =>
        split
        next =>
          rw [← @ih [] quoted false]
          cases argsFrom [] quoted false rest <;> rfl
        next => exact ih
      next => exact ih

theorem argsFrom_quoted (h : '"' ∉ text) :
    argsFrom current true true (text ++ ['"']) = .ok [current ++ text] := by
  induction text generalizing current with
  | nil => rw [List.append_nil]; rfl
  | cons c rest ih =>
    rw [mem_cons, not_or] at h
    rw [cons_append, argsFrom, if_neg (Ne.symm h.1), Bool.not_true, Bool.and_false,
      if_neg Bool.false_ne_true, ih h.2, List.append_assoc, singleton_append]

end

/-- The first argument, empty when there is none or the line can't be read. -/
def firstArg (text : List Char) : List Char :=
  match splitArgs text with
  | .ok args => args.headD []
  | .error _ => []

section

variable {text : List Char}

theorem firstArg_made (text : List Char) : (firstArg text).Sublist text ∧ '"' ∉ firstArg text := by
  rw [firstArg]
  split
  next args hargs =>
    cases args with
    | nil => exact ⟨nil_sublist _, not_mem_nil⟩
    | cons first args => exact argsFrom_made hargs not_mem_nil first mem_cons_self
  next => exact ⟨nil_sublist _, not_mem_nil⟩

theorem firstArg_plain (h : '"' ∉ text) : firstArg text = (Text.splitWhitespace text).headD [] := by
  have hargs : splitArgs text = _ := argsFrom_plain h []
  rw [firstArg, hargs]
  rfl

theorem noSpace_wordsFrom {word : List Char} (hword : ∀ c ∈ word, isWhitespace c = false) :
    ∀ other ∈ Text.wordsFrom word text, ∀ c ∈ other, isWhitespace c = false := by
  induction text generalizing word with
  | nil =>
    rw [Text.wordsFrom]
    split
    next => exact fun _ hmem => absurd hmem not_mem_nil
    next => exact forall_mem_singleton.mpr hword
  | cons c rest ih =>
    rw [Text.wordsFrom]
    split
    next =>
      split
      next => exact ih fun _ hmem => absurd hmem not_mem_nil
      next =>
        exact forall_mem_cons.mpr ⟨hword, ih fun _ hmem => absurd hmem not_mem_nil⟩
    next hspace =>
      refine ih fun d hd => ?_
      rcases mem_append.mp hd with hold | hnew
      · exact hword d hold
      · rw [mem_singleton.mp hnew]
        exact Bool.eq_false_iff.mpr hspace

theorem noSpace_firstArg (h : '"' ∉ text) : ∀ c ∈ firstArg text, isWhitespace c = false := by
  rw [firstArg_plain h, Text.splitWhitespace]
  have hwords := @noSpace_wordsFrom text [] fun _ hmem => absurd hmem not_mem_nil
  cases hsplit : Text.wordsFrom [] text with
  | nil => exact fun _ hmem => absurd hmem not_mem_nil
  | cons first words =>
    rw [hsplit] at hwords
    exact hwords first mem_cons_self

theorem firstArg_word (hquote : '"' ∉ text) (hspace : ∀ c ∈ text, isWhitespace c = false) :
    firstArg text = text := by
  rw [firstArg_plain hquote]
  by_cases hempty : text = []
  · rw [hempty]
    rfl
  · rw [Text.splitWhitespace_word _ hempty]
    · rfl
    · rw [all_eq_true]
      exact fun c hc => by rw [hspace c hc, Bool.not_false]

theorem firstArg_quoted (h : '"' ∉ text) : firstArg ('"' :: (text ++ ['"'])) = text := by
  have hargs : splitArgs ('"' :: (text ++ ['"'])) = .ok [text] := argsFrom_quoted h
  rw [firstArg, hargs]
  rfl

end

/-- A value without the equals sign it may start with. -/
def withoutEquals (text : List Char) : List Char :=
  match stripPrefix ['='] text with
  | some after => after.dropWhile isWhitespace
  | none => text

/-- What is split into the arguments of a line with a value. -/
def valueText (value : List Char) : List Char := withoutEquals (Text.trim value)

section

variable {text value word indent : List Char} {c : Char}

theorem withoutEquals_cons : withoutEquals ('=' :: text) = text.dropWhile isWhitespace := by
  rw [withoutEquals, show stripPrefix ['='] ('=' :: text) = some text from
    Text.stripPrefix_append ['='] text]

theorem withoutEquals_eq_self (h : text.head? ≠ some '=') : withoutEquals text = text := by
  cases text with
  | nil => rfl
  | cons c rest =>
    rw [withoutEquals, Text.stripPrefix_cons_eq_none]
    exact fun heq => h (congrArg some heq.symm)

theorem length_withoutEquals (h : text.head? = some '=') :
    (withoutEquals text).length < text.length := by
  obtain ⟨rest, rfl⟩ := List.head?_eq_some_iff.mp h
  rw [withoutEquals_cons, length_cons, Nat.lt_succ_iff]
  exact (dropWhile_sublist _).length_le

theorem withoutEquals_sublist (text : List Char) : (withoutEquals text).Sublist text := by
  by_cases h : text.head? = some '='
  · obtain ⟨rest, rfl⟩ := List.head?_eq_some_iff.mp h
    rw [withoutEquals_cons]
    exact (dropWhile_sublist _).trans (sublist_cons_self _ _)
  · rw [withoutEquals_eq_self h]

theorem trim_eq (text : List Char) :
    Text.trim text = (text.dropWhile isWhitespace).rdropWhile isWhitespace := rfl

theorem rdropWhile_append (h : ∀ c ∈ text.getLast?, isWhitespace c = false) (rest : List Char) :
    (text ++ rest).rdropWhile isWhitespace = text ++ rest.rdropWhile isWhitespace := by
  rw [List.rdropWhile, reverse_append, dropWhile_append, List.rdropWhile]
  split
  next hempty =>
    rw [List.isEmpty_iff.mp hempty, reverse_nil, List.append_nil,
      Text.dropWhile_eq_self (by rwa [List.head?_reverse]), reverse_reverse]
  next => rw [reverse_append, reverse_reverse]

/-- A text without white space at its end, and then at its start. -/
theorem dropWhile_rdropWhile (text : List Char) :
    (text.rdropWhile isWhitespace).dropWhile isWhitespace = Text.trim text := by
  rw [trim_eq]
  induction text with
  | nil => rfl
  | cons c rest ih =>
    by_cases hspace : isWhitespace c = true
    · rw [dropWhile_cons_of_pos hspace, ← ih]
      by_cases hall : ∀ d ∈ rest, isWhitespace d = true
      · rw [rdropWhile_eq_nil_iff.mpr (forall_mem_cons.mpr ⟨hspace, hall⟩),
          rdropWhile_eq_nil_iff.mpr hall]
      · have hcons : (c :: rest).rdropWhile isWhitespace = c :: rest.rdropWhile isWhitespace := by
          rw [List.rdropWhile, reverse_cons, dropWhile_append, if_neg, reverse_append]
          · rfl
          · rw [List.isEmpty_iff, dropWhile_eq_nil_iff]
            simpa using hall
        rw [hcons, dropWhile_cons_of_pos hspace]
    · have hspace : isWhitespace c = false := Bool.eq_false_iff.mpr hspace
      have hcons := @rdropWhile_append [c] (by simpa using hspace) rest
      rw [singleton_append, singleton_append] at hcons
      rw [dropWhile_cons_of_neg (by simp [hspace]), hcons, dropWhile_cons_of_neg (by simp [hspace])]

theorem trim_indent (h : ∀ c ∈ indent, isWhitespace c = true) :
    Text.trim (indent ++ text) = Text.trim text := by
  rw [trim_eq, trim_eq, dropWhile_append_of_pos h]

/-- A word that ends before white space or an equals sign. -/
structure KeywordText (word : List Char) : Prop where
  ne_nil : word ≠ []
  chars : ∀ c ∈ word, endsKeyword c = false
  comment : word.head? ≠ some '#'

instance (word : List Char) : Decidable (KeywordText word) :=
  decidable_of_iff
    (word ≠ [] ∧ (word.all fun c => !endsKeyword c) = true ∧ word.head? ≠ some '#')
    ⟨fun ⟨hne, hchars, hcomment⟩ => ⟨hne, by simpa using hchars, hcomment⟩,
      fun h => ⟨h.ne_nil, by simpa using h.chars, h.comment⟩⟩

theorem KeywordText.noSpace (h : KeywordText word) : ∀ c ∈ word, isWhitespace c = false :=
  fun c hc => (Bool.or_eq_false_iff.mp (h.chars c hc)).1

theorem KeywordText.trim_line (h : KeywordText word)
    (hindent : ∀ c ∈ indent, isWhitespace c = true) :
    Text.trim (indent ++ (word ++ ' ' :: value)) =
      word ++ (' ' :: value).rdropWhile isWhitespace := by
  have hhead : (word ++ ' ' :: value).dropWhile isWhitespace = word ++ ' ' :: value := by
    refine Text.dropWhile_eq_self fun c hc => ?_
    rw [List.head?_append_of_ne_nil _ h.ne_nil] at hc
    exact h.noSpace c (mem_of_mem_head? hc)
  rw [trim_indent hindent, trim_eq, hhead, rdropWhile_append]
  exact fun c hc => h.noSpace c (mem_of_mem_getLast? hc)

theorem KeywordText.splitKeyword_line (h : KeywordText word)
    (hindent : ∀ c ∈ indent, isWhitespace c = true) :
    splitKeyword (indent ++ (word ++ ' ' :: value)) =
      some (word.map toAsciiLower, valueText value) := by
  have hkeyword : ∀ c ∈ word, (!endsKeyword c) = true := fun c hc => by rw [h.chars c hc]; rfl
  have hends : ∀ c ∈ ((' ' :: value).rdropWhile isWhitespace).head?, endsKeyword c = true := by
    intro c hc
    obtain ⟨after, hafter⟩ := rdropWhile_prefix isWhitespace (' ' :: value)
    obtain ⟨rest, hrest⟩ := List.head?_eq_some_iff.mp hc
    rw [hrest, cons_append] at hafter
    rw [(List.cons.inj hafter).1]
    rfl
  have htail : ∀ tail : List Char, (∀ c ∈ tail.head?, endsKeyword c = true) →
      (tail.takeWhile fun c => !endsKeyword c) = [] ∧
      (tail.dropWhile fun c => !endsKeyword c) = tail := by
    intro tail htail
    cases tail with
    | nil => exact ⟨rfl, rfl⟩
    | cons c rest =>
      have hc := htail c rfl
      exact ⟨takeWhile_cons_of_neg (by simp [hc]), dropWhile_cons_of_neg (by simp [hc])⟩
  obtain ⟨htake, hdrop⟩ := htail _ hends
  rw [splitKeyword]
  dsimp only
  rw [h.trim_line hindent, takeWhile_append_of_pos hkeyword, htake, List.append_nil,
    if_neg h.ne_nil, dropWhile_append_of_pos hkeyword, hdrop, dropWhile_rdropWhile]
  have htrim : Text.trim (' ' :: value) = Text.trim value := by
    rw [trim_eq, dropWhile_cons_of_pos (by decide), ← trim_eq]
  rw [htrim]
  rfl

theorem KeywordText.readLine_line (h : KeywordText word)
    (hindent : ∀ c ∈ indent, isWhitespace c = true) :
    readLine (indent ++ (word ++ ' ' :: value)) =
      some ((splitArgs (valueText value)).map fun args =>
        (Keyword.of (word.map toAsciiLower), args)) := by
  have hsplit := @splitKeyword_line value word [] h nofun
  have htrim := @trim_line value word [] h nofun
  rw [List.nil_append] at hsplit htrim
  have hkeyword : splitKeyword (Text.trim (indent ++ (word ++ ' ' :: value))) =
      some (word.map toAsciiLower, valueText value) := by
    rw [trim_indent hindent, ← hsplit, splitKeyword, splitKeyword, Text.trim_trim]
  obtain ⟨c, rest, rfl⟩ := exists_cons_of_ne_nil h.ne_nil
  rw [readLine]
  dsimp only
  rw [hkeyword, h.trim_line hindent, if_neg]
  · rfl
  · rintro (hnil | hhash)
    · cases hnil
    · exact h.comment hhash

theorem readLine_comment (hindent : ∀ c ∈ indent, isWhitespace c = true) :
    readLine (indent ++ '#' :: text) = none := by
  have hcons := @rdropWhile_append ['#'] (fun c hc => by rw [← Option.some.inj hc]; rfl) text
  rw [singleton_append, singleton_append] at hcons
  rw [readLine]
  dsimp only
  rw [trim_indent hindent, trim_eq, dropWhile_cons_of_neg (by decide), hcons]
  exact if_pos (Or.inr rfl)

end

theorem count_dropWhile (text : List Char) :
    (text.dropWhile isWhitespace).count '"' = text.count '"' := by
  have hfront : (text.takeWhile isWhitespace).count '"' = 0 := count_eq_zero.mpr fun hmem =>
    absurd (mem_takeWhile_imp hmem) (by decide)
  have hparts := congrArg (List.count '"') (@takeWhile_append_dropWhile _ isWhitespace text)
  rw [count_append, hfront, Nat.zero_add] at hparts
  exact hparts

theorem count_valueText (value : List Char) : (valueText value).count '"' = value.count '"' := by
  have htrim : (Text.trim value).count '"' = value.count '"' := by
    rw [trim_eq, List.rdropWhile, count_reverse, count_dropWhile, count_reverse, count_dropWhile]
  rw [← htrim, valueText]
  by_cases hhead : (Text.trim value).head? = some '='
  · obtain ⟨rest, hrest⟩ := List.head?_eq_some_iff.mp hhead
    rw [hrest, withoutEquals_cons, count_dropWhile, count_cons_of_ne (by decide)]
  · rw [withoutEquals_eq_self hhead]

/-- A value's line can be read exactly when the value's quotes come in pairs. -/
theorem splitArgs_valueText_iff (value : List Char) :
    (∃ args, splitArgs (valueText value) = .ok args) ↔ value.count '"' % 2 = 0 := by
  have hok := @isOk_argsFrom (valueText value) [] false false
  rw [count_valueText] at hok
  rw [splitArgs]
  cases hargs : argsFrom [] false false (valueText value) with
  | error message =>
    rw [hargs] at hok
    have hodd : (value.count '"' % 2 == 1) = true := by
      cases hparity : (value.count '"' % 2 == 1) with
      | true => rfl
      | false =>
        rw [hparity] at hok
        cases hok
    have hodd := beq_iff_eq.mp hodd
    exact ⟨nofun, fun heven => by omega⟩
  | ok args =>
    rw [hargs] at hok
    have heven := beq_iff_eq.mp hok.symm
    rw [beq_eq_false_iff_ne] at heven
    exact ⟨fun _ => by omega, fun _ => ⟨args, rfl⟩⟩

theorem trim_word {text : List Char} (h : ∀ c ∈ text, isWhitespace c = false) :
    Text.trim text = text :=
  Text.trim_eq_self (fun c hc => h c (mem_of_mem_head? hc)) fun c hc => h c (mem_of_mem_getLast? hc)

theorem notMem_splitOn {c : Char} {text piece : List Char} (h : piece ∈ Text.splitOn c text) :
    c ∉ piece ∧ piece.Sublist text := by
  induction text generalizing piece with
  | nil =>
    rw [mem_singleton.mp h]
    exact ⟨not_mem_nil, nil_sublist _⟩
  | cons d rest ih =>
    rw [Text.splitOn] at h
    split at h
    next =>
      rcases mem_cons.mp h with rfl | hrest
      · exact ⟨not_mem_nil, nil_sublist _⟩
      · exact (ih hrest).imp_right (·.trans (sublist_cons_self d rest))
    next hd =>
      split at h
      next =>
        rw [mem_singleton.mp h, mem_singleton]
        exact ⟨Ne.symm hd, singleton_sublist.mpr mem_cons_self⟩
      next first others hsplit =>
        rcases mem_cons.mp h with rfl | hrest
        · have hfirst := ih (hsplit ▸ mem_cons_self)
          refine ⟨fun hmem => ?_, hfirst.2.cons_cons d⟩
          exact (mem_cons.mp hmem).elim (fun heq => hd heq.symm) hfirst.1
        · exact (ih (hsplit ▸ mem_cons_of_mem first hrest)).imp_right
            (·.trans (sublist_cons_self d rest))

theorem mem_joinWith {c d : Char} {pieces : List (List Char)} (h : d ∈ Text.joinWith c pieces) :
    d = c ∨ ∃ piece ∈ pieces, d ∈ piece := by
  induction pieces with
  | nil => cases h
  | cons piece pieces ih =>
    cases pieces with
    | nil => exact Or.inr ⟨piece, mem_cons_self, h⟩
    | cons next pieces =>
      rw [Text.joinWith] at h
      · rcases mem_append.mp h with hpiece | hrest
        · exact Or.inr ⟨piece, mem_cons_self, hpiece⟩
        · rcases mem_cons.mp hrest with rfl | hrest
          · exact Or.inl rfl
          · rcases ih hrest with hsep | hin
            · exact Or.inl hsep
            · obtain ⟨other, hmem, hd⟩ := hin
              exact Or.inr ⟨other, mem_cons_of_mem _ hmem, hd⟩
      · exact cons_ne_nil _ _

/-- Jump hosts that a `ProxyJump` line has as they are. -/
structure Hops (specs : List (List Char)) : Prop where
  chars : ∀ spec ∈ specs, ',' ∉ spec ∧ '"' ∉ spec ∧ ∀ c ∈ spec, isWhitespace c = false
  equals : (Text.joinWith ',' specs).head? ≠ some '='
  unset : (Text.joinWith ',' specs).map toAsciiLower ≠ "none".toList

theorem hopsOf_firstArg_iff {specs : List (List Char)} (hne : specs ≠ [])
    (hfilled : ∀ spec ∈ specs, spec ≠ []) :
    hopsOf (firstArg (valueText (Text.joinWith ',' specs))) = specs ↔ Hops specs := by
  have hword : (∀ spec ∈ specs, '"' ∉ spec ∧ ∀ c ∈ spec, isWhitespace c = false) →
      firstArg (valueText (Text.joinWith ',' specs)) = withoutEquals (Text.joinWith ',' specs) := by
    intro h
    have hquote : '"' ∉ Text.joinWith ',' specs := fun hmem => by
      rcases mem_joinWith hmem with heq | ⟨spec, hspec, hc⟩
      · exact absurd heq (by decide)
      · exact (h spec hspec).1 hc
    have hspace : ∀ c ∈ Text.joinWith ',' specs, isWhitespace c = false := fun c hmem => by
      rcases mem_joinWith hmem with rfl | ⟨spec, hspec, hc⟩
      · decide
      · exact (h spec hspec).2 c hc
    have hsub := withoutEquals_sublist (Text.joinWith ',' specs)
    rw [valueText, trim_word hspace,
      firstArg_word (fun hmem => hquote (hsub.subset hmem)) fun c hc => hspace c (hsub.subset hc)]
  constructor
  · intro heq
    generalize hread : firstArg (valueText (Text.joinWith ',' specs)) = first at heq
    have hset : first.map toAsciiLower ≠ "none".toList := fun hnone => by
      rw [hopsOf, if_pos hnone] at heq
      exact hne heq.symm
    rw [hopsOf, if_neg hset] at heq
    have hpieces : ∀ spec ∈ specs, ',' ∉ spec ∧ spec.Sublist first := fun spec hspec => by
      rw [← heq] at hspec
      obtain ⟨piece, hpiece, rfl⟩ := mem_map.mp (mem_of_mem_filter hspec)
      obtain ⟨hcomma, hsub⟩ := notMem_splitOn hpiece
      exact ⟨fun hmem => hcomma ((Text.trim_sublist piece).subset hmem),
        (Text.trim_sublist piece).trans hsub⟩
    have hquote : ∀ spec ∈ specs, '"' ∉ spec := fun spec hspec hmem =>
      (firstArg_made _).2 (hread ▸ (hpieces spec hspec).2.subset hmem)
    have hspace : ∀ c ∈ first, isWhitespace c = false := by
      rw [← hread]
      refine noSpace_firstArg fun hmem => ?_
      have hjoined := (Text.trim_sublist _).subset ((withoutEquals_sublist _).subset hmem)
      rcases mem_joinWith hjoined with hc | ⟨spec, hspec, hc⟩
      · exact absurd hc (by decide)
      · exact hquote spec hspec hc
    have hchars : ∀ spec ∈ specs, '"' ∉ spec ∧ ∀ c ∈ spec, isWhitespace c = false :=
      fun spec hspec => ⟨hquote spec hspec, fun c hc => hspace c ((hpieces spec hspec).2.subset hc)⟩
    have hfirst : first = withoutEquals (Text.joinWith ',' specs) := hread.symm.trans (hword hchars)
    have hequals : (Text.joinWith ',' specs).head? ≠ some '=' := by
      intro hhead
      obtain ⟨rest, hrest⟩ := List.head?_eq_some_iff.mp hhead
      have hsplit := Text.splitOn_joinWith hne fun spec hspec => (hpieces spec hspec).1
      have hnospace : ∀ c ∈ rest.head?, isWhitespace c = false := fun c hc => by
        have hmem : c ∈ Text.joinWith ',' specs := by
          rw [hrest]
          exact mem_cons_of_mem _ (mem_of_mem_head? hc)
        rcases mem_joinWith hmem with rfl | ⟨spec, hspec, hspecChar⟩
        · decide
        · exact (hchars spec hspec).2 c hspecChar
      rw [hrest, withoutEquals_cons, Text.dropWhile_eq_self hnospace] at hfirst
      rw [hrest, Text.splitOn, if_neg (by decide)] at hsplit
      rw [hfirst] at heq
      cases hpieces : Text.splitOn ',' rest with
      | nil =>
        rw [hpieces] at heq
        exact hne heq.symm
      | cons piece others =>
        -- The first jump host would be longer than the first piece it is read from.
        rw [hpieces] at heq hsplit
        rw [← hsplit, map_cons] at heq
        by_cases htrim : Text.trim piece = []
        · rw [filter_cons_of_neg (by simpa using htrim)] at heq
          have hlength := (filter_sublist (l := others.map Text.trim)
            (p := fun piece => piece ≠ [])).length_le
          rw [heq, length_map, length_cons] at hlength
          exact absurd hlength (Nat.not_succ_le_self _)
        · rw [filter_cons_of_pos (by simpa using htrim)] at heq
          have hlength := (Text.trim_sublist piece).length_le
          rw [(List.cons.inj heq).1, length_cons] at hlength
          exact absurd hlength (Nat.not_succ_le_self _)
    refine ⟨fun spec hspec => ⟨(hpieces spec hspec).1, hchars spec hspec⟩, hequals, ?_⟩
    rw [← withoutEquals_eq_self hequals, ← hfirst]
    exact hset
  · intro h
    rw [hword fun spec hspec => (h.chars spec hspec).2, withoutEquals_eq_self h.equals, hopsOf,
      if_neg h.unset, Text.splitOn_joinWith hne fun spec hspec => (h.chars spec hspec).1,
      map_congr_left fun spec hspec => trim_word (h.chars spec hspec).2.2, map_id',
      List.filter_eq_self.mpr]
    exact fun spec hspec => decide_eq_true (hfilled spec hspec)

section

variable {a b : Char} {put text value hostAlias : List Char}

theorem replacePair_eq_self (h : ¬ [a, b] <:+: text) : replacePair a b put text = text := by
  induction text using (replacePair.induct a b) with
  | case1 => rfl
  | case2 => rfl
  | case3 c d rest hpair ih =>
    rw [hpair.1, hpair.2] at h
    exact absurd ⟨[], rest, rfl⟩ h
  | case4 c d rest hpair ih =>
    rw [replacePair, if_neg hpair, ih fun hrest => h (hrest.trans (suffix_cons _ _).isInfix)]

/-- Where the replaced pair has more percent signs than what is put for it, they get fewer. -/
theorem count_replacePair (hput : put.count '%' < [a, b].count '%') :
    (replacePair a b put text).count '%' ≤ text.count '%' ∧
    ([a, b] <:+: text → (replacePair a b put text).count '%' < text.count '%') := by
  induction text using (replacePair.induct a b) with
  | case1 => exact ⟨le_rfl, fun h => absurd h.length_le (by simp)⟩
  | case2 c => exact ⟨le_rfl, fun h => absurd h.length_le (by simp)⟩
  | case3 c d rest hpair ih =>
    have hcount : (c :: d :: rest).count '%' = [a, b].count '%' + rest.count '%' := by
      rw [hpair.1, hpair.2, ← count_append]
      rfl
    rw [hpair.1, hpair.2] at hcount ⊢
    rw [replacePair_pair, count_append, hcount]
    exact ⟨by omega, fun _ => by omega⟩
  | case4 c d rest hpair ih =>
    rw [replacePair, if_neg hpair, count_cons, count_cons]
    refine ⟨Nat.add_le_add_right ih.1 _, fun h => Nat.add_lt_add_right (ih.2 ?_) _⟩
    refine (infix_cons_iff.mp h).resolve_left fun hstart => hpair ?_
    rw [cons_prefix_cons, cons_prefix_cons] at hstart
    exact ⟨hstart.1.symm, hstart.2.1.symm⟩

theorem replaceName_eq_self_iff (hplain : '%' ∉ hostAlias) :
    replaceName hostAlias (withoutEquals value) = value ↔
      value.head? ≠ some '=' ∧ ¬ ['%', 'h'] <:+: value ∧ ¬ ['%', '%'] <:+: value := by
  constructor
  · intro heq
    have hsub : (withoutEquals value).count '%' ≤ value.count '%' :=
      (withoutEquals_sublist value).count_le '%'
    have hcount := congrArg (List.count '%') heq
    rw [replaceName] at hcount heq
    have hname := @count_replacePair '%' 'h' hostAlias (withoutEquals value)
      (by rw [count_eq_zero.mpr hplain]; decide)
    have hpercent := @count_replacePair '%' '%' ['%']
      (replacePair '%' 'h' hostAlias (withoutEquals value)) (by decide)
    have hnoName : ¬ ['%', 'h'] <:+: withoutEquals value := fun h => by
      have hlt := hname.2 h
      omega
    rw [replacePair_eq_self hnoName] at heq hcount hpercent
    have hnoPercent : ¬ ['%', '%'] <:+: withoutEquals value := fun h => by
      have hlt := hpercent.2 h
      omega
    rw [replacePair_eq_self hnoPercent] at heq
    have hhead : value.head? ≠ some '=' := fun hhead => by
      have hlt := length_withoutEquals hhead
      rw [heq] at hlt
      exact absurd hlt (Nat.lt_irrefl _)
    rw [withoutEquals_eq_self hhead] at hnoName hnoPercent
    exact ⟨hhead, hnoName, hnoPercent⟩
  · rintro ⟨hhead, hnoName, hnoPercent⟩
    rw [withoutEquals_eq_self hhead, replaceName, replacePair_eq_self hnoName,
      replacePair_eq_self hnoPercent]

theorem mem_replacePair {c : Char} (h : c ∈ replacePair a b put text) : c ∈ put ∨ c ∈ text := by
  induction text using (replacePair.induct a b) with
  | case1 => cases h
  | case2 => exact Or.inr h
  | case3 d e rest hpair ih =>
    rw [replacePair, if_pos hpair] at h
    rcases mem_append.mp h with hput | hrest
    · exact Or.inl hput
    · exact (ih hrest).imp_right fun hmem => mem_cons_of_mem _ (mem_cons_of_mem _ hmem)
  | case4 d e rest hpair ih =>
    rw [replacePair, if_neg hpair] at h
    rcases mem_cons.mp h with rfl | hrest
    · exact Or.inr mem_cons_self
    · exact (ih hrest).imp_right (mem_cons_of_mem _)

theorem mem_replaceName {c : Char} (h : c ∈ replaceName hostAlias text) :
    c = '%' ∨ c ∈ hostAlias ∨ c ∈ text := by
  rcases mem_replacePair h with hpercent | hname
  · exact Or.inl (mem_singleton.mp hpercent)
  · exact Or.inr (mem_replacePair hname)

/-- A host name that its line has as it is: one word that no expansion changes. -/
structure HostText (hostAlias value : List Char) : Prop where
  chars : '"' ∉ value ∧ ∀ c ∈ value, isWhitespace c = false
  dash : startsWithDash value = false
  expansion : if '%' ∈ hostAlias then replaceName hostAlias (withoutEquals value) = value
    else value.head? ≠ some '=' ∧ ¬ ['%', 'h'] <:+: value ∧ ¬ ['%', '%'] <:+: value

theorem hostText_iff (htrim : Text.trim value = value)
    (halias : '"' ∉ hostAlias ∧ ∀ c ∈ hostAlias, isWhitespace c = false) :
    replaceName hostAlias (firstArg (valueText value)) = value ∧ startsWithDash value = false ↔
      HostText hostAlias value := by
  have hexpansion : (if '%' ∈ hostAlias then replaceName hostAlias (withoutEquals value) = value
      else value.head? ≠ some '=' ∧ ¬ ['%', 'h'] <:+: value ∧ ¬ ['%', '%'] <:+: value) ↔
      replaceName hostAlias (withoutEquals value) = value := by
    split
    next => rfl
    next hplain => exact (replaceName_eq_self_iff hplain).symm
  have hword : '"' ∉ value ∧ (∀ c ∈ value, isWhitespace c = false) →
      firstArg (valueText value) = withoutEquals value := fun ⟨hquote, hspace⟩ => by
    have hsub := withoutEquals_sublist value
    rw [valueText, htrim, firstArg_word (fun hmem => hquote (hsub.subset hmem))
      fun c hc => hspace c (hsub.subset hc)]
  constructor
  · rintro ⟨heq, hdash⟩
    have hquote : '"' ∉ value := fun hmem => by
      rw [← heq] at hmem
      rcases mem_replaceName hmem with hc | hc | hc
      · exact absurd hc (by decide)
      · exact halias.1 hc
      · exact (firstArg_made _).2 hc
    have hspace : ∀ c ∈ value, isWhitespace c = false := fun c hmem => by
      rw [← heq] at hmem
      rcases mem_replaceName hmem with rfl | hc | hc
      · decide
      · exact halias.2 c hc
      · refine noSpace_firstArg (fun hmem => hquote ?_) c hc
        exact (Text.trim_sublist _).subset ((withoutEquals_sublist _).subset hmem)
    rw [hword ⟨hquote, hspace⟩] at heq
    exact ⟨⟨hquote, hspace⟩, hdash, hexpansion.mpr heq⟩
  · intro h
    rw [hword h.chars]
    exact ⟨hexpansion.mp h.expansion, h.dash⟩

end

end Opensesh.SshConfig
