/-
Comments and trailing commas taken out of a settings file that allows them: the two scanners,
and what they leave of a JSON text with such extras.
-/
import Opensesh.Text
import Mathlib.Data.List.Chain
import Mathlib.Data.List.TakeWhile

namespace Opensesh.JsonExtras

open List Option

/-- What comes after the end of a block comment. -/
def afterBlock : List Char → List Char
  | [] => []
  | c :: rest => if c = '*' ∧ rest.head? = some '/' then rest.tail else afterBlock rest

theorem length_afterBlock (text : List Char) : (afterBlock text).length ≤ text.length := by
  induction text with
  | nil => exact Nat.le_refl 0
  | cons c rest ih =>
    rw [afterBlock]
    split
    · rw [length_tail, length_cons]
      omega
    · exact Nat.le_succ_of_le ih

/-- The text without its comments. -/
def stripComments (inString : Bool) (text : List Char) : List Char :=
  match text with
  | [] => []
  | c :: rest =>
    if inString then
      if c = '\\' then c :: (rest.take 1 ++ stripComments true rest.tail)
      else c :: stripComments (c ≠ '"') rest
    else if c = '"' then c :: stripComments true rest
    else if c = '/' ∧ rest.head? = some '/' then
      stripComments false (rest.dropWhile (· ≠ '\n'))
    else if c = '/' ∧ rest.head? = some '*' then stripComments false (afterBlock rest.tail)
    else c :: stripComments false rest
termination_by text.length
decreasing_by
  all_goals simp only [List.length_cons]
  · rw [List.length_tail]
    omega
  · exact Nat.lt_succ_self _
  · exact Nat.lt_succ_self _
  · have hle := (List.dropWhile_sublist (l := rest) (· ≠ '\n')).length_le
    omega
  · have hle := length_afterBlock rest.tail
    rw [List.length_tail] at hle
    omega
  · exact Nat.lt_succ_self _

def closes (c : Char) : Bool := c = '}' || c = ']'

/-- The text without a comma that is followed, after spaces, by the end of an array or object. -/
def dropCommas : Bool → Bool → List Char → List Char
  | _, _, [] => []
  | true, escaped, c :: rest =>
    c :: if escaped then dropCommas true false rest
      else if c = '\\' then dropCommas true true rest
      else dropCommas (c ≠ '"') false rest
  | false, escaped, c :: rest =>
    if c = ',' ∧ (rest.find? (!isWhitespace ·)).any closes then dropCommas false escaped rest
    else c :: dropCommas (c = '"') escaped rest

def stripJsonExtras (text : List Char) : List Char :=
  dropCommas false false (stripComments false text)

def marks : List Char := ['{', '}', '[', ']', ',', ':']

inductive Token where
  | mark (c : Char)
  | string (body : List Char)
  | word (text : List Char)
deriving DecidableEq

/-- What can stand in a string: no quote but after a backslash. -/
inductive StringBody : List Char → Prop where
  | nil : StringBody []
  | escape (c : Char) {rest : List Char} : StringBody rest → StringBody ('\\' :: c :: rest)
  | plain {c : Char} {rest : List Char} (hquote : c ≠ '"') (hback : c ≠ '\\') :
      StringBody rest → StringBody (c :: rest)

/-- The characters of numbers and of the words for true, false and null, at least. -/
def isWordChar (c : Char) : Bool := !isWhitespace c && !(marks.contains c) && c != '"' && c != '/'

def Token.Valid : Token → Prop
  | .mark c => c ∈ marks
  | .string body => StringBody body
  | .word text => text ≠ [] ∧ ∀ c ∈ text, isWordChar c = true

def Token.text : Token → List Char
  | .mark c => [c]
  | .string body => '"' :: body ++ ['"']
  | .word text => text

/-- A value, and whether a comma may come after the last element. -/
inductive Json where
  | word (text : List Char)
  | string (body : List Char)
  | array (items : List Json) (comma : Bool)
  | object (members : List (List Char × Json)) (comma : Bool)

def trailing {α : Type} (extras comma : Bool) (elements : List α) : List Token :=
  if extras && comma && !elements.isEmpty then [.mark ','] else []

mutual

/-- The tokens of a value, with or without the commas after last elements. -/
def Json.tokens (extras : Bool) : Json → List Token
  | .word text => [.word text]
  | .string body => [.string body]
  | .array items comma =>
    .mark '[' :: (itemTokens extras items ++ trailing extras comma items ++ [.mark ']'])
  | .object members comma =>
    .mark '{' :: (memberTokens extras members ++ trailing extras comma members ++ [.mark '}'])

def itemTokens (extras : Bool) : List Json → List Token
  | [] => []
  | item :: rest => item.tokens extras ++ moreItems extras rest

def moreItems (extras : Bool) : List Json → List Token
  | [] => []
  | item :: rest => .mark ',' :: (item.tokens extras ++ moreItems extras rest)

def memberTokens (extras : Bool) : List (List Char × Json) → List Token
  | [] => []
  | (name, value) :: rest =>
    .string name :: .mark ':' :: (value.tokens extras ++ moreMembers extras rest)

def moreMembers (extras : Bool) : List (List Char × Json) → List Token
  | [] => []
  | (name, value) :: rest =>
    .mark ',' :: .string name :: .mark ':' :: (value.tokens extras ++ moreMembers extras rest)

end

/-- A token, or what may stand between tokens. -/
inductive Piece where
  | token (given : Token)
  | space (c : Char)
  | line (comment : List Char)
  | block (comment : List Char)

def Piece.Valid : Piece → Prop
  | .token given => given.Valid
  | .space c => isWhitespace c = true
  | .line comment => '\n' ∉ comment
  | .block comment => ¬ ['*', '/'] <:+: comment

def Piece.text : Piece → List Char
  | .token given => given.text
  | .space c => [c]
  | .line comment => '/' :: '/' :: (comment ++ ['\n'])
  | .block comment => '/' :: '*' :: (comment ++ ['*', '/'])

def Piece.isComment : Piece → Bool
  | .line _ => true
  | .block _ => true
  | _ => false

def spell (pieces : List Piece) : List Char := pieces.flatMap Piece.text

def tokensOf (pieces : List Piece) : List Token :=
  pieces.filterMap fun piece => match piece with
    | .token given => some given
    | _ => none

/-- A comment that the text ends in. -/
def ending : Option (List Char) → List Char
  | none => []
  | some comment => '/' :: '/' :: comment

/-- A string's body, and what comes after its closing quote. -/
def readString (text : List Char) : Option (List Char × List Char) :=
  match text with
  | [] => none
  | c :: rest =>
    if c = '"' then some ([], rest)
    else if c = '\\' then
      (readString rest.tail).map fun read => (c :: (rest.take 1 ++ read.1), read.2)
    else (readString rest).map fun read => (c :: read.1, read.2)
termination_by text.length
decreasing_by
  all_goals simp only [List.length_cons]
  · rw [List.length_tail]
    omega
  · exact Nat.lt_succ_self _

theorem length_readString {text body rest : List Char}
    (h : readString text = some (body, rest)) : rest.length < text.length := by
  induction text using readString.induct generalizing body with
  | case1 => rw [readString] at h; cases h
  | case2 others =>
    rw [readString, if_pos rfl] at h
    obtain ⟨-, rfl⟩ := Prod.mk.inj (some.inj h)
    exact Nat.lt_succ_self _
  | case3 others hquote ih =>
    rw [readString, if_neg hquote, if_pos rfl] at h
    obtain ⟨⟨inner, left⟩, hread, heq⟩ := map_eq_some_iff.mp h
    obtain ⟨-, rfl⟩ := Prod.mk.inj heq
    have hlt := ih hread
    rw [length_tail] at hlt
    rw [length_cons]
    omega
  | case4 c others hquote hback ih =>
    rw [readString, if_neg hquote, if_neg hback] at h
    obtain ⟨⟨inner, left⟩, hread, heq⟩ := map_eq_some_iff.mp h
    obtain ⟨-, rfl⟩ := Prod.mk.inj heq
    exact Nat.lt_succ_of_lt (ih hread)

/-- The tokens of a text. -/
def lex (text : List Char) : Option (List Token) :=
  match text with
  | [] => some []
  | c :: rest =>
    if isWhitespace c then lex rest
    else if c ∈ marks then (lex rest).map (.mark c :: ·)
    else if c = '"' then
      match _hread : readString rest with
      | none => none
      | some (body, others) => (lex others).map (.string body :: ·)
    else if c = '/' then none
    else (lex (rest.dropWhile isWordChar)).map (.word (c :: rest.takeWhile isWordChar) :: ·)
termination_by text.length
decreasing_by
  all_goals simp only [List.length_cons]
  · exact Nat.lt_succ_self _
  · exact Nat.lt_succ_self _
  · exact Nat.lt_succ_of_lt (length_readString _hread)
  · have hle := (List.dropWhile_sublist (l := rest) isWordChar).length_le
    omega

variable {c : Char} {comment : List Char}

theorem stripComments_plain (hquote : c ≠ '"') (hslash : c ≠ '/') (rest : List Char) :
    stripComments false (c :: rest) = c :: stripComments false rest := by
  rw [stripComments, if_neg (by simp), if_neg hquote, if_neg fun h => hslash h.1,
    if_neg fun h => hslash h.1]

theorem stripComments_body {body : List Char} (h : StringBody body) (rest : List Char) :
    stripComments true (body ++ '"' :: rest) = body ++ '"' :: stripComments false rest := by
  induction h with
  | nil =>
    rw [List.nil_append, List.nil_append, stripComments, if_pos rfl, if_neg (by decide)]
    rfl
  | @escape c body _ ih =>
    rw [cons_append, cons_append, stripComments, if_pos rfl, if_pos rfl, tail_cons, ih]
    rfl
  | @plain c body hquote hback _ ih =>
    rw [cons_append, cons_append, stripComments, if_pos rfl, if_neg hback,
      decide_eq_true hquote, ih]

theorem stripComments_word {word : List Char} (h : ∀ c ∈ word, isWordChar c = true)
    (rest : List Char) :
    stripComments false (word ++ rest) = word ++ stripComments false rest := by
  induction word with
  | nil => rfl
  | cons c word ih =>
    rw [forall_mem_cons] at h
    have hc := h.1
    rw [isWordChar, Bool.and_eq_true, Bool.and_eq_true, bne_iff_ne, bne_iff_ne] at hc
    rw [cons_append, stripComments_plain hc.1.2 hc.2, ih h.2]
    rfl

theorem dropWhile_comment (h : '\n' ∉ comment) (rest : List Char) :
    (comment ++ '\n' :: rest).dropWhile (· ≠ '\n') = '\n' :: rest := by
  rw [dropWhile_append_of_pos, dropWhile_cons_of_neg (by simp)]
  intro c hc
  exact decide_eq_true fun heq => h (heq ▸ hc)

theorem afterBlock_comment (h : ¬ ['*', '/'] <:+: comment) (rest : List Char) :
    afterBlock (comment ++ '*' :: '/' :: rest) = rest := by
  induction comment with
  | nil => rfl
  | cons c comment ih =>
    have hrest : ¬ ['*', '/'] <:+: comment := fun hin =>
      h (hin.trans (suffix_cons c comment).isInfix)
    rw [cons_append, afterBlock, if_neg, ih hrest]
    rintro ⟨rfl, hhead⟩
    cases comment with
    | nil => cases hhead
    | cons d comment =>
      obtain rfl := some.inj hhead
      exact h ⟨[], comment, rfl⟩

/-- What the first scanner leaves of a piece. -/
def Piece.bare : Piece → List Piece
  | .line _ => [.space '\n']
  | .block _ => []
  | piece => [piece]

theorem stripComments_piece {piece : Piece} (h : piece.Valid) (rest : List Char) :
    stripComments false (piece.text ++ rest) = spell piece.bare ++ stripComments false rest := by
  cases piece with
  | token given =>
    cases given with
    | mark c =>
      have hc : c ≠ '"' ∧ c ≠ '/' := by
        have hmem : c ∈ marks := h
        constructor
        · rintro rfl
          exact absurd hmem (by decide)
        · rintro rfl
          exact absurd hmem (by decide)
      exact stripComments_plain hc.1 hc.2 rest
    | string body =>
      have hbody := stripComments_body h rest
      have htext : (Piece.token (.string body)).text ++ rest = '"' :: (body ++ '"' :: rest) := by
        simp [Piece.text, Token.text]
      rw [htext, stripComments, if_neg (by simp), if_pos rfl, hbody]
      simp [Piece.bare, spell, Piece.text, Token.text]
    | word text =>
      have hword := stripComments_word h.2 rest
      simpa [Piece.bare, spell, Piece.text, Token.text] using hword
  | space c =>
    have hc : c ≠ '"' ∧ c ≠ '/' := by
      have hspace : isWhitespace c = true := h
      constructor
      · rintro rfl
        exact absurd hspace (by decide)
      · rintro rfl
        exact absurd hspace (by decide)
    exact stripComments_plain hc.1 hc.2 rest
  | line comment =>
    have htext : (Piece.line comment).text ++ rest = '/' :: '/' :: (comment ++ '\n' :: rest) := by
      simp [Piece.text]
    rw [htext, stripComments, if_neg (by simp), if_neg (by decide), if_pos ⟨rfl, rfl⟩,
      dropWhile_cons_of_pos (by decide), dropWhile_comment h,
      stripComments_plain (by decide) (by decide)]
    rfl
  | block comment =>
    have htext : (Piece.block comment).text ++ rest =
        '/' :: '*' :: (comment ++ '*' :: '/' :: rest) := by
      simp [Piece.text]
    rw [htext, stripComments, if_neg (by simp), if_neg (by decide), if_neg (by simp),
      if_pos ⟨rfl, rfl⟩, tail_cons, afterBlock_comment h]
    rfl

theorem stripComments_spell {pieces : List Piece} (h : ∀ piece ∈ pieces, piece.Valid)
    (rest : List Char) : stripComments false (spell pieces ++ rest) =
      spell (pieces.flatMap Piece.bare) ++ stripComments false rest := by
  induction pieces with
  | nil => rfl
  | cons piece pieces ih =>
    rw [forall_mem_cons] at h
    have hspell : spell (piece :: pieces) ++ rest = piece.text ++ (spell pieces ++ rest) := by
      simp [spell]
    have hbare : spell ((piece :: pieces).flatMap Piece.bare) =
        spell piece.bare ++ spell (pieces.flatMap Piece.bare) := by
      simp [spell]
    rw [hspell, stripComments_piece h.1, ih h.2, hbare, List.append_assoc]

theorem stripComments_ending {last : Option (List Char)} (h : ∀ comment ∈ last, '\n' ∉ comment) :
    stripComments false (ending last) = [] := by
  cases last with
  | none => rw [ending, stripComments]
  | some comment =>
    have hdrop : comment.dropWhile (· ≠ '\n') = [] := by
      rw [dropWhile_eq_nil_iff]
      intro c hc
      exact decide_eq_true fun heq => h comment rfl (heq ▸ hc)
    rw [ending, stripComments, if_neg (by simp), if_neg (by decide), if_pos ⟨rfl, rfl⟩,
      dropWhile_cons_of_pos (by decide), hdrop, stripComments]

def Token.closes : Token → Bool
  | .mark c => JsonExtras.closes c
  | _ => false

/-- The tokens without a comma right before the end of an array or object. -/
def dropTrailing : List Token → List Token
  | [] => []
  | token :: rest =>
    if token = .mark ',' ∧ rest.head?.any Token.closes then dropTrailing rest
    else token :: dropTrailing rest

def dropPieces : List Piece → List Piece
  | [] => []
  | .token given :: rest =>
    if given = .mark ',' ∧ (tokensOf rest).head?.any Token.closes then dropPieces rest
    else .token given :: dropPieces rest
  | piece :: rest => piece :: dropPieces rest

theorem tokensOf_token (given : Token) (rest : List Piece) :
    tokensOf (.token given :: rest) = given :: tokensOf rest := rfl

theorem tokensOf_space (c : Char) (rest : List Piece) :
    tokensOf (.space c :: rest) = tokensOf rest := rfl

theorem tokensOf_bare (pieces : List Piece) :
    tokensOf (pieces.flatMap Piece.bare) = tokensOf pieces := by
  induction pieces with
  | nil => rfl
  | cons piece pieces ih =>
    rw [flatMap_cons, tokensOf, filterMap_append, ← tokensOf, ← tokensOf, ih]
    cases piece <;> rfl

theorem tokensOf_dropPieces (pieces : List Piece) :
    tokensOf (dropPieces pieces) = dropTrailing (tokensOf pieces) := by
  induction pieces with
  | nil => rfl
  | cons piece rest ih =>
    cases piece with
    | token given =>
      rw [dropPieces, tokensOf_token, dropTrailing]
      split
      · exact ih
      · rw [tokensOf_token, ih]
    | space c => exact ih
    | line comment => exact ih
    | block comment => exact ih

theorem mark_plain (h : c ∈ marks) : isWhitespace c = false ∧ isWordChar c = false := by
  have hall : (marks.all fun c => !isWhitespace c && !isWordChar c) = true := by decide
  simpa only [Bool.and_eq_true, Bool.not_eq_true'] using all_eq_true.mp hall c h

theorem text_first {given : Token} (h : given.Valid) :
    ∃ c rest, given.text = c :: rest ∧ isWhitespace c = false ∧
      JsonExtras.closes c = given.closes := by
  cases given with
  | mark c =>
    exact ⟨c, [], rfl, (mark_plain h).1, rfl⟩
  | string body => exact ⟨'"', body ++ ['"'], rfl, by decide, rfl⟩
  | word text =>
    obtain ⟨hne, hword⟩ := h
    cases text with
    | nil => exact absurd rfl hne
    | cons c rest =>
      have hc := hword c mem_cons_self
      rw [isWordChar, Bool.and_eq_true, Bool.and_eq_true, Bool.and_eq_true,
        Bool.not_eq_true', Bool.not_eq_true'] at hc
      refine ⟨c, rest, rfl, hc.1.1.1, ?_⟩
      have hmark : c ∉ marks := by simpa using hc.1.1.2
      change (decide (c = '}') || decide (c = ']')) = false
      rw [Bool.or_eq_false_iff, decide_eq_false_iff_not, decide_eq_false_iff_not]
      constructor
      · rintro rfl
        exact hmark (by decide)
      · rintro rfl
        exact hmark (by decide)

/-- The first character after the spaces is that of the next token. -/
theorem find_spell {pieces : List Piece} (h : ∀ piece ∈ pieces, piece.Valid)
    (hbare : ∀ piece ∈ pieces, piece.isComment = false) :
    ((spell pieces).find? (!isWhitespace ·)).any closes =
      (tokensOf pieces).head?.any Token.closes := by
  induction pieces with
  | nil => rfl
  | cons piece rest ih =>
    rw [forall_mem_cons] at h hbare
    cases piece with
    | token given =>
      obtain ⟨c, others, htext, hspace, hcloses⟩ := text_first h.1
      have hspell : spell (.token given :: rest) = c :: (others ++ spell rest) := by
        rw [spell, flatMap_cons, ← spell, Piece.text, htext]
        rfl
      rw [hspell, List.find?_cons_of_pos (by rw [hspace]; rfl), tokensOf_token]
      exact hcloses
    | space c =>
      have hspace : isWhitespace c = true := h.1
      have hspell : spell (.space c :: rest) = c :: spell rest := rfl
      rw [hspell, List.find?_cons_of_neg (by rw [hspace]; simp), tokensOf_space]
      exact ih h.2 hbare.2
    | line comment => cases hbare.1
    | block comment => cases hbare.1

theorem dropCommas_plain (hquote : c ≠ '"') {rest : List Char}
    (h : ¬ (c = ',' ∧ (rest.find? (!isWhitespace ·)).any closes)) :
    dropCommas false false (c :: rest) = c :: dropCommas false false rest := by
  rw [dropCommas, if_neg h, decide_eq_false hquote]

theorem dropCommas_body {body : List Char} (h : StringBody body) (rest : List Char) :
    dropCommas true false (body ++ '"' :: rest) = body ++ '"' :: dropCommas false false rest := by
  induction h with
  | nil => rfl
  | escape c _ ih =>
    rw [cons_append, cons_append, dropCommas, if_neg (by simp), if_pos rfl,
      dropCommas, if_pos rfl, ih]
    rfl
  | plain hquote hback _ ih =>
    rw [cons_append, dropCommas, if_neg (by simp), if_neg hback, decide_eq_true hquote, ih]
    rfl

theorem dropCommas_word {word : List Char} (h : ∀ c ∈ word, isWordChar c = true)
    (rest : List Char) :
    dropCommas false false (word ++ rest) = word ++ dropCommas false false rest := by
  induction word with
  | nil => rfl
  | cons c word ih =>
    rw [forall_mem_cons] at h
    have hc := h.1
    rw [isWordChar, Bool.and_eq_true, Bool.and_eq_true, Bool.and_eq_true, bne_iff_ne,
      Bool.not_eq_true', Bool.not_eq_true'] at hc
    rw [cons_append, dropCommas_plain hc.1.2, ih h.2]
    · rfl
    · rintro ⟨rfl, -⟩
      exact absurd hc.1.1.2 (by decide)

theorem dropCommas_spell {pieces : List Piece} (h : ∀ piece ∈ pieces, piece.Valid)
    (hbare : ∀ piece ∈ pieces, piece.isComment = false) :
    dropCommas false false (spell pieces) = spell (dropPieces pieces) := by
  induction pieces with
  | nil => rfl
  | cons piece rest ih =>
    rw [forall_mem_cons] at h hbare
    have hrest := ih h.2 hbare.2
    have hfind := find_spell h.2 hbare.2
    cases piece with
    | token given =>
      cases given with
      | mark c =>
        have hspell : spell (.token (.mark c) :: rest) = c :: spell rest := rfl
        have hquote : c ≠ '"' := by
          rintro rfl
          exact absurd (show '"' ∈ marks from h.1) (by decide)
        rw [hspell, dropPieces]
        by_cases hcomma : c = ',' ∧ ((tokensOf rest).head?.any Token.closes) = true
        · rw [if_pos ⟨congrArg _ hcomma.1, hcomma.2⟩, dropCommas,
            if_pos ⟨hcomma.1, hfind.trans hcomma.2⟩, hrest]
        · rw [if_neg fun hboth => hcomma ⟨Token.mark.inj hboth.1, hboth.2⟩,
            dropCommas_plain hquote fun hboth => hcomma ⟨hboth.1, hfind ▸ hboth.2⟩, hrest]
          rfl
      | string body =>
        have hspell : spell (.token (.string body) :: rest) =
            '"' :: (body ++ '"' :: spell rest) := by
          simp [spell, Piece.text, Token.text]
        rw [hspell, dropPieces, if_neg (by simp), dropCommas, if_neg (by simp),
          decide_eq_true rfl, dropCommas_body h.1, hrest]
        simp [spell, Piece.text, Token.text]
      | word text =>
        have hspell : spell (.token (.word text) :: rest) = text ++ spell rest := rfl
        rw [hspell, dropPieces, if_neg (by simp), dropCommas_word h.1.2, hrest]
        rfl
    | space c =>
      have hspace : isWhitespace c = true := h.1
      have hspell : spell (.space c :: rest) = c :: spell rest := rfl
      have hquote : c ≠ '"' := by
        rintro rfl
        exact absurd hspace (by decide)
      rw [hspell, dropCommas_plain hquote, hrest]
      · rfl
      · rintro ⟨rfl, -⟩
        exact absurd hspace (by decide)
    | line comment => cases hbare.1
    | block comment => cases hbare.1

def Token.isWord : Token → Bool
  | .word _ => true
  | _ => false

/-- No two words stand next to each other. -/
def Apart (tokens : List Token) : Prop :=
  tokens.IsChain fun first second => ¬ (first.isWord = true ∧ second.isWord = true)

theorem readString_body {body : List Char} (h : StringBody body) (rest : List Char) :
    readString (body ++ '"' :: rest) = some (body, rest) := by
  induction h with
  | nil => rw [List.nil_append, readString, if_pos rfl]
  | escape c _ ih =>
    rw [cons_append, cons_append, readString, if_neg (by decide), if_pos rfl, tail_cons, ih]
    rfl
  | plain hquote hback _ ih =>
    rw [cons_append, readString, if_neg hquote, if_neg hback, ih]
    rfl

theorem lex_word {word : List Char} (hne : word ≠ []) (hword : ∀ c ∈ word, isWordChar c = true)
    {rest : List Char} (hrest : ∀ c ∈ rest.head?, isWordChar c = false) :
    lex (word ++ rest) = (lex rest).map (.word word :: ·) := by
  cases word with
  | nil => exact absurd rfl hne
  | cons c word =>
    rw [forall_mem_cons] at hword
    have hc := hword.1
    rw [isWordChar, Bool.and_eq_true, Bool.and_eq_true, Bool.and_eq_true, bne_iff_ne, bne_iff_ne,
      Bool.not_eq_true', Bool.not_eq_true'] at hc
    have hmark : c ∉ marks := by simpa using hc.1.1.2
    have htake : (word ++ rest).takeWhile isWordChar = word := by
      rw [takeWhile_append_of_pos hword.2]
      cases rest with
      | nil => exact List.append_nil word
      | cons d rest =>
        rw [takeWhile_cons_of_neg (by rw [hrest d rfl]; simp), List.append_nil]
    have hdrop : (word ++ rest).dropWhile isWordChar = rest := by
      rw [dropWhile_append_of_pos hword.2]
      cases rest with
      | nil => rfl
      | cons d rest => rw [dropWhile_cons_of_neg (by rw [hrest d rfl]; simp)]
    rw [cons_append, lex, if_neg (by rw [hc.1.1.1]; simp), if_neg hmark, if_neg hc.1.2,
      if_neg hc.2, htake, hdrop]

/-- After a word stands the end of the text, a space, or the start of another kind of token. -/
theorem head_spell {pieces : List Piece} (h : ∀ piece ∈ pieces, piece.Valid)
    (hbare : ∀ piece ∈ pieces, piece.isComment = false)
    (hword : ∀ token ∈ (tokensOf pieces).head?, token.isWord = false) :
    ∀ c ∈ (spell pieces).head?, isWordChar c = false := by
  cases pieces with
  | nil => simp [spell]
  | cons piece rest =>
    rw [forall_mem_cons] at h hbare
    cases piece with
    | token given =>
      cases given with
      | mark c =>
        intro d hd
        obtain rfl := some.inj hd
        exact (mark_plain h.1).2
      | string body =>
        intro d hd
        obtain rfl := some.inj hd
        decide
      | word text => exact absurd (hword (.word text) rfl) (by simp [Token.isWord])
    | space c =>
      intro d hd
      obtain rfl := some.inj hd
      have hspace : isWhitespace c = true := h.1
      rw [isWordChar, hspace]
      rfl
    | line comment => cases hbare.1
    | block comment => cases hbare.1

theorem lex_spell {pieces : List Piece} (h : ∀ piece ∈ pieces, piece.Valid)
    (hbare : ∀ piece ∈ pieces, piece.isComment = false) (hapart : Apart (tokensOf pieces)) :
    lex (spell pieces) = some (tokensOf pieces) := by
  induction pieces with
  | nil => rw [spell, flatMap_nil, lex]; rfl
  | cons piece rest ih =>
    rw [forall_mem_cons] at h hbare
    cases piece with
    | token given =>
      rw [tokensOf_token] at hapart
      have hlex := ih h.2 hbare.2 hapart.tail
      rw [tokensOf_token]
      cases given with
      | mark c =>
        have hmark : c ∈ marks := h.1
        have hspell : spell (.token (.mark c) :: rest) = c :: spell rest := rfl
        rw [hspell, lex, if_neg (by rw [(mark_plain hmark).1]; simp), if_pos hmark, hlex]
        rfl
      | string body =>
        have hspell : spell (.token (.string body) :: rest) =
            '"' :: (body ++ '"' :: spell rest) := by
          simp [spell, Piece.text, Token.text]
        rw [hspell, lex, if_neg (by decide), if_neg (by decide), if_pos rfl]
        split
        · rename_i hnone
          rw [readString_body h.1] at hnone
          cases hnone
        · rename_i body' others hread
          rw [readString_body h.1] at hread
          obtain ⟨rfl, rfl⟩ := Prod.mk.inj (some.inj hread)
          rw [hlex]
          rfl
      | word text =>
        have hspell : spell (.token (.word text) :: rest) = text ++ spell rest := rfl
        have hnext : ∀ token ∈ (tokensOf rest).head?, token.isWord = false := by
          intro token htoken
          have hpair := (isChain_cons.mp hapart).1 token htoken
          cases hword : token.isWord with
          | false => rfl
          | true => exact absurd ⟨rfl, hword⟩ hpair
        rw [hspell, lex_word h.1.1 h.1.2 (head_spell h.2 hbare.2 hnext), hlex]
        rfl
    | space c =>
      have hspace : isWhitespace c = true := h.1
      have hspell : spell (.space c :: rest) = c :: spell rest := rfl
      rw [hspell, lex, if_pos hspace, tokensOf_space, ih h.2 hbare.2 hapart]
    | line comment => cases hbare.1
    | block comment => cases hbare.1

theorem dropTrailing_keep {token : Token} (h : token ≠ .mark ',') (rest : List Token) :
    dropTrailing (token :: rest) = token :: dropTrailing rest := by
  rw [dropTrailing, if_neg fun hboth => h hboth.1]

theorem dropTrailing_comma {rest : List Token} (h : rest.head?.any Token.closes = false) :
    dropTrailing (.mark ',' :: rest) = .mark ',' :: dropTrailing rest := by
  rw [dropTrailing, if_neg (by rw [h]; simp)]

/-- A value starts neither with a comma nor with the end of an array or object. -/
theorem tokens_head (extras : Bool) (json : Json) : ∃ first rest,
    json.tokens extras = first :: rest ∧ first ≠ .mark ',' ∧ first.closes = false := by
  cases json with
  | word text => exact ⟨.word text, [], by rw [Json.tokens], by simp, rfl⟩
  | string body => exact ⟨.string body, [], by rw [Json.tokens], by simp, rfl⟩
  | array items comma => exact ⟨.mark '[', _, by rw [Json.tokens], by decide, rfl⟩
  | object members comma => exact ⟨.mark '{', _, by rw [Json.tokens], by decide, rfl⟩

theorem head_tokens (extras : Bool) (json : Json) (rest : List Token) :
    (json.tokens extras ++ rest).head?.any Token.closes = false := by
  obtain ⟨first, others, htokens, -, hcloses⟩ := tokens_head extras json
  rw [htokens]
  exact hcloses

theorem dropTrailing_end {α : Type} (extras comma : Bool) (elements : List α) (hc : closes c = true)
    (rest : List Token) :
    dropTrailing (trailing extras comma elements ++ .mark c :: rest) =
      .mark c :: dropTrailing rest := by
  have hmark : Token.mark c ≠ .mark ',' := by
    rintro heq
    rw [Token.mark.inj heq] at hc
    cases hc
  rw [trailing]
  split
  · rw [cons_append, List.nil_append, dropTrailing, if_pos ⟨rfl, hc⟩, dropTrailing_keep hmark]
  · exact dropTrailing_keep hmark rest

mutual

/-- The commas after last elements are all that is dropped. -/
theorem dropTrailing_tokens (extras : Bool) : ∀ (json : Json) (rest : List Token),
    dropTrailing (json.tokens extras ++ rest) = json.tokens false ++ dropTrailing rest
  | .word text, rest => by
    rw [Json.tokens, Json.tokens]
    exact dropTrailing_keep (by simp) rest
  | .string body, rest => by
    rw [Json.tokens, Json.tokens]
    exact dropTrailing_keep (by simp) rest
  | .array items comma, rest => by
    rw [Json.tokens, Json.tokens, cons_append, dropTrailing_keep (by decide),
      List.append_assoc, List.append_assoc]
    cases items with
    | nil =>
      rw [itemTokens, itemTokens, List.nil_append]
      exact congrArg _ (dropTrailing_end extras comma [] rfl rest)
    | cons item items =>
      have hend := dropTrailing_end extras comma (item :: items) (show closes ']' = true from rfl)
        rest
      rw [itemTokens, itemTokens, List.append_assoc, dropTrailing_tokens extras item,
        dropTrailing_more extras items]
      change _ :: (_ ++ (_ ++ dropTrailing (_ ++ Token.mark ']' :: rest))) = _
      rw [hend]
      simp [trailing]
  | .object members comma, rest => by
    rw [Json.tokens, Json.tokens, cons_append, dropTrailing_keep (by decide),
      List.append_assoc, List.append_assoc]
    cases members with
    | nil =>
      rw [memberTokens, memberTokens, List.nil_append]
      exact congrArg _ (dropTrailing_end extras comma [] rfl rest)
    | cons member members =>
      obtain ⟨name, value⟩ := member
      have hend := dropTrailing_end extras comma ((name, value) :: members)
        (show closes '}' = true from rfl) rest
      rw [memberTokens, memberTokens, cons_append, cons_append,
        dropTrailing_keep (by simp), dropTrailing_keep (by decide), List.append_assoc,
        dropTrailing_tokens extras value, dropTrailing_members extras members]
      change _ :: _ :: _ :: (_ ++ (_ ++ dropTrailing (_ ++ Token.mark '}' :: rest))) = _
      rw [hend]
      simp [trailing]

theorem dropTrailing_more (extras : Bool) : ∀ (items : List Json) (rest : List Token),
    dropTrailing (moreItems extras items ++ rest) = moreItems false items ++ dropTrailing rest
  | [], rest => by rw [moreItems, moreItems, List.nil_append, List.nil_append]
  | item :: items, rest => by
    rw [moreItems, moreItems, cons_append, List.append_assoc,
      dropTrailing_comma (head_tokens extras item _), dropTrailing_tokens extras item,
      dropTrailing_more extras items, cons_append, List.append_assoc]

theorem dropTrailing_members (extras : Bool) :
    ∀ (members : List (List Char × Json)) (rest : List Token),
      dropTrailing (moreMembers extras members ++ rest) =
        moreMembers false members ++ dropTrailing rest
  | [], rest => by rw [moreMembers, moreMembers, List.nil_append, List.nil_append]
  | (name, value) :: members, rest => by
    rw [moreMembers, moreMembers, cons_append, cons_append, cons_append,
      List.append_assoc, dropTrailing_comma rfl, dropTrailing_keep (by simp),
      dropTrailing_keep (by decide), dropTrailing_tokens extras value,
      dropTrailing_members extras members]
    simp

end

variable {c : Char} {rest : List Token}

theorem Apart.mark (h : Apart rest) : Apart (.mark c :: rest) :=
  h.cons fun _ _ hboth => nomatch hboth.1

theorem Apart.string {body : List Char} (h : Apart rest) : Apart (.string body :: rest) :=
  h.cons fun _ _ hboth => nomatch hboth.1

/-- What comes after a value starts with a mark. -/
def Follows (rest : List Token) : Prop := Apart rest ∧ ∀ token ∈ rest.head?, token.isWord = false

theorem Follows.nil : Follows [] := ⟨List.IsChain.nil, by simp⟩

theorem Follows.mark (h : Apart rest) : Follows (.mark c :: rest) :=
  ⟨h.mark, fun _ htoken => some.inj htoken ▸ rfl⟩

mutual

theorem apart_tokens : ∀ (json : Json) {rest : List Token}, Follows rest →
    Apart (json.tokens false ++ rest)
  | .word text, rest, h => by
    rw [Json.tokens]
    refine h.1.cons fun token htoken hboth => ?_
    rw [h.2 token htoken] at hboth
    cases hboth.2
  | .string body, rest, h => by
    rw [Json.tokens]
    exact h.1.string
  | .array items comma, rest, h => by
    rw [Json.tokens, cons_append, List.append_assoc, List.append_assoc]
    have hend : Follows (trailing false comma items ++ ([.mark ']'] ++ rest)) := Follows.mark h.1
    cases items with
    | nil => exact hend.1.mark
    | cons item items =>
      rw [itemTokens, List.append_assoc]
      exact (apart_tokens item (follows_more items hend)).mark
  | .object members comma, rest, h => by
    rw [Json.tokens, cons_append, List.append_assoc, List.append_assoc]
    have hend : Follows (trailing false comma members ++ ([.mark '}'] ++ rest)) := Follows.mark h.1
    cases members with
    | nil => exact hend.1.mark
    | cons member members =>
      obtain ⟨name, value⟩ := member
      rw [memberTokens, cons_append, cons_append, List.append_assoc]
      exact (apart_tokens value (follows_members members hend)).mark.string.mark

theorem follows_more : ∀ (items : List Json) {rest : List Token}, Follows rest →
    Follows (moreItems false items ++ rest)
  | [], rest, h => by rwa [moreItems, List.nil_append]
  | item :: items, rest, h => by
    rw [moreItems, cons_append, List.append_assoc]
    exact Follows.mark (apart_tokens item (follows_more items h))

theorem follows_members : ∀ (members : List (List Char × Json)) {rest : List Token},
    Follows rest → Follows (moreMembers false members ++ rest)
  | [], rest, h => by rwa [moreMembers, List.nil_append]
  | (name, value) :: members, rest, h => by
    rw [moreMembers, cons_append, cons_append, cons_append, List.append_assoc]
    exact Follows.mark (apart_tokens value (follows_members members h)).mark.string

end

theorem tokens_apart (json : Json) : Apart (json.tokens false) := by
  have h := apart_tokens json Follows.nil
  rwa [List.append_nil] at h

theorem dropTrailing_json (extras : Bool) (json : Json) :
    dropTrailing (json.tokens extras) = json.tokens false := by
  have h := dropTrailing_tokens extras json []
  rwa [List.append_nil, dropTrailing, List.append_nil] at h

theorem bare_valid {pieces : List Piece} (h : ∀ piece ∈ pieces, piece.Valid) :
    ∀ piece ∈ pieces.flatMap Piece.bare, piece.Valid ∧ piece.isComment = false := by
  intro piece hpiece
  obtain ⟨given, hgiven, hbare⟩ := mem_flatMap.mp hpiece
  have hvalid := h given hgiven
  cases given with
  | token given =>
    obtain rfl := mem_singleton.mp hbare
    exact ⟨hvalid, rfl⟩
  | space c =>
    obtain rfl := mem_singleton.mp hbare
    exact ⟨hvalid, rfl⟩
  | line comment =>
    obtain rfl := mem_singleton.mp hbare
    have hspace : isWhitespace '\n' = true := by decide
    exact ⟨hspace, rfl⟩
  | block comment => cases hbare

theorem dropPieces_subset (pieces : List Piece) : ∀ piece ∈ dropPieces pieces, piece ∈ pieces := by
  induction pieces with
  | nil => simp [dropPieces]
  | cons first rest ih =>
    intro piece hpiece
    cases first with
    | token given =>
      rw [dropPieces] at hpiece
      split at hpiece
      · exact mem_cons_of_mem _ (ih piece hpiece)
      · exact (mem_cons.mp hpiece).elim (fun h => h ▸ mem_cons_self)
          fun h => mem_cons_of_mem _ (ih piece h)
    | _ =>
      exact (mem_cons.mp hpiece).elim (fun h => h ▸ mem_cons_self)
        fun h => mem_cons_of_mem _ (ih piece h)

theorem length_dropTrailing (tokens : List Token) :
    (dropTrailing tokens).length ≤ tokens.length := by
  induction tokens with
  | nil => exact Nat.le_refl 0
  | cons token rest ih =>
    rw [dropTrailing]
    split
    · exact Nat.le_succ_of_le ih
    · exact Nat.succ_le_succ ih

theorem dropPieces_same {pieces : List Piece}
    (h : dropTrailing (tokensOf pieces) = tokensOf pieces) : dropPieces pieces = pieces := by
  induction pieces with
  | nil => rfl
  | cons piece rest ih =>
    cases piece with
    | token given =>
      rw [tokensOf_token, dropTrailing] at h
      rw [dropPieces]
      split at h
      · have hle := length_dropTrailing (tokensOf rest)
        rw [h, length_cons] at hle
        omega
      · rename_i hkept
        rw [if_neg hkept, ih (List.cons.inj h).2]
    | space c => exact congrArg _ (ih h)
    | line comment => exact congrArg _ (ih h)
    | block comment => exact congrArg _ (ih h)

theorem bare_same {pieces : List Piece} (h : ∀ piece ∈ pieces, piece.isComment = false) :
    pieces.flatMap Piece.bare = pieces := by
  induction pieces with
  | nil => rfl
  | cons piece rest ih =>
    rw [forall_mem_cons] at h
    rw [flatMap_cons, ih h.2]
    cases piece with
    | line comment => cases h.1
    | block comment => cases h.1
    | _ => rfl

theorem strip_spell {pieces : List Piece} (h : ∀ piece ∈ pieces, piece.Valid)
    {last : Option (List Char)} (hlast : ∀ comment ∈ last, '\n' ∉ comment) :
    stripJsonExtras (spell pieces ++ ending last) =
      spell (dropPieces (pieces.flatMap Piece.bare)) := by
  have hbare := bare_valid h
  rw [stripJsonExtras, stripComments_spell h, stripComments_ending hlast, List.append_nil,
    dropCommas_spell (fun piece hpiece => (hbare piece hpiece).1) fun piece hpiece =>
      (hbare piece hpiece).2]

/-- A JSON text is left as it is, and one with comments, spaces and commas after last elements
put in keeps its tokens. -/
theorem strip_json_extras (json : Json) :
    (∀ pieces : List Piece, (∀ piece ∈ pieces, piece.Valid ∧ piece.isComment = false) →
      tokensOf pieces = json.tokens false →
        lex (spell pieces) = some (json.tokens false) ∧
          stripJsonExtras (spell pieces) = spell pieces) ∧
    ∀ (pieces : List Piece) (last : Option (List Char)), (∀ piece ∈ pieces, piece.Valid) →
      (∀ comment ∈ last, '\n' ∉ comment) → tokensOf pieces = json.tokens true →
        lex (stripJsonExtras (spell pieces ++ ending last)) = some (json.tokens false) := by
  refine ⟨fun pieces hpieces htokens => ?_, fun pieces last hpieces hlast htokens => ?_⟩
  · have hvalid : ∀ piece ∈ pieces, piece.Valid := fun piece hpiece => (hpieces piece hpiece).1
    have hcomments : ∀ piece ∈ pieces, piece.isComment = false :=
      fun piece hpiece => (hpieces piece hpiece).2
    have hapart : Apart (tokensOf pieces) := htokens ▸ tokens_apart json
    have hsame : dropTrailing (tokensOf pieces) = tokensOf pieces := by
      rw [htokens, dropTrailing_json]
    have hstrip : stripJsonExtras (spell pieces ++ ending none) = _ :=
      strip_spell hvalid fun _ hnone => nomatch hnone
    rw [ending, List.append_nil, bare_same hcomments, dropPieces_same hsame] at hstrip
    exact ⟨by rw [lex_spell hvalid hcomments hapart, htokens], hstrip⟩
  · have hbare := bare_valid hpieces
    have hleft : ∀ piece ∈ dropPieces (pieces.flatMap Piece.bare),
        piece.Valid ∧ piece.isComment = false :=
      fun piece hpiece => hbare piece (dropPieces_subset _ piece hpiece)
    have htokens' : tokensOf (dropPieces (pieces.flatMap Piece.bare)) = json.tokens false := by
      rw [tokensOf_dropPieces, tokensOf_bare, htokens, dropTrailing_json]
    rw [strip_spell hpieces hlast, lex_spell (fun piece hpiece => (hleft piece hpiece).1)
      (fun piece hpiece => (hleft piece hpiece).2) (htokens' ▸ tokens_apart json), htokens']

namespace JsonExtrasWitness

/-- An array of a string that looks like a comment, with a comma after it. -/
def json : Json := .array [.string "//\\\",".toList] true

def pieces : List Piece :=
  [.line " [".toList, .token (.mark '['), .token (.string "//\\\",".toList),
    .block " \" ] ".toList, .token (.mark ','), .space ' ', .block [], .token (.mark ']')]

theorem pieces_valid : ∀ piece ∈ pieces, piece.Valid := by
  have hbody : StringBody "//\\\",".toList :=
    .plain (by decide) (by decide) (.plain (by decide) (by decide)
      (.escape '"' (.plain (by decide) (by decide) .nil)))
  have hline : '\n' ∉ " [".toList := by decide
  have hblock : ¬ ['*', '/'] <:+: " \" ] ".toList := by decide
  have hempty : ¬ ['*', '/'] <:+: ([] : List Char) := by decide
  have hspace : isWhitespace ' ' = true := by decide
  have hmarks : '[' ∈ marks ∧ ',' ∈ marks ∧ ']' ∈ marks := by decide
  intro piece hpiece
  simp only [pieces, mem_cons, not_mem_nil, or_false] at hpiece
  rcases hpiece with rfl | rfl | rfl | rfl | rfl | rfl | rfl | rfl
  · exact hline
  · exact hmarks.1
  · exact hbody
  · exact hblock
  · exact hmarks.2.1
  · exact hspace
  · exact hempty
  · exact hmarks.2.2

theorem pieces_kept : lex (stripJsonExtras (spell pieces ++ ending (some "end".toList))) =
    some [.mark '[', .string "//\\\",".toList, .mark ']'] :=
  (strip_json_extras json).2 pieces (some "end".toList) pieces_valid (by decide) (by decide)

end JsonExtrasWitness

end Opensesh.JsonExtras
