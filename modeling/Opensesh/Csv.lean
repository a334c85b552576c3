/-
Hosts from a CSV file: the separator is guessed from the first line and the rows are read up
to a limit. Every table is read as it was written, but what lies past the limit is judged by
its characters, not by its rows.
-/
import Opensesh.Text
import Mathlib.Data.List.TakeWhile
import Mathlib.Logic.Function.Iterate

namespace Opensesh.Csv

open List
open Text (joinWith trim)

/-- The most rows read. -/
def maxRows : Nat := 100000

abbrev Rows := List (List (List Char))

/-- Whether a row is more than one blank cell. -/
def Kept (row : List (List Char)) : Prop := 1 < row.length ∨ trim (row.headD []) ≠ []

/-- A character that is no white space. -/
def visible (c : Char) : Bool := !isWhitespace c

instance (row : List (List Char)) : Decidable (Kept row) := inferInstanceAs (Decidable (_ ∨ _))

/-- The loop of `parse_with`: the rows, the row and the cell read so far, and the rest. -/
def parseFrom (limit : Nat) (separator : Char) (rows : Rows)
    (row : List (List Char)) (cell : List Char) :
    Bool → List Char → Rows × Bool
  | _, [] =>
    if (cell ≠ [] ∨ row ≠ []) ∧ Kept (row ++ [cell]) then (rows ++ [row ++ [cell]], false)
    else (rows, false)
  | true, c :: rest =>
    if c = '"' then
      match rest with
      | '"' :: rest => parseFrom limit separator rows row (cell ++ ['"']) true rest
      | rest => parseFrom limit separator rows row cell false rest
    else parseFrom limit separator rows row (cell ++ [c]) true rest
  | false, c :: rest =>
    if c = '"' ∧ trim cell = [] then parseFrom limit separator rows row [] true rest
    else if c = '\r' ∧ rest.head? = some '\n' then
      parseFrom limit separator rows row cell false rest
    else if c = '\n' ∨ c = '\r' then
      if Kept (row ++ [cell]) then
        -- past the limit only the characters are looked at
        if (rows ++ [row ++ [cell]]).length = limit then
          (rows ++ [row ++ [cell]], rest.any visible)
        else parseFrom limit separator (rows ++ [row ++ [cell]]) [] [] false rest
      else parseFrom limit separator rows [] [] false rest
    else if c = separator then parseFrom limit separator rows (row ++ [cell]) [] false rest
    else parseFrom limit separator rows row (cell ++ [c]) false rest

example : parseFrom 9 ';' [] [] [] false ['"', ';', '"', '"', '"', '\n'] = ([[[';', '"']]], false) := by
  simp [parseFrom, Kept, trim, isWhitespace]

/-- The rows of a text, and whether rows were dropped past the limit. -/
def parseWith (text : List Char) (separator : Char) : Rows × Bool :=
  parseFrom maxRows separator [] [] [] false text

def counted (c : Char) (counts : List (Char × Nat)) : List (Char × Nat) :=
  counts.map fun (d, n) => if d = c then (d, n + 1) else (d, n)

/-- The separators outside quotes, up to the end of the first line. -/
def countsFrom : Bool → List (Char × Nat) → List Char → List (Char × Nat)
  | _, counts, [] => counts
  | quoted, counts, c :: rest =>
    if c = '"' then countsFrom (!quoted) counts rest
    else if quoted then countsFrom quoted counts rest
    else if c = '\n' ∨ c = '\r' then counts
    else countsFrom quoted (counted c counts) rest

example : countsFrom false [(',', 0)] ['a', ',', '"', ','] = [(',', 1)] := by
  simp [countsFrom, counted]

def guessDelimiter (text : List Char) : Char :=
  ((countsFrom false [(',', 0), (';', 0), ('\t', 0)] text).foldl
    (fun best count => if best.2 < count.2 then count else best) (',', 0)).1

structure Table where
  delimiter : Char
  rows : Rows
  truncated : Bool

/-- The cells of a text, with the separator guessed from its first line. -/
def parse (text : List Char) : Table where
  delimiter := guessDelimiter text
  rows := (parseWith text (guessDelimiter text)).1
  truncated := (parseWith text (guessDelimiter text)).2

structure Cell where
  text : List Char
  quoted : Bool

/-- A quote in a quoted cell is written twice. -/
def escaped (text : List Char) : List Char :=
  text.flatMap fun c => if c = '"' then ['"', '"'] else [c]

def Cell.write (cell : Cell) : List Char :=
  if cell.quoted then '"' :: (escaped cell.text ++ ['"']) else cell.text

def texts (row : List Cell) : List (List Char) := row.map Cell.text

inductive LineEnd where
  | crlf
  | lf

def LineEnd.write : LineEnd → List Char
  | crlf => ['\r', '\n']
  | lf => ['\n']

def writeRow (separator : Char) (row : List Cell) : List Char :=
  joinWith separator (row.map Cell.write)

theorem writeRow_cons (separator : Char) (cell next : Cell) (row : List Cell) :
    writeRow separator (cell :: next :: row) =
      cell.write ++ separator :: writeRow separator (next :: row) := rfl

/-- A table as text; the last line may lack its end. -/
def writeRows (separator : Char) (lineEnd : LineEnd) (ended : Bool) : List (List Cell) → List Char
  | [] => []
  | [row] => writeRow separator row ++ if ended then lineEnd.write else []
  | row :: rows =>
    writeRow separator row ++ (lineEnd.write ++ writeRows separator lineEnd ended rows)

example : writeRows ',' .lf false [[⟨['a'], false⟩], [⟨['"'], true⟩]] =
    ['a', '\n', '"', '"', '"', '"'] := by
  simp [writeRows, writeRow, joinWith, Cell.write, escaped, LineEnd.write]

/-- One of the three separators. -/
def IsSeparator (c : Char) : Prop := c = ',' ∨ c = ';' ∨ c = '\t'

instance (c : Char) : Decidable (IsSeparator c) := inferInstanceAs (Decidable (_ ∨ _))

/-- A cell without quotes holds no quote, separator or line break. -/
def Cell.Valid (separator : Char) (cell : Cell) : Prop :=
  cell.quoted = false → ∀ c ∈ cell.text, c ≠ '"' ∧ c ≠ separator ∧ c ≠ '\n' ∧ c ≠ '\r'

def ValidRow (separator : Char) (row : List Cell) : Prop :=
  row ≠ [] ∧ ∀ cell ∈ row, cell.Valid separator

/-- The rows after the given number of kept ones. -/
def past : Nat → List (List Cell) → List (List Cell)
  | 0, rows => rows
  | _, [] => []
  | n + 1, row :: rows => if Kept (texts row) then past n rows else past (n + 1) rows

example : past 1 [[⟨[], true⟩], [⟨['a'], false⟩]] = [] := by
  simp [past, Kept, texts, trim, isWhitespace]

/-- A cell that is more than white space as it is written. -/
def Cell.Shows (cell : Cell) : Prop := cell.quoted = true ∨ trim cell.text ≠ []

instance (cell : Cell) : Decidable cell.Shows := inferInstanceAs (Decidable (_ ∨ _))

section Reads

variable {limit : Nat} {separator : Char} {rows : Rows}
  {row : List (List Char)} {cell text rest : List Char}

theorem parseFrom_close (hrest : rest.head? ≠ some '"') :
    parseFrom limit separator rows row cell true ('"' :: rest) =
      parseFrom limit separator rows row cell false rest := by
  rw [parseFrom.eq_def]
  dsimp only
  rw [if_pos rfl]
  split
  · exact absurd rfl hrest
  · rfl

theorem parseFrom_escaped (hrest : rest.head? ≠ some '"') :
    parseFrom limit separator rows row cell true (escaped text ++ '"' :: rest) =
      parseFrom limit separator rows row (cell ++ text) false rest := by
  induction text generalizing cell with
  | nil => rw [escaped, flatMap_nil, List.nil_append, parseFrom_close hrest, List.append_nil]
  | cons c text ih =>
    have hstep : parseFrom limit separator rows row cell true (escaped (c :: text) ++ '"' :: rest) =
        parseFrom limit separator rows row (cell ++ [c]) true (escaped text ++ '"' :: rest) := by
      rw [escaped, flatMap_cons, ← escaped, List.append_assoc, parseFrom.eq_def]
      by_cases hc : c = '"' <;> simp [hc]
    rw [hstep, ih, List.append_assoc, singleton_append]

theorem parseFrom_plain (htext : ∀ c ∈ text, c ≠ '"' ∧ c ≠ separator ∧ c ≠ '\n' ∧ c ≠ '\r') :
    parseFrom limit separator rows row cell false (text ++ rest) =
      parseFrom limit separator rows row (cell ++ text) false rest := by
  induction text generalizing cell with
  | nil => rw [List.nil_append, List.append_nil]
  | cons c text ih =>
    obtain ⟨hquote, hsep, hlf, hcr⟩ := htext c mem_cons_self
    rw [cons_append, parseFrom, if_neg (fun h => hquote h.1), if_neg (fun h => hcr h.1),
      if_neg (not_or.mpr ⟨hlf, hcr⟩), if_neg hsep,
      ih fun d hd => htext d (mem_cons_of_mem c hd), List.append_assoc,
      singleton_append]

theorem parseFrom_cell {cell : Cell} (hcell : cell.Valid separator)
    (hrest : rest.head? ≠ some '"') :
    parseFrom limit separator rows row [] false (cell.write ++ rest) =
      parseFrom limit separator rows row cell.text false rest := by
  rw [Cell.write]
  split
  · rw [cons_append, List.append_assoc, singleton_append, parseFrom,
      if_pos ⟨rfl, rfl⟩, parseFrom_escaped hrest, List.nil_append]
  · rename_i hquoted
    rw [parseFrom_plain (hcell (Bool.eq_false_iff.mpr hquoted)), List.nil_append]

theorem IsSeparator.ne (h : IsSeparator separator) :
    separator ≠ '"' ∧ separator ≠ '\n' ∧ separator ≠ '\r' := by
  rcases h with rfl | rfl | rfl <;> decide

theorem parseFrom_separator (h : IsSeparator separator) :
    parseFrom limit separator rows row cell false (separator :: rest) =
      parseFrom limit separator rows (row ++ [cell]) [] false rest := by
  obtain ⟨hquote, hlf, hcr⟩ := h.ne
  rw [parseFrom, if_neg (fun h => hquote h.1), if_neg (fun h => hcr h.1),
    if_neg (not_or.mpr ⟨hlf, hcr⟩), if_pos rfl]

/-- A row is read up to its last cell. -/
theorem parseFrom_row (h : IsSeparator separator) {cells : List Cell}
    (hcells : ValidRow separator cells) (hrest : rest.head? ≠ some '"') :
    ∃ before last, row ++ texts cells = before ++ [last] ∧
      parseFrom limit separator rows row [] false (writeRow separator cells ++ rest) =
        parseFrom limit separator rows before last false rest := by
  obtain ⟨hne, hvalid⟩ := hcells
  induction cells generalizing row with
  | nil => exact absurd rfl hne
  | cons cell cells ih =>
    obtain ⟨hcell, htail⟩ := forall_mem_cons.mp hvalid
    cases cells with
    | nil => exact ⟨row, cell.text, rfl, parseFrom_cell hcell hrest⟩
    | cons next cells =>
      obtain ⟨before, last, heq, hread⟩ := @ih (row ++ [cell.text]) (cons_ne_nil _ _) htail
      refine ⟨before, last, by rw [← heq]; simp [texts], ?_⟩
      rw [writeRow_cons, List.append_assoc, cons_append, parseFrom_cell hcell,
        parseFrom_separator h]
      · exact hread
      · simpa using h.ne.1

theorem parseFrom_lineEnd {lineEnd : LineEnd} :
    parseFrom limit separator rows row cell false (lineEnd.write ++ rest) =
      if Kept (row ++ [cell]) then
        if (rows ++ [row ++ [cell]]).length = limit then
          (rows ++ [row ++ [cell]], rest.any visible)
        else parseFrom limit separator (rows ++ [row ++ [cell]]) [] [] false rest
      else parseFrom limit separator rows [] [] false rest := by
  cases lineEnd <;> simp [LineEnd.write, parseFrom]

theorem parseFrom_end : parseFrom limit separator rows row cell false [] =
    if Kept (row ++ [cell]) then (rows ++ [row ++ [cell]], false) else (rows, false) := by
  rw [parseFrom]
  by_cases hkept : Kept (row ++ [cell])
  · have hread : cell ≠ [] ∨ row ≠ [] := by
      by_contra hnone
      obtain ⟨rfl, rfl⟩ : cell = [] ∧ row = [] := by simpa [not_or] using hnone
      exact absurd hkept (by decide)
    rw [if_pos ⟨hread, hkept⟩, if_pos hkept]
  · rw [if_neg fun h => hkept h.2, if_neg hkept]

end Reads

section Tables

variable {limit : Nat} {separator : Char} {lineEnd : LineEnd} {ended : Bool}
  {rows : Rows} {written : List (List Cell)} {row : List Cell}

/-- The rows a table is read as. -/
def keptRows (written : List (List Cell)) : Rows := (written.map texts).filter fun row => Kept row

theorem keptRows_cons : keptRows (row :: written) =
    if Kept (texts row) then texts row :: keptRows written else keptRows written := by
  rw [keptRows, map_cons, filter_cons]
  simp only [decide_eq_true_eq, keptRows]

theorem writeRows_cons (h : written ≠ [] ∨ ended = true) :
    writeRows separator lineEnd ended (row :: written) = writeRow separator row ++
      (lineEnd.write ++ writeRows separator lineEnd ended written) := by
  cases written with
  | nil =>
    obtain rfl := h.resolve_left fun hne => hne rfl
    rw [writeRows, writeRows, List.append_nil]
    rfl
  | cons next written =>
    rw [writeRows]
    exact fun hnil => nomatch hnil

theorem past_nil (n : Nat) : past n [] = [] := by cases n <;> rfl

/-- Every row is read, up to the limit; the characters past it decide the rest. -/
theorem parseFrom_rows (h : IsSeparator separator)
    (hwritten : ∀ row ∈ written, ValidRow separator row) {n : Nat}
    (hlimit : rows.length + (n + 1) = limit) :
    parseFrom limit separator rows [] [] false (writeRows separator lineEnd ended written) =
      (rows ++ (keptRows written).take (n + 1),
        (writeRows separator lineEnd ended (past (n + 1) written)).any visible) := by
  induction written generalizing rows n with
  | nil => simp [writeRows, parseFrom, keptRows, past_nil]
  | cons row written ih =>
    obtain ⟨hrow, htail⟩ := forall_mem_cons.mp hwritten
    by_cases hlast : written ≠ [] ∨ ended = true
    · have hhead : ∀ rest, (lineEnd.write ++ rest).head? ≠ some '"' := by
        cases lineEnd <;> simp [LineEnd.write]
      obtain ⟨before, last, heq, hread⟩ := @parseFrom_row limit separator rows [] _ h row hrow
        (hhead (writeRows separator lineEnd ended written))
      rw [List.nil_append] at heq
      rw [writeRows_cons hlast, hread, parseFrom_lineEnd, ← heq, keptRows_cons, past]
      split
      · split
        · rename_i hfull
          obtain rfl : n = 0 := by
            rw [length_append, length_singleton] at hfull
            omega
          rw [past, take_succ_cons, take_zero]
        · rename_i hfull
          rw [length_append, length_singleton] at hfull
          obtain ⟨m, rfl⟩ : ∃ m, n = m + 1 := ⟨n - 1, by omega⟩
          have hnext : (rows ++ [texts row]).length + (m + 1) = limit := by
            rw [length_append, length_singleton]
            omega
          rw [ih htail hnext, List.append_assoc, singleton_append, take_succ_cons]
      · rw [ih htail hlimit]
    · obtain ⟨rfl, rfl⟩ : written = [] ∧ ended = false := by simpa using hlast
      obtain ⟨before, last, heq, hread⟩ := @parseFrom_row limit separator rows [] [] h row hrow
        (by simp)
      rw [List.nil_append] at heq
      have hpast : past (n + 1) [row] = [] := by simp [past, past_nil]
      rw [writeRows, if_neg Bool.false_ne_true, hread, parseFrom_end, ← heq, keptRows_cons, hpast]
      split <;> simp [keptRows, writeRows]

theorem parseWith_written (h : IsSeparator separator)
    (hwritten : ∀ row ∈ written, ValidRow separator row) :
    parseWith (writeRows separator lineEnd ended written) separator =
      ((keptRows written).take maxRows,
        (writeRows separator lineEnd ended (past maxRows written)).any visible) :=
  (parseFrom_rows h hwritten (Nat.zero_add maxRows)).trans (by rw [List.nil_append, maxRows])

theorem trim_eq_nil {text : List Char} : trim text = [] ↔ ∀ c ∈ text, isWhitespace c = true := by
  rw [trim, reverse_eq_nil_iff, dropWhile_eq_nil_iff]
  constructor
  · intro hend
    by_contra hsome
    have hne : text.dropWhile isWhitespace ≠ [] := fun hnil => hsome (dropWhile_eq_nil_iff.mp hnil)
    have hhead := head_dropWhile_not isWhitespace hne
    rw [hend _ (mem_reverse.mpr (head_mem hne))] at hhead
    cases hhead
  · exact fun hall c hc => hall c ((dropWhile_sublist _).subset (mem_reverse.mp hc))

theorem any_write {cell : Cell} : (cell.write.any visible) = true ↔ cell.Shows := by
  rw [Cell.write, Cell.Shows]
  split
  · rename_i hquoted
    have hquote : visible '"' = true := by decide
    simp [hquoted, hquote]
  · rename_i hquoted
    simp [hquoted, trim_eq_nil, visible]

/-- A row past the limit that is seen there. -/
def Seen (separator : Char) (row : List Cell) : Prop :=
  (∃ cell ∈ row, cell.Shows) ∨ separator ≠ '\t' ∧ 1 < row.length

theorem any_row (h : IsSeparator separator) :
    ((writeRow separator row).any visible) = true ↔ Seen separator row := by
  have hblank : visible separator = true ↔ separator ≠ '\t' := by
    rcases h with rfl | rfl | rfl <;> decide
  rw [Seen]
  induction row with
  | nil => simp [writeRow, joinWith]
  | cons cell row ih =>
    cases row with
    | nil =>
      rw [show writeRow separator [cell] = cell.write from rfl, any_write]
      simp
    | cons next row =>
      rw [writeRow_cons, any_append, any_cons, Bool.or_eq_true, Bool.or_eq_true,
        propext ih, any_write, hblank]
      simp only [exists_mem_cons_iff, length_cons]
      grind

theorem any_rows (h : IsSeparator separator) :
    ((writeRows separator lineEnd ended written).any visible) = true ↔
      ∃ row ∈ written, Seen separator row := by
  have hend : ((lineEnd.write).any visible) = false := by cases lineEnd <;> decide
  induction written with
  | nil => simp [writeRows]
  | cons row written ih =>
    by_cases hlast : written ≠ [] ∨ ended = true
    · rw [writeRows_cons hlast, any_append, any_append, hend, Bool.false_or,
        Bool.or_eq_true, propext ih, any_row h, exists_mem_cons_iff]
    · obtain ⟨rfl, rfl⟩ : written = [] ∧ ended = false := by simpa using hlast
      rw [writeRows, if_neg Bool.false_ne_true, List.append_nil, any_row h]
      simp

theorem kept_past {n : Nat} :
    n < (keptRows written).length ↔ ∃ row ∈ past n written, Kept (texts row) := by
  induction written generalizing n with
  | nil => simp [keptRows, past_nil]
  | cons row written ih =>
    cases n with
    | zero =>
      rw [past, length_pos_iff_exists_mem]
      simp [keptRows]
    | succ n =>
      rw [keptRows_cons, past]
      split
      · rw [length_cons, Nat.succ_lt_succ_iff, ih]
      · exact ih

theorem mem_of_mem_past {n : Nat} (hmem : row ∈ past n written) : row ∈ written := by
  induction written generalizing n with
  | nil => rwa [past_nil] at hmem
  | cons first written ih =>
    cases n with
    | zero => rwa [past] at hmem
    | succ n =>
      rw [past] at hmem
      split at hmem
      · exact mem_cons_of_mem _ (ih hmem)
      · exact mem_cons_of_mem _ (ih hmem)

/-- Rows that are not blank past the limit of which nothing shows, or blank ones of which
a quote does. -/
def Misjudged (separator : Char) (written : List (List Cell)) : Prop :=
  (separator = '\t' ∧ (∃ row ∈ past maxRows written, 1 < row.length) ∧
    ∀ row ∈ past maxRows written, ∀ cell ∈ row, ¬ cell.Shows) ∨
  ((∀ row ∈ past maxRows written, ¬ Kept (texts row)) ∧
    ∃ row ∈ past maxRows written, ∃ cell ∈ row, cell.quoted = true)

/-- A row is kept when it has several cells or one that is not blank. -/
theorem kept_texts : Kept (texts row) ↔
    1 < row.length ∨ ∃ cell ∈ row.head?, trim cell.text ≠ [] := by
  rw [Kept, texts, length_map]
  cases row <;> simp [trim]

theorem kept_of_mem {cell : Cell} (hcell : cell ∈ row) (htrim : trim cell.text ≠ []) :
    Kept (texts row) := by
  rw [kept_texts]
  cases row with
  | nil => exact absurd hcell not_mem_nil
  | cons first row =>
    cases row with
    | nil => exact Or.inr ⟨first, rfl, mem_singleton.mp hcell ▸ htrim⟩
    | cons next row => exact Or.inl (by simp)

theorem seen_iff_kept : ((∃ row ∈ past maxRows written, Seen separator row) ↔
    ∃ row ∈ past maxRows written, Kept (texts row)) ↔ ¬ Misjudged separator written := by
  rw [Misjudged, not_or]
  constructor
  · intro hiff
    constructor
    · rintro ⟨rfl, ⟨row, hmem, hseveral⟩, hnone⟩
      obtain ⟨seen, hseen, hshows⟩ := hiff.mpr ⟨row, hmem, kept_texts.mpr (Or.inl hseveral)⟩
      rcases hshows with ⟨cell, hcell, hshow⟩ | ⟨htab, -⟩
      · exact hnone seen hseen cell hcell hshow
      · exact htab rfl
    · rintro ⟨hnone, row, hmem, cell, hcell, hquoted⟩
      obtain ⟨kept, hmem, hkept⟩ := hiff.mp ⟨row, hmem, Or.inl ⟨cell, hcell, Or.inl hquoted⟩⟩
      exact hnone kept hmem hkept
  · rintro ⟨hhidden, hquoted⟩
    constructor
    · rintro ⟨row, hmem, hseen⟩
      by_contra hnone
      have hblank : ∀ row ∈ past maxRows written, ¬ Kept (texts row) :=
        fun row hmem hkept => hnone ⟨row, hmem, hkept⟩
      rcases hseen with ⟨cell, hcell, hquote | htrim⟩ | ⟨-, hseveral⟩
      · exact hquoted ⟨hblank, row, hmem, cell, hcell, hquote⟩
      · exact hblank row hmem (kept_of_mem hcell htrim)
      · exact hblank row hmem (kept_texts.mpr (Or.inl hseveral))
    · rintro ⟨row, hmem, hkept⟩
      by_contra hnone
      have hcells : ∀ row ∈ past maxRows written, ∀ cell ∈ row, ¬ cell.Shows :=
        fun row hmem cell hcell hshow => hnone ⟨row, hmem, Or.inl ⟨cell, hcell, hshow⟩⟩
      rcases kept_texts.mp hkept with hseveral | ⟨cell, hcell, htrim⟩
      · exact hhidden ⟨by_contra fun htab => hnone ⟨row, hmem, Or.inr ⟨htab, hseveral⟩⟩,
          ⟨row, hmem, hseveral⟩, hcells⟩
      · exact hcells row hmem cell (mem_of_head? hcell) (Or.inr htrim)

theorem truncated_iff (h : IsSeparator separator)
    (hwritten : ∀ row ∈ written, ValidRow separator row) :
    ((parseWith (writeRows separator lineEnd ended written) separator).2 = true ↔
      maxRows < (keptRows written).length) ↔ ¬ Misjudged separator written := by
  rw [parseWith_written h hwritten, any_rows h, kept_past, seen_iff_kept]

theorem countsFrom_escaped {text rest : List Char} {counts : List (Char × Nat)} :
    countsFrom true counts (escaped text ++ '"' :: rest) = countsFrom false counts rest := by
  induction text with
  | nil => rfl
  | cons c text ih =>
    rw [escaped, flatMap_cons, ← escaped, List.append_assoc]
    by_cases hc : c = '"' <;> simp [hc, countsFrom, ih]

theorem countsFrom_row (h : IsSeparator separator) {rest : List Char}
    {counts : List (Char × Nat)} (hquoted : ∀ cell ∈ row, cell.quoted = true) :
    countsFrom false counts (writeRow separator row ++ rest) =
      countsFrom false ((counted separator)^[row.length - 1] counts) rest := by
  have hcell : ∀ {cell : Cell} {rest counts}, cell.quoted = true →
      countsFrom false counts (cell.write ++ rest) = countsFrom false counts rest := by
    intro cell rest counts hcell
    rw [Cell.write, if_pos hcell, cons_append, List.append_assoc, countsFrom, if_pos rfl]
    exact countsFrom_escaped
  induction row generalizing counts with
  | nil => rfl
  | cons cell row ih =>
    obtain ⟨hfirst, hothers⟩ := forall_mem_cons.mp hquoted
    cases row with
    | nil => exact hcell hfirst
    | cons next row =>
      obtain ⟨hquote, hlf, hcr⟩ := h.ne
      rw [writeRow_cons, List.append_assoc, hcell hfirst, cons_append, countsFrom,
        if_neg hquote, if_neg Bool.false_ne_true, if_neg (not_or.mpr ⟨hlf, hcr⟩), ih hothers]
      rfl

theorem counted_iterate (n : Nat) (counts : List (Char × Nat)) :
    (counted separator)^[n] counts =
      counts.map fun (d, k) => if d = separator then (d, k + n) else (d, k) := by
  induction n with
  | zero => simp
  | succ n ih =>
    rw [Function.iterate_succ_apply', ih, counted, map_map]
    refine map_congr_left fun count _ => ?_
    by_cases hsame : count.1 = separator <;> simp [hsame, Nat.add_assoc]

theorem guessDelimiter_written (h : IsSeparator separator)
    (hquoted : ∀ cell ∈ row, cell.quoted = true) :
    guessDelimiter (writeRows separator lineEnd ended (row :: written)) =
      if row.length ≤ 1 then ',' else separator := by
  have hrest : ∃ rest, writeRows separator lineEnd ended (row :: written) =
      writeRow separator row ++ rest ∧ ∀ counts, countsFrom false counts rest = counts := by
    by_cases hlast : written ≠ [] ∨ ended = true
    · refine ⟨_, writeRows_cons hlast, fun counts => ?_⟩
      cases lineEnd <;> simp [LineEnd.write, countsFrom]
    · obtain ⟨rfl, rfl⟩ : written = [] ∧ ended = false := by simpa using hlast
      exact ⟨[], rfl, fun counts => rfl⟩
  obtain ⟨rest, htext, hcounts⟩ := hrest
  rw [guessDelimiter, htext, countsFrom_row h hquoted, hcounts, counted_iterate]
  rcases h with rfl | rfl | rfl <;> simp <;> grind

/-- A table of one column has no separator. -/
theorem writeRows_single (hsingle : ∀ row ∈ written, row.length ≤ 1) :
    writeRows separator lineEnd ended written = writeRows ',' lineEnd ended written := by
  have hrow : ∀ {row : List Cell}, row.length ≤ 1 → writeRow separator row = writeRow ',' row := by
    intro row hlength
    match row with
    | [] | [_] => rfl
    | _ :: _ :: _ => exact absurd hlength (by simp)
  induction written with
  | nil => rfl
  | cons row written ih =>
    obtain ⟨hfirst, hothers⟩ := forall_mem_cons.mp hsingle
    cases written with
    | nil => rw [writeRows, writeRows, hrow hfirst]
    | cons next written =>
      rw [writeRows_cons (Or.inl (cons_ne_nil _ _)),
        writeRows_cons (Or.inl (cons_ne_nil _ _)), hrow hfirst, ih hothers]

theorem parse_quoted (h : IsSeparator separator)
    (hquoted : ∀ row ∈ written, row ≠ [] ∧ Kept (texts row) ∧ ∀ cell ∈ row, cell.quoted = true)
    (hguess : guessDelimiter (writeRows separator lineEnd ended written) = separator) :
    parse (writeRows separator lineEnd ended written) =
      { delimiter := separator
        rows := (written.map texts).take maxRows
        truncated := decide (maxRows < written.length) } := by
  have hvalid : ∀ row ∈ written, ValidRow separator row := fun row hrow =>
    ⟨(hquoted row hrow).1, fun cell hcell hplain =>
      absurd ((hquoted row hrow).2.2 cell hcell) (Bool.eq_false_iff.mp hplain)⟩
  have hkept : keptRows written = written.map texts := by
    refine List.filter_eq_self.mpr fun read hread => ?_
    obtain ⟨row, hrow, rfl⟩ := mem_map.mp hread
    exact decide_eq_true (hquoted row hrow).2.1
  have hjudged : ¬ Misjudged separator written := by
    rintro (⟨-, ⟨row, hmem, hseveral⟩, hnone⟩ | ⟨hblank, row, hmem, -⟩)
    · obtain ⟨cell, hcell⟩ := exists_mem_of_length_pos (Nat.lt_of_succ_lt hseveral)
      exact hnone row hmem cell hcell (Or.inl ((hquoted row (mem_of_mem_past hmem)).2.2 cell hcell))
    · exact hblank row hmem (hquoted row (mem_of_mem_past hmem)).2.1
  have htruncated := (@truncated_iff _ lineEnd ended _ h hvalid).mpr hjudged
  rw [parse, hguess, Table.mk.injEq]
  refine ⟨rfl, ?_, ?_⟩
  · rw [parseWith_written h hvalid, hkept]
  · rw [Bool.eq_iff_iff, htruncated, decide_eq_true_iff, hkept, length_map]

/-- What is written to RFC 4180 is read as the rows that are not blank, up to the limit. -/
structure ReadsBack (separator : Char) (lineEnd : LineEnd) (ended : Bool)
    (written : List (List Cell)) : Prop where
  rows : (parseWith (writeRows separator lineEnd ended written) separator).1 =
    (keptRows written).take maxRows
  truncated : (parseWith (writeRows separator lineEnd ended written) separator).2 = true ↔
    maxRows < (keptRows written).length
  /-- With every cell quoted the separator is guessed, if the first line has one. -/
  guessed : ∀ first ∈ written.head?,
    (∀ row ∈ written, Kept (texts row) ∧ ∀ cell ∈ row, cell.quoted = true) →
      (first.length ≤ 1 → ∀ row ∈ written, row.length ≤ 1) →
        parse (writeRows separator lineEnd ended written) =
          { delimiter := if first.length ≤ 1 then ',' else separator
            rows := (written.map texts).take maxRows
            truncated := decide (maxRows < written.length) }

/-- Tables are read as they were written and cut where they should be, unless what lies past
the limit is misjudged. -/
theorem tables_read_back_iff (h : IsSeparator separator)
    (hwritten : ∀ row ∈ written, ValidRow separator row) :
    ReadsBack separator lineEnd ended written ↔ ¬ Misjudged separator written := by
  constructor
  · exact fun hread => (truncated_iff h hwritten).mp hread.truncated
  · intro hjudged
    refine ⟨by rw [parseWith_written h hwritten], (truncated_iff h hwritten).mpr hjudged, ?_⟩
    intro first hfirst hquoted hshape
    obtain ⟨others, rfl⟩ := List.head?_eq_some_iff.mp hfirst
    have hall := fun row hrow => And.intro (hwritten row hrow).1 (hquoted row hrow)
    have hcells := (hquoted first List.mem_cons_self).2
    by_cases hone : first.length ≤ 1
    · have hguess := @guessDelimiter_written ',' lineEnd ended others _ (Or.inl rfl) hcells
      rw [if_pos hone] at hguess ⊢
      rw [writeRows_single (hshape hone)]
      exact parse_quoted (Or.inl rfl) hall hguess
    · have hguess := @guessDelimiter_written _ lineEnd ended others _ h hcells
      rw [if_neg hone] at hguess ⊢
      exact parse_quoted h hall hguess

end Tables

namespace CsvWitness

def quoted (text : String) : Cell := ⟨text.toList, true⟩

/-- A header and a row with a quote, a separator and a line break in its cells. -/
def hosts : List (List Cell) :=
  [[quoted "name", quoted "host"], [quoted "a, \"b\"\n", quoted " h1"]]

theorem hosts_read_back : ReadsBack ',' .crlf true hosts := by
  have hpast : past maxRows hosts = [] := rfl
  refine (tables_read_back_iff (Or.inl rfl) ?_).mpr ?_
  · simp [hosts, quoted, ValidRow, Cell.Valid]
  · simp [Misjudged, hpast]

/-- One row too many of two blank cells, with a tab between them. -/
def tabs : List (List Cell) := List.replicate (maxRows + 1) [⟨[], false⟩, ⟨[], false⟩]

/-- The last row is lost and nothing tells. -/
theorem tabs_lost : ¬ ReadsBack '\t' .lf true tabs := by
  intro hread
  have hvalid : ∀ row ∈ tabs, ValidRow '\t' row := by
    intro row hrow
    obtain rfl := List.eq_of_mem_replicate hrow
    simp [ValidRow, Cell.Valid]
  have hkept : maxRows < (keptRows tabs).length := by
    have hrow : Kept (texts [⟨[], false⟩, ⟨[], false⟩]) := by decide
    simp [keptRows, tabs, List.map_replicate, hrow]
  refine (truncated_iff (Or.inr (Or.inr rfl)) hvalid).mp hread.truncated (Or.inl ⟨rfl, ?_, ?_⟩)
  · obtain ⟨row, hmem, -⟩ := kept_past.mp hkept
    obtain rfl := List.eq_of_mem_replicate (mem_of_mem_past hmem)
    exact ⟨_, hmem, by decide⟩
  · intro row hmem cell hcell
    obtain rfl := List.eq_of_mem_replicate (mem_of_mem_past hmem)
    simp only [List.mem_cons, List.not_mem_nil, or_false, or_self] at hcell
    subst hcell
    decide

end CsvWitness

end Opensesh.Csv
