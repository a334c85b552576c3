/-
Natural order: texts compared without regard to case, runs of digits as numbers; and the sorts of
hosts, tags, groups and files that go by it.
-/
import Opensesh.Groups
import Opensesh.Path
import Mathlib.Data.List.Sort

namespace Opensesh.NaturalOrder

def isDigit (c : Char) : Bool := '0' ≤ c && c ≤ '9'

def trimZeros (digits : List Char) : List Char := digits.dropWhile (· = '0')

/-- Runs of digits: by their value, and with equal values the shorter one first. -/
def compareDigits (x y : List Char) : Ordering :=
  (compare (trimZeros x).length (trimZeros y).length).then
    ((compare (trimZeros x) (trimZeros y)).then (compare x.length y.length))

/-- The loop of `natural_cmp`, with what is left of each text. -/
def naturalFrom (lower : Char → List Char) (a b : List Char) : List Char → List Char → Ordering
  | [], [] => compare a b
  | [], _ :: _ => .lt
  | _ :: _, [] => .gt
  | x :: left, y :: right =>
    if isDigit x && isDigit y then
      let order := compareDigits (x :: left.takeWhile isDigit) (y :: right.takeWhile isDigit)
      if order ≠ .eq then order
      else naturalFrom lower a b (left.dropWhile isDigit) (right.dropWhile isDigit)
    else
      let order := compare (lower x) (lower y)
      if order ≠ .eq then order else naturalFrom lower a b left right
termination_by left => left.length
decreasing_by
  · exact Nat.lt_succ_of_le (List.dropWhile_suffix isDigit).length_le
  · exact Nat.lt_succ_self _

/-- Compares ignoring case, with runs of digits compared as numbers. -/
def naturalCmp (lower : Char → List Char) (a b : String) : Ordering :=
  naturalFrom lower a.toList b.toList a.toList b.toList

/-- Digits have no lower case, and no other character's starts with one. -/
structure Lowers (lower : Char → List Char) : Prop where
  digit : ∀ c, isDigit c = true → lower c = [c]
  other : ∀ c, isDigit c = false → ∀ first ∈ (lower c).head?, isDigit first = false

/-- A stable sort by a comparison. -/
def sortBy {α : Type} (cmp : α → α → Ordering) (items : List α) : List α :=
  items.mergeSort fun a b => (cmp a b).isLE

/-- Which hosts are listed. -/
inductive Scope where
  | all
  | favorites
  | recent
  | group (id : String)
  | ungrouped
  | linked
deriving DecidableEq

/-- Order without a query. -/
inductive HostSort where
  | name
  | address
  | lastUsed
  | group
deriving DecidableEq

structure Query where
  text : String
  scope : Scope
  sort : HostSort

/-- A host that matches, and how well. -/
structure Found where
  host : Host
  score : Nat

def usizeMax : Nat := 2 ^ 64 - 1

/-- The place of a host among the recent connections; the last one counts. -/
def recentRank (recent : List String) (id : String) : Nat :=
  ((recent.zipIdx.filter fun entry => entry.1 ≠ "" ∧ entry.1 = id).getLast?.map Prod.snd).getD
    usizeMax

def groupPath (file : HostsFile) (id : String) : String :=
  " / ".intercalate ((file.groupChain (some id)).map Group.name).reverse

/-- The path of a host's group; empty without a group of the file. -/
def pathOf (file : HostsFile) (host : Host) : String :=
  ((host.group.filter fun id => id ∈ file.groups.map Group.id).map (groupPath file)).getD ""

/-- How `search` compares what it found. -/
def compareFound (lower : Char → List Char) (file : HostsFile) (recent : List String)
    (query : Query) (a b : Found) : Ordering :=
  let byName := naturalCmp lower a.host.name b.host.name
  if trim query.text ≠ "" then (compare b.score a.score).then byName
  else if query.scope = .recent ∨ query.sort = .lastUsed then
    (compare (recentRank recent a.host.id) (recentRank recent b.host.id)).then byName
  else
    match query.sort with
    | .name | .lastUsed => byName
    | .address => (naturalCmp lower a.host.address b.host.address).then byName
    | .group => (naturalCmp lower (pathOf file a.host) (pathOf file b.host)).then byName

/-- Counts a tag under its lower case; the first spelling is kept. -/
def countTag (lowerText : String → String) (tag : String) :
    List (String × String × Nat) → List (String × String × Nat)
  | [] => [(lowerText tag, tag, 1)]
  | (key, first, count) :: rest =>
    if key = lowerText tag then (key, first, count + 1) :: rest
    else (key, first, count) :: countTag lowerText tag rest

/-- Every tag with the number of hosts that have it, in the order they are met. -/
def tagCounts (lowerText : String → String) (file : HostsFile) : List (String × Nat) :=
  ((file.hosts.flatMap Host.tags).foldl (fun counts tag => countTag lowerText tag counts) []).map
    Prod.snd

inductive Kind where
  | file
  | dir
  | symlink
  | other
deriving DecidableEq

/-- One file of a listing. -/
structure Entry where
  name : String
  kind : Kind
  size : Nat
  modified : Option Int
  mode : Nat
  uid : Option Nat
  targetKind : Option Kind

/-- A folder, or a link to one. -/
def Entry.isDirLike (entry : Entry) : Bool := entry.kind = .dir || entry.targetKind = some .dir

inductive SortKey where
  | name
  | size
  | modified
  | kind
  | permissions
  | owner

def extension (name : String) : String :=
  match Path.rsplitDot name.toList with
  | some (stem, extension) => if stem ≠ [] then String.ofList extension else ""
  | none => ""

def compareKey (lower : Char → List Char) (key : SortKey) (a b : Entry) : Ordering :=
  match key with
  | .name => .eq
  | .size => compare a.size b.size
  | .modified => compare a.modified b.modified
  | .kind => naturalCmp lower (extension a.name) (extension b.name)
  | .permissions => compare a.mode b.mode
  | .owner => compare a.uid b.uid

/-- How `sort` compares the files of a listing: folders first, ties by name. -/
def compareEntries (lower : Char → List Char) (key : SortKey) (ascending : Bool) (a b : Entry) :
    Ordering :=
  let folders := compare b.isDirLike a.isDirLike
  if folders ≠ .eq then folders
  else
    let ordering := (compareKey lower key a b).then (naturalCmp lower a.name b.name)
    if ascending then ordering else ordering.swap

/-- What one step of the comparison sees of a text: a run of digits or a character. -/
structure Key where
  lower : List Char
  size : Nat
  trimmed : List Char
  length : Nat

instance : Ord Key where
  compare := compareLex (compareOn Key.lower) (compareLex (compareOn Key.size)
    (compareLex (compareOn Key.trimmed) (compareOn Key.length)))

instance : Std.TransOrd Key := inferInstanceAs (Std.TransCmp (compareLex _ _))

/-- All runs of digits stand at the place of a digit among the characters. -/
def digitsKey (digits : List Char) : Key :=
  ⟨['0'], (trimZeros digits).length, trimZeros digits, digits.length⟩

def charKey (lower : Char → List Char) (c : Char) : Key := ⟨lower c, 0, [], 0⟩

def keys (lower : Char → List Char) : List Char → List Key
  | [] => []
  | c :: rest =>
    if isDigit c then digitsKey (c :: rest.takeWhile isDigit) :: keys lower (rest.dropWhile isDigit)
    else charKey lower c :: keys lower rest
termination_by text => text.length
decreasing_by
  · exact Nat.lt_succ_of_le (List.dropWhile_suffix isDigit).length_le
  · exact Nat.lt_succ_self _

theorem compare_digitsKey (x y : List Char) :
    compare (digitsKey x) (digitsKey y) = compareDigits x y := rfl

theorem compare_charKey (lower : Char → List Char) (x y : Char) :
    compare (charKey lower x) (charKey lower y) = compare (lower x) (lower y) := by
  change (compare (lower x) (lower y)).then .eq = _
  exact Ordering.then_eq

theorem compare_of_digit {c d : Char} (hc : isDigit c = true) (hd : isDigit d = false) :
    compare c d = compare '0' d ∧ compare c d ≠ .eq := by
  rw [isDigit, Bool.and_eq_true, decide_eq_true_iff, decide_eq_true_iff] at hc
  rw [isDigit, Bool.and_eq_false_iff, decide_eq_false_iff_not, decide_eq_false_iff_not,
    Char.not_le, Char.not_le] at hd
  change compareOfLessAndEq c d = compareOfLessAndEq '0' d ∧ compareOfLessAndEq c d ≠ .eq
  rw [compareOfLessAndEq, compareOfLessAndEq]
  rcases hd with hless | hmore
  · have hc' : d < c := UInt32.lt_of_lt_of_le hless hc.1
    rw [if_neg (Char.lt_asymm hc'), if_neg (Char.ne_of_lt hc').symm, if_neg (Char.lt_asymm hless),
      if_neg (Char.ne_of_lt hless).symm]
    exact ⟨rfl, nofun⟩
  · have hc' : c < d := UInt32.lt_of_le_of_lt hc.2 hmore
    have hzero : '0' < d := UInt32.lt_of_le_of_lt hc.1 hc'
    rw [if_pos hc', if_pos hzero]
    exact ⟨rfl, nofun⟩

variable {lower : Char → List Char} {x y : Char}

theorem compare_digit (hlower : Lowers lower) (hx : isDigit x = true) (hy : isDigit y = false) :
    compare (lower x) (lower y) = compare ['0'] (lower y) ∧ compare (lower x) (lower y) ≠ .eq := by
  have hother := hlower.other y hy
  rw [hlower.digit x hx]
  cases hfirst : lower y with
  | nil => exact ⟨rfl, nofun⟩
  | cons first rest =>
    rw [hfirst] at hother
    obtain ⟨hsame, hne⟩ := compare_of_digit hx (hother first rfl)
    rw [List.compare_cons_cons, List.compare_cons_cons, hsame]
    rw [hsame] at hne
    cases hcompare : compare '0' first with
    | lt => exact ⟨rfl, nofun⟩
    | eq => exact absurd hcompare hne
    | gt => exact ⟨rfl, nofun⟩

theorem compare_digitsKey_charKey (hlower : Lowers lower) (digits : List Char)
    (hx : isDigit x = true) (hy : isDigit y = false) :
    compare (digitsKey digits) (charKey lower y) = compare (lower x) (lower y) := by
  obtain ⟨hsame, hne⟩ := compare_digit hlower hx hy
  change (compare ['0'] (lower y)).then _ = _
  rw [← hsame]
  cases hcompare : compare (lower x) (lower y) with
  | lt => rfl
  | eq => exact absurd hcompare hne
  | gt => rfl

/-- The key at the start of a text. -/
def firstKey (lower : Char → List Char) (c : Char) (rest : List Char) : Key :=
  if isDigit c then digitsKey (c :: rest.takeWhile isDigit) else charKey lower c

/-- What follows the first key. -/
def afterKey (c : Char) (rest : List Char) : List Char :=
  if isDigit c then rest.dropWhile isDigit else rest

theorem keys_cons (lower : Char → List Char) (c : Char) (rest : List Char) :
    keys lower (c :: rest) = firstKey lower c rest :: keys lower (afterKey c rest) := by
  rw [keys, firstKey, afterKey]
  split <;> rfl

theorem compare_firstKey (hlower : Lowers lower) (left right : List Char)
    (h : (isDigit x && isDigit y) = false) :
    compare (firstKey lower x left) (firstKey lower y right) = compare (lower x) (lower y) := by
  rw [firstKey, firstKey]
  cases hx : isDigit x with
  | false =>
    cases hy : isDigit y with
    | false => exact compare_charKey lower x y
    | true =>
      rw [if_neg nofun, if_pos rfl, @Std.OrientedCmp.eq_swap Key compare,
        compare_digitsKey_charKey hlower _ hy hx, ← Std.OrientedCmp.eq_swap]
  | true =>
    rw [hx] at h
    have hy : isDigit y = false := h
    rw [hy, if_pos rfl, if_neg nofun, compare_digitsKey_charKey hlower _ hx hy]

theorem not_digit_of_eq (hlower : Lowers lower) (h : ¬ (isDigit x && isDigit y) = true)
    (heq : compare (lower x) (lower y) = .eq) : isDigit x = false ∧ isDigit y = false := by
  cases hx : isDigit x with
  | false =>
    cases hy : isDigit y with
    | false => exact ⟨rfl, rfl⟩
    | true =>
      exact absurd (Std.OrientedCmp.eq_symm heq) (compare_digit hlower hy hx).2
  | true =>
    cases hy : isDigit y with
    | false => exact absurd heq (compare_digit hlower hx hy).2
    | true => exact absurd (by rw [hx, hy]; rfl) h

theorem then_of_ne {order : Ordering} (h : order ≠ .eq) (next : Ordering) :
    order.then next = order := by
  cases order with
  | lt => rfl
  | eq => exact absurd rfl h
  | gt => rfl

/-- The comparison goes by the keys of the texts, and then by their bytes. -/
theorem naturalFrom_eq {lower : Char → List Char} (hlower : Lowers lower)
    (a b left right : List Char) : naturalFrom lower a b left right =
      (compare (keys lower left) (keys lower right)).then (compare a b) := by
  induction left, right using naturalFrom.induct lower with
  | case1 => rw [naturalFrom, keys, List.compare_nil_nil, Ordering.eq_then]
  | case2 y right => rw [naturalFrom, keys_cons, keys, List.compare_nil_cons, Ordering.lt_then]
  | case3 x left => rw [naturalFrom, keys_cons, keys, List.compare_cons_nil, Ordering.gt_then]
  | case4 x left y right hdigits order hne =>
    obtain ⟨hx, hy⟩ := Bool.and_eq_true_iff.mp hdigits
    rw [naturalFrom, if_pos hdigits, keys_cons, keys_cons, List.compare_cons_cons, firstKey,
      firstKey, if_pos hx, if_pos hy, compare_digitsKey, Ordering.then_assoc, then_of_ne hne]
    exact if_pos hne
  | case5 x left y right hdigits order heq ih =>
    obtain ⟨hx, hy⟩ := Bool.and_eq_true_iff.mp hdigits
    have hsame : compareDigits (x :: left.takeWhile isDigit) (y :: right.takeWhile isDigit) =
        .eq := not_not.mp heq
    rw [naturalFrom, if_pos hdigits, keys_cons, keys_cons, List.compare_cons_cons, firstKey,
      firstKey, afterKey, afterKey, if_pos hx, if_pos hy, if_pos hx, if_pos hy, compare_digitsKey,
      hsame, Ordering.eq_then, ← ih]
    exact if_neg (not_not.mpr rfl)
  | case6 x left y right hdigits order hne =>
    have hfirst := compare_firstKey hlower left right (Bool.not_eq_true _ ▸ hdigits)
    rw [naturalFrom, if_neg hdigits, keys_cons, keys_cons, List.compare_cons_cons, hfirst,
      Ordering.then_assoc, then_of_ne hne]
    exact if_pos hne
  | case7 x left y right hdigits order heq ih =>
    have hsame : compare (lower x) (lower y) = .eq := not_not.mp heq
    have hfirst := compare_firstKey hlower left right (Bool.not_eq_true _ ▸ hdigits)
    obtain ⟨hx, hy⟩ := not_digit_of_eq hlower hdigits hsame
    rw [naturalFrom, if_neg hdigits, keys_cons, keys_cons, List.compare_cons_cons, hfirst,
      afterKey, afterKey, hx, hy, hsame, Ordering.eq_then]
    exact (if_neg (not_not.mpr rfl)).trans ih

section Order

variable {lower : Char → List Char}

theorem naturalCmp_eq (hlower : Lowers lower) :
    naturalCmp lower = compareLex (compareOn fun text : String => keys lower text.toList)
      (compareOn String.toList) := by
  funext a b
  exact naturalFrom_eq hlower _ _ _ _

theorem trans_naturalCmp (hlower : Lowers lower) : Std.TransCmp (naturalCmp lower) := by
  rw [naturalCmp_eq hlower]
  infer_instance

theorem eq_of_naturalCmp (hlower : Lowers lower) {a b : String}
    (h : naturalCmp lower a b = .eq) : a = b := by
  rw [naturalCmp_eq hlower, compareLex_eq_eq] at h
  exact String.toList_inj.mp (Std.LawfulEqOrd.eq_of_compare h.2)

end Order

/-- What a sort needs of its comparison, which tells different names apart. -/
structure Orders {α : Type} (name : α → String) (cmp : α → α → Ordering) : Prop where
  total : Std.TransCmp cmp
  names : ∀ a b, cmp a b = .eq → name a = name b

variable {α : Type} {cmp : α → α → Ordering} {name : α → String}

theorem pairwise_sortBy (h : Std.TransCmp cmp) (items : List α) :
    (sortBy cmp items).Pairwise fun a b => (cmp a b).isLE := by
  refine List.pairwise_mergeSort (fun a b c => Std.TransCmp.isLE_trans) (fun a b => ?_) items
  rw [Bool.or_eq_true, @Std.OrientedCmp.eq_swap _ cmp _ b a]
  cases cmp a b with
  | lt => exact .inl rfl
  | eq => exact .inl rfl
  | gt => exact .inr rfl

/-- One order of different names comes out, whatever the order they come in. -/
theorem sortBy_perm (h : Orders name cmp) {items others : List α} (hperm : items.Perm others)
    (hnames : (items.map name).Nodup) : sortBy cmp items = sortBy cmp others := by
  have hleft := List.mergeSort_perm items fun a b => (cmp a b).isLE
  have hright := List.mergeSort_perm others fun a b => (cmp a b).isLE
  refine List.Perm.eq_of_pairwise (fun a b ha hb hab hba => ?_) (pairwise_sortBy h.total items)
    (pairwise_sortBy h.total others) (hleft.trans (hperm.trans hright.symm))
  have := h.total
  have hname := h.names a b (Std.OrientedCmp.isLE_antisymm hab hba)
  exact List.inj_on_of_nodup_map hnames (hleft.mem_iff.mp ha)
    (hperm.mem_iff.mpr (hright.mem_iff.mp hb)) hname

theorem orders_then {first next : α → α → Ordering} (hfirst : Std.TransCmp first)
    (hnext : Orders name next) : Orders name fun a b => (first a b).then (next a b) := by
  have := hnext.total
  exact ⟨inferInstanceAs (Std.TransCmp (compareLex first next)),
    fun a b h => hnext.names a b (Ordering.then_eq_eq.mp h).2⟩

section Sorts

variable {lower : Char → List Char}

variable {α : Type} {lowerText : String → String} {counts : List (String × String × Nat)}

theorem orders_byName (hlower : Lowers lower) (name : α → String) :
    Orders name fun a b => naturalCmp lower (name a) (name b) := by
  refine ⟨?_, fun a b h => eq_of_naturalCmp hlower h⟩
  have := trans_naturalCmp hlower
  exact
    { eq_swap := Std.OrientedCmp.eq_swap
      isLE_trans := Std.TransCmp.isLE_trans }

theorem orders_compareFound (hlower : Lowers lower) (file : HostsFile) (recent : List String)
    (query : Query) :
    Orders (fun found : Found => found.host.name) (compareFound lower file recent query) := by
  have hname := orders_byName hlower fun found : Found => found.host.name
  unfold compareFound
  by_cases htext : trim query.text ≠ ""
  · simp only [if_pos htext]
    exact orders_then (@Std.TransCmp.opposite _ (compareOn Found.score) _) hname
  · by_cases hrecent : query.scope = .recent ∨ query.sort = .lastUsed
    · simp only [if_neg htext, if_pos hrecent]
      exact orders_then (inferInstanceAs (Std.TransCmp
        (compareOn fun found : Found => recentRank recent found.host.id))) hname
    · simp only [if_neg htext, if_neg hrecent]
      cases query.sort with
      | name => exact hname
      | lastUsed => exact hname
      | address =>
        exact orders_then (orders_byName hlower fun found : Found => found.host.address).total hname
      | group =>
        exact orders_then
          (orders_byName hlower fun found : Found => pathOf file found.host).total hname

theorem trans_compareKey (hlower : Lowers lower) (key : SortKey) :
    Std.TransCmp (compareKey lower key) := by
  cases key with
  | name => exact inferInstanceAs (Std.TransCmp (compareOn fun _ : Entry => false))
  | size => exact inferInstanceAs (Std.TransCmp (compareOn Entry.size))
  | modified => exact inferInstanceAs (Std.TransCmp (compareOn Entry.modified))
  | kind => exact (orders_byName hlower fun entry : Entry => extension entry.name).total
  | permissions => exact inferInstanceAs (Std.TransCmp (compareOn Entry.mode))
  | owner => exact inferInstanceAs (Std.TransCmp (compareOn Entry.uid))

theorem orders_swap {name : α → String} {cmp : α → α → Ordering} (h : Orders name cmp) :
    Orders name fun a b => (cmp a b).swap := by
  have := h.total
  have hflip : (fun a b => (cmp a b).swap) = fun a b => cmp b a :=
    funext fun a => funext fun b => Std.OrientedCmp.eq_swap.symm
  rw [hflip]
  exact ⟨Std.TransCmp.opposite, fun a b heq => (h.names b a heq).symm⟩

theorem orders_compareEntries (hlower : Lowers lower) (key : SortKey) (ascending : Bool) :
    Orders Entry.name (compareEntries lower key ascending) := by
  have hordering := orders_then (trans_compareKey hlower key) (orders_byName hlower Entry.name)
  have hfolders : Std.TransCmp fun a b : Entry => compare b.isDirLike a.isDirLike :=
    @Std.TransCmp.opposite _ (compareOn Entry.isDirLike) _
  have hfolded : compareEntries lower key ascending = fun a b =>
      (compare b.isDirLike a.isDirLike).then (if ascending then
        (compareKey lower key a b).then (naturalCmp lower a.name b.name)
        else ((compareKey lower key a b).then (naturalCmp lower a.name b.name)).swap) := by
    funext a b
    rw [compareEntries]
    dsimp only
    cases compare b.isDirLike a.isDirLike with
    | lt => rfl
    | eq => rfl
    | gt => rfl
  rw [hfolded]
  cases ascending with
  | true => exact orders_then hfolders hordering
  | false => exact orders_then hfolders (orders_swap hordering)

/-- Counted under different keys, each the lower case of its tag. -/
def Counted (lowerText : String → String) (counts : List (String × String × Nat)) : Prop :=
  (counts.map Prod.fst).Nodup ∧ ∀ entry ∈ counts, entry.1 = lowerText entry.2.1

theorem mem_countTag {tag key : String} (h : key ∈ (countTag lowerText tag counts).map Prod.fst) :
    key = lowerText tag ∨ key ∈ counts.map Prod.fst := by
  induction counts with
  | nil => exact .inl (List.mem_singleton.mp h)
  | cons entry rest ih =>
    obtain ⟨other, first, count⟩ := entry
    rw [countTag] at h
    split at h
    · exact .inr h
    · rcases List.mem_cons.mp h with rfl | hrest
      · exact .inr List.mem_cons_self
      · exact (ih hrest).imp_right (List.mem_cons_of_mem _)

theorem counted_countTag (tag : String) (h : Counted lowerText counts) :
    Counted lowerText (countTag lowerText tag counts) := by
  induction counts with
  | nil => exact ⟨List.nodup_singleton _, by simp [countTag]⟩
  | cons entry rest ih =>
    obtain ⟨other, first, count⟩ := entry
    obtain ⟨hkeys, hfirst⟩ := h
    rw [List.map_cons, List.nodup_cons] at hkeys
    rw [List.forall_mem_cons] at hfirst
    rw [countTag]
    split
    · exact ⟨List.nodup_cons.mpr hkeys, List.forall_mem_cons.mpr hfirst⟩
    · rename_i hother
      obtain ⟨hrest, hcounted⟩ := ih ⟨hkeys.2, hfirst.2⟩
      refine ⟨List.nodup_cons.mpr ⟨fun hmem => ?_, hrest⟩,
        List.forall_mem_cons.mpr ⟨hfirst.1, hcounted⟩⟩
      exact (mem_countTag hmem).elim hother hkeys.1

theorem nodup_tagCounts (lowerText : String → String) (file : HostsFile) :
    ((tagCounts lowerText file).map Prod.fst).Nodup := by
  have hcounted : ∀ (tags : List String) (counts : List (String × String × Nat)),
      Counted lowerText counts → Counted lowerText
        (tags.foldl (fun counts tag => countTag lowerText tag counts) counts) := by
    intro tags
    induction tags with
    | nil => exact fun counts h => h
    | cons tag tags ih => exact fun counts h => ih _ (counted_countTag tag h)
  obtain ⟨hkeys, hfirst⟩ := hcounted (file.hosts.flatMap Host.tags) [] ⟨List.nodup_nil, nofun⟩
  rw [tagCounts, List.map_map]
  refine List.Nodup.of_map lowerText ?_
  rw [List.map_map]
  exact List.map_congr_left hfirst ▸ hkeys

end Sorts

/-- What `sort_by` asks of a comparison, and one order of different names from it. -/
structure Sorts {α : Type} (name : α → String) (cmp : α → α → Ordering) : Prop where
  swap : ∀ a b, cmp b a = (cmp a b).swap
  trans : ∀ order a b c, cmp a b = order → cmp b c = order → cmp a c = order
  one : ∀ items others, items.Perm others → (items.map name).Nodup →
    sortBy cmp items = sortBy cmp others

theorem Orders.sorts {α : Type} {name : α → String} {cmp : α → α → Ordering}
    (h : Orders name cmp) : Sorts name cmp where
  swap a b := by
    have := h.total
    exact Std.OrientedCmp.eq_swap
  trans order a b c hab hbc := by
    have := h.total
    cases order with
    | lt => exact Std.TransCmp.lt_trans hab hbc
    | eq => exact Std.TransCmp.eq_trans hab hbc
    | gt => exact Std.TransCmp.gt_trans hab hbc
  one _ _ hperm hnames := sortBy_perm h hperm hnames

/-- Natural order is a total order of texts, and every sort by it puts different names in one order:
what is found, tags (counted in any order), groups, hosts, and the files of a listing. -/
theorem natural_order {lower : Char → List Char} (hlower : Lowers lower) :
    (∀ a b, naturalCmp lower a b = .eq ↔ a = b) ∧ Sorts id (naturalCmp lower) ∧
      (∀ file recent query,
        Sorts (fun found => found.host.name) (compareFound lower file recent query)) ∧
      (∀ key ascending, Sorts Entry.name (compareEntries lower key ascending)) ∧
      Sorts Host.name (fun a b => naturalCmp lower a.name b.name) ∧
      Sorts Group.name (fun a b => naturalCmp lower a.name b.name) ∧
      ∀ (lowerText : String → String) (file : HostsFile) (counts : List (String × Nat)),
        (tagCounts lowerText file).Perm counts →
          sortBy (fun a b => naturalCmp lower a.1 b.1) (tagCounts lowerText file) =
            sortBy (fun a b => naturalCmp lower a.1 b.1) counts := by
  have htotal := trans_naturalCmp hlower
  refine ⟨fun a b => ⟨eq_of_naturalCmp hlower, ?_⟩, (orders_byName hlower id).sorts,
    fun file recent query => (orders_compareFound hlower file recent query).sorts,
    fun key ascending => (orders_compareEntries hlower key ascending).sorts,
    (orders_byName hlower Host.name).sorts, (orders_byName hlower Group.name).sorts,
    fun lowerText file counts hperm => ?_⟩
  · rintro rfl
    exact Std.ReflCmp.compare_self
  · exact sortBy_perm (orders_byName hlower Prod.fst) hperm (nodup_tagCounts lowerText file)

namespace NaturalOrderWitness

def ascii (c : Char) : List Char := [c.toLower]

theorem toLower_of_no_capital {c : Char} (hcapital : ¬ (c.val ≥ 'A'.val ∧ c.val ≤ 'Z'.val)) :
    c.toLower = c := dif_neg hcapital

theorem lowers_ascii : Lowers ascii where
  digit c h := by
    rw [isDigit, Bool.and_eq_true, decide_eq_true_iff, decide_eq_true_iff] at h
    have hcapital : ¬ (c.val ≥ 'A'.val ∧ c.val ≤ 'Z'.val) := fun hcapital =>
      absurd (UInt32.le_trans hcapital.1 h.2) (by decide)
    rw [ascii, toLower_of_no_capital hcapital]
  other c h first hfirst := by
    obtain rfl := Option.some.inj hfirst
    by_cases hcapital : c.val ≥ 'A'.val ∧ c.val ≤ 'Z'.val
    · have hlower : c.toLower = ⟨c.val + ('a'.val - 'A'.val), _⟩ := dif_pos hcapital
      rw [hlower, isDigit, Bool.and_eq_false_iff, decide_eq_false_iff_not, decide_eq_false_iff_not]
      refine .inr (Char.not_le.mpr ?_)
      obtain ⟨hfrom, hupto⟩ := hcapital
      rw [ge_iff_le, UInt32.le_iff_toNat_le] at hfrom
      rw [UInt32.le_iff_toNat_le] at hupto
      have hstart : 'A'.val.toNat = 65 := rfl
      have hend : 'Z'.val.toNat = 90 := rfl
      have hnine : '9'.val.toNat = 57 := rfl
      have hshift : ('a'.val - 'A'.val).toNat = 32 := rfl
      change '9'.val < c.val + ('a'.val - 'A'.val)
      rw [UInt32.lt_iff_toNat_lt, UInt32.toNat_add, hshift, hnine]
      omega
    · rw [toLower_of_no_capital hcapital]
      exact h

def listing : List Entry :=
  [⟨"notes10.txt", .file, 3, none, 0o644, none, none⟩,
    ⟨"notes9.TXT", .file, 3, some 5, 0o600, some 0, none⟩,
    ⟨"Notes09.txt", .symlink, 0, none, 0o777, none, some .dir⟩]

theorem listing_reversed : sortBy (compareEntries ascii .kind false) listing =
    sortBy (compareEntries ascii .kind false) listing.reverse :=
  ((natural_order lowers_ascii).2.2.2.1 .kind false).one _ _ (List.reverse_perm listing).symm
    (by decide)

end NaturalOrderWitness

end Opensesh.NaturalOrder
