/-
Lists of records told apart by a key: looking a record up by its key, inserting
one at a position, and pairing two lists that hold the same keys in different
orders.
-/
import Mathlib.Data.List.Nodup
import Mathlib.Data.List.Perm.Subperm
import Mathlib.Data.List.InsertIdx
import Mathlib.Data.List.Forall2
import Mathlib.Logic.Function.Iterate

namespace Opensesh

open List

universe u v

variable {α : Type u} {β : Type v} [DecidableEq β]

/-- The first record of `items` whose key is `id`. -/
def findKey (key : α → β) (id : β) (items : List α) : Option α :=
  items.find? fun item => decide (key item = id)

example : findKey id 1 [2] = none := by simp [findKey]

variable {key : α → β} {items left right : List α} {position : Nat} {change : α → α} {γ : Type*}

theorem findKey_some_imp {id : β} {item : α} (h : findKey key id items = some item) :
    item ∈ items ∧ key item = id :=
  ⟨mem_of_find?_eq_some h, by simpa using List.find?_some h⟩

theorem findKey_eq_none_iff {id : β} : findKey key id items = none ↔ id ∉ items.map key := by
  simp [findKey]

theorem findKey_isSome_iff {id : β} : (findKey key id items).isSome ↔ id ∈ items.map key := by
  simp [findKey]

theorem findKey_eq_some_iff {id : β} (h : (items.map key).Nodup) {item : α} :
    findKey key id items = some item ↔ item ∈ items ∧ key item = id := by
  refine ⟨findKey_some_imp, ?_⟩
  rintro ⟨hmem, rfl⟩
  cases hfind : findKey key (key item) items with
  | none =>
    exact absurd (mem_map_of_mem hmem) (findKey_eq_none_iff.mp hfind)
  | some found =>
    obtain ⟨hfound, hkey⟩ := findKey_some_imp hfind
    exact congrArg some (inj_on_of_nodup_map h hfound hmem hkey)

/-- Looking up does not depend on the order of records with distinct keys. -/
theorem findKey_perm (hperm : left.Perm right) (h : (left.map key).Nodup) (id : β) :
    findKey key id left = findKey key id right := by
  have hright : (right.map key).Nodup := (hperm.map key).nodup_iff.mp h
  ext item
  rw [findKey_eq_some_iff h, findKey_eq_some_iff hright, hperm.mem_iff]

/-- The last record wins in a map collected from a list; with distinct keys it
is also the first. -/
theorem findKey_reverse (h : (items.map key).Nodup) (id : β) :
    findKey key id items.reverse = findKey key id items :=
  (findKey_perm (reverse_perm items).symm h id).symm

theorem findKey_cons (key : α → β) (id : β) (item : α) (rest : List α) :
    findKey key id (item :: rest) =
      if key item = id then some item else findKey key id rest := by
  by_cases h : key item = id <;> simp [findKey, h]

theorem findKey_append (key : α → β) (id : β) (left right : List α) :
    findKey key id (left ++ right) = (findKey key id left).or (findKey key id right) := by
  simp [findKey]

omit [DecidableEq β] in
theorem nodup_map_insertIdx {item : α} (hposition : position ≤ items.length)
    (h : (items.map key).Nodup) (hnew : key item ∉ items.map key) :
    ((items.insertIdx position item).map key).Nodup := by
  have hperm := (perm_insertIdx item items hposition).map key
  rw [hperm.nodup_iff, map_cons, nodup_cons]
  exact ⟨hnew, h⟩

theorem findKey_insertIdx {item : α} (hposition : position ≤ items.length)
    (h : (items.map key).Nodup) (hnew : key item ∉ items.map key) (id : β) :
    findKey key id (items.insertIdx position item) =
      if key item = id then some item else findKey key id items := by
  rw [findKey_perm (perm_insertIdx item items hposition)
    (nodup_map_insertIdx hposition h hnew), findKey_cons]

/-- Puts `item` in the place of the record whose key is `id`: at its position,
last when there is none, and nowhere when there is nothing to put. -/
def replaceKey (key : α → β) (id : β) (item : Option α) (items : List α) : List α :=
  match items.findIdx? (fun placed => decide (key placed = id)), item with
  | some place, some item => items.set place item
  | some place, none => items.eraseIdx place
  | none, some item => items ++ [item]
  | none, none => items

theorem replaceKey_cons (key : α → β) (id : β) (item : Option α) (head : α)
    (rest : List α) :
    replaceKey key id item (head :: rest) =
      if key head = id then item.toList ++ rest
      else head :: replaceKey key id item rest := by
  by_cases h : key head = id
  · cases item <;> simp [replaceKey, List.findIdx?_cons, h]
  · cases hrest : rest.findIdx? fun placed => decide (key placed = id) <;>
      cases item <;> simp [replaceKey, List.findIdx?_cons, h, hrest]

theorem mem_replaceKey {id : β} {item : Option α} {x : α} (h : x ∈ replaceKey key id item items) :
    item = some x ∨ x ∈ items := by
  induction items with
  | nil => cases item <;> simp_all [replaceKey]
  | cons head rest ih =>
    rw [replaceKey_cons] at h
    split at h
    · rcases mem_append.mp h with h | h
      · exact Or.inl (Option.mem_toList.mp h)
      · exact Or.inr (mem_cons_of_mem _ h)
    · rcases mem_cons.mp h with rfl | h
      · exact Or.inr mem_cons_self
      · exact (ih h).imp_right (mem_cons_of_mem _)

theorem mem_map_replaceKey {id other : β} {item : Option α}
    (hitem : ∀ x, item = some x → key x = id) (h : other ∈ (replaceKey key id item items).map key) :
    other = id ∨ other ∈ items.map key := by
  obtain ⟨x, hx, rfl⟩ := mem_map.mp h
  exact (mem_replaceKey hx).imp (hitem x) mem_map_of_mem

theorem nodup_replaceKey {id : β} {item : Option α} (hitem : ∀ x, item = some x → key x = id)
    (h : (items.map key).Nodup) : ((replaceKey key id item items).map key).Nodup := by
  induction items with
  | nil => cases item <;> simp [replaceKey]
  | cons head rest ih =>
    rw [map_cons, nodup_cons] at h
    rw [replaceKey_cons]
    split
    · rename_i hhead
      cases item with
      | none => simpa using h.2
      | some x =>
        rw [Option.toList_some, singleton_append, map_cons, nodup_cons, hitem x rfl, ← hhead]
        exact h
    · rename_i hhead
      rw [map_cons, nodup_cons]
      refine ⟨fun hmem => ?_, ih h.2⟩
      rcases mem_map_replaceKey hitem hmem with heq | hold
      · exact hhead heq
      · exact h.1 hold

theorem findKey_replaceKey {id : β} {item : Option α} (hitem : ∀ x, item = some x → key x = id)
    (h : (items.map key).Nodup) (other : β) :
    findKey key other (replaceKey key id item items) =
      if id = other then item else findKey key other items := by
  induction items with
  | nil =>
    cases item with
    | none => simp [replaceKey, findKey]
    | some x =>
      have hx := hitem x rfl
      by_cases heq : id = other <;> simp [replaceKey, findKey, hx, heq]
  | cons head rest ih =>
    rw [map_cons, nodup_cons] at h
    rw [replaceKey_cons]
    split
    · rename_i hhead
      rw [findKey_append, findKey_cons, hhead]
      by_cases heq : id = other
      · subst other
        have hrest : findKey key id rest = none := findKey_eq_none_iff.mpr (hhead ▸ h.1)
        cases item with
        | none => simpa [findKey] using hrest
        | some x => simp [findKey, hitem x rfl]
      · cases item with
        | none => simp [findKey, heq]
        | some x => simp [findKey, hitem x rfl, heq]
    · rename_i hhead
      rw [findKey_cons, findKey_cons, ih h.2]
      by_cases heq : key head = other
      · have hid : id ≠ other := fun h => hhead (heq.trans h.symm)
        simp [heq, hid]
      · simp [heq]

omit [DecidableEq β] in
/-- Two lists with distinct keys and the same keys, whose records of one key
are related, are related record by record after reordering one of them. -/
theorem exists_perm_forall₂ (related : α → α → Prop) (hleft : (left.map key).Nodup)
    (hright : (right.map key).Nodup) (hkeys : ∀ id, id ∈ left.map key ↔ id ∈ right.map key)
    (hrelated : ∀ x ∈ left, ∀ y ∈ right, key x = key y → related x y) :
    ∃ middle, left.Perm middle ∧ List.Forall₂ related middle right := by
  classical
  induction right generalizing left with
  | nil =>
    have hnil : left = [] := by
      apply eq_nil_iff_forall_not_mem.mpr
      intro item hitem
      simpa using (hkeys (key item)).mp (mem_map_of_mem hitem)
    exact ⟨[], by simp [hnil], List.Forall₂.nil⟩
  | cons head tail ih =>
    obtain ⟨hnot, htail⟩ := nodup_cons.mp hright
    have hhead : key head ∈ left.map key := (hkeys (key head)).mpr (by simp)
    obtain ⟨found, hfound, hkey⟩ := mem_map.mp hhead
    have hperm : left.Perm (found :: left.erase found) := perm_cons_erase hfound
    have hnodup := (hperm.map key).nodup_iff.mp hleft
    rw [map_cons, nodup_cons] at hnodup
    have hrest : ∀ id, id ∈ (left.erase found).map key ↔ id ∈ tail.map key := by
      intro id
      have hid := ((hperm.map key).mem_iff (a := id)).symm.trans (hkeys id)
      simp only [map_cons, mem_cons, hkey] at hid
      constructor
      · intro hmem
        rcases hid.mp (Or.inr hmem) with rfl | htl
        · exact absurd hmem (hkey ▸ hnodup.1)
        · exact htl
      · intro hmem
        rcases hid.mpr (Or.inr hmem) with rfl | hel
        · exact absurd hmem hnot
        · exact hel
    obtain ⟨middle, hmiddle, hforall⟩ := ih hnodup.2 htail hrest
      fun x hx y hy => hrelated x (mem_of_mem_erase hx) y (mem_cons_of_mem _ hy)
    exact ⟨found :: middle, hperm.trans (hmiddle.cons found),
      List.Forall₂.cons (hrelated found hfound head mem_cons_self hkey) hforall⟩

/-- The records whose key is new among those before them; one without a key is always
kept. -/
def keepNew (key : α → Option β) : List β → List α → List α
  | _, [] => []
  | taken, item :: rest =>
    match key item with
    | none => item :: keepNew key taken rest
    | some id => if id ∈ taken then keepNew key taken rest
        else item :: keepNew key (id :: taken) rest

example : keepNew some [1] [1, 2] = [2] := by simp [keepNew]

theorem mem_keepNew {key : α → Option β} {item : α} {taken : List β} :
    item ∈ keepNew key taken items ↔ ∃ before after, items = before ++ item :: after ∧
      ∀ id, key item = some id → id ∉ taken ∧ id ∉ before.filterMap key := by
  induction items generalizing taken with
  | nil => simp [keepNew]
  | cons head rest ih =>
    have hsplit : (∃ before after, head :: rest = before ++ item :: after ∧
        ∀ id, key item = some id → id ∉ taken ∧ id ∉ before.filterMap key) ↔
        (item = head ∧ ∀ id, key item = some id → id ∉ taken) ∨
        ∃ before after, rest = before ++ item :: after ∧
          ∀ id, key item = some id → id ∉ taken ∧ id ∉ (head :: before).filterMap key := by
      constructor
      · rintro ⟨before, after, heq, hnew⟩
        cases before with
        | nil =>
          obtain ⟨rfl, -⟩ := List.cons.inj heq
          exact Or.inl ⟨rfl, fun id hid => (hnew id hid).1⟩
        | cons first before =>
          obtain ⟨rfl, hrest⟩ := List.cons.inj heq
          exact Or.inr ⟨before, after, hrest, hnew⟩
      · rintro (⟨rfl, hnew⟩ | ⟨before, after, rfl, hnew⟩)
        · exact ⟨[], rest, rfl, fun id hid => ⟨hnew id hid, by simp⟩⟩
        · exact ⟨head :: before, after, rfl, hnew⟩
    rw [hsplit, keepNew]
    cases hkey : key head with
    | none =>
      simp only [mem_cons, ih, filterMap_cons_none hkey]
      refine or_congr_left ⟨fun heq => ⟨heq, fun id hid => ?_⟩, And.left⟩
      rw [heq, hkey] at hid
      cases hid
    | some id =>
      simp only [filterMap_cons_some hkey, mem_cons, not_or]
      by_cases htaken : id ∈ taken
      · simp only [htaken, if_true, ih]
        constructor
        · rintro ⟨before, after, hrest, hnew⟩
          refine Or.inr ⟨before, after, hrest, fun other hother => ?_⟩
          obtain ⟨hfree, hbefore⟩ := hnew other hother
          exact ⟨hfree, fun heq => hfree (heq ▸ htaken), hbefore⟩
        · rintro (⟨rfl, hnew⟩ | ⟨before, after, hrest, hnew⟩)
          · exact absurd htaken (hnew id hkey)
          · exact ⟨before, after, hrest, fun other hother =>
              ⟨(hnew other hother).1, (hnew other hother).2.2⟩⟩
      · simp only [htaken, if_false, mem_cons, ih, not_or]
        constructor
        · rintro (rfl | ⟨before, after, hrest, hnew⟩)
          · refine Or.inl ⟨rfl, fun other hother => ?_⟩
            rw [hkey] at hother
            exact Option.some.inj hother ▸ htaken
          · exact Or.inr ⟨before, after, hrest, fun other hother =>
              ⟨(hnew other hother).1.2, (hnew other hother).1.1, (hnew other hother).2⟩⟩
        · rintro (⟨heq, -⟩ | ⟨before, after, hrest, hnew⟩)
          · exact Or.inl heq
          · exact Or.inr ⟨before, after, hrest, fun other hother =>
              ⟨⟨(hnew other hother).2.1, (hnew other hother).1⟩, (hnew other hother).2.2⟩⟩

/-- The records with `change` made to those whose key is `id`. -/
def updateKey (key : α → β) (id : β) (change : α → α) (items : List α) : List α :=
  items.map fun item => if key item = id then change item else item

theorem findKey_updateKey (hkey : ∀ item, key (change item) = key item) (id other : β)
    (items : List α) :
    findKey key other (updateKey key id change items) =
      (findKey key other items).map fun item => if id = other then change item else item := by
  induction items with
  | nil => rfl
  | cons head tail ih =>
    have hhead : key (if key head = id then change head else head) = key head := by
      split
      · exact hkey head
      · rfl
    rw [updateKey, map_cons, findKey_cons, findKey_cons, hhead]
    split
    next h => rw [h, Option.map_some]; simp only [eq_comm]
    next => exact ih

theorem updateKey_of_none {id : β} (h : findKey key id items = none) :
    updateKey key id change items = items := by
  rw [findKey_eq_none_iff] at h
  refine (map_congr_left fun item hitem => ?_).trans (map_id items)
  exact if_neg fun hkey => h (mem_map.mpr ⟨item, hitem, hkey⟩)

theorem map_updateKey (hkey : ∀ item, key (change item) = key item) (id : β) (items : List α) :
    (updateKey key id change items).map key = items.map key := by
  rw [updateKey, map_map]
  refine map_congr_left fun item _ => ?_
  rw [Function.comp_apply]
  split
  · exact hkey item
  · rfl

/-- Changes for the keys of a list one after another: each record is changed as often as its
key is in the list. -/
theorem findKey_foldl_updateKey [BEq β] [LawfulBEq β] {change : β → α → α}
    (hkey : ∀ id item, key (change id item) = key item) (ids : List β) (id : β) (items : List α) :
    findKey key id (ids.foldl (fun items id => updateKey key id (change id) items) items) =
      (findKey key id items).map ((change id)^[ids.count id]) := by
  induction ids generalizing items with
  | nil => exact Option.map_id'.symm
  | cons head ids ih =>
    rw [foldl_cons, ih, findKey_updateKey (hkey head), Option.map_map]
    by_cases h : head = id
    · subst h
      rw [count_cons_self, Function.iterate_succ]
      refine congrArg (Option.map · _) (funext fun item => ?_)
      rw [Function.comp_apply, if_pos rfl, Function.comp_apply]
    · rw [count_cons_of_ne h]
      refine congrArg (Option.map · _) (funext fun item => ?_)
      rw [Function.comp_apply, if_neg h]

theorem filter_key {item : α} (h : (items.map key).Nodup) (hmem : item ∈ items) :
    (items.filter fun other => decide (key other = key item)) = [item] := by
  induction items with
  | nil => cases hmem
  | cons head items ih =>
    rw [map_cons, nodup_cons] at h
    rcases mem_cons.mp hmem with rfl | hrest
    · rw [filter_cons_of_pos (by simp), filter_eq_nil_iff.mpr]
      intro other hother hsame
      exact h.1 (of_decide_eq_true hsame ▸ mem_map_of_mem hother)
    · rw [filter_cons_of_neg, ih h.2 hrest]
      intro hsame
      exact h.1 (of_decide_eq_true hsame ▸ mem_map_of_mem hrest)

/-- Two lists side by side: one relation holds along them exactly when what it comes to, where
another holds already, does. -/
theorem forall₂_iff_of {related wanted : α → γ → Prop} {p : α → Prop} {right : List γ}
    (h : List.Forall₂ related left right)
    (hiff : ∀ first ∈ left, ∀ second ∈ right, related first second →
      (wanted first second ↔ p first)) :
    List.Forall₂ wanted left right ↔ ∀ first ∈ left, p first := by
  induction h with
  | nil => exact ⟨fun _ _ hmem => absurd hmem not_mem_nil, fun _ => .nil⟩
  | @cons first second left right hfirst _ ih =>
    rw [forall₂_cons, forall_mem_cons,
      hiff first mem_cons_self second mem_cons_self hfirst,
      ih fun other hother another hanother =>
        hiff other (mem_cons_of_mem _ hother) another (mem_cons_of_mem _ hanother)]

omit [DecidableEq β] in
theorem forall₂_of_map_eq {other : γ → β} {right : List γ} (h : left.map key = right.map other) :
    List.Forall₂ (fun first second => key first = other second) left right := by
  rw [← forall₂_eq_eq_eq, forall₂_map_left_iff, forall₂_map_right_iff] at h
  exact h

/-- A list with an item at its end, unless it is there already. -/
def pushNew (items : List β) (item : β) : List β :=
  if item ∈ items then items else items ++ [item]

theorem pushNew_pushNew (items : List β) (item : β) :
    pushNew (pushNew items item) item = pushNew items item := by
  refine if_pos ?_
  unfold pushNew
  split
  · assumption
  · exact mem_append_right _ (mem_singleton_self item)

theorem nodup_pushNew {items : List β} (h : items.Nodup) (item : β) :
    (pushNew items item).Nodup := by
  unfold pushNew
  split
  · exact h
  next hnew =>
    refine nodup_append.mpr ⟨h, nodup_singleton item, fun a ha b hb heq => ?_⟩
    exact hnew (mem_singleton.mp hb ▸ heq ▸ ha)

theorem nodup_foldl_pushNew {before : List β} (h : before.Nodup) (items : List β) :
    (items.foldl pushNew before).Nodup := by
  induction items generalizing before with
  | nil => exact h
  | cons item items ih => exact ih (nodup_pushNew h item)

theorem foldl_pushNew [BEq β] [LawfulBEq β] (before items : List β) :
    items.foldl pushNew before =
      before ++ (items.filter fun item => decide (item ∉ before)).eraseDups := by
  induction items generalizing before with
  | nil => simp
  | cons item items ih =>
    rw [foldl_cons, ih, pushNew]
    by_cases h : item ∈ before
    · rw [if_pos h, filter_cons_of_neg (by simpa using h)]
    · rw [if_neg h, filter_cons_of_pos (by simpa using h), eraseDups_cons,
        List.append_assoc, singleton_append, filter_filter]
      refine congrArg (before ++ item :: List.eraseDups ·) (filter_congr fun other _ => ?_)
      rcases eq_or_ne other item with rfl | hne
      · simp
      · simp [hne]

theorem length_foldl_pushNew_le (before items : List β) :
    (items.foldl pushNew before).length ≤ before.length + items.length := by
  induction items generalizing before with
  | nil => exact Nat.le_refl _
  | cons item items ih =>
    have hpush : (pushNew before item).length ≤ before.length + 1 := by
      unfold pushNew
      split
      next => exact Nat.le_succ _
      next => exact Nat.le_of_eq length_append
    have hrest := ih (pushNew before item)
    rw [foldl_cons, length_cons]
    omega

theorem foldl_pushNew_of_nodup {before items : List β} (h : (before ++ items).Nodup) :
    items.foldl pushNew before = before ++ items := by
  induction items generalizing before with
  | nil => exact (List.append_nil before).symm
  | cons item items ih =>
    have hnew : item ∉ before := fun hmem =>
      (nodup_append.mp h).2.2 item hmem item mem_cons_self rfl
    rw [← singleton_append, ← List.append_assoc] at h
    rw [foldl_cons, pushNew, if_neg hnew, ih h, List.append_assoc, singleton_append]

theorem nodup_of_length_foldl_pushNew {before items : List β} (hbefore : before.Nodup)
    (h : before.length + items.length ≤ (items.foldl pushNew before).length) :
    (before ++ items).Nodup := by
  induction items generalizing before with
  | nil => rwa [List.append_nil]
  | cons item items ih =>
    rw [foldl_cons, length_cons] at h
    by_cases hold : item ∈ before
    · rw [pushNew, if_pos hold] at h
      have hle := length_foldl_pushNew_le before items
      omega
    · have hpush := nodup_pushNew hbefore item
      rw [pushNew, if_neg hold] at h hpush
      rw [← singleton_append, ← List.append_assoc]
      refine ih hpush ?_
      rw [length_append, length_singleton]
      omega

theorem foldl_pushNew_nil [BEq β] [LawfulBEq β] (items : List β) : items.foldl pushNew [] = items.eraseDups := by
  rw [foldl_pushNew, List.nil_append, List.filter_eq_self.mpr fun _ _ => by simp]

end Opensesh
