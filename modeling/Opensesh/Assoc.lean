/-
Ordered association lists: the entries of a sorted map, in ascending order of
their keys.  Reading is `List.lookup`; writing keeps the order, so two maps
with the same lookups are the same list.
-/
import Mathlib.Data.List.Sort
import Mathlib.Data.List.Perm.Subperm

namespace Opensesh

open List

universe u v

variable {K : Type u} {V : Type v} [LinearOrder K]

/-- Every key stands strictly before the keys that follow it. -/
def Ascending (entries : List (K × V)) : Prop := (entries.map Prod.fst).Pairwise (· < ·)

instance (entries : List (K × V)) : Decidable (Ascending entries) :=
  inferInstanceAs (Decidable ((entries.map Prod.fst).Pairwise (· < ·)))

/-- Writes `value` under `key`, replacing what was there. -/
def insertEntry (key : K) (value : V) : List (K × V) → List (K × V)
  | [] => [(key, value)]
  | (head, old) :: rest =>
    if key < head then (key, value) :: (head, old) :: rest
    else if key = head then (key, value) :: rest
    else (head, old) :: insertEntry key value rest

/-- Removes `key`. -/
def removeEntry (key : K) (entries : List (K × V)) : List (K × V) :=
  entries.filter fun entry => decide (entry.1 ≠ key)

variable {entries items : List (K × V)}

theorem Ascending.nodup (h : Ascending entries) : (entries.map Prod.fst).Nodup :=
  List.Pairwise.imp (fun hlt => ne_of_lt hlt) h

@[simp] theorem ascending_nil : Ascending ([] : List (K × V)) := List.Pairwise.nil

theorem ascending_cons {key : K} {value : V} {rest : List (K × V)} :
    Ascending ((key, value) :: rest) ↔ (∀ entry ∈ rest, key < entry.1) ∧ Ascending rest := by
  simp [Ascending]

theorem lookup_cons_ite (key other : K) (value : V) (rest : List (K × V)) :
    ((key, value) :: rest).lookup other =
      if other = key then some value else rest.lookup other := by
  rw [lookup_cons]
  by_cases h : other = key
  · simp [h]
  · simp [h, beq_false_of_ne h]

/-- Lookups see exactly what was written last. -/
@[simp] theorem lookup_insertEntry (key other : K) (value : V)
    (entries : List (K × V)) :
    (insertEntry key value entries).lookup other =
      if other = key then some value else entries.lookup other := by
  induction entries with
  | nil => simp [insertEntry, lookup_cons_ite]
  | cons entry rest ih =>
    obtain ⟨head, old⟩ := entry
    by_cases hlt : key < head
    · simp [insertEntry, hlt, lookup_cons_ite]
    · by_cases heq : key = head
      · subst head
        by_cases h : other = key <;> simp [insertEntry, lookup_cons_ite, h]
      · by_cases hhead : other = head
        · subst head
          have hother : other ≠ key := Ne.symm heq
          simp [insertEntry, hlt, heq, hother]
        · simp [insertEntry, hlt, heq, lookup_cons_ite, hhead, ih]

theorem lookup_filter_key (keep : K → Bool) (entries : List (K × V)) (key : K) :
    (entries.filter fun entry => keep entry.1).lookup key =
      if keep key then entries.lookup key else none := by
  induction entries with
  | nil => simp
  | cons head rest ih =>
    obtain ⟨other, value⟩ := head
    rw [filter_cons]
    by_cases hkey : key = other
    · subst other
      by_cases hkeep : keep key = true
      · simp [hkeep]
      · simp [hkeep, ih]
    · by_cases hkeep : keep other = true
      · simp [hkeep, lookup_cons_ite, hkey, ih]
      · simp [hkeep, lookup_cons_ite, hkey, ih]

@[simp] theorem lookup_removeEntry (key other : K) (entries : List (K × V)) :
    (removeEntry key entries).lookup other =
      if other = key then none else entries.lookup other := by
  rw [removeEntry, lookup_filter_key fun head => decide (head ≠ key)]
  by_cases hother : other = key <;> simp [hother]

theorem mem_insertEntry {key : K} {value : V} {entry : K × V}
    (h : entry ∈ insertEntry key value entries) : entry = (key, value) ∨ entry ∈ entries := by
  induction entries with
  | nil => simpa [insertEntry] using h
  | cons head rest ih =>
    obtain ⟨first, old⟩ := head
    simp only [insertEntry] at h
    split at h
    · simpa using h
    · split at h
      · rcases mem_cons.mp h with heq | hrest
        · exact Or.inl heq
        · exact Or.inr (mem_cons_of_mem _ hrest)
      · rcases mem_cons.mp h with heq | hrest
        · exact Or.inr (heq ▸ mem_cons_self)
        · exact (ih hrest).imp_right (mem_cons_of_mem _)

theorem ascending_insertEntry (key : K) (value : V) (h : Ascending entries) :
    Ascending (insertEntry key value entries) := by
  induction entries with
  | nil => simp [insertEntry, Ascending]
  | cons head rest ih =>
    obtain ⟨first, old⟩ := head
    obtain ⟨hfirst, hrest⟩ := ascending_cons.mp h
    simp only [insertEntry]
    split
    · rename_i hlt
      refine ascending_cons.mpr ⟨?_, h⟩
      intro entry hentry
      rcases mem_cons.mp hentry with rfl | hentry
      · exact hlt
      · exact hlt.trans (hfirst entry hentry)
    · rename_i hge
      split
      · rename_i heq
        exact ascending_cons.mpr ⟨heq ▸ hfirst, hrest⟩
      · rename_i hne
        refine ascending_cons.mpr ⟨?_, ih hrest⟩
        intro entry hentry
        rcases mem_insertEntry hentry with rfl | hold
        · exact lt_of_le_of_ne (not_lt.mp hge) (Ne.symm hne)
        · exact hfirst entry hold

theorem ascending_filter (keep : K × V → Bool) (h : Ascending entries) :
    Ascending (entries.filter keep) :=
  List.Pairwise.sublist (filter_sublist.map Prod.fst) h

theorem ascending_removeEntry (key : K) (h : Ascending entries) :
    Ascending (removeEntry key entries) :=
  ascending_filter _ h

theorem lookup_eq_some_iff_mem (h : (entries.map Prod.fst).Nodup) {key : K} {value : V} :
    entries.lookup key = some value ↔ (key, value) ∈ entries := by
  induction entries with
  | nil => simp
  | cons head rest ih =>
    obtain ⟨first, old⟩ := head
    simp only [map_cons, nodup_cons] at h
    by_cases hkey : key = first
    · subst first
      have hnot : (key, value) ∉ rest := fun hmem => h.1 (mem_map.mpr ⟨_, hmem, rfl⟩)
      simp [hnot, eq_comm]
    · simp [lookup_cons_ite, hkey, ih h.2]

theorem mem_keys_iff_lookup_isSome {key : K} :
    key ∈ entries.map Prod.fst ↔ (entries.lookup key).isSome := by
  induction entries with
  | nil => simp
  | cons head rest ih =>
    obtain ⟨first, old⟩ := head
    by_cases hkey : key = first
    · simp [hkey]
    · rw [lookup_cons_ite, if_neg hkey, map_cons, mem_cons, ← ih]
      simp [hkey]

theorem lookup_eq_none_iff_not_mem {key : K} :
    entries.lookup key = none ↔ key ∉ entries.map Prod.fst := by
  rw [mem_keys_iff_lookup_isSome, Option.not_isSome_iff_eq_none]

theorem Ascending.ext {left right : List (K × V)} (hleft : Ascending left)
    (hright : Ascending right)
    (h : ∀ key, left.lookup key = right.lookup key) : left = right := by
  have hmem : ∀ entry : K × V, entry ∈ left ↔ entry ∈ right := by
    rintro ⟨key, value⟩
    rw [← lookup_eq_some_iff_mem hleft.nodup, h, lookup_eq_some_iff_mem hright.nodup]
  have hperm : left.Perm right :=
    (perm_ext_iff_of_nodup (List.Nodup.of_map _ hleft.nodup)
      (List.Nodup.of_map _ hright.nodup)).mpr hmem
  refine List.Perm.eq_of_pairwise ?_ (pairwise_map.mp hleft) (pairwise_map.mp hright) hperm
  intro first second _ _ hlt hgt
  exact absurd hlt (lt_asymm hgt)

/-- Writes what `write` gives for each of the keys. -/
def writeAll (write : K → Option V) (keys : List K) (entries : List (K × V)) : List (K × V) :=
  keys.foldl (fun out key =>
    match write key with
    | some value => insertEntry key value out
    | none => out) entries

theorem lookup_writeAll (write : K → Option V) (keys : List K)
    (entries : List (K × V)) (key : K) :
    (writeAll write keys entries).lookup key =
      if key ∈ keys then (write key).or (entries.lookup key)
      else entries.lookup key := by
  induction keys generalizing entries with
  | nil => simp [writeAll]
  | cons head rest ih =>
    rw [writeAll, foldl_cons, ← writeAll, ih]
    by_cases hhead : key = head
    · subst head
      cases write key <;> simp
    · cases write head <;> simp [hhead]

theorem ascending_writeAll (write : K → Option V) (keys : List K) (h : Ascending entries) :
    Ascending (writeAll write keys entries) := by
  induction keys generalizing entries with
  | nil => exact h
  | cons head rest ih =>
    rw [writeAll, foldl_cons, ← writeAll]
    refine ih ?_
    cases write head with
    | none => exact h
    | some value => exact ascending_insertEntry head value h

theorem perm_insertEntry {key : K} (value : V) (h : entries.lookup key = none) :
    (insertEntry key value entries).Perm ((key, value) :: entries) := by
  induction entries with
  | nil => exact List.Perm.refl _
  | cons head rest ih =>
    obtain ⟨first, old⟩ := head
    rw [lookup_cons_ite] at h
    split at h
    · cases h
    · rename_i hne
      rw [insertEntry, if_neg hne]
      split
      · exact List.Perm.refl _
      · exact ((ih h).cons _).trans (List.Perm.swap _ _ _)

theorem insertEntry_of_forall_lt {key : K} (value : V) (h : ∀ entry ∈ entries, entry.1 < key) :
    insertEntry key value entries = entries ++ [(key, value)] := by
  induction entries with
  | nil => rfl
  | cons head rest ih =>
    obtain ⟨first, old⟩ := head
    have hfirst := h _ mem_cons_self
    rw [insertEntry, if_neg (not_lt.mpr hfirst.le), if_neg hfirst.ne',
      ih fun entry hmem => h entry (mem_cons_of_mem _ hmem), cons_append]

/-- Writes the items one after the other. -/
def insertAll (items entries : List (K × V)) : List (K × V) :=
  items.foldl (fun out item => insertEntry item.1 item.2 out) entries

theorem insertAll_cons (item : K × V) (items entries : List (K × V)) :
    insertAll (item :: items) entries = insertAll items (insertEntry item.1 item.2 entries) := rfl

theorem ascending_insertAll (items : List (K × V)) (h : Ascending entries) :
    Ascending (insertAll items entries) := by
  induction items generalizing entries with
  | nil => exact h
  | cons item items ih => exact ih (ascending_insertEntry item.1 item.2 h)

theorem perm_insertAll (hnodup : (items.map Prod.fst).Nodup)
    (hnone : ∀ item ∈ items, entries.lookup item.1 = none) :
    (insertAll items entries).Perm (items ++ entries) := by
  induction items generalizing entries with
  | nil => exact List.Perm.refl _
  | cons item items ih =>
    rw [map_cons, nodup_cons] at hnodup
    have hrest : ∀ other ∈ items, (insertEntry item.1 item.2 entries).lookup other.1 = none := by
      intro other hmem
      rw [lookup_insertEntry, if_neg, hnone other (mem_cons_of_mem _ hmem)]
      exact fun heq => hnodup.1 (heq ▸ mem_map_of_mem hmem)
    have hadded := perm_insertEntry item.2 (hnone item mem_cons_self)
    exact (ih hnodup.2 hrest).trans ((hadded.append_left items).trans perm_middle)

/-- Items already in order after what is there are what is written. -/
theorem insertAll_of_ascending (h : Ascending (entries ++ items)) :
    insertAll items entries = entries ++ items := by
  induction items generalizing entries with
  | nil => rw [List.append_nil]; rfl
  | cons item items ih =>
    have hlt : ∀ entry ∈ entries, entry.1 < item.1 := by
      rw [Ascending, map_append, pairwise_append] at h
      exact fun entry hmem => h.2.2 entry.1 (mem_map_of_mem hmem) item.1
        (by rw [map_cons]; exact mem_cons_self)
    have heq : entries ++ item :: items = (entries ++ [(item.1, item.2)]) ++ items := by
      rw [List.append_assoc]
      rfl
    rw [heq] at h ⊢
    rw [insertAll_cons, insertEntry_of_forall_lt item.2 hlt, ih h]

end Opensesh
