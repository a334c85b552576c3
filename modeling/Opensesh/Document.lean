/-
Settings files as TOML tables: `merge3` between its parse and its print, and
the laws by which a merge leaves alone what nobody changed.
-/
import Opensesh.MergeSpec

namespace Opensesh

/-- A parsed settings file: a table that lists its keys in order throughout. -/
structure Document where
  table : Table
  wellFormed : (Value.table table).wellFormed = true

namespace Document

/-- An empty file. -/
def empty : Document := ⟨[], wellFormed_empty⟩

theorem ext_table {d e : Document} (h : d.table = e.table) : d = e := by
  cases d with
  | mk table hwf =>
    cases e with
    | mk table' hwf' =>
      obtain rfl : table = table' := h
      rfl

instance : DecidableEq Document := fun d e =>
  decidable_of_iff (d.table = e.table) ⟨ext_table, congrArg Document.table⟩

theorem ascending (d : Document) : Ascending d.table :=
  ((wellFormed_table d.table).mp d.wellFormed).1

theorem wellFormedOpt_lookup (d : Document) (key : String) : wellFormedOpt (d.table.lookup key) :=
  Opensesh.wellFormedOpt_lookup d.wellFormed key

/-- Every key reads the same in both. -/
def Same (d e : Document) : Prop := ∀ key, sameOpt (d.table.lookup key) (e.table.lookup key) = true

theorem same_iff (d e : Document) : d.Same e ↔ same (.table d.table) (.table e.table) = true :=
  (same_table_iff d.ascending e.ascending).symm

instance (d e : Document) : Decidable (d.Same e) := decidable_of_iff _ (same_iff d e).symm

theorem Same.refl (d : Document) : d.Same d := fun key =>
  sameOpt_refl _ (d.wellFormedOpt_lookup key)

theorem Same.symm {d e : Document} (h : d.Same e) : e.Same d := fun key => by
  rw [sameOpt_comm (e.wellFormedOpt_lookup key) (d.wellFormedOpt_lookup key)]
  exact h key

theorem Same.trans {d e f : Document} (h : d.Same e) (h' : e.Same f) : d.Same f := fun key =>
  sameOpt_trans (d.wellFormedOpt_lookup key) (e.wellFormedOpt_lookup key)
    (f.wellFormedOpt_lookup key) (h key) (h' key)

theorem ext_lookup {d e : Document} (h : ∀ key, d.table.lookup key = e.table.lookup key) : d = e :=
  ext_table (Ascending.ext d.ascending e.ascending h)

/-- A property that a missing section has holds of every section when it holds
of those that are there. -/
theorem forall_lookup_iff (d : Document) (p : Option Value → Prop) (hnone : p none) :
    (∀ key, p (d.table.lookup key)) ↔ ∀ entry ∈ d.table, p (some entry.2) := by
  constructor
  · rintro h ⟨key, value⟩ hmem
    have hkey := h key
    rwa [(lookup_eq_some_iff_mem d.ascending.nodup).mpr hmem] at hkey
  · intro h key
    cases hlookup : d.table.lookup key with
    | none => exact hnone
    | some value =>
      exact h _ ((lookup_eq_some_iff_mem d.ascending.nodup).mp hlookup)

end Document

/-- `merge3` on parsed texts. -/
def mergeDocuments (base ours theirs : Document) : Document × List Conflict :=
  let merged := mergeTables "" (some base.table) ours.table theirs.table
  (⟨merged.1, wellFormed_mergeTables "" _ ours.wellFormed theirs.wellFormed⟩, merged.2)

theorem place_top (key : String) : place "" key = key := rfl

@[simp] theorem lookup_mergeDocuments (base ours theirs : Document) (key : String) :
    (mergeDocuments base ours theirs).1.table.lookup key =
      (mergeValue key (base.table.lookup key) (ours.table.lookup key)
        (theirs.table.lookup key)).1 := by
  change (mergeTables "" (some base.table) ours.table theirs.table).1.lookup key = _
  rw [lookup_mergeTables _ _ ours.ascending theirs.ascending, place_top]
  rfl

theorem mem_conflicts_mergeDocuments (base ours theirs : Document) (conflict : Conflict) :
    conflict ∈ (mergeDocuments base ours theirs).2 ↔
      ∃ key, conflict ∈ (mergeValue key (base.table.lookup key)
        (ours.table.lookup key) (theirs.table.lookup key)).2 :=
  mem_conflicts_mergeTables "" (some base.table) ours.ascending theirs.ascending conflict

theorem conflicts_mergeDocuments_eq_nil_iff (base ours theirs : Document) :
    (mergeDocuments base ours theirs).2 = [] ↔
      ∀ key, (mergeValue key (base.table.lookup key) (ours.table.lookup key)
        (theirs.table.lookup key)).2 = [] :=
  conflicts_mergeTables_eq_nil_iff "" (some base.table) ours.ascending theirs.ascending

/-- The other side did not change the value: this side's stays. -/
theorem mergeValue_theirs_unchanged (sectionName : String)
    (base ours : Option Value) (h : wellFormedOpt base) :
    mergeValue sectionName base ours base = (ours, []) := by
  rw [mergeValue_eq, sameOpt_refl base h, Bool.or_true, if_pos rfl]

theorem mergeValue_sides_agree (sectionName : String)
    (base ours : Option Value) (h : wellFormedOpt ours) :
    mergeValue sectionName base ours ours = (ours, []) := by
  rw [mergeValue_eq, sameOpt_refl ours h, Bool.true_or, if_pos rfl]

/-- This side did not change the value: the other side's is taken. -/
theorem mergeValue_ours_unchanged (sectionName : String) (base theirs : Option Value)
    (hbase : wellFormedOpt base) (htheirs : wellFormedOpt theirs) :
    sameOpt (mergeValue sectionName base base theirs).1 theirs = true ∧
      (mergeValue sectionName base base theirs).2 = [] := by
  rw [mergeValue_eq]
  split
  · rename_i h
    rw [Bool.or_eq_true] at h
    refine ⟨h.elim id fun htheirs' => ?_, rfl⟩
    rw [sameOpt_comm hbase htheirs]
    exact htheirs'
  · rw [if_pos (sameOpt_refl base hbase)]
    exact ⟨sameOpt_refl theirs htheirs, rfl⟩

theorem mergeDocuments_theirs_unchanged (base ours : Document) :
    mergeDocuments base ours base = (ours, []) := by
  have hvalue := fun key => mergeValue_theirs_unchanged key
    (base.table.lookup key) (ours.table.lookup key)
    (base.wellFormedOpt_lookup key)
  refine Prod.ext (Document.ext_lookup fun key => ?_) ?_
  · rw [lookup_mergeDocuments, hvalue key]
  · exact (conflicts_mergeDocuments_eq_nil_iff _ _ _).mpr fun key => by
      rw [hvalue key]

theorem mergeDocuments_sides_agree (base ours : Document) :
    mergeDocuments base ours ours = (ours, []) := by
  have hvalue := fun key => mergeValue_sides_agree key
    (base.table.lookup key) (ours.table.lookup key)
    (ours.wellFormedOpt_lookup key)
  refine Prod.ext (Document.ext_lookup fun key => ?_) ?_
  · rw [lookup_mergeDocuments, hvalue key]
  · exact (conflicts_mergeDocuments_eq_nil_iff _ _ _).mpr fun key => by
      rw [hvalue key]

theorem mergeDocuments_ours_unchanged (base theirs : Document) :
    (mergeDocuments base base theirs).1.Same theirs ∧ (mergeDocuments base base theirs).2 = [] := by
  have hvalue := fun key => mergeValue_ours_unchanged key
    (base.table.lookup key) (theirs.table.lookup key)
    (base.wellFormedOpt_lookup key) (theirs.wellFormedOpt_lookup key)
  refine ⟨fun key => ?_, ?_⟩
  · rw [lookup_mergeDocuments]
    exact (hvalue key).1
  · exact (conflicts_mergeDocuments_eq_nil_iff _ _ _).mpr fun key => (hvalue key).2

/-- The unit laws of the merge: a side that changed nothing leaves the other
side's version, two equal sides leave theirs, and merging either side into the
result again leaves the result. -/
theorem merge_unit_laws (base ours theirs : Document) :
    mergeDocuments base ours base = (ours, []) ∧
      ((mergeDocuments base base theirs).1.Same theirs ∧ (mergeDocuments base base theirs).2 = []) ∧
      mergeDocuments base ours ours = (ours, []) ∧
      let merged := (mergeDocuments base ours theirs).1
      ((mergeDocuments ours ours merged).1.Same merged ∧
        (mergeDocuments ours ours merged).2 = []) ∧
        (mergeDocuments theirs theirs merged).1.Same merged ∧
        (mergeDocuments theirs theirs merged).2 = [] :=
  ⟨mergeDocuments_theirs_unchanged base ours,
    mergeDocuments_ours_unchanged base theirs,
    mergeDocuments_sides_agree base ours,
    mergeDocuments_ours_unchanged ours _,
    mergeDocuments_ours_unchanged theirs _⟩

end Opensesh
