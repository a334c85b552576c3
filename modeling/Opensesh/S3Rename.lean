/-
S3 storage behind the file views' operations: renaming copies and then deletes, and neither
it nor removing touches an object that is not its own, whatever request fails.
-/
import Opensesh.Fs
import Opensesh.S3Store
import Opensesh.Text

namespace Opensesh.S3

open List Option
open Text

/-- Where a path points. -/
inductive Place where
  | root
  | bucket (bucket : Name)
  | key (bucket key : Name)
deriving DecidableEq

def place (path : String) : Place :=
  let path := Path.normalizePosix (if path.toList.head? = some '/' then path else "/" ++ path)
  let trimmed := path.toList.dropWhile (· = '/')
  if trimmed = [] then .root
  else
    match splitOnce '/' trimmed with
    | none => .bucket trimmed
    | some (bucket, key) => .key bucket key

def fsError (path : String) : S3Error → FsError
  | .notFound _ => .notFound path
  | .denied .. => .permissionDenied path
  | .exists _ => .alreadyExists path
  | .unreachable _ => .disconnected
  | .timeout => .timeout
  | .cancelled => .cancelled
  | .failed _ message | .invalid message => .failed path message

abbrev FsOp : Type → Type := Attempt World FsError

/-- A client's operation, its errors about a path. -/
def about {α : Type} (path : String) (x : S3Op α) : FsOp α := fun world =>
  match x world with
  | (.ok a, after) => (.ok a, after)
  | (.error error, after) => (.error (fsError path error), after)

/-- A folder's keys begin with its own and a slash. -/
def folder (key : Name) : Name := key ++ ['/']

section S3Fs

variable (server : Nat → Fate)

def exists' (bucket key : Name) (path : String) : FsOp Bool := do
  let found ← about path (head server bucket key)
  if found.isSome then pure true
  else about path (hasPrefix server bucket (folder key))

/-- Copies the objects of a folder, one after the other. -/
def copyAll (source target : String) (bucket start toBucket toKey : Name) : List Object → FsOp Unit
  | [] => pure ()
  | object :: rest => do
      about target (copy server bucket object.key toBucket
        (folder toKey ++ object.key.drop start.length) object.size)
      copyAll source target bucket start toBucket toKey rest

def renameObject (source target : String) (bucket key toBucket toKey : Name) (size : Nat) :
    FsOp Unit := do
  about target (copy server bucket key toBucket toKey size)
  about source (delete server bucket key)

def renameAll (source target : String) (bucket key toBucket toKey : Name)
    (objects : List Object) : FsOp Unit := do
  copyAll server source target bucket (folder key) toBucket toKey objects
  about source (deleteMany server bucket (objects.map Object.key))

def renameFolder (source target : String) (bucket key toBucket toKey : Name) : FsOp Unit := do
  let objects ← about source (listAll server bucket (folder key))
  if objects = [] then Attempt.fail (.notFound source)
  else renameAll server source target bucket key toBucket toKey objects

/-- Renames to a place that is free. -/
def renameTo (source target : String) (bucket key toBucket toKey : Name) : FsOp Unit := do
  let found ← about source (head server bucket key)
  match found with
  | some object => renameObject server source target bucket key toBucket toKey object.size
  | none => renameFolder server source target bucket key toBucket toKey

def renamePlaces (source target : String) : Place → Place → FsOp Unit
  | .key bucket key, .key toBucket toKey => do
      let taken ← exists' server toBucket toKey target
      if taken then Attempt.fail (.alreadyExists target)
      else renameTo server source target bucket key toBucket toKey
  | _, _ => Attempt.fail (.unsupported "renaming buckets")

/-- Renames an object or a folder: a copy, then a delete. -/
def rename (source target : String) : FsOp Unit :=
  renamePlaces server source target (place source) (place target)

def removeKeys (path : String) (bucket start : Name) (recursive : Bool) (keys : List Name) :
    FsOp Unit :=
  if keys = [] then Attempt.fail (.notFound path)
  else if !recursive && keys.any (· ≠ start) then
    Attempt.fail (.failed path "the folder isn't empty")
  else about path (deleteMany server bucket keys)

/-- Deletes a folder's keys: all of them, or the folder itself. -/
def removeFolder (path : String) (bucket start : Name) (recursive : Bool) : FsOp Unit := do
  let objects ← about path (listAll server bucket start)
  removeKeys server path bucket start recursive (objects.map Object.key)

def emptyBucket (path : String) (bucket : Name) : FsOp Unit := do
  let objects ← about path (listAll server bucket [])
  about path (deleteMany server bucket (objects.map Object.key))

/-- Deletes a bucket, and before it what it holds. -/
def removeBucket (path : String) (bucket : Name) (recursive : Bool) : FsOp Unit := do
  if recursive then
    emptyBucket server path bucket
    about path (deleteBucket server bucket)
  else about path (deleteBucket server bucket)

def removePlace (path : String) (recursive : Bool) : Place → FsOp Unit
  | .root => Attempt.fail (.permissionDenied path)
  | .bucket bucket => removeBucket server path bucket recursive
  | .key bucket key => do
      let found ← about path (head server bucket key)
      if found.isSome then about path (delete server bucket key)
      else removeFolder server path bucket (folder key) recursive

/-- Deletes an object, a folder or a bucket. -/
def remove (path : String) (recursive : Bool) : FsOp Unit :=
  removePlace server path recursive (place path)

end S3Fs

section Copying

variable {server : Nat → Fate} {α : Type} {old world after : World}

theorem about_snd (path : String) (x : S3Op α) (world : World) :
    (about path x world).2 = (x world).2 := by
  rw [about]
  split <;> simp_all

variable {x : S3Op α}

theorem about_eq_ok {path : String} {a : α} :
    about path x world = (.ok a, after) ↔ x world = (.ok a, after) := by
  rw [about]
  split <;> simp_all

theorem Reads.about (h : Reads x) (path : String) : Reads (about path x) := by
  intro world
  rw [about_snd]
  exact h world

/-- What follows the name of an object or a folder: nothing, or a slash and more. -/
def Tail (tail : Name) : Prop := tail = [] ∨ tail.head? = some '/'

def Under (bucket key b k : Name) : Prop := b = bucket ∧ ∃ tail, Tail tail ∧ k = key ++ tail

theorem tail_iff {key k : Name} :
    (∃ tail, Tail tail ∧ k = key ++ tail) ↔ k = key ∨ folder key <+: k := by
  constructor
  · rintro ⟨tail, rfl | hslash, rfl⟩
    · exact Or.inl (List.append_nil key)
    · cases tail with
      | nil => cases hslash
      | cons c rest =>
        obtain rfl := some.inj hslash
        exact Or.inr ⟨rest, by rw [folder, List.append_assoc, singleton_append]⟩
  · rintro (rfl | ⟨rest, rfl⟩)
    · exact ⟨[], Or.inl rfl, (List.append_nil k).symm⟩
    · exact ⟨'/' :: rest, Or.inr rfl, by
        rw [folder, List.append_assoc, singleton_append]⟩

/-- Between the old objects and these, some were copied to where nothing was. -/
structure Copied (bucket key toBucket toKey : Name) (old world : World) : Prop where
  find : ∀ b k, world.objects.find b k = old.objects.find b k ∨
    old.objects.find b k = none ∧ b = toBucket ∧
      ∃ tail, Tail tail ∧ k = toKey ++ tail ∧
        world.objects.find b k = old.objects.find bucket (key ++ tail)
  written : ∃ more, world.written = old.written ++ more ∧
    ∀ place ∈ more, old.objects.find place.1 place.2 = none

variable {bucket key toBucket toKey : Name}

theorem Copied.of_same (h : world.objects = old.objects ∧ world.written = old.written) :
    Copied bucket key toBucket toKey old world :=
  ⟨fun _ _ => Or.inl (h.1 ▸ rfl), [], h.2.trans (List.append_nil _).symm,
    fun _ hplace => absurd hplace not_mem_nil⟩

theorem Copied.old_find (h : Copied bucket key toBucket toKey old world) {b k : Name}
    {content : List UInt8} (hold : old.objects.find b k = some content) :
    world.objects.find b k = some content := by
  rcases h.find b k with hsame | ⟨hnone, -⟩
  · exact hsame.trans hold
  · rw [hold] at hnone
    cases hnone

variable {tail : Name} {objects : List Object} {keys : Name → Prop} {path : String}

theorem Copied.copy_find (h : Copied bucket key toBucket toKey old world)
    (hfree : old.objects.find toBucket (toKey ++ tail) = none)
    (hfound : world.objects.find toBucket (toKey ++ tail) ≠ none) :
    world.objects.find toBucket (toKey ++ tail) = old.objects.find bucket (key ++ tail) := by
  rcases h.find toBucket (toKey ++ tail) with hsame | ⟨-, -, other, -, heq, hcopy⟩
  · exact absurd (hsame.trans hfree) hfound
  · obtain rfl := append_cancel_left heq
    exact hcopy

theorem Copied.stored (h : Copied bucket key toBucket toKey old world) {content : List UInt8}
    (htail : Tail tail) (hfree : old.objects.find toBucket (toKey ++ tail) = none)
    (hcontent : old.objects.find bucket (key ++ tail) = some content)
    (hstored : Stored world after toBucket (toKey ++ tail) content) :
    Copied bucket key toBucket toKey old after := by
  obtain ⟨more, hmore, hwritten⟩ := h.written
  refine ⟨fun b k => ?_, more ++ [(toBucket, toKey ++ tail)], ?_, fun place hplace => ?_⟩
  · rw [hstored.find]
    split
    · rename_i hplace
      obtain ⟨rfl, rfl⟩ := hplace
      exact Or.inr ⟨hfree, rfl, tail, htail, rfl, hcontent.symm⟩
    · exact h.find b k
  · rw [hstored.written, hmore, List.append_assoc]
  · rcases mem_append.mp hplace with hbefore | hlast
    · exact hwritten place hbefore
    · rw [mem_singleton.mp hlast]
      exact hfree

/-- Copying one object: whatever happens the others stay, and on success it is there. -/
theorem copied_copy (server : Nat → Fate) (h : Copied bucket key toBucket toKey old world)
    {content : List UInt8} (htail : Tail tail)
    (hfree : old.objects.find toBucket (toKey ++ tail) = none)
    (hcontent : old.objects.find bucket (key ++ tail) = some content) (path : String) :
    let result := about path
      (copy server bucket (key ++ tail) toBucket (toKey ++ tail) content.length) world
    Copied bucket key toBucket toKey old result.2 ∧
      (∀ k, world.objects.find toBucket k ≠ none → result.2.objects.find toBucket k ≠ none) ∧
        (result.1 = .ok () → result.2.objects.find toBucket (toKey ++ tail) ≠ none) := by
  intro result
  have hwrites := @copy_writes server world bucket (key ++ tail) toBucket (toKey ++ tail) content
    (h.old_find hcontent)
  have hafter : result.2 = _ := about_snd path _ world
  rcases hwrites with hstored | ⟨hfails, hsame⟩
  · rw [← hafter] at hstored
    refine ⟨h.stored htail hfree hcontent hstored, fun k hfound => ?_, fun _ => ?_⟩
    · rw [hstored.find]
      split
      · exact nofun
      · exact hfound
    · rw [hstored.find, if_pos ⟨rfl, rfl⟩]
      exact nofun
  · rw [← hafter] at hsame
    refine ⟨?_, fun k hfound => hsame.1 ▸ hfound, fun hok => ?_⟩
    · obtain ⟨more, hmore, hwritten⟩ := h.written
      exact ⟨fun b k => hsame.1 ▸ h.find b k, more, hsame.2.trans hmore, hwritten⟩
    · have hresult : about path _ world = (.ok (), result.2) := Prod.ext hok rfl
      exact absurd (congrArg Prod.fst (about_eq_ok.mp hresult)) hfails

theorem copied_copyAll (server : Nat → Fate) (h : Copied bucket key toBucket toKey old world)
    (hfree : ∀ tail, Tail tail → old.objects.find toBucket (toKey ++ tail) = none)
    (source target : String)
    (hobjects : ∀ object ∈ objects, ∃ rest content, object.key = key ++ '/' :: rest ∧
      old.objects.find bucket object.key = some content ∧ object.size = content.length) :
    let result := copyAll server source target bucket (folder key) toBucket toKey objects world
    Copied bucket key toBucket toKey old result.2 ∧
      (∀ k, world.objects.find toBucket k ≠ none → result.2.objects.find toBucket k ≠ none) ∧
        (result.1 = .ok () → ∀ object ∈ objects, ∀ tail, object.key = key ++ tail →
          result.2.objects.find toBucket (toKey ++ tail) ≠ none) := by
  induction objects generalizing world with
  | nil => exact ⟨h, fun _ => id, fun _ _ hobject => absurd hobject not_mem_nil⟩
  | cons object objects ih =>
    obtain ⟨rest, content, hkey, hcontent, hsize⟩ := hobjects object mem_cons_self
    have htarget : folder toKey ++ object.key.drop (folder key).length = toKey ++ '/' :: rest := by
      have hdrop : key ++ '/' :: rest = folder key ++ rest := by
        rw [folder, List.append_assoc, singleton_append]
      rw [hkey, hdrop, drop_left, folder, List.append_assoc, singleton_append]
    have hfirst := copied_copy server h (Or.inr rfl : Tail ('/' :: rest))
      (hfree _ (Or.inr rfl)) (hkey ▸ hcontent) target
    rw [← htarget, ← hkey, ← hsize] at hfirst
    obtain ⟨hcopied, hstays, hthere⟩ := hfirst
    rw [copyAll]
    cases hresult : about target (copy server bucket object.key toBucket
        (folder toKey ++ object.key.drop (folder key).length) object.size) world with
    | mk result middle =>
      rw [hresult] at hcopied hstays hthere
      cases result with
      | error error =>
        rw [Attempt.bind_of_error hresult]
        exact ⟨hcopied, hstays, nofun⟩
      | ok done =>
        rw [Attempt.bind_of_ok hresult]
        obtain ⟨hlast, hstill, hall⟩ := ih hcopied
          fun other hother => hobjects other (mem_cons_of_mem _ hother)
        refine ⟨hlast, fun k hfound => hstill k (hstays k hfound), fun hok => ?_⟩
        intro other hother tail htail
        rcases mem_cons.mp hother with rfl | hmem
        · rw [hkey] at htail
          rw [← append_cancel_left htail, ← htarget]
          exact hstill _ (hthere rfl)
        · exact hall hok other hmem tail htail

/-- What a rename leaves, however it ends: each object of what was renamed is where it was or
where it was to go, everything else stays, and only free places were written. -/
structure Safe (bucket key toBucket toKey : Name) (old after : World) : Prop where
  kept : ∀ tail content, Tail tail → old.objects.find bucket (key ++ tail) = some content →
    after.objects.find bucket (key ++ tail) = some content ∨
      after.objects.find toBucket (toKey ++ tail) = some content
  others : ∀ b k content, ¬Under bucket key b k → old.objects.find b k = some content →
    after.objects.find b k = some content
  written : ∃ more, after.written = old.written ++ more ∧
    ∀ place ∈ more, old.objects.find place.1 place.2 = none

theorem Copied.safe (h : Copied bucket key toBucket toKey old world)
    (hfree : ∀ tail, Tail tail → old.objects.find toBucket (toKey ++ tail) = none)
    (hdeleted : Deleted world after bucket keys)
    (hkeys : ∀ k, keys k → ∃ tail, Tail tail ∧ k = key ++ tail ∧
      old.objects.find bucket k ≠ none ∧ world.objects.find toBucket (toKey ++ tail) ≠ none) :
    Safe bucket key toBucket toKey old after := by
  -- a copy is not deleted, since nothing was at its place before
  have hcopies : ∀ tail, Tail tail →
      after.objects.find toBucket (toKey ++ tail) =
        world.objects.find toBucket (toKey ++ tail) := by
    intro tail htail
    rcases hdeleted.find toBucket (toKey ++ tail) with hsame | ⟨rfl, hgone, -⟩
    · exact hsame
    · obtain ⟨-, -, -, hold, -⟩ := hkeys _ hgone
      exact absurd (hfree tail htail) hold
  refine ⟨fun tail content htail hcontent => ?_, fun b k content hother hcontent => ?_, ?_⟩
  · rcases hdeleted.find bucket (key ++ tail) with hsame | ⟨-, hgone, -⟩
    · exact Or.inl (hsame.trans (h.old_find hcontent))
    · obtain ⟨other, -, heq, -, hfound⟩ := hkeys _ hgone
      obtain rfl := append_cancel_left heq
      refine Or.inr ?_
      rw [hcopies _ htail, h.copy_find (hfree _ htail) hfound, hcontent]
  · rcases hdeleted.find b k with hsame | ⟨rfl, hgone, -⟩
    · exact hsame.trans (h.old_find hcontent)
    · obtain ⟨tail, htail, heq, -⟩ := hkeys _ hgone
      exact absurd ⟨rfl, tail, htail, heq⟩ hother
  · rw [hdeleted.written]
    exact h.written

theorem Copied.moved (h : Copied bucket key toBucket toKey old world)
    (hfree : ∀ tail, Tail tail → old.objects.find toBucket (toKey ++ tail) = none)
    (hdeleted : Deleted world after bucket keys)
    (hkeys : ∀ k, keys k → old.objects.find bucket k ≠ none) {content : List UInt8}
    (htail : Tail tail) (hcontent : old.objects.find bucket (key ++ tail) = some content)
    (hfound : world.objects.find toBucket (toKey ++ tail) ≠ none) :
    after.objects.find toBucket (toKey ++ tail) = some content := by
  rcases hdeleted.find toBucket (toKey ++ tail) with hsame | ⟨rfl, hgone, -⟩
  · rw [hsame, h.copy_find (hfree tail htail) hfound, hcontent]
  · exact absurd (hfree tail htail) (hkeys _ hgone)

/-- What was moved is gone from its key: the object alone when there is one of that name, else
everything in the folder. -/
def Moved (bucket key toBucket toKey : Name) (old after : World) : Prop :=
  ∀ tail content, Tail tail → old.objects.find bucket (key ++ tail) = some content →
    (old.objects.find bucket key ≠ none → tail = []) →
      after.objects.find toBucket (toKey ++ tail) = some content ∧
        after.objects.find bucket (key ++ tail) = none

theorem Safe.of_copied (h : Copied bucket key toBucket toKey old world)
    (hfree : ∀ tail, Tail tail → old.objects.find toBucket (toKey ++ tail) = none) :
    Safe bucket key toBucket toKey old world :=
  h.safe hfree (Deleted.of_same ⟨rfl, rfl⟩ : Deleted world world bucket fun _ => False)
    fun _ => False.elim

theorem Safe.of_same (h : world.objects = old.objects ∧ world.written = old.written) :
    Safe bucket key toBucket toKey old world :=
  ⟨fun _ _ _ hcontent => Or.inl (h.1 ▸ hcontent), fun _ _ _ _ hcontent => h.1 ▸ hcontent,
    [], h.2.trans (List.append_nil _).symm, fun _ hplace => absurd hplace not_mem_nil⟩

theorem reads_exists' (bucket key : Name) (path : String) :
    Reads (exists' server bucket key path) := by
  refine ((reads_head bucket key).about path).bind fun found => ?_
  split
  · exact reads_pure _
  · exact (reads_hasPrefix bucket (folder key)).about path

/-- Nothing is at a place that is found free, nor under it. -/
theorem exists'_ok {bucket key : Name}
    (h : exists' server bucket key path world = (.ok false, after)) :
    ∀ tail, Tail tail → world.objects.find bucket (key ++ tail) = none := by
  obtain ⟨found, middle, hhead, hrest⟩ := Attempt.bind_eq_ok_iff.mp h
  have hsame := ((@reads_head server bucket key).about path world).1
  rw [hhead] at hsame
  have hfound := head_ok (about_eq_ok.mp hhead)
  cases found with
  | some object => cases (Prod.mk.inj hrest).1
  | none =>
    have hkey : world.objects.find bucket key = none := map_eq_none_iff.mp hfound.symm
    have hfolder := hasPrefix_ok (about_eq_ok.mp hrest)
    intro tail htail
    rcases tail_iff.mp ⟨tail, htail, rfl⟩ with heq | hbelow
    · rw [heq]
      exact hkey
    · rw [← hsame]
      exact hfolder _ hbelow

theorem renameObject_safe {content : List UInt8} (source target : String)
    (h : Copied bucket key toBucket toKey old world)
    (hfree : ∀ tail, Tail tail → old.objects.find toBucket (toKey ++ tail) = none)
    (hcontent : old.objects.find bucket key = some content) :
    let result := renameObject server source target bucket key toBucket toKey content.length world
    Safe bucket key toBucket toKey old result.2 ∧
      (result.1 = .ok () → Moved bucket key toBucket toKey old result.2) := by
  have hcopy := copied_copy server h (Or.inl rfl : Tail []) (hfree _ (Or.inl rfl))
    (by rwa [List.append_nil]) target
  rw [List.append_nil, List.append_nil] at hcopy
  obtain ⟨hcopied, -, hthere⟩ := hcopy
  rw [renameObject]
  cases hresult : about target (copy server bucket key toBucket toKey content.length) world with
  | mk result middle =>
    rw [hresult] at hcopied hthere
    cases result with
    | error error =>
      rw [Attempt.bind_of_error hresult]
      exact ⟨.of_copied hcopied hfree, nofun⟩
    | ok done =>
      rw [Attempt.bind_of_ok hresult]
      have hdeleted := @delete_deleted server bucket key middle
      rw [← about_snd source] at hdeleted
      have hold : ∀ k, k = key → old.objects.find bucket k ≠ none := by
        rintro _ rfl
        rw [hcontent]
        exact nofun
      have hfound : middle.objects.find toBucket (toKey ++ []) ≠ none := by
        rw [List.append_nil]
        exact hthere rfl
      have hkey : old.objects.find bucket (key ++ []) = some content := by
        rwa [List.append_nil]
      refine ⟨hcopied.safe hfree hdeleted fun k hk => ?_, fun hok tail _ _ hbefore halone => ?_⟩
      · exact ⟨[], Or.inl rfl, by rw [hk, List.append_nil], hold k hk, hfound⟩
      · obtain rfl := halone (hold key rfl)
        obtain rfl := some.inj (hkey.symm.trans hbefore)
        refine ⟨hcopied.moved hfree hdeleted hold (Or.inl rfl) hkey hfound, ?_⟩
        rw [List.append_nil]
        have hdone : about source (delete server bucket key) middle = (.ok (), _) :=
          Prod.ext hok rfl
        exact delete_ok (about_eq_ok.mp hdone)

theorem renameAll_safe (source target : String) (h : Copied bucket key toBucket toKey old world)
    (hfree : ∀ tail, Tail tail → old.objects.find toBucket (toKey ++ tail) = none)
    (hnone : old.objects.find bucket key = none)
    (hobjects : objects = old.objects.under bucket (folder key)) :
    let result := renameAll server source target bucket key toBucket toKey objects world
    Safe bucket key toBucket toKey old result.2 ∧
      (result.1 = .ok () → Moved bucket key toBucket toKey old result.2) := by
  have hinside : ∀ object ∈ objects, ∃ rest content, object.key = key ++ '/' :: rest ∧
      old.objects.find bucket object.key = some content ∧ object.size = content.length := by
    intro object hobject
    rw [hobjects] at hobject
    obtain ⟨⟨rest, hrest⟩, content, hcontent, hsize⟩ := mem_under.mp hobject
    refine ⟨rest, content, ?_, hcontent, hsize⟩
    rw [← hrest, folder, List.append_assoc, singleton_append]
  have hcopy := copied_copyAll server h hfree source target hinside
  obtain ⟨hcopied, -, hthere⟩ := hcopy
  rw [renameAll]
  cases hresult : copyAll server source target bucket (folder key) toBucket toKey objects world with
  | mk result middle =>
    rw [hresult] at hcopied hthere
    cases result with
    | error error =>
      rw [Attempt.bind_of_error hresult]
      exact ⟨.of_copied hcopied hfree, nofun⟩
    | ok done =>
      rw [Attempt.bind_of_ok hresult]
      have hdeleted := @deleteMany_deleted server bucket (objects.map Object.key) middle
      rw [← about_snd source] at hdeleted
      have hold : ∀ k ∈ objects.map Object.key, old.objects.find bucket k ≠ none := by
        intro k hk
        obtain ⟨object, hobject, rfl⟩ := mem_map.mp hk
        obtain ⟨rest, content, -, hcontent, -⟩ := hinside object hobject
        rw [hcontent]
        exact nofun
      refine ⟨hcopied.safe hfree hdeleted fun k hk => ?_,
        fun hok tail content htail hbefore _ => ?_⟩
      · obtain ⟨object, hobject, rfl⟩ := mem_map.mp hk
        obtain ⟨rest, content, hkey, hcontent, -⟩ := hinside object hobject
        exact ⟨'/' :: rest, Or.inr rfl, hkey, hold _ hk, hthere rfl object hobject _ hkey⟩
      · -- what is not the object itself is in the folder, so it was listed
        have hlisted : ∃ object ∈ objects, object.key = key ++ tail := by
          rcases tail_iff.mp ⟨tail, htail, rfl⟩ with heq | hbelow
          · rw [heq, hnone] at hbefore
            cases hbefore
          · refine ⟨⟨key ++ tail, content.length⟩, ?_, rfl⟩
            rw [hobjects]
            exact mem_under.mpr ⟨hbelow, content, hbefore, rfl⟩
        obtain ⟨object, hobject, hkey⟩ := hlisted
        have hmem : key ++ tail ∈ objects.map Object.key := mem_map.mpr ⟨object, hobject, hkey⟩
        refine ⟨hcopied.moved hfree hdeleted hold htail hbefore
          (hthere rfl object hobject tail hkey), ?_⟩
        have hdone : about source (deleteMany server bucket (objects.map Object.key)) middle =
          (.ok (), _) := Prod.ext hok rfl
        exact deleteMany_ok (about_eq_ok.mp hdone) _ hmem

/-- What a rename may do between two keys. -/
def RenamedKeys (bucket key toBucket toKey : Name) (old : World)
    (result : Except FsError Unit × World) : Prop :=
  Safe bucket key toBucket toKey old result.2 ∧
    (result.1 = .ok () → Moved bucket key toBucket toKey old result.2)

/-- The objects, and what was written, are the same. -/
def Same (old world : World) : Prop := world.objects = old.objects ∧ world.written = old.written

theorem renamedKeys_fail {error : FsError} (h : Same old world) :
    RenamedKeys bucket key toBucket toKey old (Attempt.fail error world) :=
  ⟨.of_same h, nofun⟩

/-- A step that only reads, before the rest. -/
theorem RenamedKeys.of_reads {y : FsOp α} {f : α → FsOp Unit} (hsame : Same old world)
    (hy : Reads y) (hf : ∀ a middle, y world = (.ok a, middle) → Same old middle →
      RenamedKeys bucket key toBucket toKey old (f a middle)) :
    RenamedKeys bucket key toBucket toKey old ((y >>= f) world) := by
  cases hresult : y world with
  | mk result middle =>
    have hread := hy world
    rw [hresult] at hread
    have hmiddle : Same old middle := ⟨hread.1.trans hsame.1, hread.2.trans hsame.2⟩
    cases result with
    | error error =>
      rw [Attempt.bind_of_error hresult]
      exact ⟨.of_same hmiddle, nofun⟩
    | ok a =>
      rw [Attempt.bind_of_ok hresult]
      exact hf a middle hresult hmiddle

theorem renameTo_renamed (source target : String) (hsame : Same old world)
    (hfree : ∀ tail, Tail tail → old.objects.find toBucket (toKey ++ tail) = none) :
    RenamedKeys bucket key toBucket toKey old
      (renameTo server source target bucket key toBucket toKey world) := by
  refine .of_reads hsame ((reads_head bucket key).about source) fun found middle hhead hmiddle => ?_
  have hfound := head_ok (about_eq_ok.mp hhead)
  rw [hsame.1] at hfound
  cases found with
  | some object =>
    obtain ⟨content, hcontent, rfl⟩ := map_eq_some_iff.mp hfound.symm
    exact renameObject_safe source target (.of_same hmiddle) hfree hcontent
  | none =>
    have hnone := map_eq_none_iff.mp hfound.symm
    refine .of_reads hmiddle ((reads_listAll _ _).about source) fun objects last hlist hlast => ?_
    have hobjects := listAll_ok (about_eq_ok.mp hlist)
    rw [hmiddle.1] at hobjects
    split
    · exact renamedKeys_fail hlast
    · exact renameAll_safe source target (.of_same hlast) hfree hnone hobjects

/-- What renaming one place to another may do: nothing, unless both are keys. -/
def Renamed (source target : Place) (old : World) (result : Except FsError Unit × World) : Prop :=
  match source, target with
  | .key bucket key, .key toBucket toKey => RenamedKeys bucket key toBucket toKey old result
  | _, _ => result.2 = old

theorem renamePlaces_renamed (server : Nat → Fate) (source target : String) (first second : Place)
    (old : World) :
    Renamed first second old (renamePlaces server source target first second old) := by
  cases first with
  | root => exact rfl
  | bucket bucket => exact rfl
  | key bucket key =>
    cases second with
    | root => exact rfl
    | bucket toBucket => exact rfl
    | key toBucket toKey =>
      refine RenamedKeys.of_reads ⟨rfl, rfl⟩ (reads_exists' _ _ _)
        fun taken middle hexists hmiddle => ?_
      cases taken with
      | true => exact renamedKeys_fail hmiddle
      | false => exact renameTo_renamed source target hmiddle (exists'_ok hexists)

/-- What removing a place may delete. -/
def Removable (place : Place) (old : World) (b k : Name) : Prop :=
  match place with
  | .root => False
  | .bucket bucket => b = bucket
  | .key bucket key => b = bucket ∧
      if (old.objects.find bucket key).isSome then k = key else folder key <+: k

/-- What is removed is deleted, and nothing else changes. -/
def Removed (place : Place) (old after : World) : Prop :=
  ∀ b k, after.objects.find b k = old.objects.find b k ∨
    Removable place old b k ∧ after.objects.find b k = none

theorem Deleted.about {x : S3Op Unit} (h : Deleted world (x world).2 bucket keys) (path : String) :
    Deleted world (about path x world).2 bucket keys := by
  rwa [about_snd]

theorem mem_keys_listAll {start k : Name}
    (hlist : S3.about path (listAll server bucket start) world = (.ok objects, after))
    (hk : k ∈ objects.map Object.key) : start <+: k := by
  obtain ⟨object, hobject, rfl⟩ := mem_map.mp hk
  rw [listAll_ok (about_eq_ok.mp hlist)] at hobject
  exact (mem_under.mp hobject).1

theorem removeFolder_deleted (path : String) (start : Name) (recursive : Bool) (world : World) :
    Deleted world (removeFolder server path bucket start recursive world).2 bucket
      (start <+: ·) := by
  refine .bind (((reads_listAll _ _).about path).deleted _ _ _) fun objects middle hlist => ?_
  rw [removeKeys]
  split
  · exact .of_same ⟨rfl, rfl⟩
  · split
    · exact .of_same ⟨rfl, rfl⟩
    · exact ((deleteMany_deleted bucket _ middle).mono fun _ => mem_keys_listAll hlist).about path

theorem emptyBucket_deleted (path : String) (bucket : Name) (world : World) :
    Deleted world (emptyBucket server path bucket world).2 bucket fun _ => True :=
  .bind (((reads_listAll _ _).about path).deleted _ _ _) fun _ middle _ =>
    ((deleteMany_deleted bucket _ middle).mono fun _ _ => trivial).about path

theorem removeBucket_deleted (path : String) (bucket : Name) (recursive : Bool) (world : World) :
    Deleted world (removeBucket server path bucket recursive world).2 bucket fun _ => True := by
  rw [removeBucket]
  split
  · exact .bind (emptyBucket_deleted path bucket world) fun _ middle _ =>
      (deleteBucket_deleted bucket _ middle).about path
  · exact (deleteBucket_deleted bucket _ world).about path

theorem Deleted.removed {place : Place} (h : Deleted old after bucket keys)
    (hkeys : ∀ k, keys k → Removable place old bucket k) : Removed place old after := by
  intro b k
  rcases h.find b k with hsame | ⟨rfl, hk, hnone⟩
  · exact Or.inl hsame
  · exact Or.inr ⟨hkeys k hk, hnone⟩

theorem removePlace_removed (server : Nat → Fate) (path : String) (recursive : Bool)
    (place : Place) (old : World) :
    Removed place old (removePlace server path recursive place old).2 := by
  cases place with
  | root => exact fun _ _ => Or.inl rfl
  | bucket bucket =>
    exact (removeBucket_deleted path bucket recursive old).removed fun _ _ => rfl
  | key bucket key =>
    cases hold : old.objects.find bucket key with
    | some content =>
      have hdeleted : Deleted old (removePlace server path recursive (.key bucket key) old).2
          bucket (· = key) := by
        refine .bind (((reads_head _ _).about path).deleted _ _ _) fun found middle hhead => ?_
        have hfound := head_ok (about_eq_ok.mp hhead)
        rw [hold] at hfound
        rw [hfound]
        exact (delete_deleted bucket key middle).about path
      exact hdeleted.removed fun k hk => ⟨rfl, by rw [hold]; exact hk⟩
    | none =>
      have hdeleted : Deleted old (removePlace server path recursive (.key bucket key) old).2
          bucket (folder key <+: ·) := by
        refine .bind (((reads_head _ _).about path).deleted _ _ _) fun found middle hhead => ?_
        have hfound := head_ok (about_eq_ok.mp hhead)
        rw [hold] at hfound
        rw [hfound]
        exact removeFolder_deleted path (folder key) recursive middle
      exact hdeleted.removed fun k hk => ⟨rfl, by rw [hold]; exact hk⟩

/-- Whatever the buckets hold and whichever request fails, renaming loses and overwrites no
object, on success each object it moved is gone from its key, and removing deletes nothing
but the object, or else what is in the folder. -/
theorem rename_remove_safe (server : Nat → Fate) (source target path : String)
    (recursive : Bool) (old : World) :
    Renamed (place source) (place target) old (rename server source target old) ∧
      Removed (place path) old (remove server path recursive old).2 :=
  ⟨renamePlaces_renamed server source target (place source) (place target) old,
    removePlace_removed server path recursive (place path) old⟩

end Copying

namespace RenameWitness

/-- No request fails. -/
def works : Nat → Fate := fun _ => ⟨none, nofun, false, fun _ => false⟩

def empty : Objects where
  buckets := [['b']]
  find := fun _ _ => none
  listed := fun _ => []
  mem_listed := by simp
  mem_buckets := by simp

/-- A bucket with the object `a`. -/
def world : World := ⟨empty.put ['b'] ['a'] [1] (by decide), 0, []⟩

/-- Renamed into itself, what was moved is still under the old name. -/
theorem still_under :
    (rename works "/b/a" "/b/a/c" world).1 = .ok () ∧
      (rename works "/b/a" "/b/a/c" world).2.objects.find ['b'] ['a', '/', 'c'] = some [1] ∧
        Under ['b'] ['a'] ['b'] ['a', '/', 'c'] := by
  have hsource : place "/b/a" = .key ['b'] ['a'] := by decide
  have htarget : place "/b/a/c" = .key ['b'] ['a', '/', 'c'] := by decide
  rw [rename, hsource, htarget]
  exact ⟨rfl, rfl, rfl, ['/', 'c'], Or.inr rfl, rfl⟩

end RenameWitness

end Opensesh.S3
