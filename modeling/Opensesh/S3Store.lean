/-
An S3 server as its client sees it: the objects of each bucket, requests that take effect or
fail, and the client's operations on top of them.
-/
import Opensesh.Outcome
import Mathlib.Data.List.Basic

namespace Opensesh.S3

open List Option

abbrev Name : Type := List Char

inductive S3Error where
  | notFound (what : Name)
  | denied (what message : Name)
  | exists (what : Name)
  | unreachable (message : String)
  | timeout
  | failed (what : Name) (message : String)
  | invalid (message : String)
  | cancelled

structure Object where
  key : Name
  size : Nat

/-- The buckets and their objects; every object is listed in a bucket that exists. -/
structure Objects where
  buckets : List Name
  find : Name → Name → Option (List UInt8)
  listed : Name → List Name
  mem_listed : ∀ bucket key, key ∈ listed bucket ↔ (find bucket key).isSome
  mem_buckets : ∀ bucket key, (find bucket key).isSome → bucket ∈ buckets

/-- How one request goes: whether it fails, which is no answer that something is not there,
whether it takes effect although it fails, and the keys that a deletion of many leaves. -/
structure Fate where
  fails : Option S3Error
  sound : ∀ what, fails ≠ some (.notFound what)
  lands : Bool
  keeps : Name → Bool

structure World where
  objects : Objects
  /-- How many requests were sent. -/
  sent : Nat
  /-- The objects that were written, the last one last. -/
  written : List (Name × Name)

namespace Objects

def put (objects : Objects) (bucket key : Name) (content : List UInt8)
    (hbucket : bucket ∈ objects.buckets) : Objects where
  buckets := objects.buckets
  find := fun b k => if b = bucket ∧ k = key then some content else objects.find b k
  listed := fun b => if b = bucket then key :: objects.listed b else objects.listed b
  mem_listed b k := by
    have hlisted := objects.mem_listed b k
    by_cases hb : b = bucket
    · subst hb
      by_cases hk : k = key
      · simp [hk]
      · simp [hk, hlisted]
    · simp [hb, hlisted]
  mem_buckets b k := by
    by_cases hb : b = bucket
    · exact fun _ => hb ▸ hbucket
    · simpa [hb] using objects.mem_buckets b k

/-- Without some keys of a bucket. -/
def erase (objects : Objects) (bucket : Name) (gone : Name → Bool) : Objects where
  buckets := objects.buckets
  find := fun b k => if b = bucket ∧ gone k then none else objects.find b k
  listed := fun b =>
    if b = bucket then (objects.listed b).filter fun key => !gone key else objects.listed b
  mem_listed b k := by
    have hlisted := objects.mem_listed b k
    by_cases hb : b = bucket
    · subst hb
      cases hk : gone k <;> simp [hk, hlisted]
    · simp [hb, hlisted]
  mem_buckets b k := by
    have hbuckets := objects.mem_buckets b k
    split
    · exact nofun
    · exact hbuckets

/-- Without a bucket that has no objects. -/
def dropBucket (objects : Objects) (bucket : Name) (hempty : objects.listed bucket = []) :
    Objects where
  buckets := objects.buckets.filter (· ≠ bucket)
  find := objects.find
  listed := objects.listed
  mem_listed := objects.mem_listed
  mem_buckets b k hfound := by
    refine List.mem_filter.mpr ⟨objects.mem_buckets b k hfound, decide_eq_true ?_⟩
    rintro rfl
    have hlisted := (objects.mem_listed b k).mpr hfound
    rw [hempty] at hlisted
    exact absurd hlisted List.not_mem_nil

end Objects

abbrev S3Op : Type → Type := Attempt World S3Error

section Client

variable (server : Nat → Fate)

/-- One request, when it has no effect of its own. -/
def request : S3Op Fate := fun world =>
  match (server world.sent).fails with
  | some error => (.error error, { world with sent := world.sent + 1 })
  | none => (.ok (server world.sent), { world with sent := world.sent + 1 })

/-- A request with an effect, which may take place when the answer is lost. -/
def perform (effect : Fate → S3Op Unit) : S3Op Unit := fun world =>
  match (server world.sent).fails with
  | some error =>
    if (server world.sent).lands then
      (.error error, (effect (server world.sent) { world with sent := world.sent + 1 }).2)
    else (.error error, { world with sent := world.sent + 1 })
  | none => effect (server world.sent) { world with sent := world.sent + 1 }

/-- Writes an object. -/
def store (bucket key : Name) (content : List UInt8) : S3Op Unit := fun world =>
  if h : bucket ∈ world.objects.buckets then
    (.ok (), { world with
      objects := world.objects.put bucket key content h
      written := world.written ++ [(bucket, key)] })
  else (.error (.notFound bucket), world)

def head (bucket key : Name) : S3Op (Option Object) := do
  let _ ← request server
  let world ← Attempt.state
  pure ((world.objects.find bucket key).map fun content => ⟨key, content.length⟩)

/-- The objects under a prefix. -/
def Objects.under (objects : Objects) (bucket start : Name) : List Object :=
  ((objects.listed bucket).filter (start.isPrefixOf ·)).map fun key =>
    ⟨key, ((objects.find bucket key).map List.length).getD 0⟩

def inBucket (bucket : Name) : S3Op Objects := do
  let world ← Attempt.state
  if bucket ∈ world.objects.buckets then pure world.objects
  else Attempt.fail (.notFound bucket)

def hasPrefix (bucket start : Name) : S3Op Bool := do
  let _ ← request server
  let objects ← inBucket bucket
  pure !(objects.under bucket start).isEmpty

/-- A listing in pages, each with a request of its own. -/
def eachPage : Nat → List Object → S3Op (List Object)
  | 0, objects => do
      let _ ← request server
      pure objects
  | more + 1, objects => do
      let _ ← request server
      let rest ← eachPage more (objects.drop 1000)
      pure (objects.take 1000 ++ rest)

def listAll (bucket start : Name) : S3Op (List Object) := do
  let objects ← inBucket bucket
  let found := objects.under bucket start
  eachPage server ((found.length - 1) / 1000) found

def contentOf (bucket key : Name) : S3Op (List UInt8) := do
  let world ← Attempt.state
  match world.objects.find bucket key with
  | some content => pure content
  | none => Attempt.fail (.notFound key)

def COPY_LIMIT : Nat := 5 * 1024 * 1024 * 1024

def COPY_PART : Nat := 512 * 1024 * 1024

theorem COPY_PART_pos : 0 < COPY_PART :=
  Nat.mul_pos (Nat.mul_pos (by decide) (by decide)) (by decide)

theorem sub_min_lt {start size part : Nat} (hstart : start < size) (hpart : 0 < part) :
    size - min (start + part) size < size - start := by
  omega

/-- Copies a part at a time, from a place on. -/
def copyParts (part : Nat) (hpart : 0 < part) (bucket source : Name) (size start : Nat) :
    S3Op (List UInt8) :=
  if start < size then do
    let next := min (start + part) size
    let _ ← request server
    let content ← contentOf bucket source
    let rest ← copyParts part hpart bucket source size next
    pure ((content.drop start).take (next - start) ++ rest)
  else pure []
termination_by size - start
decreasing_by exact sub_min_lt ‹_› hpart

/-- Copies an object inside the server; above the limit in parts, which are given up when one
fails. -/
def copy (bucket source toBucket target : Name) (size : Nat) : S3Op Unit :=
  if size ≤ COPY_LIMIT then
    perform server fun _ => do
      let content ← contentOf bucket source
      store toBucket target content
  else do
    let _ ← request server
    let _ ← inBucket toBucket
    let copied ← Attempt.attempt do
      let content ← copyParts server COPY_PART COPY_PART_pos bucket source size 0
      perform server fun _ => store toBucket target content
    match copied with
    | .ok () => pure ()
    | .error error => do
        let _ ← (request server).attempt
        Attempt.fail error

def erase (bucket : Name) (gone : Name → Bool) : S3Op Unit :=
  Attempt.modify fun world => { world with objects := world.objects.erase bucket gone }

def delete (bucket key : Name) : S3Op Unit :=
  perform server fun _ => do
    let _ ← inBucket bucket
    erase bucket fun other => other = key

/-- A key that is left is an error. -/
def checkDeleted (fate : Fate) (chunk : List Name) : S3Op Unit :=
  match chunk.find? fate.keeps with
  | some key => Attempt.fail (.failed key "not deleted")
  | none => pure ()

def deleteChunk (bucket : Name) (chunk : List Name) (fate : Fate) : S3Op Unit := do
  let _ ← inBucket bucket
  erase bucket fun key => chunk.contains key && !fate.keeps key
  checkDeleted fate chunk

/-- Deletes keys, a thousand to a request. -/
def deleteMany (bucket : Name) (keys : List Name) : S3Op Unit :=
  if keys = [] then pure ()
  else do
    perform server (deleteChunk bucket (keys.take 1000))
    deleteMany bucket (keys.drop 1000)
termination_by keys.length
decreasing_by
  have hpos : 0 < keys.length := List.length_pos_iff.mpr ‹_›
  rw [List.length_drop]
  omega

/-- Deletes an empty bucket. -/
def deleteBucket (bucket : Name) : S3Op Unit :=
  perform server fun _ => do
    let objects ← inBucket bucket
    if hempty : objects.listed bucket = [] then
      Attempt.modify fun world => { world with objects := objects.dropBucket bucket hempty }
    else Attempt.fail (.failed bucket "the bucket is not empty")

end Client

section Specs

variable {server : Nat → Fate} {ε α β : Type} {world after : World}

/-- The objects and what was written are as they were, however a step ends. -/
def Reads (x : Attempt World ε α) : Prop :=
  ∀ world, (x world).2.objects = world.objects ∧ (x world).2.written = world.written

theorem Reads.bind {x : Attempt World ε α} {f : α → Attempt World ε β} (hx : Reads x)
    (hf : ∀ a, Reads (f a)) : Reads (x >>= f) := by
  intro world
  have hfirst := hx world
  cases hresult : x world with
  | mk result middle =>
    rw [hresult] at hfirst
    cases result with
    | error error =>
      rw [Attempt.bind_of_error hresult]
      exact hfirst
    | ok a =>
      rw [Attempt.bind_of_ok hresult]
      have hsecond := hf a middle
      exact ⟨hsecond.1.trans hfirst.1, hsecond.2.trans hfirst.2⟩

theorem reads_pure (a : α) : Reads (pure a : Attempt World ε α) := fun _ => ⟨rfl, rfl⟩

theorem reads_fail (error : ε) : Reads (Attempt.fail error : Attempt World ε α) :=
  fun _ => ⟨rfl, rfl⟩

theorem reads_state : Reads (Attempt.state : Attempt World ε World) := fun _ => ⟨rfl, rfl⟩

theorem reads_request : Reads (request server) := by
  intro world
  rw [request]
  split <;> exact ⟨rfl, rfl⟩

theorem reads_inBucket (bucket : Name) : Reads (inBucket bucket) := by
  refine reads_state.bind fun world => ?_
  split
  · exact reads_pure _
  · exact reads_fail _

theorem reads_contentOf (bucket key : Name) : Reads (contentOf bucket key) := by
  refine reads_state.bind fun world => ?_
  split
  · exact reads_pure _
  · exact reads_fail _

theorem reads_head (bucket key : Name) : Reads (head server bucket key) :=
  reads_request.bind fun _ => reads_state.bind fun _ => reads_pure _

theorem reads_hasPrefix (bucket start : Name) : Reads (hasPrefix server bucket start) :=
  reads_request.bind fun _ => (reads_inBucket bucket).bind fun _ => reads_pure _

theorem reads_eachPage (more : Nat) (objects : List Object) :
    Reads (eachPage server more objects) := by
  induction more generalizing objects with
  | zero => exact reads_request.bind fun _ => reads_pure _
  | succ more ih => exact reads_request.bind fun _ => (ih _).bind fun _ => reads_pure _

theorem reads_listAll (bucket start : Name) : Reads (listAll server bucket start) :=
  (reads_inBucket bucket).bind fun _ => reads_eachPage _ _

theorem reads_copyParts (part : Nat) (hpart : 0 < part) (bucket source : Name)
    (size start : Nat) : Reads (copyParts server part hpart bucket source size start) := by
  induction hleft : size - start using Nat.strongRecOn generalizing start with
  | ind left ih =>
    rw [copyParts]
    split
    · rename_i hstart
      have hless := sub_min_lt hstart hpart
      exact reads_request.bind fun _ => (reads_contentOf bucket source).bind fun _ =>
        (ih _ (hleft ▸ hless) _ rfl).bind fun _ => reads_pure _
    · exact reads_pure _

variable {bucket start : Name} {objects : Objects} {found : List Object} {middle : World}
  {effect : Fate → S3Op Unit} {keys : Name → Prop} {y : Attempt World ε α} {fate : Fate}
  {chunk : List Name}

theorem inBucket_ok (h : inBucket bucket world = (.ok objects, after)) :
    objects = world.objects ∧ bucket ∈ world.objects.buckets ∧ after = world := by
  obtain ⟨found, middle, hstate, hrest⟩ := Attempt.bind_eq_ok_iff.mp h
  obtain ⟨hfound, rfl⟩ := Prod.mk.inj hstate
  obtain rfl := Except.ok.inj hfound
  split at hrest
  · rename_i hbucket
    obtain ⟨hobjects, rfl⟩ := Prod.mk.inj hrest
    exact ⟨(Except.ok.inj hobjects).symm, hbucket, rfl⟩
  · cases (Prod.mk.inj hrest).1

theorem contentOf_ok {key : Name} {content : List UInt8}
    (h : contentOf bucket key world = (.ok content, after)) :
    world.objects.find bucket key = some content ∧ after = world := by
  obtain ⟨found, middle, hstate, hrest⟩ := Attempt.bind_eq_ok_iff.mp h
  obtain ⟨hfound, rfl⟩ := Prod.mk.inj hstate
  obtain rfl := Except.ok.inj hfound
  cases hcontent : world.objects.find bucket key with
  | none =>
    rw [hcontent] at hrest
    cases (Prod.mk.inj hrest).1
  | some found =>
    rw [hcontent] at hrest
    obtain ⟨hsame, rfl⟩ := Prod.mk.inj hrest
    exact ⟨congrArg some (Except.ok.inj hsame), rfl⟩

theorem head_ok {key : Name} {found : Option Object}
    (h : head server bucket key world = (.ok found, after)) :
    found = (world.objects.find bucket key).map fun content => ⟨key, content.length⟩ := by
  obtain ⟨fate, middle, hrequest, hrest⟩ := Attempt.bind_eq_ok_iff.mp h
  have hsame := (@reads_request server world).1
  rw [hrequest] at hsame
  rw [← hsame]
  exact (Except.ok.inj (Prod.mk.inj hrest).1).symm

theorem mem_under {object : Object} :
    object ∈ objects.under bucket start ↔ start <+: object.key ∧
      ∃ content, objects.find bucket object.key = some content ∧ object.size = content.length := by
  rw [Objects.under, List.mem_map]
  constructor
  · rintro ⟨key, hkey, rfl⟩
    obtain ⟨hlisted, hstart⟩ := mem_filter.mp hkey
    obtain ⟨content, hcontent⟩ := isSome_iff_exists.mp ((objects.mem_listed bucket key).mp hlisted)
    exact ⟨List.isPrefixOf_iff_prefix.mp hstart, content, hcontent, by rw [hcontent]; rfl⟩
  · rintro ⟨hstart, content, hcontent, hsize⟩
    refine ⟨object.key, mem_filter.mpr ⟨?_, List.isPrefixOf_iff_prefix.mpr hstart⟩, ?_⟩
    · exact (objects.mem_listed bucket object.key).mpr (by rw [hcontent]; rfl)
    · rw [hcontent, map_some, getD_some, ← hsize]

theorem hasPrefix_ok (h : hasPrefix server bucket start world = (.ok false, after)) :
    ∀ key, start <+: key → world.objects.find bucket key = none := by
  obtain ⟨fate, middle, hrequest, hrest⟩ := Attempt.bind_eq_ok_iff.mp h
  have hsame := (@reads_request server world).1
  rw [hrequest] at hsame
  obtain ⟨objects, last, hbucket, hfound⟩ := Attempt.bind_eq_ok_iff.mp hrest
  obtain ⟨rfl, -, -⟩ := inBucket_ok hbucket
  have hempty := Except.ok.inj (Prod.mk.inj hfound).1
  rw [Bool.not_eq_false', List.isEmpty_iff] at hempty
  intro key hkey
  rw [← hsame]
  cases hcontent : middle.objects.find bucket key with
  | none => rfl
  | some content =>
    have hmem : (⟨key, content.length⟩ : Object) ∈ middle.objects.under bucket start :=
      mem_under.mpr ⟨hkey, content, hcontent, rfl⟩
    rw [hempty] at hmem
    exact absurd hmem not_mem_nil

theorem eachPage_ok {more : Nat} {objects : List Object}
    (h : eachPage server more objects world = (.ok found, after)) : found = objects := by
  induction more generalizing objects found world after with
  | zero =>
    obtain ⟨fate, middle, -, hrest⟩ := Attempt.bind_eq_ok_iff.mp h
    exact (Except.ok.inj (Prod.mk.inj hrest).1).symm
  | succ more ih =>
    obtain ⟨fate, middle, -, hrest⟩ := Attempt.bind_eq_ok_iff.mp h
    obtain ⟨rest, last, hpages, hfound⟩ := Attempt.bind_eq_ok_iff.mp hrest
    rw [ih hpages] at hfound
    rw [← Except.ok.inj (Prod.mk.inj hfound).1, take_append_drop]

theorem listAll_ok (h : listAll server bucket start world = (.ok found, after)) :
    found = world.objects.under bucket start := by
  obtain ⟨objects, middle, hbucket, hpages⟩ := Attempt.bind_eq_ok_iff.mp h
  obtain ⟨rfl, -, -⟩ := inBucket_ok hbucket
  exact eachPage_ok hpages

/-- One object was written, and nothing else changed. -/
structure Stored (world after : World) (bucket key : Name) (content : List UInt8) : Prop where
  find : ∀ b k, after.objects.find b k =
    if b = bucket ∧ k = key then some content else world.objects.find b k
  written : after.written = world.written ++ [(bucket, key)]

theorem store_cases (bucket key : Name) (content : List UInt8) (world : World) :
    (∃ error, store bucket key content world = (.error error, world)) ∨
      ∃ after, store bucket key content world = (.ok (), after) ∧
        Stored world after bucket key content := by
  rw [store]
  split
  · exact Or.inr ⟨_, rfl, fun _ _ => rfl, rfl⟩
  · exact Or.inl ⟨_, rfl⟩

theorem take_parts (content : List UInt8) (start size part : Nat) (hstart : start < size) :
    (content.drop start).take (min (start + part) size - start) ++
        (content.drop (min (start + part) size)).take (size - min (start + part) size) =
      (content.drop start).take (size - start) := by
  generalize hnext : min (start + part) size = next
  have hsum : size - start = (next - start) + (size - next) := by omega
  have hdrop : content.drop next = (content.drop start).drop (next - start) := by
    rw [drop_drop]
    congr 1
    omega
  rw [hdrop, hsum, take_add]

theorem copyParts_ok {part : Nat} {hpart : 0 < part} {source : Name} {size start : Nat}
    {copied : List UInt8}
    (h : copyParts server part hpart bucket source size start world = (.ok copied, after))
    {content : List UInt8} (hcontent : world.objects.find bucket source = some content) :
    copied = (content.drop start).take (size - start) := by
  induction hleft : size - start using Nat.strongRecOn generalizing start copied world after with
  | ind left ih =>
    rw [copyParts] at h
    split at h
    · rename_i hstart
      obtain ⟨fate, second, hrequest, hrest⟩ := Attempt.bind_eq_ok_iff.mp h
      obtain ⟨found, third, hfound, hrest⟩ := Attempt.bind_eq_ok_iff.mp hrest
      obtain ⟨rest, last, hparts, hcopied⟩ := Attempt.bind_eq_ok_iff.mp hrest
      have hsame := (@reads_request server world).1
      rw [hrequest] at hsame
      obtain ⟨hread, rfl⟩ := contentOf_ok hfound
      rw [hsame, hcontent] at hread
      obtain rfl := some.inj hread
      have hless := sub_min_lt hstart hpart
      have htail := ih _ (hleft ▸ hless) hparts (hsame ▸ hcontent) rfl
      obtain rfl := Except.ok.inj (Prod.mk.inj hcopied).1
      rw [htail, ← hleft, take_parts _ _ _ _ hstart]
    · rename_i hend
      obtain rfl := Except.ok.inj (Prod.mk.inj h).1
      rw [← hleft, Nat.sub_eq_zero_of_le (Nat.not_lt.mp hend)]
      rfl

theorem request_same (server : Nat → Fate) (world : World) :
    (request server world).2.objects = world.objects ∧
      (request server world).2.written = world.written := reads_request world

/-- A write that comes after steps that only read. -/
theorem Stored.of_same {key : Name} {content : List UInt8}
    (h : Stored middle after bucket key content)
    (hsame : middle.objects = world.objects ∧ middle.written = world.written) :
    Stored world after bucket key content :=
  ⟨fun b k => hsame.1 ▸ h.find b k, hsame.2 ▸ h.written⟩

/-- What a step leaves when it may write one object: nothing changed, or the object is
written; and on success it is. -/
def Writes (x : S3Op Unit) (bucket key : Name) (world : World) (content : List UInt8) : Prop :=
  Stored world (x world).2 bucket key content ∨
    (x world).1 ≠ .ok () ∧ (x world).2.objects = world.objects ∧ (x world).2.written = world.written

theorem Writes.of_reads {y : S3Op α} {f : α → S3Op Unit} {key : Name} {content : List UInt8}
    (hy : Reads y)
    (hf : ∀ a middle, y world = (.ok a, middle) → Writes (f a) bucket key middle content) :
    Writes (y >>= f) bucket key world content := by
  have hsame := hy world
  cases hresult : y world with
  | mk result middle =>
    rw [hresult] at hsame
    cases result with
    | error error =>
      refine Or.inr ?_
      rw [Attempt.bind_of_error hresult]
      exact ⟨nofun, hsame⟩
    | ok a =>
      rw [Writes, Attempt.bind_of_ok hresult]
      rcases hf a middle hresult with hstored | ⟨hfails, hafter⟩
      · exact Or.inl (hstored.of_same hsame)
      · exact Or.inr ⟨hfails, hafter.1.trans hsame.1, hafter.2.trans hsame.2⟩

theorem store_writes (bucket key : Name) (content : List UInt8) (world : World) :
    Writes (store bucket key content) bucket key world content := by
  rw [Writes]
  rcases store_cases bucket key content world with ⟨error, hstore⟩ | ⟨after, hstore, hstored⟩
  · rw [hstore]
    exact Or.inr ⟨nofun, rfl, rfl⟩
  · rw [hstore]
    exact Or.inl hstored

theorem Writes.perform {key : Name} {content : List UInt8}
    (h : ∀ fate middle, middle.objects = world.objects →
      Writes (effect fate) bucket key middle content) :
    Writes (perform server effect) bucket key world content := by
  have heffect := h (server world.sent) { world with sent := world.sent + 1 } rfl
  rw [Writes, S3.perform]
  rcases heffect with hstored | ⟨hfails, hsame⟩
  · have hworld : Stored world _ bucket key content := hstored.of_same ⟨rfl, rfl⟩
    split
    · split
      · exact Or.inl hworld
      · exact Or.inr ⟨nofun, rfl, rfl⟩
    · exact Or.inl hworld
  · split
    · split
      · exact Or.inr ⟨nofun, hsame⟩
      · exact Or.inr ⟨nofun, rfl, rfl⟩
    · exact Or.inr ⟨hfails, hsame⟩

theorem Writes.tried {x : S3Op Unit} {key : Name} {content : List UInt8}
    (h : Writes x bucket key world content) :
    Writes (x.attempt >>= fun copied =>
      match copied with
      | .ok () => pure ()
      | .error error => do
          let _ ← (request server).attempt
          Attempt.fail error) bucket key world content := by
  rw [Writes] at h ⊢
  cases hresult : x world with
  | mk result middle =>
    have hattempt : x.attempt world = (.ok result, middle) := by rw [Attempt.attempt, hresult]
    rw [Attempt.bind_of_ok hattempt]
    rw [hresult] at h
    cases result with
    | ok done => exact h
    | error error =>
      have hsame := request_same server middle
      rcases h with hstored | ⟨-, hafter⟩
      · exact Or.inl ⟨fun b k => hsame.1 ▸ hstored.find b k, hsame.2.trans hstored.written⟩
      · exact Or.inr ⟨nofun, hsame.1.trans hafter.1, hsame.2.trans hafter.2⟩

theorem copy_writes {bucket source toBucket target : Name} {content : List UInt8}
    (hcontent : world.objects.find bucket source = some content) :
    Writes (copy server bucket source toBucket target content.length) toBucket target world
      content := by
  rw [copy]
  split
  · refine Writes.perform fun _ middle hmiddle => ?_
    refine Writes.of_reads (reads_contentOf _ _) fun found third hfound => ?_
    obtain ⟨hread, -⟩ := contentOf_ok hfound
    rw [hmiddle, hcontent] at hread
    obtain rfl := some.inj hread
    exact store_writes _ _ _ _
  · refine Writes.of_reads reads_request fun _ second hrequest => ?_
    have hsecond := request_same server world
    rw [hrequest] at hsecond
    refine Writes.of_reads (reads_inBucket _) fun _ third hbucket => Writes.tried ?_
    obtain ⟨-, -, rfl⟩ := inBucket_ok hbucket
    refine Writes.of_reads (reads_copyParts _ _ _ _ _ _) fun copied fourth hcopied => ?_
    obtain rfl := copyParts_ok hcopied (hsecond.1 ▸ hcontent)
    rw [Nat.sub_zero, drop_zero, take_length]
    exact Writes.perform fun _ _ _ => store_writes _ _ _ _

/-- Some of the keys of a bucket are gone, and nothing else changed. -/
structure Deleted (world after : World) (bucket : Name) (keys : Name → Prop) : Prop where
  find : ∀ b k, after.objects.find b k = world.objects.find b k ∨
    b = bucket ∧ keys k ∧ after.objects.find b k = none
  written : after.written = world.written

theorem Deleted.of_same (h : after.objects = world.objects ∧ after.written = world.written) :
    Deleted world after bucket keys :=
  ⟨fun _ _ => Or.inl (h.1 ▸ rfl), h.2⟩

theorem Deleted.trans (hfirst : Deleted world middle bucket keys)
    (hsecond : Deleted middle after bucket keys) : Deleted world after bucket keys := by
  refine ⟨fun b k => ?_, hsecond.written.trans hfirst.written⟩
  rcases hsecond.find b k with hsame | hgone
  · rcases hfirst.find b k with hbefore | ⟨hb, hk, hnone⟩
    · exact Or.inl (hsame.trans hbefore)
    · exact Or.inr ⟨hb, hk, hsame.trans hnone⟩
  · exact Or.inr hgone

theorem Deleted.mono {more : Name → Prop} (h : Deleted world after bucket keys)
    (hkeys : ∀ key, keys key → more key) : Deleted world after bucket more :=
  ⟨fun b k => (h.find b k).imp_right fun ⟨hb, hk, hnone⟩ => ⟨hb, hkeys k hk, hnone⟩, h.written⟩

theorem deleted_erase (bucket : Name) (gone : Name → Bool) (world : World) :
    Deleted world (erase bucket gone world).2 bucket fun key => gone key = true := by
  refine ⟨fun b k => ?_, rfl⟩
  change (if b = bucket ∧ gone k then none else world.objects.find b k) = _ ∨
    _ ∧ _ ∧ (if b = bucket ∧ gone k then none else world.objects.find b k) = none
  by_cases h : b = bucket ∧ gone k = true
  · rw [if_pos h]
    exact Or.inr ⟨h.1, h.2, rfl⟩
  · rw [if_neg h]
    exact Or.inl rfl

theorem find_erase (bucket : Name) (gone : Name → Bool) (world : World) {key : Name}
    (h : gone key = true) : (erase bucket gone world).2.objects.find bucket key = none :=
  if_pos ⟨rfl, h⟩

/-- Two steps that delete some of the keys, or only read. -/
theorem Deleted.bind {f : α → Attempt World ε Unit} (hy : Deleted world (y world).2 bucket keys)
    (hf : ∀ a middle, y world = (.ok a, middle) → Deleted middle (f a middle).2 bucket keys) :
    Deleted world ((y >>= f) world).2 bucket keys := by
  cases hresult : y world with
  | mk result middle =>
    rw [hresult] at hy
    cases result with
    | error error =>
      rw [Attempt.bind_of_error hresult]
      exact hy
    | ok a =>
      rw [Attempt.bind_of_ok hresult]
      exact hy.trans (hf a middle hresult)

theorem Reads.deleted (h : Reads y) (world : World) (bucket : Name) (keys : Name → Prop) :
    Deleted world (y world).2 bucket keys :=
  .of_same (h world)

theorem Deleted.perform (h : ∀ fate middle, Deleted middle (effect fate middle).2 bucket keys) :
    Deleted world (perform server effect world).2 bucket keys := by
  have heffect := h (server world.sent) { world with sent := world.sent + 1 }
  rw [S3.perform]
  split
  · split
    · exact ⟨heffect.find, heffect.written⟩
    · exact .of_same ⟨rfl, rfl⟩
  · exact ⟨heffect.find, heffect.written⟩

/-- A request that is answered took effect. -/
theorem perform_ok (h : perform server effect world = (.ok (), after)) :
    effect (server world.sent) { world with sent := world.sent + 1 } = (.ok (), after) := by
  rw [perform] at h
  split at h
  · split at h <;> cases (Prod.mk.inj h).1
  · exact h

theorem reads_checkDeleted (fate : Fate) (chunk : List Name) : Reads (checkDeleted fate chunk) := by
  rw [checkDeleted]
  split
  · exact reads_fail _
  · exact reads_pure _

theorem checkDeleted_ok (h : checkDeleted fate chunk world = (.ok (), after)) :
    ∀ key ∈ chunk, fate.keeps key = false := by
  rw [checkDeleted] at h
  cases hfind : chunk.find? fate.keeps with
  | some key =>
    rw [hfind] at h
    cases (Prod.mk.inj h).1
  | none => exact fun key hkey => Bool.eq_false_iff.mpr (List.find?_eq_none.mp hfind key hkey)

theorem delete_deleted (bucket key : Name) (world : World) :
    Deleted world (delete server bucket key world).2 bucket (· = key) :=
  .perform fun _ _ => .bind ((reads_inBucket bucket).deleted _ _ _) fun _ middle _ =>
    (deleted_erase bucket _ middle).mono fun _ => of_decide_eq_true

theorem delete_ok {key : Name} (h : delete server bucket key world = (.ok (), after)) :
    after.objects.find bucket key = none := by
  obtain ⟨_, third, -, herase⟩ := Attempt.bind_eq_ok_iff.mp (perform_ok h)
  have hgone := find_erase bucket (fun other => decide (other = key)) third
    (decide_eq_true (rfl : key = key))
  rwa [herase] at hgone

theorem deleteBucket_deleted (bucket : Name) (keys : Name → Prop) (world : World) :
    Deleted world (deleteBucket server bucket world).2 bucket keys := by
  refine .perform fun _ _ => .bind ((reads_inBucket bucket).deleted _ _ _)
    fun objects third hbucket => ?_
  obtain ⟨rfl, -, rfl⟩ := inBucket_ok hbucket
  split
  · exact ⟨fun _ _ => Or.inl rfl, rfl⟩
  · exact .of_same ⟨rfl, rfl⟩

theorem deleteChunk_deleted (bucket : Name) (chunk : List Name) (fate : Fate) (world : World) :
    Deleted world (deleteChunk bucket chunk fate world).2 bucket (· ∈ chunk) := by
  refine .bind ((reads_inBucket bucket).deleted _ _ _) fun _ third _ =>
    .bind ((deleted_erase bucket _ third).mono fun key hgone => ?_) fun _ _ _ =>
    (reads_checkDeleted _ _).deleted _ _ _
  rw [Bool.and_eq_true, contains_iff_mem] at hgone
  exact hgone.1

theorem deleteChunk_ok (h : deleteChunk bucket chunk fate world = (.ok (), after)) :
    ∀ key ∈ chunk, after.objects.find bucket key = none := by
  obtain ⟨_, third, -, hrest⟩ := Attempt.bind_eq_ok_iff.mp h
  obtain ⟨_, fourth, herase, hchecked⟩ := Attempt.bind_eq_ok_iff.mp hrest
  have hread := (reads_checkDeleted fate chunk fourth).1
  rw [hchecked] at hread
  intro key hkey
  have hdropped : (chunk.contains key && !fate.keeps key) = true := by
    rw [Bool.and_eq_true, contains_iff_mem, Bool.not_eq_true']
    exact ⟨hkey, checkDeleted_ok hchecked key hkey⟩
  have hgone := find_erase bucket (fun key => chunk.contains key && !fate.keeps key) third hdropped
  rw [herase] at hgone
  rwa [hread]

theorem deleteMany_deleted (bucket : Name) (keys : List Name) (world : World) :
    Deleted world (deleteMany server bucket keys world).2 bucket (· ∈ keys) := by
  induction hlength : keys.length using Nat.strongRecOn generalizing keys world with
  | ind length ih =>
    rw [deleteMany]
    split
    · exact .of_same ⟨rfl, rfl⟩
    · rename_i hkeys
      have hless : (keys.drop 1000).length < length := by
        have hpos := length_pos_iff.mpr hkeys
        rw [length_drop]
        omega
      refine .bind (.perform fun fate middle => ?_) fun _ _ _ => ?_
      · exact (deleteChunk_deleted bucket (keys.take 1000) fate middle).mono fun _ =>
          mem_of_mem_take
      · exact (ih _ hless _ _ rfl).mono fun _ => mem_of_mem_drop

theorem Deleted.none {key : Name} (h : Deleted world after bucket keys)
    (hnone : world.objects.find bucket key = none) : after.objects.find bucket key = none := by
  rcases h.find bucket key with hsame | ⟨-, -, hgone⟩
  · exact hsame.trans hnone
  · exact hgone

/-- When nothing fails, all of them are gone. -/
theorem deleteMany_ok {bucket : Name} {keys : List Name}
    (h : deleteMany server bucket keys world = (.ok (), after)) :
    ∀ key ∈ keys, after.objects.find bucket key = none := by
  induction hlength : keys.length using Nat.strongRecOn generalizing keys world with
  | ind length ih =>
    rw [deleteMany] at h
    split at h
    · rename_i hkeys
      subst hkeys
      exact fun _ hkey => absurd hkey not_mem_nil
    · rename_i hkeys
      obtain ⟨_, middle, hchunk, hrest⟩ := Attempt.bind_eq_ok_iff.mp h
      have hless : (keys.drop 1000).length < length := by
        have hpos := length_pos_iff.mpr hkeys
        rw [length_drop]
        omega
      have hdeleted := @deleteMany_deleted server bucket (keys.drop 1000) middle
      rw [hrest] at hdeleted
      intro key hkey
      rw [← take_append_drop 1000 keys, mem_append] at hkey
      rcases hkey with hnow | hlater
      · exact hdeleted.none (deleteChunk_ok (perform_ok hchunk) key hnow)
      · exact ih _ hless hrest rfl key hlater

end Specs

end Opensesh.S3
