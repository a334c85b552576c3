/-
What differs between the two sides of a conflict, record by record, and the
version built from the choices of side.
-/
import Opensesh.Document

namespace Opensesh

/-- How a record differs between the two sides. -/
inductive Change where
  | onlyHere
  | onlyThere
  | different

/-- One difference; `id` is empty for a plain value. -/
structure Difference where
  sectionName : String
  id : String
  name : String
  change : Change

/-- Which side a difference takes. -/
inductive Side where
  | here
  | there

/-- The key by which a section's records are compared, when it has records. -/
def differenceKey (ours theirs : Option Value) : Option String :=
  match ours.bind Value.asArray, theirs.bind Value.asArray with
  | some items, some others => recordKey [items, others]
  | some items, none => recordKey [items]
  | none, some others => recordKey [others]
  | none, none => none

/-- The elements of a section that is an array. -/
def itemsOf (value : Option Value) : List Value := (value.bind Value.asArray).getD []

def plainChange : Option Value → Option Value → Change
  | some _, none => .onlyHere
  | none, some _ => .onlyThere
  | _, _ => .different

/-- What a record of this side makes of itself. -/
def hereDifference (sectionName key : String) (theirs : List Value)
    (item : Value) : Option Difference :=
  let id := recordId item key
  match findKey (recordId · key) id theirs with
  | none => some ⟨sectionName, id, recordName item, .onlyHere⟩
  | some other =>
    if same other item then none
    else some ⟨sectionName, id, recordName item, .different⟩

/-- What a record of the other side makes of itself. -/
def thereDifference (sectionName key : String) (ours : List Value)
    (item : Value) : Option Difference :=
  let id := recordId item key
  if ours.any fun mine => recordId mine key == id then none
  else some ⟨sectionName, id, recordName item, .onlyThere⟩

/-- The differences of one top-level key. -/
def sectionDifferences (sectionName : String) (ours theirs : Option Value) : List Difference :=
  if sameOpt ours theirs then []
  else
    match differenceKey ours theirs with
    | none => [⟨sectionName, "", "", plainChange ours theirs⟩]
    | some key =>
      (itemsOf ours).filterMap (hereDifference sectionName key (itemsOf theirs)) ++
        (itemsOf theirs).filterMap (thereDifference sectionName key (itemsOf ours))

def differences (here there : Table) : List Difference :=
  let keys := here.map Prod.fst ++ (there.map Prod.fst).filter fun key => (here.lookup key).isNone
  keys.flatMap fun key => sectionDifferences key (here.lookup key) (there.lookup key)

/-- The side a difference takes when the user doesn't choose. -/
def defaultSide : Change → Side
  | .onlyThere => .there
  | .onlyHere | .different => .here

/-- The user's choices, by section and id. -/
abbrev Choices := String × String → Option Side

def Choices.side (choices : Choices) (difference : Difference) : Side :=
  (choices (difference.sectionName, difference.id)).getD (defaultSide difference.change)

/-- The key under which a record of either side has this id. -/
def itemKey (here there : Option Value) (id : String) : String :=
  let has := fun (value : Option Value) (key : String) =>
    (itemsOf value).any fun item => recordId item key == id
  (["id", "path"].find? fun key => has here key || has there key).getD "id"

def editItems (key id : String) (wanted : Side) (theirItem : Option Value)
    (items : List Value) : List Value :=
  let position := items.findIdx? fun item => decide (recordId item key = id)
  match wanted, position, theirItem with
  | .there, some place, some item => items.set place item
  | .there, some place, none => items.eraseIdx place
  | .there, none, some item => items ++ [item]
  | _, _, _ => items

/-- One turn of the loop of `resolve`. -/
def applyDifference (here there : Table) (choices : Choices) (out : Table)
    (difference : Difference) : Table :=
  let name := difference.sectionName
  let wanted := choices.side difference
  if difference.id = "" then
    match wanted with
    | .here => out
    | .there =>
      match there.lookup name with
      | some value => insertEntry name value out
      | none => removeEntry name out
  else
    let key := itemKey (here.lookup name) (there.lookup name) difference.id
    let theirItem := findKey (recordId · key) difference.id (itemsOf (there.lookup name))
    -- A missing section is made here, whichever side is wanted.
    match (out.lookup name).getD (.array []) with
    | .array items =>
      insertEntry name (.array (editItems key difference.id wanted theirItem items)) out
    | _ => out

def resolve (here there : Table) (choices : Choices) : Table :=
  (differences here there).foldl (applyDifference here there choices) here

end Opensesh
