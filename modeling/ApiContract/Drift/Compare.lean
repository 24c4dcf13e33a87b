import ApiContract.Drift.Change
import ApiContract.Named
import ApiContract.Value.Display

/-!
# Comparing trees

`compare` tells whether two values are the same and classifies their difference. `compareTrees` goes
down two mappings together: the keys of the old one first, then those that only the new one has. A
list is one value, but a list of required names is a set.
-/

namespace ApiContract.Drift

/-! ## Equality of values -/

/-- The kinds that a comparison tells apart. -/
inductive Kind where
  | null
  | boolean
  | number
  | text
  | date
  | time
  | bytes
  | array
  | object
  | set
  deriving DecidableEq, Repr

def kindOf : Value → Kind
  | .scalar leaf =>
    match leaf with
    | .null => .null
    | .bool _ => .boolean
    | .int _ | .float _ => .number
    | .str _ => .text
    | .date _ => .date
    | .dateTime _ => .time
    | .bytes _ => .bytes
  | .list _ => .array
  | .map _ => .object
  | .set _ => .set

/-- Equality of leaves of one kind. What is no number equals nothing. -/
def sameLeaf (a b : Scalar) : Bool :=
  kindOf (.scalar a) == kindOf (.scalar b) && a != .float .nan && a.sameKey b

/-- Whether two sets have the same elements. -/
def sameSet (a b : List Scalar) : Bool :=
  a.all (fun x => b.any x.sameKey) && b.all (fun x => a.any x.sameKey)

mutual

/-- Equality of values, in which a value of one kind never equals one of another. -/
def same : (old new : Value) → Bool
  | .scalar a, .scalar b => sameLeaf a b
  | .list a, .list b => sameItems a b
  | .map a, .map b => a.length == b.length && sameMembers b a
  | .set a, .set b => sameSet a b
  | _, _ => false

def sameItems : (old new : List Value) → Bool
  | [], [] => true
  | a :: as, b :: bs => same a b && sameItems as bs
  | _, _ => false

/-- Whether a mapping has every member of another. -/
def sameMembers (new : Members) : (old : List (Scalar × Value)) → Bool
  | [] => true
  | (k, v) :: rest =>
    (match Members.find? new k with
      | some w => same v w
      | none => false) && sameMembers new rest

end

/-! ## Changes of values -/

/-- How two values differ, where null stands for none. -/
def changeKind (old new : Value) : ChangeKind :=
  if old.isNull then .added
  else if new.isNull then .removed
  else if kindOf old ≠ kindOf new then .typeChanged
  else .modified

/-- The change from one value to another, if they differ. -/
def compare (path : String) (old new : Value) (description : String) : Option Change :=
  if same old new then none else some ⟨path, changeKind old new, old, new, description⟩

/-! ## Required names -/

/-- The names in a list of names; an absent or empty value is an empty list. -/
def names? (v : Value) : Option (List String) :=
  if !v.isTruthy then some []
  else
    match v with
    | .list items => items.mapM Value.str?
    | _ => none

/-- The names as a sorted list without repetition. -/
def sortedNames (names : List String) : List String :=
  (Distinct.ofList names).mergeSort fun a b => decide (a ≤ b)

/-- The change from one set of required names to another, if they differ. -/
def compareNames (path : String) (old new : List String) : Option Change :=
  let old := sortedNames old
  let new := sortedNames new
  if old = new then none
  else some {
    path
    kind := .requiredChanged
    old := .list (old.map .str)
    new := .list (new.map .str)
    description := s!"Required fields changed at {path}" }

/-! ## Trees -/

/-- What a comparison leaves out. -/
structure Scope where
  /-- Paths that begin like one of these. -/
  ignoredPaths : List String := []
  /-- Members named `description`. -/
  ignoreDescriptions : Bool := false
  deriving DecidableEq, Repr

/-- Whether a path begins like one of these. -/
def isIgnored (paths : List String) (path : String) : Bool :=
  paths.any fun p => p.toList.isPrefixOf path.toList

/-- Whether a member is left out. -/
def Scope.excludes (scope : Scope) (path : String) (key : Scalar) : Bool :=
  isIgnored scope.ignoredPaths path ||
    (scope.ignoreDescriptions && key.sameKey (.str "description"))

/-- The path of a member. -/
def memberPath (path : String) (key : Scalar) : String :=
  if path.isEmpty then key.text else path ++ "." ++ key.text

/-- The changes of a member that is no mapping on both sides. -/
def compareMember (path : String) (key : Scalar) (old new : Value) : List Change :=
  let change :=
    match key.sameKey (.str "required"), names? old, names? new with
    | true, some old, some new => compareNames path old new
    | _, _, _ => compare path old new s!"Changed {path}"
  change.toList

/-- The changes for the keys that only the new mapping has. -/
def addedMembers (scope : Scope) (path : String) (old new : Members) : List Change :=
  (new.filter fun (k, _) => !Members.contains old k).flatMap fun (k, w) =>
    let path := memberPath path k
    if scope.excludes path k then [] else compareMember path k .null w

mutual

/-- The changes from one value to another under a key. -/
def compareUnder (scope : Scope) (path : String) (key : Scalar) (new : Value) :
    (old : Value) → List Change
  | .map old =>
    match new with
    | .map new => keptMembers scope path new old ++ addedMembers scope path old new
    | new => compareMember path key (.map old) new
  | old => compareMember path key old new

/-- The changes for the keys of the old mapping. -/
def keptMembers (scope : Scope) (path : String) (new : Members) :
    (old : List (Scalar × Value)) → List Change
  | [] => []
  | (k, v) :: rest =>
    let path' := memberPath path k
    (if scope.excludes path' k then []
      else compareUnder scope path' k ((Members.find? new k).getD .null) v) ++
      keptMembers scope path new rest

end

/-- The changes from one mapping to another at a path. -/
def compareMembers (scope : Scope) (path : String) (old new : Members) : List Change :=
  keptMembers scope path new old ++ addedMembers scope path old new

/-- The changes between two mappings that may be absent. -/
def compareTrees (scope : Scope) (path : String) (old new : Option Members) : List Change :=
  match old, new with
  | none, none => []
  | none, some new => [⟨path, .added, .null, .map new, s!"Added {path}"⟩]
  | some old, none => [⟨path, .removed, .map old, .null, s!"Removed {path}"⟩]
  | some old, some new => compareMembers scope path old new

/-- The changes between two values at a path. Values other than mappings can only be compared as
long as there is nothing in them to compare. -/
def compareValues (scope : Scope) (path : String) (old new : Value) :
    Except Failure (List Change) := do
  match old, new with
  | .null, .null => return []
  | .null, new => return [⟨path, .added, .null, new, s!"Added {path}"⟩]
  | old, .null => return [⟨path, .removed, old, .null, s!"Removed {path}"⟩]
  | .map old, .map new => return compareMembers scope path old new
  | old, new =>
    let some olds := old.elements? | throw .unexpected
    let some news := new.elements? | throw .unexpected
    let skipped (v : Value) : Bool :=
      match v with
      | .scalar key => scope.excludes (memberPath path key) key
      | v => isIgnored scope.ignoredPaths
          (if path.isEmpty then v.text else path ++ "." ++ v.text)
    if (olds ++ news).all skipped then return [] else throw .unexpected

end ApiContract.Drift
