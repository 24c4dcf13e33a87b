import ApiContract.Yaml.Node

/-!
# Reading YAML

`Yaml.read` gives the value of a text: the value of its document's tree, or null for a text without
one. Members of a mapping that is merged in stand before its own members, and its own members win.
A key must not be a list, a mapping or a set.

A faulty term is reported in the order of the levels of the tree: a fault in an outer collection
comes before one in an inner collection, on one level the first in the text.
-/

namespace ApiContract.Yaml

/-- A fault, and the level of the collection it is in. -/
structure Misfit where
  level : Nat
  fault : Fault

abbrev Built (α : Type) := Except Misfit α

/-- Both values, or the fault that comes first. -/
def both {α β : Type} (a : Except Misfit α) (b : Except Misfit β) : Except Misfit (α × β) :=
  match a, b with
  | .ok a, .ok b => .ok (a, b)
  | .error m, .error n => .error (if n.level < m.level then n else m)
  | .error m, .ok _ => .error m
  | .ok _, .error n => .error n

namespace Node

mutual

/-- The members of a mapping, with those merged in before them; `none` if what is merged is neither
a mapping nor a list of mappings. A key `=` is a text. -/
def mergedMembers : Node → Option (List (Node × Node))
  | .mapping _ members => do
    let (merged, own) ← splitMerges members
    some (merged ++ own)
  | _ => none

/-- Members to merge in and own members. -/
def splitMerges : List (Node × Node) → Option (List (Node × Node) × List (Node × Node))
  | [] => some ([], [])
  | (k, v) :: rest => do
    let found ← if k.tag = .merge then some <$> mergeSource v else some none
    let (merged, own) ← splitMerges rest
    match found, k with
    | some members, _ => some (members ++ merged, own)
    | none, .scalar .value text => some (merged, (.scalar .str text, v) :: own)
    | none, _ => some (merged, (k, v) :: own)

/-- The members that the value of a merge key gives; later mappings of a list come first. -/
def mergeSource : Node → Option (List (Node × Node))
  | .mapping _ members => do
    let (merged, own) ← splitMerges members
    some (merged ++ own)
  | .sequence _ items => mergeItems items
  | .scalar _ _ => none

def mergeItems : List Node → Option (List (Node × Node))
  | [] => some []
  | item :: rest => do
    let members ← mergedMembers item
    let others ← mergeItems rest
    some (others ++ members)

end

/-- The text of a node that stands for a scalar: a mapping may have one under the key `=`. -/
def scalarText? : Node → Option String
  | .scalar _ s => some s
  | .mapping _ members =>
    match members.find? fun (k, _) => k.tag = .value with
    | some (_, .scalar _ s) => some s
    | _ => none
  | .sequence _ _ => none

/-- A value as a key. -/
def asKey (level : Nat) : Value → Except Misfit Scalar
  | .scalar s => .ok s
  | _ => .error ⟨level, .malformed⟩

/-- The value of a node at a level of the tree. Fuel bounds the depth. -/
def value : (fuel : Nat) → (level : Nat) → Node → Except Misfit Value
  | 0, level, _ => .error ⟨level, .malformed⟩
  | fuel + 1, level, n =>
    let malformed : Except Misfit Value := .error ⟨level, .malformed⟩
    let inner := level + 1
    let members (n : Node) : Except Misfit (List (Scalar × Value)) :=
      match n.mergedMembers with
      | none => .error ⟨inner, .malformed⟩
      | some pairs =>
        pairs.foldr (fun (k, v) rest =>
          let key := (value fuel inner k).bind (asKey inner)
          (both (both key (value fuel inner v)) rest).map fun (pair, rest) => pair :: rest)
          (.ok [])
    let pair (item : Node) : Except Misfit Value :=
      match item with
      | .mapping _ [(k, v)] =>
        (both (value fuel inner k) (value fuel inner v)).map fun (k, v) => .list [k, v]
      | _ => .error ⟨inner, .malformed⟩
    let each (f : Node → Except Misfit Value) (items : List Node) : Except Misfit (List Value) :=
      items.foldr (fun item rest => (both (f item) rest).map fun (v, rest) => v :: rest) (.ok [])
    match n.tag, n with
    | .seq, .sequence _ items => (each (value fuel inner) items).map .list
    | .omap, .sequence _ items | .pairs, .sequence _ items => (each pair items).map .list
    | .map, .mapping _ _ => (members n).map fun ms => .map (Members.ofList ms)
    | .set, .mapping _ _ => (members n).map fun ms => .set ((Members.ofList ms).map (·.1))
    | .seq, _ | .omap, _ | .pairs, _ | .map, _ | .set, _ => .error ⟨inner, .malformed⟩
    | tag, n =>
      match n.scalarText? with
      | none => malformed
      | some s =>
        match tag.scalarValue s with
        | .ok leaf => .ok (.scalar leaf)
        | .error fault => .error ⟨level, fault⟩

mutual

/-- The height of a tree. -/
def height : Node → Nat
  | .scalar _ _ => 1
  | .sequence _ items => itemsHeight items + 1
  | .mapping _ members => membersHeight members + 1

def itemsHeight : List Node → Nat
  | [] => 0
  | n :: rest => max n.height (itemsHeight rest)

def membersHeight : List (Node × Node) → Nat
  | [] => 0
  | (k, v) :: rest => max (max k.height v.height) (membersHeight rest)

end

end Node

/-- The value of a text. -/
def read (text : String) : Except Fault Value := do
  let (tokens, fault) := Token.scan text
  match ← Node.ofTokens tokens fault with
  | none => .ok .null
  | some root =>
    match root.value (root.height + 1) 0 with
    | .ok v => .ok v
    | .error misfit => .error misfit.fault

end ApiContract.Yaml
