import ApiContract.Failure
import ApiContract.Number.Reading
import ApiContract.Value.Size

/-!
# References

A document refers to its own parts by local pointers, `#/a/b/c`. A pointer is followed only when its
target is wanted, so a document may refer to itself; only a chain of references that comes back to a
pointer it has followed has no target, and fails. A pointer to another document, or to a part that
is missing or null, ends the chain at the reference that holds it.

`resolve` needs no more steps than the document has nodes: every reference after the first stands in
the document, and none is followed twice.
-/

namespace ApiContract

namespace Reference

/-- The pointer of a reference node: the text that a mapping has under `$ref`. -/
def pointer? (node : Value) : Option String := (node.get? "$ref").bind Value.str?

def isReference (node : Value) : Bool := (pointer? node).isSome

/-- A segment with its escapes `~1` and `~0` undone. -/
def unescape (segment : List Char) : String :=
  String.ofList (Text.replacePair '~' '0' '~' (Text.replacePair '~' '1' '/' segment))

/-- A place in a list; negative places count from the end. -/
def itemAt (items : List Value) (place : Int) : Option Value :=
  if 0 ≤ place then items[place.toNat]?
  else if place.natAbs ≤ items.length then items[items.length - place.natAbs]?
  else none

/-- One step down: a member by name, an item by number. -/
def step (node : Value) (segment : String) : Option Value :=
  match node with
  | .map members => Members.get? members segment
  | .list items => (Number.int? segment).bind (itemAt items)
  | _ => none

/-- The segments of a local pointer. -/
def segments? (pointer : String) : Option (List String) :=
  match pointer.toList with
  | '#' :: '/' :: rest => some ((rest.splitOn '/').map unescape)
  | _ => none

/-- The value a pointer leads to. A null value counts as missing. -/
def resolvePointer (document : Value) (pointer : String) : Option Value := do
  let segments ← segments? pointer
  let found ← segments.foldlM step document
  if found.isNull then none else some found

/-- Follows references from a node; `seen` holds the pointers followed, the last one first. -/
def follow (document : Value) : (fuel : Nat) → (seen : List String) → Value → Except Failure Value
  | 0, seen, _ => .error (.circularReference seen.reverse)
  | fuel + 1, seen, node =>
    match pointer? node with
    | none => .ok node
    | some pointer =>
      if seen.contains pointer then .error (.circularReference (pointer :: seen).reverse)
      else
        match resolvePointer document pointer with
        | none => .ok node
        | some target => follow document fuel (pointer :: seen) target

/-- The end of the chain of references that begins at a node. -/
def resolve (document node : Value) : Except Failure Value :=
  follow document (document.size + 2) [] node

/-- The name of what a pointer leads to: its last segment. -/
def name (pointer : String) : String :=
  unescape ((pointer.toList.splitOn '/').getLast?.getD [])

end Reference

end ApiContract
