import ApiContract.Failure
import ApiContract.Text.Blank

/-!
# Paths and trees of files

A path is a sequence of names behind an anchor. Empty names and single dots do not count, so
`./a//b` and `a/b` are one path. Two dots are a name like any other: what they lead to is for the
files to say.

Files and directories by their place, which is the names on the way from the root. A path is
followed name by name (`follow`): two dots lead back, and every name but the last must be that of a
directory. Writing a file makes the directories that it needs, and a write that fails changes
nothing.
-/

namespace ApiContract.Files

/-! ## Paths -/

structure Path where
  /-- The slashes in front: none, one, or exactly two. -/
  anchor : String := ""
  parts : List String := []
  deriving DecidableEq, Repr, Inhabited

namespace Path

/-- The texts between the slashes; `part` is the current one, in reverse. -/
def split (part : List Char) : List Char → List (List Char)
  | [] => [part.reverse]
  | c :: rest => if c = '/' then part.reverse :: split [] rest else split (c :: part) rest

/-- Two slashes in front are an anchor of their own, three and more are the same as one. -/
def anchorOf (cs : List Char) : String :=
  match (cs.takeWhile (· == '/')).length with
  | 0 => ""
  | 2 => "//"
  | _ => "/"

/-- Whether a text between slashes is a name. -/
def isName (s : String) : Bool := s != "" && s != "."

def ofString (s : String) : Path where
  anchor := anchorOf s.toList
  parts := ((split [] s.toList).map String.ofList).filter isName

/-- The path as it is written; a path of nothing is the single dot. -/
def text (p : Path) : String :=
  if p.anchor = "" ∧ p.parts = [] then "." else p.anchor ++ "/".intercalate p.parts

/-- A path taken from another one. An anchored path stands for itself. -/
def join (base p : Path) : Path :=
  if p.anchor = "" then { base with parts := base.parts ++ p.parts } else p

/-- The path that a text leads to from a path. -/
def child (base : Path) (s : String) : Path := base.join (ofString s)

/-- The last name. -/
def name (p : Path) : String := p.parts.getLast?.getD ""

/-- The end of the last name from its last dot on. A dot at either end of the name starts none. -/
def suffix (p : Path) : String :=
  let cs := p.name.toList
  let extension := (cs.reverse.takeWhile (· != '.')).reverse
  let stem := cs.length - extension.length
  if extension.isEmpty || stem ≤ 1 then "" else String.ofList ('.' :: extension)

theorem join_of_anchor_eq {base p : Path} (h : p.anchor = "") :
    base.join p = { base with parts := base.parts ++ p.parts } := if_pos h

end Path

/-! ## Trees -/

inductive Entry where
  | file (text : String)
  | directory
  deriving DecidableEq, Repr

/-- The names on the way to an entry, from the root. -/
abbrev Place := List String

structure Tree where
  entries : List (Place × Entry) := []
  deriving DecidableEq, Repr, Inhabited

namespace Tree

/-- The most bytes that a name may have. -/
def maxNameSize : Nat := 255

/-- The bytes of a name beyond those of the file while the file is being written under another one. -/
def draftSize : Nat := 14

/-- The entry at a place; the root is a directory. -/
def lookup (t : Tree) (place : Place) : Option Entry :=
  if place = [] then some .directory else t.entries.lookup place

def isDirectory (t : Tree) (place : Place) : Bool := t.lookup place == some .directory

/-- Puts an entry at a place. -/
def set (t : Tree) (place : Place) (entry : Entry) : Tree :=
  ⟨(place, entry) :: t.entries.filter (·.1 != place)⟩

/-- The place that a name leads to. -/
def step (here : Place) (name : String) : Place :=
  if name = ".." then here.dropLast else here ++ [name]

/-- The place that names lead to from a directory, `none` if one on the way is no directory. The
place itself need not hold anything. -/
def follow (t : Tree) (here : Place) : List String → Except Failure (Option Place)
  | [] => .ok (some here)
  | name :: rest =>
    if !t.isDirectory here then .ok none
    else if maxNameSize < name.utf8ByteSize then .error .unexpected
    else t.follow (step here name) rest

/-- No file has a name with the null character in it. -/
def isPossible (p : Path) : Bool := p.parts.all fun name => !name.toList.contains '\x00'

/-- The entry that a path leads to. -/
def find? (t : Tree) (p : Path) : Except Failure (Option Entry) := do
  if !isPossible p then return none
  return (← t.follow [] p.parts).bind t.lookup

/-- The text of the file that a path leads to, with plain line ends. -/
def read? (t : Tree) (p : Path) : Except Failure (Option String) := do
  match ← t.find? p with
  | some (.file text) => return some (String.ofList (Text.unifyLineEnds text.toList))
  | _ => return none

/-- The tree with directories along some names, and the place that they lead to. -/
def makeDirectories (t : Tree) (here : Place) : List String → Except Failure (Tree × Place)
  | [] => .ok (t, here)
  | name :: rest =>
    let next := step here name
    if maxNameSize < name.utf8ByteSize then .error .unexpected
    else
      match t.lookup next with
      | some .directory => t.makeDirectories next rest
      | some (.file _) => .error .unexpected
      | none => (t.set next .directory).makeDirectories next rest

/-- Writes a file. Nothing but a file may stand at its place. -/
def write (t : Tree) (p : Path) (text : String) : Except Failure Tree := do
  let name := p.name
  if !isPossible p || name = "" || name = ".." || maxNameSize < name.utf8ByteSize + draftSize then
    throw .unexpected
  let (t, directory) ← t.makeDirectories [] p.parts.dropLast
  let place := directory ++ [name]
  if t.isDirectory place then throw .unexpected
  return t.set place (.file text)

/-- The files below a place by the text of their path from it, in the order of these texts. -/
def filesBelow (t : Tree) (place : Place) : List (String × String) :=
  let files := t.entries.filterMap fun (p, entry) =>
    match entry with
    | .file text =>
      if place.isPrefixOf p then some ("/".intercalate (p.drop place.length), text) else none
    | .directory => none
  files.mergeSort fun a b => a.1 ≤ b.1

@[simp] theorem lookup_set_self {t : Tree} {place : Place} {entry : Entry} (h : place ≠ []) :
    (t.set place entry).lookup place = some entry := by
  simp [lookup, set, h]

end Tree

end ApiContract.Files
