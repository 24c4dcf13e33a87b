import ApiContract.Checked
import ApiContract.Json.Writer

/-!
# Changes

One difference between two trees, at a path of keys joined by points. `report` writes changes one
per line, with the values before and after below. The options of a comparison say what is left out
when specs are compared, and how loosely they are paired.
-/

namespace ApiContract.Drift

inductive ChangeKind where
  | added
  | removed
  | modified
  | typeChanged
  | requiredChanged
  deriving DecidableEq, Repr

namespace ChangeKind

def name : ChangeKind → String
  | .added => "added"
  | .removed => "removed"
  | .modified => "modified"
  | .typeChanged => "type_changed"
  | .requiredChanged => "required_changed"

def all : List ChangeKind := [.added, .removed, .modified, .typeChanged, .requiredChanged]

def check : Check ChangeKind := Check.word (all.map fun k => (k.name, k))

/-- The sign of a kind in reports. -/
def sign : ChangeKind → String
  | .added => "+"
  | .removed => "-"
  | .modified => "~"
  | .typeChanged => "!"
  | .requiredChanged => "?"

/-- Whether a change of the kind breaks those who rely on the old state. -/
def isBreaking : ChangeKind → Bool
  | .removed | .typeChanged | .requiredChanged => true
  | .added | .modified => false

end ChangeKind

structure Change where
  path : String
  kind : ChangeKind
  /-- The values before and after; null stands for none. -/
  old : Value
  new : Value
  description : String
  deriving DecidableEq, Repr

open Check in
def Change.check : Check Change := model fun v =>
  Change.mk <$> required text "path" v
    <*> required ChangeKind.check "type" v
    <*> withDefault any .null "old_value" v
    <*> withDefault any .null "new_value" v
    <*> required text "description" v

/-- The JSON text of a value in a report. -/
def valueText (v : Value) : Except Failure String :=
  match Json.write? .report v with
  | some text => .ok text
  | none => .error .unexpected

/-- The lines of a change. -/
def Change.lines (c : Change) : Except Failure (List String) := do
  let head := s!"{c.kind.sign} {c.path}: {c.description}"
  match c.kind with
  | .added => return [head, "    value: " ++ (← valueText c.new)]
  | .removed => return [head, "    was: " ++ (← valueText c.old)]
  | .modified | .typeChanged | .requiredChanged =>
    return [head, "    old: " ++ (← valueText c.old), "    new: " ++ (← valueText c.new)]

/-- The report on some changes. -/
def report (changes : List Change) : Except Failure String := do
  if changes.isEmpty then return "No changes detected"
  return "\n".intercalate (← changes.mapM Change.lines).flatten

/-! ## Options -/

/-- How imported specs are paired with existing ones. -/
inductive MatchPolicy where
  | exact
  | contains
  deriving DecidableEq, Repr

def MatchPolicy.name : MatchPolicy → String
  | .exact => "exact"
  | .contains => "contains"

def MatchPolicy.all : List MatchPolicy := [.exact, .contains]

def MatchPolicy.ofName? (s : String) : Option MatchPolicy := all.find? (·.name == s)

structure Options where
  ignoreDescriptions : Bool := false
  ignoreTags : Bool := false
  ignoreTransport : Bool := false
  /-- Paths that begin like one of these are left out. -/
  ignorePaths : List String := []
  policy : MatchPolicy := .exact
  deriving DecidableEq, Repr, Inhabited

open Check in
def Options.check : Check Options := model fun v =>
  Options.mk <$> withDefault bool false "ignore_descriptions" v
    <*> withDefault bool false "ignore_tags" v
    <*> withDefault bool false "ignore_transport" v
    <*> withDefault (list text) [] "ignore_paths" v
    <*> withDefault (word (MatchPolicy.all.map fun p => (p.name, p))) .exact "match" v

end ApiContract.Drift
