import ApiContract.Codegen.Conventions
import ApiContract.Config.Global

/-!
# The configuration of a project

Settings beside the sources of a project. All are optional, and those that are there win over the
global ones. Members that are no settings are kept.
-/

namespace ApiContract.Config

open Codegen (Conventions)
open Contract (Stability AuthLevel)

structure Project where
  outputDir : Option String := none
  dialect : Option Codegen.Dialect := none
  conventions : Conventions := {}
  namePrefix : Option String := none
  owners : Option (List String) := none
  stability : Option Stability := none
  auth : Option AuthLevel := none
  /-- The members that are no settings, in order. -/
  extra : List (String × Value) := []
  deriving DecidableEq, Repr, Inhabited

def conventionsValue (c : Conventions) : Value :=
  .map [member "operations" (.str c.operations), member "models" (.str c.models),
    member "events" (.str c.events)]

namespace Project

/-- The name of the type in messages. -/
def modelName : String := "ProjectConfig"

def settingNames : List String :=
  ["output_dir", "schema_format", "conventions", "prefix", "default_owners", "default_stability",
    "default_auth"]

/-- The members of a file that are no settings. -/
def extraOf : Value → List (String × Value)
  | .map members => members.filterMap fun (k, v) =>
    match k with
    | .str name => if settingNames.contains name then none else some (name, v)
    | _ => none
  | _ => []

open Check in
def check : Check Project := model fun v =>
  Project.mk <$> perhaps text "output_dir" v
    <*> perhaps Codegen.Dialect.check "schema_format" v
    <*> withDefault Conventions.check {} "conventions" v
    <*> perhaps text "prefix" v
    <*> perhaps (list text) "default_owners" v
    <*> perhaps Stability.check "default_stability" v
    <*> perhaps AuthLevel.check "default_auth" v
    <*> .ok (extraOf v)

/-- The settings that are there, and the other members unless they are null. -/
def toValue (p : Project) : Value :=
  .map <| memberIf "output_dir" .str p.outputDir ++
    memberIf "schema_format" (fun d : Codegen.Dialect => .str d.name) p.dialect ++
    [member "conventions" (conventionsValue p.conventions)] ++
    memberIf "prefix" .str p.namePrefix ++
    memberIf "default_owners" texts p.owners ++
    memberIf "default_stability" (fun s : Stability => .str s.name) p.stability ++
    memberIf "default_auth" (fun a : AuthLevel => .str a.name) p.auth ++
    (p.extra.filter (!·.2.isNull)).map fun (name, v) => member name (plain v)

/-- All settings, with null for those that are not there, and the other members by themselves. -/
def fields (p : Project) : Value := record [
  ("output_dir", orNull .str p.outputDir),
  ("schema_format", orNull (fun d : Codegen.Dialect => .str d.name) p.dialect),
  ("conventions", conventionsValue p.conventions), ("prefix", orNull .str p.namePrefix),
  ("default_owners", orNull texts p.owners),
  ("default_stability", orNull (fun s : Stability => .str s.name) p.stability),
  ("default_auth", orNull (fun a : AuthLevel => .str a.name) p.auth),
  ("extra", record p.extra)]

def text (p : Project) : String := fileText p.toValue

/-- The configuration that a project's file has, if there is a file. -/
def ofFile (path : String) : Option String → Except Failure (Option Project)
  | some text => some <$> readFile check "project" modelName path text
  | none => .ok none

end Project

end ApiContract.Config
