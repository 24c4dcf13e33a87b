import ApiContract.Checked

/-!
# Conventions of the generated files

The directories that generated files are put into, and the libraries that they import.
-/

namespace ApiContract.Codegen

structure Conventions where
  operations : String := "operations"
  models : String := "models"
  events : String := "events"
  deriving DecidableEq, Repr, Inhabited

def Conventions.check : Check Conventions := Check.model fun v =>
  Conventions.mk <$> Check.withDefault Check.text "operations" "operations" v
    <*> Check.withDefault Check.text "models" "models" v
    <*> Check.withDefault Check.text "events" "events" v

/-- The library of schema declarations. -/
def schemaLibrary : String := "@lssm/lib.schema"

/-- The library of contract declarations. -/
def contractLibrary : String := "@lssm/lib.contracts"

/-- An import of symbols from a module. -/
def importLine (symbols : List String) (source : String) : String :=
  "import \x7b " ++ ", ".intercalate symbols ++ " \x7d from '" ++ source ++ "';"

end ApiContract.Codegen
