import ApiContract.Failure
import ApiContract.Value.Display

/-!
# The version of a document

Documents of every version 3 are read; those of 3.1 are told apart from all others.
-/

namespace ApiContract.OpenApi

/-- The version text of a document that declares version 3. -/
def validateVersion (document : Value) : Except Failure String := do
  let .map members := document | throw .unexpected
  if let some version := Members.get? members "swagger" then
    throw (.document (.swagger version.text))
  match document.field "openapi" with
  | .null => throw (.document .versionMissing)
  | version =>
    let text := version.text
    if text.startsWith "3." then return text
    else throw (.document (.versionUnsupported text))

/-- `3.1` or `3.0`. -/
def detectVersion (document : Value) : Except Failure String := do
  let text ← validateVersion document
  return if text.startsWith "3.1" then "3.1" else "3.0"

end ApiContract.OpenApi
