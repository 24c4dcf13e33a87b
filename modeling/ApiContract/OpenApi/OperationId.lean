import ApiContract.Naming
import ApiContract.Text.LetterCase

/-!
# Generated operation ids

An operation without an id of its own gets one from its method and path: the method in small
letters, then every segment in Pascal case, with `By` before a parameter.
-/

namespace ApiContract.OpenApi

/-- The part of an id that a segment gives. -/
def segmentWord (segment : List Char) : String :=
  match segment with
  | '\x7b' :: rest =>
    if rest.getLast? = some '\x7d' then "By" ++ Naming.pascalCase (String.ofList rest.dropLast)
    else Naming.pascalCase (String.ofList segment)
  | _ => Naming.pascalCase (String.ofList segment)

def generateOperationId (method path : String) : String :=
  let segments := (path.toList.splitOn '/').filter (!·.isEmpty)
  Text.lower method ++ String.join (segments.map segmentWord)

end ApiContract.OpenApi
