import ApiContract.Json.Writer
import ApiContract.Value.Record

/-!
# Values in JSON without loss

JSON has no form for dates, bytes, sets and mappings whose keys are not texts, and one form for two
kinds of numbers. `Value.tagged` writes each of these as a record of one member, named for the kind.
The items of a set have no order of their own: they stand in the order of their texts.
-/

namespace ApiContract

def Scalar.tagged : Scalar → Value
  | .float x => record [("$float", .str x.text)]
  | .date d => record [("$date", .str d.text)]
  | .dateTime t => record [("$datetime", .str (t.text "T"))]
  | .bytes b => record [("$bytes", .str (String.ofList (b.flatMap fun x => Text.hex 2 x.toNat)))]
  | s => .scalar s

def Scalar.isText : Scalar → Bool
  | .str _ => true
  | _ => false

namespace Value

/-- The text that a value without dates, bytes and sets has on one line. -/
def jsonText (v : Value) : String := (Json.write? .line v).getD "null"

def taggedSet (items : List Scalar) : Value :=
  let entries := items.map fun s => (s.tagged.jsonText, s.tagged)
  record [("$set", .list ((entries.mergeSort fun a b => a.1 ≤ b.1).map (·.2)))]

mutual

def tagged : Value → Value
  | .scalar s => s.tagged
  | .list items => .list (taggedItems items)
  | .set items => taggedSet items
  | .map members =>
    if members.all (·.1.isText) then .map (taggedMembers members)
    else record [("$map", .list (taggedPairs members))]

def taggedItems : List Value → List Value
  | [] => []
  | v :: rest => v.tagged :: taggedItems rest

def taggedMembers : List (Scalar × Value) → List (Scalar × Value)
  | [] => []
  | (k, v) :: rest => (k, v.tagged) :: taggedMembers rest

def taggedPairs : List (Scalar × Value) → List Value
  | [] => []
  | (k, v) :: rest => .list [k.tagged, v.tagged] :: taggedPairs rest

end

end Value

end ApiContract
