import ApiContract.Number.Shortest
import ApiContract.Text.Quoted
import ApiContract.Value.Basic

/-!
# The text of a value

`Value.text` is what a value reads as where a text is wanted: a text as it is, anything else as its
literal form. `Value.literal` quotes texts, and writes lists and mappings with their items in
brackets and braces.
-/

namespace ApiContract

/-- The literal form of an offset from universal time. -/
def offsetLiteral (minutes : Int) : String :=
  if minutes = 0 then "datetime.timezone.utc"
  else
    let seconds := minutes * 60
    let delta := if seconds < 0 then s!"days=-1, seconds={seconds + 86400}" else s!"seconds={seconds}"
    s!"datetime.timezone(datetime.timedelta({delta}))"

def Date.literal (d : Date) : String := s!"datetime.date({d.year}, {d.month}, {d.day})"

def DateTime.literal (t : DateTime) : String :=
  let seconds :=
    if t.microsecond ≠ 0 then s!", {t.second}, {t.microsecond}"
    else if t.second ≠ 0 then s!", {t.second}"
    else ""
  let zone := (t.offset.map fun o => ", tzinfo=" ++ offsetLiteral o).getD ""
  s!"datetime.datetime({t.date.year}, {t.date.month}, {t.date.day}, {t.hour}, {t.minute}" ++
    seconds ++ zone ++ ")"

namespace Scalar

def literal : Scalar → String
  | .null => "None"
  | .bool b => if b then "True" else "False"
  | .int n => toString n
  | .float x => x.text
  | .str s => Text.quoted s
  | .date d => d.literal
  | .dateTime t => t.literal
  | .bytes b => Text.quotedBytes b

/-- A text as it is, a date in its own notation, anything else literally. -/
def text : Scalar → String
  | .str s => s
  | .date d => d.text
  | .dateTime t => t.text " "
  | s => s.literal

end Scalar

namespace Value

mutual

def literal : Value → String
  | .scalar s => s.literal
  | .list items => "[" ++ ", ".intercalate (itemLiterals items) ++ "]"
  | .map members => "\x7b" ++ ", ".intercalate (memberLiterals members) ++ "\x7d"
  | .set [] => "set()"
  | .set items => "\x7b" ++ ", ".intercalate (items.map Scalar.literal) ++ "\x7d"

def itemLiterals : List Value → List String
  | [] => []
  | v :: rest => v.literal :: itemLiterals rest

def memberLiterals : List (Scalar × Value) → List String
  | [] => []
  | (k, v) :: rest => (k.literal ++ ": " ++ v.literal) :: memberLiterals rest

end

def text : Value → String
  | .scalar s => s.text
  | v => v.literal

@[simp] theorem text_str (s : String) : (Value.str s).text = s := rfl

end Value

end ApiContract
