import ApiContract.Value.Display
import ApiContract.Yaml.Style

/-!
# Writing YAML

A value is written in block form: a member or an item on a line of its own, two columns further in
per level, with the items of a list in the column of its key. Texts are broken at single spaces
behind column 80. A key that is long, empty or of several lines is marked with a question mark.
-/

namespace ApiContract.Yaml

/-- The text written so far, and where it ends. -/
structure Page where
  text : String := ""
  column : Nat := 0
  /-- Nothing but blanks stands before the end of the line, or a blank is not needed. -/
  blank : Bool := true
  /-- Only indentation and markers stand on the line. -/
  fresh : Bool := true

namespace Page

/-- Lines are broken behind this column. -/
def width : Nat := 80

def put (p : Page) (cs : List Char) : Page :=
  { p with text := p.text ++ String.ofList cs, column := p.column + cs.length }

/-- Ends the line with this character. -/
def endLine (p : Page) (c : Char) : Page := ⟨p.text.push c, 0, true, true⟩

/-- Goes to a column of a line on which nothing but markers stands. -/
def startLine (p : Page) (column : Nat) : Page :=
  let p :=
    if !p.fresh || column < p.column || (p.column == column && !p.blank) then p.endLine '\n' else p
  if p.column < column then
    { p.put (List.replicate (column - p.column) ' ') with blank := true }
  else p

/-- Writes a marker, with a blank before it where one is needed. -/
def mark (p : Page) (cs : List Char) : Page :=
  { p.put (if p.blank then cs else ' ' :: cs) with blank := false, fresh := false }

/-- Writes a marker that leaves the line open for more of them. -/
def openMark (p : Page) (c : Char) : Page :=
  { p.put (if p.blank then [c] else [' ', c]) with blank := false }

/-- Writes a marker without a blank before it. -/
def attach (p : Page) (c : Char) : Page := { p.put [c] with blank := false, fresh := false }

/-! ## Texts -/

/-- Runs of characters of one class: spaces, line ends, others. -/
def runs (cs : List Char) : List (List Char) :=
  cs.splitBy fun a b => (a == ' ') == (b == ' ') && Style.isBreak a == Style.isBreak b

/-- Whether a run is one space behind the last column. -/
def breaksAt (p : Page) (run : List Char) : Bool := run == [' '] && width < p.column

/-- A plain text; `indent` is the column of a continuation, none if the text must not be broken. -/
def putPlain (p : Page) (indent : Option Nat) (cs : List Char) : Page :=
  let p := if p.blank then p else p.put [' ']
  (runs cs).foldl (fun p run =>
    match indent with
    | some column =>
      if p.breaksAt run then { p.startLine column with blank := false, fresh := false }
      else p.put run
    | none => p.put run) { p with blank := false, fresh := false }

/-- The line ends of a text: a line feed is written twice where it begins a run. -/
def putBreaks (p : Page) (column : Nat) (run : List Char) : Page :=
  let p := if run.head? == some '\n' then p.endLine '\n' else p
  (run.foldl endLine p).startLine column

/-- The runs of a quoted text; the first and the last are not broken. -/
def putRuns (p : Page) (indent : Option Nat) (isFirst : Bool) : List (List Char) → Page
  | [] => p
  | run :: rest =>
    let p :=
      if run.any Style.isBreak then p.putBreaks (indent.getD 0) run
      else
        match indent with
        | some column =>
          if p.breaksAt run && !isFirst && !rest.isEmpty then p.startLine column
          else p.put (run.flatMap fun c => if c == '\'' then ['\'', '\''] else [c])
        | none => p.put (run.flatMap fun c => if c == '\'' then ['\'', '\''] else [c])
    p.putRuns indent false rest

def putSingle (p : Page) (indent : Option Nat) (cs : List Char) : Page :=
  ((p.mark ['\'']).putRuns indent true (runs cs)).attach '\''

/-- A line of an escaped text ends with a backslash; one that begins with a space, begins with a
backslash too. -/
def breakEscaped (p : Page) (column : Nat) (next : Option Char) : Page :=
  let p := { (p.put ['\\']).startLine column with blank := false, fresh := false }
  if next == some ' ' then p.put ['\\'] else p

/-- The rest of an escaped text; `pending` is the run not written yet, in reverse, and `isFirst`
tells the first character, behind which no line ends. -/
def putEscaped (p : Page) (indent : Option Nat) (pending : List Char) (isFirst : Bool) :
    List Char → Page
  | [] => p.put pending.reverse
  | c :: rest =>
    let breakable := !isFirst && !rest.isEmpty
    if isBare c then
      match indent with
      | some column =>
        if breakable && (c == ' ' || pending.isEmpty) && width < p.column + pending.length then
          ((p.put pending.reverse).breakEscaped column (some c)).putEscaped indent [c] false rest
        else p.putEscaped indent (c :: pending) false rest
      | none => p.putEscaped indent (c :: pending) false rest
    else
      let p := (p.put pending.reverse).put (escape c)
      match indent with
      | some column =>
        if breakable && width + 1 < p.column then
          (p.breakEscaped column rest.head?).putEscaped indent [] false rest
        else p.putEscaped indent [] false rest
      | none => p.putEscaped indent [] false rest

def putDouble (p : Page) (indent : Option Nat) (cs : List Char) : Page :=
  ((p.mark ['"']).putEscaped indent [] true cs).attach '"'

def putText (p : Page) (indent : Option Nat) (s : String) : Page :=
  match Style.ofText s with
  | .plain => p.putPlain indent s.toList
  | .single => p.putSingle indent s.toList
  | .double => p.putDouble indent s.toList

end Page

/-! ## Values -/

/-- A binary64 number, with a point in any case. -/
def doubleText : Double → List Char
  | .nan => ".nan".toList
  | .infinite negative => if negative then "-.inf".toList else ".inf".toList
  | x =>
    let cs := x.text.toList
    if cs.contains '.' then cs else cs.flatMap fun c => if c == 'e' then ['.', '0', 'e'] else [c]

/-- A scalar; `indent` is the column of its continuations. -/
def Page.putScalar (p : Page) (indent : Option Nat) : Scalar → Page
  | .str s => p.putText indent s
  | .null => p.putPlain indent "null".toList
  | .bool b => p.putPlain indent (if b then "true" else "false").toList
  | .float x => p.putPlain indent (doubleText x)
  | s => p.putPlain indent s.text.toList

/-- Whether a key can stand before its colon without a mark. -/
def isSimpleKey (key : Scalar) : Bool :=
  let cs := key.text.toList
  !cs.isEmpty && cs.length + 5 < 128 && !Style.isMultiline cs

/-- The column inside a node at `indent`; the root has none. -/
def within (indent : Option Nat) : Nat := (indent.map (· + 2)).getD 0

/-- The column of the continuation of a scalar in a node at `indent`. -/
def continuation (indent : Option Nat) : Nat := (indent.map (· + 2)).getD 2

mutual

/-- A node inside one at `indent`; `isMember` tells the value of a key. -/
def Page.putNode (p : Page) (indent : Option Nat) (isMember : Bool) : Value → Page
  | .scalar s => p.putScalar (some (continuation indent)) s
  | .list [] => (p.mark ['[']).attach ']'
  | .map [] => (p.mark ['\x7b']).attach '\x7d'
  | .list items =>
    let column := if isMember && !p.fresh then indent.getD 0 else within indent
    p.putItems column items
  | .map members => p.putMembers (within indent) members
  | .set items =>
    items.foldl (fun p s => ((p.startLine (within indent)).openMark '-').putScalar
      (some (continuation indent)) s) p

def Page.putItems (p : Page) (column : Nat) : List Value → Page
  | [] => p
  | v :: rest =>
    (((p.startLine column).openMark '-').putNode (some column) false v).putItems column rest

def Page.putMembers (p : Page) (column : Nat) : List (Scalar × Value) → Page
  | [] => p
  | (k, v) :: rest =>
    let p := p.startLine column
    let p :=
      if isSimpleKey k then (p.putScalar none k).attach ':'
      else
        let p := (p.openMark '?').putScalar (some (column + 2)) k
        (p.startLine column).openMark ':'
    (p.putNode (some column) true v).putMembers column rest

end

/-- The YAML text of a value. -/
def write (v : Value) : String := ((({} : Page).putNode none false v).startLine 0).text

end ApiContract.Yaml
