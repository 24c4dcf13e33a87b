import ApiContract.Text.CaseTable
import ApiContract.Text.Printable

/-!
# Capital and small letters

`upper` and `lower` map a whole text by the full Unicode case maps: a letter may become a sequence,
and a capital sigma at the end of a word becomes the final small one. On ASCII texts both agree with
the maps of `Char`.
-/

namespace ApiContract.Text

/-- The image of a code point under a table of runs. -/
def shiftByRuns (runs : List (Nat × Nat × Nat × Int)) (n : Nat) : Option Char :=
  runs.findSome? fun (first, last, step, shift) =>
    if first ≤ n ∧ n ≤ last ∧ (n - first) % step = 0 then some (Char.ofNat (n + shift).toNat)
    else none

/-- The image of a character under the two tables of one direction. -/
def mapCase (runs : List (Nat × Nat × Nat × Int)) (sequences : List (Nat × List Nat)) (c : Char) :
    List Char :=
  match sequences.lookup c.toNat with
  | some image => image.map Char.ofNat
  | none => [(shiftByRuns runs c.toNat).getD c]

def upperChar (c : Char) : List Char :=
  if c.toNat < 0x80 then [c.toUpper] else mapCase upperRuns upperSequences c

def lowerChar (c : Char) : List Char :=
  if c.toNat < 0x80 then [c.toLower] else mapCase lowerRuns lowerSequences c

def upper (s : String) : String := String.ofList (s.toList.flatMap upperChar)

/-- Whether the nearest character that counts is a cased letter. -/
def meetsCased (cs : List Char) : Bool :=
  match cs.dropWhile fun c => inRanges caseIgnorableRanges c.toNat with
  | [] => false
  | c :: _ => inRanges casedRanges c.toNat

/-- Small letters of a text whose characters before it are given in reverse. -/
def lowerFrom (before : List Char) : List Char → List Char
  | [] => []
  | c :: rest =>
    let image :=
      if c = 'Σ' then [if meetsCased before && !meetsCased rest then 'ς' else 'σ'] else lowerChar c
    image ++ lowerFrom (c :: before) rest

def lower (s : String) : String := String.ofList (lowerFrom [] s.toList)

/-- Small letters for ASCII capitals only: enough to compare with a text of ASCII letters that no
other character maps into. -/
def lowerAscii (s : String) : String := String.ofList (s.toList.map Char.toLower)

end ApiContract.Text
