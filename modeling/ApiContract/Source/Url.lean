import ApiContract.Text.LetterCase
import ApiContract.Text.Quoted

/-!
# Addresses

The parts of an address, the address that a reference leads to from another one, and the form in
which an address is asked: small letters in scheme and host, no default port, no dots in the path,
and percent signs for the bytes of all characters that a part cannot hold.
-/

namespace ApiContract.Source

structure Url where
  scheme : String := ""
  host : String := ""
  path : String := ""
  query : Option String := none
  fragment : Option String := none
  deriving DecidableEq, Repr, Inhabited

namespace Url

/-- Cuts before the first character of a class. -/
def span (stop : Char → Bool) (cs : List Char) : List Char × List Char :=
  (cs.takeWhile fun c => !stop c, cs.dropWhile fun c => !stop c)

/-- The text behind a mark, if the mark is there. -/
def behind (mark : Char) : List Char → Option (List Char)
  | c :: rest => if c = mark then some rest else none
  | [] => none

def isSchemeChar (c : Char) : Bool := c.isAlphanum || c == '+' || c == '.' || c == '-'

/-- The scheme in front of a text, and the rest. -/
def splitScheme (cs : List Char) : List Char × List Char :=
  match span (!isSchemeChar ·) cs with
  | (scheme, ':' :: rest) =>
    if scheme.head?.any Char.isAlpha then (scheme, rest) else ([], cs)
  | _ => ([], cs)

def ofString (s : String) : Url :=
  let (scheme, rest) := splitScheme s.toList
  let (host, rest) := match rest with
    | '/' :: '/' :: rest => span (fun c => c == '/' || c == '?' || c == '#') rest
    | rest => ([], rest)
  let (path, rest) := span (fun c => c == '?' || c == '#') rest
  let query := (behind '?' rest).map fun cs => (span (· == '#') cs).1
  let fragment := behind '#' (span (· == '#') rest).2
  { scheme := String.ofList scheme
    host := String.ofList host
    path := String.ofList path
    query := query.map String.ofList
    fragment := fragment.map String.ofList }

def text (u : Url) : String :=
  let marked (mark : String) (part : Option String) := (part.map (mark ++ ·)).getD ""
  (if u.scheme = "" then "" else u.scheme ++ ":") ++ (if u.host = "" then "" else "//" ++ u.host) ++
    u.path ++ marked "?" u.query ++ marked "#" u.fragment

/-! ## References -/

/-- The names of a path without those that only say where to go; `done` is in reverse. -/
def walk (done : List String) : List String → List String
  | [] => done.reverse
  | [name] =>
    if name = "." then ("" :: done).reverse
    else if name = ".." then ("" :: done.drop 1).reverse
    else (name :: done).reverse
  | name :: rest =>
    if name = "." then walk done rest
    else if name = ".." then walk (done.drop 1) rest
    else walk (name :: done) rest

/-- A path without single and double dots. -/
def plainPath (path : String) : String :=
  match path.splitOn "/" with
  | "" :: rest => if path = "" then "" else "/" ++ "/".intercalate (walk [] rest)
  | names => "/".intercalate (walk [] names)

/-- The directory of a path, up to its last slash. -/
def directory (path : String) : String :=
  String.ofList (path.toList.reverse.dropWhile (· != '/')).reverse

/-- The address that a reference leads to from an address. -/
def resolve (base reference : Url) : Url :=
  if reference.scheme ≠ "" then { reference with path := plainPath reference.path }
  else if reference.host ≠ "" then
    { reference with scheme := base.scheme, path := plainPath reference.path }
  else if reference.path = "" then
    { base with
      query := if reference.query.isSome then reference.query else base.query
      fragment := reference.fragment }
  else
    let path :=
      if reference.path.startsWith "/" then reference.path
      else if base.path = "" then "/" ++ reference.path
      else directory base.path ++ reference.path
    { base with path := plainPath path, query := reference.query, fragment := reference.fragment }

/-! ## The form that is asked -/

def hexDigits (cs : List Char) : Bool := cs.length == 2 && cs.all fun c =>
  c.isDigit || ('a' ≤ c && c ≤ 'f') || ('A' ≤ c && c ≤ 'F')

/-- The bytes of a character as percent signs with two digits each. -/
def percent (c : Char) : List Char :=
  c.toString.toUTF8.toList.flatMap fun b =>
    '%' :: (Text.hex 2 b.toNat).map Char.toUpper

/-- A part of an address; `unsafeChars` are what the part cannot hold among the visible characters. What
is written with percent signs already is kept. -/
def encodePart (unsafeChars : String) : List Char → List Char
  | [] => []
  | c :: rest =>
    let keep :=
      if c = '%' then hexDigits (rest.take 2)
      else 0x20 ≤ c.toNat && c.toNat < 0x7F && !unsafeChars.toList.contains c
    (if keep then [c] else percent c) ++ encodePart unsafeChars rest

def encode (unsafeChars s : String) : String := String.ofList (encodePart unsafeChars s.toList)

/-- The port that need not be written for a scheme. -/
def defaultPort? (scheme : String) : Option String :=
  [("ftp", ":21"), ("http", ":80"), ("https", ":443"), ("ws", ":80"), ("wss", ":443")].lookup scheme

def plainHost (scheme host : String) : String :=
  let host := Text.lower host
  match defaultPort? scheme with
  | some port =>
    if host.endsWith port then String.ofList (host.toList.take (host.length - port.length)) else host
  | none => host

/-- The form in which an address is asked. -/
def normal (u : Url) : Url :=
  let scheme := Text.lower u.scheme
  { scheme
    host := plainHost scheme u.host
    path := encode " \"#<>?\x60\x7b\x7d" (plainPath u.path)
    query := u.query.map (encode " \"#<>")
    fragment := u.fragment.map (encode " \"<>\x60") }

end Url

end ApiContract.Source
