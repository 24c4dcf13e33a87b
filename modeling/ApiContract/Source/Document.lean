import ApiContract.OpenApi.Text
import ApiContract.Source.Cache
import ApiContract.Text.LetterCase

/-!
# Where documents come from

A document is named by an address, by the path of a file, or by a dash for the standard input
(`Origin.ofString`). The texts of addresses go through the cache: what the cache has is not fetched,
and what is fetched is kept (`fetchThrough`). The name of a document decides its format if it ends
like one, otherwise its text does.
-/

namespace ApiContract.Source

inductive Origin where
  | url (url : String)
  | standardInput
  | file (path : String)
  deriving DecidableEq, Repr

/-- Whether a name is the address of a remote document. -/
def isUrl (name : String) : Bool := name.startsWith "http://" || name.startsWith "https://"

def Origin.ofString (name : String) : Origin :=
  if isUrl name then .url name else if name = "-" then .standardInput else .file name

/-- How long a fetch may take, and whether it is given up before it begins when that is no time. -/
structure Patience where
  timeout : Double
  isStrict : Bool := false
  deriving DecidableEq, Repr

/-- Whether a time is over before it begins. -/
def isOver : Double → Bool
  | .nan => false
  | .infinite negative => negative
  | .finite negative significand _ => negative || significand == 0

def Remote.fetchWithin (remote : Remote) (patience : Patience) (url : String) : Fetched :=
  if patience.isStrict && isOver patience.timeout then
    ⟨[], .error (.fetch url (.timeout patience.timeout.general))⟩
  else remote.fetch url patience.timeout

/-- A fetch with a cache: what came of it, the cache after it, and whether the cache had the text. -/
structure CachedFetch where
  fetched : Fetched
  cache : Cache
  isHit : Bool

/-- The text of an address from the cache, or else from the remote. -/
def fetchThrough (cache : Cache) (remote : Remote) (patience : Patience) (url : String) :
    CachedFetch :=
  match cache.get? url with
  | some text => ⟨⟨[], .ok text⟩, cache, true⟩
  | none =>
    let fetched := remote.fetchWithin patience url
    match fetched.result with
    | .ok text => ⟨fetched, cache.set url text, false⟩
    | .error _ => ⟨fetched, cache, false⟩

/-- The format that a name ends like; a query behind it does not count. -/
def formatOfName (name : String) : Option OpenApi.TextFormat :=
  let stem := String.ofList ((Text.lower name).toList.takeWhile (· != '?'))
  if stem.endsWith ".yaml" || stem.endsWith ".yml" then some .yaml
  else if stem.endsWith ".json" then some .json
  else none

/-- The document that a text from a source holds. -/
def documentOf (name content : String) : Except Failure Value :=
  if Text.isBlankText content then .error (.document (.empty name))
  else OpenApi.readText content ((formatOfName name).getD (OpenApi.detectFormat content))

end ApiContract.Source
