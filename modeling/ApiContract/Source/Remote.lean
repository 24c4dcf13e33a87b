import ApiContract.Failure
import ApiContract.Number.Shortest
import ApiContract.Source.Url

/-!
# Remote documents

A remote is what the net answers to each address. A document is fetched by asking for its address
and following redirections; only an answer of success carries a document.
-/

namespace ApiContract.Source

inductive Answer where
  | response (status : Nat) (body : String) (location : Option String)
  | timedOut
  | unreachable (cause : String)
  deriving DecidableEq, Repr

/-- The answer to each address. -/
structure Remote where
  answer : String → Answer

/-- The redirections that are followed. -/
def maxRedirections : Nat := 20

/-- The reason that goes with a status. -/
def reasons : List (Nat × String) := [
  (100, "Continue"), (101, "Switching Protocols"), (102, "Processing"), (103, "Early Hints"),
  (200, "OK"), (201, "Created"), (202, "Accepted"), (203, "Non-Authoritative Information"),
  (204, "No Content"), (205, "Reset Content"), (206, "Partial Content"), (207, "Multi-Status"),
  (208, "Already Reported"), (226, "IM Used"),
  (300, "Multiple Choices"), (301, "Moved Permanently"), (302, "Found"), (303, "See Other"),
  (304, "Not Modified"), (305, "Use Proxy"), (307, "Temporary Redirect"),
  (308, "Permanent Redirect"),
  (400, "Bad Request"), (401, "Unauthorized"), (402, "Payment Required"), (403, "Forbidden"),
  (404, "Not Found"), (405, "Method Not Allowed"), (406, "Not Acceptable"),
  (407, "Proxy Authentication Required"), (408, "Request Timeout"), (409, "Conflict"),
  (410, "Gone"), (411, "Length Required"), (412, "Precondition Failed"),
  (413, "Request Entity Too Large"), (414, "Request-URI Too Long"),
  (415, "Unsupported Media Type"), (416, "Requested Range Not Satisfiable"),
  (417, "Expectation Failed"), (418, "I'm a teapot"), (421, "Misdirected Request"),
  (422, "Unprocessable Entity"), (423, "Locked"), (424, "Failed Dependency"), (425, "Too Early"),
  (426, "Upgrade Required"), (428, "Precondition Required"), (429, "Too Many Requests"),
  (431, "Request Header Fields Too Large"), (451, "Unavailable For Legal Reasons"),
  (500, "Internal Server Error"), (501, "Not Implemented"), (502, "Bad Gateway"),
  (503, "Service Unavailable"), (504, "Gateway Timeout"), (505, "HTTP Version Not Supported"),
  (506, "Variant Also Negotiates"), (507, "Insufficient Storage"), (508, "Loop Detected"),
  (510, "Not Extended"), (511, "Network Authentication Required")]

/-- The reason of a status, empty for a status that has none. -/
def reason (status : Nat) : String := (reasons.lookup status).getD ""

def isRedirection (status : Nat) : Bool := [301, 302, 303, 307, 308].contains status

/-- What came of asking: all addresses that were asked, and a text or the failure. -/
structure Fetched where
  requested : List String
  result : Except Failure String

/-- The result of an answer that is not followed further. -/
def resultOf (url timeout : String) : Answer → Except Failure String
  | .response status body _ =>
    if 200 ≤ status ∧ status < 300 then .ok body
    else .error (.fetch url (.status status (reason status)))
  | .timedOut => .error (.fetch url (.timeout timeout))
  | .unreachable cause => .error (.fetch url (.transport cause))

/-- The address of a redirection. One with a scheme and no host keeps the host that was asked. -/
def redirected (asked : Url) (location : String) : Url :=
  let target := Url.ofString location
  let target :=
    if target.scheme ≠ "" ∧ target.host = "" then { target with host := asked.host } else target
  let next := (asked.resolve target).normal
  if next.fragment.isNone then { next with fragment := asked.fragment } else next

namespace Remote

/-- Asks for an address, and for those that it is redirected to. `url` and `timeout` say in messages
what was wanted. -/
def ask (remote : Remote) (url timeout : String) (asked : Url) : (hops : Nat) → Fetched
  | 0 => ⟨[asked.text],
      match remote.answer asked.text with
      | .response status body (some location) =>
        if isRedirection status then
          .error (.fetch url (.transport "Exceeded maximum allowed redirects."))
        else resultOf url timeout (.response status body (some location))
      | answer => resultOf url timeout answer⟩
  | hops + 1 =>
    match remote.answer asked.text with
    | .response status body (some location) =>
      if isRedirection status then
        let more := remote.ask url timeout (redirected asked location) hops
        { more with requested := asked.text :: more.requested }
      else ⟨[asked.text], resultOf url timeout (.response status body (some location))⟩
    | answer => ⟨[asked.text], resultOf url timeout answer⟩

/-- Whether an address can be asked: it has no control characters. -/
def isAskable (url : String) : Bool :=
  url.toList.all fun c => 0x20 ≤ c.toNat && c.toNat ≠ 0x7F

/-- The text at an address. -/
def fetch (remote : Remote) (url : String) (timeout : Double) : Fetched :=
  if isAskable url then
    remote.ask url timeout.general (Url.ofString url).normal maxRedirections
  else ⟨[], .error .unexpected⟩

end Remote

end ApiContract.Source
