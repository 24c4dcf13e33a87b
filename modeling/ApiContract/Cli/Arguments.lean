import ApiContract.Named

/-!
# Options and arguments

How the words of a command line are told apart. A word with a dash in front holds options: two
dashes and a name, or one dash and letters that stand for one option each. The value of an option
is what follows it in its word, or else the next word, whatever that looks like. Two dashes alone
end the options.
-/

namespace ApiContract.Cli

structure OptionRule where
  /-- The name, which two dashes go in front of. -/
  name : String
  letter : Option Char := none
  takesValue : Bool := false
  deriving DecidableEq, Repr

/-- What a command line holds: its options in order, with the values of those that take one, and
the other words. -/
structure Given where
  options : List (String × String) := []
  words : List String := []
  deriving DecidableEq, Repr, Inhabited

namespace Given

def has (g : Given) (name : String) : Bool := g.options.any (·.1 == name)

/-- All values of an option. -/
def values (g : Given) (name : String) : List String :=
  (g.options.filter (·.1 == name)).map (·.2)

/-- The value of an option; the last one counts. -/
def value? (g : Given) (name : String) : Option String := (g.values name).getLast?

/-- All values of an option that is given at all. -/
def values? (g : Given) (name : String) : Option (List String) :=
  let values := g.values name
  if values.isEmpty then none else some values

def addOptions (g : Given) (options : List (String × String)) : Given :=
  { g with options := options ++ g.options }

def addWord (g : Given) (word : String) : Given := { g with words := word :: g.words }

end Given

/-- The options in one word: all that they need is there, or the last one needs the next word. -/
inductive WordOptions where
  | complete (options : List (String × String))
  | pending (options : List (String × String)) (name : String)
  deriving DecidableEq, Repr

def WordOptions.add (name : String) : WordOptions → WordOptions
  | .complete options => .complete ((name, "") :: options)
  | .pending options last => .pending ((name, "") :: options) last

/-- The options that letters behind one dash stand for. -/
def letterOptions (rules : List OptionRule) : List Char → Option WordOptions
  | [] => some (.complete [])
  | c :: rest => do
    let rule ← rules.find? (·.letter == some c)
    if rule.takesValue then
      if rest.isEmpty then some (.pending [] rule.name)
      else some (.complete [(rule.name, String.ofList rest)])
    else (letterOptions rules rest).map (·.add rule.name)

/-- The option behind two dashes, with its value if the word has one. -/
def namedOption (rules : List OptionRule) (cs : List Char) : Option WordOptions := do
  let name := String.ofList (cs.takeWhile (· != '='))
  let value := (cs.dropWhile (· != '=')).tail?.map String.ofList
  let rule ← rules.find? (·.name == name)
  match rule.takesValue, value with
  | true, some value => some (.complete [(name, value)])
  | true, none => some (.pending [] name)
  | false, none => some (.complete [(name, "")])
  | false, some _ => none

/-- The options in a word with a dash in front. -/
def wordOptions (rules : List OptionRule) : List Char → Option WordOptions
  | '-' :: '-' :: name => namedOption rules name
  | '-' :: letters => letterOptions rules letters
  | _ => none

/-- Whether a word holds options; a dash alone is a word like any other. -/
def isOption (word : String) : Bool := word.startsWith "-" && word != "-"

/-- Tells options and other words apart. Where options stand first (`mixed` is false), the first
other word ends them. -/
def parseWords (rules : List OptionRule) (mixed : Bool) : List String → Option Given
  | [] => some {}
  | word :: rest =>
    if word = "--" then some { words := rest }
    else if isOption word then
      match wordOptions rules word.toList, rest with
      | some (.complete options), rest => (parseWords rules mixed rest).map (·.addOptions options)
      | some (.pending options name), value :: rest =>
        (parseWords rules mixed rest).map (·.addOptions (options ++ [(name, value)]))
      | some (.pending _ _), [] | none, _ => none
    else if mixed then (parseWords rules mixed rest).map (·.addWord word)
    else some { words := word :: rest }

end ApiContract.Cli
