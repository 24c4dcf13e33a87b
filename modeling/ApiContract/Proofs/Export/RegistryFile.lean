import ApiContract.Export.RegistryFile
import ApiContract.Proofs.Codegen.Lines
import ApiContract.Proofs.Contract.Registry
import ApiContract.Proofs.Naming.Names
import Mathlib

/-!
# The symbols of a registry file

The symbol of a contract is its name in Pascal case, with an underscore in front of a digit and the
number of its version behind it. All of it can be read off the symbol again, except that a first
version has no number: a name may itself end in what looks like one.

A registry file imports the class of its registry and the symbol of every spec, and registers the
symbols one by one, both in the order of the listing. So each spec has a symbol of its own, and is
registered once, exactly if no two specs of the registry share one. Versions of one name never do;
specs of different names may.

* **`guarded_eq_append_iff`** / **`versionMark_append_inj`** — what a symbol hides: nothing but where its
  name ends.
* **`exportName_eq_iff`** — the contracts that share a symbol.
* **`importedSymbols_registryCode`** / **`registeredSymbols_registryCode`** — what a file imports and
  registers.
* **`nodup_symbols_iff`** — when the symbols differ.
* **`registry_symbols_distinct_iff`** — the headline.
-/

namespace ApiContract.Naming

/-! ## Names in Pascal case as identifiers -/

theorem validIdentifier_pascalCase (s : String) :
    validIdentifier (pascalCase s) = guarded (pascalCase s).toList := by
  have hcleaned : cleaned (pascalCase s) = (pascalCase s).toList :=
    cleaned_of_part fun c hc => isIdentifierPart_of_isAlphanum (isAlphanum_of_mem_pascalCase hc)
  have hfree : guarded (pascalCase s).toList ∉ reservedWords := by
    intro h
    obtain ⟨c, hc, hupper⟩ := toUpper_ne_of_mem_moduleWords _ (List.mem_cons_of_mem _ h)
    cases hcs : (pascalCase s).toList with
    | nil =>
      rw [hcs] at hc
      cases hc
      exact hupper rfl
    | cons d rest =>
      rw [hcs, guarded, String.toList_ofList] at hc
      split at hc
      · cases hc
        exact hupper rfl
      · cases hc
        exact hupper (toUpper_head_pascalCase (by rw [hcs]; rfl))
  rw [validIdentifier_eq, hcleaned, if_neg hfree]

/-- Texts of letters and digits, one of them with something behind it, are told apart as identifiers:
the underscore of a text stands for nothing, or for the digit that it begins with. -/
theorem guarded_eq_append_iff {xs ys zs : List Char} (hx : ∀ c ∈ xs, c.isAlphanum = true)
    (hy : ∀ c ∈ ys, c.isAlphanum = true) (hz : ∀ c, zs.head? = some c → c.isDigit = false) :
    guarded xs = guarded ys ++ String.ofList zs ↔ xs = ys ++ zs ∧ (ys = [] → zs = []) := by
  have hletter : ∀ {c : Char} {cs : List Char}, (∀ d ∈ c :: cs, d.isAlphanum = true) → c ≠ '_' := by
    rintro c cs h rfl
    exact absurd (h '_' List.mem_cons_self) (by decide)
  rw [← String.toList_inj, String.toList_append, String.toList_ofList]
  cases xs with
  | nil =>
    cases ys with
    | nil => simp [guarded]
    | cons d ys =>
      have hd := hletter hy
      cases hdigit : d.isDigit <;> simp [guarded, hdigit, Ne.symm hd]
  | cons c xs =>
    have hc := hletter hx
    cases ys with
    | nil =>
      have hnone : ¬ (c :: xs = [] ++ zs ∧ (([] : List Char) = [] → zs = [])) := by
        rintro ⟨heq, hnil⟩
        rw [hnil rfl] at heq
        cases heq
      refine iff_of_false ?_ hnone
      cases hdigit : c.isDigit with
      | false => simp [guarded, hdigit, hc]
      | true =>
        have hhead : c :: xs ≠ zs := by
          rintro rfl
          rw [hz c rfl] at hdigit
          cases hdigit
        simp [guarded, hdigit, hhead]
    | cons d ys =>
      have hd := hletter hy
      -- only where both begin with a digit, or neither does
      cases hdigit : c.isDigit with
      | false =>
        cases hdigit' : d.isDigit with
        | false => simp [guarded, hdigit, hdigit']
        | true =>
          have hne : c ≠ d := by
            rintro rfl
            rw [hdigit] at hdigit'
            cases hdigit'
          simp [guarded, hdigit, hdigit', hc, hne]
      | true =>
        cases hdigit' : d.isDigit with
        | false =>
          have hne : c ≠ d := by
            rintro rfl
            rw [hdigit] at hdigit'
            cases hdigit'
          simp [guarded, hdigit, hdigit', Ne.symm hd, hne]
        | true => simp [guarded, hdigit, hdigit']

/-! ## Versions -/

theorem versionMark_one : versionMark 1 = "" := if_pos rfl

theorem toList_versionMark {version : Int} (h : version ≠ 1) :
    (versionMark version).toList = 'V' :: (toString version).toList := by
  unfold versionMark
  rw [if_neg h, String.toList_append]
  rfl

/-- **The number of a later version** is read off the end of a symbol. -/
theorem versionMark_append_inj {a b : String} {m n : Int} (hm : m ≠ 1) (hn : n ≠ 1)
    (h : a ++ versionMark m = b ++ versionMark n) : m = n := by
  have hbehind : ∀ n : Int, 'V' ∉ (toString n).toList := by
    intro n hmem
    rcases Text.mem_toString_int hmem with hdigit | hminus
    · exact absurd hdigit (by decide)
    · exact absurd hminus (by decide)
  have hlist := congrArg String.toList h
  rw [String.toList_append, String.toList_append, toList_versionMark hm, toList_versionMark hn]
    at hlist
  have hnumber := (Text.append_cons_inj_of_last (hbehind m) (hbehind n) hlist).2
  rw [String.toList_inj, Int.toString_eq_repr, Int.toString_eq_repr] at hnumber
  exact Int.repr_injective hnumber

/-! ## Symbols -/

/-- A first version whose name reads like the name and number of a later version. -/
structure ReadsAsVersion (a : String) (m : Int) (b : String) (n : Int) : Prop where
  first : m = 1
  later : n ≠ 1
  name : pascalCase b ≠ ""
  reads : pascalCase a = pascalCase b ++ versionMark n

theorem not_readsAsVersion_self {a : String} {m n : Int} : ¬ ReadsAsVersion a m a n := by
  intro h
  have hlength := congrArg String.length h.reads
  rw [String.length_append] at hlength
  have hmark : (versionMark n).toList.length = 0 := by
    rw [String.length_toList]
    omega
  rw [toList_versionMark h.later] at hmark
  cases hmark

/-- Contracts that cannot be told apart by their symbols: one version of names that are one in Pascal
case, or a name that reads like a later version of another one. -/
def Clash (a : String) (m : Int) (b : String) (n : Int) : Prop :=
  m = n ∧ pascalCase a = pascalCase b ∨ ReadsAsVersion a m b n ∨ ReadsAsVersion b n a m

/-- Identifiers of names in Pascal case, one of them with a version behind it. -/
theorem validIdentifier_eq_append_iff (a b : String) (n : Int) :
    validIdentifier (pascalCase a) = validIdentifier (pascalCase b) ++ versionMark n
      ↔ pascalCase a = pascalCase b ++ versionMark n ∧ (pascalCase b = "" → n = 1) := by
  have halnum : ∀ s : String, ∀ c ∈ (pascalCase s).toList, c.isAlphanum = true :=
    fun _ _ => isAlphanum_of_mem_pascalCase
  have hmark : ∀ c, (versionMark n).toList.head? = some c → c.isDigit = false := by
    intro c hc
    by_cases hn : n = 1
    · subst hn
      cases hc
    · rw [toList_versionMark hn] at hc
      cases hc
      rfl
  have hfirst : (versionMark n).toList = [] ↔ n = 1 := by
    constructor
    · intro hnil
      refine Decidable.byContradiction fun hn => ?_
      rw [toList_versionMark hn] at hnil
      cases hnil
    · rintro rfl
      rfl
  have hiff := guarded_eq_append_iff (halnum a) (halnum b) hmark
  rw [String.ofList_toList, hfirst, String.toList_eq_nil_iff, ← String.toList_append,
    String.toList_inj] at hiff
  rw [validIdentifier_pascalCase, validIdentifier_pascalCase, hiff]

/-- **The contracts that share a symbol.** -/
theorem exportName_eq_iff {a b : String} {m n : Int} :
    exportName a m = exportName b n ↔ Clash a m b n := by
  rw [exportName_eq, exportName_eq, ← String.append_assoc, ← String.append_assoc,
    String.append_left_inj]
  unfold Clash
  by_cases hmn : m = n
  · -- one version: the names are compared alone
    subst hmn
    have hsame := validIdentifier_eq_append_iff a b 1
    rw [versionMark_one, String.append_empty, String.append_empty] at hsame
    have hnone : ∀ a b : String, ¬ ReadsAsVersion a m b m := fun _ _ h => h.later h.first
    rw [String.append_left_inj, hsame]
    simp [hnone]
  · by_cases hm : m = 1
    · subst hm
      have hn : n ≠ 1 := fun h => hmn h.symm
      have hnone : ¬ ReadsAsVersion b n a 1 := fun h => h.later rfl
      rw [versionMark_one, String.append_empty, validIdentifier_eq_append_iff]
      constructor
      · rintro ⟨hreads, hempty⟩
        exact .inr (.inl ⟨rfl, hn, fun h => hn (hempty h), hreads⟩)
      · rintro (⟨h, -⟩ | h | h)
        · exact absurd h hmn
        · exact ⟨h.reads, fun hempty => absurd hempty h.name⟩
        · exact absurd h hnone
    · by_cases hn : n = 1
      · subst hn
        have hnone : ¬ ReadsAsVersion a m b 1 := fun h => h.later rfl
        rw [versionMark_one, String.append_empty, eq_comm, validIdentifier_eq_append_iff]
        constructor
        · rintro ⟨hreads, hempty⟩
          exact .inr (.inr ⟨rfl, hm, fun h => hm (hempty h), hreads⟩)
        · rintro (⟨h, -⟩ | h | h)
          · exact absurd h hmn
          · exact absurd h hnone
          · exact ⟨h.reads, fun hempty => absurd hempty h.name⟩
      · -- two later versions are told apart by their numbers
        constructor
        · intro h
          exact absurd (versionMark_append_inj hm hn h) hmn
        · rintro (⟨h, -⟩ | h | h)
          · exact absurd h hmn
          · exact absurd h.first hm
          · exact absurd h.first hn

end ApiContract.Naming

namespace ApiContract.Export

open Codegen Contract

variable {conventions : Conventions} {s : Surface} {specs : List Header}

/-! ## Reading lines -/

/-- What a line has behind its start, up to a character. -/
def behind? (start : String) (stop : Char) (line : List Char) : Option String :=
  if start.toList <+: line then
    some (String.ofList ((line.drop start.toList.length).takeWhile (· != stop)))
  else none

theorem behind?_append {start symbol : String} {stop : Char} (h : stop ∉ symbol.toList)
    (rest : List Char) :
    behind? start stop (start.toList ++ (symbol.toList ++ stop :: rest)) = some symbol := by
  have hsymbol : ∀ c ∈ symbol.toList, (c != stop) = true := by
    intro c hc
    rw [bne_iff_ne]
    rintro rfl
    exact h hc
  unfold behind?
  rw [if_pos (List.prefix_append _ _), List.drop_left, List.takeWhile_append_of_pos hsymbol,
    List.takeWhile_cons_of_neg (by simp), List.append_nil, String.ofList_toList]

/-- The symbols that the lines of a text import, one each. -/
def importedSymbols (code : String) : List String :=
  (linesOf code).filterMap (behind? "import \x7b " ' ')

/-- The symbols that the lines of a text register with a constant. -/
def registeredSymbols (constant code : String) : List String :=
  (linesOf code).filterMap (behind? (constant ++ ".register(") ')')

/-! ## The lines of a file -/

/-- What a registry file says about itself. -/
def title (s : Surface) (count : Nat) : String :=
  " * " ++ registryClass s ++ " with " ++ toString count ++ " spec(s)"

/-- The comment at the top of a registry file. -/
def comment (s : Surface) (count : Nat) : List String :=
  ["/**", title s count, " *", " * Generated by specbridge. Do not edit by hand.", " */"]

/-- The line that imports a spec. -/
def importOf (conventions : Conventions) (s : Surface) (h : Header) : String :=
  importLine [symbol h] ("./" ++ directory conventions s ++ "/" ++ Naming.kebabCase h.name)

/-- The line that makes the registry. -/
def construction (s : Surface) : String :=
  "export const " ++ registryConstant s ++ " = new " ++ registryClass s ++ "();"

/-- The line that registers a spec. -/
def registrationOf (s : Surface) (h : Header) : String :=
  registryConstant s ++ ".register(" ++ symbol h ++ ");"

theorem registryCode_eq (conventions : Conventions) (s : Surface) (specs : List Header) :
    registryCode conventions s specs
      = joinLines (comment s specs.length ++ [importLine [registryClass s] contractLibrary]
          ++ specs.map (importOf conventions s) ++ ["", construction s]
          ++ specs.map (registrationOf s)) ++ "\n" := by
  have htitle : s!" * {registryClass s} with {specs.length} spec(s)" = title s specs.length := rfl
  have hconstruction : s!"export const {registryConstant s} = new {registryClass s}();"
      = construction s := rfl
  unfold registryCode
  dsimp only
  rw [htitle, hconstruction]
  unfold comment importOf registrationOf
  rfl

/-- A symbol has no blanks and no brackets, whatever the version is. -/
theorem notMem_symbol {c : Char} (hpart : Naming.isIdentifierPart c = false) (hminus : c ≠ '-')
    (h : Header) : c ∉ (symbol h).toList := by
  intro hc
  rcases Naming.mem_exportName hc with hc | rfl
  · rw [hpart] at hc
    cases hc
  · exact hminus rfl

/-- The class of a registry is no symbol of a spec. -/
theorem not_symbol_registryClass (s : Surface) (h : Header) : registryClass s ≠ symbol h := by
  intro heq
  have hspec : "Spec".toList <:+ (registryClass s).toList := by
    rw [heq]
    unfold symbol
    rw [Naming.exportName_eq, ← String.append_assoc, String.toList_append]
    exact List.suffix_append _ _
  cases s <;> exact absurd hspec (by decide +kernel)

theorem notMem_registryClass (s : Surface) : '\n' ∉ (registryClass s).toList := by
  cases s <;> decide

theorem notMem_registryConstant (s : Surface) : '\n' ∉ (registryConstant s).toList := by
  cases s <;> decide

theorem notMem_comment (s : Surface) (count : Nat) :
    ∀ line ∈ comment s count, '\n' ∉ line.toList := by
  have hcount : '\n' ∉ count.repr.toList := fun h =>
    absurd (Text.isDigit_of_mem_repr h) (by decide)
  have hclass := notMem_registryClass s
  intro line hline
  simp only [comment, List.mem_cons, List.not_mem_nil, or_false] at hline
  rcases hline with rfl | rfl | rfl | rfl | rfl
  · decide
  · have htitle : title s count
        = " * " ++ registryClass s ++ " with " ++ count.repr ++ " spec(s)" := rfl
    simp only [htitle, String.toList_append, List.mem_append, not_or]
    exact ⟨⟨⟨⟨by decide, hclass⟩, by decide⟩, hcount⟩, by decide⟩
  · decide
  · decide
  · decide

theorem notMem_importLine {symbol source : String} (hsymbol : '\n' ∉ symbol.toList)
    (hsource : '\n' ∉ source.toList) : '\n' ∉ (importLine [symbol] source).toList := by
  unfold importLine
  simp [String.toList_append, hsymbol, hsource]

theorem linesOf_joinLines_of_notMem {ls : List String} (hne : ls ≠ [])
    (h : ∀ line ∈ ls, '\n' ∉ line.toList) : linesOf (joinLines ls) = ls.map String.toList := by
  rw [linesOf_joinLines hne, List.map_eq_flatMap]
  exact List.flatMap_congr fun line hline => linesOf_of_notMem (h line hline)

/-- **The lines of a registry file.** -/
theorem linesOf_registryCode (h : '\n' ∉ (directory conventions s).toList) (specs : List Header) :
    linesOf (registryCode conventions s specs)
      = (comment s specs.length ++ [importLine [registryClass s] contractLibrary]
          ++ specs.map (importOf conventions s) ++ ["", construction s]
          ++ specs.map (registrationOf s)).map String.toList ++ [[]] := by
  have hsymbol := fun a : Header => notMem_symbol (c := '\n') rfl (by decide) a
  have hkebab : ∀ name : String, '\n' ∉ (Naming.kebabCase name).toList := by
    intro name hmem
    rcases Naming.mem_kebabCase hmem with hhyphen | halnum
    · cases hhyphen
    · cases halnum
  have hclass := notMem_registryClass s
  have hconstant := notMem_registryConstant s
  rw [registryCode_eq, linesOf_lineFeed, linesOf_joinLines_of_notMem (by simp [comment])]
  intro line hline
  simp only [List.mem_append, List.mem_map, List.mem_cons, List.not_mem_nil, or_false] at hline
  rcases hline with (((hline | rfl) | ⟨a, -, rfl⟩) | rfl | rfl) | ⟨a, -, rfl⟩
  · exact notMem_comment s _ line hline
  · exact notMem_importLine hclass (by decide)
  · exact notMem_importLine (hsymbol a) (by simp [String.toList_append, h, hkebab])
  · decide
  · simp [construction, String.toList_append, hclass, hconstant]
  · simp [registrationOf, String.toList_append, hsymbol, hconstant]

/-! ## What a file imports and registers -/

theorem behind?_importLine {symbol : String} (source : String) (h : ' ' ∉ symbol.toList) :
    behind? "import \x7b " ' ' (importLine [symbol] source).toList = some symbol := by
  have hline : (importLine [symbol] source).toList = "import \x7b ".toList
      ++ (symbol.toList ++ ' ' :: ("\x7d from '" ++ source ++ "';").toList) := by
    unfold importLine
    rw [String.intercalate_singleton]
    simp [String.toList_append]
  rw [hline, behind?_append h]

theorem behind?_registrationOf (s : Surface) (h : Header) :
    behind? (registryConstant s ++ ".register(") ')' (registrationOf s h).toList
      = some (symbol h) := by
  have hline : (registrationOf s h).toList = (registryConstant s ++ ".register(").toList
      ++ ((symbol h).toList ++ ')' :: [';']) := by
    unfold registrationOf
    rw [String.toList_append, String.toList_append, List.append_assoc]
    rfl
  rw [hline, behind?_append (notMem_symbol rfl (by decide) h)]

/-- Lines that begin with another character are not read. -/
theorem behind?_of_head? {start : String} {stop c : Char} {line : List Char}
    (hstart : start.toList.head? = some c) (hline : line.head? ≠ some c) :
    behind? start stop line = none := by
  refine if_neg fun hprefix => hline ?_
  obtain ⟨rest, rfl⟩ := hprefix
  rw [List.head?_append, hstart, Option.some_or]

theorem filterMap_comment {start : String} {stop c : Char} (hstart : start.toList.head? = some c)
    (hslash : c ≠ '/') (hblank : c ≠ ' ') (s : Surface) (count : Nat) :
    ((comment s count).map String.toList).filterMap (behind? start stop) = [] := by
  rw [List.filterMap_map, List.filterMap_eq_nil_iff]
  intro line hline
  refine behind?_of_head? hstart ?_
  simp only [comment, List.mem_cons, List.not_mem_nil, or_false] at hline
  rcases hline with rfl | rfl | rfl | rfl | rfl
  · exact fun h => hslash (Option.some.inj h).symm
  · have htitle : (title s count).toList.head? = some ' ' := by
      unfold title
      simp [String.toList_append]
    rw [htitle]
    exact fun h => hblank (Option.some.inj h).symm
  · exact fun h => hblank (Option.some.inj h).symm
  · exact fun h => hblank (Option.some.inj h).symm
  · exact fun h => hblank (Option.some.inj h).symm

/-- **A registry file imports** the class of the registry, and the symbol of each spec. -/
theorem importedSymbols_registryCode (h : '\n' ∉ (directory conventions s).toList)
    (specs : List Header) :
    importedSymbols (registryCode conventions s specs) = registryClass s :: specs.map symbol := by
  have hclass : ' ' ∉ (registryClass s).toList := by cases s <;> decide
  have hspecs : ((specs.map (importOf conventions s)).map String.toList).filterMap
      (behind? "import \x7b " ' ') = specs.map symbol := by
    rw [List.map_map, List.filterMap_map, List.filterMap_eq_map_iff_forall_eq_some]
    exact fun a _ => behind?_importLine _ (notMem_symbol rfl (by decide) a)
  have hregistrations : ((specs.map (registrationOf s)).map String.toList).filterMap
      (behind? "import \x7b " ' ') = [] := by
    rw [List.map_map, List.filterMap_map, List.filterMap_eq_nil_iff]
    intro a _
    refine behind?_of_head? (c := 'i') rfl ?_
    cases s <;> simp [registrationOf, registryConstant, String.toList_append]
  have hconstruction : behind? "import \x7b " ' ' (construction s).toList = none := by
    refine behind?_of_head? (c := 'i') rfl ?_
    simp [construction, String.toList_append]
  have hcomment : ((comment s specs.length).map String.toList).filterMap
      (behind? "import \x7b " ' ') = [] :=
    filterMap_comment (c := 'i') rfl (by decide) (by decide) s _
  unfold importedSymbols
  rw [linesOf_registryCode h]
  simp only [List.map_append, List.filterMap_append, List.map_cons, List.map_nil,
    hcomment, hspecs, hregistrations, List.filterMap_cons, List.filterMap_nil, hconstruction,
    behind?_importLine contractLibrary hclass]
  simp [behind?]

/-- **A registry file registers** the symbol of each spec. -/
theorem registeredSymbols_registryCode (h : '\n' ∉ (directory conventions s).toList)
    (specs : List Header) :
    registeredSymbols (registryConstant s) (registryCode conventions s specs)
      = specs.map symbol := by
  obtain ⟨c, hc, hi, hslash, hblank⟩ : ∃ c,
      (registryConstant s ++ ".register(").toList.head? = some c ∧ c ≠ 'i' ∧ c ≠ '/' ∧ c ≠ ' ' := by
    cases s <;> exact ⟨_, rfl, by decide, by decide, by decide⟩
  have himport : ∀ symbols source,
      behind? (registryConstant s ++ ".register(") ')' (importLine symbols source).toList = none := by
    intro symbols source
    refine behind?_of_head? hc ?_
    have hhead : (importLine symbols source).toList.head? = some 'i' := by
      unfold importLine
      simp [String.toList_append]
    rw [hhead]
    exact fun heq => hi (Option.some.inj heq).symm
  have hspecs : ((specs.map (importOf conventions s)).map String.toList).filterMap
      (behind? (registryConstant s ++ ".register(") ')') = [] := by
    rw [List.map_map, List.filterMap_map, List.filterMap_eq_nil_iff]
    exact fun a _ => himport _ _
  have hregistrations : ((specs.map (registrationOf s)).map String.toList).filterMap
      (behind? (registryConstant s ++ ".register(") ')') = specs.map symbol := by
    rw [List.map_map, List.filterMap_map, List.filterMap_eq_map_iff_forall_eq_some]
    exact fun a _ => behind?_registrationOf s a
  have hconstruction : behind? (registryConstant s ++ ".register(") ')' (construction s).toList
      = none := by
    cases s <;> decide +kernel
  have hempty : behind? (registryConstant s ++ ".register(") ')' [] = none :=
    behind?_of_head? hc nofun
  unfold registeredSymbols
  rw [linesOf_registryCode h]
  simp only [List.map_append, List.filterMap_append, List.map_cons, List.map_nil,
    filterMap_comment hc hslash hblank, hspecs, hregistrations, List.filterMap_cons,
    List.filterMap_nil, hconstruction, himport, hempty, String.toList_empty]
  simp

/-! ## Symbols that differ -/

/-- **The specs of a registry have symbols of their own** exactly if no two of them clash. -/
theorem nodup_symbols_iff {s : Surface} (registry : Registry s.Spec) :
    (registry.toList.map fun spec => symbol (s.header spec)).Nodup
      ↔ ∀ a ∈ registry.specs, ∀ b ∈ registry.specs,
        Naming.Clash (s.header a).name (s.header a).version (s.header b).name (s.header b).version →
          a = b := by
  have hperm : registry.toList.Perm registry.specs := List.mergeSort_perm _ _
  rw [(hperm.map _).nodup_iff, List.nodup_map_iff_inj_on (List.Nodup.of_map _ registry.keys_nodup)]
  refine forall₂_congr fun a _ => forall₂_congr fun b _ => ?_
  unfold symbol
  rw [Naming.exportName_eq_iff]

/-- Versions of one name never share a symbol. -/
theorem eq_of_symbol_eq {s : Surface} {registry : Registry s.Spec} {a b : s.Spec}
    (ha : a ∈ registry.specs) (hb : b ∈ registry.specs)
    (hname : (s.header a).name = (s.header b).name) (h : symbol (s.header a) = symbol (s.header b)) :
    a = b := by
  refine Registry.eq_of_key_eq ha hb (key_eq_iff.mpr ⟨hname, ?_⟩)
  unfold symbol at h
  rw [Naming.exportName_eq_iff, hname] at h
  rcases h with ⟨hversion, -⟩ | h | h
  · exact hversion
  · exact absurd h Naming.not_readsAsVersion_self
  · exact absurd h Naming.not_readsAsVersion_self

theorem mem_registryFiles {registries : Registries} {file : GeneratedFile}
    (h : file ∈ registryFiles registries conventions) :
    ∃ s registry, registries.registry s = some registry
      ∧ file.code = registryCode conventions s (registry.toList.map s.header) := by
  obtain ⟨s, -, hs⟩ := List.mem_filterMap.mp h
  obtain ⟨registry, hregistry, rfl⟩ := Option.map_eq_some_iff.mp hs
  exact ⟨s, registry, hregistry, rfl⟩

/-- **Every registry file imports each spec under a symbol of its own, and registers it once,**
exactly if no two specs of the registry clash. Versions of one name never do. -/
theorem registry_symbols_distinct_iff (registries : Registries) (conventions : Conventions)
    (hlines : ∀ s, '\n' ∉ (directory conventions s).toList) (file : GeneratedFile)
    (hfile : file ∈ registryFiles registries conventions) :
    ∃ s registry, registries.registry s = some registry
      ∧ importedSymbols file.code
        = registryClass s :: registry.toList.map (fun spec => symbol (s.header spec))
      ∧ registeredSymbols (registryConstant s) file.code
        = registry.toList.map (fun spec => symbol (s.header spec))
      ∧ ((importedSymbols file.code).Nodup
        ↔ ∀ a ∈ registry.specs, ∀ b ∈ registry.specs, Naming.Clash (s.header a).name
            (s.header a).version (s.header b).name (s.header b).version → a = b)
      ∧ ((∀ spec ∈ registry.specs,
            (registeredSymbols (registryConstant s) file.code).count (symbol (s.header spec)) = 1)
        ↔ (importedSymbols file.code).Nodup)
      ∧ ∀ a ∈ registry.specs, ∀ b ∈ registry.specs, (s.header a).name = (s.header b).name →
          symbol (s.header a) = symbol (s.header b) → a = b := by
  obtain ⟨s, registry, hregistry, hcode⟩ := mem_registryFiles hfile
  have himported : importedSymbols file.code
      = registryClass s :: registry.toList.map fun spec => symbol (s.header spec) := by
    rw [hcode, importedSymbols_registryCode (hlines s), List.map_map]
    rfl
  have hregistered : registeredSymbols (registryConstant s) file.code
      = registry.toList.map fun spec => symbol (s.header spec) := by
    rw [hcode, registeredSymbols_registryCode (hlines s), List.map_map]
    rfl
  have hclass : registryClass s ∉ registry.toList.map fun spec => symbol (s.header spec) := by
    intro h
    obtain ⟨spec, -, hspec⟩ := List.mem_map.mp h
    exact not_symbol_registryClass s (s.header spec) hspec.symm
  have hnodup : (importedSymbols file.code).Nodup
      ↔ (registry.toList.map fun spec => symbol (s.header spec)).Nodup := by
    rw [himported, List.nodup_cons, and_iff_right hclass]
  refine ⟨s, registry, hregistry, himported, hregistered, hnodup.trans (nodup_symbols_iff registry),
    ?_, fun a ha b hb => eq_of_symbol_eq ha hb⟩
  have hmem : ∀ spec, spec ∈ registry.toList ↔ spec ∈ registry.specs := fun _ => List.mem_mergeSort
  rw [hnodup, hregistered, List.nodup_iff_count_eq_one, List.forall_mem_map]
  simp only [hmem]

/-- A query of this name and version, with nothing else to it. -/
def bareQuery (name : String) (version : Int) : OperationSpec where
  header :=
    { name, version, stability := .stable, owners := [], tags := [], description := none,
      kind := .query, goal := none, context := none }
  input := none
  output := none
  auth := .user
  transport := none

/-- Two versions of one query. -/
def petVersions : Registry (Surface.Spec .operations) :=
  ⟨[bareQuery "pets" 1, bareQuery "pets" 2], by decide +kernel⟩

/-- A second version, and a name that reads like it. -/
def petLookalikes : Registry (Surface.Spec .operations) :=
  ⟨[bareQuery "pets" 2, bareQuery "petsV2" 1], by decide +kernel⟩

/-- The registries with this one for operations, and no other. -/
def operationsOnly (registry : Registry (Surface.Spec .operations)) : Registries where
  registry := Function.update (fun _ => none) .operations (some registry)

/-- The file of a registry of operations. -/
def operationsFile (registry : Registry (Surface.Spec .operations)) : GeneratedFile where
  fileName := Naming.fileName "operationsRegistry"
  code := registryCode {} .operations (registry.toList.map (Surface.header .operations))

theorem operationsFile_mem (registry : Registry (Surface.Spec .operations)) :
    operationsFile registry ∈ registryFiles (operationsOnly registry) {} :=
  List.mem_filterMap.mpr ⟨.operations, List.mem_cons_self, rfl⟩

theorem notMem_directory : ∀ s, '\n' ∉ (directory {} s).toList := by
  intro s
  cases s <;> decide +kernel

/-- Two versions of a query have symbols of their own. -/
theorem registry_symbols_of_versions :
    (∀ s, '\n' ∉ (directory {} s).toList)
      ∧ operationsFile petVersions ∈ registryFiles (operationsOnly petVersions) {}
      ∧ (importedSymbols (operationsFile petVersions).code).Nodup := by
  refine ⟨notMem_directory, operationsFile_mem petVersions, ?_⟩
  obtain ⟨s, registry, hregistry, -, -, hiff, -⟩ := registry_symbols_distinct_iff _ {}
    notMem_directory _ (operationsFile_mem petVersions)
  rw [hiff]
  cases s with
  | operations =>
    cases hregistry
    have hname : ∀ a ∈ petVersions.specs, a.header.name = "pets" := by decide +kernel
    intro a ha b hb hclash
    have hnames : a.header.name = b.header.name := (hname a ha).trans (hname b hb).symm
    refine Registry.eq_of_key_eq ha hb (key_eq_iff.mpr ⟨hnames, ?_⟩)
    rcases hclash with ⟨hversion, -⟩ | h | h
    · exact hversion
    · exact absurd (hnames ▸ h) Naming.not_readsAsVersion_self
    · exact absurd (hnames ▸ h) Naming.not_readsAsVersion_self
  | _ => cases hregistry

/-- A name that reads like the second version of another is imported under its symbol. -/
theorem lookalikes_share_symbol :
    operationsFile petLookalikes ∈ registryFiles (operationsOnly petLookalikes) {}
      ∧ importedSymbols (operationsFile petLookalikes).code
        = ["OperationSpecRegistry", "PetsV2Spec", "PetsV2Spec"]
      ∧ ¬ (importedSymbols (operationsFile petLookalikes).code).Nodup := by
  have hsymbols : importedSymbols (operationsFile petLookalikes).code
      = ["OperationSpecRegistry", "PetsV2Spec", "PetsV2Spec"] := by
    unfold operationsFile
    rw [importedSymbols_registryCode (notMem_directory .operations)]
    cbv
  refine ⟨operationsFile_mem petLookalikes, hsymbols, ?_⟩
  rw [hsymbols]
  decide

end ApiContract.Export
