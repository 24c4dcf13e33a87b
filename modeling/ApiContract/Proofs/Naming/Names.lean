import ApiContract.Proofs.Naming
import ApiContract.Proofs.Text.Marks
import Mathlib.Data.List.Chain
import Mathlib.Data.List.Forall2

/-!
# The names of generated code

Writing a name in Pascal or kebab case keeps its letters and digits in order and changes nothing but
their case, so what a case loses is what stands between the words. Neither case changes a name that
has it: Pascal case is cut again only before capitals, kebab case only at its hyphens.

A declared name is an identifier: letters, digits, `_` and `$`, no digit in front, and no reserved
word. `validIdentifier` makes one of every text and adds an underscore wherever it changes something,
so a text that is an identifier already stays as it is. The symbols of contracts are made of such
names and end in a word that no reserved word ends in. The symbols of models are put into Pascal case
afterwards. That takes the underscore in front of a digit away again, so they are identifiers only
where the first letter or digit is a letter.

* **`flatten_words`** — the words of a name make up its letters and digits.
* **`words_kebabCase`** / **`isKebab_kebabCase`** — the words of a name in kebab case, and its shape.
* **`case_conversion_stable`** — the headline on cases.
* **`validIdentifier_of_isSymbol`** / **`validIdentifier_of_notMem`** — what stays as it is.
* **`isSymbol_validIdentifier`** / **`isSymbol_exportName`** / **`isSymbol_modelName_iff`** — the three
  kinds of names.
* **`declared_names_are_valid`** — the headline on declared names.
-/

namespace ApiContract.Naming

/-! ## Letters and digits -/

theorem flatten_words (s : String) : (words s).flatten = s.toList.filter Char.isAlphanum := by
  unfold words
  dsimp only
  rw [List.flatten_filter_not_isEmpty, List.flatten_cons, flatten_pieces_eq_filter]

/-- A text of the letters and digits of another one, in order. Each is as it was, or a capital. -/
def Recased (s t : String) : Prop :=
  List.Forall₂ (fun c d => d = c ∨ d = c.toUpper) (s.toList.filter Char.isAlphanum) t.toList

theorem forall₂_capitalize (word : List Char) :
    List.Forall₂ (fun c d => d = c ∨ d = c.toUpper) word (capitalize word) := by
  have hsame : ∀ cs : List Char, List.Forall₂ (fun c d => d = c ∨ d = c.toUpper) cs cs :=
    fun cs => List.forall₂_same.mpr fun _ _ => .inl rfl
  cases word with
  | nil => exact .nil
  | cons c rest => exact .cons (.inr rfl) (hsame rest)

/-- **Pascal case** keeps the letters and digits of a name. -/
theorem recased_pascalCase (s : String) : Recased s (pascalCase s) := by
  unfold Recased pascalCase
  rw [String.toList_ofList, ← flatten_words, List.flatMap_def]
  refine List.rel_flatten ?_
  rw [List.forall₂_map_right_iff]
  exact List.forall₂_same.mpr fun word _ => forall₂_capitalize word

/-! ## Words between hyphens -/

/-- A word in small letters: it is not cut before a capital. -/
structure IsSmall (word : List Char) : Prop where
  ne_nil : word ≠ []
  char : ∀ c ∈ word, c.isAlphanum = true ∧ c.isUpper = false

theorem isSmall_of_mem_lowerWords {s : String} {word : List Char} (h : word ∈ lowerWords s) :
    IsSmall word := by
  refine ⟨(isAlphanum_of_mem_lowerWords h).1, fun c hc => ?_⟩
  refine ⟨(isAlphanum_of_mem_lowerWords h).2 c hc, ?_⟩
  obtain ⟨word', hword, rfl⟩ := List.mem_map.mp h
  obtain ⟨d, hd, rfl⟩ := List.mem_map.mp hc
  exact forall_alphanum (p := fun d => d.toLower.isUpper = false) (by decide)
    (isAlphanum_of_mem_words hword hd)

/-- A word in small letters is one piece, up to a separator. Induction on the word. -/
theorem pieces_append_of_small {word rest : List Char}
    (hword : ∀ c ∈ word, c.isAlphanum = true ∧ c.isUpper = false)
    (hrest : ∀ c, rest.head? = some c → c.isUpper = false) :
    pieces (word ++ rest) = (word ++ (pieces rest).1, (pieces rest).2) := by
  induction word with
  | nil => rfl
  | cons c word ih =>
    obtain ⟨⟨halnum, -⟩, hword⟩ := List.forall_mem_cons.mp hword
    have hnext : ∀ d, (word ++ rest).head? = some d → d.isUpper = false := by
      cases word with
      | nil => exact hrest
      | cons e word =>
        intro d hd
        cases hd
        exact (hword e List.mem_cons_self).2
    have hends : endsWord c (word ++ rest) = false := by
      cases hcs : word ++ rest with
      | nil => rfl
      | cons d more => rw [endsWord, hnext d (by rw [hcs]; rfl), Bool.false_and]
    rw [List.cons_append, pieces_of_letter halnum hends, ih hword]
    rfl

/-- The words between hyphens are found again. -/
theorem words_intercalate {xs : List (List Char)} (h : ∀ x ∈ xs, IsSmall x) :
    words (String.ofList (['-'].intercalate xs)) = xs := by
  unfold words
  rw [String.toList_ofList]
  dsimp only
  induction xs with
  | nil => rfl
  | cons x rest ih =>
    obtain ⟨hx, hrest⟩ := List.forall_mem_cons.mp h
    have hnonempty : (!x.isEmpty) = true := by simpa using hx.ne_nil
    cases rest with
    | nil =>
      have hpieces : pieces (x ++ []) = (x ++ (pieces []).1, (pieces []).2) :=
        pieces_append_of_small hx.char nofun
      rw [List.append_nil] at hpieces
      rw [List.intercalate_singleton, hpieces]
      simp [pieces, hnonempty]
    | cons y more =>
      have hhyphen : ∀ c, ('-' :: ['-'].intercalate (y :: more)).head? = some c →
          c.isUpper = false := by
        intro c hc
        cases hc
        rfl
      rw [List.intercalate_cons_cons, List.append_assoc, List.singleton_append,
        pieces_append_of_small hx.char hhyphen, pieces_of_separator rfl, List.append_nil,
        List.filter_cons, if_pos hnonempty, ih hrest]

/-- **A name in kebab case** has the words that it was made of. -/
theorem words_kebabCase (s : String) : words (kebabCase s) = lowerWords s :=
  words_intercalate fun _ => isSmall_of_mem_lowerWords

theorem kebabCase_kebabCase (s : String) : kebabCase (kebabCase s) = kebabCase s := by
  rw [kebabCase_eq_iff, lowerWords, words_kebabCase]
  refine (List.map_congr_left fun word hword => ?_).trans (List.map_id _)
  refine (List.map_congr_left fun c hc => ?_).trans (List.map_id _)
  obtain ⟨halnum, hupper⟩ := (isSmall_of_mem_lowerWords hword).char c hc
  exact forall_alphanum (p := fun c => c.isUpper = false → c.toLower = c) (by decide) halnum hupper

/-! ## The shape of kebab case -/

/-- Small letters and digits, with single hyphens inside. -/
structure IsKebab (cs : List Char) : Prop where
  char : ∀ c ∈ cs, c.isLower = true ∨ c.isDigit = true ∨ c = '-'
  single : cs.IsChain fun c d => ¬ (c = '-' ∧ d = '-')
  first : cs.head? ≠ some '-'
  last : cs.getLast? ≠ some '-'

theorem isKebab_nil : IsKebab [] := ⟨nofun, .nil, nofun, nofun⟩

theorem IsSmall.notMem_hyphen {word : List Char} (h : IsSmall word) : '-' ∉ word :=
  fun hmem => absurd (h.char _ hmem).1 (by decide)

theorem IsSmall.isKebab {word : List Char} (h : IsSmall word) : IsKebab word where
  char c hc := by
    obtain ⟨halnum, hupper⟩ := h.char c hc
    rw [isAlphanum_eq, hupper, Bool.false_or, Bool.or_eq_true] at halnum
    exact halnum.imp_right .inl
  single := by
    refine List.Pairwise.isChain (List.pairwise_of_forall_mem_list fun c hc d _ => ?_)
    rintro ⟨rfl, -⟩
    exact h.notMem_hyphen hc
  first hfirst := h.notMem_hyphen (List.mem_of_head? hfirst)
  last hlast := h.notMem_hyphen (List.mem_of_getLast? hlast)

/-- A hyphen between two texts that have no hyphens at their ends. -/
theorem IsKebab.append {word cs : List Char} (hword : IsKebab word) (hne : word ≠ [])
    (hcs : IsKebab cs) (hcs' : cs ≠ []) : IsKebab (word ++ '-' :: cs) where
  char c hc := by
    rcases List.mem_append.mp hc with hc | hc
    · exact hword.char c hc
    · rcases List.mem_cons.mp hc with rfl | hc
      · exact .inr (.inr rfl)
      · exact hcs.char c hc
  single := by
    obtain ⟨d, more, rfl⟩ := List.exists_cons_of_ne_nil hcs'
    have hd : d ≠ '-' := fun heq => hcs.first (congrArg some heq)
    refine List.isChain_append.mpr ⟨hword.single, .cons_cons (fun h => hd h.2) hcs.single, ?_⟩
    rintro c hc _ - ⟨rfl, -⟩
    exact hword.last hc
  first := by
    obtain ⟨c, more, rfl⟩ := List.exists_cons_of_ne_nil hne
    exact hword.first
  last := by
    obtain ⟨d, more, rfl⟩ := List.exists_cons_of_ne_nil hcs'
    rw [List.getLast?_append, List.getLast?_cons_cons]
    rw [List.getLast?_eq_getLast_of_ne_nil (List.cons_ne_nil d more), Option.some_or,
      ← List.getLast?_eq_getLast_of_ne_nil (List.cons_ne_nil d more)]
    exact hcs.last

theorem isKebab_intercalate {xs : List (List Char)} (h : ∀ x ∈ xs, IsSmall x) :
    IsKebab (['-'].intercalate xs) := by
  induction xs with
  | nil => exact isKebab_nil
  | cons x rest ih =>
    obtain ⟨hx, hrest⟩ := List.forall_mem_cons.mp h
    cases rest with
    | nil =>
      rw [List.intercalate_singleton]
      exact hx.isKebab
    | cons y more =>
      have hne : ['-'].intercalate (y :: more) ≠ [] := by
        obtain ⟨c, cs, hy⟩ := List.exists_cons_of_ne_nil (hrest y List.mem_cons_self).ne_nil
        cases more with
        | nil => simp [hy]
        | cons z more => simp [List.intercalate_cons_cons, hy]
      rw [List.intercalate_cons_cons, List.append_assoc, List.singleton_append]
      exact hx.isKebab.append hx.ne_nil (ih hrest) hne

theorem isKebab_kebabCase (s : String) : IsKebab (kebabCase s).toList := by
  unfold kebabCase
  rw [String.toList_ofList]
  exact isKebab_intercalate fun _ => isSmall_of_mem_lowerWords

/-- Without its hyphens, a name in kebab case is the letters and digits of the name in small letters. -/
theorem filter_kebabCase (s : String) :
    (kebabCase s).toList.filter Char.isAlphanum
      = (s.toList.filter Char.isAlphanum).map Char.toLower := by
  rw [← flatten_words, ← flatten_words, words_kebabCase, lowerWords, List.map_flatten]

/-- **Case conversion is stable**, and changes nothing but the case of letters and what stands
between words. -/
theorem case_conversion_stable (s : String) :
    pascalCase (pascalCase s) = pascalCase s ∧ Recased s (pascalCase s)
      ∧ kebabCase (kebabCase s) = kebabCase s ∧ IsKebab (kebabCase s).toList
      ∧ (kebabCase s).toList.filter Char.isAlphanum
        = (s.toList.filter Char.isAlphanum).map Char.toLower :=
  ⟨pascalCase_pascalCase s, recased_pascalCase s, kebabCase_kebabCase s, isKebab_kebabCase s,
    filter_kebabCase s⟩

/-! ## Symbols -/

/-- The words that a module of the generated language reserves: `await` is one only there. -/
def moduleWords : List String := "await" :: reservedWords

/-- A text that can stand as a symbol if it is no reserved word. -/
structure IsSymbol (s : String) : Prop where
  part : ∀ c ∈ s.toList, isIdentifierPart c = true
  start : ∃ c, s.toList.head? = some c ∧ c.isDigit = false

theorem IsSymbol.append {s t : String} (h : IsSymbol s)
    (ht : ∀ c ∈ t.toList, isIdentifierPart c = true) : IsSymbol (s ++ t) where
  part c hc := by
    rw [String.toList_append] at hc
    exact (List.mem_append.mp hc).elim (h.part c) (ht c)
  start := by
    obtain ⟨c, hc, hdigit⟩ := h.start
    refine ⟨c, ?_, hdigit⟩
    rw [String.toList_append, List.head?_append, hc, Option.some_or]

theorem isIdentifierPart_of_isAlphanum {c : Char} (h : c.isAlphanum = true) :
    isIdentifierPart c = true := by
  unfold isIdentifierPart
  rw [h]
  rfl

/-! ## Identifiers of texts -/

/-- The characters of a text, with `_` for those that an identifier cannot have. -/
def cleaned (s : String) : List Char := s.toList.map fun c => if isIdentifierPart c then c else '_'

/-- An identifier before it is compared with the reserved words. -/
def guarded : List Char → String
  | [] => "_"
  | c :: rest => String.ofList (if c.isDigit then '_' :: c :: rest else c :: rest)

theorem validIdentifier_eq (s : String) :
    validIdentifier s = if guarded (cleaned s) ∈ reservedWords then guarded (cleaned s) ++ "_"
      else guarded (cleaned s) := by
  unfold validIdentifier
  change (match cleaned s with | [] => _ | c :: rest => _) = _
  cases cleaned s with
  | nil => rfl
  | cons c rest =>
    dsimp only
    simp only [List.contains_iff_mem]
    rfl

theorem cleaned_of_part {s : String} (h : ∀ c ∈ s.toList, isIdentifierPart c = true) :
    cleaned s = s.toList :=
  (List.map_congr_left fun c hc => if_pos (h c hc)).trans (List.map_id _)

theorem guarded_of_start {cs : List Char} (h : ∃ c, cs.head? = some c ∧ c.isDigit = false) :
    guarded cs = String.ofList cs := by
  obtain ⟨c, hc, hdigit⟩ := h
  cases cs with
  | nil => cases hc
  | cons d rest =>
    cases hc
    rw [guarded, hdigit]
    rfl

/-- **An identifier stays as it is.** -/
theorem validIdentifier_of_isSymbol {s : String} (h : IsSymbol s) (hfree : s ∉ reservedWords) :
    validIdentifier s = s := by
  rw [validIdentifier_eq, cleaned_of_part h.part, guarded_of_start h.start, String.ofList_toList,
    if_neg hfree]

/-- **Where no underscore was put in**, nothing was changed. -/
theorem validIdentifier_of_notMem {s : String} (h : '_' ∉ (validIdentifier s).toList) :
    validIdentifier s = s := by
  have hcleaned : '_' ∉ cleaned s → cleaned s = s.toList := by
    intro hnone
    refine cleaned_of_part fun c hc => Decidable.byContradiction fun hpart => hnone ?_
    exact List.mem_map.mpr ⟨c, hc, if_neg hpart⟩
  rw [validIdentifier_eq] at h ⊢
  split at h
  · simp at h
  · rename_i hfree
    rw [if_neg hfree]
    cases hcs : cleaned s with
    | nil =>
      rw [hcs] at h
      exact absurd h (by decide)
    | cons c rest =>
      rw [hcs, guarded, String.toList_ofList] at h
      rw [guarded]
      split at h
      · simp at h
      · rename_i hdigit
        rw [if_neg hdigit, ← hcs, hcleaned (hcs ▸ h), String.ofList_toList]

theorem head?_guarded (s : String) :
    ∃ c, (guarded (cleaned s)).toList.head? = some c ∧ c.isDigit = false := by
  cases cleaned s with
  | nil => exact ⟨'_', rfl, rfl⟩
  | cons c rest =>
    rw [guarded, String.toList_ofList]
    cases hdigit : c.isDigit with
    | true => exact ⟨'_', rfl, rfl⟩
    | false => exact ⟨c, rfl, hdigit⟩

theorem isSymbol_validIdentifier (s : String) : IsSymbol (validIdentifier s) where
  part _ hc := isIdentifierPart_of_mem_validIdentifier hc
  start := by
    obtain ⟨c, hc, hdigit⟩ := head?_guarded s
    rw [validIdentifier_eq]
    split
    · exact ⟨c, by rw [String.toList_append, List.head?_append, hc, Option.some_or], hdigit⟩
    · exact ⟨c, hc, hdigit⟩

/-- A reserved word with an underscore is none. -/
theorem append_notMem_reservedWords : ∀ word ∈ reservedWords, word ++ "_" ∉ reservedWords := by
  decide +kernel

theorem validIdentifier_notMem (s : String) : validIdentifier s ∉ reservedWords := by
  rw [validIdentifier_eq]
  split
  · rename_i hreserved
    exact append_notMem_reservedWords _ hreserved
  · assumption

theorem validIdentifier_eq_await_iff {s : String} : validIdentifier s = "await" ↔ s = "await" := by
  constructor
  · intro h
    have hsame := validIdentifier_of_notMem (s := s) (by rw [h]; decide)
    exact hsame.symm.trans h
  · rintro rfl
    decide +kernel

/-! ## Symbols of contracts -/

/-- What the symbol of a contract says of its version; the first one goes without saying. -/
def versionMark (version : Int) : String := if version = 1 then "" else "V" ++ toString version

theorem exportName_eq (name : String) (version : Int) :
    exportName name version = validIdentifier (pascalCase name) ++ (versionMark version ++ "Spec") := by
  unfold exportName versionMark
  split
  · rw [String.empty_append]
  · simp only [String.append_assoc]
    rfl

theorem isIdentifierPart_of_isDigit {c : Char} (h : c.isDigit = true) : isIdentifierPart c = true := by
  refine isIdentifierPart_of_isAlphanum ?_
  rw [isAlphanum_eq, h, Bool.or_true]

theorem isIdentifierPart_of_mem_spec : ∀ c ∈ "Spec".toList, isIdentifierPart c = true :=
  List.all_eq_true.mp (by decide)

/-- The version of a symbol is a capital and its number. -/
theorem mem_versionMark {version : Int} {c : Char} (hc : c ∈ (versionMark version).toList) :
    c = 'V' ∨ c ∈ (toString version).toList := by
  unfold versionMark at hc
  split at hc
  · cases hc
  · rw [String.toList_append, List.mem_append] at hc
    exact hc.imp_left List.mem_singleton.mp

/-- A symbol is made of parts of identifiers, and the sign of a version. -/
theorem mem_exportName {name : String} {version : Int} {c : Char}
    (hc : c ∈ (exportName name version).toList) : isIdentifierPart c = true ∨ c = '-' := by
  rw [exportName_eq, String.toList_append, String.toList_append, List.mem_append,
    List.mem_append] at hc
  rcases hc with hc | hc | hc
  · exact .inl (isIdentifierPart_of_mem_validIdentifier hc)
  · rcases mem_versionMark hc with rfl | hc
    · exact .inl (by decide)
    · exact (Text.mem_toString_int hc).imp_left isIdentifierPart_of_isDigit
  · exact .inl (isIdentifierPart_of_mem_spec c hc)

theorem isSymbol_exportName (name : String) {version : Int} (h : 0 < version) :
    IsSymbol (exportName name version) := by
  rw [exportName_eq]
  refine (isSymbol_validIdentifier _).append fun c hc => ?_
  rw [String.toList_append, List.mem_append] at hc
  rcases hc with hc | hc
  · rcases mem_versionMark hc with rfl | hc
    · decide
    · obtain ⟨n, rfl⟩ := Int.eq_ofNat_of_zero_le (Int.le_of_lt h)
      exact isIdentifierPart_of_isDigit (Text.isDigit_of_mem_repr hc)
  · exact isIdentifierPart_of_mem_spec c hc

theorem not_suffix_of_mem_moduleWords :
    ∀ word ∈ moduleWords, ¬ "Spec".toList <:+ word.toList := by
  decide +kernel

theorem exportName_notMem (name : String) (version : Int) : exportName name version ∉ moduleWords := by
  intro h
  refine not_suffix_of_mem_moduleWords _ h ?_
  rw [exportName_eq, ← String.append_assoc, String.toList_append]
  exact List.suffix_append _ _

/-! ## Symbols of models -/

/-- Whether the first letter or digit of a name is a digit. -/
def BeginsWithDigit (name : String) : Prop :=
  ∃ c, (name.toList.filter Char.isAlphanum).head? = some c ∧ c.isDigit = true

/-- Pascal case begins with a digit where the letters and digits of a name do. -/
theorem beginsWithDigit_iff (name : String) :
    BeginsWithDigit name ↔ ∃ c, (pascalCase name).toList.head? = some c ∧ c.isDigit = true := by
  have hrecased := recased_pascalCase name
  have hupper : ∀ c ∈ name.toList.filter Char.isAlphanum, c.toUpper.isDigit = c.isDigit := by
    intro c hc
    exact forall_alphanum (p := fun c => c.toUpper.isDigit = c.isDigit) (by decide)
      (List.mem_filter.mp hc).2
  unfold Recased at hrecased
  unfold BeginsWithDigit
  generalize name.toList.filter Char.isAlphanum = letters at hrecased hupper
  generalize (pascalCase name).toList = recased at hrecased
  cases hrecased with
  | nil => simp
  | @cons c d _ _ hcd _ =>
    have hdigit : d.isDigit = c.isDigit := by
      rcases hcd with rfl | rfl
      · rfl
      · exact hupper c List.mem_cons_self
    simp [hdigit]

/-- **The symbol of a model** is one exactly if its name does not begin with a digit. -/
theorem isSymbol_modelName_iff (name : String) :
    IsSymbol (modelName name) ↔ ¬ BeginsWithDigit name := by
  rw [modelName_eq, beginsWithDigit_iff]
  split
  · rename_i hempty
    rw [hempty]
    exact ⟨fun _ ⟨c, hc, _⟩ => Option.some_ne_none c hc.symm,
      fun _ => ⟨List.all_eq_true.mp (by decide), '_', rfl, rfl⟩⟩
  · rename_i hne
    obtain ⟨c, rest, hcons⟩ := List.exists_cons_of_ne_nil (mt String.toList_eq_nil_iff.mp hne)
    have hpart : ∀ d ∈ (pascalCase name).toList, isIdentifierPart d = true :=
      fun d hd => isIdentifierPart_of_isAlphanum (isAlphanum_of_mem_pascalCase hd)
    constructor
    · rintro ⟨-, d, hd, hdigit⟩ ⟨e, he, hdigit'⟩
      rw [hd] at he
      cases he
      rw [hdigit] at hdigit'
      cases hdigit'
    · intro hnone
      refine ⟨hpart, c, by rw [hcons]; rfl, ?_⟩
      cases hdigit : c.isDigit with
      | false => rfl
      | true => exact absurd ⟨c, by rw [hcons]; rfl, hdigit⟩ hnone

/-- No reserved word begins with a capital or a digit. -/
theorem toUpper_ne_of_mem_moduleWords :
    ∀ word ∈ moduleWords, ∃ c, word.toList.head? = some c ∧ c.toUpper ≠ c := by
  have hheads : ∀ word ∈ moduleWords, (word.toList.head?.any fun c => c.toUpper != c) = true :=
    List.all_eq_true.mp (by decide +kernel)
  intro word hword
  have hhead := hheads word hword
  cases hfirst : word.toList.head? with
  | none =>
    rw [hfirst] at hhead
    cases hhead
  | some c =>
    rw [hfirst] at hhead
    exact ⟨c, rfl, bne_iff_ne.mp hhead⟩

theorem modelName_notMem (name : String) : modelName name ∉ moduleWords := by
  rw [modelName_eq]
  split
  · decide +kernel
  · intro h
    obtain ⟨c, hc, hupper⟩ := toUpper_ne_of_mem_moduleWords _ h
    exact hupper (toUpper_head_pascalCase hc)

/-! ## All declared names -/

/-- **Declared names are identifiers**, except the symbols of models whose names begin with a digit.
They are no reserved words; only `await` stays, which a module reserves. -/
theorem declared_names_are_valid (name : String) (version : Int) (h : 0 < version) :
    (IsSymbol (validIdentifier name) ∧ validIdentifier name ∉ reservedWords
        ∧ (validIdentifier name ∈ moduleWords ↔ name = "await"))
      ∧ (IsSymbol (exportName name version) ∧ exportName name version ∉ moduleWords)
      ∧ ((IsSymbol (modelName name) ↔ ¬ BeginsWithDigit name) ∧ modelName name ∉ moduleWords)
      ∧ (IsSymbol name → name ∉ reservedWords → validIdentifier name = name) := by
  have hawait : validIdentifier name ∈ moduleWords ↔ name = "await" := by
    unfold moduleWords
    rw [List.mem_cons, or_iff_left (validIdentifier_notMem name), validIdentifier_eq_await_iff]
  exact ⟨⟨isSymbol_validIdentifier name, validIdentifier_notMem name, hawait⟩,
    ⟨isSymbol_exportName name h, exportName_notMem name version⟩,
    ⟨isSymbol_modelName_iff name, modelName_notMem name⟩, validIdentifier_of_isSymbol⟩

/-- The second version of a contract whose name is no identifier. -/
theorem declared_names_of_twoFactor :
    0 < (2 : Int) ∧ IsSymbol (validIdentifier "2fa/verify") ∧ IsSymbol (exportName "2fa/verify" 2)
      ∧ exportName "2fa/verify" 2 ∉ moduleWords := by
  obtain ⟨⟨hvalid, -, -⟩, ⟨hexport, hfree⟩, -, -⟩ :=
    declared_names_are_valid "2fa/verify" 2 (by decide)
  exact ⟨by decide, hvalid, hexport, hfree⟩

/-- A model whose name begins with a digit has no identifier as its symbol, and `await` is declared
as it is. -/
theorem modelName_begins_with_digit :
    modelName "2fa" = "2fa" ∧ ¬ IsSymbol (modelName "2fa")
      ∧ validIdentifier "await" = "await" ∧ "await" ∈ moduleWords := by
  have hname : modelName "2fa" = "2fa" := by decide +kernel
  refine ⟨hname, fun h => ?_, by decide +kernel, List.mem_cons_self⟩
  obtain ⟨c, hc, hdigit⟩ := h.start
  rw [hname] at hc
  cases hc
  cases hdigit

end ApiContract.Naming
