import ApiContract.Naming
import ApiContract.Proofs.Reference

/-!
# Names and their words

A text is cut at every character that is neither a letter nor a digit, and before some capitals; all
other characters stay in the pieces. So names in Pascal case consist of letters and digits, and
cutting such a name gives pieces that make it up again, each but the first with a capital in front.

* **`flatten_pieces`** — the pieces of a text of letters and digits make it up.
* **`isPlain_pascalCase`** — names in Pascal case need no escape in a pointer.
* **`pascalCase_eq_self`** — names in Pascal case are left as they are.
* **`fileName_eq_iff`** — names whose files are one.
* **`modelName_eq_pascalCase_iff`** — names whose symbols are one.
* **`pascalCase_append`** — a word that is put behind a name.
-/

namespace ApiContract.Naming

open Reference (IsPlain)

/-! ## Letters and digits -/

theorem toNat_lt_of_isAlphanum {c : Char} (h : c.isAlphanum = true) : c.toNat < 128 := by
  have hbound : ∀ n : UInt32, n.toNat < 128 → c.val ≤ n → c.toNat < 128 :=
    fun n hn hle => Nat.lt_of_le_of_lt (UInt32.le_iff_toNat_le.mp hle) hn
  have hranges : ((decide (65 ≤ c.val ∧ c.val ≤ 90)
      || (decide (97 ≤ c.val) && decide (c.val ≤ 122)))
      || (decide (48 ≤ c.val) && decide (c.val ≤ 57))) = true := h
  simp only [Bool.or_eq_true, Bool.and_eq_true, decide_eq_true_eq] at hranges
  rcases hranges with (⟨-, h⟩ | ⟨-, h⟩) | ⟨-, h⟩
  · exact hbound 90 (by decide) h
  · exact hbound 122 (by decide) h
  · exact hbound 57 (by decide) h

/-- What can be checked for every letter and digit holds of all of them. -/
theorem forall_alphanum {p : Char → Prop}
    (h : ∀ n : Fin 128, (Char.ofNat n).isAlphanum = true → p (Char.ofNat n)) {c : Char}
    (hc : c.isAlphanum = true) : p c := by
  have hchar := h ⟨c.toNat, toNat_lt_of_isAlphanum hc⟩
  rw [Char.ofNat_toNat] at hchar
  exact hchar hc

theorem isAlphanum_eq (c : Char) : c.isAlphanum = ((c.isUpper || c.isLower) || c.isDigit) := rfl

/-- A capital is a letter, and no separator. -/
theorem toUpper_alphanum {c : Char} (h : c.isAlphanum = true) :
    c.toUpper.isAlphanum = true ∧ c.toUpper.toUpper = c.toUpper :=
  forall_alphanum (p := fun c => c.toUpper.isAlphanum = true ∧ c.toUpper.toUpper = c.toUpper)
    (by decide) h

theorem toUpper_of_isUpper {c : Char} (h : c.isUpper = true) : c.toUpper = c := by
  have halnum : c.isAlphanum = true := by rw [isAlphanum_eq, h]; rfl
  exact forall_alphanum (p := fun c => c.isUpper = true → c.toUpper = c) (by decide) halnum h

/-! ## Pieces -/

theorem isAlphanum_of_mem_pieces {cs : List Char} {c : Char} :
    (c ∈ (pieces cs).1 ∨ ∃ piece ∈ (pieces cs).2, c ∈ piece) → c.isAlphanum = true := by
  induction cs with
  | nil =>
    rintro (h | ⟨piece, h, -⟩)
    · cases h
    · cases h
  | cons d rest ih =>
    rw [pieces]
    dsimp only
    split
    · rintro (h | ⟨piece, h, hc⟩)
      · cases h
      · rcases List.mem_cons.mp h with rfl | h
        · exact ih (.inl hc)
        · exact ih (.inr ⟨piece, h, hc⟩)
    · rename_i halnum
      have hd : d.isAlphanum = true := by simpa using halnum
      split
      · rintro (h | ⟨piece, h, hc⟩)
        · rw [List.mem_singleton.mp h]
          exact hd
        · rcases List.mem_cons.mp h with rfl | h
          · exact ih (.inl hc)
          · exact ih (.inr ⟨piece, h, hc⟩)
      · rintro (h | ⟨piece, h, hc⟩)
        · rcases List.mem_cons.mp h with rfl | h
          · exact hd
          · exact ih (.inl h)
        · exact ih (.inr ⟨piece, h, hc⟩)

theorem isAlphanum_of_mem_words {s : String} {word : List Char} {c : Char} (h : word ∈ words s)
    (hc : c ∈ word) : c.isAlphanum = true := by
  rcases List.mem_cons.mp (List.mem_filter.mp h).1 with rfl | hpiece
  · exact isAlphanum_of_mem_pieces (.inl hc)
  · exact isAlphanum_of_mem_pieces (.inr ⟨word, hpiece, hc⟩)

/-- The pieces of a text make up its letters and digits. -/
theorem flatten_pieces_eq_filter (cs : List Char) :
    (pieces cs).1 ++ (pieces cs).2.flatten = cs.filter Char.isAlphanum := by
  induction cs with
  | nil => rfl
  | cons c rest ih =>
    rw [pieces, List.filter_cons]
    dsimp only
    cases hc : c.isAlphanum with
    | false =>
      rw [if_pos Bool.not_false, if_neg Bool.false_ne_true, ← ih]
      rfl
    | true =>
      rw [if_neg (by decide), if_pos rfl, ← ih]
      split
      · rfl
      · rfl

/-- Nothing is lost of a text of letters and digits. -/
theorem flatten_pieces {cs : List Char} (h : ∀ c ∈ cs, c.isAlphanum = true) :
    (pieces cs).1 ++ (pieces cs).2.flatten = cs := by
  rw [flatten_pieces_eq_filter, List.filter_eq_self.mpr h]

/-- In a text of letters and digits, the piece at the start begins with the first character. -/
theorem head?_pieces {c : Char} (rest : List Char) (h : c.isAlphanum = true) :
    (pieces (c :: rest)).1.head? = some c := by
  rw [pieces]
  dsimp only
  rw [h, if_neg (by decide)]
  split <;> rfl

/-- In a text of letters and digits, every piece but the one at the start begins with a capital. -/
theorem head?_isUpper_of_mem_pieces {cs : List Char} (h : ∀ c ∈ cs, c.isAlphanum = true) :
    ∀ piece ∈ (pieces cs).2, ∃ c, piece.head? = some c ∧ c.isUpper = true := by
  induction cs with
  | nil => nofun
  | cons c rest ih =>
    have hrest := ih fun d hd => h d (List.mem_cons_of_mem c hd)
    rw [pieces]
    dsimp only
    rw [h c List.mem_cons_self, if_neg (by decide)]
    split
    · rename_i hends
      intro piece hpiece
      rcases List.mem_cons.mp hpiece with rfl | hpiece
      · -- the text is cut before a capital only
        cases rest with
        | nil => cases hends
        | cons d rest =>
          have hd : d.isUpper = true := (Bool.and_eq_true_iff.mp hends).1
          exact ⟨d, head?_pieces rest (h d (by simp)), hd⟩
      · exact hrest piece hpiece
    · exact hrest

/-! ## Pascal case -/

theorem capitalize_eq_self {word : List Char} (h : ∀ c, word.head? = some c → c.toUpper = c) :
    capitalize word = word := by
  cases word with
  | nil => rfl
  | cons c rest => rw [capitalize, h c rfl]

theorem isAlphanum_of_mem_capitalize {word : List Char} (h : ∀ c ∈ word, c.isAlphanum = true)
    {c : Char} (hc : c ∈ capitalize word) : c.isAlphanum = true := by
  cases word with
  | nil => cases hc
  | cons d rest =>
    rcases List.mem_cons.mp hc with rfl | hc
    · exact (toUpper_alphanum (h d List.mem_cons_self)).1
    · exact h c (List.mem_cons_of_mem d hc)

/-- A name in Pascal case consists of letters and digits. -/
theorem isAlphanum_of_mem_pascalCase {s : String} {c : Char} (h : c ∈ (pascalCase s).toList) :
    c.isAlphanum = true := by
  unfold pascalCase at h
  rw [String.toList_ofList] at h
  obtain ⟨word, hword, hc⟩ := List.mem_flatMap.mp h
  exact isAlphanum_of_mem_capitalize (fun d hd => isAlphanum_of_mem_words hword hd) hc

/-- The symbol of a model consists of letters and digits, or is an underscore. -/
theorem mem_modelName {name : String} {c : Char} (h : c ∈ (modelName name).toList) :
    c.isAlphanum = true ∨ c = '_' := by
  unfold modelName at h
  dsimp only at h
  split at h
  · exact .inr (List.mem_singleton.mp h)
  · exact .inl (isAlphanum_of_mem_pascalCase h)

theorem notMem_modelName {c : Char} (hplain : c.isAlphanum = false) (hother : c ≠ '_')
    (name : String) : c ∉ (modelName name).toList := by
  intro h
  rcases mem_modelName h with halphanum | heq
  · rw [hplain] at halphanum
    cases halphanum
  · exact hother heq

/-- **Names in Pascal case** need no escape. -/
theorem isPlain_pascalCase (s : String) : IsPlain (pascalCase s) :=
  ⟨fun h => absurd (isAlphanum_of_mem_pascalCase h) (by decide),
    fun h => absurd (isAlphanum_of_mem_pascalCase h) (by decide)⟩

/-- The first letter of a name in Pascal case is a capital, or a digit. -/
theorem toUpper_head_pascalCase {s : String} {c : Char}
    (h : (pascalCase s).toList.head? = some c) : c.toUpper = c := by
  unfold pascalCase at h
  rw [String.toList_ofList] at h
  cases hwords : words s with
  | nil =>
    rw [hwords] at h
    cases h
  | cons word more =>
    have hword : word ∈ words s := by
      rw [hwords]
      exact List.mem_cons_self
    cases word with
    | nil =>
      -- no word is empty
      have hempty := (List.mem_filter.mp hword).2
      cases hempty
    | cons d rest =>
      rw [hwords, List.flatMap_cons, capitalize] at h
      cases h
      exact (toUpper_alphanum (isAlphanum_of_mem_words hword List.mem_cons_self)).2

/-- A text of letters and digits that does not begin with a small letter is in Pascal case. -/
theorem pascalCase_eq_self {s : String} (h : ∀ c ∈ s.toList, c.isAlphanum = true)
    (hhead : ∀ c, s.toList.head? = some c → c.toUpper = c) : pascalCase s = s := by
  have hfirst : ∀ c, (pieces s.toList).1.head? = some c → c.toUpper = c := by
    intro c hc
    cases hs : s.toList with
    | nil =>
      rw [hs] at hc
      cases hc
    | cons d rest =>
      rw [hs] at h
      rw [hs, head?_pieces rest (h d List.mem_cons_self)] at hc
      exact hhead c (by rw [hs, ← hc]; rfl)
  have hpieces : ∀ piece ∈ (pieces s.toList).1 :: (pieces s.toList).2,
      capitalize piece = piece := by
    intro piece hpiece
    rcases List.mem_cons.mp hpiece with rfl | hpiece
    · exact capitalize_eq_self hfirst
    · obtain ⟨d, hd, hupper⟩ := head?_isUpper_of_mem_pieces h piece hpiece
      refine capitalize_eq_self fun c hc => ?_
      cases hd.symm.trans hc
      exact toUpper_of_isUpper hupper
  have hwords : (words s).flatMap capitalize = (words s).flatten := by
    rw [List.flatMap_def]
    congr 1
    refine (List.map_congr_left fun word hword => ?_).trans (List.map_id _)
    exact hpieces word (List.mem_filter.mp hword).1
  -- the empty pieces add nothing
  have hflatten : (words s).flatten = s.toList := by
    unfold words
    dsimp only
    rw [List.flatten_filter_not_isEmpty, List.flatten_cons, flatten_pieces h]
  rw [pascalCase, hwords, hflatten, String.ofList_toList]

/-- **A name in Pascal case** stays as it is. -/
theorem pascalCase_pascalCase (s : String) : pascalCase (pascalCase s) = pascalCase s :=
  pascalCase_eq_self (fun _ => isAlphanum_of_mem_pascalCase) fun _ => toUpper_head_pascalCase

/-! ## Files -/

/-- The words of a name, whatever their case. -/
def lowerWords (s : String) : List (List Char) := (words s).map (·.map Char.toLower)

theorem isAlphanum_of_mem_lowerWords {s : String} {word : List Char} (h : word ∈ lowerWords s) :
    word ≠ [] ∧ ∀ c ∈ word, c.isAlphanum = true := by
  obtain ⟨word', hword, rfl⟩ := List.mem_map.mp h
  have hlower : ∀ c : Char, c.isAlphanum = true → c.toLower.isAlphanum = true := fun c hc =>
    forall_alphanum (p := fun c => c.toLower.isAlphanum = true) (by decide) hc
  constructor
  · have hempty : (!word'.isEmpty) = true := (List.mem_filter.mp hword).2
    simpa using hempty
  · intro c hc
    obtain ⟨d, hd, rfl⟩ := List.mem_map.mp hc
    exact hlower d (isAlphanum_of_mem_words hword hd)

/-- Between hyphens, words without a hyphen can be told apart again. -/
theorem intercalate_hyphen_inj {xs ys : List (List Char)} (hxs : ∀ x ∈ xs, x ≠ [] ∧ '-' ∉ x)
    (hys : ∀ y ∈ ys, y ≠ [] ∧ '-' ∉ y) (h : ['-'].intercalate xs = ['-'].intercalate ys) : xs = ys := by
  have hsplit : ∀ zs : List (List Char), zs ≠ [] → (∀ z ∈ zs, z ≠ [] ∧ '-' ∉ z) →
      (['-'].intercalate zs).splitOn '-' = zs :=
    fun zs hne hzs => List.splitOn_intercalate '-' (fun z hz => (hzs z hz).2) hne
  -- only no words at all give the empty text
  have hnil : ∀ zs : List (List Char), (∀ z ∈ zs, z ≠ [] ∧ '-' ∉ z) →
      ['-'].intercalate zs = [] → zs = [] := by
    intro zs hzs hempty
    cases zs with
    | nil => rfl
    | cons z more =>
      have hone := hsplit (z :: more) (List.cons_ne_nil z more) hzs
      rw [hempty] at hone
      have hmem : [] ∈ z :: more := by
        rw [← hone]
        exact List.mem_singleton.mpr rfl
      exact absurd rfl (hzs [] hmem).1
  by_cases hx : xs = []
  · subst hx
    exact (hnil ys hys (by rw [← h]; rfl)).symm
  · by_cases hy : ys = []
    · subst hy
      exact hnil xs hxs (by rw [h]; rfl)
    · rw [← hsplit xs hx hxs, h, hsplit ys hy hys]

/-- Two names have one kebab case if their words are the same up to case. -/
theorem kebabCase_eq_iff {a b : String} : kebabCase a = kebabCase b ↔ lowerWords a = lowerWords b := by
  have hwords : ∀ s, ∀ word ∈ lowerWords s, word ≠ [] ∧ '-' ∉ word := by
    intro s word hword
    obtain ⟨hne, halnum⟩ := isAlphanum_of_mem_lowerWords hword
    exact ⟨hne, fun h => absurd (halnum _ h) (by decide)⟩
  constructor
  · intro h
    exact intercalate_hyphen_inj (hwords a) (hwords b) (String.ofList_inj.mp h)
  · intro h
    have hkebab : ∀ s, kebabCase s = String.ofList (['-'].intercalate (lowerWords s)) := fun _ => rfl
    rw [hkebab, hkebab, h]

/-- **Two names have one file** if their words are the same up to case. -/
theorem fileName_eq_iff {a b : String} : fileName a = fileName b ↔ lowerWords a = lowerWords b := by
  rw [← kebabCase_eq_iff]
  exact String.append_left_inj ".ts"

/-- A name in kebab case consists of letters, digits and hyphens. -/
theorem mem_kebabCase {s : String} {c : Char} (h : c ∈ (kebabCase s).toList) :
    c = '-' ∨ c.isAlphanum = true := by
  unfold kebabCase at h
  rw [String.toList_ofList] at h
  rcases Text.mem_intercalate h with hsep | ⟨word, hword, hc⟩
  · exact .inl (List.mem_singleton.mp hsep)
  · exact .inr ((isAlphanum_of_mem_lowerWords hword).2 _ hc)

/-- A file name is one name of a path. -/
theorem notMem_fileName (s : String) : '/' ∉ (fileName s).toList := by
  unfold fileName
  rw [String.toList_append, List.mem_append, not_or]
  refine ⟨fun h => ?_, by decide⟩
  rcases mem_kebabCase h with hsep | halnum
  · exact absurd hsep (by decide)
  · exact absurd halnum (by decide)

/-! ## Identifiers -/

/-- Only what separates words may be written differently. -/
theorem pieces_map {f : Char → Char} (hsame : ∀ c, c.isAlphanum = true → f c = c)
    (hother : ∀ c, c.isAlphanum = false → (f c).isAlphanum = false) (cs : List Char) :
    pieces (cs.map f) = pieces cs := by
  have hupper : ∀ c, (f c).isUpper = c.isUpper := by
    intro c
    cases h : c.isAlphanum with
    | true => rw [hsame c h]
    | false =>
      have hf := hother c h
      simp only [isAlphanum_eq, Bool.or_eq_false_iff] at h hf
      rw [h.1.1, hf.1.1]
  have hlower : ∀ c, (f c).isLower = c.isLower := by
    intro c
    cases h : c.isAlphanum with
    | true => rw [hsame c h]
    | false =>
      have hf := hother c h
      simp only [isAlphanum_eq, Bool.or_eq_false_iff] at h hf
      rw [h.1.2, hf.1.2]
  have hends : ∀ c rest, endsWord c (rest.map f) = endsWord c rest := by
    intro c rest
    cases rest with
    | nil => rfl
    | cons d more =>
      rw [List.map_cons, endsWord, endsWord, hupper, List.head?_map]
      cases more.head? with
      | none => rfl
      | some e => rw [Option.map_some, Option.any_some, Option.any_some, hlower]
  induction cs with
  | nil => rfl
  | cons c rest ih =>
    cases h : c.isAlphanum with
    | true =>
      rw [List.map_cons, pieces, pieces, hsame c h, hends, ih]
    | false =>
      rw [List.map_cons, pieces, pieces, ih, h, hother c h]
      rfl

/-- What an identifier has instead of other characters separates words as they do. -/
theorem words_map_identifier (s : String) :
    words (String.ofList (s.toList.map fun c => if isIdentifierPart c then c else '_')) = words s := by
  unfold words
  rw [String.toList_ofList, pieces_map]
  · intro c h
    rw [if_pos (by simp [isIdentifierPart, h])]
  · intro c h
    split
    · exact h
    · rfl

theorem words_cons_underscore (cs : List Char) :
    words (String.ofList ('_' :: cs)) = words (String.ofList cs) := by
  unfold words
  rw [String.toList_ofList, String.toList_ofList, pieces]
  dsimp only
  rw [if_pos (by decide)]
  rfl

theorem words_reserved : ∀ word ∈ reservedWords, words (word ++ "_") = words word := by
  decide +kernel

/-- **An identifier has the words of the text** it is made for. -/
theorem words_validIdentifier (s : String) : words (validIdentifier s) = words s := by
  have hmap := words_map_identifier s
  unfold validIdentifier
  split
  · rename_i hnil
    rw [hnil] at hmap
    rw [← hmap]
    decide
  · rename_i c rest hcons
    rw [hcons] at hmap
    have hname : words (String.ofList (if c.isDigit then '_' :: c :: rest else c :: rest)) = words s := by
      split
      · rw [words_cons_underscore, hmap]
      · exact hmap
    generalize String.ofList (if c.isDigit then '_' :: c :: rest else c :: rest) = name at hname
    dsimp only
    split
    · rename_i hreserved
      rw [words_reserved name (List.contains_iff_mem.mp hreserved), hname]
    · exact hname

/-- An identifier is made of parts of identifiers. -/
theorem isIdentifierPart_of_mem_validIdentifier {s : String} {c : Char}
    (h : c ∈ (validIdentifier s).toList) : isIdentifierPart c = true := by
  have hmap : ∀ d ∈ s.toList.map fun c => if isIdentifierPart c then c else '_',
      isIdentifierPart d = true := by
    intro d hd
    obtain ⟨c, -, rfl⟩ := List.mem_map.mp hd
    split
    · assumption
    · decide
  unfold validIdentifier at h
  split at h
  · rw [List.mem_singleton.mp h]
    decide
  · rename_i first rest hcons
    rw [hcons] at hmap
    have hname : ∀ d ∈ (String.ofList (if first.isDigit then '_' :: first :: rest else first :: rest)).toList,
        isIdentifierPart d = true := by
      rw [String.toList_ofList]
      split
      · exact List.forall_mem_cons.mpr ⟨by decide, hmap⟩
      · exact hmap
    generalize String.ofList (if first.isDigit then '_' :: first :: rest else first :: rest) = base
      at h hname
    dsimp only at h
    split at h
    · rw [String.toList_append] at h
      rcases List.mem_append.mp h with h | h
      · exact hname c h
      · rw [List.mem_singleton.mp h]
        decide
    · exact hname c h

/-- The symbol of a model is its name in Pascal case, if there is anything in it. -/
theorem modelName_eq (s : String) :
    modelName s = if pascalCase s = "" then "_" else pascalCase s := by
  have hpascal : pascalCase (validIdentifier s) = pascalCase s := by
    unfold pascalCase
    rw [words_validIdentifier]
  unfold modelName
  dsimp only
  rw [hpascal]
  simp only [String.isEmpty_iff]

/-- **Two names have one symbol** if they are the same in Pascal case. -/
theorem modelName_eq_pascalCase_iff {s t : String} :
    modelName s = pascalCase t ↔ pascalCase s = pascalCase t ∧ pascalCase t ≠ "" := by
  have hunderscore : "_" ≠ pascalCase t := by
    intro h
    have hmem : '_' ∈ (pascalCase t).toList := by
      rw [← h]
      decide
    exact absurd (isAlphanum_of_mem_pascalCase hmem) (by decide)
  rw [modelName_eq]
  split
  · rename_i hempty
    rw [hempty]
    exact ⟨fun h => absurd h hunderscore, fun h => absurd h.1.symm h.2⟩
  · rename_i hne
    exact ⟨fun h => ⟨h, h ▸ hne⟩, fun h => h.1⟩

/-! ## Words behind a text -/

theorem pieces_of_separator {c : Char} (h : c.isAlphanum = false) (rest : List Char) :
    pieces (c :: rest) = ([], (pieces rest).1 :: (pieces rest).2) := by
  rw [pieces, h]
  rfl

theorem pieces_of_cut {c : Char} {rest : List Char} (h : c.isAlphanum = true)
    (hends : endsWord c rest = true) :
    pieces (c :: rest) = ([c], (pieces rest).1 :: (pieces rest).2) := by
  rw [pieces, h, hends]
  rfl

theorem pieces_of_letter {c : Char} {rest : List Char} (h : c.isAlphanum = true)
    (hends : endsWord c rest = false) :
    pieces (c :: rest) = (c :: (pieces rest).1, (pieces rest).2) := by
  rw [pieces, h, hends]
  rfl

/-- A word that any text is cut before: a capital, then a small letter, and no cut in it. -/
structure IsWord (word : List Char) : Prop where
  whole : pieces word = (word, [])
  start : ∃ u l rest, word = u :: l :: rest ∧ u.isUpper = true ∧ u.isLower = false
    ∧ l.isLower = true

variable {word : List Char}

theorem IsWord.ne_nil (h : IsWord word) : word.isEmpty = false := by
  obtain ⟨u, l, rest, rfl, -⟩ := h.start
  rfl

theorem IsWord.endsWord (h : IsWord word) {c : Char} (hc : c.isAlphanum = true) :
    endsWord c word = true := by
  obtain ⟨u, l, rest, rfl, hu, -, hl⟩ := h.start
  simp only [isAlphanum_eq, Bool.or_eq_true] at hc
  rcases hc with (hc | hc) | hc <;> simp [Naming.endsWord, hu, hl, hc]

theorem IsWord.endsWord_append (h : IsWord word) (c : Char) {cs : List Char} (hcs : cs ≠ []) :
    Naming.endsWord c (cs ++ word) = Naming.endsWord c cs := by
  obtain ⟨u, l, rest, rfl, -, hu, -⟩ := h.start
  obtain ⟨d, more, rfl⟩ := List.exists_cons_of_ne_nil hcs
  cases more with
  | nil => simp [Naming.endsWord, hu]
  | cons e more => rfl

/-- The pieces of a text with a word behind it are those of the text, and the word. -/
theorem IsWord.pieces_append (h : IsWord word) {cs : List Char} (hcs : cs ≠ []) :
    (pieces (cs ++ word)).1 = (pieces cs).1
      ∧ (pieces (cs ++ word)).2.filter (!·.isEmpty)
        = (pieces cs).2.filter (!·.isEmpty) ++ [word] := by
  induction cs with
  | nil => exact absurd rfl hcs
  | cons c rest ih =>
    rw [List.cons_append]
    by_cases hrest : rest = []
    · -- the cut before the word
      subst hrest
      rw [List.nil_append]
      cases hc : c.isAlphanum with
      | true =>
        rw [pieces_of_cut hc (h.endsWord hc), pieces_of_letter hc rfl, h.whole]
        simp [pieces, h.ne_nil]
      | false =>
        rw [pieces_of_separator hc, pieces_of_separator hc, h.whole]
        simp [pieces, h.ne_nil]
    · obtain ⟨hfirst, hothers⟩ := ih hrest
      have hends := h.endsWord_append c hrest
      have hcons : ((pieces (rest ++ word)).1 :: (pieces (rest ++ word)).2).filter (!·.isEmpty)
          = ((pieces rest).1 :: (pieces rest).2).filter (!·.isEmpty) ++ [word] := by
        rw [hfirst, List.filter_cons, List.filter_cons, hothers]
        split <;> rfl
      cases hc : c.isAlphanum with
      | true =>
        cases hcut : Naming.endsWord c rest with
        | true =>
          rw [pieces_of_cut hc (hends.trans hcut), pieces_of_cut hc hcut]
          exact ⟨rfl, hcons⟩
        | false =>
          rw [pieces_of_letter hc (hends.trans hcut), pieces_of_letter hc hcut, hfirst]
          exact ⟨rfl, hothers⟩
      | false =>
        rw [pieces_of_separator hc, pieces_of_separator hc]
        exact ⟨rfl, hcons⟩

theorem words_append (s : String) {word : String} (h : IsWord word.toList) :
    words (s ++ word) = words s ++ [word.toList] := by
  unfold words
  rw [String.toList_append]
  dsimp only
  cases hs : s.toList with
  | nil => simp [h.whole, pieces, h.ne_nil]
  | cons c rest =>
    obtain ⟨hfirst, hothers⟩ := h.pieces_append (List.cons_ne_nil c rest)
    rw [hfirst, List.filter_cons, List.filter_cons, hothers]
    split <;> rfl

/-- **A word behind a text** stays as it is. -/
theorem pascalCase_append (s : String) {word : String} (h : IsWord word.toList) :
    pascalCase (s ++ word) = pascalCase s ++ word := by
  have hcapital : capitalize word.toList = word.toList := by
    obtain ⟨u, l, rest, heq, hu, -⟩ := h.start
    rw [heq, capitalize, toUpper_of_isUpper hu]
  unfold pascalCase
  rw [words_append s h, List.flatMap_append, List.flatMap_singleton, hcapital, String.ofList_append,
    String.ofList_toList]

end ApiContract.Naming
