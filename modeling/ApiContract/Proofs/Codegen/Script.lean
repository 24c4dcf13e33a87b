import Mathlib.Data.List.TakeWhile
import Mathlib.Tactic.Common
import ApiContract.Codegen.GraphQl
import ApiContract.Proofs.Text.Marks

/-!
# How a script reads generated regions

Generated code holds text of a document in three kinds of places that have an end of their own: a
block comment ends at its first `*/`, a template literal at the first backquote that is not
escaped, a regular expression literal at the first slash that is neither escaped nor in a class.
The readers here follow the lexical grammar of the language that the code is written in, and each is
set against the text that the region was meant to hold.

* **`afterComment_iff`** — a comment ends where it should exactly if its text holds no `*/`.
* **`readTemplate_iff`** — a template literal whose backquotes are escaped stands for its text
  exactly if that holds no backslash, no carriage return and no opening of a substitution.
* **`readPattern_iff`** — a pattern is the body of the literal exactly if it is one by the grammar.
-/

namespace ApiContract.Script

open Text (pair_infix_cons)

/-! ## Block comments -/

/-- What follows a block comment, from behind its opening. -/
def afterComment : List Char → Option (List Char)
  | [] => none
  | [_] => none
  | c :: d :: rest => if c = '*' ∧ d = '/' then some rest else afterComment (d :: rest)

/-- What follows a block comment that the text begins with. -/
def comment? : List Char → Option (List Char)
  | '/' :: '*' :: rest => afterComment rest
  | _ => none

/-- The text does not hold the end of a comment. -/
def KeepsComment (text : List Char) : Prop := ¬['*', '/'] <:+: text

instance (text : List Char) : Decidable (KeepsComment text) :=
  inferInstanceAs (Decidable (¬_))

/-- **A comment ends at its own end** exactly if its text holds no other one. -/
theorem afterComment_iff {text rest : List Char} :
    afterComment (text ++ '*' :: '/' :: rest) = some rest ↔ KeepsComment text := by
  unfold KeepsComment
  induction text with
  | nil => simp [afterComment]
  | cons c text ih =>
    rw [pair_infix_cons, not_or, ← ih]
    cases text with
    | nil => simp [afterComment]
    | cons d more =>
      show (if c = '*' ∧ d = '/' then some (more ++ '*' :: '/' :: rest) else _) = _ ↔ _
      split
      · next hend =>
        -- what is left then is longer than what follows the comment
        have hlong : more ++ '*' :: '/' :: rest ≠ rest := fun h => by
          have := congrArg List.length h
          simp at this
          omega
        simp [hend.1, hend.2, hlong]
      · next hother =>
        have hpair : ¬('*' = c ∧ (d :: more).head? = some '/') := by
          rintro ⟨rfl, hd⟩
          exact hother ⟨rfl, by simpa using hd⟩
        exact (and_iff_right hpair).symm

/-! ## Template literals -/

/-- The code units of a character. -/
def codeUnits (n : Nat) : List Nat :=
  if n < 0x10000 then [n] else [0xD800 + (n - 0x10000) / 0x400, 0xDC00 + (n - 0x10000) % 0x400]

/-- The code units of a text. -/
def unitsOf (text : List Char) : List Nat := text.flatMap fun c => codeUnits c.toNat

theorem unitsOf_cons (c : Char) (text : List Char) :
    unitsOf (c :: text) = codeUnits c.toNat ++ unitsOf text := rfl

theorem unitsOf_append (xs ys : List Char) : unitsOf (xs ++ ys) = unitsOf xs ++ unitsOf ys :=
  List.flatMap_append

theorem length_codeUnits (n : Nat) : 1 ≤ (codeUnits n).length ∧ (codeUnits n).length ≤ 2 := by
  unfold codeUnits
  split <;> simp

theorem length_le_unitsOf (text : List Char) : text.length ≤ (unitsOf text).length := by
  induction text with
  | nil => exact Nat.zero_le _
  | cons c text ih =>
    have := length_codeUnits c.toNat
    rw [unitsOf_cons, List.length_append, List.length_cons]
    omega

/-- The characters that end a line. -/
def lineEnds : List Char := ['\n', '\r', '\u2028', '\u2029']

def hexDigit? (c : Char) : Option Nat :=
  if c.isDigit then some (c.toNat - '0'.toNat)
  else if 'a' ≤ c ∧ c ≤ 'f' then some (c.toNat - 'a'.toNat + 10)
  else if 'A' ≤ c ∧ c ≤ 'F' then some (c.toNat - 'A'.toNat + 10)
  else none

/-- The number that hexadecimal digits stand for. -/
def hexNumber? (digits : List Char) : Option Nat :=
  digits.foldlM (fun n c => (hexDigit? c).map (16 * n + ·)) 0

/-- The character that one character behind a backslash stands for. -/
def singleEscape : Char → Char
  | 'b' => '\x08'
  | 't' => '\t'
  | 'n' => '\n'
  | 'v' => '\x0b'
  | 'f' => '\x0c'
  | 'r' => '\r'
  | c => c

/-- The number in the next `count` digits, with that count. -/
def readDigits (count : Nat) (text : List Char) : Option (Nat × Nat) :=
  if count ≤ text.length then (hexNumber? (text.take count)).map fun n => (count, n) else none

/-- The number up to a closing brace, with the count of characters up to behind it. -/
def readBraced (text : List Char) : Option (Nat × Nat) :=
  let isHex (c : Char) : Bool := (hexDigit? c).isSome
  let digits := text.takeWhile isHex
  match hexNumber? digits with
  | some n =>
    if digits ≠ [] ∧ n ≤ 0x10FFFF ∧ (text.dropWhile isHex).head? = some '\x7d' then
      some (digits.length + 1, n)
    else none
  | none => none

/-- An escape from behind its backslash: how many characters it has, and what it stands for. -/
def readEscape (text : List Char) : Option (Nat × List Nat) :=
  match text with
  | [] => none
  | c :: rest =>
    if c = 'x' then (readDigits 2 rest).map fun (count, n) => (count + 1, codeUnits n)
    else if c = 'u' ∧ rest.head? = some '\x7b' then
      (readBraced rest.tail).map fun (count, n) => (count + 2, codeUnits n)
    else if c = 'u' then (readDigits 4 rest).map fun (count, n) => (count + 1, codeUnits n)
    else if c = '0' ∧ (rest.head?.map Char.isDigit).getD false = false then some (1, [0])
    else if c.isDigit then none
    else if c = '\r' ∧ rest.head? = some '\n' then some (2, [])
    else if c ∈ lineEnds then some (1, [])
    else some (1, codeUnits (singleEscape c).toNat)

/-- What follows a line end, from behind its carriage return. -/
def afterReturn (text : List Char) : List Char :=
  if text.head? = some '\n' then text.tail else text

theorem afterReturn_eq (text : List Char) :
    afterReturn text = text ∨ text = '\n' :: afterReturn text := by
  unfold afterReturn
  split
  · next h =>
    obtain ⟨rest, rfl⟩ := List.head?_eq_some_iff.mp h
    exact .inr rfl
  · exact .inl rfl

/-- A template literal from behind its opening: the code units it stands for, and what follows it.
One with a substitution stands for no text of its own. -/
def readTemplate : List Char → Option (List Nat × List Char)
  | [] => none
  | c :: rest =>
    if c = '\x60' then some ([], rest)
    else if c = '\\' then
      match readEscape rest with
      | some (count, units) => (readTemplate (rest.drop count)).map (Prod.map (units ++ ·) id)
      | none => none
    else if c = '$' ∧ rest.head? = some '\x7b' then none
    else if c = '\r' then (readTemplate (afterReturn rest)).map (Prod.map (10 :: ·) id)
    else (readTemplate rest).map (Prod.map (codeUnits c.toNat ++ ·) id)
termination_by text => text.length
decreasing_by
  · simp only [List.length_drop, List.length_cons]
    omega
  · rcases afterReturn_eq rest with h | h
    · rw [h]
      exact Nat.lt_succ_self _
    · have := congrArg List.length h
      simp only [List.length_cons] at this ⊢
      omega
  · exact Nat.lt_succ_self _

/-- The text stands for itself between backquotes, once its own are escaped. -/
def KeepsTemplate (text : List Char) : Prop :=
  '\\' ∉ text ∧ '\r' ∉ text ∧ ¬['$', '\x7b'] <:+: text

instance (text : List Char) : Decidable (KeepsTemplate text) :=
  inferInstanceAs (Decidable (_ ∧ _ ∧ _))

theorem isHex_of_hexNumber? {digits : List Char} {n m : Nat} {c : Char}
    (h : digits.foldlM (fun n c => (hexDigit? c).map (16 * n + ·)) m = some n) (hc : c ∈ digits) :
    (hexDigit? c).isSome = true := by
  induction digits generalizing m with
  | nil => cases hc
  | cons d rest ih =>
    rw [List.foldlM_cons] at h
    obtain ⟨k, hk, h⟩ := Option.bind_eq_some_iff.mp h
    rcases List.mem_cons.mp hc with rfl | hc
    · obtain ⟨v, hv, -⟩ := Option.map_eq_some_iff.mp hk
      rw [hv]
      rfl
    · exact ih h hc

/-- What an escape takes up: it never stands for more than what it is written with, and a backquote
in it is the whole of it. -/
structure Escape (text : List Char) (count : Nat) (units : List Nat) : Prop where
  pos : 0 < count
  length_le : count ≤ text.length
  units_le : units.length ≤ (unitsOf (text.take count)).length
  whole : '\x60' ∈ text.take count → text.take count = ['\x60']

/-- Escapes by number have at least as many characters as code units. -/
theorem escape_of_number {text : List Char} {count : Nat} (n : Nat) (hcount : 2 ≤ count)
    (hlength : count ≤ text.length)
    (h : ∀ c ∈ text.take count, c ∈ ['x', 'u', '\x7b', '\x7d'] ∨ (hexDigit? c).isSome = true) :
    Escape text count (codeUnits n) where
  pos := by omega
  length_le := hlength
  units_le := by
    have htwo := (length_codeUnits n).2
    have hread := length_le_unitsOf (text.take count)
    rw [List.length_take_of_le hlength] at hread
    omega
  whole hmem := absurd (h _ hmem) (by decide)

theorem escape_of_single {c : Char} (rest : List Char) {units : List Nat}
    (h : units.length ≤ (codeUnits c.toNat).length) : Escape (c :: rest) 1 units where
  pos := Nat.one_pos
  length_le := by simp
  units_le := by simpa [unitsOf] using h
  whole hmem := by
    rw [List.take_succ_cons, List.take_zero] at hmem ⊢
    rw [List.mem_singleton.mp hmem]

theorem length_singleEscape (c : Char) :
    (codeUnits (singleEscape c).toNat).length ≤ (codeUnits c.toNat).length := by
  unfold singleEscape
  split <;> exact Nat.le_refl _

theorem escape_of_digits {c : Char} {rest : List Char} {count k n : Nat} (hc : c = 'x' ∨ c = 'u')
    (hcount : 1 ≤ count) (h : readDigits count rest = some (k, n)) :
    Escape (c :: rest) (k + 1) (codeUnits n) := by
  unfold readDigits at h
  obtain ⟨hlength, h⟩ := Option.ite_none_right_eq_some.mp h
  obtain ⟨n, hn, h⟩ := Option.map_eq_some_iff.mp h
  cases h
  refine escape_of_number n (by omega) (by simpa using hlength) fun d hd => ?_
  rcases List.mem_cons.mp (List.take_succ_cons ▸ hd) with rfl | hd
  · exact .inl (by rcases hc with rfl | rfl <;> simp)
  · exact .inr (isHex_of_hexNumber? hn hd)

theorem escape_of_braced {rest : List Char} {k n : Nat} (h : readBraced rest = some (k, n)) :
    Escape ('u' :: '\x7b' :: rest) (k + 2) (codeUnits n) := by
  unfold readBraced at h
  dsimp only at h
  split at h
  · obtain ⟨⟨-, -, hclose⟩, h⟩ := Option.ite_none_right_eq_some.mp h
    cases h
    obtain ⟨more, hmore⟩ := List.head?_eq_some_iff.mp hclose
    have hrest := List.takeWhile_append_dropWhile (p := fun c => (hexDigit? c).isSome) (l := rest)
    have hhex : ∀ c ∈ rest.takeWhile (fun c => (hexDigit? c).isSome), (hexDigit? c).isSome = true :=
      fun c hc => List.mem_takeWhile_imp (p := fun c => (hexDigit? c).isSome) hc
    rw [hmore] at hrest
    generalize rest.takeWhile (fun c => (hexDigit? c).isSome) = digits at *
    subst hrest
    refine escape_of_number n (by omega) (by simp) fun c hc => ?_
    have hread : ('u' :: '\x7b' :: (digits ++ '\x7d' :: more)).take (digits.length + 1 + 2)
        = 'u' :: '\x7b' :: (digits ++ ['\x7d']) := by
      simp [List.take_append]
    rw [hread] at hc
    simp only [List.mem_cons, List.mem_append, List.not_mem_nil, or_false] at hc
    rcases hc with rfl | rfl | hc | rfl
    · simp
    · simp
    · exact .inr (hhex c hc)
    · simp
  · cases h

theorem escape_of_readEscape {text : List Char} {count : Nat} {units : List Nat}
    (h : readEscape text = some (count, units)) : Escape text count units := by
  unfold readEscape at h
  cases text with
  | nil => cases h
  | cons c rest =>
    dsimp only at h
    split_ifs at h with hx hbraced hu hzero hdigit hlines hline
    · obtain ⟨⟨k, n⟩, hread, h⟩ := Option.map_eq_some_iff.mp h
      cases h
      exact escape_of_digits (.inl hx) (by decide) hread
    · obtain ⟨⟨k, n⟩, hread, h⟩ := Option.map_eq_some_iff.mp h
      cases h
      obtain ⟨rfl, hopen⟩ := hbraced
      obtain ⟨more, rfl⟩ := List.head?_eq_some_iff.mp hopen
      exact escape_of_braced hread
    · obtain ⟨⟨k, n⟩, hread, h⟩ := Option.map_eq_some_iff.mp h
      cases h
      exact escape_of_digits (.inr hu) (by decide) hread
    · cases h
      exact escape_of_single rest (length_codeUnits _).1
    · -- both characters of a line end
      cases h
      obtain ⟨rfl, hnext⟩ := hlines
      obtain ⟨more, rfl⟩ := List.head?_eq_some_iff.mp hnext
      exact ⟨by omega, by simp, Nat.zero_le _, fun hmem => by simp at hmem⟩
    · cases h
      exact escape_of_single rest (Nat.zero_le _)
    · cases h
      exact escape_of_single rest (length_singleEscape c)

/-- One reading step: what a piece of the source adds to the code units of the rest. -/
theorem exists_of_map {read : Option (List Nat × List Char)} {units : List Nat}
    {rest : List Char} (piece : List Nat) (h : read.map (Prod.map (piece ++ ·) id) = some (units, rest)) :
    ∃ more, read = some (more, rest) ∧ units = piece ++ more := by
  obtain ⟨⟨more, after⟩, hread, h⟩ := Option.map_eq_some_iff.mp h
  cases h
  exact ⟨more, hread, rfl⟩

/-- **A template literal never stands for more than what it is written with**, and each backquote in
it costs a backslash. -/
theorem length_of_readTemplate {text rest : List Char} {units : List Nat}
    (h : readTemplate text = some (units, rest)) :
    ∃ body, text = body ++ '\x60' :: rest
      ∧ units.length + body.count '\x60' ≤ (unitsOf body).length := by
  fun_induction readTemplate text generalizing units with
  | case1 => cases h
  | case2 after =>
    cases h
    exact ⟨[], rfl, Nat.le_refl 0⟩
  | case3 source count piece hescape hquote ih =>
    obtain ⟨more, hread, rfl⟩ := exists_of_map _ h
    obtain ⟨body, hbody, hlength⟩ := ih hread
    obtain ⟨-, -, hpiece, hwhole⟩ := escape_of_readEscape hescape
    -- a backquote is escaped by itself, so an escape with one costs its backslash
    have hcost : piece.length + (source.take count).count '\x60'
        ≤ 1 + (unitsOf (source.take count)).length := by
      by_cases hmem : '\x60' ∈ source.take count
      · rw [hwhole hmem] at hpiece ⊢
        have hone : List.count '\x60' ['\x60'] = 1 := rfl
        omega
      · rw [List.count_eq_zero_of_not_mem hmem]
        omega
    refine ⟨'\\' :: (source.take count ++ body), ?_, ?_⟩
    · rw [List.cons_append, List.append_assoc, ← hbody, List.take_append_drop]
    · rw [unitsOf_cons, unitsOf_append, List.count_cons_of_ne (by decide), List.count_append]
      simp only [List.length_append]
      have hback : (codeUnits '\\'.toNat).length = 1 := rfl
      omega
  | case4 => cases h
  | case5 => cases h
  | case6 source _ _ _ ih =>
    obtain ⟨more, hread, rfl⟩ := exists_of_map [10] h
    obtain ⟨body, hbody, hlength⟩ := ih hread
    rcases afterReturn_eq source with hsame | hline
    · rw [hsame] at hbody
      refine ⟨'\r' :: body, by rw [hbody, List.cons_append], ?_⟩
      rw [unitsOf_cons, List.count_cons_of_ne (by decide), List.length_append, List.length_append]
      have hreturn : (codeUnits '\r'.toNat).length = 1 := rfl
      simp only [List.length_singleton]
      omega
    · rw [hbody] at hline
      refine ⟨'\r' :: '\n' :: body, by rw [hline, List.cons_append, List.cons_append], ?_⟩
      rw [unitsOf_cons, unitsOf_cons, List.count_cons_of_ne (by decide),
        List.count_cons_of_ne (by decide)]
      simp only [List.length_append, List.length_singleton]
      have hreturn : (codeUnits '\r'.toNat).length = 1 := rfl
      omega
  | case7 c source hquote hback hopen hreturn ih =>
    obtain ⟨more, hread, rfl⟩ := exists_of_map _ h
    obtain ⟨body, rfl, hlength⟩ := ih hread
    refine ⟨c :: body, rfl, ?_⟩
    rw [unitsOf_cons, List.count_cons_of_ne hquote, List.length_append, List.length_append]
    omega

/-- The characters of a text in a template literal. -/
def templateChars (text : List Char) : List Char :=
  text.flatMap fun c => if c = '\x60' then ['\\', c] else [c]

theorem toList_templateText (text : String) :
    (Codegen.GraphQl.templateText text).toList = templateChars text.toList :=
  String.toList_ofList

theorem templateChars_quote (text : List Char) :
    templateChars ('\x60' :: text) = '\\' :: '\x60' :: templateChars text := rfl

theorem templateChars_cons {c : Char} (h : c ≠ '\x60') (text : List Char) :
    templateChars (c :: text) = c :: templateChars text := by
  unfold templateChars
  rw [List.flatMap_cons, if_neg h, List.singleton_append]

theorem templateChars_ne_quote (text more : List Char) : templateChars text ≠ '\x60' :: more := by
  cases text with
  | nil => simp [templateChars]
  | cons c text =>
    by_cases h : c = '\x60'
    · simp [h, templateChars_quote]
    · simp [templateChars_cons h, h]

theorem count_templateChars (text : List Char) :
    (templateChars text).count '\x60' = text.count '\x60' := by
  induction text with
  | nil => rfl
  | cons c text ih =>
    by_cases h : c = '\x60'
    · rw [h, templateChars_quote, List.count_cons_of_ne (by decide), List.count_cons_self,
        List.count_cons_self, ih]
    · rw [templateChars_cons h, List.count_cons_of_ne h, List.count_cons_of_ne h, ih]

theorem length_unitsOf_templateChars (text : List Char) :
    (unitsOf (templateChars text)).length = (unitsOf text).length + text.count '\x60' := by
  induction text with
  | nil => rfl
  | cons c text ih =>
    by_cases h : c = '\x60'
    · have hback : (codeUnits '\\'.toNat).length = 1 := rfl
      rw [h, templateChars_quote, List.count_cons_self]
      simp only [unitsOf_cons, List.length_append]
      omega
    · rw [templateChars_cons h, List.count_cons_of_ne h]
      simp only [unitsOf_cons, List.length_append]
      omega

theorem map_piece_iff {read : Option (List Nat × List Char)} {piece units : List Nat}
    {rest : List Char} :
    read.map (Prod.map (piece ++ ·) id) = some (piece ++ units, rest) ↔ read = some (units, rest) := by
  constructor
  · intro h
    obtain ⟨more, hread, hunits⟩ := exists_of_map _ h
    rw [hread, List.append_cancel_left hunits]
  · rintro rfl
    rfl

/-- A backslash of the text is taken for the start of an escape: either its literal ends elsewhere, or
what it stands for is too short. -/
theorem readTemplate_backslash_ne (text rest : List Char) :
    readTemplate ('\\' :: (templateChars text ++ '\x60' :: rest))
      ≠ some (unitsOf ('\\' :: text), rest) := by
  intro h
  rw [readTemplate, if_neg (by decide), if_pos rfl] at h
  split at h
  · next count piece hescape =>
    obtain ⟨more, hread, hunits⟩ := exists_of_map _ h
    obtain ⟨body, hbody, hlength⟩ := length_of_readTemplate hread
    obtain ⟨hpos, hcount, hpiece, hwhole⟩ := escape_of_readEscape hescape
    generalize hescaped : (templateChars text ++ '\x60' :: rest).take count = escaped at *
    -- the escape and the rest of the body make up the written text
    have hsplit : templateChars text = escaped ++ body := by
      have happend := List.take_append_drop count (templateChars text ++ '\x60' :: rest)
      rw [hescaped, hbody, ← List.append_assoc] at happend
      exact (List.append_cancel_right happend).symm
    have hquote : '\x60' ∉ escaped := fun hmem => by
      rw [hwhole hmem, List.singleton_append] at hsplit
      exact templateChars_ne_quote text body hsplit
    have htext := length_unitsOf_templateChars text
    have hquotes := count_templateChars text
    rw [hsplit] at htext hquotes
    rw [List.count_append, List.count_eq_zero_of_not_mem hquote] at hquotes
    have htotal := congrArg List.length hunits
    have hback : (codeUnits '\\'.toNat).length = 1 := rfl
    simp only [unitsOf_cons, unitsOf_append, List.length_append] at htext htotal
    omega
  · cases h

/-- **A template literal stands for its text**, and ends at its own end, exactly if the text holds
nothing but backquotes that means more than itself there. -/
theorem readTemplate_iff {text rest : List Char} :
    readTemplate (templateChars text ++ '\x60' :: rest) = some (unitsOf text, rest)
      ↔ KeepsTemplate text := by
  induction text with
  | nil =>
    have hempty : readTemplate ('\x60' :: rest) = some ([], rest) := by rw [readTemplate, if_pos rfl]
    simp [KeepsTemplate, templateChars, unitsOf, hempty]
  | cons c text ih =>
    by_cases hquote : c = '\x60'
    · subst hquote
      have hstep : readTemplate (templateChars ('\x60' :: text) ++ '\x60' :: rest)
          = (readTemplate (templateChars text ++ '\x60' :: rest)).map
              (Prod.map (codeUnits '\x60'.toNat ++ ·) id) := by
        rw [templateChars_quote, List.cons_append, readTemplate, if_neg (by decide), if_pos rfl]
        rfl
      rw [hstep, unitsOf_cons, map_piece_iff, ih]
      simp [KeepsTemplate, pair_infix_cons]
    rw [templateChars_cons hquote, List.cons_append]
    by_cases hback : c = '\\'
    · subst hback
      exact iff_of_false (readTemplate_backslash_ne text rest) fun h => h.1 List.mem_cons_self
    by_cases hreturn : c = '\r'
    · subst hreturn
      refine iff_of_false (fun h => ?_) fun h => h.2.1 List.mem_cons_self
      rw [readTemplate, if_neg (by decide), if_neg (by decide), if_neg (by simp), if_pos rfl] at h
      obtain ⟨more, -, hunits⟩ := exists_of_map [10] h
      exact absurd (congrArg List.head? hunits) (by simp [unitsOf_cons, codeUnits])
    have hhead : (templateChars text ++ '\x60' :: rest).head? = some '\x7b'
        ↔ text.head? = some '\x7b' := by
      cases text with
      | nil => simp [templateChars]
      | cons d more =>
        by_cases hd : d = '\x60'
        · simp [hd, templateChars_quote]
        · simp [templateChars_cons hd]
    by_cases hopen : c = '$' ∧ text.head? = some '\x7b'
    · refine iff_of_false (fun h => ?_) fun h => h.2.2 ?_
      · rw [readTemplate, if_neg hquote, if_neg hback, if_pos ⟨hopen.1, hhead.mpr hopen.2⟩] at h
        cases h
      · exact pair_infix_cons.mpr (.inl ⟨hopen.1.symm, hopen.2⟩)
    · rw [readTemplate, if_neg hquote, if_neg hback,
        if_neg fun h => hopen ⟨h.1, hhead.mp h.2⟩, if_neg hreturn, unitsOf_cons, map_piece_iff, ih]
      have hnone : ¬('$' = c ∧ text.head? = some '\x7b') := fun h => hopen ⟨h.1.symm, h.2⟩
      simp [KeepsTemplate, pair_infix_cons, Ne.symm hback, Ne.symm hreturn, hnone]

/-! ## Regular expression literals -/

/-- What stands between the brackets of a class. -/
inductive ClassBody : List Char → Prop where
  | nil : ClassBody []
  | plain {c : Char} {rest : List Char} (line : c ∉ lineEnds) (other : c ∉ ['\\', ']'])
      (more : ClassBody rest) : ClassBody (c :: rest)
  | escape {c : Char} {rest : List Char} (line : c ∉ lineEnds) (more : ClassBody rest) :
      ClassBody ('\\' :: c :: rest)

/-- What a regular expression literal is made of: characters, escapes and classes. -/
inductive Pieces : List Char → Prop where
  | nil : Pieces []
  | plain {c : Char} {rest : List Char} (line : c ∉ lineEnds) (other : c ∉ ['\\', '/', '['])
      (more : Pieces rest) : Pieces (c :: rest)
  | escape {c : Char} {rest : List Char} (line : c ∉ lineEnds) (more : Pieces rest) :
      Pieces ('\\' :: c :: rest)
  | group {inner rest : List Char} (body : ClassBody inner) (more : Pieces rest) :
      Pieces ('[' :: (inner ++ ']' :: rest))

/-- The body of a regular expression literal. An empty one would begin a comment, and so would one
that begins with a star. -/
structure IsPattern (text : List Char) : Prop where
  ne_nil : text ≠ []
  not_comment : text.head? ≠ some '*'
  pieces : Pieces text

/-- The characters of a regular expression literal up to the slash that ends it, and what follows:
behind a backslash or not, in a class or not. -/
def readPieces (escaped inClass : Bool) : List Char → Option (List Char × List Char)
  | [] => none
  | c :: rest =>
    if c ∈ lineEnds then none
    else if escaped then (readPieces false inClass rest).map (Prod.map (c :: ·) id)
    else if c = '\\' then (readPieces true inClass rest).map (Prod.map (c :: ·) id)
    else if c = '/' ∧ inClass = false then some ([], rest)
    else
      (readPieces false (c == '[' || inClass && c != ']') rest).map (Prod.map (c :: ·) id)

/-- A regular expression literal from behind its opening: its body, and what follows it. -/
def readPattern (text : List Char) : Option (List Char × List Char) :=
  if text.head? = some '*' ∨ text.head? = some '/' then none else readPieces false false text

/-- What may follow outside of a class, or inside of one. -/
def Resumes : (inClass : Bool) → List Char → Prop
  | false, text => Pieces text
  | true, text => ∃ inner rest, text = inner ++ ']' :: rest ∧ ClassBody inner ∧ Pieces rest

/-- What may follow behind a backslash, or elsewhere. -/
def Continues : (escaped inClass : Bool) → List Char → Prop
  | false, inClass, text => Resumes inClass text
  | true, inClass, text => ∃ c rest, text = c :: rest ∧ c ∉ lineEnds ∧ Resumes inClass rest

theorem continues_escaped {inClass : Bool} {c : Char} {rest : List Char} :
    Continues true inClass (c :: rest) ↔ c ∉ lineEnds ∧ Continues false inClass rest := by
  constructor
  · rintro ⟨d, more, h, hline, hmore⟩
    cases h
    exact ⟨hline, hmore⟩
  · exact fun ⟨hline, hmore⟩ => ⟨c, rest, rfl, hline, hmore⟩

/-- The first character of what follows outside a class. -/
theorem continues_plain {c : Char} {rest : List Char} :
    Continues false false (c :: rest) ↔ c ∉ lineEnds ∧
      (c = '\\' ∧ Continues true false rest ∨ c = '[' ∧ Continues false true rest
        ∨ c ∉ ['\\', '/', '['] ∧ Continues false false rest) := by
  constructor
  · intro h
    cases h with
    | plain line other more => exact ⟨line, .inr (.inr ⟨other, more⟩)⟩
    | escape line more => exact ⟨by decide, .inl ⟨rfl, _, _, rfl, line, more⟩⟩
    | group body more => exact ⟨by decide, .inr (.inl ⟨rfl, _, _, rfl, body, more⟩)⟩
  · rintro ⟨hline, ⟨rfl, d, more, rfl, hd, hmore⟩ | ⟨rfl, inner, more, rfl, hbody, hmore⟩
      | ⟨hother, hmore⟩⟩
    · exact .escape hd hmore
    · exact .group hbody hmore
    · exact .plain hline hother hmore

/-- The first character of what follows inside a class. -/
theorem continues_class {c : Char} {rest : List Char} :
    Continues false true (c :: rest) ↔ c ∉ lineEnds ∧
      (c = '\\' ∧ Continues true true rest ∨ c = ']' ∧ Continues false false rest
        ∨ c ∉ ['\\', ']'] ∧ Continues false true rest) := by
  constructor
  · rintro ⟨inner, more, h, hbody, hmore⟩
    cases hbody with
    | nil =>
      cases h
      exact ⟨by decide, .inr (.inl ⟨rfl, hmore⟩)⟩
    | plain line other body =>
      cases h
      exact ⟨line, .inr (.inr ⟨other, _, _, rfl, body, hmore⟩)⟩
    | escape line body =>
      cases h
      exact ⟨by decide, .inl ⟨rfl, _, _, rfl, line, _, _, rfl, body, hmore⟩⟩
  · rintro ⟨hline, ⟨rfl, d, _, rfl, hd, inner, more, rfl, hbody, hmore⟩ | ⟨rfl, hmore⟩
      | ⟨hother, inner, more, rfl, hbody, hmore⟩⟩
    · exact ⟨'\\' :: d :: inner, more, rfl, .escape hd hbody, hmore⟩
    · exact ⟨[], rest, rfl, .nil, hmore⟩
    · exact ⟨c :: inner, more, rfl, .plain hline hother hbody, hmore⟩

theorem map_cons_iff {read : Option (List Char × List Char)} {c : Char} {text rest : List Char} :
    read.map (Prod.map (c :: ·) id) = some (c :: text, rest) ↔ read = some (text, rest) := by
  cases read with
  | none => simp
  | some pair => simp [Prod.ext_iff]

theorem map_cons_ne_nil {read : Option (List Char × List Char)} {c : Char} {rest : List Char} :
    read.map (Prod.map (c :: ·) id) ≠ some ([], rest) := by
  cases read with
  | none => simp
  | some pair => simp [Prod.ext_iff]

theorem readPieces_iff {escaped inClass : Bool} {text rest : List Char} :
    readPieces escaped inClass (text ++ '/' :: rest) = some (text, rest)
      ↔ Continues escaped inClass text := by
  induction text generalizing escaped inClass with
  | nil =>
    have hline : '/' ∉ lineEnds := by decide
    cases escaped with
    | true =>
      refine iff_of_false (fun h => ?_) fun ⟨_, _, h, _⟩ => by simp at h
      rw [List.nil_append, readPieces, if_neg hline, if_pos rfl] at h
      exact map_cons_ne_nil h
    | false =>
      cases inClass with
      | true =>
        refine iff_of_false (fun h => ?_) fun ⟨inner, more, h, _⟩ => by simp at h
        rw [List.nil_append, readPieces, if_neg hline, if_neg (by decide), if_neg (by decide),
          if_neg (by decide)] at h
        exact map_cons_ne_nil h
      | false =>
        refine iff_of_true ?_ Pieces.nil
        rw [List.nil_append, readPieces, if_neg hline, if_neg (by decide), if_neg (by decide),
          if_pos (by decide)]
  | cons c text ih =>
    rw [List.cons_append, readPieces]
    by_cases hline : c ∈ lineEnds
    · rw [if_pos hline]
      refine iff_of_false (by simp) fun h => ?_
      cases escaped with
      | true => exact (continues_escaped.mp h).1 hline
      | false =>
        cases inClass with
        | true => exact (continues_class.mp h).1 hline
        | false => exact (continues_plain.mp h).1 hline
    rw [if_neg hline]
    cases escaped with
    | true => rw [if_pos rfl, map_cons_iff, ih, continues_escaped, and_iff_right hline]
    | false =>
      rw [if_neg (by decide)]
      by_cases hback : c = '\\'
      · rw [if_pos hback, map_cons_iff, ih]
        cases inClass with
        | true => simp [continues_class, hback, lineEnds]
        | false => simp [continues_plain, hback, lineEnds]
      rw [if_neg hback]
      cases inClass with
      | true =>
        rw [if_neg (by simp), map_cons_iff, ih, continues_class]
        by_cases hclose : c = ']'
        · simp [hclose, lineEnds]
        · have hinside : (c == '[' || true && c != ']') = true := by simp [hclose]
          rw [hinside]
          simp [hline, hback, hclose]
      | false =>
        rw [continues_plain]
        by_cases hslash : c = '/'
        · rw [if_pos ⟨hslash, rfl⟩]
          refine iff_of_false (fun h => ?_) fun h => ?_
          · cases h
          · simp [hslash] at h
        · rw [if_neg fun h => hslash h.1, map_cons_iff, ih]
          by_cases hopen : c = '['
          · simp [hopen, lineEnds]
          · have houtside : (c == '[' || false && c != ']') = false := by simp [hopen]
            rw [houtside]
            simp [hline, hback, hslash, hopen]

/-- **A regular expression literal has its own text as its body**, and ends at its own end, exactly if
the grammar takes the text for a body. -/
theorem readPattern_iff {text rest : List Char} :
    readPattern (text ++ '/' :: rest) = some (text, rest) ↔ IsPattern text := by
  unfold readPattern
  cases text with
  | nil =>
    rw [List.nil_append, if_pos (.inr rfl)]
    exact iff_of_false (by simp) fun h => h.ne_nil rfl
  | cons c text =>
    have hpieces : readPieces false false (c :: text ++ '/' :: rest) = some (c :: text, rest)
        ↔ Pieces (c :: text) := readPieces_iff
    split
    · next hcomment =>
      refine iff_of_false (by simp) fun h => ?_
      rcases hcomment with hstar | hslash
      · exact h.not_comment hstar
      · have hpieces := (continues_plain.mp h.pieces).2
        cases hslash
        simp at hpieces
    · next hcomment =>
      rw [hpieces]
      exact ⟨fun h => ⟨List.cons_ne_nil c text, fun hstar => hcomment (.inl hstar), h⟩,
        IsPattern.pieces⟩

instance (text : List Char) : Decidable (IsPattern text) :=
  decidable_of_iff (readPattern (text ++ ['/']) = some (text, [])) readPattern_iff

end ApiContract.Script
