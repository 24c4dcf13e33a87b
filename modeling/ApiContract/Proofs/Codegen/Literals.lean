import ApiContract.Codegen.Lines
import ApiContract.Proofs.Codegen.Script

/-!
# How a script reads literals and keys

A text that is written into code as a literal, or as the key of an object, is read again by the
script. The readers follow the lexical grammar: a literal ends at the first quote that is not escaped
and may not go over the end of a line, and a key is a literal or the longest name. Writing escapes
the backslash, the quote and the line feed, but not the carriage return; and it takes a name with a
line feed behind it for a name.

* **`readString_escapeQuoted`** — what the script makes of an escaped text.
* **`isIdentifier_iff`** — which texts stay bare as keys.
* **`readKey_iff`** — keys.
* **`literals_denote_iff`** — the headline.
-/

namespace ApiContract.Script

open Codegen (escapeQuoted stringLiteral objectKey)
open Naming (isIdentifier isIdentifierStart isIdentifierPart)

/-! ## Literals -/

/-- A literal in single quotes from behind its opening: the code units that it stands for, and what
follows it. -/
def readString : List Char → Option (List Nat × List Char)
  | [] => none
  | c :: rest =>
    if c = '\'' then some ([], rest)
    else if c = '\\' then
      match readEscape rest with
      | some (count, units) => (readString (rest.drop count)).map (Prod.map (units ++ ·) id)
      | none => none
    else if c = '\n' ∨ c = '\r' then none
    else (readString rest).map (Prod.map (codeUnits c.toNat ++ ·) id)
termination_by text => text.length
decreasing_by
  · simp only [List.length_drop, List.length_cons]
    omega
  · exact Nat.lt_succ_self _

/-- A literal that the text begins with, and what follows it. -/
def readLiteral : List Char → Option (List Nat × List Char)
  | '\'' :: rest => readString rest
  | _ => none

/-- An escape is read as what it stands for. -/
theorem readString_escape (text : List Char) {count : Nat} {units : List Nat}
    (h : readEscape text = some (count, units)) :
    readString ('\\' :: text) = (readString (text.drop count)).map (Prod.map (units ++ ·) id) := by
  rw [readString, if_neg (by decide), if_pos rfl, h]

/-- Whatever is not a carriage return is read as it was meant, escaped or not. -/
theorem readString_char {c : Char} (h : c ≠ '\r') (more : List Char) :
    readString (escapeQuoted c ++ more)
      = (readString more).map (Prod.map (codeUnits c.toNat ++ ·) id) := by
  unfold escapeQuoted
  split
  · exact readString_escape ('\\' :: more) rfl
  · exact readString_escape ('\'' :: more) rfl
  · exact readString_escape ('n' :: more) rfl
  · next hback hquote hline =>
    rw [List.singleton_append, readString, if_neg hquote, if_neg hback,
      if_neg (not_or.mpr ⟨hline, h⟩)]

/-- **An escaped text is read back**, up to the end of its literal, unless it holds a carriage
return: then there is no literal at all. -/
theorem readString_escapeQuoted (text rest : List Char) :
    readString (text.flatMap escapeQuoted ++ '\'' :: rest)
      = if '\r' ∈ text then none else some (unitsOf text, rest) := by
  induction text with
  | nil =>
    rw [List.flatMap_nil, List.nil_append, readString, if_pos rfl]
    rfl
  | cons c text ih =>
    rw [List.flatMap_cons, List.append_assoc]
    by_cases hreturn : c = '\r'
    · subst hreturn
      rw [if_pos List.mem_cons_self]
      show readString ('\r' :: _) = none
      rw [readString, if_neg (by decide), if_neg (by decide), if_pos (.inr rfl)]
    · rw [readString_char hreturn, ih]
      by_cases hmem : '\r' ∈ text
      · rw [if_pos hmem, if_pos (List.mem_cons_of_mem c hmem)]
        rfl
      · have hnone : '\r' ∉ c :: text := by simp [Ne.symm hreturn, hmem]
        rw [if_neg hmem, if_neg hnone]
        rfl

theorem stringLiteral_append (s : String) (rest : List Char) :
    (stringLiteral s).toList ++ rest = '\'' :: (s.toList.flatMap escapeQuoted ++ '\'' :: rest) := by
  unfold stringLiteral
  rw [String.toList_ofList]
  simp

theorem readLiteral_iff {s : String} {rest : List Char} :
    readLiteral ((stringLiteral s).toList ++ rest) = some (unitsOf s.toList, rest)
      ↔ '\r' ∉ s.toList := by
  rw [stringLiteral_append, readLiteral, readString_escapeQuoted]
  split
  · next hmem => exact iff_of_false nofun fun h => h hmem
  · next hnone => exact iff_of_true rfl hnone

/-! ## Keys -/

/-- A name in letters, digits, underscores and dollar signs. -/
def IsName : List Char → Prop
  | [] => False
  | c :: rest => isIdentifierStart c = true ∧ ∀ d ∈ rest, isIdentifierPart d = true

/-- The longest name that the text begins with, and what follows it. Of the letters only those of
ASCII are taken, as no other is ever written without quotes. -/
def readName (text : List Char) : Option (List Nat × List Char) :=
  if text.head?.any isIdentifierStart then
    some (unitsOf (text.takeWhile isIdentifierPart), text.dropWhile isIdentifierPart)
  else none

/-- The key that the text begins with, and what follows it. -/
def readKey : List Char → Option (List Nat × List Char)
  | '\'' :: rest => readString rest
  | text => readName text

/-- A name with a line feed behind it. -/
def NameLine (text : List Char) : Prop := ∃ name, IsName name ∧ text = name ++ ['\n']

theorem isIdentifierPart_of_start {c : Char} (h : isIdentifierStart c = true) :
    isIdentifierPart c = true := by
  unfold isIdentifierStart at h
  unfold isIdentifierPart
  rw [Char.isAlphanum]
  simp only [Bool.or_eq_true] at h ⊢
  tauto

theorem IsName.part {name : List Char} (h : IsName name) :
    ∀ c ∈ name, isIdentifierPart c = true := by
  cases name with
  | nil => cases h
  | cons c rest =>
    exact List.forall_mem_cons.mpr ⟨isIdentifierPart_of_start h.1, h.2⟩

/-- **Which texts stay bare**: names, and names with a line feed behind them. -/
theorem isIdentifier_iff {s : String} :
    isIdentifier s = true ↔ IsName s.toList ∨ NameLine s.toList := by
  unfold isIdentifier NameLine
  generalize s.toList = text
  cases text with
  | nil => exact iff_of_false nofun (by simp [IsName])
  | cons c rest =>
    dsimp only
    split
    · next hlast =>
      obtain ⟨init, rfl⟩ := List.getLast?_eq_some_iff.mp hlast
      have hnot : ¬IsName (c :: (init ++ ['\n'])) := fun h =>
        absurd (h.2 '\n' (by simp)) (by decide)
      rw [List.dropLast_concat, Bool.and_eq_true, List.all_eq_true, or_iff_right hnot]
      constructor
      · exact fun h => ⟨c :: init, h, rfl⟩
      · rintro ⟨name, hname, heq⟩
        obtain rfl : c :: init = name := List.append_cancel_right heq
        exact hname
    · next hlast =>
      have hnot : ¬∃ name, IsName name ∧ c :: rest = name ++ ['\n'] := by
        rintro ⟨name, hname, heq⟩
        cases name with
        | nil => cases hname
        | cons d init =>
          obtain ⟨rfl, rfl⟩ := List.cons.inj heq
          exact hlast List.getLast?_concat
      rw [or_iff_left hnot, Bool.and_eq_true, List.all_eq_true]
      exact Iff.rfl

/-- A name is read up to a character that cannot be part of it. -/
theorem readKey_name {name : List Char} (h : IsName name) {c : Char}
    (hc : isIdentifierPart c = false) (rest : List Char) :
    readKey (name ++ c :: rest) = some (unitsOf name, c :: rest) := by
  have hpart := h.part
  have htake : (name ++ c :: rest).takeWhile isIdentifierPart = name := by
    rw [List.takeWhile_append_of_pos hpart, List.takeWhile_cons_of_neg (by simp [hc]),
      List.append_nil]
  have hdrop : (name ++ c :: rest).dropWhile isIdentifierPart = c :: rest := by
    rw [List.dropWhile_append_of_pos hpart, List.dropWhile_cons_of_neg (by simp [hc])]
  cases name with
  | nil => cases h
  | cons d more =>
    have hbare : readKey (d :: more ++ c :: rest) = readName (d :: more ++ c :: rest) := by
      unfold readKey
      split
      · next hquote =>
        obtain ⟨rfl, -⟩ := List.cons.inj hquote
        exact absurd h.1 (by decide)
      · rfl
    rw [hbare, readName, if_pos, htake, hdrop]
    exact h.1

/-- **A key is read back** exactly if it holds no carriage return, and is no name with a line feed
behind it. -/
theorem readKey_iff {s : String} {rest : List Char} :
    readKey ((objectKey s).toList ++ ':' :: rest) = some (unitsOf s.toList, ':' :: rest)
      ↔ '\r' ∉ s.toList ∧ ¬NameLine s.toList := by
  have hcolon : isIdentifierPart ':' = false := by decide
  have hline : isIdentifierPart '\n' = false := by decide
  unfold objectKey
  split
  · next hbare =>
    rcases isIdentifier_iff.mp hbare with hname | ⟨name, hname, heq⟩
    · rw [readKey_name hname hcolon]
      refine iff_of_true rfl ⟨fun hmem => absurd (hname.part _ hmem) (by decide), ?_⟩
      rintro ⟨name, -, heq⟩
      exact absurd (hname.part '\n' (by simp [heq])) (by decide)
    · -- only the name itself is read
      refine iff_of_false (fun h => ?_) fun h => h.2 ⟨name, hname, heq⟩
      rw [heq, List.append_assoc, List.singleton_append, readKey_name hname hline] at h
      have hrest := (Prod.mk.inj (Option.some.inj h)).2
      cases hrest
  · next hquoted =>
    have hnone : ¬NameLine s.toList := fun h => hquoted (isIdentifier_iff.mpr (.inr h))
    have hliteral : readKey ((stringLiteral s).toList ++ ':' :: rest)
        = readLiteral ((stringLiteral s).toList ++ ':' :: rest) := by
      rw [stringLiteral_append]
      rfl
    rw [hliteral, readLiteral_iff, and_iff_left hnone]

/-! ## Both -/

/-- **Literals and keys denote what they were made from**, whatever stands behind them, exactly if
that holds no carriage return and, for keys, is no name with a line feed behind it. -/
theorem literals_denote_iff (s : String) (rest : List Char) :
    (readLiteral ((stringLiteral s).toList ++ rest) = some (unitsOf s.toList, rest)
        ↔ '\r' ∉ s.toList)
      ∧ (readKey ((objectKey s).toList ++ ':' :: rest) = some (unitsOf s.toList, ':' :: rest)
        ↔ '\r' ∉ s.toList ∧ ¬NameLine s.toList) :=
  ⟨readLiteral_iff, readKey_iff⟩

/-- **A carriage return breaks its literal**, and a key ends before the line feed behind it. -/
theorem line_ends_not_denoted :
    readLiteral (stringLiteral "a\rb").toList = none
      ∧ readKey ((objectKey "a\rb").toList ++ [':']) = none
      ∧ readKey ((objectKey "a\n").toList ++ [':']) = some (unitsOf ['a'], ['\n', ':'])
      ∧ unitsOf ['a'] ≠ unitsOf "a\n".toList := by
  have hliteral (rest : List Char) :
      readLiteral ((stringLiteral "a\rb").toList ++ rest) = none := by
    rw [stringLiteral_append, readLiteral, readString_escapeQuoted]
    rfl
  have hname : IsName ['a'] := ⟨by decide, nofun⟩
  refine ⟨?_, ?_, ?_, by decide⟩
  · rw [← hliteral [], List.append_nil]
  · exact hliteral [':']
  · exact readKey_name hname (by decide) [':']

end ApiContract.Script
