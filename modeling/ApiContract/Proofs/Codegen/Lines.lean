import ApiContract.Codegen.Lines
import ApiContract.Proofs.Naming

/-!
# Lines that declare a symbol

Generated code is made of lines, of which some declare what the file exports. Joining lines leaves
them lines of the result, so what one of them declares the whole code declares.

* **`linesOf_joinLines`** — the lines of joined lines.
* **`declaresIn_joinLines`** — a line that declares a symbol, wherever it stands.
-/

namespace ApiContract.Codegen

/-- The lines of a text. -/
def linesOf (text : String) : List (List Char) := text.toList.splitOn '\n'

/-- The start of a line that declares a symbol. -/
def declarationStart (symbol : String) : String := "export const " ++ symbol ++ " = "

/-- A line of the text declares the symbol. -/
def DeclaresIn (text symbol : String) : Prop :=
  ∃ line ∈ linesOf text, (declarationStart symbol).toList <+: line

instance (text symbol : String) : Decidable (DeclaresIn text symbol) :=
  inferInstanceAs (Decidable (∃ line ∈ linesOf text, (declarationStart symbol).toList <+: line))

theorem prefix_append {start : List Char} {a : String} (h : start <+: a.toList) (b : String) :
    start <+: (a ++ b).toList := by
  rw [String.toList_append]
  exact h.trans (List.prefix_append _ _)

/-- What stands between a symbol and its value, in a line that goes on. -/
theorem declarationStart_prefix {sign : String} (rest : String) (h : sign = " = " ++ rest)
    (symbol : String) :
    (declarationStart symbol).toList <+: ("export const " ++ symbol ++ sign).toList := by
  rw [h, ← String.append_assoc]
  exact prefix_append List.prefix_rfl rest

theorem linesOf_of_notMem {text : String} (h : '\n' ∉ text.toList) : linesOf text = [text.toList] :=
  List.splitOn_eq_singleton h

theorem joinLines_cons {line : String} {rest : List String} (h : rest ≠ []) :
    (joinLines (line :: rest)).toList = line.toList ++ '\n' :: (joinLines rest).toList := by
  unfold joinLines
  rw [String.intercalate_cons_of_ne_nil h, String.toList_append, String.toList_append,
    List.append_assoc]
  rfl

/-- **The lines of joined lines** are those of each. -/
theorem linesOf_joinLines {ls : List String} (h : ls ≠ []) :
    linesOf (joinLines ls) = ls.flatMap linesOf := by
  induction ls with
  | nil => exact absurd rfl h
  | cons line rest ih =>
    cases rest with
    | nil =>
      rw [List.flatMap_singleton]
      rfl
    | cons next more =>
      rw [List.flatMap_cons, ← ih (List.cons_ne_nil next more)]
      unfold linesOf
      rw [joinLines_cons (List.cons_ne_nil next more), List.splitOn_append_cons_self]

/-- The lines of a piece stay together. -/
theorem linesOf_infix_joinLines {ls : List String} {line : String} (h : line ∈ ls) :
    linesOf line <:+: linesOf (joinLines ls) := by
  obtain ⟨before, after, rfl⟩ := List.append_of_mem h
  rw [linesOf_joinLines (List.ne_nil_of_mem h), List.flatMap_append, List.flatMap_cons,
    ← List.append_assoc]
  exact List.infix_append _ _ _

theorem mem_linesOf_joinLines {ls : List String} {line : String} (h : line ∈ ls)
    {l : List Char} (hl : l ∈ linesOf line) : l ∈ linesOf (joinLines ls) :=
  (linesOf_infix_joinLines h).subset hl

theorem linesOf_lineFeed (text : String) : linesOf (text ++ "\n") = linesOf text ++ [[]] := by
  have hend : (text ++ "\n").toList = text.toList ++ '\n' :: [] := by
    rw [String.toList_append]
    rfl
  unfold linesOf
  rw [hend, List.splitOn_append_cons_self, List.splitOn_nil]

/-- A line among those that a file is joined of. -/
theorem mem_linesOf_file {ls : List String} {line : String} (h : line ∈ ls)
    (hone : '\n' ∉ line.toList) : line.toList ∈ linesOf (joinLines ls ++ "\n") := by
  rw [linesOf_lineFeed]
  refine List.mem_append_left _ (mem_linesOf_joinLines h ?_)
  rw [linesOf_of_notMem hone]
  exact List.mem_singleton_self _

/-- A text that begins with a part of a line has a line that does. -/
theorem exists_line_of_prefix {text : String} {start : List Char} (hstart : '\n' ∉ start)
    (h : start <+: text.toList) : ∃ line ∈ linesOf text, start <+: line := by
  obtain ⟨rest, hrest⟩ := h
  unfold linesOf
  rw [← hrest]
  by_cases hmem : '\n' ∈ rest
  · -- the line goes on to the first line feed
    obtain ⟨before, after, rfl, hbefore⟩ := List.eq_append_cons_of_mem hmem
    have hnone : '\n' ∉ start ++ before := by simp [hstart, hbefore]
    rw [← List.append_assoc, List.splitOn_append_cons_self_of_not_mem hnone]
    exact ⟨start ++ before, List.mem_cons_self, List.prefix_append start before⟩
  · have hnone : '\n' ∉ start ++ rest := by simp [hstart, hmem]
    rw [List.splitOn_eq_singleton hnone]
    exact ⟨start ++ rest, List.mem_singleton_self _, List.prefix_append start rest⟩

/-- **A line that declares a symbol** does so in any code it is a line of. -/
theorem declaresIn_joinLines {ls : List String} {line symbol : String} (h : line ∈ ls)
    (hsymbol : '\n' ∉ symbol.toList) (hstart : (declarationStart symbol).toList <+: line.toList) :
    DeclaresIn (joinLines ls) symbol := by
  have hnone : '\n' ∉ (declarationStart symbol).toList := by
    unfold declarationStart
    simp [String.toList_append, hsymbol]
  obtain ⟨l, hl, hprefix⟩ := exists_line_of_prefix hnone hstart
  exact ⟨l, mem_linesOf_joinLines h hl, hprefix⟩

end ApiContract.Codegen
