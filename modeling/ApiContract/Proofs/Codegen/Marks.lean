import ApiContract.Proofs.Codegen.Regions
import ApiContract.Proofs.Json.Legible
import Mathlib.Data.List.Infix

/-!
# Expressions that end in a mark

A validator that may be absent ends in a call of `optional`. Whatever stands in front of it is made of
calls as well, and some of these take over the text of a bound from the document. So an expression
ends like an optional one exactly if it is one, or if a bound was written that way.

* **`getLast?_writeValue`** — no text of JSON ends in a bracket that is open.
* **`Call.marked_append`** — a mark does not reach over the beginning of a call.
* **`Plain`** / **`spelled`** — what an expression begins with carries no mark, and what follows it.
* **`marked_expression_iff`** — the headline.
-/

namespace ApiContract.Codegen

/-! ## The last character of a literal -/

section Literals

open Json

theorem getLast?_writeString (asciiOnly : Bool) (s : String) :
    (writeString asciiOnly s).getLast? = some '"' := by
  unfold writeString
  exact List.getLast?_concat

theorem getLast?_bracket (style : Style) (depth : Nat) (opening closing : Char)
    (parts : List (List Char)) : (bracket style depth opening closing parts).getLast? = some closing := by
  unfold bracket
  split
  · rfl
  · exact List.getLast?_concat

/-- **No text of JSON ends in a bracket that is open.** -/
theorem getLast?_writeValue {style : Style} {depth : Nat} {v : Value} {text : List Char}
    (h : writeValue style depth v = some text) : text.getLast? ≠ some '(' := by
  have hword {text : List Char} (hnone : '(' ∉ text) : text.getLast? ≠ some '(' :=
    fun hlast => hnone (List.mem_of_getLast? hlast)
  have hstring (s : String) : (writeString style.asciiOnly s).getLast? ≠ some '(' := by
    rw [getLast?_writeString]
    decide
  cases v with
  | scalar leaf =>
    cases leaf with
    | null =>
      cases h
      decide
    | bool b =>
      cases h
      cases b <;> decide
    | int n => exact hword (notMem_writeInt? (by decide) h)
    | float x =>
      cases h
      exact hword (notMem_writeDouble (by decide) x)
    | str s =>
      cases h
      exact hstring s
    | date _ | dateTime _ | bytes _ =>
      obtain ⟨-, h⟩ := Option.ite_none_right_eq_some.mp h
      exact Option.some.inj h ▸ hstring _
  | list items =>
    obtain ⟨parts, -, rfl⟩ := Option.map_eq_some_iff.mp h
    rw [getLast?_bracket]
    decide
  | map members =>
    obtain ⟨parts, -, rfl⟩ := Option.map_eq_some_iff.mp h
    rw [getLast?_bracket]
    decide
  | set items =>
    obtain ⟨-, h⟩ := Option.ite_none_right_eq_some.mp h
    exact Option.some.inj h ▸ hstring _

end Literals

namespace Zod

variable {schema : Value} {required : Bool} {e base : Expression}

/-! ## Calls -/

/-- A text that ends like an optional expression. -/
def Marked (text : List Char) : Prop := ".optional()".toList <:+ text

instance (text : List Char) : Decidable (Marked text) := inferInstanceAs (Decidable (_ <:+ _))

/-- A text that ends like a call of whatever kind. -/
def Closed (text : List Char) : Prop := [')'] <:+ text

instance (text : List Char) : Decidable (Closed text) := inferInstanceAs (Decidable (_ <:+ _))

/-- A call of a method on what stands in front of it. -/
structure Call (text : List Char) : Prop where
  point : text.head? = some '.'
  closed : Closed text

/-- A mark does not reach over the beginning of a call. -/
theorem Call.marked_append {call : List Char} (h : Call call) (before : List Char) :
    Marked (before ++ call) ↔ Marked call := by
  refine ⟨fun hmarked => ?_, fun hmarked => hmarked.trans (List.suffix_append _ _)⟩
  rcases List.suffix_or_suffix_of_suffix hmarked (List.suffix_append before call) with hin | hout
  · exact hin
  · -- the mark has one point, and it begins with it
    have hpoint : ∀ tail ∈ ".optional()".toList.tails, tail.head? = some '.' →
        tail = ".optional()".toList := by decide
    rw [hpoint call ((List.mem_tails _ _).mpr hout) h.point]
    exact List.suffix_rfl

/-- The last character in front of the end decides. -/
theorem not_marked_concat {text : List Char} (h : text.getLast? ≠ some '(') :
    ¬Marked (text ++ [')']) := by
  rintro ⟨before, hbefore⟩
  have htext : before ++ ".optional(".toList = text :=
    (List.append_inj' (by rw [List.append_assoc]; exact hbefore) rfl).1
  refine h ?_
  rw [← htext, List.getLast?_append]
  rfl

theorem getLast?_of_closed {text : List Char} (h : Closed text) : text.getLast? = some ')' := by
  obtain ⟨before, rfl⟩ := h
  exact List.getLast?_concat

theorem closed_append {call : List Char} (h : Closed call) (before : List Char) :
    Closed (before ++ call) := h.trans (List.suffix_append _ _)

/-! ## Constraints -/

/-- Calls one after the other begin and end like one. -/
theorem call_append {a b : List Char} (ha : Call a) (hb : Call b) : Call (a ++ b) where
  point := by
    rw [List.head?_append, ha.point]
    rfl
  closed := closed_append hb.closed a

theorem call_of_ends {start stop : String} (hstart : start.toList.head? = some '.')
    (hstop : Closed stop.toList) (arguments : String) : Call (start ++ arguments ++ stop).toList where
  point := by
    rw [String.toList_append, String.toList_append, List.append_assoc, List.head?_append, hstart]
    rfl
  closed := by
    rw [String.toList_append]
    exact closed_append hstop _

theorem head?_method (method : String) : ("." ++ method ++ "(").toList.head? = some '.' := by
  simp [String.toList_append]

theorem closed_bracket : Closed ")".toList := List.suffix_rfl

theorem calls_bound (schema : Value) (method member : String) :
    ∀ call ∈ bound schema method member, Call call.toList := by
  unfold bound
  split
  · rw [List.forall_mem_singleton]
    exact call_of_ends (head?_method method) closed_bracket _
  · exact fun _ h => absurd h List.not_mem_nil

theorem calls_limit (schema : Value) (member exclusive inclusiveMethod exclusiveMethod : String) :
    ∀ call ∈ limit schema member exclusive inclusiveMethod exclusiveMethod, Call call.toList := by
  unfold limit
  dsimp only
  split
  · exact calls_bound _ _ _
  split
  · rw [List.forall_mem_singleton]
    exact call_of_ends (head?_method exclusiveMethod) closed_bracket _
  · exact fun _ h => absurd h List.not_mem_nil

theorem join_calls {calls : List String} (h : ∀ call ∈ calls, Call call.toList) :
    (String.join calls).toList = [] ∨ Call (String.join calls).toList := by
  induction calls with
  | nil => exact .inl rfl
  | cons call rest ih =>
    obtain ⟨hcall, hrest⟩ := List.forall_mem_cons.mp h
    rw [String.join_cons, String.toList_append]
    rcases ih hrest with hnil | hmore
    · rw [hnil, List.append_nil]
      exact .inr hcall
    · exact .inr (call_append hcall hmore)

/-- **The constraints on a value** are calls. -/
theorem constraints_cases (schema : Value) (type : Option String) :
    (constraints schema type).toList = [] ∨ Call (constraints schema type).toList := by
  unfold constraints
  refine join_calls ?_
  split
  · simp only [List.forall_mem_append]
    refine ⟨⟨calls_bound _ _ _, calls_bound _ _ _⟩, ?_⟩
    split
    · have hstop : Closed "/)".toList := closed_append closed_bracket ['/']
      rw [List.forall_mem_singleton]
      exact call_of_ends rfl hstop _
    · exact fun _ h => absurd h List.not_mem_nil
  · simp only [List.forall_mem_append]
    exact ⟨⟨calls_limit _ _ _ _ _, calls_limit _ _ _ _ _⟩, calls_bound _ _ _⟩
  · simp only [List.forall_mem_append]
    exact ⟨⟨calls_limit _ _ _ _ _, calls_limit _ _ _ _ _⟩, calls_bound _ _ _⟩
  · simp only [List.forall_mem_append]
    exact ⟨calls_bound _ _ _, calls_bound _ _ _⟩
  · exact fun _ h => absurd h List.not_mem_nil

/-- A default is the call after all constraints. It is no mark. -/
theorem default_cases {default : String} (h : defaultCode schema = .ok default) :
    (schema.get? "default" = none ∧ default = "")
      ∨ schema.get? "default" ≠ none ∧ Call default.toList ∧ ¬Marked default.toList := by
  unfold defaultCode at h
  split at h
  · rename_i v hv
    obtain ⟨literal, hliteral, h⟩ := bind_eq_ok.mp h
    have hlast : literal.toList.getLast? ≠ some '(' := by
      unfold jsonLiteral at hliteral
      split at hliteral
      · rename_i text htext
        obtain ⟨chars, hchars, rfl⟩ := Option.map_eq_some_iff.mp htext
        rw [← Except.ok.inj hliteral, String.toList_ofList]
        exact getLast?_writeValue hchars
      · cases hliteral
    rw [← pure_eq_ok.mp h]
    refine .inr ⟨by simp [hv], call_of_ends (head?_method "default") closed_bracket literal, ?_⟩
    rw [String.toList_append, String.toList_append]
    cases hempty : literal.toList with
    | nil => decide
    | cons c rest =>
      refine not_marked_concat ?_
      rw [List.getLast?_append_of_ne_nil _ (List.cons_ne_nil c rest), ← hempty]
      exact hlast
  · cases h
    exact .inl ⟨by assumption, rfl⟩

/-! ## Expressions -/

/-- A text that is closed, and carries no mark. -/
structure Plain (text : List Char) : Prop where
  closed : Closed text
  unmarked : ¬Marked text

theorem plain_concat {text : List Char} (h : text.getLast? ≠ some '(') : Plain (text ++ [')']) :=
  ⟨List.suffix_append _ _, not_marked_concat h⟩

theorem marked_optionalCode {text : String} (h : Plain text.toList) (isOptional : Bool) :
    Marked (text ++ optionalCode isOptional).toList ↔ isOptional = true := by
  rw [String.toList_append]
  cases isOptional with
  | true => exact iff_of_true (List.suffix_append _ _) rfl
  | false =>
    rw [show (optionalCode false).toList = [] from rfl, List.append_nil]
    exact iff_of_false h.unmarked (by decide)

theorem closed_optionalCode {text : String} (h : Closed text.toList) (isOptional : Bool) :
    Closed (text ++ optionalCode isOptional).toList := by
  rw [String.toList_append]
  cases isOptional with
  | true =>
    have hmark : Closed (optionalCode true).toList := ⟨".optional(".toList, rfl⟩
    exact closed_append hmark _
  | false => rwa [show (optionalCode false).toList = [] from rfl, List.append_nil]

/-- The bounds of a node without a default end like an optional expression. -/
def Overwritten (schema : Value) : Prop :=
  Reference.pointer? schema = none ∧ schema.get? "default" = none
    ∧ Marked (constraints schema (Schema.typeOf schema).1).toList

theorem marked_completed (hpointer : Reference.pointer? schema = none)
    (h : completed schema required base = .ok e) (hbase : ¬Marked base.code.toList) :
    Marked e.code.toList
      ↔ (!required || (Schema.typeOf schema).2) = true ∨ Overwritten schema := by
  unfold completed at h
  dsimp only at h
  obtain ⟨default, hdefault, h⟩ := bind_eq_ok.mp h
  rw [← pure_eq_ok.mp h]
  dsimp only
  rw [String.toList_append, String.toList_append, String.toList_append]
  cases hoptional : (!required || (Schema.typeOf schema).2) with
  | true => exact iff_of_true (List.suffix_append _ _) (.inl rfl)
  | false =>
    have hbounds : Marked (base.code.toList ++ (constraints schema (Schema.typeOf schema).1).toList)
        ↔ Marked (constraints schema (Schema.typeOf schema).1).toList := by
      rcases constraints_cases schema (Schema.typeOf schema).1 with hnil | hcall
      · rw [hnil, List.append_nil]
        exact iff_of_false hbase (by decide)
      · exact hcall.marked_append _
    rw [show (optionalCode false).toList = [] from rfl, List.append_nil]
    unfold Overwritten
    rcases default_cases hdefault with ⟨habsent, rfl⟩ | ⟨hpresent, hcall, hplain⟩
    · rw [show "".toList = [] from rfl, List.append_nil, hbounds]
      simp [hpointer, habsent]
    · rw [hcall.marked_append]
      simp [hplain, hpresent]

theorem closed_completed (h : completed schema required base = .ok e)
    (hbase : Closed base.code.toList) : Closed e.code.toList := by
  unfold completed at h
  dsimp only at h
  obtain ⟨default, hdefault, h⟩ := bind_eq_ok.mp h
  rw [← pure_eq_ok.mp h]
  refine closed_optionalCode ?_ _
  have hbounds : Closed (base.code ++ constraints schema (Schema.typeOf schema).1).toList := by
    rw [String.toList_append]
    rcases constraints_cases schema (Schema.typeOf schema).1 with hnil | hcall
    · rwa [hnil, List.append_nil]
    · exact closed_append hcall.closed _
  rw [String.toList_append]
  rcases default_cases hdefault with ⟨-, rfl⟩ | ⟨-, hcall, -⟩
  · rwa [show "".toList = [] from rfl, List.append_nil]
  · exact closed_append hcall.closed _

theorem plain_objectOf (es : List Expression) : Plain (objectOf es).code.toList := by
  have hshape : (objectOf es).code.toList
      = ((["z.object(\x7b"] ++ es.map (·.code)).flatMap (fun line => line.toList ++ ['\n'])
        ++ ['\x7d']) ++ [')'] := by
    unfold objectOf
    rw [toList_joinLines_append (List.cons_ne_nil _ _)]
    simp [joinLines]
  rw [hshape]
  refine plain_concat ?_
  rw [List.getLast?_concat]
  decide

theorem plain_enumeration (values : List String) :
    Plain (s!"z.enum([{literalList values}])").toList := by
  have hshape : (s!"z.enum([{literalList values}])").toList
      = ("z.enum([" ++ literalList values).toList ++ [']'] ++ [')'] := by
    simp [toString, String.toList_append]
  rw [hshape]
  refine plain_concat ?_
  rw [List.getLast?_concat]
  decide

theorem plain_list {item : String} (h : Closed item.toList) :
    Plain (s!"z.array({item})").toList := by
  have hshape : (s!"z.array({item})").toList = ("z.array(" ++ item).toList ++ [')'] := by
    simp [toString, String.toList_append]
  rw [hshape]
  refine plain_concat ?_
  rw [String.toList_append, getLast?_of_closed (closed_append h _)]
  decide

theorem plain_scalarCode {type : Option String} {format : Value} {found : String}
    (h : scalarCode type format = .ok found) : Plain found.toList := by
  have htables : ∀ entry ∈ formats ++ types, Closed entry.2.toList ∧ ¬Marked entry.2.toList := by
    simp only [formats, types, List.forall_mem_append, List.forall_mem_cons]
    decide
  unfold scalarCode at h
  obtain ⟨special, hspecial, h⟩ := bind_eq_ok.mp h
  cases special with
  | some code =>
    cases h
    obtain ⟨entry, hentry, rfl⟩ := GraphQl.entry_of_lookupFormat hspecial
    obtain ⟨hclosed, hplain⟩ := htables entry (List.mem_append_left _ hentry)
    exact ⟨hclosed, hplain⟩
  | none =>
    rw [← pure_eq_ok.mp h]
    cases hlookup : type.bind fun t => types.lookup t with
    | none => exact ⟨by decide, by decide⟩
    | some code =>
      obtain ⟨t, -, hlookup⟩ := Option.bind_eq_some_iff.mp hlookup
      obtain ⟨hclosed, hplain⟩ := htables _ (List.mem_append_right _ (GraphQl.mem_of_lookup hlookup))
      exact ⟨hclosed, hplain⟩

/-- How an expression is spelled: a reference, or what a node begins with and what completes it. -/
inductive Spelled (schema : Value) (required : Bool) (e : Expression) : Prop where
  | reference {pointer : String} (found : Reference.pointer? schema = some pointer)
      (code : e.code
        = s!"z.lazy(() => {referenceSymbol pointer}Schema)" ++ optionalCode (!required))
  | inline {base : Expression} (other : Reference.pointer? schema = none)
      (plain : Plain base.code.toList) (whole : completed schema required base = .ok e)

theorem plain_reference (symbol : String) : Plain (s!"z.lazy(() => {symbol}Schema)").toList := by
  have hshape : (s!"z.lazy(() => {symbol}Schema)").toList
      = ("z.lazy(() => " ++ symbol ++ "Schem").toList ++ ['a'] ++ [')'] := by
    simp [toString, String.toList_append]
  rw [hshape]
  refine plain_concat ?_
  rw [List.getLast?_concat]
  decide

theorem Spelled.closed (h : Spelled schema required e) : Closed e.code.toList := by
  cases h with
  | reference found code =>
    rw [code]
    exact closed_optionalCode (plain_reference _).closed _
  | inline other plain whole => exact closed_completed whole plain.closed

/-- **Every expression is spelled so.** -/
theorem spelled {schema : Value} {required : Bool} {e : Expression}
    (h : expression schema required = .ok e) : Spelled schema required e := by
  cases hpointer : Reference.pointer? schema with
  | some pointer =>
    rw [expression, hpointer] at h
    cases h
    exact .reference hpointer rfl
  | none =>
    cases hproperties : inlineProperties? schema with
    | some properties =>
      rw [expression_of_properties hpointer hproperties] at h
      obtain ⟨keys, -, h⟩ := bind_eq_ok.mp h
      obtain ⟨es, -, h⟩ := bind_eq_ok.mp h
      exact .inline hpointer (plain_objectOf es) h
    | none =>
      rw [expression_of_no_properties hpointer hproperties] at h
      obtain ⟨values, -, h⟩ := bind_eq_ok.mp h
      split at h
      · exact .inline hpointer (plain_enumeration _) h
      split at h
      · split at h
        · obtain ⟨item, hitem, h⟩ := bind_eq_ok.mp h
          exact .inline hpointer (plain_list (spelled hitem).closed) h
        · exact .inline hpointer ⟨by decide, by decide⟩ h
      · obtain ⟨scalar, hscalar, h⟩ := bind_eq_ok.mp h
        exact .inline hpointer (plain_scalarCode hscalar) h
termination_by schema.size
decreasing_by exact Value.size_lt_of_get? (by assumption)

/-- **An expression ends in a mark** exactly if the node is not required or may be null, or if its
bounds were written that way. What is beside a reference does not count. -/
theorem marked_expression_iff (h : expression schema required = .ok e) :
    Marked e.code.toList ↔ required = false
      ∨ Reference.pointer? schema = none ∧ (Schema.typeOf schema).2 = true ∨ Overwritten schema := by
  cases spelled h with
  | reference found code =>
    rw [code, marked_optionalCode (plain_reference _)]
    simp [Overwritten, found]
  | inline other plain whole =>
    rw [marked_completed other whole plain.unmarked]
    simp [other, or_assoc]

end Zod

end ApiContract.Codegen
