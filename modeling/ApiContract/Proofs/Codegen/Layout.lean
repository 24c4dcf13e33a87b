import ApiContract.Proofs.Codegen.Comments
import ApiContract.Proofs.Codegen.References

/-!
# The declarations that a model is made of

The code of a declaration is one declaration after another: those of the nested models of its fields
come before that of the model itself. What is shown of all of them is shown by an induction on
generated models, whose nested models come from smaller schemas.

What they declare is read off the schema: `hoistedPaths` lists the properties that lead down to a nested
model, and the symbol of each is made of their names.

* **`model_induction`** — what holds of a model if it holds of the nested models of its fields.
* **`layout_of_fields`** — one step: the declarations of the fields, and that of the model behind them.
* **`exists_layout`** — the declarations that the code of a model is made of.
-/

namespace ApiContract.Codegen

namespace Declaration

variable {schema target node given : Value} {name : String} {m n : Model} {f : Field}

/-! ## Nested models -/

/-- The node that the nested model of a field is made from. -/
inductive Hoists (schema target : Value) : Prop where
  | property {properties : Members} {key : Scalar} {node : Value}
      (found : Schema.properties? schema = some properties) (member : (key, node) ∈ properties)
      (hoisted : nestTarget? node = some target) : Hoists schema target
  | items (hoisted : nestTarget? schema = some target)
      (array : (Schema.typeOf schema).1 = some "array") : Hoists schema target

theorem Hoists.size_lt (h : Hoists schema target) : target.size < schema.size := by
  cases h with
  | @property properties key node found member hoisted =>
    have hnode := size_le_membersSize (k := key) member
    have hproperties := Schema.membersSize_lt_of_properties? found
    have htarget := size_nestTarget?_le hoisted
    omega
  | items hoisted array =>
    rw [nestTarget?_of_array (isInline_of_nestTarget? hoisted) array] at hoisted
    exact Value.size_lt_of_get? (Option.filter_eq_some_iff.mp hoisted).1

/-- The nested model of a field: named after the model that has it, and made from what it hoists. -/
theorem exists_hoists (h : model schema name given = .ok m) (hf : f ∈ m.fields)
    (hn : f.nestedModel = some n) :
    ∃ target, Hoists schema target ∧ Nests target
      ∧ model target (m.name ++ Naming.pascalCase f.name) .null = .ok n := by
  cases declaredModel h with
  | reference found => cases hf
  | leaf _ _ _ empty =>
    rw [empty] at hf
    cases hf
  | object _ _ found _ fields declares =>
    obtain ⟨⟨key, node⟩, hp, hfield⟩ := exists_of_forall₂ (forall₂_fieldsOf fields) hf
    cases declaredField hfield with
    | flat field _ =>
      rw [field.hnested] at hn
      cases hn
    | nested field hoisted nests _ built =>
      cases hn
      rw [← declares.name, ← field.hname] at built
      exact ⟨_, .property found hp hoisted, nests, built⟩
  | list _ _ _ array field fields declares =>
    rw [fields, List.mem_singleton] at hf
    subst hf
    cases field with
    | flat field _ =>
      rw [field.hnested] at hn
      cases hn
    | nested field hoisted nests _ built =>
      cases hn
      rw [← declares.name, ← field.hname] at built
      exact ⟨_, .items hoisted array, nests, built⟩

/-- **Induction on generated models**: what holds of a model if it holds of the nested models of its
fields. -/
theorem model_induction {motive : Value → Model → Prop}
    (step : ∀ schema name given m, model schema name given = .ok m →
      (∀ f ∈ m.fields, ∀ n, f.nestedModel = some n → ∃ target, Hoists schema target ∧ Nests target
        ∧ model target (m.name ++ Naming.pascalCase f.name) .null = .ok n ∧ motive target n) →
      motive schema m)
    (h : model schema name given = .ok m) : motive schema m := by
  induction hsize : schema.size using Nat.strongRecOn generalizing schema name given m with
  | ind size ih =>
    subst hsize
    refine step schema name given m h fun f hf n hn => ?_
    obtain ⟨target, hoists, nests, built⟩ := exists_hoists h hf hn
    exact ⟨target, hoists, nests, built, ih _ hoists.size_lt built rfl⟩

/-! ## Symbols of nested models -/

instance (target : Value) : Decidable (Nests target) :=
  inferInstanceAs (Decidable (_ ∧ (_ ∨ _)))

/-- The items of a list, if they are a mapping. -/
def itemTarget? (schema : Value) : Option Value :=
  if Schema.isArray schema then (schema.get? "items").filter Value.isMap else none

theorem size_itemTarget?_lt (h : itemTarget? schema = some target) : target.size < schema.size := by
  unfold itemTarget? at h
  split at h
  · exact Value.size_lt_of_get? (Option.filter_eq_some_iff.mp h).1
  · cases h

mutual

/-- The models that the code of a schema declares, each by the properties that lead to it. What stands
for a reference declares nothing. -/
def hoistedPaths (schema : Value) : List (List String) :=
  if (Reference.pointer? schema).isSome then []
  else if (schema.field "enum").isTruthy then [[]]
  else
    match _h : Schema.properties? schema with
    | some properties => memberPaths properties ++ [[]]
    | none =>
      match _h : itemTarget? schema with
      | some items => (if Nests items then (hoistedPaths items).map ("items" :: ·) else []) ++ [[]]
      | none => [[]]
termination_by (schema.size, 0)
decreasing_by
  · exact Prod.Lex.left _ _ (Schema.membersSize_lt_of_properties? (by assumption))
  · exact Prod.Lex.left _ _ (size_itemTarget?_lt (by assumption))

/-- The models that the code of an object declares for its properties. -/
def memberPaths : (properties : List (Scalar × Value)) → List (List String)
  | [] => []
  | (key, node) :: rest =>
    (match _h : nestTarget? node with
      | some target =>
        if Nests target ∧ (node.field "enum").isTruthy = false then
          (hoistedPaths target).map (key.text :: ·)
        else []
      | none => []) ++ memberPaths rest
termination_by properties => (membersSize properties, 1)
decreasing_by
  · have htarget : target.size ≤ node.size := size_nestTarget?_le (by assumption)
    simp only [membersSize]
    rcases Nat.lt_or_ge target.size (node.size + membersSize rest) with h | h
    · exact Prod.Lex.left _ _ h
    · have heq : target.size = node.size + membersSize rest := by omega
      exact heq ▸ Prod.Lex.right _ (by omega)
  · have hnode := Value.size_pos node
    simp only [membersSize]
    exact Prod.Lex.left _ _ (by omega)

end

/-- The models that are declared for one property. -/
def fieldPaths (key : String) (node : Value) : List (List String) :=
  match nestTarget? node with
  | some target =>
    if Nests target ∧ (node.field "enum").isTruthy = false then
      (hoistedPaths target).map (key :: ·)
    else []
  | none => []

/-- The symbol of a nested model: that of its parent with the name of the property, at every step. -/
def symbolAt (parent : String) (path : List String) : String :=
  path.foldl (fun symbol key => Naming.modelName (symbol ++ Naming.pascalCase key)) parent

theorem symbolAt_cons (parent key : String) (path : List String) :
    symbolAt parent (key :: path)
      = symbolAt (Naming.modelName (parent ++ Naming.pascalCase key)) path := by
  unfold symbolAt
  rw [List.foldl_cons]

theorem memberPaths_cons (key : Scalar) (node : Value) (rest : Members) :
    memberPaths ((key, node) :: rest) = fieldPaths key.text node ++ memberPaths rest := by
  rw [memberPaths]
  unfold fieldPaths
  cases nestTarget? node <;> rfl

theorem fieldPaths_of_nests {key : String} (found : nestTarget? node = some target)
    (nests : Nests target) (unlisted : (node.field "enum").isTruthy = false) :
    fieldPaths key node = (hoistedPaths target).map (key :: ·) := by
  unfold fieldPaths
  rw [found]
  exact if_pos ⟨nests, unlisted⟩

theorem fieldPaths_of_single {key : String}
    (single : ∀ target, nestTarget? node = some target → (node.field "enum").isTruthy = false →
      ¬Nests target) : fieldPaths key node = [] := by
  unfold fieldPaths
  cases htarget : nestTarget? node with
  | none => rfl
  | some target => exact if_neg fun h => single target htarget h.2 h.1

theorem hoistedPaths_of_reference {pointer : String}
    (found : Reference.pointer? schema = some pointer) : hoistedPaths schema = [] := by
  rw [hoistedPaths, found]
  rfl

theorem hoistedPaths_of_listed (other : Reference.pointer? schema = none)
    (listed : (schema.field "enum").isTruthy = true) : hoistedPaths schema = [[]] := by
  rw [hoistedPaths, other, listed]
  rfl

theorem hoistedPaths_of_properties {properties : Members}
    (other : Reference.pointer? schema = none) (unlisted : (schema.field "enum").isTruthy = false)
    (found : Schema.properties? schema = some properties) :
    hoistedPaths schema = memberPaths properties ++ [[]] := by
  rw [hoistedPaths, other, unlisted, if_neg (by decide), if_neg (by decide)]
  split
  · rename_i properties' hfound
    cases found.symm.trans hfound
    rfl
  · rename_i habsent
    cases found.symm.trans habsent

/-- A list declares a model for its items, as a property of that name would. -/
theorem hoistedPaths_of_list (other : Reference.pointer? schema = none)
    (unlisted : (schema.field "enum").isTruthy = false)
    (absent : Schema.properties? schema = none)
    (array : (Schema.typeOf schema).1 = some "array") :
    hoistedPaths schema = fieldPaths "items" schema ++ [[]] := by
  have htarget : nestTarget? schema = itemTarget? schema := by
    unfold itemTarget?
    rw [nestTarget?_of_array (isInline_of_array other array) array, if_pos (isArray_iff.mpr array)]
  rw [hoistedPaths, other, unlisted]
  unfold fieldPaths
  rw [if_neg (by decide), if_neg (by decide), htarget]
  split
  · rename_i properties hfound
    cases absent.symm.trans hfound
  · cases itemTarget? schema <;> simp [unlisted]

theorem hoistedPaths_of_leaf (other : Reference.pointer? schema = none)
    (absent : Schema.properties? schema = none)
    (single : (Schema.typeOf schema).1 ≠ some "array") : hoistedPaths schema = [[]] := by
  have hnone : itemTarget? schema = none := if_neg (mt isArray_iff.mp single)
  rw [hoistedPaths, other, if_neg (by decide)]
  split
  · rfl
  · split
    · rename_i properties hfound
      cases absent.symm.trans hfound
    · split
      · rename_i items hitems
        cases hnone.symm.trans hitems
      · rfl

/-- What is no reference declares a model itself, behind those of its properties. -/
theorem nil_mem_hoistedPaths (other : Reference.pointer? schema = none) :
    [] ∈ hoistedPaths schema := by
  rw [hoistedPaths, other, if_neg (by decide)]
  split
  · exact List.mem_singleton_self _
  · split
    · exact List.mem_append_right _ (List.mem_singleton_self _)
    · split
      · exact List.mem_append_right _ (List.mem_singleton_self _)
      · exact List.mem_singleton_self _

/-- A model that is declared has the symbol of its name. -/
theorem name_of_hoisted (h : model schema name given = .ok m) (hpaths : hoistedPaths schema ≠ []) :
    m.name = Naming.modelName name := by
  cases declaredModel h with
  | reference found => exact absurd (hoistedPaths_of_reference found) hpaths
  | leaf _ _ declares _ => exact declares.name
  | object _ _ _ _ _ declares => exact declares.name
  | list _ _ _ _ _ _ declares => exact declares.name

/-! ## Declared models -/

/-- The models that the code of a model holds the declarations of, in order. -/
def declared : Model → List Model
  | ⟨name, description, fields, code⟩ => go fields ++ [⟨name, description, fields, code⟩]
where
  go : List Field → List Model
    | [] => []
    | f :: rest =>
      (match f with
        | ⟨_, _, _, _, some nested⟩ => declared nested
        | ⟨_, _, _, _, none⟩ => []) ++ go rest

theorem declared_eq (m : Model) : declared m = declared.go m.fields ++ [m] := by
  obtain ⟨name, description, fields, code⟩ := m
  rw [declared]

theorem go_cons (f : Field) (rest : List Field) :
    declared.go (f :: rest) = (f.nestedModel.elim [] declared) ++ declared.go rest := by
  obtain ⟨name, type, scalarType, enumValues, nestedModel⟩ := f
  cases nestedModel <;> rfl

theorem go_eq (fields : List Field) :
    declared.go fields = fields.flatMap fun f => f.nestedModel.elim [] declared := by
  induction fields with
  | nil => rfl
  | cons f rest ih => rw [go_cons, ih, List.flatMap_cons]

theorem mem_go_declared {d : Model} {fields : List Field} :
    d ∈ declared.go fields ↔ ∃ f ∈ fields, ∃ n, f.nestedModel = some n ∧ d ∈ declared n := by
  rw [go_eq, List.mem_flatMap]
  refine exists_congr fun f => and_congr_right fun _ => ?_
  cases f.nestedModel <;> simp

theorem mem_declared {d : Model} :
    d ∈ declared m ↔ d = m ∨ ∃ f ∈ m.fields, ∃ n, f.nestedModel = some n ∧ d ∈ declared n := by
  rw [declared_eq, List.mem_append, List.mem_singleton, mem_go_declared, or_comm]

/-- The fields of a model are those of the models that it declares. -/
theorem mem_allFields (h : model schema name given = .ok m) :
    f ∈ allFields m ↔ ∃ d ∈ declared m, f ∈ d.fields := by
  refine model_induction (motive := fun _ m => f ∈ allFields m ↔ ∃ d ∈ declared m, f ∈ d.fields)
    (fun schema name given m h ih => ?_) h
  obtain ⟨name, description, fields, code⟩ := m
  rw [allFields, mem_go]
  constructor
  · rintro ⟨g, hg, rfl | ⟨n, hn, hf⟩⟩
    · exact ⟨_, mem_declared.mpr (.inl rfl), hg⟩
    · obtain ⟨target, -, -, -, hmem⟩ := ih g hg n hn
      obtain ⟨d, hd, hf⟩ := hmem.mp hf
      exact ⟨d, mem_declared.mpr (.inr ⟨g, hg, n, hn, hd⟩), hf⟩
  · rintro ⟨d, hd, hf⟩
    rcases mem_declared.mp hd with rfl | ⟨g, hg, n, hn, hd⟩
    · exact ⟨f, hf, .inl rfl⟩
    · obtain ⟨target, -, -, -, hmem⟩ := ih g hg n hn
      exact ⟨g, hg, .inr ⟨n, hn, hmem.mpr ⟨d, hd, hf⟩⟩⟩

/-! ## Code as declarations -/

/-- A declared model with the lines of its own declaration, and the symbol that they declare. -/
structure Block where
  model : Model
  lines : List String
  symbol : Option String

/-- The lines are the declaration of the model: for an object, with the types of its fields. What
stands for a reference is a comment. -/
inductive Declaring : Block → Prop where
  | object {m : Model} {description : Value} {opening : List String}
      (opens : openModel m.name description = .ok opening) :
      Declaring ⟨m, opening ++ ["  fields: \x7b"] ++ m.fields.flatMap fieldLines ++
        ["  \x7d,", "\x7d);"], some m.name⟩
  | leaf {m : Model} (declares : Declares m.name m) (empty : m.fields = []) :
      Declaring ⟨m, [m.code], some m.name⟩
  | reference {m : Model} {pointer : String} (name : m.name = referenceSymbol pointer)
      (empty : m.fields = []) (comment : m.code = referenceComment pointer) :
      Declaring ⟨m, [m.code], none⟩

/-- The lines of declarations, with an empty line between each and the next. -/
def blockLines (blocks : List Block) : List String := [""].intercalate (blocks.map Block.lines)

/-- Nested models are declared before the models whose fields have them. -/
def Ordered (blocks : List Block) : Prop :=
  ∀ above b below, blocks = above ++ b :: below → ∀ f ∈ b.model.fields, ∀ n,
    f.nestedModel = some n → ∃ a ∈ above, a.model = n

/-- The declarations that the code of a model is made of. -/
structure Layout (schema : Value) (m : Model) (blocks : List Block) : Prop where
  models : blocks.map Block.model = declared m
  code : m.code = joinLines (blockLines blocks)
  declaring : ∀ b ∈ blocks, Declaring b
  ordered : Ordered blocks
  symbols : blocks.filterMap Block.symbol = (hoistedPaths schema).map (symbolAt m.name)

/-- The declarations of the nested model of a field, if it has any. -/
inductive FieldLayout (f : Field) : List Block → Prop where
  | flat (flat : f.nestedModel = none) : FieldLayout f []
  | nested {schema : Value} {n : Model} {blocks : List Block} (nested : f.nestedModel = some n)
      (layout : Layout schema n blocks) : FieldLayout f blocks

theorem Declaring.ne_nil {b : Block} (h : Declaring b) : b.lines ≠ [] := by
  cases h <;> simp

/-- The symbol of a declaration is declared wherever it stands. -/
theorem Declaring.declaresIn {b : Block} {ls : List String} (h : Declaring b) (hlines : b.lines ⊆ ls)
    {symbol : String} (hsymbol : b.symbol = some symbol) (hone : '\n' ∉ symbol.toList) :
    DeclaresIn (joinLines ls) symbol := by
  cases h with
  | object opens =>
    cases hsymbol
    obtain ⟨line, hline, hstart⟩ := exists_start_openModel opens
    exact declaresIn_joinLines (hlines (by simp [hline])) hone hstart
  | leaf declares _ =>
    cases hsymbol
    obtain ⟨line, hline, hstart⟩ := declares.declares
    exact ⟨line, mem_linesOf_joinLines (hlines (List.mem_singleton_self _)) hline, hstart⟩
  | reference _ _ _ => cases hsymbol

theorem Layout.ne_nil {blocks : List Block} (h : Layout schema m blocks) : blocks ≠ [] := by
  rintro rfl
  have hmodels := h.models
  rw [declared_eq] at hmodels
  simp at hmodels

theorem blockLines_append {xs ys : List Block} (hx : xs ≠ []) (hy : ys ≠ []) :
    blockLines (xs ++ ys) = blockLines xs ++ [""] ++ blockLines ys := by
  unfold blockLines
  induction xs with
  | nil => exact absurd rfl hx
  | cons b rest ih =>
    cases rest with
    | nil =>
      rw [List.singleton_append, List.map_cons, List.intercalate_cons_of_ne_nil (by simpa using hy),
        List.map_singleton, List.intercalate_singleton]
    | cons next more =>
      rw [List.cons_append, List.map_cons, List.map_cons,
        List.intercalate_cons_of_ne_nil (by simp), List.intercalate_cons_of_ne_nil (by simp),
        ih (List.cons_ne_nil _ _)]
      simp only [List.append_assoc]

theorem blockLines_ne_nil {blocks : List Block} (hne : blocks ≠ [])
    (h : ∀ b ∈ blocks, b.lines ≠ []) : blockLines blocks ≠ [] := by
  obtain ⟨b, rest, rfl⟩ := List.exists_cons_of_ne_nil hne
  have hb := h b List.mem_cons_self
  cases rest with
  | nil => simpa [blockLines] using hb
  | cons next more =>
    rw [← List.singleton_append, blockLines_append (List.cons_ne_nil _ _) (List.cons_ne_nil _ _)]
    simp

theorem mem_blockLines {blocks : List Block} {b : Block} (hb : b ∈ blocks) {line : String}
    (hline : line ∈ b.lines) : line ∈ blockLines blocks := by
  induction blocks with
  | nil => cases hb
  | cons b' rest ih =>
    cases rest with
    | nil =>
      rw [List.mem_singleton.mp hb] at hline
      simpa [blockLines] using hline
    | cons next more =>
      rw [← List.singleton_append, blockLines_append (List.cons_ne_nil _ _) (List.cons_ne_nil _ _)]
      rcases List.mem_cons.mp hb with rfl | hb
      · exact List.mem_append_left _ (List.mem_append_left _ (by simpa [blockLines] using hline))
      · exact List.mem_append_right _ (ih hb)

theorem Ordered.append {xs ys : List Block} (hx : Ordered xs) (hy : Ordered ys) :
    Ordered (xs ++ ys) := by
  intro above b below h f hf n hn
  rcases List.append_eq_append_iff.mp h with ⟨front, rfl, hfront⟩ | ⟨back, hback, hbelow⟩
  · obtain ⟨a, ha, hmodel⟩ := hy front b below hfront f hf n hn
    exact ⟨a, List.mem_append_right _ ha, hmodel⟩
  · cases back with
    | nil =>
      rw [List.append_nil] at hback
      obtain ⟨a, ha, -⟩ := hy [] b below hbelow.symm f hf n hn
      cases ha
    | cons b' back =>
      cases hbelow
      exact hx above b back hback f hf n hn

/-- One more declaration, of a model whose nested models are declared already. -/
theorem Ordered.concat {xs : List Block} (hx : Ordered xs) {last : Block}
    (h : ∀ f ∈ last.model.fields, ∀ n, f.nestedModel = some n → ∃ a ∈ xs, a.model = n) :
    Ordered (xs ++ [last]) := by
  intro above b below heq f hf n hn
  -- the declaration is the new one, or stands further up
  rcases List.append_eq_append_iff.mp heq with ⟨front, rfl, hfront⟩ | ⟨back, hback, hbelow⟩
  · cases front with
    | nil =>
      cases hfront
      rw [List.append_nil]
      exact h f hf n hn
    | cons b' front => simp at hfront
  · cases back with
    | nil =>
      rw [List.append_nil] at hback
      cases hbelow
      rw [← hback]
      exact h f hf n hn
    | cons b' back =>
      cases hbelow
      exact hx above b back hback f hf n hn

/-- The lines of the nested models of fields, each with an empty line behind it. -/
def hoistedLines (fields : List Field) : List String :=
  fields.flatMap fun f =>
    match f.nestedModel with
    | some nested => [nested.code, ""]
    | none => []

theorem joinLines_append {xs ys : List String} (hx : xs ≠ []) (hy : ys ≠ []) :
    joinLines (xs ++ ys) = joinLines xs ++ "\n" ++ joinLines ys :=
  String.intercalate_append_of_ne_nil hx hy

/-- **The declarations of the nested models of fields**, in front of another one. -/
theorem hoisted_of_fields {fields : List Field} {pieces : List (List Block)}
    (h : List.Forall₂ FieldLayout fields pieces) :
    pieces.flatten.map Block.model = declared.go fields
      ∧ (∀ b ∈ pieces.flatten, Declaring b) ∧ Ordered pieces.flatten
      ∧ ∀ last : Block, last.lines ≠ [] → joinLines (hoistedLines fields ++ last.lines)
          = joinLines (blockLines (pieces.flatten ++ [last])) := by
  induction h with
  | nil =>
    refine ⟨rfl, nofun, fun above b below heq => ?_, fun last _ => ?_⟩
    · simp at heq
    · simp [hoistedLines, blockLines]
  | @cons f blocks rest pieces hfirst _ ih =>
    obtain ⟨hmodels, hdeclaring, hordered, hcode⟩ := ih
    rw [List.flatten_cons]
    cases hfirst with
    | flat flat =>
      refine ⟨?_, hdeclaring, hordered, fun last hlast => ?_⟩
      · rw [go_cons, flat]
        exact hmodels
      · rw [List.nil_append, ← hcode last hlast, hoistedLines, List.flatMap_cons, flat]
        rfl
    | @nested _ n _ nested layout =>
      refine ⟨?_, ?_, layout.ordered.append hordered, fun last hlast => ?_⟩
      · rw [go_cons, nested, List.map_append, layout.models, hmodels]
        rfl
      · exact fun b hb => (List.mem_append.mp hb).elim (layout.declaring b) (hdeclaring b)
      · -- joining goes through without an empty list, which would lose a line break
        have hlines : blockLines blocks ≠ [] :=
          blockLines_ne_nil layout.ne_nil fun b hb => (layout.declaring b hb).ne_nil
        have hrest : blockLines (pieces.flatten ++ [last]) ≠ [] := by
          refine blockLines_ne_nil (by simp) fun b hb => ?_
          rcases List.mem_append.mp hb with hb | hb
          · exact (hdeclaring b hb).ne_nil
          · rw [List.mem_singleton.mp hb]
            exact hlast
        have hfront : hoistedLines (f :: rest) = [n.code] ++ [""] ++ hoistedLines rest := by
          rw [hoistedLines, List.flatMap_cons, nested]
          rfl
        calc joinLines (hoistedLines (f :: rest) ++ last.lines)
            = n.code ++ "\n" ++ joinLines [""] ++ "\n" ++
                joinLines (hoistedLines rest ++ last.lines) := by
              rw [hfront, List.append_assoc, joinLines_append (by simp) (by simp [hlast]),
                joinLines_append (by simp) (by simp)]
              rfl
          _ = joinLines (blockLines blocks) ++ "\n" ++ joinLines [""] ++ "\n" ++
                joinLines (blockLines (pieces.flatten ++ [last])) := by
              rw [hcode last hlast, ← layout.code]
          _ = joinLines (blockLines (blocks ++ pieces.flatten ++ [last])) := by
              rw [List.append_assoc, blockLines_append layout.ne_nil (by simp),
                joinLines_append (by simp) hrest, joinLines_append hlines (by simp)]

/-- A model whose nested models are laid out, with its own declaration behind theirs. -/
theorem layout_of_fields {pieces : List (List Block)} {lines : List String} {symbol : Option String}
    (hfields : List.Forall₂ FieldLayout m.fields pieces) (hown : Declaring ⟨m, lines, symbol⟩)
    (hcode : m.code = joinLines (hoistedLines m.fields ++ lines))
    (hsymbols : pieces.flatten.filterMap Block.symbol ++ symbol.toList
      = (hoistedPaths schema).map (symbolAt m.name)) :
    Layout schema m (pieces.flatten ++ [⟨m, lines, symbol⟩]) := by
  obtain ⟨hmodels, hdeclaring, hordered, hjoined⟩ := hoisted_of_fields hfields
  refine ⟨?_, hcode.trans (hjoined ⟨m, lines, symbol⟩ hown.ne_nil), ?_,
    hordered.concat fun f hf n hn => ?_, ?_⟩
  · rw [List.map_append, hmodels, declared_eq]
    rfl
  · intro b hb
    rcases List.mem_append.mp hb with hb | hb
    · exact hdeclaring b hb
    · rw [List.mem_singleton.mp hb]
      exact hown
  · have hmem : n ∈ pieces.flatten.map Block.model := by
      rw [hmodels]
      exact mem_go_declared.mpr ⟨f, hf, n, hn, mem_declared.mpr (.inl rfl)⟩
    exact List.mem_map.mp hmem
  · rw [← hsymbols, List.filterMap_append]
    cases symbol <;> rfl

/-- A model without fields is its own declaration. -/
theorem exists_layout_of_empty {symbol : Option String} (empty : m.fields = [])
    (hown : Declaring ⟨m, [m.code], symbol⟩)
    (hsymbols : symbol.toList = (hoistedPaths schema).map (symbolAt m.name)) :
    ∃ blocks, Layout schema m blocks := by
  refine ⟨_, @layout_of_fields schema m [] _ symbol ?_ hown ?_ hsymbols⟩
  · rw [empty]
    exact .nil
  · rw [empty]
    rfl

/-- A model with fields stands behind the nested models of its fields. -/
theorem exists_layout_of_fields {pieces : List (List Block)} {paths : List (List String)}
    (h : model schema name given = .ok m) (hne : m.fields ≠ [])
    (hpieces : List.Forall₂ FieldLayout m.fields pieces)
    (hsymbols : pieces.flatten.filterMap Block.symbol = paths.map (symbolAt m.name))
    (hpaths : hoistedPaths schema = paths ++ [[]]) : ∃ blocks, Layout schema m blocks := by
  obtain hempty | ⟨symbol, description, fields, hmodel⟩ := fields_of_model h
  · exact absurd hempty hne
  unfold objectModel at hmodel
  obtain ⟨opening, hopening, hmodel⟩ := bind_eq_ok.mp hmodel
  obtain ⟨about, -, hmodel⟩ := bind_eq_ok.mp hmodel
  cases hmodel
  refine ⟨_, layout_of_fields hpieces (.object hopening) ?_ ?_⟩
  · simp only [List.append_assoc]
    rfl
  · rw [hsymbols, hpaths, List.map_append]
    rfl

/-- The declarations of the nested model of a property, if its target is laid out. -/
theorem exists_fieldLayout {node : Value} {key parent : String} {required : Bool}
    (ih : ∀ target, nestTarget? node = some target → ∀ name n,
      model target name .null = .ok n → ∃ blocks, Layout target n blocks)
    (h : DeclaredField node key required parent f) :
    ∃ blocks, FieldLayout f blocks
      ∧ blocks.filterMap Block.symbol = (fieldPaths key node).map (symbolAt parent) := by
  cases h with
  | flat field single =>
    refine ⟨[], .flat field.hnested, ?_⟩
    rw [fieldPaths_of_single single]
    rfl
  | nested field found nests unlisted built =>
    obtain ⟨blocks, layout⟩ := ih _ found _ _ built
    refine ⟨blocks, .nested rfl layout, ?_⟩
    rw [layout.symbols, fieldPaths_of_nests found nests unlisted, List.map_map]
    refine List.map_congr_left fun path hpath => ?_
    rw [name_of_hoisted built (List.ne_nil_of_mem hpath), Function.comp_apply, symbolAt_cons]

/-- The declarations of the nested models of an object, if their targets are laid out. -/
theorem exists_pieces {properties : Members} {keys : List Scalar} {parent : String}
    {fields : List Field}
    (ih : ∀ p ∈ properties, ∀ target, nestTarget? p.2 = some target → ∀ name n,
      model target name .null = .ok n → ∃ blocks, Layout target n blocks)
    (h : fieldsOf parent keys properties = .ok fields) :
    ∃ pieces, List.Forall₂ FieldLayout fields pieces ∧ pieces.flatten.filterMap Block.symbol
      = (memberPaths properties).map (symbolAt parent) := by
  replace h := forall₂_fieldsOf h
  induction h with
  | nil =>
    rw [memberPaths]
    exact ⟨[], .nil, rfl⟩
  | @cons p f properties fields hfield _ ihrest =>
    obtain ⟨key, node⟩ := p
    obtain ⟨blocks, hlayout, hsymbols⟩ :=
      exists_fieldLayout (ih (key, node) List.mem_cons_self) (declaredField hfield)
    obtain ⟨pieces, hpieces, hmore⟩ := ihrest fun p hp => ih p (List.mem_cons_of_mem _ hp)
    refine ⟨blocks :: pieces, .cons hlayout hpieces, ?_⟩
    rw [memberPaths_cons, List.map_append, List.flatten_cons, List.filterMap_append, hsymbols, hmore]

/-- **The declarations that the code of a model is made of**, by induction on the schema. -/
theorem exists_layout (h : model schema name given = .ok m) : ∃ blocks, Layout schema m blocks := by
  induction hsize : schema.size using Nat.strongRecOn generalizing schema name given m with
  | ind size ih =>
    subst hsize
    cases declaredModel h with
    | reference found =>
      refine exists_layout_of_empty rfl (.reference rfl rfl rfl) ?_
      rw [hoistedPaths_of_reference found]
      rfl
    | leaf other leaf declares empty =>
      have hpaths : hoistedPaths schema = [[]] := by
        rcases leaf with hlisted | ⟨habsent, hsingle⟩
        · exact hoistedPaths_of_listed other hlisted
        · exact hoistedPaths_of_leaf other habsent hsingle
      refine exists_layout_of_empty empty (.leaf (declares.name ▸ declares) empty) ?_
      rw [hpaths]
      rfl
    | @object _ properties keys other unlisted found required fields declares =>
      have hpaths := hoistedPaths_of_properties other unlisted found
      rw [← declares.name] at fields
      obtain ⟨pieces, hpieces, hsymbols⟩ := exists_pieces (fun p hp target htarget name n hn => by
        have hnode := size_le_membersSize (k := p.1) hp
        have hproperties := Schema.membersSize_lt_of_properties? found
        have hle := size_nestTarget?_le htarget
        exact ih _ (by omega) hn rfl) fields
      by_cases hempty : m.fields = []
      · -- an object without properties is written in one piece
        rw [hempty] at fields
        cases forall₂_fieldsOf fields
        refine exists_layout_of_empty hempty (.leaf (declares.name ▸ declares) hempty) ?_
        rw [hpaths, memberPaths]
        rfl
      · exact exists_layout_of_fields h hempty hpieces hsymbols hpaths
    | @list _ f other unlisted absent array field fields declares =>
      have hpaths := hoistedPaths_of_list other unlisted absent array
      rw [← declares.name] at field
      obtain ⟨blocks, hlayout, hsymbols⟩ := exists_fieldLayout (fun target htarget name n hn => by
        rw [nestTarget?_of_array (isInline_of_array other array) array] at htarget
        exact ih _ (Value.size_lt_of_get? (Option.filter_eq_some_iff.mp htarget).1) hn rfl) field
      have hpieces : List.Forall₂ FieldLayout m.fields [blocks] := by
        rw [fields]
        exact .cons hlayout .nil
      exact exists_layout_of_fields h (by simp [fields]) hpieces (by simpa using hsymbols) hpaths

end Declaration

end ApiContract.Codegen
