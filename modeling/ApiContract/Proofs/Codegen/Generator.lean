import ApiContract.Codegen.Generator
import ApiContract.Proofs.Named

/-!
# Generators keep nothing that counts

The code of a model does not depend on what its generator noted before. For the validators this is
seen node by node: the code of a node is that of its expression, and what is noted on the way is
what the expression refers to, behind what was noted before. So one generator answers any calls, also
after some that failed, as a new one would answer each.

* **`Stateful.from_bind`** — how a computation on a state runs;
* **`Notes.bind`** — one noting computation after the other;
* **`notes_nodeCode`** / **`notes_memberLines`** — a node, and the properties of an object;
* **`Generator.generateModel_eq`** / **`Generator.generateField_eq`** — what one call gives;
* **`Generator.answer_eq`** — the step: nothing but the dialect and the conventions counts, and they stay;
* **`answers_are_fresh`** — the run.
-/

namespace ApiContract.Codegen

/-! ## Running on a state -/

namespace Stateful

variable {σ α β : Type} (s : σ)

theorem from_lift (x : Except Failure α) :
    Stateful.from s (liftM x) = (x, s) := rfl

theorem from_bind (x : Stateful σ α) (f : α → Stateful σ β) :
    Stateful.from s (x >>= f) = match x.from s with
      | (.ok a, s') => (f a).from s'
      | (.error cause, s') => (.error cause, s') := by
  show StateT.run (m := Id) (ExceptT.run (x >>= f)) s = _
  unfold Stateful.from
  simp only [ExceptT.run, bind, ExceptT.bind, ExceptT.mk, StateT.bind, StateT.run]
  cases x s with
  | mk result s' => cases result <;> rfl

end Stateful

namespace Zod

/-! ## Noting -/

/-- After the models `before` are noted, `x` goes on like `y`: it gives the same, in the form that
`value` gives it, with the models `noted` of the result noted in all. Where `y` fails, so does
`x`. -/
def Notes {α β : Type} (before : List String) (x : Noting α) (y : Except Failure β) (value : β → α)
    (noted : β → List String) : Prop :=
  match y with
  | .ok b => ∀ start,
      x.from (Distinct.add start before) = (.ok (value b), Distinct.add start (noted b))
  | .error cause => ∀ start, (x.from (Distinct.add start before)).1 = .error cause

variable {α β γ δ : Type}

theorem notes_pure {before : List String} {a : α} {b : β} {value : β → α} {noted : β → List String}
    (hvalue : a = value b) (hnoted : before = noted b) :
    Notes before (pure a) (pure b) value noted := by
  intro start
  rw [hvalue, hnoted]
  rfl

theorem notes_lift (before : List String) (x : Except Failure α) :
    Notes before (liftM x) x id fun _ => before := by
  cases x with
  | ok a => exact fun start => rfl
  | error cause => exact fun start => rfl

theorem Notes.bind {before : List String} {x : Noting α} {y : Except Failure β} {value : β → α}
    {noted : β → List String} (h : Notes before x y value noted) {f : α → Noting γ}
    {g : β → Except Failure δ} {value' : δ → γ} {noted' : δ → List String}
    (hnext : ∀ b, y = .ok b → Notes (noted b) (f (value b)) (g b) value' noted') :
    Notes before (x >>= f) (y >>= g) value' noted' := by
  -- the run of the sequence is the run of `x`, and after a value of `x` the run of its continuation
  have hrun : ∀ start, Stateful.from (Distinct.add start before) (x >>= f) = _ :=
    fun start => Stateful.from_bind _ x f
  cases y with
  | error cause =>
    intro start
    rw [hrun start]
    have hx := h start
    split
    · next heq => rw [heq] at hx; cases hx
    · next heq =>
      rw [heq] at hx
      cases hx
      rfl
  | ok b =>
    have hnext := hnext b rfl
    show Notes before (x >>= f) (g b) value' noted'
    unfold Notes at hnext ⊢
    cases hg : g b with
    | ok d =>
      intro start
      rw [hg] at hnext
      rw [hrun start, h start]
      exact hnext start
    | error cause =>
      intro start
      rw [hg] at hnext
      rw [hrun start, h start]
      exact hnext start

/-- The result of a sequence, if nothing that is noted changes what `f` gives. -/
theorem Notes.fst_from_bind {x : Noting α} {y : Except Failure β} {value : β → α}
    {noted : β → List String} (h : Notes [] x y value noted) (start : List String)
    {f : α → Noting γ} {g : β → Except Failure γ}
    (hnext : ∀ b, ((f (value b)).from (Distinct.add start (noted b))).1 = g b) :
    ((x >>= f).from start).1 = y >>= g := by
  rw [Stateful.from_bind]
  cases y with
  | error cause =>
    have hfails : (x.from start).1 = .error cause := h start
    split
    · next heq => rw [heq] at hfails; cases hfails
    · next heq =>
      rw [heq] at hfails
      cases hfails
      rfl
  | ok b =>
    have hgives : x.from start = (.ok (value b), Distinct.add start (noted b)) := h start
    rw [hgives]
    exact hnext b

/-- What is noted from the beginning on, is noted behind other models too. -/
theorem Notes.after {x : Noting α} {y : Except Failure β} {value : β → α} {noted : β → List String}
    (h : Notes [] x y value noted) (before : List String) :
    Notes before x y value fun b => before ++ noted b := by
  cases y with
  | error cause => exact fun start => h (Distinct.add start before)
  | ok b =>
    intro start
    rw [Distinct.add_append]
    exact h (Distinct.add start before)

/-! ## Nodes -/

/-- A node whose base is known: its constraints, its default and whether it may be absent. -/
def completed (schema : Value) (required : Bool) (base : Expression) :
    Except Failure Expression := do
  let (type, nullable) := Schema.typeOf schema
  let default ← defaultCode schema
  return ⟨base.code ++ constraints schema type ++ default ++ optionalCode (!required || nullable),
    base.references⟩

theorem expression_of_properties {schema : Value} {properties : Members}
    (hpointer : Reference.pointer? schema = none)
    (hproperties : inlineProperties? schema = some properties) (required : Bool) :
    expression schema required = (do
      let es ← memberExpressions (← Schema.requiredKeys schema) properties
      completed schema required (objectOf es)) := by
  rw [expression, hpointer]
  dsimp only
  split
  · next properties' h =>
    cases hproperties.symm.trans h
    rfl
  · next h => cases hproperties.symm.trans h

theorem expression_of_no_properties {schema : Value} (hpointer : Reference.pointer? schema = none)
    (hproperties : inlineProperties? schema = none) (required : Bool) :
    expression schema required = (do
      match ← Schema.enumValues schema with
      | some values =>
        completed schema required ⟨s!"z.enum([{literalList (values.map Value.text)}])", []⟩
      | none =>
        if (Schema.typeOf schema).1 = some "array" then
          match schema.get? "items" with
          | some (.map items) => do
            let item ← expression (.map items) true
            completed schema required ⟨s!"z.array({item.code})", item.references⟩
          | _ => completed schema required ⟨"z.array(z.unknown())", []⟩
        else
          completed schema required
            ⟨← scalarCode (Schema.typeOf schema).1 (schema.field "format"), []⟩) := by
  rw [expression, hpointer]
  dsimp only
  split
  · next h => cases hproperties.symm.trans h
  · refine bind_congr fun values => ?_
    cases values with
    | some values => rfl
    | none =>
      refine if_congr Iff.rfl ?_ rfl
      split
      · next items hitems =>
        rw [hitems]
        rfl
      · next hother =>
        split
        · next items hitems => exact absurd hitems (hother items)
        · rfl

mutual

theorem notes_nodeCode (schema : Value) (required : Bool) :
    Notes [] (nodeCode schema required) (expression schema required) (·.code) (·.references) := by
  -- what follows when the base of the node is known notes nothing more
  have hrest (base : Expression) :
      Notes base.references (do
          let default ← liftM (defaultCode schema)
          pure (base.code ++ constraints schema (Schema.typeOf schema).1 ++ default
            ++ optionalCode (!required || (Schema.typeOf schema).2)))
        (completed schema required base) (·.code) (·.references) :=
    (notes_lift _ _).bind fun default _ => notes_pure rfl rfl
  cases hpointer : Reference.pointer? schema with
  | some pointer =>
    -- the target is noted, and the expression has it as its only reference
    rw [nodeCode, expression, hpointer]
    exact fun start => rfl
  | none =>
    rw [nodeCode, hpointer]
    dsimp only
    split
    · next properties hproperties =>
      rw [expression_of_properties hpointer hproperties]
      refine (notes_lift [] _).bind fun keys _ => ?_
      exact (notes_memberLines keys properties).bind fun lines _ => hrest (objectOf lines)
    · next hproperties =>
      rw [expression_of_no_properties hpointer hproperties]
      refine (notes_lift [] _).bind fun values _ => ?_
      cases values with
      | some values => exact hrest ⟨_, []⟩
      | none =>
        dsimp only [id]
        split
        · split
          · next items hitems =>
            rw [hitems]
            exact (notes_nodeCode (.map items) true).bind fun item _ => hrest ⟨_, item.references⟩
          · next hother =>
            split
            · next items hitems => exact absurd hitems (hother items)
            · exact hrest ⟨_, []⟩
        · exact (notes_lift [] _).bind fun code _ => hrest ⟨code, []⟩
termination_by (schema.size, 0)
decreasing_by
  · exact Prod.Lex.left _ _ (membersSize_lt_of_inlineProperties? (by assumption))
  · exact Prod.Lex.left _ _ (Value.size_lt_of_get? (by assumption))

theorem notes_memberLines (required : List Scalar) (properties : List (Scalar × Value)) :
    Notes [] (memberLines required properties) (memberExpressions required properties)
      (fun es => es.map (·.code)) fun es => es.flatMap (·.references) := by
  match properties with
  | [] =>
    rw [memberLines, memberExpressions]
    exact notes_pure rfl rfl
  | (key, schema) :: rest =>
    rw [memberLines, memberExpressions]
    refine (notes_nodeCode schema (Schema.isRequired required key)).bind fun value _ => ?_
    refine ((notes_memberLines required rest).after value.references).bind fun lines _ => ?_
    exact notes_pure rfl rfl
termination_by (membersSize properties, 1)
decreasing_by
  · simp only [membersSize]
    rcases Nat.eq_zero_or_pos (membersSize rest) with h | h
    · rw [h]
      exact Prod.Lex.right _ (by omega)
    · exact Prod.Lex.left _ _ (by omega)
  · simp only [membersSize]
    exact Prod.Lex.left _ _ (by have := Value.size_pos schema; omega)

end

theorem notes_modelCode (schema : Value) :
    Notes [] (modelCode schema) (modelExpression schema) (·.code) (·.references) := by
  unfold modelCode modelExpression
  cases Schema.properties? schema with
  | some properties =>
    refine (notes_lift [] _).bind fun keys _ => ?_
    refine (notes_memberLines keys properties).bind fun lines _ => ?_
    exact notes_pure rfl rfl
  | none =>
    dsimp only
    split
    · exact notes_nodeCode schema true
    · exact notes_pure rfl rfl

/-- A model is generated alike whatever was noted before: the notes of other models are dropped, and
each of its own stands for one import. -/
theorem from_namedModel (conventions : Conventions) (schema : Value) (name : String) (given : Value)
    (start : List String) :
    ((namedModel conventions schema name given).from start).1
      = generateModel conventions schema name given := by
  show (Stateful.from [] (modelCode schema >>= _)).1 = modelExpression schema >>= _
  refine (notes_modelCode schema).fst_from_bind [] fun body => ?_
  have himports : Distinct.add baseImports
        ((Distinct.ofList body.references).map (referenceImport conventions))
      = Distinct.add baseImports (body.references.map (referenceImport conventions)) :=
    Distinct.add_map_add baseImports (referenceImport conventions) [] body.references
  show (Stateful.from (Distinct.ofList body.references)
    (liftM (jsonLiteral (chooseDescription given schema)) >>= _)).1
      = jsonLiteral (chooseDescription given schema) >>= _
  rw [Stateful.from_bind, Stateful.from_lift]
  cases jsonLiteral (chooseDescription given schema) with
  | error cause => rfl
  | ok about =>
    exact congrArg (fun imports => Except.ok (GeneratedCode.mk _ _ imports _)) himports

/-- A field is generated alike whatever was noted before. -/
theorem from_singleField (schema : Value) (required : Bool) (start : List String) :
    ((singleField schema required).from start).1 = generateField schema required := by
  refine (notes_nodeCode schema required).fst_from_bind start fun body => ?_
  cases Reference.pointer? schema with
  | some pointer => rfl
  | none => rfl

end Zod

/-- **What a generator gives for a model** is the code of its dialect. -/
theorem Generator.generateModel_eq (g : Generator) (schema : Value) (name : String)
    (given : Value) :
    (g.generateModel schema name given).1
        = g.dialect.generateModel g.conventions schema name given
      ∧ (g.generateModel schema name given).2.dialect = g.dialect
      ∧ (g.generateModel schema name given).2.conventions = g.conventions := by
  obtain ⟨dialect, conventions, noted⟩ := g
  cases dialect with
  | zod => exact ⟨Zod.from_namedModel conventions schema name given noted, rfl, rfl⟩
  | declaration => exact ⟨rfl, rfl, rfl⟩
  | jsonSchema => exact ⟨rfl, rfl, rfl⟩
  | graphQl => exact ⟨rfl, rfl, rfl⟩

/-- **What a generator gives for a field** is the code of its dialect. -/
theorem Generator.generateField_eq (g : Generator) (schema : Value) (name : String)
    (required : Bool) :
    (g.generateField schema name required).1 = g.dialect.generateField schema name required
      ∧ (g.generateField schema name required).2.dialect = g.dialect
      ∧ (g.generateField schema name required).2.conventions = g.conventions := by
  obtain ⟨dialect, conventions, noted⟩ := g
  cases dialect with
  | zod => exact ⟨Zod.from_singleField schema required noted, rfl, rfl⟩
  | declaration => exact ⟨rfl, rfl, rfl⟩
  | jsonSchema => exact ⟨rfl, rfl, rfl⟩
  | graphQl => exact ⟨rfl, rfl, rfl⟩

/-! ## Calls -/

/-- What a dialect gives for a call. -/
def Dialect.respond (dialect : Dialect) (conventions : Conventions) :
    Call → Except Failure Generated
  | .model schema name description =>
    (dialect.generateModel conventions schema name description).map .model
  | .field schema name required => (dialect.generateField schema name required).map .field

/-- **The step**: a call is answered as the dialect does, whatever is noted; and the generator after it
has the same dialect and conventions, also where the call fails. -/
theorem Generator.answer_eq (g : Generator) (call : Call) :
    (g.answer call).1 = g.dialect.respond g.conventions call
      ∧ (g.answer call).2.dialect = g.dialect ∧ (g.answer call).2.conventions = g.conventions := by
  cases call with
  | model schema name description =>
    obtain ⟨hcode, hkept⟩ := g.generateModel_eq schema name description
    exact ⟨congrArg (Except.map Generated.model) hcode, hkept⟩
  | field schema name required =>
    obtain ⟨hcode, hkept⟩ := g.generateField_eq schema name required
    exact ⟨congrArg (Except.map Generated.field) hcode, hkept⟩

/-- The run, by induction on the calls; the generator varies. -/
theorem Generator.answers_eq (g : Generator) (calls : List Call) :
    g.answers calls = calls.map (g.dialect.respond g.conventions) := by
  induction calls generalizing g with
  | nil => rfl
  | cons call rest ih =>
    obtain ⟨hanswer, hdialect, hconventions⟩ := g.answer_eq call
    show (g.answer call).1 :: (g.answer call).2.answers rest = _
    rw [ih, hanswer, hdialect, hconventions, List.map_cons]

/-- **Generators have no memory**: in any run of calls on one generator, each call, a model or a field,
has the result or the failure that it has on a new generator of the format. -/
theorem answers_are_fresh (format : Option String) (conventions : Option Conventions)
    (calls : List Call) :
    (Generator.create format conventions).answers calls
      = calls.map fun call => ((Generator.create format conventions).answer call).1 := by
  rw [Generator.answers_eq]
  exact List.map_congr_left fun call _ => (Generator.answer_eq _ call).1.symm

-- a field on its own leaves its reference in the generator, where the next model begins
example :
    ((Generator.create (some "zod") none).answer
      (.field (.map [(.str "$ref", .str "#/components/schemas/Pet")]) "pet" true)).2.noted
        = ["Pet"] := by
  cbv

end ApiContract.Codegen
