import ApiContract.Import.Result
import ApiContract.Proofs.Codegen.Declared

/-!
# The symbols of generated models

A model is generated under a symbol made of its name, with one exception: the declaration of a
component that only refers to another one is a comment, under the symbol of what is referred to. All
others declare their symbols.

* **`Declaration.name_of_model`** — declarations, by their cases.
* **`name_of_generateModel`** / **`fileName_of_generateModel`** — all dialects.
* **`declaresIn_name`** — the code of a model declares its symbol, but for a reference.
* **`declares_iff`** — which components a generated model declares a symbol for.
-/

namespace ApiContract.Codegen

/-- The symbol of the model of a component. -/
def componentSymbol (dialect : Dialect) (component : String × Value) : String :=
  match dialect with
  | .declaration =>
    match Reference.pointer? component.2 with
    | some pointer => referenceSymbol pointer
    | none => Naming.modelName component.1
  | _ => Naming.modelName component.1

/-- **The symbol of a declaration.** -/
theorem Declaration.name_of_model {schema given : Value} {name : String} {m : Model}
    (h : Declaration.model schema name given = .ok m) :
    m.name = componentSymbol .declaration (name, schema) := by
  unfold componentSymbol
  cases declaredModel h with
  | reference found => rw [found]
  | leaf other _ declares _ =>
    rw [other]
    exact declares.name
  | object other _ _ _ _ declares =>
    rw [other]
    exact declares.name
  | list other _ _ _ _ _ declares =>
    rw [other]
    exact declares.name

variable {conventions : Conventions} {schema given : Value} {name : String} {code : GeneratedCode}

theorem Zod.name_of_generateModel (h : Zod.generateModel conventions schema name given = .ok code) :
    code.name = Naming.modelName name := by
  unfold Zod.generateModel at h
  obtain ⟨body, -, h⟩ := bind_eq_ok.mp h
  obtain ⟨about, -, h⟩ := bind_eq_ok.mp h
  rw [← Except.ok.inj h]

theorem SchemaConstant.name_of_generateModel
    (h : SchemaConstant.generateModel schema name given = .ok code) :
    code.name = Naming.modelName name := by
  unfold SchemaConstant.generateModel at h
  dsimp only at h
  split at h
  · rw [← Except.ok.inj h]
  · cases h

theorem GraphQl.name_of_generateModel (h : GraphQl.generateModel schema name given = .ok code) :
    code.name = Naming.modelName name := by
  unfold GraphQl.generateModel at h
  obtain ⟨definition, -, h⟩ := bind_eq_ok.mp h
  rw [← Except.ok.inj h]

theorem Declaration.name_of_generateModel
    (h : Declaration.generateModel conventions schema name given = .ok code) :
    code.name = componentSymbol .declaration (name, schema) := by
  unfold Declaration.generateModel at h
  obtain ⟨m, hm, h⟩ := bind_eq_ok.mp h
  rw [← Except.ok.inj h]
  exact Declaration.name_of_model hm

/-- **The symbol of a generated model**, in every dialect. -/
theorem name_of_generateModel {dialect : Dialect}
    (h : dialect.generateModel conventions schema name given = .ok code) :
    code.name = componentSymbol dialect (name, schema) := by
  cases dialect with
  | declaration => exact Declaration.name_of_generateModel h
  | zod =>
    unfold componentSymbol
    exact Zod.name_of_generateModel h
  | jsonSchema =>
    unfold componentSymbol
    exact SchemaConstant.name_of_generateModel h
  | graphQl =>
    unfold componentSymbol
    exact GraphQl.name_of_generateModel h

/-- The file of a model is that of its name, whatever its symbol. -/
theorem fileName_of_generateModel {dialect : Dialect}
    (h : dialect.generateModel conventions schema name given = .ok code) :
    code.fileName = Naming.fileName name := by
  cases dialect with
  | declaration =>
    obtain ⟨m, -, h⟩ := bind_eq_ok.mp h
    rw [← Except.ok.inj h]
  | zod =>
    obtain ⟨body, -, h⟩ := bind_eq_ok.mp h
    obtain ⟨about, -, h⟩ := bind_eq_ok.mp h
    rw [← Except.ok.inj h]
  | jsonSchema =>
    unfold Dialect.generateModel SchemaConstant.generateModel at h
    dsimp only at h
    split at h
    · rw [← Except.ok.inj h]
    · cases h
  | graphQl =>
    obtain ⟨definition, -, h⟩ := bind_eq_ok.mp h
    rw [← Except.ok.inj h]

/-! ## What is declared -/

/-- What stands behind the symbol of a model in the symbol that is imported for it. -/
def Dialect.suffix : Dialect → String
  | .zod => "Schema"
  | _ => ""

/-- The code declares the symbol of a model. -/
structure GeneratedCode.Declares (dialect : Dialect) (code : GeneratedCode) (symbol : String) :
    Prop where
  name : code.name = symbol
  line : DeclaresIn code.code (symbol ++ dialect.suffix)

/-- What stands for the declaration of a component that only refers to another one. -/
def referenceComment (pointer : String) : String := s!"// Reference to {pointer}"

/-- The file of a component declares the symbol of a model: the name of the component in Pascal case
is the symbol. A comment declares nothing, unless it goes on to a line that does. -/
def Provides (dialect : Dialect) (component : String × Value) (symbol : String) : Prop :=
  match dialect, Reference.pointer? component.2 with
  | .declaration, some pointer =>
    referenceSymbol pointer = symbol ∧ DeclaresIn (referenceComment pointer) symbol
  | _, _ => Naming.pascalCase component.1 = symbol ∧ symbol ≠ ""

theorem Declaration.declaresIn_modelName
    (h : Declaration.generateModel conventions schema name given = .ok code)
    (other : Reference.pointer? schema = none) : DeclaresIn code.code (Naming.modelName name) := by
  unfold Declaration.generateModel at h
  obtain ⟨m, hm, h⟩ := bind_eq_ok.mp h
  have hcode : code.code = m.code := by rw [← Except.ok.inj h]
  rw [hcode]
  cases Declaration.declaredModel hm with
  | reference found => cases other.symm.trans found
  | leaf _ _ declares _ => exact declares.declares
  | object _ _ _ _ _ declares => exact declares.declares
  | list _ _ _ _ _ _ declares => exact declares.declares

/-- The constant of a model stands behind a comment, what it is made of, and an empty line. -/
theorem declaresIn_constant {comment rest : List String} {base empty line symbol : String}
    (hsymbol : '\n' ∉ symbol.toList)
    (hline : ("export const " ++ symbol ++ " = new ").toList <+: line.toList) :
    DeclaresIn (joinLines (comment ++ base :: empty :: line :: rest)) symbol :=
  declaresIn_joinLines (List.mem_append_right _ (List.mem_cons_of_mem _ (List.mem_cons_of_mem _
    List.mem_cons_self))) hsymbol <|
      List.IsPrefix.trans ( declarationStart_prefix "new " rfl symbol) hline

/-- **A generated model declares its symbol**, except that a declaration that only refers to another
model is a comment. -/
theorem declaresIn_name {dialect : Dialect}
    (h : dialect.generateModel conventions schema name given = .ok code)
    (other : dialect = .declaration → Reference.pointer? schema = none) :
    DeclaresIn code.code code.name := by
  have hsymbol := Declaration.notMem_modelName name
  have hstart {sign : String} (after : String) (hsign : sign = " = new " ++ after) :
      ("export const " ++ Naming.modelName name ++ " = new ").toList
        <+: ("export const " ++ Naming.modelName name ++ sign).toList := by
    rw [hsign, ← String.append_assoc]
    exact prefix_append List.prefix_rfl after
  cases dialect with
  | declaration =>
    have hname : code.name = Naming.modelName name := by
      rw [name_of_generateModel h]
      unfold componentSymbol
      rw [other rfl]
    rw [hname]
    exact Declaration.declaresIn_modelName h (other rfl)
  | zod =>
    rw [Zod.name_of_generateModel h]
    obtain ⟨body, -, h⟩ := bind_eq_ok.mp h
    obtain ⟨about, -, h⟩ := bind_eq_ok.mp h
    rw [← Except.ok.inj h]
    exact declaresIn_constant hsymbol
      (prefix_append (prefix_append (prefix_append (hstart "ZodSchemaType(" rfl) _) _) _)
  | jsonSchema =>
    rw [SchemaConstant.name_of_generateModel h]
    unfold Dialect.generateModel SchemaConstant.generateModel at h
    dsimp only at h
    split at h
    · rw [← Except.ok.inj h]
      exact declaresIn_constant hsymbol
        (prefix_append (prefix_append (hstart "JsonSchemaType(" rfl) _) _)
    · cases h
  | graphQl =>
    rw [GraphQl.name_of_generateModel h]
    obtain ⟨definition, -, h⟩ := bind_eq_ok.mp h
    rw [← Except.ok.inj h]
    exact declaresIn_constant hsymbol
      (prefix_append (prefix_append (prefix_append (prefix_append
        (hstart "GraphQLSchemaType(" rfl) _) _) _) _)

theorem Declaration.declares_iff {t : String}
    (h : Declaration.generateModel conventions schema name given = .ok code) :
    code.Declares .declaration (Naming.pascalCase t)
      ↔ Provides .declaration (name, schema) (Naming.pascalCase t) := by
  have hname := Declaration.name_of_generateModel h
  unfold Provides
  cases hpointer : Reference.pointer? schema with
  | some pointer =>
    have hsymbol : code.name = referenceSymbol pointer := by
      rw [hname]
      unfold componentSymbol
      rw [hpointer]
    have hcomment : code.code = referenceComment pointer := by
      obtain ⟨m, hm, h⟩ := bind_eq_ok.mp h
      rw [← Except.ok.inj h]
      rw [Declaration.model, hpointer] at hm
      cases hm
      rfl
    dsimp only
    rw [← hsymbol, ← hcomment]
    exact ⟨fun d => ⟨d.name, by simpa [Dialect.suffix] using d.line⟩,
      fun h => ⟨h.1, by simpa [Dialect.suffix] using h.2⟩⟩
  | none =>
    have hsymbol : code.name = Naming.modelName name := by
      rw [hname]
      unfold componentSymbol
      rw [hpointer]
    dsimp only
    rw [← Naming.modelName_eq_pascalCase_iff, ← hsymbol]
    refine ⟨fun d => d.name, fun hn => ⟨hn, ?_⟩⟩
    rw [← hn, hsymbol]
    simpa [Dialect.suffix] using Declaration.declaresIn_modelName h hpointer

theorem Zod.declares_iff {t : String}
    (h : Zod.generateModel conventions schema name given = .ok code) :
    code.Declares .zod (Naming.pascalCase t) ↔ Provides .zod (name, schema) (Naming.pascalCase t) := by
  have hsymbol := Zod.name_of_generateModel h
  have hline : DeclaresIn code.code (Naming.modelName name ++ "Schema") := by
    unfold Zod.generateModel at h
    obtain ⟨body, -, h⟩ := bind_eq_ok.mp h
    obtain ⟨about, -, h⟩ := bind_eq_ok.mp h
    rw [← Except.ok.inj h]
    have hnone : '\n' ∉ (Naming.modelName name ++ "Schema").toList := by
      rw [String.toList_append, List.mem_append, not_or]
      exact ⟨Declaration.notMem_modelName name, by decide⟩
    have hstart : "export const " ++ Naming.modelName name ++ "Schema = "
        = declarationStart (Naming.modelName name ++ "Schema") := by
      have hsign : "Schema = " = "Schema" ++ " = " := by decide
      unfold declarationStart
      simp only [hsign, String.append_assoc]
    refine declaresIn_joinLines (List.mem_append_right _ List.mem_cons_self) hnone ?_
    rw [← hstart]
    exact prefix_append (prefix_append List.prefix_rfl body.code) ";"
  unfold Provides
  dsimp only
  rw [← Naming.modelName_eq_pascalCase_iff, ← hsymbol]
  refine ⟨fun d => d.name, fun hn => ⟨hn, ?_⟩⟩
  rw [← hn, hsymbol]
  exact hline

/-- **A generated model declares a symbol** if its component provides it. -/
theorem declares_iff {dialect : Dialect} (hdialect : dialect = .declaration ∨ dialect = .zod)
    {t : String} (h : dialect.generateModel conventions schema name given = .ok code) :
    code.Declares dialect (Naming.pascalCase t)
      ↔ Provides dialect (name, schema) (Naming.pascalCase t) := by
  rcases hdialect with rfl | rfl
  · exact Declaration.declares_iff h
  · exact Zod.declares_iff h

end ApiContract.Codegen
