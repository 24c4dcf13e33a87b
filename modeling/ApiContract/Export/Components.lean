import ApiContract.Contract.Model
import ApiContract.Named

/-!
# Named references of an exported document

A field may name a model instead of holding it. Every such name becomes a component if a model of
that name is known, and the components of models that it holds follow (`close`). A reference whose
name is not known is emptied (`settle`), so that every reference left leads to a component.
-/

namespace ApiContract.Export

open Contract

/-! ## The known models -/

mutual

/-- A model and the models inside it, outer ones first. -/
def modelsOf : SchemaModel → List (String × SchemaModel)
  | ⟨name, description, fields⟩ => (name, ⟨name, description, fields⟩) :: modelsOfFields fields

def modelsOfFields : List (String × FieldSpec) → List (String × SchemaModel)
  | [] => []
  | (_, field) :: rest => modelsOfField field ++ modelsOfFields rest

def modelsOfField : FieldSpec → List (String × SchemaModel)
  | ⟨_, _, some model, _, _, _, _⟩ => modelsOf model
  | ⟨_, _, none, _, _, _, _⟩ => []

end

/-! ## References -/

/-- The component that a reference leads to. -/
def componentName? : Value → Option String
  | .str target =>
    let cs := target.toList
    let path := componentPath.toList
    if path.isPrefixOf cs then some (String.ofList (cs.drop path.length)) else none
  | _ => none

mutual

/-- What the references of a tree lead to, in document order. A mapping with a reference is nothing
but that reference. -/
def targets : Value → List Value
  | .map members =>
    match Members.get? members "$ref" with
    | some target => [target]
    | none => targetsOfMembers members
  | .list items => targetsOfItems items
  | .scalar _ | .set _ => []

def targetsOfMembers : List (Scalar × Value) → List Value
  | [] => []
  | (_, v) :: rest => targets v ++ targetsOfMembers rest

def targetsOfItems : List Value → List Value
  | [] => []
  | v :: rest => targets v ++ targetsOfItems rest

end

/-- Whether a reference leads to one of the names. -/
def leadsTo (names : List String) (target : Value) : Bool :=
  (componentName? target).any names.contains

mutual

/-- A tree whose references to anything but the names are emptied. -/
def settle (names : List String) : Value → Value
  | .map members =>
    match Members.get? members "$ref" with
    | some target => if leadsTo names target then .map members else .map []
    | none => .map (settleMembers names members)
  | .list items => .list (settleItems names items)
  | v => v

def settleMembers (names : List String) : List (Scalar × Value) → List (Scalar × Value)
  | [] => []
  | (k, v) :: rest => (k, settle names v) :: settleMembers names rest

def settleItems (names : List String) : List Value → List Value
  | [] => []
  | v :: rest => settle names v :: settleItems names rest

end

/-! ## The closure -/

/-- Takes the models that some names lead to out of those that remain. -/
def take (remaining : Named SchemaModel) : List String → Named SchemaModel × Named SchemaModel
  | [] => ([], remaining)
  | name :: rest =>
    match Named.get? remaining name with
    | some model =>
      let (taken, left) := take (remaining.filter (·.1 != name)) rest
      ((name, model) :: taken, left)
    | none => take remaining rest

theorem length_filter_lt_of_get? {entries : Named SchemaModel} {name : String} {model : SchemaModel}
    (h : Named.get? entries name = some model) :
    (entries.filter (·.1 != name)).length < entries.length := by
  obtain ⟨e, he, hn⟩ := Named.exists_mem_of_get? h
  exact List.length_filter_lt_length_iff_exists.2 ⟨e, he, by simp [hn]⟩

/-- Every model is taken once at most. -/
theorem length_take_add_length_le (remaining : Named SchemaModel) (names : List String) :
    (take remaining names).1.length + (take remaining names).2.length ≤ remaining.length := by
  fun_induction take remaining names with
  | case1 remaining => simp
  | case2 remaining name rest model h taken left heq ih =>
    have := length_filter_lt_of_get? h
    simp only [heq] at ih
    simp only [List.length_cons]
    omega
  | case3 remaining name rest h ih => exact ih

/-- What looking through trees gives. -/
structure Closure where
  /-- The components that the trees need, in the order in which they are met. -/
  added : Named Value := []
  /-- What all references lead to, in the same order. -/
  visited : List Value := []

/-- Looks through the pending trees, and through the components that they need from those that
remain. The tree that was added last comes first. -/
def close (remaining : Named SchemaModel) (pending : List Value) : Closure :=
  match pending with
  | [] => {}
  | tree :: rest =>
    let names := (targets tree).filterMap componentName?
    match _h : take remaining names with
    | (taken, left) =>
      let added := taken.map fun (name, model) => (name, model.toJsonSchema)
      let more := close left ((added.map (·.2)).reverse ++ rest)
      { added := added ++ more.added, visited := targets tree ++ more.visited }
termination_by remaining.length + pending.length
decreasing_by
  have := length_take_add_length_le remaining names
  simp only [_h] at this
  simp only [List.length_append, List.length_reverse, List.length_map, List.length_cons]
  omega

end ApiContract.Export
