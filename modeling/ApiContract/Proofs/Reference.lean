import ApiContract.Contract.Model
import ApiContract.Proofs.Text.Marks
import ApiContract.Proofs.Value.Lookup
import ApiContract.Reference

/-!
# References to components

A component stands under its name among the schemas of a document, and a name without the two
characters that pointers escape stands in a pointer as it is:

* **`segments?_component`** / **`name_component`** — such a pointer taken apart;
* **`resolve_component`** — a reference to a component leads to the tree of the component.
-/

namespace ApiContract.Reference

open Contract (componentPath componentReference)

/-! ## Pointers -/

/-- A name that stands in a pointer as it is. -/
def IsPlain (name : String) : Prop := '/' ∉ name.toList ∧ '~' ∉ name.toList

instance (name : String) : Decidable (IsPlain name) := inferInstanceAs (Decidable (_ ∧ _))

theorem IsPlain.append {a b : String} (ha : IsPlain a) (hb : IsPlain b) : IsPlain (a ++ b) := by
  constructor
  · rw [String.toList_append, List.mem_append, not_or]
    exact ⟨ha.1, hb.1⟩
  · rw [String.toList_append, List.mem_append, not_or]
    exact ⟨ha.2, hb.2⟩

theorem replacePair_eq_self {a b c : Char} {cs : List Char} (h : a ∉ cs) :
    Text.replacePair a b c cs = cs :=
  Text.replacePair_of_not_infix fun hpair => h (hpair.subset List.mem_cons_self)

theorem unescape_eq_self {cs : List Char} (h : '~' ∉ cs) : unescape cs = String.ofList cs := by
  unfold unescape
  rw [replacePair_eq_self h, replacePair_eq_self h]

/-- The path of the components cuts a pointer into three segments. -/
theorem splitOn_component {name : String} (h : '/' ∉ name.toList) :
    ("components/schemas/".toList ++ name.toList).splitOn '/'
      = ["components".toList, "schemas".toList, name.toList] := by
  have hpath : "components/schemas/".toList ++ name.toList
      = "components".toList ++ '/' :: ("schemas".toList ++ '/' :: name.toList) := rfl
  rw [hpath, List.splitOn_append_cons_self_of_not_mem (by decide),
    List.splitOn_append_cons_self_of_not_mem (by decide), List.splitOn_eq_singleton h]

theorem toList_componentPath_append (name : String) :
    (componentPath ++ name).toList = '#' :: '/' :: ("components/schemas/".toList ++ name.toList) := by
  rw [String.toList_append]
  rfl

theorem segments?_of_notMem {name : String} (h : '/' ∉ name.toList) :
    segments? (componentPath ++ name)
      = some ["components", "schemas", unescape name.toList] := by
  unfold segments?
  rw [toList_componentPath_append]
  show some (List.map unescape (List.splitOn '/' _)) = _
  rw [splitOn_component h, List.map_cons, List.map_cons, List.map_singleton,
    unescape_eq_self (by decide), unescape_eq_self (by decide), String.ofList_toList,
    String.ofList_toList]

theorem segments?_component {name : String} (h : IsPlain name) :
    segments? (componentPath ++ name) = some ["components", "schemas", name] := by
  rw [segments?_of_notMem h.1, unescape_eq_self h.2, String.ofList_toList]

/-- A pointer to a component names the component. -/
theorem name_component {name : String} (h : IsPlain name) :
    Reference.name (componentPath ++ name) = name := by
  unfold Reference.name
  have hhash : '#' :: '/' :: ("components/schemas/".toList ++ name.toList)
      = ['#'] ++ '/' :: ("components/schemas/".toList ++ name.toList) := rfl
  rw [toList_componentPath_append, hhash,
    List.splitOn_append_cons_self_of_not_mem (by decide), splitOn_component h.1]
  show unescape name.toList = name
  rw [unescape_eq_self h.2, String.ofList_toList]

/-- A local pointer is named after its last segment. -/
theorem name_of_segments? {pointer last : String} {segments : List String}
    (h : segments? pointer = some segments) (hlast : segments.getLast? = some last) :
    Reference.name pointer = last := by
  unfold segments? at h
  split at h
  · rename_i rest hpointer
    cases h
    have hhash : '#' :: '/' :: rest = ['#'] ++ '/' :: rest := rfl
    rw [List.getLast?_map] at hlast
    obtain ⟨segment, hsegment, rfl⟩ := Option.map_eq_some_iff.mp hlast
    unfold Reference.name
    rw [hpointer, hhash, List.splitOn_append_cons_self_of_not_mem (by decide),
      List.getLast?_cons, hsegment]
    rfl
  · cases h

theorem pointer_inj {a b : String} (h : componentPath ++ a = componentPath ++ b) : a = b :=
  (String.append_right_inj componentPath).mp h

/-! ## Resolution -/

@[simp] theorem pointer?_component (name : String) :
    pointer? (componentReference name) = some (componentPath ++ name) := rfl

theorem isReference_eq_false {node : Value} (h : pointer? node = none) : isReference node = false := by
  unfold isReference
  rw [h]
  rfl

/-- The tree of a component of a document. -/
def component? (document : Value) (name : String) : Option Value :=
  ((document.get? "components").bind (·.get? "schemas")).bind (·.get? name)

theorem step_of_get? {node v : Value} {name : String} (h : node.get? name = some v) :
    step node name = some v := by
  cases node with
  | map members => exact h
  | scalar leaf => cases h
  | list items => cases h
  | set items => cases h

/-- A pointer whose name has no slash leads to the component of the unescaped name, if any. -/
theorem resolvePointer_of_notMem {document components : Value} {schemas : Members} {name : String}
    (h : '/' ∉ name.toList) (hcomponents : document.get? "components" = some components)
    (hschemas : components.get? "schemas" = some (.map schemas)) :
    resolvePointer document (componentPath ++ name)
      = (component? document (unescape name.toList)).filter (!·.isNull) := by
  have hcomponent : component? document (unescape name.toList)
      = Members.get? schemas (unescape name.toList) := by
    unfold component?
    rw [hcomponents, Option.bind_some, hschemas]
    rfl
  have hstep : step (.map schemas) (unescape name.toList)
      = Members.get? schemas (unescape name.toList) := rfl
  unfold resolvePointer
  rw [segments?_of_notMem h, hcomponent]
  simp only [Option.bind_eq_bind, Option.bind_some, List.foldlM_cons, List.foldlM_nil,
    step_of_get? hcomponents, step_of_get? hschemas, hstep, Option.pure_def]
  cases Members.get? schemas (unescape name.toList) with
  | none => rfl
  | some tree => cases hnull : tree.isNull <;> simp [Option.filter_some, hnull]

theorem resolvePointer_component {document tree : Value} {name : String} (hname : IsPlain name)
    (hcomponent : component? document name = some tree) (htree : tree.isMap = true) :
    resolvePointer document (componentPath ++ name) = some tree := by
  unfold component? at hcomponent
  obtain ⟨schemas, hschemas, hget⟩ := Option.bind_eq_some_iff.mp hcomponent
  obtain ⟨components, hcomponents, hschemas⟩ := Option.bind_eq_some_iff.mp hschemas
  have hnull : tree.isNull = false := by
    cases tree with
    | map members => rfl
    | scalar leaf => cases htree
    | list items => cases htree
    | set items => cases htree
  unfold resolvePointer
  rw [segments?_component hname]
  simp only [Option.bind_eq_bind, Option.bind_some, List.foldlM_cons, List.foldlM_nil,
    step_of_get? hcomponents, step_of_get? hschemas, step_of_get? hget, Option.pure_def, hnull,
    Bool.false_eq_true, if_false]

/-- A document without parts has nothing for a pointer to lead to. -/
theorem resolvePointer_nil (pointer : String) : resolvePointer (.map []) pointer = none := by
  unfold resolvePointer segments?
  split
  · rename_i rest _
    -- a pointer has one segment at least
    cases hsplit : rest.splitOn '/' with
    | nil => exact absurd hsplit (List.splitOn_ne_nil _ _)
    | cons segment more => rfl
  · rfl

/-- A chain ends at a node that is no reference. -/
theorem follow_end {document node : Value} (fuel : Nat) (seen : List String)
    (h : pointer? node = none) : follow document (fuel + 1) seen node = .ok node := by
  unfold follow
  rw [h]

theorem resolve_of_pointer?_eq_none {document node : Value} (h : pointer? node = none) :
    resolve document node = .ok node :=
  follow_end _ [] h

/-- **A reference to a component leads to its tree.** The tree is a mapping and no reference. -/
theorem resolve_component {document tree : Value} {name : String} (hname : IsPlain name)
    (hcomponent : component? document name = some tree) (htree : tree.isMap = true)
    (hend : pointer? tree = none) : resolve document (componentReference name) = .ok tree := by
  unfold resolve follow
  rw [pointer?_component]
  dsimp only
  rw [resolvePointer_component hname hcomponent htree]
  exact follow_end _ _ hend

/-- A tree that a reference leads to is smaller than the document. -/
theorem size_component_lt {document tree : Value} {name : String}
    (h : component? document name = some tree) : tree.size < document.size := by
  unfold component? at h
  obtain ⟨schemas, hschemas, hget⟩ := Option.bind_eq_some_iff.mp h
  obtain ⟨components, hcomponents, hschemas⟩ := Option.bind_eq_some_iff.mp hschemas
  have h₁ := Value.size_lt_of_get? hcomponents
  have h₂ := Value.size_lt_of_get? hschemas
  have h₃ := Value.size_lt_of_get? hget
  omega

end ApiContract.Reference
