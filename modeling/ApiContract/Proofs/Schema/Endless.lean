import ApiContract.Proofs.Schema.Canonical
import Mathlib.Data.Nat.Find
import Mathlib.Tactic.Ring

/-!
# Schemas without a model

A component that has a name is expanded once on every path down, so it cannot be entered for ever. A
component with the empty name is never counted as expanded: when it refers to itself, the second
step into it is refused, and so is every schema that leads to it. There are no other exported schemas
without a model.

* **`visits_of_succeeds`** — building a node visits all its references, in one context.
* **`not_succeeds_of_endless`** — a schema that leads to such a component has no model.
* **`succeeds_modelWithin_of_fuel`** — any other has one, within the fuel that `modelOf` gives.
* **`modelOf_succeeds_iff`** — the headline.
-/

namespace ApiContract.Schema

open Contract
open Reference (component?)

/-! ## Chains of references -/

/-- The components that references lead to, step by step. -/
inductive LeadsTo (document : Value) : Value → String → Prop where
  | mentions {v : Value} {name : String} (h : Mentions v name) : LeadsTo document v name
  | through {v tree : Value} {middle name : String} (h : Mentions v middle)
      (component : component? document middle = some tree) (rest : LeadsTo document tree name) :
      LeadsTo document v name

/-- The component without a name refers to itself. -/
def NamelessLoop (document : Value) : Prop :=
  ∃ tree, component? document "" = some tree ∧ Mentions tree ""

/-- A schema that leads into the component without a name, which refers to itself. -/
def Endless (document v : Value) : Prop := LeadsTo document v "" ∧ NamelessLoop document

/-- The component without a name is that many steps away, or fewer. -/
inductive Within (document : Value) : Nat → Value → Prop where
  | mentions {n : Nat} {v : Value} (h : Mentions v "") : Within document n v
  | through {n : Nat} {v tree : Value} {middle : String} (h : Mentions v middle)
      (component : component? document middle = some tree) (rest : Within document n tree) :
      Within document (n + 1) v

variable {document : Value} {names : List String}

theorem LeadsTo.within {v : Value} {name : String} (h : LeadsTo document v name)
    (hname : name = "") : ∃ n, Within document n v := by
  induction h with
  | mentions h =>
    subst hname
    exact ⟨0, .mentions h⟩
  | through h component _ ih =>
    obtain ⟨n, hn⟩ := ih hname
    exact ⟨n + 1, .through h component hn⟩

/-! ## What building visits -/

/-- Every reference of a node gives a field in the context. -/
def Visits (c : Context) (v : Value) : Prop :=
  ∀ name, Mentions v name → ∃ fuel property required parent,
    Succeeds (fieldWithin fuel c (componentReference name) property required parent)

/-- What an object mentions, one of its properties mentions. -/
theorem mentions_object_iff {members properties : Members} (h : ObjectNode members properties)
    {name : String} : Mentions (.map members) name ↔ ∃ m ∈ properties, Mentions m.2 name := by
  constructor
  · intro hm
    cases hm with
    | reference name => cases h.reference
    | item hitem _ =>
      cases h.items.symm.trans hitem
    | property hprops mem mentions =>
      cases h.properties?.symm.trans hprops
      exact ⟨_, mem, mentions⟩
  · rintro ⟨m, hm, mentions⟩
    exact .property h.properties? hm mentions

theorem mentions_list_iff {members : Members} {item : Value} (h : ListNode members item)
    {name : String} : Mentions (.map members) name ↔ Mentions item name := by
  constructor
  · intro hm
    cases hm with
    | reference name => cases h.reference
    | item hitem mentions =>
      cases h.items.symm.trans hitem
      exact mentions
    | property hprops _ _ =>
      rw [properties?_none h.properties] at hprops
      cases hprops
  · intro mentions
    exact .item h.items mentions

theorem not_mentions_leaf {members : Members} (h : LeafNode members) (name : String) :
    ¬ Mentions (.map members) name := by
  intro hm
  cases hm with
  | reference name => cases h.reference
  | item hitem _ => cases h.items.symm.trans hitem
  | property hprops _ _ =>
    rw [properties?_none h.properties] at hprops
    cases hprops

theorem mentions_reference_iff {name other : String} :
    Mentions (componentReference name) other ↔ name = other := by
  constructor
  · intro hm
    generalize hv : componentReference name = v at hm
    cases hm with
    | reference other =>
      have hpointer := congrArg Reference.pointer? hv
      exact Reference.pointer_inj (Option.some.inj hpointer)
    | item hitem _ =>
      subst hv
      cases hitem
    | property hprops _ _ =>
      subst hv
      cases hprops
  · rintro rfl
    exact .reference name

/-! ## Schemas that lead into the loop -/

section Visits

variable {fuel : Nat} {c : Context} {members : Members} {property parent : String} {required : Bool}

/-- Where a list gives a field, its items do. -/
theorem succeeds_items {item : Value} (node : ListNode members item) (hitem : item.isNull = false)
    (h : Succeeds (fieldWithin fuel c (.map members) property required parent)) :
    ∃ fuel', Succeeds (fieldWithin fuel' c item property true parent) := by
  obtain ⟨field, hok⟩ := h
  obtain ⟨fuel', hnode⟩ := exists_nodeField node.toPlain hok
  rw [nodeField_list node hitem] at hnode
  obtain ⟨item, hitem, -⟩ := map_eq_ok.mp hnode
  exact ⟨fuel', item, hitem⟩

/-- Where an object gives a field, it gives a model. -/
theorem succeeds_model {properties : Members} (node : ObjectNode members properties)
    {component : Option String}
    (h : Succeeds (nodeField fuel c (.map members) component property required parent)) :
    ∃ fuel' name, Succeeds (modelWithin fuel' (c.inside component) (.map members) name) := by
  cases fuel with
  | zero => exact absurd h (not_succeeds_error _)
  | succ fuel =>
    rw [nodeField_object node] at h
    obtain ⟨nested, hnested, -⟩ := succeeds_bind.mp h
    exact ⟨fuel, _, nested, hnested⟩

/-- Where an object gives a model, its properties give fields. -/
theorem succeeds_property {properties : Members} (node : ObjectNode members properties)
    {name : String} (h : Succeeds (modelWithin fuel c (.map members) name)) :
    ∀ m ∈ properties, ∃ fuel' required', Succeeds (fieldWithin fuel' c m.2 m.1.text required' name) := by
  cases fuel with
  | zero => exact absurd h (not_succeeds_error _)
  | succ fuel =>
    obtain ⟨keys, -, hall⟩ := (succeeds_modelWithin node name).mp h
    exact fun m hm => ⟨fuel, _, hall m hm⟩

/-- **Building a node visits all its references**, in the context in which the node is built: only a
reference to a component changes the context. -/
theorem visits_of_succeeds {v : Value} (hv : Exported names v)
    (h : Succeeds (fieldWithin fuel c v property required parent)) : Visits c v := by
  induction hv generalizing fuel property parent required with
  | reference hname =>
    intro name hm
    rw [mentions_reference_iff] at hm
    subst hm
    exact ⟨_, _, _, _, h⟩
  | leaf node =>
    intro name hm
    exact absurd hm (not_mentions_leaf node name)
  | list node exported ih =>
    intro name hm
    rw [mentions_list_iff node] at hm
    obtain ⟨fuel', h⟩ := succeeds_items node exported.isNull h
    exact ih h name hm
  | object node exported ih =>
    intro name hm
    obtain ⟨m, hmem, hm⟩ := (mentions_object_iff node).mp hm
    obtain ⟨field, hok⟩ := h
    obtain ⟨fuel', hnode⟩ := exists_nodeField node.toPlain hok
    obtain ⟨fuel', name', hmodel⟩ := succeeds_model node ⟨field, hnode⟩
    obtain ⟨fuel'', required', hfield⟩ := succeeds_property node hmodel m hmem
    exact ih m hmem hfield name hm

/-- Building a model visits all references of its object. -/
theorem visits_of_succeeds_model {properties : Members} (node : ObjectNode members properties)
    (exported : ∀ m ∈ properties, Exported names m.2) {name : String}
    (h : Succeeds (modelWithin fuel c (.map members) name)) : Visits c (.map members) := by
  intro other hm
  obtain ⟨m, hmem, hm⟩ := (mentions_object_iff node).mp hm
  obtain ⟨fuel', required', h⟩ := succeeds_property node h m hmem
  exact visits_of_succeeds (exported m hmem) h other hm

/-- Where a reference gives a field and its component is not being expanded, the component is
visited in the context inside it. -/
theorem visits_component (supplies : Supplies document names) (hdoc : c.document = document)
    {name : String} {tree : Value} (hname : name ∈ names)
    (hcomponent : component? document name = some tree) (hnew : name ∉ c.expanding)
    (h : Succeeds (fieldWithin fuel c (componentReference name) property required parent)) :
    componentPath ++ name ∉ c.followed ∧
      Visits ({ c with followed := (componentPath ++ name) :: c.followed }.inside (some name))
        tree := by
  subst hdoc
  obtain ⟨tree', hcomponent', hexported, hprops⟩ := supplies.component name hname
  cases hcomponent.symm.trans hcomponent'
  obtain ⟨members, properties, rfl, node, exported⟩ := hexported.objectNode hprops
  cases fuel with
  | zero => exact absurd h (not_succeeds_error _)
  | succ fuel =>
    rw [fieldWithin_reference (supplies.plain name hname) hcomponent rfl node.pointer?_eq_none] at h
    have hexpanding : c.expanding.contains name = false := by simpa using hnew
    rw [hexpanding, if_neg (by simp)] at h
    by_cases hfollowed : c.followed.contains (componentPath ++ name) = true
    · rw [if_pos hfollowed] at h
      exact absurd h (not_succeeds_error _)
    · rw [if_neg hfollowed] at h
      refine ⟨by simpa using hfollowed, ?_⟩
      obtain ⟨fuel', name', h⟩ := succeeds_model node h
      exact visits_of_succeeds_model node exported h

end Visits

/-- An exported schema mentions components of the document only. -/
theorem Exported.mem_of_mentions {v : Value} (hv : Exported names v) {name : String}
    (hm : Mentions v name) : name ∈ names := by
  induction hv with
  | reference hname =>
    rw [mentions_reference_iff] at hm
    subst hm
    exact hname
  | leaf node => exact absurd hm (not_mentions_leaf node name)
  | list node _ ih => exact ih ((mentions_list_iff node).mp hm)
  | object node _ ih =>
    obtain ⟨m, hmem, hm⟩ := (mentions_object_iff node).mp hm
    exact ih m hmem hm

/-- In the loop the second step into the component without a name is refused. -/
theorem not_visits_loop (supplies : Supplies document names) (loop : NamelessLoop document)
    {c : Context} {v : Value} (hdoc : c.document = document) (hv : Exported names v)
    (hnew : "" ∉ c.expanding) (hm : Mentions v "") : ¬ Visits c v := by
  intro hvisits
  obtain ⟨tree, hcomponent, hself⟩ := loop
  have hname := hv.mem_of_mentions hm
  obtain ⟨fuel, property, required, parent, h⟩ := hvisits "" hm
  obtain ⟨-, hinside⟩ := visits_component supplies hdoc hname hcomponent hnew h
  rw [Context.inside_empty] at hinside
  obtain ⟨fuel, property, required, parent, h⟩ := hinside "" hself
  obtain ⟨hfollowed, -⟩ := visits_component
    (c := { c with followed := (componentPath ++ "") :: c.followed }) supplies hdoc hname hcomponent
    hnew h
  exact hfollowed List.mem_cons_self

/-- Induction on the distance to the loop. Components that are being expanded are no nearer to it
than the node, so the nearest way from the node leads through none of them. -/
theorem not_visits_of_within (supplies : Supplies document names) (loop : NamelessLoop document)
    {n : Nat} {c : Context} {v : Value} (hdoc : c.document = document) (hv : Exported names v)
    (hempty : "" ∉ c.expanding) (hwithin : Within document n v)
    (hleast : ∀ k < n, ¬ Within document k v)
    (hfar : ∀ name ∈ c.expanding, ∀ tree, component? document name = some tree →
      ∀ k < n, ¬ Within document k tree) : ¬ Visits c v := by
  induction n generalizing c v with
  | zero =>
    cases hwithin with
    | mentions h => exact not_visits_loop supplies loop hdoc hv hempty h
  | succ n ih =>
    cases hwithin with
    | mentions h => exact absurd (.mentions h) (hleast 0 (Nat.succ_pos n))
    | @through _ _ tree middle h component rest =>
      intro hvisits
      have hmiddle : middle ≠ "" := by
        rintro rfl
        exact hleast 0 (Nat.succ_pos n) (.mentions h)
      have hnew : middle ∉ c.expanding := fun hmem =>
        hfar middle hmem tree component n (Nat.lt_succ_self n) rest
      have hname := hv.mem_of_mentions h
      obtain ⟨fuel, property, required, parent, hfield⟩ := hvisits middle h
      obtain ⟨-, hinside⟩ := visits_component supplies hdoc hname component hnew hfield
      rw [Context.inside_of_ne _ hmiddle] at hinside
      have hexported : Exported names tree := by
        obtain ⟨tree', hcomponent, hexported, -⟩ := supplies.component middle hname
        cases component.symm.trans hcomponent
        exact hexported
      have htree : ∀ k < n, ¬ Within document k tree := fun k hk hwithin =>
        hleast (k + 1) (Nat.succ_lt_succ hk) (.through h component hwithin)
      refine ih (by exact hdoc) hexported ?_ rest htree ?_ hinside
      · simp only [Context.expand, List.mem_cons, not_or]
        exact ⟨Ne.symm hmiddle, hempty⟩
      · intro name hmem other hother k hk
        rcases List.mem_cons.mp hmem with rfl | hmem
        · cases component.symm.trans hother
          exact htree k hk
        · exact hfar name hmem other hother k (Nat.lt_succ_of_lt hk)

/-- **An endless schema has no model.** -/
theorem not_visits_of_endless (supplies : Supplies document names) {v : Value}
    (hv : Exported names v) (h : Endless document v) : ¬ Visits { document } v := by
  classical
  obtain ⟨hleads, loop⟩ := h
  have hexists := hleads.within rfl
  exact not_visits_of_within supplies loop rfl hv List.not_mem_nil (Nat.find_spec hexists)
    (fun k hk => Nat.find_min hexists hk) (fun name hmem => absurd hmem List.not_mem_nil)

/-! ## Enough fuel -/

/-- The names that are not being expanded. -/
def untouched (names : List String) (c : Context) : List String :=
  names.filter fun name => !c.expanding.contains name

/-- The steps that components may still take: every one that is expanded allows one stay in the
component without a name. -/
def reserve (document : Value) (names : List String) (c : Context) : Nat :=
  (untouched names c).length * (6 * document.size)
    + if c.followed.isEmpty then 3 * document.size else 0

/-- What holds at every step into a schema that is not endless. Only the component without a name
can have been followed since the last expansion, and it is not mentioned again. -/
structure Ready (document : Value) (c : Context) (v : Value) : Prop where
  inDocument : c.document = document
  followed : ∀ pointer ∈ c.followed, pointer = componentPath ++ ""
  fresh : c.followed ≠ [] → ¬ Mentions v ""
  finite : ¬ Endless document v

/-- Parts of a node mention no more than the node. -/
theorem Ready.part {c : Context} {v w : Value} (h : Ready document c v)
    (hmentions : ∀ name, Mentions w name → Mentions v name) : Ready document c w where
  inDocument := h.inDocument
  followed := h.followed
  fresh := fun hne hm => h.fresh hne (hmentions "" hm)
  finite := by
    rintro ⟨hleads, loop⟩
    refine h.finite ⟨?_, loop⟩
    cases hleads with
    | mentions hm => exact .mentions (hmentions _ hm)
    | through hm component rest => exact .through (hmentions _ hm) component rest

theorem Ready.not_endless_component {c : Context} {v tree : Value} {name : String}
    (h : Ready document c v) (hm : Mentions v name)
    (hcomponent : component? document name = some tree) : ¬ Endless document tree := by
  rintro ⟨hleads, loop⟩
  exact h.finite ⟨.through hm hcomponent hleads, loop⟩

theorem length_untouched_expand {c : Context} {name : String} (hname : name ∈ names)
    (hnew : name ∉ c.expanding) :
    (untouched names (c.expand name)).length + 1 ≤ (untouched names c).length := by
  have hfilter : untouched names (c.expand name) = (untouched names c).filter (· != name) := by
    unfold untouched
    rw [List.filter_filter]
    refine List.filter_congr fun other _ => ?_
    simp only [Context.expand, List.contains_cons, Bool.not_or, bne]
  rw [hfilter]
  refine Nat.succ_le_of_lt (List.length_filter_lt_length_iff_exists.mpr ⟨name, ?_, by simp⟩)
  exact List.mem_filter.mpr ⟨hname, by simpa using hnew⟩

/-- **A step into a component.** What it is built in is ready, and leaves room for its tree. -/
theorem Ready.inside {c : Context} {name : String} {tree : Value} {v : Value}
    (h : Ready document c v) (hm : Mentions v name) (hname : name ∈ names)
    (hcomponent : component? document name = some tree) (hnew : name ∉ c.expanding)
    (hfollowed : componentPath ++ name ∉ c.followed) :
    let c' := { c with followed := (componentPath ++ name) :: c.followed }.inside (some name)
    Ready document c' tree
      ∧ reserve document names c' + 3 * document.size ≤ reserve document names c := by
  intro c'
  have hfinite := h.not_endless_component hm hcomponent
  by_cases hempty : name = ""
  · subst hempty
    -- before this step nothing has been followed, or the node would mention the name again
    have hnil : c.followed = [] := by
      by_contra hne
      exact h.fresh hne hm
    have hc' : c' = { c with followed := [componentPath ++ ""] } := by
      show Context.inside _ (some "") = _
      rw [Context.inside_empty, hnil]
    rw [hc']
    refine ⟨⟨h.inDocument, by simp, ?_, hfinite⟩, ?_⟩
    · intro _ hself
      exact h.finite ⟨.mentions hm, tree, hcomponent, hself⟩
    · unfold reserve untouched
      rw [hnil]
      simp
  · have hc' : c' = c.expand name := by
      show Context.inside _ (some name) = _
      rw [Context.inside_of_ne _ hempty]
      rfl
    rw [hc']
    refine ⟨⟨h.inDocument, by simp [Context.expand], by simp [Context.expand], hfinite⟩, ?_⟩
    have hlength := length_untouched_expand hname hnew
    have hmul := Nat.mul_le_mul_right (6 * document.size) hlength
    rw [Nat.add_mul, Nat.one_mul] at hmul
    have hnil : (c.expand name).followed.isEmpty = true := rfl
    unfold reserve
    rw [hnil, if_pos rfl]
    omega

section Fuel

variable {fuel : Nat} {c : Context} {members properties : Members} {property parent : String}
  {required : Bool}

/-- An object gives a field if its properties do, two steps further down. -/
theorem succeeds_nodeField_of_properties (node : ObjectNode members properties)
    {component : Option String}
    (h : ∀ m ∈ properties, ∀ property required parent,
      Succeeds (fieldWithin fuel (c.inside component) m.2 property required parent)) :
    Succeeds (nodeField (fuel + 2) c (.map members) component property required parent) := by
  obtain ⟨keys, hkeys⟩ := requiredKeys_ok node.required
  rw [nodeField_object node]
  obtain ⟨model, hmodel⟩ := (succeeds_modelWithin (c := c.inside component) node
    (nestedName (component.filter (!·.isEmpty)) parent property)).mpr
      ⟨keys, hkeys, fun m hm => h m hm _ _ _⟩
  exact succeeds_bind.mpr ⟨model, hmodel, succeeds_singleField _ _ node.description⟩

/-- **Enough fuel.** Induction on the fuel: a step down a node uses up its size, a step into a
component the reserve. -/
theorem succeeds_fieldWithin_of_fuel (supplies : Supplies document names) {v : Value}
    (hv : Exported names v) (hready : Ready document c v)
    (hfuel : 3 * v.size + 2 + reserve document names c ≤ fuel) :
    Succeeds (fieldWithin fuel c v property required parent) := by
  induction fuel using Nat.strongRecOn generalizing c v property required parent with
  | ind fuel ih =>
    obtain ⟨fuel, rfl⟩ : ∃ k, fuel = k + 2 := ⟨fuel - 2, by omega⟩
    cases hv with
    | @reference name hname =>
      obtain ⟨tree, hcomponent, hexported, hprops⟩ := supplies.component name hname
      obtain ⟨members, properties, rfl, node, exported⟩ := hexported.objectNode hprops
      have hdoc := hready.inDocument
      rw [fieldWithin_reference (supplies.plain name hname) (hdoc ▸ hcomponent) rfl
        node.pointer?_eq_none]
      by_cases hexpanding : name ∈ c.expanding
      · rw [if_pos (by simpa using hexpanding)]
        exact succeeds_ok _
      · rw [if_neg (by simpa using hexpanding)]
        have hm : Mentions (componentReference name) name := .reference name
        have hfollowed : componentPath ++ name ∉ c.followed := by
          intro hmem
          have hempty : name = "" := Reference.pointer_inj (hready.followed _ hmem)
          subst hempty
          exact hready.fresh (List.ne_nil_of_mem hmem) hm
        rw [if_neg (by simpa using hfollowed)]
        obtain ⟨hinside, hroom⟩ := hready.inside hm hname hcomponent hexpanding hfollowed
        have hsize := Reference.size_component_lt hcomponent
        have hpos := Value.size_pos (componentReference name)
        obtain ⟨fuel, rfl⟩ : ∃ k, fuel = k + 1 := ⟨fuel - 1, by omega⟩
        refine succeeds_nodeField_of_properties node fun m hmem property required parent => ?_
        have hlt := node.size_property_lt hmem
        refine ih fuel (by omega) (exported m hmem) (hinside.part fun other hother => ?_) (by omega)
        exact (mentions_object_iff node).mpr ⟨m, hmem, hother⟩
    | leaf node =>
      rw [fieldWithin_plain node.toPlain]
      exact succeeds_nodeField_leaf node
    | list node exported =>
      have hlt := node.size_item_lt
      rw [fieldWithin_plain node.toPlain, nodeField_list node exported.isNull, succeeds_map]
      refine ih fuel (by omega) exported (hready.part fun other hother => ?_) (by omega)
      exact (mentions_list_iff node).mpr hother
    | @object members properties node exported =>
      rw [fieldWithin_plain node.toPlain]
      have hpos := Value.size_pos (.map members)
      obtain ⟨fuel, rfl⟩ : ∃ k, fuel = k + 1 := ⟨fuel - 1, by omega⟩
      refine succeeds_nodeField_of_properties node fun m hmem property required parent => ?_
      have hlt := node.size_property_lt hmem
      rw [Context.inside_none]
      refine ih fuel (by omega) (exported m hmem) (hready.part fun other hother => ?_) (by omega)
      exact (mentions_object_iff node).mpr ⟨m, hmem, hother⟩

end Fuel

/-! ## Models -/

/-- The bound on the depth exceeds what any path needs. -/
theorem reserve_le_depthBound (supplies : Supplies document names) (v : Value) :
    3 * v.size + reserve document names { document } ≤ depthBound v document := by
  have hlength : (untouched names { document }).length ≤ document.size :=
    (List.length_filter_le _ _).trans supplies.length
  have hmul := Nat.mul_le_mul_right (6 * document.size) hlength
  have hcube : depthBound v document = 6 * (document.size * document.size) + 12 * document.size
      + 12 * v.size + (document.size ^ 3 + 3 * document.size ^ 2 * v.size
        + 3 * document.size * v.size ^ 2 + 12 * document.size * v.size + v.size ^ 3
        + 6 * v.size ^ 2 + 8) := by
    show (v.size + document.size + 2) ^ 3 = _
    ring
  have hsquare : document.size * (6 * document.size) = 6 * (document.size * document.size) := by ring
  unfold reserve
  simp only [List.isEmpty_nil, if_true]
  omega

/-- **The models of exported objects.** Exactly the endless schemas have none. -/
theorem modelOf_succeeds_iff (supplies : Supplies document names)
    (hdocument : document.isTruthy = true) {members properties : Members}
    (node : ObjectNode members properties) (exported : ∀ m ∈ properties, Exported names m.2)
    (name : String) :
    Succeeds (modelOf (.map members) name document) ↔ ¬ Endless document (.map members) := by
  have hmodel : modelOf (.map members) name document
      = modelWithin (depthBound (.map members) document) { document } (.map members)
          (if (Naming.pascalCase name).isEmpty then name else Naming.pascalCase name) := by
    have hderef : dereference { document := if document.isTruthy then document else .map [] }
        (.map members) = .ok (.map members, none) := by
      unfold dereference
      rw [node.pointer?_eq_none]
      rfl
    unfold modelOf
    dsimp only
    rw [hderef]
    dsimp only [bind, Except.bind]
    rw [if_pos hdocument]
  rw [hmodel]
  constructor
  · intro h hendless
    exact not_visits_of_endless supplies (.object node exported) hendless
      (visits_of_succeeds_model node exported h)
  · intro hfinite
    have hready : Ready document { document } (.map members) :=
      ⟨rfl, by simp, fun hne => absurd rfl hne, hfinite⟩
    have hbound := reserve_le_depthBound supplies (.map members)
    have hpos := Value.size_pos (.map members)
    obtain ⟨keys, hkeys⟩ := requiredKeys_ok node.required
    obtain ⟨fuel, hfuel⟩ : ∃ k, depthBound (.map members) document = k + 1 :=
      ⟨depthBound (.map members) document - 1, by omega⟩
    rw [hfuel, succeeds_modelWithin node]
    refine ⟨keys, hkeys, fun m hmem => ?_⟩
    have hlt := node.size_property_lt hmem
    refine succeeds_fieldWithin_of_fuel supplies (exported m hmem)
      (hready.part fun other hother => ?_) (by omega)
    exact (mentions_object_iff node).mpr ⟨m, hmem, hother⟩

end ApiContract.Schema
