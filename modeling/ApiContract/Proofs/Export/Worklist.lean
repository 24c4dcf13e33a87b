import ApiContract.Proofs.Export.Document
import Mathlib.Logic.Function.Iterate

/-!
# The worklist ends, and adds every model that a reference leads to

The named references are gone through tree by tree. A reference to a component that is there is
kept, one to a known model makes a component of it, whose tree is gone through in turn, and any other
is dropped. `Closure` is what this comes to.

* **`names_of_take`** / **`mem_names_take`** — a model is taken if its name is met;
* **`mem_names_added`** / **`mem_visited`** — so the closure adds every known model that is met;
* **`settle_components`** — a reference is kept exactly if its model is known;
* **`foldl_meet`** / **`iterate_step`** — the worklist, tree by tree, does what `close` does.
-/

namespace ApiContract.Export

open Contract

/-! ## The worklist -/

/-- The components so far, the trees to be gone through, the last one added first, and the
references that lead nowhere. -/
structure Worklist where
  schemas : Named Value
  pending : List Value
  dropped : List Value := []

namespace Worklist

/-- One reference. -/
def meet (catalog : Named SchemaModel) (w : Worklist) (target : Value) : Worklist :=
  match componentName? target with
  | none => { w with dropped := w.dropped ++ [target] }
  | some name =>
    if w.schemas.contains name then w
    else
      match catalog.get? name with
      | some model => { w with
          schemas := w.schemas ++ [(name, model.toJsonSchema)]
          pending := model.toJsonSchema :: w.pending }
      | none => { w with dropped := w.dropped ++ [target] }

/-- One tree, reference by reference. -/
def step (catalog : Named SchemaModel) (w : Worklist) : Worklist :=
  match w.pending with
  | [] => w
  | tree :: rest => (targets tree).foldl (meet catalog) { w with pending := rest }

/-- The components of the specs themselves, then their paths. -/
def start (placed : List OperationSpec) : Worklist :=
  let own := Named.ofList (placed.flatMap ownComponents)
  { schemas := own, pending := (own.map (·.2)).reverse ++ [.map (pathItems placed)] }

end Worklist

/-! ## What is taken -/

/-- What is not taken is left. -/
theorem names_of_take (remaining : Named SchemaModel) (names : List String) :
    ∀ e ∈ remaining, e.1 ∈ (take remaining names).1.names ∨ e ∈ (take remaining names).2 := by
  fun_induction take remaining names with
  | case1 remaining => exact fun e he => .inr he
  | case2 remaining name rest model h taken left heq ih =>
    rw [heq] at ih
    intro e he
    by_cases hname : e.1 = name
    · exact .inl (by rw [hname]; exact List.mem_cons_self)
    · rcases ih e (List.mem_filter.mpr ⟨he, by simpa using hname⟩) with he | he
      · exact .inl (List.mem_cons_of_mem _ he)
      · exact .inr he
  | case3 remaining name rest h ih => exact ih

/-- What is there under one of the names is taken. -/
theorem mem_names_take {remaining : Named SchemaModel} {names : List String} {name : String}
    (hname : name ∈ names) (hremains : name ∈ remaining.names) :
    name ∈ (take remaining names).1.names := by
  fun_induction take remaining names with
  | case1 remaining => cases hname
  | case2 remaining first rest model h taken left heq ih =>
    rw [heq] at ih
    by_cases hfirst : name = first
    · rw [hfirst]
      exact List.mem_cons_self
    · have hrest : name ∈ rest := (List.mem_cons.mp hname).resolve_left hfirst
      obtain ⟨e, he, rfl⟩ := List.mem_map.mp hremains
      refine List.mem_cons_of_mem _ (ih hrest (List.mem_map_of_mem (List.mem_filter.mpr ⟨he, ?_⟩)))
      simpa using hfirst
  | case3 remaining first rest h ih =>
    rcases List.mem_cons.mp hname with rfl | hrest
    · rw [← Named.get?_isSome_iff, h] at hremains
      cases hremains
    · exact ih hrest hremains

/-! ## What the closure adds -/

/-- Every model that remains is added when a reference to it is met. -/
theorem mem_names_added {remaining : Named SchemaModel} {pending : List Value} {target : Value}
    (htarget : target ∈ (close remaining pending).visited) {name : String}
    (hname : componentName? target = some name) (hremains : name ∈ remaining.names) :
    name ∈ (close remaining pending).added.names := by
  fun_induction close remaining pending with
  | case1 remaining => cases htarget
  | case2 remaining tree rest names taken left heq added more ih =>
    have hadded : ∀ n ∈ taken.names, n ∈ Named.names (added ++ more.added) := by
      intro n hn
      obtain ⟨e, he, rfl⟩ := List.mem_map.mp hn
      exact List.mem_map_of_mem (List.mem_append_left _ (List.mem_map_of_mem he))
    have htaken : (take remaining names).1 = taken := by rw [heq]
    have hleft : (take remaining names).2 = left := by rw [heq]
    rcases List.mem_append.mp htarget with htarget | htarget
    · refine hadded name (htaken ▸ mem_names_take ?_ hremains)
      exact List.mem_filterMap.mpr ⟨target, htarget, hname⟩
    · -- met later on: by then the model is taken already, or it remains
      obtain ⟨e, he, rfl⟩ := List.mem_map.mp hremains
      rcases names_of_take remaining names e he with he | he
      · exact hadded e.1 (htaken ▸ he)
      · obtain ⟨e', he', heq'⟩ := List.mem_map.mp (ih htarget (List.mem_map_of_mem (hleft ▸ he)))
        exact heq' ▸ List.mem_map_of_mem (List.mem_append_right _ he')

/-- The references of all trees are met: of those given and of those added. -/
theorem mem_visited {remaining : Named SchemaModel} {pending : List Value} {tree : Value}
    (h : tree ∈ pending ∨ ∃ e ∈ (close remaining pending).added, e.2 = tree) :
    ∀ target ∈ targets tree, target ∈ (close remaining pending).visited := by
  fun_induction close remaining pending with
  | case1 remaining =>
    rcases h with h | ⟨e, he, -⟩
    · cases h
    · cases he
  | case2 remaining first rest names taken left heq added more ih =>
    intro target htarget
    have hlater : (tree ∈ (added.map (·.2)).reverse ++ rest ∨ ∃ e ∈ more.added, e.2 = tree) →
        target ∈ targets first ++ more.visited :=
      fun h => List.mem_append_right _ (ih h target htarget)
    rcases h with h | ⟨e, he, rfl⟩
    · rcases List.mem_cons.mp h with rfl | h
      · exact List.mem_append_left _ htarget
      · exact hlater (.inl (List.mem_append_right _ h))
    · rcases List.mem_append.mp he with he | he
      · refine hlater (.inl (List.mem_append_left _ ?_))
        exact List.mem_reverse.mpr (List.mem_map_of_mem he)
      · exact hlater (.inr ⟨e, he, rfl⟩)

/-! ## Known names -/

mutual

/-- Which names count is seen at the references of a tree. -/
theorem settle_congr {names names' : List String} : (v : Value) →
    (∀ target ∈ targets v, leadsTo names target = leadsTo names' target) →
    settle names v = settle names' v
  | .scalar leaf, _ => by rw [settle_scalar, settle_scalar]
  | .set items, _ => rfl
  | .list items, h => by
    rw [targets] at h
    rw [settle, settle, settleItems_congr items h]
  | .map members, h => by
    rw [targets] at h
    rw [settle, settle]
    cases href : Members.get? members "$ref" with
    | some target =>
      rw [href] at h
      dsimp only
      rw [h target (List.mem_singleton.mpr rfl)]
    | none =>
      rw [href] at h
      dsimp only
      rw [settleMembers_congr members h]

theorem settleMembers_congr {names names' : List String} : (members : List (Scalar × Value)) →
    (∀ target ∈ targetsOfMembers members, leadsTo names target = leadsTo names' target) →
    settleMembers names members = settleMembers names' members
  | [], _ => rfl
  | (k, v) :: rest, h => by
    rw [targetsOfMembers] at h
    rw [settleMembers, settleMembers,
      settle_congr v fun t ht => h t (List.mem_append_left _ ht),
      settleMembers_congr rest fun t ht => h t (List.mem_append_right _ ht)]

theorem settleItems_congr {names names' : List String} : (items : List Value) →
    (∀ target ∈ targetsOfItems items, leadsTo names target = leadsTo names' target) →
    settleItems names items = settleItems names' items
  | [], _ => rfl
  | v :: rest, h => by
    rw [targetsOfItems] at h
    rw [settleItems, settleItems,
      settle_congr v fun t ht => h t (List.mem_append_left _ ht),
      settleItems_congr rest fun t ht => h t (List.mem_append_right _ ht)]

end

theorem leadsTo_iff {names : List String} {target : Value} :
    leadsTo names target = true ↔ ∃ name ∈ names, componentName? target = some name := by
  unfold leadsTo
  cases componentName? target with
  | none => simp
  | some name => simp

/-- What a reference may lead to: a component of a spec itself, or a known model. -/
def knownNames (placed : List OperationSpec) : List String :=
  (Named.ofList (placed.flatMap ownComponents)).names ++ (knownModels placed).names

variable {placed : List OperationSpec}

/-- The models that are no component yet. -/
def Worklist.remaining (catalog : Named SchemaModel) (w : Worklist) : Named SchemaModel :=
  catalog.filter fun (name, _) => !w.schemas.contains name

/-- The closure of the exported document. -/
def closureOf (placed : List OperationSpec) : Closure :=
  close ((Worklist.start placed).remaining (knownModels placed)) (Worklist.start placed).pending

theorem components_eq (placed : List OperationSpec) :
    components placed = (Worklist.start placed).schemas ++ (closureOf placed).added := rfl

/-- **A reference is kept exactly if its model is known.** -/
theorem leadsTo_components {target : Value} (htarget : target ∈ (closureOf placed).visited) :
    leadsTo (componentNames placed) target = leadsTo (knownNames placed) target := by
  rw [Bool.eq_iff_iff, leadsTo_iff, leadsTo_iff]
  refine exists_congr fun name => and_congr_left fun hname => ?_
  constructor
  · intro h
    obtain ⟨e, he, rfl⟩ := List.mem_map.mp h
    rcases List.mem_append.mp he with he | he
    · exact List.mem_append_left _ (List.mem_map_of_mem he)
    · obtain ⟨m, hm, -⟩ := mem_added_of_close he
      exact List.mem_append_right _ (List.mem_map_of_mem (List.mem_filter.mp hm).1)
  · intro h
    rw [componentNames_eq]
    by_cases hown : name ∈ (Named.ofList (placed.flatMap ownComponents)).names
    · exact List.mem_append_left _ hown
    · refine List.mem_append_right _ (mem_names_added htarget hname ?_)
      obtain ⟨e, he, rfl⟩ := List.mem_map.mp ((List.mem_append.mp h).resolve_left hown)
      refine List.mem_map_of_mem (List.mem_filter.mpr ⟨he, ?_⟩)
      rw [← Named.contains_iff, Bool.not_eq_true] at hown
      show (!Named.contains _ e.1) = true
      exact congrArg (!·) hown

/-- The trees of the exported document before they are settled. -/
def IsTree (placed : List OperationSpec) (tree : Value) : Prop :=
  tree = .map (pathItems placed) ∨ ∃ e ∈ components placed, e.2 = tree

theorem mem_visited_of_isTree {tree : Value} (htree : IsTree placed tree) :
    ∀ target ∈ targets tree, target ∈ (closureOf placed).visited := by
  refine mem_visited ?_
  rcases htree with rfl | ⟨e, he, rfl⟩
  · exact .inl (List.mem_append_right _ (List.mem_singleton.mpr rfl))
  · rcases List.mem_append.mp he with he | he
    · exact .inl (List.mem_append_left _ (List.mem_reverse.mpr (List.mem_map_of_mem he)))
    · exact .inr ⟨e, he, rfl⟩

theorem settle_components {tree : Value} (htree : IsTree placed tree) :
    settle (componentNames placed) tree = settle (knownNames placed) tree :=
  settle_congr tree fun target htarget =>
    leadsTo_components (mem_visited_of_isTree htree target htarget)

/-! ## The worklist -/

variable {catalog : Named SchemaModel} {names : List String}

/-- The names that references may lead to while the worklist goes on. -/
def Worklist.Knows (w : Worklist) (catalog : Named SchemaModel) (names : List String) : Prop :=
  ∀ name, name ∈ names ↔ name ∈ w.schemas.names ∨ name ∈ catalog.names

theorem get?_remaining (w : Worklist) (name : String) :
    (w.remaining catalog).get? name
      = if w.schemas.contains name then none else catalog.get? name := by
  split
  · next h =>
    rw [← Option.not_isSome_iff_eq_none, Named.get?_isSome_iff]
    intro hmem
    obtain ⟨e, he, rfl⟩ := List.mem_map.mp hmem
    have hnew : (!w.schemas.contains e.1) = true := (List.mem_filter.mp he).2
    rw [h] at hnew
    cases hnew
  · next h =>
    refine Named.get?_filter fun e _ he => ?_
    show (!w.schemas.contains e.1) = true
    rw [he]
    simpa using h

/-- A reference to nothing that remains takes nothing. -/
theorem take_of_none {remaining : Named SchemaModel} {target : Value}
    (h : ∀ name, componentName? target = some name → remaining.get? name = none)
    (rest : List Value) :
    take remaining ((target :: rest).filterMap componentName?)
      = take remaining (rest.filterMap componentName?) := by
  cases hname : componentName? target with
  | none => rw [List.filterMap_cons_none hname]
  | some name => rw [List.filterMap_cons_some hname, take, h name hname]

/-- What `w` comes to when `met` are its next references and `taken` are the models they lead to. -/
def Worklist.after (w : Worklist) (names : List String) (met : List Value)
    (taken : Named SchemaModel) : Worklist where
  schemas := w.schemas ++ taken.map fun e => (e.1, e.2.toJsonSchema)
  pending := (taken.map (·.2.toJsonSchema)).reverse ++ w.pending
  dropped := w.dropped ++ met.filter fun target => !leadsTo names target

/-- A reference to no known name is dropped. -/
theorem meet_of_unknown {w : Worklist} (hnames : w.Knows catalog names) {target : Value}
    (h : leadsTo names target = false) :
    w.meet catalog target = { w with dropped := w.dropped ++ [target] }
      ∧ ∀ name, componentName? target = some name → (w.remaining catalog).get? name = none := by
  unfold Worklist.meet
  cases hname : componentName? target with
  | none => exact ⟨rfl, nofun⟩
  | some name =>
    have hunknown : name ∉ names := by
      intro hmem
      rw [leadsTo_iff.mpr ⟨name, hmem, hname⟩] at h
      cases h
    rw [hnames, not_or, ← Named.contains_iff, ← Named.get?_isSome_iff] at hunknown
    obtain ⟨hnew, hnone⟩ := hunknown
    rw [Option.not_isSome_iff_eq_none] at hnone
    dsimp only
    rw [if_neg hnew, hnone]
    refine ⟨rfl, fun name' hname' => ?_⟩
    cases hname'
    rw [get?_remaining, if_neg hnew, hnone]

/-- A reference to a known name is kept, and its model taken if it is no component yet. -/
theorem meet_of_known {w : Worklist} (hnames : w.Knows catalog names) {target : Value}
    (h : leadsTo names target = true) :
    (w.meet catalog target = w
        ∧ ∀ name, componentName? target = some name → (w.remaining catalog).get? name = none)
      ∨ ∃ name model, componentName? target = some name
          ∧ (w.remaining catalog).get? name = some model ∧ name ∈ catalog.names
          ∧ w.meet catalog target = { w with
              schemas := w.schemas ++ [(name, model.toJsonSchema)]
              pending := model.toJsonSchema :: w.pending } := by
  obtain ⟨name, hmem, hname⟩ := leadsTo_iff.mp h
  unfold Worklist.meet
  rw [hname]
  dsimp only
  split
  · next hthere =>
    refine .inl ⟨rfl, fun name' hname' => ?_⟩
    cases hname'
    rw [get?_remaining, if_pos hthere]
  · next hnew =>
    have hcatalog : name ∈ catalog.names :=
      ((hnames name).mp hmem).resolve_left fun h => hnew (Named.contains_iff.mpr h)
    obtain ⟨model, hmodel⟩ := Option.isSome_iff_exists.mp (Named.get?_isSome_iff.mpr hcatalog)
    refine .inr ⟨name, model, rfl, ?_, hcatalog, ?_⟩
    · rw [get?_remaining, if_neg hnew, hmodel]
    · rw [hmodel]

/-- A model that becomes a component does not remain. -/
theorem remaining_append (w : Worklist) (name : String) (tree : Value) (pending : List Value) :
    Worklist.remaining catalog { w with schemas := w.schemas ++ [(name, tree)], pending }
      = (w.remaining catalog).filter (·.1 != name) := by
  unfold Worklist.remaining
  rw [List.filter_filter]
  refine List.filter_congr fun e _ => ?_
  show (!Named.contains (w.schemas ++ [(name, tree)]) e.1)
    = ((e.1 != name) && !w.schemas.contains e.1)
  unfold Named.contains
  rw [List.any_append, Bool.not_or, Bool.and_comm, List.any_cons, List.any_nil, Bool.or_false,
    bne, Bool.beq_comm]

theorem Worklist.Knows.append {w : Worklist} (h : w.Knows catalog names) {name : String}
    (hcatalog : name ∈ catalog.names) (tree : Value) (pending : List Value) :
    Worklist.Knows { w with schemas := w.schemas ++ [(name, tree)], pending } catalog names := by
  intro other
  show _ ↔ other ∈ (w.schemas ++ [(name, tree)]).map (·.1) ∨ _
  rw [h other, List.map_append, List.mem_append, List.map_cons, List.map_nil, List.mem_singleton]
  constructor
  · rintro (h | h)
    · exact .inl (.inl h)
    · exact .inr h
  · rintro ((h | rfl) | h)
    · exact .inl h
    · exact .inr hcatalog
    · exact .inr h

/-- The references of a tree take the models they lead to out of those that remain, and nothing else
happens but that the others are dropped. Induction on the references; the worklist varies. -/
theorem foldl_meet (met : List Value) (w : Worklist) (hnames : w.Knows catalog names) :
    met.foldl (Worklist.meet catalog) w
        = w.after names met (take (w.remaining catalog) (met.filterMap componentName?)).1
      ∧ (met.foldl (Worklist.meet catalog) w).remaining catalog
        = (take (w.remaining catalog) (met.filterMap componentName?)).2
      ∧ (met.foldl (Worklist.meet catalog) w).Knows catalog names := by
  induction met generalizing w with
  | nil =>
    refine ⟨?_, rfl, hnames⟩
    show w = { schemas := w.schemas ++ [], pending := w.pending, dropped := w.dropped ++ [] }
    rw [List.append_nil, List.append_nil]
  | cons target rest ih =>
    rw [List.foldl_cons]
    cases hleads : leadsTo names target with
    | false =>
      obtain ⟨hmeet, hnone⟩ := meet_of_unknown hnames hleads
      obtain ⟨hafter, hremaining⟩ := ih { w with dropped := w.dropped ++ [target] } hnames
      rw [hmeet, take_of_none hnone]
      refine ⟨hafter.trans ?_, hremaining⟩
      unfold Worklist.after
      dsimp only
      rw [List.filter_cons, hleads, List.append_assoc]
      rfl
    | true =>
      obtain ⟨hmeet, hnone⟩ | ⟨name, model, hname, hmodel, hcatalog, hmeet⟩ :=
        meet_of_known hnames hleads
      · obtain ⟨hafter, hremaining⟩ := ih w hnames
        rw [hmeet, take_of_none hnone]
        refine ⟨hafter.trans ?_, hremaining⟩
        unfold Worklist.after
        rw [List.filter_cons, hleads]
        rfl
      · obtain ⟨hafter, hremaining, hnames⟩ := ih { w with
          schemas := w.schemas ++ [(name, model.toJsonSchema)]
          pending := model.toJsonSchema :: w.pending } (hnames.append hcatalog _ _)
        rw [remaining_append] at hafter hremaining
        rw [hmeet, List.filterMap_cons_some hname, take, hmodel]
        refine ⟨hafter.trans ?_, hremaining, hnames⟩
        unfold Worklist.after
        dsimp only
        rw [List.filter_cons, hleads, List.append_assoc, List.map_cons, List.map_cons,
          List.reverse_cons, List.append_assoc]
        rfl

/-- **The worklist ends**, after no more steps than there are models that remain and trees that are
pending, and it comes to what `close` gives. -/
theorem iterate_step {remaining : Named SchemaModel} {pending : List Value} (w : Worklist)
    (hpending : w.pending = pending) (hremaining : w.remaining catalog = remaining)
    (hnames : w.Knows catalog names) :
    ∃ n ≤ remaining.length + pending.length, (Worklist.step catalog)^[n] w = {
      schemas := w.schemas ++ (close remaining pending).added
      pending := []
      dropped := w.dropped
        ++ (close remaining pending).visited.filter fun target => !leadsTo names target } := by
  fun_induction close remaining pending generalizing w with
  | case1 remaining =>
    refine ⟨0, Nat.zero_le _, ?_⟩
    show w = { schemas := w.schemas ++ [], pending := [], dropped := w.dropped ++ [] }
    rw [List.append_nil, List.append_nil, ← hpending]
  | case2 remaining tree rest met taken left heq added more ih =>
    have hstep : w.step catalog
        = (targets tree).foldl (Worklist.meet catalog) { w with pending := rest } := by
      unfold Worklist.step
      rw [hpending]
    obtain ⟨hafter, hremaining', hnames'⟩ :=
      foldl_meet (targets tree) { w with pending := rest } hnames
    have hstart : Worklist.remaining catalog { w with pending := rest } = remaining := hremaining
    rw [hstart, heq] at hafter hremaining'
    rw [hafter] at hremaining' hnames'
    have hadded : (taken.map (·.2.toJsonSchema)).reverse = (added.map (·.2)).reverse := by
      show _ = ((taken.map _).map _).reverse
      rw [List.map_map]
      rfl
    obtain ⟨n, hn, hrun⟩ := ih _ (by rw [Worklist.after, hadded]) hremaining' hnames'
    refine ⟨n + 1, ?_, ?_⟩
    · -- every model that is taken leaves one model fewer, and is one tree more
      have htake := length_take_add_length_le remaining met
      rw [heq] at htake
      dsimp only at htake
      have hlength : added.length = taken.length := List.length_map _
      rw [List.length_append, List.length_reverse, List.length_map, hlength] at hn
      rw [List.length_cons]
      omega
    · rw [Function.iterate_succ_apply, hstep, hafter, hrun]
      show Worklist.mk _ _ _ = Worklist.mk _ _ _
      rw [List.filter_append, ← List.append_assoc, ← List.append_assoc]
      rfl

/-- The worklist of an export ends with its components and the references it drops. -/
theorem worklist_ends (placed : List OperationSpec) :
    ∃ n ≤ (knownModels placed).length + (Worklist.start placed).pending.length,
      (Worklist.step (knownModels placed))^[n] (Worklist.start placed) = {
        schemas := components placed
        pending := []
        dropped := (body placed).dropped } := by
  have hknows : (Worklist.start placed).Knows (knownModels placed) (knownNames placed) :=
    fun name => List.mem_append
  obtain ⟨n, hn, hrun⟩ := iterate_step (Worklist.start placed) rfl rfl hknows
  refine ⟨n, Nat.le_trans hn (Nat.add_le_add_right (List.length_filter_le _ _) _), hrun.trans ?_⟩
  have hdropped : (body placed).dropped
      = (closureOf placed).visited.filter fun target => !leadsTo (componentNames placed) target := by
    rw [componentNames_eq]
    rfl
  rw [hdropped, components_eq]
  refine congrArg (Worklist.mk _ _) (List.filter_congr fun target htarget => ?_)
  rw [leadsTo_components htarget]

end ApiContract.Export
