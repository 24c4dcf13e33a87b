import ApiContract.Named
import Mathlib.Data.List.Induction
import Mathlib.Data.List.Nodup

/-!
# Entries under distinct names

`Distinct.ofList` keeps every term of a list once, and `Named.ofList` one entry for every name of a
list of pairs.

* **`Distinct.nodup_ofList`** / **`Distinct.mem_ofList`** — the terms of a list, each once.
* **`Distinct.firstOccurrences_ofList`** — and where they stand.
* **`Named.mem_of_mem_ofList`** / **`Named.mem_names_ofList`** — the entries and their names.
* **`Named.names_ofList`** / **`Named.get?_ofList_last`** — the order of the names, and which entry
  stands under each.
* **`Named.ofList_of_nodup`** — pairs with distinct names are their own entries.
-/

namespace ApiContract

/-- What a term of the second list is related to. -/
theorem exists_of_forall₂ {α β : Type} {R : α → β → Prop} {xs : List α} {ys : List β}
    (h : List.Forall₂ R xs ys) {y : β} (hy : y ∈ ys) : ∃ x ∈ xs, R x y := by
  induction h with
  | nil => cases hy
  | @cons x _ xs _ hxy _ ih =>
    rcases List.mem_cons.mp hy with rfl | hy
    · exact ⟨x, List.mem_cons_self, hxy⟩
    · obtain ⟨x', hx', hxy'⟩ := ih hy
      exact ⟨x', List.mem_cons_of_mem x hx', hxy'⟩

/-- Some terms are those of a list, each once and in the order in which they first occur there. -/
structure FirstOccurrences {α : Type} [BEq α] (items firsts : List α) : Prop where
  mem : ∀ x, x ∈ firsts ↔ x ∈ items
  order : firsts.Pairwise fun x y => items.idxOf x < items.idxOf y

theorem FirstOccurrences.nodup {α : Type} [BEq α] {items firsts : List α}
    (h : FirstOccurrences items firsts) : firsts.Nodup := by
  refine h.order.imp ?_
  rintro x _ hlt rfl
  exact Nat.lt_irrefl _ hlt

namespace Distinct

variable {α : Type} [BEq α]

theorem add_cons (known : List α) (x : α) (rest : List α) :
    add known (x :: rest) = add (if known.contains x then known else known ++ [x]) rest := rfl

variable [LawfulBEq α]

theorem mem_add {known more : List α} {x : α} : x ∈ add known more ↔ x ∈ known ∨ x ∈ more := by
  induction more generalizing known with
  | nil => simp [add]
  | cons y rest ih =>
    rw [add_cons, ih, List.mem_cons]
    split
    · next hy =>
      rw [List.contains_iff_mem] at hy
      constructor
      · rintro (hx | hx)
        · exact .inl hx
        · exact .inr (.inr hx)
      · rintro (hx | rfl | hx)
        · exact .inl hx
        · exact .inl hy
        · exact .inr hx
    · simp only [List.mem_append, List.mem_singleton, or_assoc]

theorem nodup_add {known : List α} (h : known.Nodup) (more : List α) : (add known more).Nodup := by
  induction more generalizing known with
  | nil => exact h
  | cons y rest ih =>
    rw [add_cons]
    split
    · exact ih h
    · next hy =>
      refine ih (List.nodup_append.mpr ⟨h, List.nodup_singleton y, ?_⟩)
      rintro a ha b hb rfl
      rw [List.mem_singleton] at hb
      subst hb
      exact hy (List.contains_iff_mem.mpr ha)

@[simp] theorem mem_ofList {items : List α} {x : α} : x ∈ ofList items ↔ x ∈ items := by
  rw [ofList, mem_add]
  simp

theorem nodup_ofList (items : List α) : (ofList items).Nodup := nodup_add List.nodup_nil items

theorem add_of_nodup {known more : List α} (h : (known ++ more).Nodup) :
    add known more = known ++ more := by
  induction more generalizing known with
  | nil => simp [add]
  | cons y rest ih =>
    have hy : known.contains y = false := by
      have := (List.nodup_append.mp h).2.2
      simpa using fun hmem => this y hmem y List.mem_cons_self rfl
    rw [add_cons, hy, if_neg (by simp), ih (by simpa using h), List.append_assoc]
    rfl

/-- A list without repetition stays as it is. -/
theorem ofList_of_nodup {items : List α} (h : items.Nodup) : ofList items = items :=
  add_of_nodup h

omit [LawfulBEq α] in
theorem add_append (known xs ys : List α) : add known (xs ++ ys) = add (add known xs) ys :=
  List.foldl_append

/-- **Every term stands at its first occurrence.** Induction from the back: a new term comes last. -/
theorem firstOccurrences_ofList (items : List α) : FirstOccurrences items (ofList items) := by
  refine ⟨fun x => mem_ofList, ?_⟩
  induction items using List.reverseRecOn with
  | nil => exact .nil
  | append_singleton rest x ih =>
    have hkept : (ofList rest).Pairwise fun y z =>
        (rest ++ [x]).idxOf y < (rest ++ [x]).idxOf z := by
      refine ih.imp_of_mem fun hy hz hlt => ?_
      rw [List.idxOf_append_of_mem (mem_ofList.mp hy), List.idxOf_append_of_mem (mem_ofList.mp hz)]
      exact hlt
    unfold ofList at hkept ⊢
    rw [add_append, add_cons]
    split
    · exact hkept
    · next hx =>
      refine List.pairwise_append.mpr ⟨hkept, List.pairwise_singleton _ _, fun y hy z hz => ?_⟩
      obtain rfl := List.mem_singleton.mp hz
      have hnew : z ∉ rest := fun hmem => hx (List.contains_iff_mem.mpr (mem_ofList.mpr hmem))
      have hold : y ∈ rest := mem_ofList.mp hy
      rw [List.idxOf_append_of_mem hold, List.idxOf_append_of_notMem hnew]
      exact Nat.lt_of_lt_of_le (List.idxOf_lt_length_of_mem hold) (Nat.le_add_right _ _)

/-- Terms that come from terms, each taken once, may as well come from all of them. -/
theorem add_map_add {β : Type} [BEq β] [LawfulBEq β] (base : List β) (f : α → β)
    (known more : List α) :
    add base ((add known more).map f) = add (add base (known.map f)) (more.map f) := by
  induction more generalizing known with
  | nil => rfl
  | cons y rest ih =>
    rw [add_cons, ih, List.map_cons, add_cons]
    split
    · next hy =>
      have hmem : f y ∈ add base (known.map f) :=
        mem_add.mpr (.inr (List.mem_map_of_mem (List.contains_iff_mem.mp hy)))
      rw [if_pos (List.contains_iff_mem.mpr hmem)]
    · rw [List.map_append, add_append]
      rfl

end Distinct

namespace Named

variable {α : Type}

theorem get?_cons (n : String) (x : α) (rest : Named α) (name : String) :
    get? ((n, x) :: rest) name = if n = name then some x else get? rest name := by
  unfold get?
  rw [List.lookup_cons]
  by_cases h : n = name
  · subst h
    simp
  · have : (name == n) = false := by simpa using Ne.symm h
    rw [this, if_neg h]

theorem get?_map {β : Type} (entries : Named α) (f : α → β) (name : String) :
    get? (entries.map fun e => (e.1, f e.2)) name = (get? entries name).map f := by
  induction entries with
  | nil => rfl
  | cons e rest ih =>
    obtain ⟨n, y⟩ := e
    rw [List.map_cons, get?_cons, get?_cons, ih]
    split <;> rfl

theorem mem_of_get? {entries : Named α} {name : String} {x : α} (h : entries.get? name = some x) :
    (name, x) ∈ entries := by
  induction entries with
  | nil => cases h
  | cons e rest ih =>
    obtain ⟨n, y⟩ := e
    rw [get?_cons] at h
    split at h
    · next hn =>
      subst hn
      cases h
      exact List.mem_cons_self
    · exact List.mem_cons_of_mem _ (ih h)

/-- Where names are given once, every entry is found under its name. -/
theorem get?_of_mem {entries : Named α} (h : (entries.map (·.1)).Nodup) {e : String × α}
    (he : e ∈ entries) : entries.get? e.1 = some e.2 := by
  induction entries with
  | nil => cases he
  | cons e' rest ih =>
    obtain ⟨n, x⟩ := e'
    rw [List.map_cons, List.nodup_cons] at h
    rw [get?_cons]
    rcases List.mem_cons.mp he with rfl | hrest
    · rw [if_pos rfl]
    · have hne : n ≠ e.1 := by
        intro heq
        exact h.1 (List.mem_map.mpr ⟨e, hrest, heq.symm⟩)
      rw [if_neg hne]
      exact ih h.2 hrest

theorem get?_isSome_iff {entries : Named α} {name : String} :
    (entries.get? name).isSome ↔ name ∈ entries.names := by
  induction entries with
  | nil => simp [get?, names]
  | cons e rest ih =>
    obtain ⟨n, y⟩ := e
    rw [get?_cons]
    unfold names at ih ⊢
    rw [List.map_cons, List.mem_cons, ← ih]
    by_cases h : n = name
    · simp [h]
    · simp [h, Ne.symm h]

theorem contains_iff {entries : Named α} {name : String} :
    entries.contains name = true ↔ name ∈ entries.names := by
  unfold contains names
  rw [List.any_eq_true, List.mem_map]
  exact exists_congr fun e => and_congr_right fun _ => beq_iff_eq

/-- Entries of other names do not matter for a lookup. -/
theorem get?_filter {entries : Named α} {name : String} {p : String × α → Bool}
    (h : ∀ e ∈ entries, e.1 = name → p e = true) :
    get? (entries.filter p) name = get? entries name := by
  induction entries with
  | nil => rfl
  | cons e rest ih =>
    obtain ⟨n, x⟩ := e
    have ih := ih fun e he => h e (List.mem_cons_of_mem _ he)
    rw [List.filter_cons, get?_cons]
    split
    · rw [get?_cons, ih]
    · next hp =>
      have hn : n ≠ name := fun hn => hp (h (n, x) List.mem_cons_self hn)
      rw [if_neg hn, ih]

theorem mem_insert {entries : Named α} {name : String} {x : α} {e : String × α}
    (h : e ∈ insert entries name x) : e = (name, x) ∨ e ∈ entries := by
  induction entries with
  | nil => exact .inl (List.mem_singleton.mp h)
  | cons e' rest ih =>
    obtain ⟨n, y⟩ := e'
    rw [insert] at h
    split at h
    · next hn =>
      subst hn
      rcases List.mem_cons.mp h with rfl | h
      · exact .inl rfl
      · exact .inr (List.mem_cons_of_mem _ h)
    · rcases List.mem_cons.mp h with rfl | h
      · exact .inr List.mem_cons_self
      · rcases ih h with rfl | h
        · exact .inl rfl
        · exact .inr (List.mem_cons_of_mem _ h)

theorem get?_insert_self (entries : Named α) (name : String) (x : α) :
    get? (insert entries name x) name = some x := by
  induction entries with
  | nil => simp [insert, get?_cons]
  | cons e rest ih =>
    obtain ⟨n, y⟩ := e
    rw [insert]
    split
    · next hn => rw [get?_cons, if_pos hn]
    · next hn => rw [get?_cons, if_neg hn, ih]

theorem mem_names_insert {entries : Named α} {name other : String} {x : α} :
    other ∈ (insert entries name x).names ↔ other = name ∨ other ∈ entries.names := by
  induction entries with
  | nil => simp [insert, names]
  | cons e rest ih =>
    obtain ⟨n, y⟩ := e
    rw [insert]
    split
    · next hn =>
      subst hn
      simp [names]
    · unfold names at ih ⊢
      rw [List.map_cons, List.map_cons, List.mem_cons, List.mem_cons, ih]
      constructor
      · rintro (h | h | h)
        · exact .inr (.inl h)
        · exact .inl h
        · exact .inr (.inr h)
      · rintro (h | h | h)
        · exact .inr (.inl h)
        · exact .inl h
        · exact .inr (.inr h)

/-- Writing an entry writes no name twice. -/
theorem nodup_insert {entries : Named α} (h : (entries.map (·.1)).Nodup) (name : String) (x : α) :
    ((insert entries name x).map (·.1)).Nodup := by
  induction entries with
  | nil => exact List.nodup_singleton _
  | cons e rest ih =>
    obtain ⟨n, y⟩ := e
    rw [List.map_cons, List.nodup_cons] at h
    rw [insert]
    split
    · exact List.nodup_cons.mpr h
    · rename_i hne
      refine List.nodup_cons.mpr ⟨?_, ih h.2⟩
      intro hmem
      rcases mem_names_insert.mp hmem with hname | hname
      · exact hne hname
      · exact h.1 hname

theorem nodup_foldl_insert (pairs : List (String × α)) {entries : Named α}
    (h : (entries.map (·.1)).Nodup) :
    ((pairs.foldl (fun entries (name, x) => insert entries name x) entries).map (·.1)).Nodup := by
  induction pairs generalizing entries with
  | nil => exact h
  | cons p rest ih => exact ih (nodup_insert h p.1 p.2)

theorem nodup_ofList (pairs : List (String × α)) : ((ofList pairs).map (·.1)).Nodup :=
  nodup_foldl_insert pairs List.nodup_nil

/-- The pairs written so far, and those that follow. -/
theorem mem_foldl_insert {pairs : List (String × α)} {entries : Named α} {e : String × α}
    (h : e ∈ pairs.foldl (fun entries (name, x) => insert entries name x) entries) :
    e ∈ pairs ∨ e ∈ entries := by
  induction pairs generalizing entries with
  | nil => exact .inr h
  | cons p rest ih =>
    rcases ih h with h | h
    · exact .inl (List.mem_cons_of_mem _ h)
    · rcases mem_insert h with rfl | h
      · exact .inl List.mem_cons_self
      · exact .inr h

/-- Every entry is one of the pairs. -/
theorem mem_of_mem_ofList {pairs : List (String × α)} {e : String × α} (h : e ∈ ofList pairs) :
    e ∈ pairs := by
  rcases mem_foldl_insert h with h | h
  · exact h
  · cases h

/-- Every name of the pairs has an entry. -/
theorem mem_names_ofList {pairs : List (String × α)} {name : String} :
    name ∈ (ofList pairs).names ↔ name ∈ pairs.map (·.1) := by
  have hfold : ∀ entries : Named α,
      name ∈ (pairs.foldl (fun entries (n, x) => insert entries n x) entries).names
        ↔ name ∈ entries.names ∨ name ∈ pairs.map (·.1) := by
    induction pairs with
    | nil => simp
    | cons p rest ih =>
      intro entries
      rw [List.foldl_cons, ih, mem_names_insert, List.map_cons, List.mem_cons]
      constructor
      · rintro ((h | h) | h)
        · exact .inr (.inl h)
        · exact .inl h
        · exact .inr (.inr h)
      · rintro (h | h | h)
        · exact .inl (.inr h)
        · exact .inl (.inl h)
        · exact .inr h
  have := hfold []
  simpa [ofList, names] using this

/-- A name under which one entry is written is found with it. -/
theorem get?_ofList {pairs : List (String × α)} {name : String} {x : α} (h : (name, x) ∈ pairs)
    (hunique : ∀ y, (name, y) ∈ pairs → y = x) : get? (ofList pairs) name = some x := by
  obtain ⟨y, hy⟩ := Option.isSome_iff_exists.mp
    (get?_isSome_iff.mpr (mem_names_ofList.mpr (List.mem_map_of_mem h)))
  rw [hy, hunique y (mem_of_mem_ofList (mem_of_get? hy))]

theorem names_insert (entries : Named α) (name : String) (x : α) :
    (insert entries name x).names
      = if entries.names.contains name then entries.names else entries.names ++ [name] := by
  induction entries with
  | nil => rfl
  | cons e rest ih =>
    obtain ⟨n, y⟩ := e
    rw [insert]
    unfold names at ih ⊢
    by_cases hn : n = name
    · simp [hn]
    · rw [if_neg hn, List.map_cons, ih]
      simp only [List.contains_eq_mem]
      by_cases hmem : name ∈ List.map (fun x => x.1) rest
      · simp [hmem]
      · simp [hmem, Ne.symm hn]

/-- The names of pairs that are written one after the other, each once. -/
theorem names_ofList (pairs : List (String × α)) :
    (ofList pairs).names = Distinct.ofList (pairs.map (·.1)) := by
  have hfold : ∀ entries : Named α,
      (pairs.foldl (fun entries (n, x) => insert entries n x) entries).names
        = Distinct.add entries.names (pairs.map (·.1)) := by
    induction pairs with
    | nil => exact fun _ => rfl
    | cons p rest ih =>
      intro entries
      rw [List.foldl_cons, ih, List.map_cons, Distinct.add_cons, names_insert]
  exact hfold []

theorem get?_insert_of_ne {entries : Named α} {name other : String} (h : other ≠ name) (x : α) :
    get? (insert entries name x) other = get? entries other := by
  induction entries with
  | nil => rw [insert, get?_cons, if_neg (Ne.symm h)]
  | cons e rest ih =>
    obtain ⟨n, y⟩ := e
    rw [insert]
    split
    · next hn => rw [get?_cons, get?_cons, hn, if_neg (Ne.symm h), if_neg (Ne.symm h)]
    · rw [get?_cons, get?_cons, ih]

/-- **The entry that was written last** is the one under a name. -/
theorem get?_ofList_last {before after : List (String × α)} {name : String} {x : α}
    (h : ∀ e ∈ after, e.1 ≠ name) : get? (ofList (before ++ (name, x) :: after)) name = some x := by
  have hkeeps : ∀ entries : Named α,
      get? (after.foldl (fun entries (n, x) => insert entries n x) entries) name
        = get? entries name := by
    induction after with
    | nil => exact fun _ => rfl
    | cons e rest ih =>
      intro entries
      obtain ⟨hne, hrest⟩ := List.forall_mem_cons.mp h
      rw [List.foldl_cons, ih hrest, get?_insert_of_ne (Ne.symm hne)]
  unfold ofList
  rw [List.foldl_append, List.foldl_cons, hkeeps, get?_insert_self]

theorem get?_append {entries more : Named α} {name : String} {x : α}
    (h : get? entries name = some x) : get? (entries ++ more) name = some x := by
  unfold get? at h ⊢
  rw [List.lookup_append, h]
  rfl

theorem insert_of_notMem {entries : Named α} {name : String} {x : α}
    (h : name ∉ entries.names) : insert entries name x = entries ++ [(name, x)] := by
  induction entries with
  | nil => rfl
  | cons e rest ih =>
    obtain ⟨n, y⟩ := e
    unfold names at h ih
    rw [List.map_cons, List.mem_cons, not_or] at h
    rw [insert, if_neg (Ne.symm h.1), ih h.2]
    rfl

/-- Pairs with distinct names are their own entries. -/
theorem ofList_of_nodup {pairs : List (String × α)} (h : (pairs.map (·.1)).Nodup) :
    ofList pairs = pairs := by
  have hfold : ∀ entries : Named α, ((entries ++ pairs).map (·.1)).Nodup →
      pairs.foldl (fun entries (n, x) => insert entries n x) entries = entries ++ pairs := by
    induction pairs with
    | nil => simp
    | cons p rest ih =>
      intro entries hnodup
      obtain ⟨n, x⟩ := p
      have hn : n ∉ entries.names := by
        rw [List.map_append, List.nodup_append] at hnodup
        intro hmem
        exact hnodup.2.2 n hmem n (by simp) rfl
      rw [List.foldl_cons]
      dsimp only
      rw [insert_of_notMem hn, ih (List.Nodup.of_cons h) _ (by simpa using hnodup),
        List.append_assoc]
      rfl
  simpa [ofList] using hfold [] (by simpa using h)

end Named

end ApiContract
