import ApiContract.Proofs.OpenApi.Accepted
import ApiContract.Proofs.Text.Marks
import ApiContract.Value.Record
import Mathlib

/-!
# The ids of the operations of a document

`harvest` gives an operation a number behind its id when earlier operations had the id, and counts
the ids as they were *before* renaming. This module says what the ids after renaming are, and when
they differ:

* **`mem_occurrences_iff`** / **`nodup_occurrences`** — each id occurs with the numbers `0, 1, …`
  below its count, each once.
* **`suffixed_inj`** — two numbers behind two ids give two ids.
* **`Api.ids_nodup_iff`** — the headline: the ids of an accepted document are distinct exactly if no
  declared id is the numbered form of an id that is declared often enough.
-/

namespace ApiContract.OpenApi

/-! ## Occurrences -/

/-- The ids, each with the number of times it occurs before. -/
def occurrences (seen : List String) : List String → List (String × Nat)
  | [] => []
  | id :: rest => (id, seen.count id) :: occurrences (id :: seen) rest

/-- The id of an operation with `earlier` operations of its id before it. -/
def numberedId (id : String) (earlier : Nat) : String :=
  if earlier = 0 then id else s!"{id}_{earlier + 1}"

theorem id_numbered (operation : Operation) (earlier : Nat) :
    (numbered operation earlier).1.id = numberedId operation.id earlier := by
  unfold numbered numberedId
  split <;> rfl

/-- Renumbering acts on the ids alone. -/
theorem map_id_renumber (seen : List String) (operations : List Operation) :
    (renumber seen operations).map (·.id)
      = (occurrences seen (operations.map (·.id))).map fun p => numberedId p.1 p.2 := by
  induction operations generalizing seen with
  | nil => rfl
  | cons operation rest ih =>
    rw [renumber, List.map_cons, List.map_cons, occurrences, List.map_cons, ih, id_numbered]

/-- An id occurs with the numbers from its count in `seen` on, one for each place. -/
theorem mem_occurrences_iff {seen ids : List String} {id : String} {n : Nat} :
    (id, n) ∈ occurrences seen ids
      ↔ seen.count id ≤ n ∧ n < seen.count id + ids.count id := by
  induction ids generalizing seen with
  | nil =>
    refine iff_of_false List.not_mem_nil ?_
    rw [List.count_nil]
    omega
  | cons x rest ih =>
    rw [occurrences, List.mem_cons, ih, Prod.mk.injEq]
    by_cases hx : id = x
    · subst hx
      rw [List.count_cons_self, List.count_cons_self]
      simp only [true_and]
      omega
    · rw [List.count_cons_of_ne (Ne.symm hx), List.count_cons_of_ne (Ne.symm hx)]
      simp only [hx, false_and, false_or]

theorem nodup_occurrences (seen ids : List String) : (occurrences seen ids).Nodup := by
  induction ids generalizing seen with
  | nil => exact List.nodup_nil
  | cons id rest ih =>
    rw [occurrences, List.nodup_cons]
    refine ⟨?_, ih _⟩
    -- behind its head the id only has greater numbers
    rw [mem_occurrences_iff, List.count_cons_self]
    omega

/-! ## Numbers behind ids -/

/-- Two numbers behind two ids give two ids: a number has no underscore. -/
theorem suffixed_inj {a b : String} {m n : Nat} (h : s!"{a}_{m}" = s!"{b}_{n}") :
    a = b ∧ m = n := by
  have hrepr : a ++ "_" ++ m.repr = b ++ "_" ++ n.repr := h
  have hlist : a.toList ++ '_' :: Nat.toDigits 10 m = b.toList ++ '_' :: Nat.toDigits 10 n := by
    have := congrArg String.toList hrepr
    rw [String.toList_append, String.toList_append, String.toList_append, String.toList_append,
      Nat.toList_repr, Nat.toList_repr, List.append_assoc, List.append_assoc] at this
    exact this
  obtain ⟨hab, hmn⟩ := Text.append_cons_inj_of_last Nat.underscore_not_in_toDigits
    Nat.underscore_not_in_toDigits hlist
  refine ⟨String.toList_inj.mp hab, ?_⟩
  have := congrArg (Nat.ofDigitChars 10 · 0) hmn
  simpa only [Nat.ofDigitChars_ten_toDigits] using this

/-! ## When the ids are distinct -/

/-- Numbered ids differ, except where an id of the list reads like a numbered form of another. -/
theorem nodup_numbered_iff (ids : List String) :
    ((occurrences [] ids).map fun p => numberedId p.1 p.2).Nodup
      ↔ ∀ id k, 2 ≤ k → k ≤ ids.count id → s!"{id}_{k}" ∉ ids := by
  constructor
  · intro hnodup id k hk hcount hmem
    -- the form `id_k` stands there twice: as it is, and for the occurrence `k` of `id`
    have hplain : (s!"{id}_{k}", 0) ∈ occurrences [] ids := by
      rw [mem_occurrences_iff, List.count_nil, Nat.zero_add]
      exact ⟨Nat.le_refl 0, List.count_pos_iff.mpr hmem⟩
    have hform : (id, k - 1) ∈ occurrences [] ids := by
      rw [mem_occurrences_iff, List.count_nil]
      omega
    have heq : numberedId s!"{id}_{k}" 0 = numberedId id (k - 1) := by
      unfold numberedId
      rw [if_pos rfl, if_neg (by omega), Nat.sub_add_cancel (by omega)]
    have := List.inj_on_of_nodup_map hnodup hplain hform heq
    have hzero : 0 = k - 1 := congrArg Prod.snd this
    omega
  · intro hfree
    refine (nodup_occurrences [] ids).map_on ?_
    rintro ⟨a, m⟩ ha ⟨b, n⟩ hb heq
    have hnot : ∀ {a b : String} {n : Nat}, (a, 0) ∈ occurrences [] ids →
        (b, n) ∈ occurrences [] ids → n ≠ 0 → a ≠ s!"{b}_{n + 1}" := by
      intro a b n ha hb hn hab
      rw [mem_occurrences_iff, List.count_nil] at ha hb
      refine hfree b (n + 1) (by omega) (by omega) ?_
      rw [← hab]
      exact List.count_pos_iff.mp (by omega)
    by_cases hm : m = 0 <;> by_cases hn : n = 0
    · subst hm hn
      simpa [numberedId] using heq
    · subst hm
      simp only [numberedId, if_pos, if_neg hn] at heq
      exact absurd heq (hnot ha hb hn)
    · subst hn
      simp only [numberedId, if_pos, if_neg hm] at heq
      exact absurd heq.symm (hnot hb ha hm)
    · simp only [numberedId, if_neg hm, if_neg hn] at heq
      obtain ⟨rfl, hmn⟩ := suffixed_inj heq
      rw [Nat.succ.inj hmn]

/-- The ids that a document declares, or that are made from method and path, in order. -/
def declaredIds (document : Value) : List String :=
  (readable document (entriesOfPaths document)).map (·.id)

/-- **When the ids of an accepted document are distinct.** An id that is declared several times gets
the numbers from 2 on; the ids collide exactly if another declared id reads like one of these. -/
theorem Api.ids_nodup_iff {document : Value} {api : Api} (h : Api.ofDocument document = .ok api) :
    (api.operations.map (·.id)).Nodup
      ↔ ∀ id k, 2 ≤ k → k ≤ (declaredIds document).count id
          → s!"{id}_{k}" ∉ declaredIds document := by
  obtain ⟨-, -, -, -, hoperations, -⟩ := Api.ofDocument_eq_ok.mp h
  rw [hoperations, harvestPaths_operations, map_id_renumber]
  exact nodup_numbered_iff _

/-- A document with one operation per id, each on a path of its own. -/
def documentOfIds (ids : List String) : Value :=
  record [("openapi", .str "3.0.0"),
    ("paths", record (ids.mapIdx fun i id =>
      (s!"/{i}", record [("get", record [("operationId", .str id), ("responses", record [])])])))]

theorem ids_of_repeated_nodup :
    ∃ api, Api.ofDocument (documentOfIds ["x", "x", "y"]) = .ok api
      ∧ (api.operations.map (·.id)).Nodup
      ∧ ∀ id k, 2 ≤ k → k ≤ (declaredIds (documentOfIds ["x", "x", "y"])).count id
          → s!"{id}_{k}" ∉ declaredIds (documentOfIds ["x", "x", "y"]) := by
  obtain ⟨api, hapi, hids⟩ : ∃ api, Api.ofDocument (documentOfIds ["x", "x", "y"]) = .ok api
      ∧ api.operations.map (·.id) = ["x", "x_2", "y"] := ⟨_, by cbv, by cbv⟩
  have hnodup : (api.operations.map (·.id)).Nodup := by
    rw [hids]
    decide
  exact ⟨api, hapi, hnodup, (Api.ids_nodup_iff hapi).mp hnodup⟩

/-- The second `x` takes the id that the third operation declares. -/
theorem ids_of_suffixed_not_nodup :
    ∃ api, Api.ofDocument (documentOfIds ["x", "x", "x_2"]) = .ok api
      ∧ api.operations.map (·.id) = ["x", "x_2", "x_2"]
      ∧ ¬ (api.operations.map (·.id)).Nodup := by
  obtain ⟨api, hapi, hids⟩ : ∃ api, Api.ofDocument (documentOfIds ["x", "x", "x_2"]) = .ok api
      ∧ api.operations.map (·.id) = ["x", "x_2", "x_2"] := ⟨_, by cbv, by cbv⟩
  refine ⟨api, hapi, hids, ?_⟩
  rw [hids]
  decide

end ApiContract.OpenApi
