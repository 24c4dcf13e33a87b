import ApiContract.Contract.Spec

/-!
# Registries

A registry is a collection of specs with different keys; `Registry.register` refuses a key that is
there. Listing goes by key, so it does not depend on the order of registration.
-/

namespace ApiContract.Contract

open Keyed

structure Registry (α : Type) [Keyed α] where
  /-- The specs in the order of registration. -/
  specs : List α
  keys_nodup : (specs.map key).Nodup

namespace Registry

variable {α : Type} [Keyed α]

/-- The registry without a spec. -/
def empty : Registry α := ⟨[], List.nodup_nil⟩

instance : Inhabited (Registry α) := ⟨empty⟩

/-- The spec under a key. -/
def find? (r : Registry α) (k : String) : Option α := r.specs.find? (key · == k)

def contains (r : Registry α) (k : String) : Bool := (r.specs.map key).contains k

/-- Adds a spec whose key is new. -/
def register (r : Registry α) (spec : α) : Except Failure (Registry α) :=
  if h : key spec ∈ r.specs.map key then .error (.duplicateSpec (key spec))
  else .ok {
    specs := r.specs ++ [spec]
    keys_nodup := by
      rw [List.map_append, List.nodup_append]
      refine ⟨r.keys_nodup, by simp, ?_⟩
      rintro a ha b hb rfl
      simp only [List.map_cons, List.map_nil, List.mem_singleton] at hb
      exact h (hb ▸ ha) }

/-- A registry of these specs, registered in order. -/
def ofList (specs : List α) : Except Failure (Registry α) :=
  specs.foldlM register empty

/-- The later of two specs, the first one of a tie. -/
def later (a b : α) : α := if (header a).version < (header b).version then b else a

/-- The spec of a name with this version, or with the highest one. -/
def get? (r : Registry α) (name : String) : (version : Option Int) → Option α
  | some version => r.find? s!"{name}.v{version}"
  | none =>
    match r.specs.filter fun s => (header s).name == name with
    | [] => none
    | first :: rest => some (rest.foldl later first)

/-- The specs sorted by key. -/
def toList (r : Registry α) : List α := r.specs.mergeSort fun a b => decide (key a ≤ key b)

def keys (r : Registry α) : List String := r.toList.map key

def size (r : Registry α) : Nat := r.specs.length

def isEmpty (r : Registry α) : Bool := r.specs.isEmpty

end Registry

end ApiContract.Contract
