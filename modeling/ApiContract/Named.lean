/-!
# Lists without repetition and named entries

`Distinct.add` puts behind a list those terms of another that are not in it yet, so the terms stand
in the order of their first occurrence.

`Named` are entries under names, in the order in which the names were first written. Writing a name
again replaces its entry in place.
-/

namespace ApiContract

namespace Distinct

variable {α : Type} [BEq α]

/-- Adds the terms that are not there yet, in order. -/
def add (known more : List α) : List α :=
  more.foldl (fun known x => if known.contains x then known else known ++ [x]) known

/-- The terms of a list, each at its first occurrence. -/
def ofList (items : List α) : List α := add [] items

end Distinct

abbrev Named (α : Type) := List (String × α)

namespace Named

variable {α : Type}

/-- The entry under a name. -/
def get? (entries : Named α) (name : String) : Option α := List.lookup name entries

def contains (entries : Named α) (name : String) : Bool := entries.any (·.1 == name)

/-- Writes an entry: a name that is there keeps its place. -/
def insert (entries : Named α) (name : String) (entry : α) : Named α :=
  match entries with
  | [] => [(name, entry)]
  | (n, e) :: rest => if n = name then (n, entry) :: rest else (n, e) :: insert rest name entry

/-- The entries that writing the pairs one after the other gives. -/
def ofList (pairs : List (String × α)) : Named α :=
  pairs.foldl (fun entries (name, entry) => entries.insert name entry) []

def names (entries : Named α) : List String := entries.map (·.1)

theorem exists_mem_of_get? {entries : Named α} {name : String} {entry : α}
    (h : entries.get? name = some entry) : ∃ e ∈ entries, e.1 = name := by
  induction entries with
  | nil => simp [get?] at h
  | cons e rest ih =>
    obtain ⟨n, x⟩ := e
    by_cases hn : n = name
    · exact ⟨(n, x), by simp, hn⟩
    · have hne : (name == n) = false := by simpa using fun hc => hn hc.symm
      have hr : get? rest name = some entry := by
        rw [← h]
        simp [get?, List.lookup_cons, hne]
      obtain ⟨y, hy, hname⟩ := ih hr
      exact ⟨y, by simp [hy], hname⟩

end Named

end ApiContract
