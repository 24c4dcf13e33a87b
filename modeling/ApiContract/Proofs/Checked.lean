import ApiContract.Checked

/-!
# Steps that succeed

A computation that can fail is a chain of steps, and it gives a result exactly if every step does.
These lemmas take such chains apart and put them together:

* **`bind_eq_ok`** / **`map_eq_ok`** / **`mapM_eq_ok`** — for steps one after the other;
* **`succeeds_bind`** / **`succeeds_mapM`** — where it does not matter what the result is;
* **`Checked.map_eq_ok`** / **`Checked.seq_eq_ok`** / **`Checked.all_eq_ok`** — for checks, which do
  not stop at the first wrong leaf.
-/

namespace ApiContract

section Except

variable {α β : Type}

theorem bind_eq_ok {ε : Type} {x : Except ε α} {f : α → Except ε β} {b : β} :
    (x >>= f) = .ok b ↔ ∃ a, x = .ok a ∧ f a = .ok b := by
  cases x with
  | error cause =>
    constructor
    · intro h
      cases h
    · rintro ⟨a, ha, -⟩
      cases ha
  | ok a =>
    constructor
    · intro h
      exact ⟨a, rfl, h⟩
    · rintro ⟨a', ha, h⟩
      cases ha
      exact h

theorem bind_eq_error {ε : Type} {x : Except ε α} {f : α → Except ε β} {cause : ε} :
    (x >>= f) = .error cause ↔ x = .error cause ∨ ∃ a, x = .ok a ∧ f a = .error cause := by
  cases x with
  | error _ =>
    constructor
    · intro h
      cases h
      exact .inl rfl
    · rintro (h | ⟨a, ha, -⟩)
      · cases h
        rfl
      · cases ha
  | ok a =>
    constructor
    · exact fun h => .inr ⟨a, rfl, h⟩
    · rintro (h | ⟨a', ha, h⟩)
      · cases h
      · cases ha
        exact h

theorem map_eq_ok {x : Except Failure α} {f : α → β} {b : β} :
    f <$> x = .ok b ↔ ∃ a, x = .ok a ∧ f a = b := by
  cases x with
  | error cause =>
    constructor
    · intro h
      cases h
    · rintro ⟨a, ha, -⟩
      cases ha
  | ok a =>
    constructor
    · intro h
      cases h
      exact ⟨a, rfl, rfl⟩
    · rintro ⟨a', ha, h⟩
      cases ha
      exact congrArg Except.ok h

theorem pure_eq_ok {a b : α} : (pure a : Except Failure α) = .ok b ↔ a = b :=
  ⟨fun h => Except.ok.inj h, fun h => congrArg Except.ok h⟩

/-- All items succeed, each with its result. -/
theorem mapM_eq_ok {f : α → Except Failure β} {xs : List α} {ys : List β} :
    xs.mapM f = .ok ys ↔ xs.map f = ys.map .ok := by
  induction xs generalizing ys with
  | nil =>
    cases ys with
    | nil => simp [pure_eq_ok]
    | cons y ys => simp [pure_eq_ok]
  | cons x rest ih =>
    rw [List.mapM_cons, List.map_cons, bind_eq_ok]
    simp only [bind_eq_ok, pure_eq_ok, ih]
    constructor
    · rintro ⟨y, hy, ys', hrest, rfl⟩
      rw [List.map_cons, hy, hrest]
    · intro h
      cases ys with
      | nil => cases h
      | cons y ys' =>
        obtain ⟨hy, hrest⟩ := List.cons.inj h
        exact ⟨y, hy, ys', hrest, rfl⟩

/-- Every result of a list of computations is the result of one of them. -/
theorem mem_of_mapM_eq_ok {f : α → Except Failure β} {xs : List α} {ys : List β}
    (h : xs.mapM f = .ok ys) {y : β} (hy : y ∈ ys) : ∃ x ∈ xs, f x = .ok y := by
  have hok : (Except.ok y : Except Failure β) ∈ ys.map Except.ok := List.mem_map_of_mem hy
  rw [← mapM_eq_ok.mp h] at hok
  exact List.mem_map.mp hok

/-- A computation that gives some result. -/
def Succeeds (x : Except Failure α) : Prop := ∃ a, x = .ok a

@[simp] theorem succeeds_ok (a : α) : Succeeds (.ok a) := ⟨a, rfl⟩

@[simp] theorem succeeds_pure (a : α) : Succeeds (pure a : Except Failure α) := ⟨a, rfl⟩

@[simp] theorem not_succeeds_error (cause : Failure) : ¬ Succeeds (.error cause : Except Failure α) := by
  rintro ⟨a, ha⟩
  cases ha

theorem succeeds_bind {x : Except Failure α} {f : α → Except Failure β} :
    Succeeds (x >>= f) ↔ ∃ a, x = .ok a ∧ Succeeds (f a) := by
  constructor
  · rintro ⟨b, hb⟩
    obtain ⟨a, ha, hf⟩ := bind_eq_ok.mp hb
    exact ⟨a, ha, b, hf⟩
  · rintro ⟨a, ha, b, hf⟩
    exact ⟨b, bind_eq_ok.mpr ⟨a, ha, hf⟩⟩

theorem succeeds_map {x : Except Failure α} {f : α → β} : Succeeds (f <$> x) ↔ Succeeds x := by
  constructor
  · rintro ⟨b, hb⟩
    obtain ⟨a, ha, -⟩ := map_eq_ok.mp hb
    exact ⟨a, ha⟩
  · rintro ⟨a, ha⟩
    exact ⟨f a, map_eq_ok.mpr ⟨a, ha, rfl⟩⟩

/-- The last step of a computation does not decide whether it gives a result. -/
theorem succeeds_bind_of_forall {x : Except Failure α} {f : α → Except Failure β}
    (h : ∀ a, Succeeds (f a)) : Succeeds (x >>= f) ↔ Succeeds x := by
  rw [succeeds_bind]
  exact ⟨fun ⟨a, ha, _⟩ => ⟨a, ha⟩, fun ⟨a, ha⟩ => ⟨a, ha, h a⟩⟩

/-- Where the result of the first step does not decide what follows, the steps succeed each by itself. -/
theorem succeeds_bind_and {x : Except Failure α} {f : α → Except Failure β} {p : Prop}
    (h : ∀ a, x = .ok a → (Succeeds (f a) ↔ p)) : Succeeds (x >>= f) ↔ Succeeds x ∧ p := by
  rw [succeeds_bind]
  constructor
  · rintro ⟨a, ha, hf⟩
    exact ⟨⟨a, ha⟩, (h a ha).mp hf⟩
  · rintro ⟨⟨a, ha⟩, hp⟩
    exact ⟨a, ha, (h a ha).mpr hp⟩

theorem succeeds_mapM {f : α → Except Failure β} {xs : List α} :
    Succeeds (xs.mapM f) ↔ ∀ x ∈ xs, Succeeds (f x) := by
  induction xs with
  | nil => simp
  | cons x rest ih =>
    rw [List.mapM_cons, List.forall_mem_cons, ← ih]
    constructor
    · intro h
      obtain ⟨y, hy, h⟩ := succeeds_bind.mp h
      obtain ⟨ys, hys, -⟩ := succeeds_bind.mp h
      exact ⟨⟨y, hy⟩, ⟨ys, hys⟩⟩
    · rintro ⟨⟨y, hy⟩, ys, hys⟩
      exact succeeds_bind.mpr ⟨y, hy, succeeds_bind.mpr ⟨ys, hys, succeeds_pure _⟩⟩

end Except

namespace Checked

variable {α β : Type}

theorem map_eq_ok {x : Checked α} {f : α → β} {b : β} :
    f <$> x = .ok b ↔ ∃ a, x = .ok a ∧ f a = b := by
  cases x with
  | wrong n =>
    constructor
    · intro h
      cases h
    · rintro ⟨a, ha, -⟩
      cases ha
  | ok a =>
    constructor
    · intro h
      cases h
      exact ⟨a, rfl, rfl⟩
    · rintro ⟨a', ha, h⟩
      cases ha
      exact congrArg Checked.ok h

theorem seq_eq_ok {f : Checked (α → β)} {x : Checked α} {b : β} :
    f <*> x = .ok b ↔ ∃ g a, f = .ok g ∧ x = .ok a ∧ g a = b := by
  constructor
  · intro h
    cases f with
    | wrong m => cases x <;> cases h
    | ok g =>
      cases x with
      | wrong n => cases h
      | ok a =>
        cases h
        exact ⟨g, a, rfl, rfl, rfl⟩
  · rintro ⟨g, a, rfl, rfl, h⟩
    exact congrArg Checked.ok h

theorem all_eq_ok {xs : List (Checked α)} {ys : List α} : all xs = .ok ys ↔ xs = ys.map .ok := by
  induction xs generalizing ys with
  | nil =>
    cases ys with
    | nil => simp [all]
    | cons y ys => simp [all]
  | cons x rest ih =>
    rw [all, seq_eq_ok]
    simp only [map_eq_ok, ih]
    constructor
    · rintro ⟨g, ys', ⟨y, rfl, rfl⟩, rfl, rfl⟩
      rfl
    · intro h
      cases ys with
      | nil => cases h
      | cons y ys' =>
        obtain ⟨hx, hrest⟩ := List.cons.inj h
        exact ⟨_, ys', ⟨y, hx, rfl⟩, hrest, rfl⟩

theorem toExcept_eq_ok {x : Checked α} {model : String} {a : α} :
    x.toExcept model = .ok a ↔ x = .ok a := by
  cases x with
  | ok b => simp [toExcept]
  | wrong n => simp [toExcept]

end Checked

namespace Check

/-- A mapping with texts as keys is an object as it is. -/
theorem object_ok {members : List (Scalar × Value)} (h : ∀ m ∈ members, ∃ s, m.1 = .str s) :
    object (.map members) = .ok (.map members) := by
  unfold object
  have hall : Checked.all (members.map fun m => (fun s => (Scalar.str s, m.2)) <$> text (.scalar m.1))
      = .ok members := by
    rw [Checked.all_eq_ok]
    refine List.map_congr_left fun m hm => ?_
    obtain ⟨s, hs⟩ := h m hm
    obtain ⟨k, v⟩ := m
    subst hs
    rfl
  show Value.map <$> Checked.all _ = _
  rw [hall]
  rfl

/-- The check of a member that is absent, or a text. -/
theorem perhaps_text {v : Value} {name : String} {s : Option String}
    (h : v.get? name = s.map .str) : perhaps text name v = .ok s := by
  unfold perhaps withDefault
  rw [h]
  cases s <;> rfl

end Check

end ApiContract
