import ApiContract.Proofs.Json.Leaves
import ApiContract.Proofs.Json.Written
import Mathlib.Data.List.Forall2

/-!
# Texts of values that are read back

The reader gives back every exact value from its text. It passes the blanks that the writer puts
before items and members, and fuel of twice the length of the text is enough: every item and every
member has a comma or a closing bracket behind it.

* **`readsBack_writeScalar`** — leaves.
* **`ReadsParts.read_intercalate`** — what stands in brackets, for items and members alike.
* **`rereads_list`** / **`rereads_map`** — brackets around values that are read back.
* **`Exact.rereads`** — the headline, by induction on the value.
* **`ReadsBack.readText`** — whole texts.
-/

namespace ApiContract.Json

variable {style : Style} {depth fuel : Nat} {text rest after blanks : List Char}

/-! ## Blanks -/

theorem skipSpace_append {c : Char} (hblanks : ∀ b ∈ blanks, isSpace b = true)
    (hc : isSpace c = false) (rest : List Char) :
    skipSpace (blanks ++ c :: rest) = c :: rest := by
  rw [skipSpace, List.dropWhile_append_of_pos hblanks, List.dropWhile_cons_of_neg (by simp [hc])]

theorem skipSpace_cons {c : Char} (hc : isSpace c = false) (rest : List Char) :
    skipSpace (c :: rest) = c :: rest := List.dropWhile_cons_of_neg (by simp [hc])

theorem isSpace_newLine (style : Style) (depth : Nat) :
    ∀ b ∈ newLine style depth, isSpace b = true := by
  intro b hb
  unfold newLine at hb
  split at hb
  · rcases List.mem_cons.mp hb with rfl | hb
    · rfl
    · rw [List.eq_of_mem_replicate hb]
      rfl
  · exact absurd hb List.not_mem_nil

/-- A blank ends a number, and so do a comma and a closing bracket. -/
theorem ends_cons {c : Char} (hc : isSpace c = true ∨ c = ',' ∨ c = ']' ∨ c = '\x7d')
    (rest : List Char) : Ends (c :: rest) := by
  intro d hd
  cases hd
  simp only [isSpace, Bool.or_eq_true, beq_iff_eq] at hc
  rcases hc with (((rfl | rfl) | rfl) | rfl) | rfl | rfl | rfl <;> decide

theorem ends_of_blanks {c : Char} (hblanks : ∀ b ∈ blanks, isSpace b = true)
    (hc : c = ',' ∨ c = ']' ∨ c = '\x7d') (rest : List Char) : Ends (blanks ++ c :: rest) := by
  cases blanks with
  | nil => exact ends_cons (.inr hc) rest
  | cons b blanks => exact ends_cons (.inl (hblanks b List.mem_cons_self)) _

/-! ## Leaves -/

/-- What the text of a value begins with: no blank, and no closing bracket. -/
def Begins (text : List Char) : Prop :=
  ∃ c tail, text = c :: tail ∧ isSpace c = false ∧ c ≠ ']' ∧ c ≠ '\x7d'

theorem BeginsAtom.begins {c : Char} (h : BeginsAtom c) (tail : List Char) : Begins (c :: tail) := by
  refine ⟨c, tail, rfl, ?_, h.ne (by decide), h.ne (by decide)⟩
  simp only [isSpace, Bool.or_eq_false_iff, beq_eq_false_iff_ne]
  exact ⟨⟨⟨h.ne (by decide), h.ne (by decide)⟩, h.ne (by decide)⟩, h.ne (by decide)⟩

/-- A text that is read as a value, and what follows it is left. -/
structure ReadsBack (text : List Char) (v : Value) : Prop where
  begins : Begins text
  read : ∀ {rest fuel}, Ends rest → 2 * text.length ≤ fuel →
    readValue fuel (text ++ rest) = .ok (v, rest)

theorem readsBack_of_readAtom {v : Value}
    (h : ∀ rest, Ends rest → readAtom (text ++ rest) = .ok (v, rest)) : ReadsBack text v := by
  -- with nothing behind it the text is an atom by itself, so it is not empty
  have hbegins := beginsAtom_of_readAtom (h [] fun c hc => absurd hc (Option.some_ne_none c).symm)
  rw [List.append_nil] at hbegins
  obtain ⟨c, tail, rfl, hc⟩ := hbegins
  refine ⟨hc.begins tail, fun {rest fuel} hrest hfuel => ?_⟩
  rw [List.length_cons] at hfuel
  obtain ⟨fuel, rfl⟩ : ∃ n, fuel = n + 1 := ⟨fuel - 1, by omega⟩
  exact readValue_of_readAtom (h rest hrest) fuel

theorem readsBack_writeString (asciiOnly : Bool) (s : String) :
    ReadsBack (writeString asciiOnly s) (.str s) := by
  refine ⟨⟨'"', _, rfl, by decide, by decide, by decide⟩, fun {rest fuel} _ hfuel => ?_⟩
  obtain ⟨fuel, rfl⟩ : ∃ n, fuel = n + 1 := ⟨fuel - 1, by
    simp only [writeString, List.length_cons, List.length_append] at hfuel
    omega⟩
  obtain ⟨text, htext, hread⟩ := readString_writeString asciiOnly s rest
  rw [htext, readValue, hread]
  show Except.ok (Value.str (String.ofList s.toList), rest) = _
  rw [String.ofList_toList]

/-- A leaf whose text is read back: an integer that is not too long, a number as rounding gives it. -/
def IsLegibleLeaf : Scalar → Prop
  | .null | .bool _ | .str _ => True
  | .int n => (toString n.natAbs).length ≤ Number.maxDigits
  | .float x => x.IsCanonical
  | .date _ | .dateTime _ | .bytes _ => False

theorem IsExactLeaf.legible {s : Scalar} (h : IsExactLeaf s) : IsLegibleLeaf s := by
  cases s with
  | float x =>
    cases x with
    | nan | infinite negative => exact h.elim
    | finite negative m e => exact h
  | null | bool b | int n | str s => exact h
  | date d | dateTime t | bytes b => exact h.elim

theorem readsBack_writeScalar {s : Scalar} (h : IsLegibleLeaf s)
    (htext : writeScalar style s = some text) : ReadsBack text (.scalar s) := by
  cases s with
  | null =>
    cases htext
    exact readsBack_of_readAtom fun rest _ => by simp [readAtom, words, dropWord?]
  | bool b =>
    cases htext
    cases b <;> exact readsBack_of_readAtom fun rest _ => by simp [readAtom, words, dropWord?]
  | int n => exact readsBack_of_readAtom fun rest hrest => readAtom_writeInt? htext hrest
  | float x =>
    cases htext
    exact readsBack_of_readAtom fun rest hrest => readAtom_writeDouble h hrest
  | str s =>
    cases htext
    exact readsBack_writeString style.asciiOnly s
  | date d => exact h.elim
  | dateTime t => exact h.elim
  | bytes b => exact h.elim

/-! ## Brackets -/

theorem Begins.append (h : Begins text) (rest : List Char) : Begins (text ++ rest) := by
  obtain ⟨c, tail, rfl, hc⟩ := h
  exact ⟨c, tail ++ rest, rfl, hc⟩

theorem Begins.skipSpace (h : Begins text) (hblanks : ∀ b ∈ blanks, isSpace b = true) :
    skipSpace (blanks ++ text) = text := by
  obtain ⟨c, tail, rfl, hc, -⟩ := h
  exact skipSpace_append hblanks hc tail

/-- A reader of parts with commas between them, up to a closing bracket: what it does behind the last
part, and behind any other. -/
structure ReadsParts {α : Type} (read : Nat → List Char → Except Fault (List α × List Char))
    (closing : Char) (IsPart : List Char → α → Prop) : Prop where
  begins : ∀ {part a}, IsPart part a → Begins part
  last : ∀ {part a rest after fuel}, IsPart part a → Ends rest → 2 * part.length ≤ fuel →
    skipSpace rest = closing :: after → read (fuel + 1) (part ++ rest) = .ok ([a], after)
  more : ∀ {part a rest next others after fuel}, IsPart part a → Ends rest →
    2 * part.length ≤ fuel → skipSpace rest = ',' :: next →
    read fuel (skipSpace next) = .ok (others, after) →
    read (fuel + 1) (part ++ rest) = .ok (a :: others, after)

theorem ReadsParts.begins_intercalate {α : Type}
    {read : Nat → List Char → Except Fault (List α × List Char)} {closing : Char}
    {IsPart : List Char → α → Prop} (h : ReadsParts read closing IsPart) (separator : List Char)
    {part : List Char} {a : α} (hpart : IsPart part a) (parts : List (List Char)) :
    Begins (separator.intercalate (part :: parts)) := by
  cases parts with
  | nil =>
    rw [List.intercalate_singleton]
    exact h.begins hpart
  | cons next parts =>
    rw [List.intercalate_cons_cons, List.append_assoc]
    exact (h.begins hpart).append _

/-- **What stands in brackets is read part by part.** -/
theorem ReadsParts.read_intercalate {α : Type}
    {read : Nat → List Char → Except Fault (List α × List Char)} {closing : Char}
    {IsPart : List Char → α → Prop} (h : ReadsParts read closing IsPart)
    (hclosing : closing = ']' ∨ closing = '\x7d') {blanks blanks' : List Char}
    (hblanks : ∀ b ∈ blanks, isSpace b = true) (hblanks' : ∀ b ∈ blanks', isSpace b = true)
    {parts : List (List Char)} {items : List α} (hparts : List.Forall₂ IsPart parts items)
    (hne : parts ≠ []) (after : List Char) {fuel : Nat}
    (hfuel : 2 * ((',' :: blanks).intercalate parts).length + 1 ≤ fuel) :
    read fuel ((',' :: blanks).intercalate parts ++ (blanks' ++ closing :: after))
      = .ok (items, after) := by
  have hspace : isSpace closing = false := by
    rcases hclosing with rfl | rfl <;> rfl
  induction hparts generalizing fuel with
  | nil => exact absurd rfl hne
  | @cons part a parts items hpart hrest ih =>
    obtain ⟨fuel, rfl⟩ : ∃ n, fuel = n + 1 := ⟨fuel - 1, by omega⟩
    cases hrest with
    | nil =>
      -- the closing bracket ends the last part
      rw [List.intercalate_singleton] at hfuel ⊢
      exact h.last hpart (ends_of_blanks hblanks' (.inr hclosing) after) (by omega)
        (skipSpace_append hblanks' hspace after)
    | @cons next b parts items hnext hrest =>
      -- a comma ends any other part, and pays for the step to the next one
      have hbegins := h.begins_intercalate (',' :: blanks) hnext parts
      have hothers := @ih (List.cons_ne_nil _ _) fuel
      rw [List.intercalate_cons_cons] at hfuel ⊢
      simp only [List.length_append, List.length_cons] at hfuel
      have hnextText := (hbegins.append (blanks' ++ closing :: after)).skipSpace hblanks
      rw [List.append_assoc, List.append_assoc, List.cons_append]
      refine h.more hpart (ends_cons (.inr (.inl rfl)) _) (by omega)
        (skipSpace_cons rfl _) ?_
      rw [hnextText]
      exact hothers (by omega)

/-- The text in brackets. -/
theorem bracket_cons (style : Style) (depth : Nat) (opening closing : Char) {parts : List (List Char)}
    (hne : parts ≠ []) :
    ∃ before between behind, (∀ b ∈ before, isSpace b = true) ∧ (∀ b ∈ between, isSpace b = true)
      ∧ (∀ b ∈ behind, isSpace b = true)
      ∧ bracket style depth opening closing parts
        = opening :: (before ++ ((',' :: between).intercalate parts ++ (behind ++ [closing]))) := by
  obtain ⟨part, parts, rfl⟩ := List.exists_cons_of_ne_nil hne
  obtain ⟨indent, asciiOnly, otherAsText⟩ := style
  have hbefore := isSpace_newLine ⟨indent, asciiOnly, otherAsText⟩ (depth + 1)
  have hbehind := isSpace_newLine ⟨indent, asciiOnly, otherAsText⟩ depth
  cases indent with
  | some width => exact ⟨_, _, _, hbefore, hbefore, hbehind, by simp [bracket]⟩
  | none => exact ⟨_, [' '], _, hbefore, by simp [isSpace], hbehind, by simp [bracket]⟩

/-! ## Items and members -/

theorem readsParts_items : ReadsParts readItems ']' ReadsBack where
  begins h := h.begins
  last h hends hfuel hclosing := by
    rw [readItems, h.read hends hfuel]
    simp only [bind, Except.bind, hclosing]
  more h hends hfuel hcomma hothers := by
    rw [readItems, h.read hends hfuel]
    simp only [bind, Except.bind, hcomma, hothers]

/-- The text of a member. -/
structure IsMember (asciiOnly : Bool) (name : String) (v : Value) (text first : List Char) :
    Prop where
  text_eq : text = writeString asciiOnly name ++ ':' :: ' ' :: first
  value : ReadsBack first v

/-- The name of a member is read, and then its value. -/
theorem IsMember.read {asciiOnly : Bool} {name : String} {v : Value} {first : List Char}
    (h : IsMember asciiOnly name v text first) (hends : Ends rest) (hfuel : 2 * text.length ≤ fuel) :
    ∃ behind, text ++ rest = '"' :: behind
      ∧ (∀ opened, readString opened behind = .ok (name.toList, ':' :: ' ' :: (first ++ rest)))
      ∧ readValue fuel (skipSpace (' ' :: (first ++ rest))) = .ok (v, rest) := by
  obtain ⟨behind, hbehind, hread⟩ :=
    readString_writeString asciiOnly name (':' :: ' ' :: (first ++ rest))
  have hvalue : skipSpace ([' '] ++ (first ++ rest)) = first ++ rest :=
    (h.value.begins.append rest).skipSpace (by simp [isSpace])
  rw [h.text_eq, List.length_append, List.length_cons, List.length_cons] at hfuel
  refine ⟨behind, ?_, hread, ?_⟩
  · rw [h.text_eq, ← hbehind, List.append_assoc]
    rfl
  · exact (congrArg _ hvalue).trans (h.value.read hends (by omega))

theorem readsParts_members (asciiOnly : Bool) :
    ReadsParts readMembers '\x7d' fun text m =>
      ∃ name first, m.1 = .str name ∧ IsMember asciiOnly name m.2 text first where
  begins := by
    rintro text m ⟨name, first, -, h⟩
    exact ⟨'"', _, h.text_eq, by decide, by decide, by decide⟩
  last := by
    rintro text ⟨k, v⟩ rest after fuel ⟨name, first, hname, h⟩ hends hfuel hclosing
    cases hname
    obtain ⟨behind, hbehind, hread, hvalue⟩ := h.read hends hfuel
    rw [hbehind, readMembers, hread]
    simp only [bind, Except.bind, skipSpace_cons (c := ':') rfl, hvalue, hclosing,
      String.ofList_toList]
  more := by
    rintro text ⟨k, v⟩ rest next others after fuel ⟨name, first, hname, h⟩ hends hfuel hcomma hothers
    cases hname
    obtain ⟨behind, hbehind, hread, hvalue⟩ := h.read hends hfuel
    rw [hbehind, readMembers, hread]
    simp only [bind, Except.bind, skipSpace_cons (c := ':') rfl, hvalue, hcomma, hothers,
      String.ofList_toList]

/-! ## Values -/

theorem forall₂_writeItems {items : List Value} {parts : List (List Char)}
    (h : ∀ v ∈ items, ∀ text, writeValue style depth v = some text → ReadsBack text v)
    (hparts : writeItems style depth items = some parts) : List.Forall₂ ReadsBack parts items := by
  induction items generalizing parts with
  | nil =>
    cases hparts
    exact .nil
  | cons v rest ih =>
    rw [writeItems] at hparts
    obtain ⟨first, hfirst, hparts⟩ := Option.bind_eq_some_iff.mp hparts
    obtain ⟨others, hothers, hparts⟩ := Option.bind_eq_some_iff.mp hparts
    cases hparts
    exact .cons (h v List.mem_cons_self first hfirst)
      (ih (fun v hv => h v (List.mem_cons_of_mem _ hv)) hothers)

theorem forall₂_writeMembers {members : Members} {parts : List (List Char)}
    (hkeys : ∀ m ∈ members, ∃ name, m.1 = .str name)
    (h : ∀ m ∈ members, ∀ text, writeValue style depth m.2 = some text → ReadsBack text m.2)
    (hparts : writeMembers style depth members = some parts) :
    List.Forall₂ (fun text m => ∃ name first, m.1 = .str name
      ∧ IsMember style.asciiOnly name m.2 text first) parts members := by
  induction members generalizing parts with
  | nil =>
    cases hparts
    exact .nil
  | cons m rest ih =>
    obtain ⟨name, hname⟩ := hkeys m List.mem_cons_self
    obtain ⟨k, v⟩ := m
    cases hname
    rw [writeMembers] at hparts
    obtain ⟨_, hname, hparts⟩ := Option.bind_eq_some_iff.mp hparts
    cases hname
    obtain ⟨first, hfirst, hparts⟩ := Option.bind_eq_some_iff.mp hparts
    obtain ⟨others, hothers, hparts⟩ := Option.bind_eq_some_iff.mp hparts
    cases hparts
    refine .cons ⟨name, first, rfl, rfl, h _ List.mem_cons_self first hfirst⟩ ?_
    exact ih (fun m hm => hkeys m (List.mem_cons_of_mem _ hm))
      (fun m hm => h m (List.mem_cons_of_mem _ hm)) hothers

theorem readValue_list {cs : List Char} {items : List Value} (hbegins : Begins (skipSpace cs))
    (h : readItems fuel (skipSpace cs) = .ok (items, after)) :
    readValue (fuel + 1) ('[' :: cs) = .ok (.list items, after) := by
  obtain ⟨c, tail, heq, -, hbracket, -⟩ := hbegins
  rw [heq] at h
  rw [readValue, heq]
  split
  · rename_i hc
    cases hc
    exact absurd rfl hbracket
  · rw [h]
    rfl

theorem readValue_map {cs : List Char} {members : Members} (hbegins : Begins (skipSpace cs))
    (h : readMembers fuel (skipSpace cs) = .ok (members, after)) :
    readValue (fuel + 1) ('\x7b' :: cs) = .ok (.map (Members.ofList members), after) := by
  obtain ⟨c, tail, heq, -, -, hbrace⟩ := hbegins
  rw [heq] at h
  rw [readValue, heq]
  split
  · rename_i hc
    cases hc
    exact absurd rfl hbrace
  · rw [h]
    rfl

/-- The parts in brackets are read, with fuel of twice the length of all. -/
theorem ReadsParts.read_bracket {α : Type}
    {read : Nat → List Char → Except Fault (List α × List Char)} {closing : Char}
    {IsPart : List Char → α → Prop} (h : ReadsParts read closing IsPart)
    (hclosing : closing = ']' ∨ closing = '\x7d') (opening : Char) {parts : List (List Char)}
    {items : List α} (hparts : List.Forall₂ IsPart parts items) (hne : parts ≠ [])
    (rest : List Char) (hfuel : 2 * (bracket style depth opening closing parts).length ≤ fuel) :
    ∃ cs fuel', fuel = fuel' + 1
      ∧ bracket style depth opening closing parts ++ rest = opening :: cs
      ∧ Begins (skipSpace cs) ∧ read fuel' (skipSpace cs) = .ok (items, rest) := by
  obtain ⟨before, between, behind, hbefore, hbetween, hbehind, heq⟩ :=
    bracket_cons style depth opening closing hne
  rw [heq] at hfuel ⊢
  simp only [List.length_cons, List.length_append] at hfuel
  have hbegins : Begins ((',' :: between).intercalate parts ++ (behind ++ closing :: rest)) := by
    cases hparts with
    | nil => exact absurd rfl hne
    | cons hpart _ => exact (h.begins_intercalate _ hpart _).append _
  refine ⟨before ++ ((',' :: between).intercalate parts ++ (behind ++ closing :: rest)), fuel - 1,
    by omega, by simp, ?_⟩
  rw [hbegins.skipSpace hbefore]
  exact ⟨hbegins, h.read_intercalate hclosing hbetween hbehind hparts hne rest (by omega)⟩

theorem begins_bracket {opening closing : Char} (hopening : opening = '[' ∨ opening = '\x7b')
    (parts : List (List Char)) : Begins (bracket style depth opening closing parts) := by
  have hall : ∀ tail, Begins (opening :: tail) := by
    rcases hopening with rfl | rfl
    · exact fun tail => ⟨_, tail, rfl, by decide, by decide, by decide⟩
    · exact fun tail => ⟨_, tail, rfl, by decide, by decide, by decide⟩
  cases parts with
  | nil => exact hall _
  | cons part parts => exact hall _

/-- Whatever text a value has, it is read back from it. -/
def Rereads (v : Value) : Prop :=
  ∀ {style depth text}, writeValue style depth v = some text → ReadsBack text v

theorem rereads_leaf {s : Scalar} (h : IsLegibleLeaf s) : Rereads (.scalar s) := by
  intro style depth text htext
  rw [writeValue] at htext
  exact readsBack_writeScalar h htext

theorem rereads_list {items : List Value} (h : ∀ v ∈ items, Rereads v) : Rereads (.list items) := by
  intro style depth text htext
  rw [writeValue] at htext
  obtain ⟨parts, hparts, rfl⟩ := Option.map_eq_some_iff.mp htext
  have hforall := forall₂_writeItems (fun v hv text => h v hv) hparts
  refine ⟨begins_bracket (.inl rfl) parts, fun {rest fuel} _ hfuel => ?_⟩
  by_cases hne : parts = []
  · subst hne
    cases hforall
    obtain ⟨fuel, rfl⟩ : ∃ n, fuel = n + 1 := ⟨fuel - 1, by simp [bracket] at hfuel; omega⟩
    show readValue (fuel + 1) ('[' :: ']' :: rest) = _
    rw [readValue, skipSpace_cons rfl]
    rfl
  · obtain ⟨cs, fuel, rfl, heq, hbegins, hread⟩ :=
      readsParts_items.read_bracket (.inl rfl) '[' hforall hne rest hfuel
    rw [heq, readValue_list hbegins hread]

theorem rereads_map {members : Members} (keys : ∀ m ∈ members, ∃ name, m.1 = .str name)
    (nodup : (members.map (·.1)).Nodup) (h : ∀ m ∈ members, Rereads m.2) :
    Rereads (.map members) := by
  intro style depth text htext
  rw [writeValue] at htext
  obtain ⟨parts, hparts, rfl⟩ := Option.map_eq_some_iff.mp htext
  have hforall := forall₂_writeMembers keys (fun m hm text => h m hm) hparts
  refine ⟨begins_bracket (.inr rfl) parts, fun {rest fuel} _ hfuel => ?_⟩
  by_cases hne : parts = []
  · subst hne
    cases hforall
    obtain ⟨fuel, rfl⟩ : ∃ n, fuel = n + 1 := ⟨fuel - 1, by simp [bracket] at hfuel; omega⟩
    show readValue (fuel + 1) ('\x7b' :: '\x7d' :: rest) = _
    rw [readValue, skipSpace_cons rfl]
    rfl
  · obtain ⟨cs, fuel, rfl, heq, hbegins, hread⟩ :=
      (readsParts_members style.asciiOnly).read_bracket (.inr rfl) '\x7b' hforall hne rest hfuel
    rw [heq, readValue_map hbegins hread, Members.ofList_of_nodup keys nodup]

/-- **An exact value is read back from its text.** -/
theorem Exact.rereads {v : Value} (h : Exact v) : Rereads v := by
  induction h with
  | leaf exact => exact rereads_leaf exact.legible
  | list _ ih => exact rereads_list ih
  | map keys nodup _ ih => exact rereads_map keys nodup ih

/-! ## Whole texts -/

theorem Begins.head?_ne (h : Begins text) (rest : List Char) {c : Char} (hc : ¬ text.head? = some c) :
    (text ++ rest).head? ≠ some c := by
  obtain ⟨d, tail, rfl, -⟩ := h
  exact hc

/-- The text of a mapping begins with a brace. -/
theorem exists_brace {members : Members} (h : writeValue style depth (.map members) = some text) :
    ∃ tail, text = '\x7b' :: tail := by
  rw [writeValue] at h
  obtain ⟨parts, -, rfl⟩ := Option.map_eq_some_iff.mp h
  cases parts with
  | nil => exact ⟨_, rfl⟩
  | cons part parts => exact ⟨_, rfl⟩

/-- **A text that reads back is a whole text**, also with blanks behind it. -/
theorem ReadsBack.readText {v : Value} (h : ReadsBack text v) (hmark : text.head? ≠ some '\ufeff')
    (hblanks : ∀ b ∈ blanks, isSpace b = true) : readText (text ++ blanks) = .ok v := by
  have hends : Ends blanks := by
    cases blanks with
    | nil => exact fun c hc => absurd hc (Option.some_ne_none c).symm
    | cons b blanks => exact ends_cons (.inl (hblanks b List.mem_cons_self)) _
  have hstart : skipSpace ([] ++ (text ++ blanks)) = text ++ blanks :=
    (h.begins.append blanks).skipSpace fun b hb => absurd hb List.not_mem_nil
  have hread : readValue (2 * (text ++ blanks).length + 2) (skipSpace (text ++ blanks))
      = .ok (v, blanks) := by
    have hfuel : 2 * text.length ≤ 2 * (text ++ blanks).length + 2 := by
      rw [List.length_append]
      omega
    exact (congrArg _ hstart).trans (h.read hends hfuel)
  have hrest : skipSpace blanks = [] := by
    rw [skipSpace, ← List.append_nil blanks, List.dropWhile_append_of_pos hblanks]
    rfl
  rw [Json.readText, if_neg (h.begins.head?_ne blanks hmark)]
  simp only [hread, bind, Except.bind, hrest]

end ApiContract.Json
