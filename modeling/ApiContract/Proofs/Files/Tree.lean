import ApiContract.Proofs.Checked
import ApiContract.Workspace
import Mathlib.Data.List.Basic

/-!
# Writing files

A write makes the directories on the way to its place and puts the file there; whatever else a path
leads to stays. So after many writes a path leads to what was written to its place last.

* **`makeDirectories_eq_ok`** — the directories on the way.
* **`write_eq_ok`** — one file.
* **`holds_writeAll`** — one file after another, by induction on the files.
* **`holds_writeAll_iff`** — when all of them are there in the end.
-/

namespace ApiContract.Files

/-! ## Paths -/

theorem Path.split_of_notMem {cs : List Char} (h : '/' ∉ cs) (part : List Char) :
    Path.split part cs = [part.reverse ++ cs] := by
  induction cs generalizing part with
  | nil => rw [Path.split, List.append_nil]
  | cons c rest ih =>
    obtain ⟨hc, hrest⟩ := not_or.mp fun hmem => h (List.mem_cons.mpr hmem)
    rw [Path.split, if_neg (Ne.symm hc), ih hrest, List.reverse_cons, List.append_assoc]
    rfl

/-- A text without a slash is one name. -/
theorem Path.ofString_of_notMem {s : String} (h : '/' ∉ s.toList) (hname : Path.isName s = true) :
    Path.ofString s = { parts := [s] } := by
  have hanchor : Path.anchorOf s.toList = "" := by
    cases hs : s.toList with
    | nil => rfl
    | cons c rest =>
      have hc : (c == '/') = false := by
        rw [hs] at h
        simpa using fun heq : c = '/' => h (by rw [heq]; exact List.mem_cons_self)
      unfold Path.anchorOf
      rw [List.takeWhile_cons, hc]
      rfl
  unfold Path.ofString
  rw [hanchor, Path.split_of_notMem h]
  simp [hname]

theorem Path.child_of_notMem (base : Path) {s : String} (h : '/' ∉ s.toList)
    (hname : Path.isName s = true) : base.child s = { base with parts := base.parts ++ [s] } := by
  unfold Path.child
  rw [Path.ofString_of_notMem h hname, Path.join_of_anchor_eq rfl]

namespace Tree

variable {t t' : Tree} {here place : Place} {names : List String} {p q : Path} {text : String}
  {entry : Entry}

/-! ## Entries -/

theorem lookup_filter_ne {entries : List (Place × Entry)} (h : here ≠ place) :
    (entries.filter (·.1 != place)).lookup here = entries.lookup here := by
  induction entries with
  | nil => rfl
  | cons e rest ih =>
    obtain ⟨at_, found⟩ := e
    rw [List.filter_cons]
    by_cases hat : at_ = place
    · have hne : (here == at_) = false := by simpa [hat] using h
      rw [List.lookup_cons, hne]
      simpa [hat] using ih
    · have hkeep : (at_ != place) = true := by simpa using hat
      rw [if_pos hkeep, List.lookup_cons, List.lookup_cons, ih]

/-- Putting an entry somewhere changes nothing elsewhere. -/
theorem lookup_set_of_ne (h : here ≠ place) : (t.set place entry).lookup here = t.lookup here := by
  unfold lookup set
  have hne : (here == place) = false := by simpa using h
  rw [List.lookup_cons, hne, lookup_filter_ne h]

@[simp] theorem lookup_nil : t.lookup [] = some .directory := by
  unfold lookup
  rw [if_pos rfl]

theorem isDirectory_iff : t.isDirectory place = true ↔ t.lookup place = some .directory := by
  unfold isDirectory
  rw [beq_iff_eq]

/-! ## Places -/

/-- The place that names lead to from the root. -/
def placeOf (names : List String) : Place := names.foldl step []

theorem foldl_step_of_follow (h : t.follow here names = .ok (some place)) :
    names.foldl step here = place := by
  induction names generalizing here with
  | nil =>
    cases h
    rfl
  | cons name rest ih =>
    rw [follow] at h
    split at h
    · cases h
    · split at h
      · cases h
      · exact ih h

/-- A place is still reached when all directories are. -/
theorem follow_mono (hdirectories : ∀ d, t.isDirectory d = true → t'.isDirectory d = true)
    (h : t.follow here names = .ok (some place)) : t'.follow here names = .ok (some place) := by
  induction names generalizing here with
  | nil => exact h
  | cons name rest ih =>
    rw [follow] at h ⊢
    split at h
    · cases h
    · rename_i hhere
      split at h
      · cases h
      · rename_i hsize
        have hthere := hdirectories here (by simpa using hhere)
        rw [hthere, if_neg (by decide), if_neg hsize]
        exact ih h

/-- One more name, from a directory. -/
theorem follow_concat {name : String} (h : t.follow here names = .ok (some place))
    (hplace : t.isDirectory place = true) (hsize : name.utf8ByteSize ≤ maxNameSize) :
    t.follow here (names ++ [name]) = .ok (some (step place name)) := by
  induction names generalizing here with
  | nil =>
    cases h
    rw [List.nil_append, follow, hplace, if_neg (by decide), if_neg (by omega)]
    rfl
  | cons n rest ih =>
    rw [follow] at h
    rw [List.cons_append, follow]
    split at h
    · cases h
    · rename_i hhere
      rw [if_neg hhere]
      split at h
      · cases h
      · rename_i hname
        rw [if_neg hname]
        exact ih h

/-- Names can be followed if none of them is too long. -/
theorem exists_follow (h : ∀ name ∈ names, name.utf8ByteSize ≤ maxNameSize) :
    ∃ found, t.follow here names = .ok found := by
  induction names generalizing here with
  | nil => exact ⟨some here, rfl⟩
  | cons name rest ih =>
    obtain ⟨hname, hrest⟩ := List.forall_mem_cons.mp h
    rw [follow, if_neg (Nat.not_lt.mpr hname)]
    split
    · exact ⟨none, rfl⟩
    · exact ih hrest

/-- What leads to a directory starts at one. -/
theorem isDirectory_of_follow (h : t.follow here names = .ok (some place))
    (hplace : t.isDirectory place = true) : t.isDirectory here = true := by
  cases names with
  | nil =>
    cases h
    exact hplace
  | cons name rest =>
    rw [follow] at h
    split at h
    · cases h
    · rename_i hhere
      simpa using hhere

/-- A name is followed from a directory. -/
theorem exists_directory_of_follow {name : String}
    (h : t.follow here (names ++ [name]) = .ok (some place)) :
    ∃ directory, t.follow here names = .ok (some directory) ∧ t.isDirectory directory = true := by
  induction names generalizing here with
  | nil =>
    rw [List.nil_append, follow] at h
    split at h
    · cases h
    · rename_i hhere
      exact ⟨here, rfl, by simpa using hhere⟩
  | cons n rest ih =>
    rw [List.cons_append, follow] at h
    rw [follow]
    split at h
    · cases h
    · rename_i hhere
      rw [if_neg hhere]
      split at h
      · cases h
      · rename_i hname
        rw [if_neg hname]
        exact ih h

theorem find?_eq_some_iff :
    t.find? p = .ok (some entry)
      ↔ isPossible p = true ∧ ∃ place, t.follow [] p.parts = .ok (some place)
          ∧ t.lookup place = some entry := by
  unfold find?
  cases hpossible : isPossible p with
  | false =>
    constructor
    · intro h
      cases h
    · rintro ⟨h, -⟩
      cases h
  | true =>
    constructor
    · intro h
      obtain ⟨found, hfound, h⟩ := bind_eq_ok.mp h
      obtain ⟨place, rfl, hplace⟩ := Option.bind_eq_some_iff.mp (Except.ok.inj h)
      exact ⟨rfl, place, hfound, hplace⟩
    · rintro ⟨-, place, hfollow, hplace⟩
      show (t.follow [] p.parts >>= _) = _
      rw [hfollow]
      exact congrArg Except.ok hplace

theorem lookup_of_find? (h : t.find? p = .ok (some entry)) :
    t.lookup (placeOf p.parts) = some entry := by
  obtain ⟨-, place, hfollow, hlookup⟩ := find?_eq_some_iff.mp h
  unfold placeOf
  rwa [foldl_step_of_follow hfollow]

/-! ## Writing -/

/-- Nothing that a tree holds is changed; there may be more. -/
def Keeps (t t' : Tree) : Prop :=
  ∀ place entry, t.lookup place = some entry → t'.lookup place = some entry

theorem Keeps.refl (t : Tree) : Keeps t t := fun _ _ h => h

theorem Keeps.trans {t'' : Tree} (h : Keeps t t') (h' : Keeps t' t'') : Keeps t t'' :=
  fun place entry hlookup => h' place entry (h place entry hlookup)

theorem Keeps.isDirectory (h : Keeps t t') (hplace : t.isDirectory place = true) :
    t'.isDirectory place = true :=
  isDirectory_iff.mpr (h _ _ (isDirectory_iff.mp hplace))

/-- Making a directory where nothing stands. -/
theorem keeps_set (h : t.lookup place = none) : Keeps t (t.set place .directory) := by
  intro place' entry hlookup
  rwa [lookup_set_of_ne]
  rintro rfl
  rw [h] at hlookup
  cases hlookup

/-- **Making directories** keeps everything, and leads to a directory. Induction on the names. -/
theorem makeDirectories_eq_ok (hhere : t.isDirectory here = true)
    (h : t.makeDirectories here names = .ok (t', place)) :
    Keeps t t' ∧ t'.follow here names = .ok (some place) ∧ t'.isDirectory place = true := by
  induction names generalizing t here with
  | nil =>
    cases h
    exact ⟨.refl _, rfl, hhere⟩
  | cons name rest ih =>
    rw [makeDirectories] at h
    split at h
    · cases h
    · rename_i hsize
      -- the name leads to a directory of a tree that keeps everything
      have hnext : ∃ t'', Keeps t t'' ∧ t''.isDirectory (step here name) = true
          ∧ t''.makeDirectories (step here name) rest = .ok (t', place) := by
        split at h
        · rename_i hlookup
          exact ⟨t, .refl t, isDirectory_iff.mpr hlookup, h⟩
        · cases h
        · rename_i hlookup
          refine ⟨_, keeps_set hlookup, isDirectory_iff.mpr (lookup_set_self ?_), h⟩
          intro hroot
          rw [hroot, lookup_nil] at hlookup
          cases hlookup
      obtain ⟨t'', hkeeps, hdirectory, hmake⟩ := hnext
      obtain ⟨hkeeps', hfollow, hplace⟩ := ih hdirectory hmake
      refine ⟨hkeeps.trans hkeeps', ?_, hplace⟩
      have hthere := (hkeeps.trans hkeeps').isDirectory hhere
      rw [follow, hthere, if_neg (by decide), if_neg hsize]
      exact hfollow

/-- Directories are made along names of which none is too long. -/
theorem size_of_makeDirectories {made : Tree × Place} (h : t.makeDirectories here names = .ok made) :
    ∀ name ∈ names, name.utf8ByteSize ≤ maxNameSize := by
  induction names generalizing t here with
  | nil => exact fun name hname => absurd hname List.not_mem_nil
  | cons name rest ih =>
    rw [makeDirectories] at h
    split at h
    · cases h
    · rename_i hsize
      refine List.forall_mem_cons.mpr ⟨Nat.not_lt.mp hsize, ?_⟩
      split at h
      · exact ih h
      · cases h
      · exact ih h

/-- Directories that are there need not be made. -/
theorem makeDirectories_of_follow (h : t.follow here names = .ok (some place))
    (hplace : t.isDirectory place = true) : t.makeDirectories here names = .ok (t, place) := by
  induction names generalizing here with
  | nil =>
    cases h
    rfl
  | cons name rest ih =>
    rw [follow] at h
    split at h
    · cases h
    · split at h
      · cases h
      · rename_i hsize
        have hnext := isDirectory_iff.mp (isDirectory_of_follow h hplace)
        rw [makeDirectories, if_neg hsize, hnext]
        exact ih h

/-- Whether a file can be written does not depend on its text. -/
theorem exists_write (h : t.write p text = .ok t') (other : String) :
    ∃ t'', t.write p other = .ok t'' := by
  unfold write at h ⊢
  dsimp only at h ⊢
  split at h
  · cases h
  · rename_i hname
    obtain ⟨⟨made, directory⟩, hmake, h⟩ := bind_eq_ok.mp h
    dsimp only at h
    split at h
    · cases h
    · rename_i hfree
      rw [if_neg hname]
      exact ⟨_, bind_eq_ok.mpr ⟨_, hmake, if_neg hfree⟩⟩

theorem makeDirectories_eq_error {cause : Failure}
    (h : t.makeDirectories here names = .error cause) : cause = .unexpected := by
  induction names generalizing t here with
  | nil => cases h
  | cons name rest ih =>
    rw [makeDirectories] at h
    split at h
    · cases h
      rfl
    · split at h
      · exact ih h
      · cases h
        rfl
      · exact ih h

theorem write_eq_error {cause : Failure} (h : t.write p text = .error cause) :
    cause = .unexpected := by
  unfold write at h
  dsimp only at h
  split at h
  · cases h
    rfl
  · rcases bind_eq_error.mp h with hmake | ⟨⟨made, directory⟩, -, h⟩
    · exact makeDirectories_eq_error hmake
    · dsimp only at h
      split at h
      · cases h
        rfl
      · cases h

/-- What a write does: every path to the place leads to the file, and every other path to what it
led to. -/
structure Written (t t' : Tree) (p : Path) (text : String) : Prop where
  found : t'.find? p = .ok (some (.file text))
  replaced : ∀ q old, t.find? q = .ok (some old) → placeOf q.parts = placeOf p.parts →
    t'.find? q = .ok (some (.file text))
  kept : ∀ q old, t.find? q = .ok (some old) → placeOf q.parts ≠ placeOf p.parts →
    t'.find? q = .ok (some old)

/-- **Writing a file.** -/
theorem write_eq_ok (h : t.write p text = .ok t') : Written t t' p text := by
  unfold write at h
  dsimp only at h
  split at h
  · cases h
  · rename_i hname
    simp only [Bool.or_eq_true, decide_eq_true_eq, not_or, Bool.not_eq_true', Bool.not_eq_false,
      Nat.not_lt] at hname
    obtain ⟨⟨⟨hpossible, hempty⟩, hdots⟩, hsize⟩ := hname
    obtain ⟨⟨made, directory⟩, hmake, h⟩ := bind_eq_ok.mp h
    dsimp only at h
    split at h
    · cases h
    · rename_i hfree
      cases h
      obtain ⟨hkeeps, hfollow, hdirectory⟩ := makeDirectories_eq_ok (isDirectory_iff.mpr lookup_nil) hmake
      -- the path is that of the directory and one name more
      have hparts : p.parts = p.parts.dropLast ++ [p.name] := by
        unfold Path.name at hempty ⊢
        cases hlast : p.parts.getLast? with
        | none =>
          rw [hlast] at hempty
          exact absurd rfl hempty
        | some name => exact (List.dropLast_append_getLast? _ hlast).symm
      have hstep : step directory p.name = directory ++ [p.name] := if_neg hdots
      have hdirectories : ∀ d, made.isDirectory d = true →
          (made.set (directory ++ [p.name]) (.file text)).isDirectory d = true := by
        intro d hd
        have hne : d ≠ directory ++ [p.name] := by
          rintro rfl
          exact hfree hd
        rw [isDirectory_iff] at hd ⊢
        rwa [lookup_set_of_ne hne]
      have hplace : (made.set (directory ++ [p.name]) (.file text)).follow [] p.parts
          = .ok (some (directory ++ [p.name])) := by
        have hname : p.name.utf8ByteSize ≤ maxNameSize := by omega
        have hconcat := follow_concat (follow_mono hdirectories hfollow)
          (hdirectories _ hdirectory) hname
        rwa [← hparts, hstep] at hconcat
      have hself : (made.set (directory ++ [p.name]) (.file text)).lookup (directory ++ [p.name])
          = some (.file text) := lookup_set_self (by simp)
      have hplaceOf : placeOf p.parts = directory ++ [p.name] := foldl_step_of_follow hplace
      have hmono : ∀ q place, t.follow [] q = .ok (some place) →
          (made.set (directory ++ [p.name]) (.file text)).follow [] q = .ok (some place) :=
        fun q place hq => follow_mono (fun d hd => hdirectories d (hkeeps.isDirectory hd)) hq
      refine ⟨find?_eq_some_iff.mpr ⟨hpossible, _, hplace, hself⟩, ?_, ?_⟩
      · intro q old hq hsame
        obtain ⟨hqpossible, place, hqfollow, -⟩ := find?_eq_some_iff.mp hq
        have hqplace : place = directory ++ [p.name] := by
          rw [← hplaceOf, ← hsame]
          exact (foldl_step_of_follow hqfollow).symm
        subst hqplace
        exact find?_eq_some_iff.mpr ⟨hqpossible, _, hmono _ _ hqfollow, hself⟩
      · intro q old hq hother
        obtain ⟨hqpossible, place, hqfollow, hqlookup⟩ := find?_eq_some_iff.mp hq
        have hqplace : place ≠ directory ++ [p.name] := by
          rintro rfl
          exact hother ((foldl_step_of_follow hqfollow).trans hplaceOf.symm)
        refine find?_eq_some_iff.mpr ⟨hqpossible, place, hmono _ _ hqfollow, ?_⟩
        rw [lookup_set_of_ne hqplace]
        exact hkeeps _ _ hqlookup

end Tree

end ApiContract.Files

namespace ApiContract.Workspace

open Files (Entry Path Place Tree)

variable {w w' : Workspace} {p : Path} {text : String} {files : List (Path × String)}

/-! ## Files of a workspace -/

/-- The place that a path leads to in a workspace. -/
def placeOf (w : Workspace) (p : Path) : Place := Tree.placeOf (w.absolute p).parts

/-- A path leads to a file with this text. -/
def Holds (w : Workspace) (p : Path) (text : String) : Prop :=
  w.files.find? (w.absolute p) = .ok (some (.file text))

theorem Holds.lookup (h : w.Holds p text) : w.files.lookup (w.placeOf p) = some (.file text) :=
  Tree.lookup_of_find? h

/-- Writing a file changes the files alone. -/
theorem write_eq_ok (h : w.write p text = .ok w') :
    w'.directory = w.directory ∧ Tree.Written w.files w'.files (w.absolute p) text := by
  unfold write at h
  obtain ⟨files, hfiles, h⟩ := bind_eq_ok.mp h
  cases h
  exact ⟨rfl, Tree.write_eq_ok hfiles⟩

theorem placeOf_congr (h : w'.directory = w.directory) (p : Path) : w'.placeOf p = w.placeOf p := by
  unfold placeOf absolute
  rw [h]

/-- The first of some files is written, then the others. -/
theorem writeAll_cons {f : Path × String} {rest : List (Path × String)}
    (h : w.writeAll (f :: rest) = (.ok (), w')) :
    ∃ w'', w.write f.1 f.2 = .ok w'' ∧ w''.writeAll rest = (.ok (), w') := by
  rw [writeAll] at h
  split at h
  · rename_i w'' hwrite
    exact ⟨w'', hwrite, h⟩
  · cases h

theorem directory_writeAll (h : w.writeAll files = (.ok (), w')) : w'.directory = w.directory := by
  induction files generalizing w with
  | nil =>
    cases h
    rfl
  | cons f rest ih =>
    obtain ⟨w'', hwrite, hrest⟩ := writeAll_cons h
    exact (ih hrest).trans (write_eq_ok hwrite).1

/-- A file stays, unless another one is written to its place. Induction on the files. -/
theorem holds_writeAll (h : w.writeAll files = (.ok (), w')) (hp : w.Holds p text) :
    w'.Holds p text ∨ ∃ f ∈ files, w.placeOf f.1 = w.placeOf p ∧ w'.Holds p f.2 := by
  induction files generalizing w text with
  | nil =>
    cases h
    exact .inl hp
  | cons f rest ih =>
    obtain ⟨w'', hwrite, hrest⟩ := writeAll_cons h
    obtain ⟨hdirectory, hwritten⟩ := write_eq_ok hwrite
    have habsolute : w''.absolute p = w.absolute p := by
      unfold absolute
      rw [hdirectory]
    by_cases hplace : w.placeOf p = w.placeOf f.1
    · have hnow : w''.Holds p f.2 := by
        unfold Holds
        rw [habsolute]
        exact hwritten.replaced _ _ hp hplace
      rcases ih hrest hnow with hend | ⟨g, hg, hsame, hend⟩
      · exact .inr ⟨f, List.mem_cons_self, hplace.symm, hend⟩
      · rw [placeOf_congr hdirectory, placeOf_congr hdirectory] at hsame
        exact .inr ⟨g, List.mem_cons_of_mem f hg, hsame, hend⟩
    · have hnow : w''.Holds p text := by
        unfold Holds
        rw [habsolute]
        exact hwritten.kept _ _ hp hplace
      rcases ih hrest hnow with hend | ⟨g, hg, hsame, hend⟩
      · exact .inl hend
      · rw [placeOf_congr hdirectory, placeOf_congr hdirectory] at hsame
        exact .inr ⟨g, List.mem_cons_of_mem f hg, hsame, hend⟩

/-- In the end, every path leads to something that was written to its place. -/
theorem exists_holds_writeAll (h : w.writeAll files = (.ok (), w')) :
    ∀ f ∈ files, ∃ g ∈ files, w.placeOf g.1 = w.placeOf f.1 ∧ w'.Holds f.1 g.2 := by
  induction files generalizing w with
  | nil => exact fun f hf => absurd hf List.not_mem_nil
  | cons f rest ih =>
    obtain ⟨w'', hwrite, hrest⟩ := writeAll_cons h
    obtain ⟨hdirectory, hwritten⟩ := write_eq_ok hwrite
    intro g hg
    rcases List.mem_cons.mp hg with rfl | hg
    · have hnow : w''.Holds g.1 g.2 := by
        unfold Holds absolute
        rw [hdirectory]
        exact hwritten.found
      rcases holds_writeAll hrest hnow with hend | ⟨g', hg', hsame, hend⟩
      · exact ⟨g, List.mem_cons_self, rfl, hend⟩
      · rw [placeOf_congr hdirectory, placeOf_congr hdirectory] at hsame
        exact ⟨g', List.mem_cons_of_mem g hg', hsame, hend⟩
    · obtain ⟨g', hg', hsame, hend⟩ := ih hrest g hg
      rw [placeOf_congr hdirectory, placeOf_congr hdirectory] at hsame
      exact ⟨g', List.mem_cons_of_mem f hg', hsame, hend⟩

/-- **All files are there in the end** exactly if those at one place have one text. -/
theorem holds_writeAll_iff (h : w.writeAll files = (.ok (), w')) :
    (∀ f ∈ files, w'.Holds f.1 f.2)
      ↔ ∀ f ∈ files, ∀ g ∈ files, w.placeOf f.1 = w.placeOf g.1 → f.2 = g.2 := by
  have hdirectory := directory_writeAll h
  constructor
  · intro hall f hf g hg hplace
    have hlookup := (hall f hf).lookup
    rw [placeOf_congr hdirectory, hplace, ← placeOf_congr hdirectory, (hall g hg).lookup] at hlookup
    exact (Entry.file.inj (Option.some.inj hlookup)).symm
  · intro hone f hf
    obtain ⟨g, hg, hplace, hend⟩ := exists_holds_writeAll h f hf
    rwa [hone f hf g hg hplace.symm]

end ApiContract.Workspace
