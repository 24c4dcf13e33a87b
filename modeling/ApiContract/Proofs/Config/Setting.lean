import ApiContract.Proofs.Config.Global
import ApiContract.Proofs.Files.Tree

/-!
# Setting one value of the user's configuration

The configuration is read, changed at one place, checked and written back, and each of the four can
fail. What is written can be read again, and is the configuration that was answered; a failure leaves
the workspace as it was, and is a refusal with a reason unless the file cannot be opened or written,
or the text of the value has an integer in it that is too long to be read.

* **`globalConfig_saveGlobalConfig`** — what was saved is what is loaded.
* **`setGlobalConfig_eq_ok`** / **`setGlobalConfig_eq_error`** — what a setting does.
* **`changeSetting_atomic_iff`** — the headline: when a setting is all or nothing.
-/

namespace ApiContract.Files

theorem Path.parts_join_concat (base p : Path) (name : String) :
    (base.join { p with parts := p.parts ++ [name] }).parts = (base.join p).parts ++ [name] := by
  unfold Path.join
  dsimp only
  split
  · exact (List.append_assoc _ _ _).symm
  · rfl

/-- A path can be read, also where no file is, unless a name of it is too long. -/
theorem Tree.exists_read? {t : Tree} {p : Path}
    (h : ∀ name ∈ p.parts, name.utf8ByteSize ≤ maxNameSize) : ∃ text, t.read? p = .ok text := by
  obtain ⟨entry, hentry⟩ : ∃ entry, t.find? p = .ok entry := by
    obtain ⟨found, hfound⟩ : ∃ found, t.follow [] p.parts = .ok found := Tree.exists_follow h
    unfold find?
    split
    · exact ⟨none, rfl⟩
    · exact ⟨_, bind_eq_ok.mpr ⟨found, hfound, rfl⟩⟩
  unfold read?
  rw [hentry]
  cases entry with
  | none => exact ⟨none, rfl⟩
  | some entry => cases entry with
    | file text => exact ⟨_, rfl⟩
    | directory => exact ⟨none, rfl⟩

end ApiContract.Files

namespace ApiContract.Workspace

open Config (Apart Global valueAt?)
open Files (Path Tree)

variable {w w' : Workspace} {file : Path} {g old changed : Global} {key text : String}

/-! ## The file of the configuration -/

/-- Where the configuration is kept. -/
def configFile (w : Workspace) : Path := (w.ownDirectory .config).child "config.json"

theorem parts_configFile (w : Workspace) :
    (w.absolute w.configFile).parts
      = (w.absolute (w.ownDirectory .config)).parts ++ ["config.json"] := by
  unfold configFile absolute
  rw [Path.child_of_notMem _ (by decide) (by decide), Path.parts_join_concat]

theorem globalFile_eq_ok :
    w.globalFile = .ok file ↔ w.configFile = file
      ∧ ∃ made, w.files.makeDirectories [] (w.absolute (w.ownDirectory .config)).parts
        = .ok made := by
  unfold globalFile openDirectory
  dsimp only
  constructor
  · intro h
    obtain ⟨directory, hdirectory, h⟩ := bind_eq_ok.mp h
    obtain ⟨made, hmade, hown⟩ := bind_eq_ok.mp hdirectory
    cases hown
    exact ⟨Except.ok.inj h, made, hmade⟩
  · rintro ⟨rfl, made, hmade⟩
    exact bind_eq_ok.mpr ⟨_, bind_eq_ok.mpr ⟨made, hmade, rfl⟩, rfl⟩

/-- A directory that cannot be opened gives no reason. -/
theorem globalFile_eq_error {cause : Failure} (h : w.globalFile = .error cause) :
    cause = .unexpected := by
  rcases bind_eq_error.mp h with hdirectory | ⟨directory, -, h⟩
  · rcases bind_eq_error.mp hdirectory with hmake | ⟨made, -, h⟩
    · exact Tree.makeDirectories_eq_error hmake
    · cases h
  · cases h

/-- A file of which the directory can be opened can be read. -/
theorem exists_read_globalFile (h : w.globalFile = .ok file) :
    ∃ stored, w.read? file = .ok stored := by
  obtain ⟨rfl, made, hmade⟩ := globalFile_eq_ok.mp h
  refine Tree.exists_read? ?_
  rw [parts_configFile]
  intro name hname
  rcases List.mem_append.mp hname with hname | hname
  · exact Tree.size_of_makeDirectories hmade name hname
  · rw [List.mem_singleton.mp hname]
    decide

theorem globalConfig_eq_ok :
    w.globalConfig = .ok g ↔ ∃ file stored, w.globalFile = .ok file ∧ w.read? file = .ok stored
      ∧ Global.ofFile file.text stored = .ok g := by
  unfold globalConfig
  constructor
  · intro h
    obtain ⟨file, hfile, h⟩ := bind_eq_ok.mp h
    obtain ⟨stored, hstored, h⟩ := bind_eq_ok.mp h
    exact ⟨file, stored, hfile, hstored, h⟩
  · rintro ⟨file, stored, hfile, hstored, h⟩
    exact bind_eq_ok.mpr ⟨file, hfile, bind_eq_ok.mpr ⟨stored, hstored, h⟩⟩

/-- A configuration that is loaded can be stored. -/
theorem storable_of_globalConfig (h : w.globalConfig = .ok g) : g.Storable := by
  obtain ⟨file, stored, -, -, h⟩ := globalConfig_eq_ok.mp h
  exact Global.storable_of_ofFile h

/-- **What was saved is what is loaded.** The directories of the file are there, and the file has the
text of the configuration. -/
theorem globalConfig_saveGlobalConfig (hg : g.Storable) (h : w.saveGlobalConfig g = .ok w') :
    w'.globalConfig = .ok g := by
  unfold saveGlobalConfig at h
  obtain ⟨file, hfile, h⟩ := bind_eq_ok.mp h
  obtain ⟨rfl, -, -⟩ := globalFile_eq_ok.mp hfile
  obtain ⟨files, hfiles, h⟩ := bind_eq_ok.mp h
  cases h
  have hfound := (Tree.write_eq_ok hfiles).found
  have hopen : ({ w with files } : Workspace).globalFile = .ok w.configFile := by
    obtain ⟨-, place, hfollow, -⟩ := Tree.find?_eq_some_iff.mp hfound
    rw [parts_configFile] at hfollow
    obtain ⟨directory, hthere, hdirectory⟩ := Tree.exists_directory_of_follow hfollow
    exact globalFile_eq_ok.mpr ⟨rfl, _, Tree.makeDirectories_of_follow hthere hdirectory⟩
  have hread : ({ w with files } : Workspace).read? w.configFile
      = .ok (some (String.ofList (Text.unifyLineEnds g.text.toList))) := by
    show files.read? (w.absolute w.configFile) = _
    unfold Tree.read?
    rw [hfound]
    rfl
  exact globalConfig_eq_ok.mpr ⟨_, _, hopen, hread, Global.ofFile_text hg _⟩

theorem saveGlobalConfig_eq_error {cause : Failure} (h : w.saveGlobalConfig g = .error cause) :
    cause = .unexpected := by
  rcases bind_eq_error.mp h with hfile | ⟨file, -, hwrite⟩
  · exact globalFile_eq_error hfile
  · rcases bind_eq_error.mp hwrite with hfiles | ⟨files, -, h⟩
    · exact Tree.write_eq_error hfiles
    · cases h

/-! ## A setting -/

/-- Some configuration can be saved. -/
def CanSave (w : Workspace) : Prop := ∃ g w', w.saveGlobalConfig g = .ok w'

/-- If one configuration can be saved, then every one can. -/
theorem CanSave.save (h : w.CanSave) (g : Global) : ∃ w', w.saveGlobalConfig g = .ok w' := by
  obtain ⟨g', w', h⟩ := h
  unfold saveGlobalConfig at h ⊢
  obtain ⟨file, hfile, h⟩ := bind_eq_ok.mp h
  obtain ⟨files, hfiles, -⟩ := bind_eq_ok.mp h
  obtain ⟨files', hfiles'⟩ := Tree.exists_write hfiles g.text
  exact ⟨_, bind_eq_ok.mpr ⟨file, hfile, bind_eq_ok.mpr ⟨files', hfiles', rfl⟩⟩⟩

/-- The file cannot be opened, or there is something to be saved and it cannot be. -/
inductive Blocked (w : Workspace) (key text : String) : Prop where
  | opening (h : ∀ file, w.globalFile ≠ .ok file)
  | saving {old changed : Global} (stored : w.globalConfig = .ok old)
      (set : old.set key text = .ok changed) (h : ¬ w.CanSave)

/-- The key leads to a setting, and the text is read up to an integer with too many digits. -/
def TooLong (w : Workspace) (key text : String) : Prop :=
  ∃ old count, w.globalConfig = .ok old ∧ old.Known key
    ∧ Json.read text = .error (.tooManyDigits count)

theorem setGlobalConfig_eq_ok (h : w.setGlobalConfig key text = .ok (changed, w')) :
    ∃ old, w.globalConfig = .ok old ∧ old.set key text = .ok changed
      ∧ w.saveGlobalConfig changed = .ok w' := by
  unfold setGlobalConfig at h
  obtain ⟨old, hold, h⟩ := bind_eq_ok.mp h
  obtain ⟨changed, hset, h⟩ := bind_eq_ok.mp h
  obtain ⟨w', hsave, h⟩ := bind_eq_ok.mp h
  cases h
  exact ⟨old, hold, hset, hsave⟩

/-- A file that is no configuration is refused with the reason. -/
theorem globalConfig_eq_error {cause : Failure} (hfile : w.globalFile = .ok file)
    (h : w.globalConfig = .error cause) : ∃ problem, cause = .config problem := by
  obtain ⟨stored, hstored⟩ := exists_read_globalFile hfile
  have hload : w.globalConfig = Global.ofFile file.text stored := by
    unfold globalConfig
    rw [hfile]
    show (w.read? file >>= _) = _
    rw [hstored]
    rfl
  rw [hload] at h
  cases stored with
  | none => cases h
  | some text =>
    unfold Global.ofFile Config.readFile at h
    dsimp only at h
    split at h
    · cases h
      exact ⟨_, rfl⟩
    · split at h
      · cases h
      · cases h
        exact ⟨_, rfl⟩

/-- **A setting that fails** is refused with the reason, or is blocked, or the text is too long. -/
theorem setGlobalConfig_eq_error {cause : Failure}
    (h : w.setGlobalConfig key text = .error cause) :
    (∃ problem, cause = .config problem) ∨ w.Blocked key text ∨ w.TooLong key text := by
  unfold setGlobalConfig at h
  rcases bind_eq_error.mp h with hload | ⟨old, hold, h⟩
  · by_cases hfile : ∃ file, w.globalFile = .ok file
    · obtain ⟨file, hfile⟩ := hfile
      exact .inl (globalConfig_eq_error hfile hload)
    · exact .inr (.inl (.opening (not_exists.mp hfile)))
  · rcases bind_eq_error.mp h with hset | ⟨changed, hset, h⟩
    · rcases Global.set_refused hset with hproblem | ⟨hknown, count, hlong⟩
      · exact .inl hproblem
      · exact .inr (.inr ⟨old, count, hold, hknown, hlong⟩)
    · rcases bind_eq_error.mp h with hsave | ⟨w', -, h⟩
      · refine .inr (.inl (.saving hold hset fun hcan => ?_))
        obtain ⟨w', hsaved⟩ := hcan.save changed
        rw [hsaved] at hsave
        cases hsave
      · cases h

/-- Neither comes with a reason. -/
theorem setGlobalConfig_of_blocked (h : w.Blocked key text ∨ w.TooLong key text) :
    w.setGlobalConfig key text = .error .unexpected := by
  unfold setGlobalConfig
  rcases h with (hclosed | ⟨hold, hset, hsave⟩) | ⟨old, count, hold, hknown, hlong⟩
  · cases hfile : w.globalFile with
    | ok file => exact absurd hfile (hclosed file)
    | error cause =>
      obtain rfl := globalFile_eq_error hfile
      refine bind_eq_error.mpr (.inl ?_)
      exact bind_eq_error.mpr (.inl hfile)
  · rename_i old changed
    cases hsaved : w.saveGlobalConfig changed with
    | ok w' => exact absurd ⟨changed, w', hsaved⟩ hsave
    | error cause =>
      obtain rfl := saveGlobalConfig_eq_error hsaved
      refine bind_eq_error.mpr (.inr ⟨old, hold, ?_⟩)
      exact bind_eq_error.mpr (.inr ⟨changed, hset, bind_eq_error.mpr (.inl hsaved)⟩)
  · refine bind_eq_error.mpr (.inr ⟨old, hold, ?_⟩)
    exact bind_eq_error.mpr (.inl (Global.set_of_long hknown hlong))

/-- What a setting answers, and the workspace after it. -/
def changeSetting (w : Workspace) (key text : String) : Except Failure Global × Workspace :=
  match w.setGlobalConfig key text with
  | .ok (changed, w') => (.ok changed, w')
  | .error cause => (.error cause, w)

/-- All or nothing: either there is a reason why not, and nothing is changed; or the configuration
that is loaded afterwards is the one that is answered, and what stands apart from the key is as it
was. -/
inductive Atomic (w : Workspace) (key : String) : Except Failure Global × Workspace → Prop where
  | refused (problem : ConfigFault) : Atomic w key (.error (.config problem), w)
  | changed {old changed : Global} {w' : Workspace} (before : w.globalConfig = .ok old)
      (after : w'.globalConfig = .ok changed)
      (apart : ∀ path, Apart path (Global.keyParts key) →
        valueAt? path changed.toValue = valueAt? path old.toValue) :
      Atomic w key (.ok changed, w')

theorem changeSetting_eq (w : Workspace) (key text : String) :
    (∃ changed w', w.setGlobalConfig key text = .ok (changed, w')
        ∧ w.changeSetting key text = (.ok changed, w'))
      ∨ ∃ cause, w.setGlobalConfig key text = .error cause
        ∧ w.changeSetting key text = (.error cause, w) := by
  unfold changeSetting
  cases hset : w.setGlobalConfig key text with
  | ok answer => exact .inl ⟨_, _, rfl, rfl⟩
  | error cause => exact .inr ⟨_, rfl, rfl⟩

theorem not_atomic_of_blocked (h : w.Blocked key text ∨ w.TooLong key text) :
    ¬ w.Atomic key (w.changeSetting key text) := by
  intro hatomic
  unfold changeSetting at hatomic
  rw [setGlobalConfig_of_blocked h] at hatomic
  cases hatomic

/-- **Setting one value is all or nothing**, for every configuration that is stored, every key and
every text, exactly if nothing is in the way of the file and the text is not too long to be read. -/
theorem changeSetting_atomic_iff (w : Workspace) (key text : String) :
    w.Atomic key (w.changeSetting key text)
      ↔ ¬ w.Blocked key text ∧ ¬ w.TooLong key text := by
  rw [← not_or]
  constructor
  · exact fun hatomic hblocked => not_atomic_of_blocked hblocked hatomic
  · intro hfree
    rcases w.changeSetting_eq key text with ⟨changed, w', hset, hanswer⟩ | ⟨cause, hset, hanswer⟩
    · rw [hanswer]
      obtain ⟨old, hold, hchanged, hsave⟩ := setGlobalConfig_eq_ok hset
      have hstorable := Global.storable_set (storable_of_globalConfig hold) hchanged
      exact .changed hold (globalConfig_saveGlobalConfig hstorable hsave)
        (Global.valueAt?_set hchanged)
    · rw [hanswer]
      obtain ⟨problem, rfl⟩ := (setGlobalConfig_eq_error hset).resolve_right hfree
      exact .refused problem

/-- A workspace without files. -/
def bare : Workspace :=
  { directory := { anchor := "/", parts := ["work"] }, remote := ⟨fun _ => .timedOut⟩ }

/-- A text of ones. -/
def ones (count : Nat) : String := String.ofList (List.replicate count '1')

theorem read_ones {count : Nat} (h : Json.maxDigits < count) :
    Json.read (ones count) = .error (.tooManyDigits count) := by
  have hwhole : Json.IsWhole (List.replicate count '1') := by
    obtain ⟨more, rfl⟩ := Nat.exists_eq_add_one_of_ne_zero (Nat.ne_zero_of_lt h)
    refine ⟨fun c hc => ?_, nofun, nofun⟩
    rw [List.eq_of_mem_replicate hc]
    rfl
  have hlong := Json.read_of_long hwhole (by rwa [List.length_replicate])
  rwa [List.length_replicate] at hlong

/-- With more digits than are read, a setting is neither: nothing is in the way of the file, and
still there is no reason. -/
theorem setting_of_many_digits :
    bare.CanSave ∧ ¬ bare.Atomic "cache.ttl_seconds"
      (bare.changeSetting "cache.ttl_seconds" (ones 4301)) := by
  have hlong : bare.TooLong "cache.ttl_seconds" (ones 4301) :=
    ⟨{}, 4301, rfl, rfl, read_ones (by decide)⟩
  exact ⟨⟨{}, _, rfl⟩, not_atomic_of_blocked (.inr hlong)⟩

end ApiContract.Workspace
