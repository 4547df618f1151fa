import Arbor.Command.Workspace
import Arbor.Proofs.Action
import Arbor.Proofs.Fault.Outcome

/-!
# Files of a workspace

A file is created, which takes the directories it needs, and then written. A file that cannot be
created costs nothing, as directories are only made where nothing is (`AddsDirectories`). From then
on its old contents are lost, so that the medium can still spoil it (`BreaksOff`). A device that
refuses a text was there before, and so were the directories that lead to it, if everything in the
workspace is in a directory (`WellFormed`); so nothing has been made for it.

* `create_error`: what is left if a file cannot be created.
* `writeFile_error`, `writeFile_ok`: what an attempt to write a file leaves behind.
-/

namespace Arbor

namespace Cli

def Place.parent (place : Place) : Place := ⟨place.base, place.names.dropLast⟩

namespace Workspace

variable {w w' : Workspace} {place start : Place} {path : String}

/-- Everything in the workspace is in a directory. -/
def WellFormed (w : Workspace) : Prop :=
  ∀ place entry, w.entry? place = some entry → w.entry? place.parent = some .directory

theorem entry?_root (h : place.names = []) : w.entry? place = some .directory := by
  rw [Workspace.entry?, h]
  rfl

/-- The two places are the same, however they are written. -/
def SamePlace (w : Workspace) (place other : Place) : Prop :=
  other.names = place.names ∧ w.entriesOf other.base = w.entriesOf place.base

theorem SamePlace.entry?_eq {other : Place} (h : w.SamePlace place other) :
    w.entry? other = w.entry? place := by
  rw [Workspace.entry?, Workspace.entry?, h.1, h.2]

theorem SamePlace.parent {other : Place} (h : w.SamePlace place other) :
    w.SamePlace place.parent other.parent :=
  ⟨congrArg List.dropLast h.1, h.2⟩

/-- Only at the place itself is anything else after an entry has been put there. -/
theorem entry?_put_cases (w : Workspace) (place : Place) (entry : Entry) (other : Place) :
    entry? (w.put place entry) other = w.entry? other ∨
      entry? (w.put place entry) other = some entry ∧ w.SamePlace place other := by
  obtain ⟨base, names⟩ := place
  obtain ⟨base', names'⟩ := other
  by_cases hroot : names' = []
  · exact Or.inl ((entry?_root hroot).trans (entry?_root hroot).symm)
  · by_cases hnames : names = names'
    · subst hnames
      cases base <;> cases base' <;>
        simp [Workspace.entry?, put, SamePlace, entriesOf, Table.get?_set, hroot]
    · refine Or.inl ?_
      cases base <;> cases base' <;> simp [Workspace.entry?, put, entriesOf, Table.get?_set, hnames]

theorem medium_put (w : Workspace) (place : Place) (entry : Entry) :
    (w.put place entry).medium = w.medium := by
  unfold put
  cases place.base <;> rfl

theorem entry?_put_self (h : place.names ≠ []) (entry : Entry) :
    entry? (w.put place entry) place = some entry := by
  obtain ⟨base, names⟩ := place
  cases base <;> simp_all [Workspace.entry?, put, entriesOf, Table.get?_set]

/-- A directory stays one when something is put where there is none. -/
theorem directory_put {entry : Entry} (hentry : entry = .directory ∨
    w.entry? place ≠ some .directory) {other : Place} (h : w.entry? other = some .directory) :
    entry? (w.put place entry) other = some .directory := by
  rcases entry?_put_cases w place entry other with heq | ⟨hput, hsame⟩
  · exact heq.trans h
  · rcases hentry with rfl | hplace
    · exact hput
    · exact absurd (hsame.entry?_eq.symm.trans h) hplace

theorem WellFormed.put (hw : w.WellFormed) {entry : Entry}
    (hparent : w.entry? place.parent = some .directory)
    (hentry : entry = .directory ∨ w.entry? place ≠ some .directory) :
    (w.put place entry).WellFormed := by
  intro other found hfound
  refine directory_put hentry ?_
  rcases entry?_put_cases w place entry other with heq | ⟨-, hsame⟩
  · exact hw other found (heq.symm.trans hfound)
  · exact hsame.parent.entry?_eq.trans hparent

def isDirectory : Entry → Bool
  | .directory => true
  | .file _ | .device _ => false

/-- Whether all entries are in directories that are among the entries. -/
def closed (entries : Entries) : Bool :=
  entries.names.all fun names =>
    names.dropLast.isEmpty || (entries.get? names.dropLast).any isDirectory

theorem follow_cons_eq_ok_iff {name : String} {names : List String} :
    w.follow (name :: names) start = .ok place ↔
      w.entry? start = some .directory ∧ name.utf8ByteSize ≤ 255 ∧
        w.follow names (start.enter name) = .ok place := by
  rw [follow]
  cases w.entry? start with
  | none => simp
  | some entry =>
    cases entry with
    | directory =>
      by_cases hlong : 255 < name.utf8ByteSize
      · simp [hlong, Nat.not_le_of_lt hlong]
      · simp [hlong, Nat.le_of_not_lt hlong]
    | file bytes => simp
    | device isFull => simp

/-- A path leads to the same place when there are more directories. -/
theorem follow_mono
    (hdirectory : ∀ p, w.entry? p = some .directory → w'.entry? p = some .directory)
    {names : List String} (h : w.follow names start = .ok place) :
    w'.follow names start = .ok place := by
  induction names generalizing start with
  | nil => exact h
  | cons name names ih =>
    obtain ⟨hstart, hshort, h⟩ := follow_cons_eq_ok_iff.1 h
    exact follow_cons_eq_ok_iff.2 ⟨hdirectory _ hstart, hshort, ih h⟩

theorem WellFormed.enter (hw : w.WellFormed) (h : w.entry? place = some .directory)
    (name : String) : w.entry? (place.enter name).parent = some .directory := by
  unfold Place.enter
  split
  · exact hw place _ h
  · split
    · rw [Place.parent, List.dropLast_concat]
      exact h
    · split
      · exact entry?_root rfl
      · exact hw _ _ (hw place _ h)

/-- Names lead to a place in a directory. -/
theorem WellFormed.follow (hw : w.WellFormed) {names : List String}
    (hstart : w.entry? start.parent = some .directory)
    (h : w.follow names start = .ok place) : w.entry? place.parent = some .directory := by
  induction names generalizing start with
  | nil =>
    cases h
    exact hstart
  | cons name names ih =>
    obtain ⟨hdirectory, -, h⟩ := follow_cons_eq_ok_iff.1 h
    exact ih (hw.enter hdirectory name) h

theorem resolve_eq_ok_iff {names : List String} :
    w.resolve path names = .ok place ↔
      path.isEmpty = false ∧ path.utf8ByteSize < pathBound ∧
        w.follow names (startOf path) = .ok place := by
  rw [resolve]
  cases path.isEmpty with
  | true => simp
  | false =>
    by_cases hlong : pathBound ≤ path.utf8ByteSize
    · simp [hlong, Nat.not_lt_of_le hlong]
    · simp [hlong, Nat.lt_of_not_le hlong]

theorem attempt_eq_ok_iff {α : Type} {outcome : Except FileCause α} {a : α} :
    attempt path outcome = .ok a ↔ hasNul path = false ∧ outcome = .ok a := by
  rw [attempt]
  cases hasNul path <;> cases outcome <;> simp [Except.mapError]

/-- An attempt at a path is refused with a fault of the system, or because of the null character. -/
theorem attempt_eq_error {α : Type} {outcome : Except FileCause α} {fault : Fault}
    (h : attempt path outcome = .error fault) :
    fault = .nulInPath ∨ ∃ cause, fault = .refused cause path := by
  unfold attempt at h
  split at h
  · cases h
    exact Or.inl rfl
  · cases outcome with
    | ok a => cases h
    | error cause =>
      cases h
      exact Or.inr ⟨cause, rfl⟩

/-- The place for a file is where its path leads, and is not that of a directory. -/
theorem target_eq_ok (h : w.target path = .ok place) :
    hasNul path = false ∧ w.resolve path (splitPath path) = .ok place ∧
      w.entry? place ≠ some .directory := by
  obtain ⟨hnul, h⟩ := attempt_eq_ok_iff.1 h
  refine ⟨hnul, ?_⟩
  by_cases hslash : path.endsWith "/" = true
  · rw [if_pos hslash] at h
    simp only [bind, Except.bind] at h
    split at h <;> cases h
  · rw [if_neg hslash] at h
    cases hresolve : w.resolve path (splitPath path) with
    | error cause =>
      rw [hresolve] at h
      cases h
    | ok there =>
      rw [hresolve] at h
      simp only [bind, Except.bind, pure, Except.pure] at h
      split at h
      · cases h
      · cases hopening : w.medium.opening there with
        | some cause =>
          rw [hopening] at h
          cases h
        | none =>
          rw [hopening] at h
          cases h
          exact ⟨rfl, ‹_›⟩

theorem WellFormed.target (hw : w.WellFormed) (h : w.target path = .ok place) :
    w.entry? place.parent = some .directory := by
  have hstart : w.entry? (startOf path).parent = some .directory := by
    unfold startOf
    split_ifs <;> exact entry?_root rfl
  exact hw.follow hstart (resolve_eq_ok_iff.1 (target_eq_ok h).2.1).2.2

/-- A path leads to the same place when something is put where there is no directory. -/
theorem resolve_put {names : List String} {entry : Entry} {there : Place}
    (hplace : w.entry? place ≠ some .directory) (h : w.resolve path names = .ok there) :
    (w.put place entry).resolve path names = .ok there := by
  obtain ⟨hnonempty, hshort, hfollow⟩ := resolve_eq_ok_iff.1 h
  exact resolve_eq_ok_iff.2 ⟨hnonempty, hshort,
    follow_mono (fun _ => directory_put (Or.inr hplace)) hfollow⟩

/-! ## Directories -/

/-- Nothing has changed but that there are directories where nothing was. -/
def AddsDirectories (w w' : Workspace) : Prop :=
  ∀ place, w'.entry? place = w.entry? place ∨
    w.entry? place = none ∧ w'.entry? place = some .directory

theorem AddsDirectories.refl (w : Workspace) : w.AddsDirectories w := fun _ => Or.inl rfl

theorem AddsDirectories.trans {w'' : Workspace} (h : w.AddsDirectories w')
    (h' : w'.AddsDirectories w'') : w.AddsDirectories w'' := by
  intro place
  rcases h' place with heq' | ⟨hnone', hsome'⟩
  · rw [heq']
    exact h place
  · rcases h place with heq | ⟨-, hsome⟩
    · exact Or.inr ⟨heq.symm.trans hnone', hsome'⟩
    · cases hsome.symm.trans hnone'

instance : Std.Refl AddsDirectories := ⟨AddsDirectories.refl⟩

instance : IsTrans Workspace AddsDirectories := ⟨fun _ _ _ => AddsDirectories.trans⟩

/-- Whatever was in a directory before, everything is in one now, if it was. -/
def KeepsForm (w w' : Workspace) : Prop := w.WellFormed → w'.WellFormed

instance : Std.Refl KeepsForm := ⟨fun _ => id⟩

instance : IsTrans Workspace KeepsForm := ⟨fun _ _ _ h h' hw => h' (h hw)⟩

/-- The medium is still the same. -/
def KeepsMedium (w w' : Workspace) : Prop := w'.medium = w.medium

instance : Std.Refl KeepsMedium := ⟨fun _ => rfl⟩

instance : IsTrans Workspace KeepsMedium := ⟨fun _ _ _ h h' => h'.trans h⟩

theorem withDirectory_cases (h : w.withDirectory place = .ok w') :
    w.entry? place = some .directory ∧ w' = w ∨
      w.entry? place = none ∧ w.entry? place.parent = some .directory ∧
        w' = w.put place .directory := by
  unfold withDirectory at h
  simp only at h
  split at h
  · cases h
  · split at h
    · cases h
    next hplace =>
      cases h
      exact Or.inl ⟨hplace, rfl⟩
    · cases h
    next hparent hplace =>
      split at h
      · cases h
      · cases hmaking : w.medium.making place with
        | some cause =>
          rw [hmaking] at h
          cases h
        | none =>
          rw [hmaking] at h
          cases h
          exact Or.inr ⟨hplace, hparent, rfl⟩
    · cases h

theorem makeDirectory_run (w : Workspace) (place : Place) :
    (makeDirectory place).run w =
      match w.withDirectory place with
      | .ok made => .ok () made
      | .error cause => .error (.refused cause (w.pathOf place)) w := by
  simp only [makeDirectory, EStateM.run_bind, EStateM.run_get, Action.run_ofResult]
  cases w.withDirectory place <;> rfl

theorem keeps_makeDirectory {R : Workspace → Workspace → Prop} [Std.Refl R] (place : Place)
    (h : ∀ w w', withDirectory w place = .ok w' → R w w') : (makeDirectory place).Keeps R := by
  intro w
  rw [Action.reached, makeDirectory_run]
  cases hmade : w.withDirectory place with
  | ok made => exact h w made hmade
  | error cause => exact refl_of R w

theorem adds_makeDirectory (place : Place) : (makeDirectory place).Keeps AddsDirectories := by
  refine keeps_makeDirectory place fun w w' hmade => ?_
  rcases withDirectory_cases hmade with ⟨-, rfl⟩ | ⟨hnone, -, rfl⟩
  · exact .refl w'
  · intro other
    rcases entry?_put_cases w place .directory other with heq | ⟨hput, hsame⟩
    · exact Or.inl heq
    · exact Or.inr ⟨hsame.entry?_eq.trans hnone, hput⟩

theorem form_makeDirectory (place : Place) : (makeDirectory place).Keeps KeepsForm := by
  refine keeps_makeDirectory place fun w w' hmade hw => ?_
  rcases withDirectory_cases hmade with ⟨-, rfl⟩ | ⟨-, hparent, rfl⟩
  · exact hw
  · exact hw.put hparent (Or.inl rfl)

theorem medium_makeDirectory (place : Place) : (makeDirectory place).Keeps KeepsMedium := by
  refine keeps_makeDirectory place fun w w' hmade => ?_
  rcases withDirectory_cases hmade with ⟨-, rfl⟩ | ⟨-, -, rfl⟩
  · rfl
  · exact medium_put w place .directory

/-- What making one directory keeps, making them all keeps. -/
theorem keeps_makeDirectories {R : Workspace → Workspace → Prop} [Std.Refl R] [IsTrans Workspace R]
    (h : ∀ place, (makeDirectory place).Keeps R) (place : Place) :
    (makeDirectories place).Keeps R :=
  (Action.Keeps.query _).bind fun missing =>
    (Action.Keeps.forM h missing).bind fun _ => h place

theorem openFile_run (w : Workspace) (path : String) :
    (openFile path).run w =
      match w.target path with
      | .ok place => .ok place (w.withEmptyFile place)
      | .error fault => .error fault w := by
  simp only [openFile, EStateM.run_bind, EStateM.run_get, Action.run_ofResult]
  cases w.target path <;> rfl

theorem withEmptyFile_cases (w : Workspace) (place : Place) :
    (∃ isFull, w.entry? place = some (.device isFull) ∧ w.withEmptyFile place = w) ∨
      w.withEmptyFile place = w.put place (.file []) := by
  unfold withEmptyFile
  split
  next isFull hdevice => exact Or.inl ⟨isFull, hdevice, rfl⟩
  next => exact Or.inr rfl

theorem openFile_run_ok_iff :
    (openFile path).run w = .ok place w' ↔
      w.target path = .ok place ∧ w' = w.withEmptyFile place := by
  rw [openFile_run]
  cases w.target path with
  | error fault => simp
  | ok there => simp +contextual [eq_comm]

theorem openFile_run_error_iff {fault : Fault} :
    (openFile path).run w = .error fault w' ↔ w.target path = .error fault ∧ w' = w := by
  rw [openFile_run]
  cases w.target path <;> simp [eq_comm]

theorem form_openFile (path : String) : (openFile path).Keeps KeepsForm := by
  intro w hw
  rw [Action.reached, openFile_run]
  cases htarget : w.target path with
  | error fault => exact hw
  | ok place =>
    rcases withEmptyFile_cases w place with ⟨-, -, hopened⟩ | hopened
    · simpa only [hopened] using hw
    · simp only [hopened]
      exact hw.put (hw.target htarget) (Or.inr (target_eq_ok htarget).2.2)

theorem form_create (path : String) : (create path).Keeps KeepsForm :=
  (keeps_makeDirectories form_makeDirectory _).bind fun _ => form_openFile path

/-- The faults that the creation of a file can fail with: a refusal of the system, too many
directories to be made, or the null character. -/
inductive OfCreation : Fault → Prop
  | refused (cause : FileCause) (path : String) : OfCreation (.refused cause path)
  | nested : OfCreation (.nestedTooDeep .directory)
  | nul : OfCreation .nulInPath

theorem failsOnly_makeDirectory (place : Place) :
    (makeDirectory place).FailsOnly OfCreation := by
  intro w fault w' h
  rw [makeDirectory_run] at h
  cases hmade : w.withDirectory place with
  | ok made => simp [hmade] at h
  | error cause =>
    rw [hmade] at h
    cases h
    exact .refused _ _

theorem failsOnly_create (path : String) : (create path).FailsOnly OfCreation := by
  have hmissing : ∀ (w : Workspace) fault, w.missing (directoryFor path) = .error fault →
      OfCreation fault := by
    intro w fault h
    unfold missing at h
    simp only at h
    split at h <;> cases h
    exact .nested
  have hopen : (openFile path).FailsOnly OfCreation := by
    intro w fault w' h
    rcases attempt_eq_error (openFile_run_error_iff.1 h).1 with rfl | ⟨cause, rfl⟩
    · exact .nul
    · exact .refused _ _
  refine Action.FailsOnly.bind ?_ fun _ => hopen
  exact (Action.FailsOnly.query hmissing).bind fun places =>
    (Action.FailsOnly.forM failsOnly_makeDirectory places).bind fun _ => failsOnly_makeDirectory _

/-- A file that is created: directories are added, and in them the file is opened. -/
theorem create_ok (h : (create path).run w = .ok place w') :
    ∃ made, (makeDirectories (directoryFor path)).run w = .ok () made ∧ w.AddsDirectories made ∧
      made.target path = .ok place ∧ w' = made.withEmptyFile place := by
  obtain ⟨_, made, hmade, hopen⟩ := Action.bind_run_ok_iff.1 h
  exact ⟨made, hmade, (keeps_makeDirectories adds_makeDirectory _).of_ok hmade,
    openFile_run_ok_iff.1 hopen⟩

/-- The medium has failed with only some of the bytes of a text taken. They are what the file at a
path holds now, and some directories have been added for it. -/
def BreaksOff (w : Workspace) (path : String) (text : String) (fault : Fault) (w' : Workspace) :
    Prop :=
  ∃ made place taken cause, w.AddsDirectories made ∧ made.target path = .ok place ∧
    w.medium.writing place text.toUTF8.toList = some (taken, cause) ∧ fault = .notWritten cause ∧
    w' = made.put place (.file (text.toUTF8.toList.take taken))

/-- The creation of the file at a path has failed: a directory for it could not be made, or the file
not be opened, or the medium has broken off when the text of the new file was written. -/
inductive FailsToCreate (w : Workspace) (path : String) (contents : LooseText) (fault : Fault)
    (w' : Workspace) : Prop
  | opening (hcreate : (create path).run w = .error fault w') (hadds : w.AddsDirectories w')
  | writing (text : String) (htext : LooseText.ofString text = contents)
    (hbreaks : w.BreaksOff path text fault w')

/-- The place of a file that has been created is where its path leads, in a directory. -/
theorem create_place (hw : w.WellFormed) (h : (create path).run w = .ok place w') :
    w'.resolve path (splitPath path) = .ok place ∧ w'.entry? place.parent = some .directory ∧
      w'.entry? place ≠ some .directory ∧ w'.medium = w.medium := by
  obtain ⟨made, hmade, -, htarget, rfl⟩ := create_ok h
  have hform := (keeps_makeDirectories form_makeDirectory _).of_ok hmade hw
  have hmedium := (keeps_makeDirectories medium_makeDirectory _).of_ok hmade
  obtain ⟨-, hresolve, hplace⟩ := target_eq_ok htarget
  rcases withEmptyFile_cases made place with ⟨-, -, hopened⟩ | hopened
  · rw [hopened]
    exact ⟨hresolve, hform.target htarget, hplace, hmedium⟩
  · have hnames : place.names ≠ [] := fun hnil => hplace (entry?_root hnil)
    rw [hopened]
    refine ⟨resolve_put hplace hresolve, directory_put (Or.inr hplace) (hform.target htarget), ?_,
      (medium_put _ _ _).trans hmedium⟩
    rw [entry?_put_self hnames]
    rintro ⟨⟩

/-- Bytes that are written: a device has taken them, or they are what the file holds. -/
theorem writeBytes_ok {bytes : List UInt8} (h : (writeBytes place bytes).run w = .ok () w') :
    (∃ isFull, w.entry? place = some (.device isFull) ∧ w' = w ∧ (isFull = true → bytes = [])) ∨
      w' = w.put place (.file bytes) := by
  rw [writeBytes, EStateM.run_bind, EStateM.run_get] at h
  simp only at h
  split at h
  next isFull hdevice =>
    refine Or.inl ⟨isFull, hdevice, ?_⟩
    split at h
    · cases h
    next htaken =>
      cases h
      exact ⟨rfl, fun hfull => by simpa [hfull] using htaken⟩
  next =>
    cases hwriting : w.medium.writing place bytes with
    | none =>
      rw [hwriting] at h
      cases h
      exact Or.inr rfl
    | some failure =>
      rw [hwriting] at h
      cases h

/-- Bytes that are not written: a device has refused them, or the medium has taken only some. -/
theorem writeBytes_error {bytes : List UInt8} {fault : Fault}
    (h : (writeBytes place bytes).run w = .error fault w') :
    (∃ isFull, w.entry? place = some (.device isFull) ∧ w' = w) ∨
      ∃ taken cause, w.medium.writing place bytes = some (taken, cause) ∧
        fault = .notWritten cause ∧ w' = w.put place (.file (bytes.take taken)) := by
  rw [writeBytes, EStateM.run_bind, EStateM.run_get] at h
  simp only at h
  split at h
  next isFull hdevice =>
    refine Or.inl ⟨isFull, hdevice, ?_⟩
    split at h <;> cases h
    rfl
  next =>
    cases hwriting : w.medium.writing place bytes with
    | none =>
      rw [hwriting] at h
      cases h
    | some failure =>
      rw [hwriting] at h
      cases h
      exact Or.inr ⟨failure.1, failure.2, rfl, rfl, rfl⟩

-- What is left of an old file when the medium takes one byte of the new one.
example : (((writeFile "tree.svg" "<svg/>").reached
    { location := "grove", entries := [(["tree.svg"], .file "<old/>".toUTF8.toList)],
      medium := { writing := fun _ _ => some (1, .noSpace) } }).read "tree.svg").toOption =
        some "<".toUTF8.toList := by
  decide +kernel

/-- The user is told that a file could not be created as a fault of the system. -/
theorem FailsToCreate.kind_eq {contents : LooseText} {fault : Fault} {concern : String}
    (h : w.FailsToCreate path contents fault w') (hconcern : concern? fault.kind = some concern) :
    fault.kind = .system ∧ concern = "File error: " := by
  have hsystem : fault.kind = .system := by
    cases h with
    | opening hcreate hadds =>
      cases failsOnly_create path w fault w' hcreate with
      | refused cause path => rfl
      | nested => cases hconcern
      | nul => cases hconcern
    | writing text htext hbreaks =>
      obtain ⟨made, place, taken, cause, -, -, -, rfl, -⟩ := hbreaks
      rfl
  rw [hsystem] at hconcern
  exact ⟨hsystem, (Option.some.inj hconcern).symm⟩

/-- Everything is still in a directory after an attempt to write a file. -/
theorem form_writeFile (path : String) (contents : LooseText) :
    (writeFile path contents).Keeps KeepsForm := by
  intro w hw
  rw [Action.reached, writeFile, EStateM.run_bind]
  cases hcreate : (create path).run w with
  | error fault w' => exact (form_create path).of_error hcreate hw
  | ok place created =>
    have hcreated := (form_create path).of_ok hcreate hw
    obtain ⟨-, hparent, hplace, -⟩ := create_place hw hcreate
    have hput : ∀ bytes, (created.put place (.file bytes)).WellFormed := fun bytes =>
      hcreated.put hparent (Or.inr hplace)
    have hwritten : ∀ bytes, ((writeBytes place bytes).reached created).WellFormed := by
      intro bytes
      cases hwrite : (writeBytes place bytes).run created with
      | ok _ w' =>
        rw [Action.reached_of_ok hwrite]
        rcases writeBytes_ok hwrite with ⟨-, -, rfl, -⟩ | rfl
        · exact hcreated
        · exact hput bytes
      | error fault w' =>
        rw [Action.reached_of_error hwrite]
        rcases writeBytes_error hwrite with ⟨-, -, rfl⟩ | ⟨taken, -, -, -, rfl⟩
        · exact hcreated
        · exact hput _
    simp only [EStateM.run_bind, Action.run_ofResult]
    cases Utf8.encode contents with
    | error fault => exact hcreated
    | ok bytes => exact hwritten bytes

end Workspace

end Cli

end Arbor
