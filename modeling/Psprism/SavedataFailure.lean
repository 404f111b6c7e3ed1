import Psprism.Savedata

/-!
# Saves that fail (`sceUtilitySavedataUpdate.cpp`)

A save on a host whose operations may fail. A removal that fails leaves something, a rename that fails leaves
everything; whether an operation fails is the host's. The operations of the recovery succeed.

One branch recovers from all of the renames: it removes the save directory and moves the backup back. That is right
when the staged directory could not be moved into place. When it was the save directory that could not be moved away,
the branch removes it, and there is no backup but what may be left of an old one.
-/

namespace Psprism

/-- How a write of a staged file ends; one that fails may leave a part of the file. The failure shows while the file is
written, or only once it is closed. -/
inductive WriteOutcome
  | done
  | failed (left : Option (List Byte))
  | lost (left : Option (List Byte))
deriving DecidableEq

def WriteOutcome.left (bytes : List Byte) : WriteOutcome → Option (List Byte)
  | done => some bytes
  | failed left => left
  | lost left => left

inductive SaveStep
  | createStaging | writeData | writeAsset (name : String) | writeSfo
  | removeBackup | findDirectory | renameAway | renameIntoPlace
deriving DecidableEq

/-- The outcomes of the host's operations. A removal that fails has what it leaves. -/
structure SaveHost where
  stagingLeft : Option (Option Directory) := none
  createStaging : Bool := true
  writeData : WriteOutcome := .done
  writeAsset : String → WriteOutcome := fun _ => .done
  writeSfo : WriteOutcome := .done
  backupLeft : Option (Option Directory) := none
  /-- Whether `exists` can tell. -/
  findDirectory : Bool := true
  renameAway : Bool := true
  renameIntoPlace : Bool := true
  oldLeft : Option (Option Directory) := none

/-- What a save leaves and reports, and the steps it took, each with whether it was done. -/
structure SaveEnd where
  directories : Directories
  result : Word
  steps : List (SaveStep × Bool)

namespace Directories

def removeAllOn (fs : Directories) (d : String) : Option (Option Directory) → Directories
  | none => fs.removeAll d
  | some left => Function.update fs d left

def writeOn (fs : Directories) (d file : String) (bytes : List Byte) (outcome : WriteOutcome) : Directories :=
  match fs d with
  | none => fs
  | some files => Function.update fs d (some (Function.update files file (outcome.left bytes)))

end Directories

namespace SaveHost
variable (host : SaveHost)

/-- `write_guest_file` for each of the assets; its stream is looked at before it is closed. -/
def writeAssets (fs : Directories) (staging : String) :
    List (String × Option (List Byte)) → Directories × Bool × List (SaveStep × Bool)
  | [] => (fs, true, [])
  | (name, none) :: _ => (fs, false, [(.writeAsset name, false)])
  | (_, some []) :: rest => writeAssets fs staging rest
  | (name, some bytes) :: rest =>
    let fs := fs.writeOn staging name bytes (host.writeAsset name)
    match host.writeAsset name with
    | .failed _ => (fs, false, [(.writeAsset name, false)])
    | .lost _ =>
      let (fs, ok, steps) := writeAssets fs staging rest
      (fs, ok, (.writeAsset name, false) :: steps)
    | .done =>
      let (fs, ok, steps) := writeAssets fs staging rest
      (fs, ok, (.writeAsset name, true) :: steps)

/-- The branch for an error of a rename. -/
def recover (p : SavedataParameters) (fs : Directories) (hadExisting : Bool) : Directories :=
  let fs := fs.removeAll p.name.directory
  if hadExisting then fs.rename p.backup p.name.directory else fs

def publish (p : SavedataParameters) (fs : Directories) : SaveEnd :=
  let fs := fs.removeAllOn p.backup host.backupLeft
  let removed : SaveStep × Bool := (.removeBackup, host.backupLeft.isNone)
  if host.findDirectory then
    if (fs p.name.directory).isSome then
      if host.renameAway then
        let fs := fs.rename p.name.directory p.backup
        if host.renameIntoPlace then
          ⟨(fs.rename p.staging p.name.directory).removeAllOn p.backup host.oldLeft, 0,
            [removed, (.findDirectory, true), (.renameAway, true), (.renameIntoPlace, true)]⟩
        else
          ⟨recover p fs true, 0x80110385,
            [removed, (.findDirectory, true), (.renameAway, true), (.renameIntoPlace, false)]⟩
      else ⟨recover p fs true, 0x80110385, [removed, (.findDirectory, true), (.renameAway, false)]⟩
    else if host.renameIntoPlace then
      ⟨(fs.rename p.staging p.name.directory).removeAllOn p.backup host.oldLeft, 0,
        [removed, (.findDirectory, true), (.renameIntoPlace, true)]⟩
    else ⟨recover p fs false, 0x80110385, [removed, (.findDirectory, true), (.renameIntoPlace, false)]⟩
  else ⟨recover p fs false, 0x80110385, [removed, (.findDirectory, false)]⟩

/-- The staging directory, whether the save sees it complete, and the steps. -/
def stage (makeSavedataSfo : String → String → String → List Byte) (p : SavedataParameters) (fs : Directories)
    (data : List Byte) : Directories × Bool × List (SaveStep × Bool) :=
  let fs := fs.removeAllOn p.staging host.stagingLeft
  let fs := if host.createStaging then fs.createDirectories p.staging else fs
  let fs := fs.writeOn p.staging p.name.file data host.writeData
  let (fs, assetsOk, steps) := host.writeAssets fs p.staging p.assets
  let fs := fs.writeOn p.staging "PARAM.SFO" (makeSavedataSfo p.title p.savedataTitle p.detail) host.writeSfo
  (fs, host.createStaging && host.writeData = .done && host.writeSfo = .done && assetsOk,
    (.createStaging, host.createStaging) :: (.writeData, decide (host.writeData = .done)) ::
      (steps ++ [(.writeSfo, decide (host.writeSfo = .done))]))

/-- A save on the host. -/
def save (makeSavedataSfo : String → String → String → List Byte) (p : SavedataParameters) (fs : Directories) :
    SaveEnd :=
  if ¬ p.name.Valid then ⟨fs, 0x80110388, []⟩
  else
    match p.source with
    | none => ⟨fs, 0x80110388, []⟩
    | some data =>
      let (fs, ok, steps) := host.stage makeSavedataSfo p fs data
      if ok then
        let published := host.publish p fs
        { published with steps := steps ++ published.steps }
      else ⟨fs.removeAll p.staging, 0x80110385, steps⟩

end SaveHost

/-! ### A host where nothing fails -/

namespace SaveHost
variable (makeSavedataSfo : String → String → String → List Byte) (p : SavedataParameters)

theorem writeAssets_default (d : String) (assets : List (String × Option (List Byte))) :
    ∀ fs : Directories, ((writeAssets {} fs d assets).1, (writeAssets {} fs d assets).2.1) =
      Psprism.writeAssets fs d assets := by
  induction assets with
  | nil => exact fun _ => rfl
  | cons asset rest ih =>
    intro fs
    obtain ⟨name, _ | _ | ⟨b, bytes⟩⟩ := asset
    · rfl
    · exact ih fs
    · exact ih _

theorem publish_default (fs : Directories) :
    ((publish {} p fs).directories, (publish {} p fs).result) = (p.publish fs, 0) := by
  have hremoved : fs.removeAllOn p.backup none = fs.removeAll p.backup := rfl
  simp only [publish, SavedataParameters.publish, if_true, hremoved]
  split
  · rfl
  · rfl

theorem stage_default (fs : Directories) (data : List Byte) :
    ((stage {} makeSavedataSfo p fs data).1, (stage {} makeSavedataSfo p fs data).2.1) =
      p.stage makeSavedataSfo fs data := by
  obtain ⟨hdirectories, hok⟩ := Prod.mk.inj (writeAssets_default p.staging p.assets
    (((fs.removeAll p.staging).createDirectories p.staging).writeFile p.staging p.name.file data))
  refine Prod.ext ?_ hok
  exact congrArg (fun fs : Directories => fs.writeFile p.staging "PARAM.SFO" _) hdirectories

/-- Where no operation fails, a save is that of the map of files. -/
theorem save_default (fs : Directories) :
    ((save {} makeSavedataSfo p fs).directories, (save {} makeSavedataSfo p fs).result) =
      p.save makeSavedataSfo fs := by
  unfold save SavedataParameters.save
  split
  · rfl
  cases p.source with
  | none => rfl
  | some data =>
    dsimp only
    rw [← stage_default]
    dsimp only
    split
    · exact publish_default p _
    · rfl

end SaveHost

/-! ### What a failure leaves -/

/-- Some step of the save failed. -/
def SaveEnd.StepFails (e : SaveEnd) : Prop := ∃ step, (step, false) ∈ e.steps

/-- An error is reported, and the save directory is as it was. -/
def SaveEnd.Kept (e : SaveEnd) (p : SavedataParameters) (fs : Directories) : Prop :=
  e.result ≠ 0 ∧ e.directories p.name.directory = fs p.name.directory

/-- The save sees its staging directory complete: no operation on it fails but writes that are lost when the file of an
asset is closed. -/
def SaveHost.Stages (host : SaveHost) (p : SavedataParameters) : Prop :=
  host.createStaging = true ∧ host.writeData = .done ∧ host.writeSfo = .done ∧
    ∀ asset ∈ p.assets, asset.2 ≠ some [] → asset.2 ≠ none ∧ ∀ left, host.writeAsset asset.1 ≠ .failed left

/-- The save stops before it is published, or it is the staged directory that cannot be moved into place. Failures to
find or to move the save directory are recovered from when there is none, or when what is left of an old backup is
the same. -/
def SaveHost.Recovers (host : SaveHost) (p : SavedataParameters) (fs : Directories) : Prop :=
  ¬ host.Stages p ∨
    (host.findDirectory = false ∧ fs p.name.directory = none) ∨
    (host.findDirectory = true ∧ fs p.name.directory = none ∧ host.renameIntoPlace = false) ∨
    (host.findDirectory = true ∧ fs p.name.directory ≠ none ∧ host.renameAway = true ∧ host.renameIntoPlace = false) ∨
    (host.findDirectory = true ∧ fs p.name.directory ≠ none ∧ host.renameAway = false ∧
      host.backupLeft = some (fs p.name.directory))

namespace Directories
variable {fs : Directories} {d d' file : String}

theorem removeAllOn_of_ne {outcome : Option (Option Directory)} (h : d' ≠ d) :
    fs.removeAllOn d outcome d' = fs d' := by
  cases outcome with
  | none => exact removeAll_of_ne h
  | some left => exact Function.update_of_ne h _ _

theorem removeAllOn_self (outcome : Option (Option Directory)) : fs.removeAllOn d outcome d = outcome.getD none := by
  cases outcome with
  | none => exact Function.update_self ..
  | some left => exact Function.update_self ..

theorem writeOn_of_ne {bytes : List Byte} {outcome : WriteOutcome} (h : d' ≠ d) :
    fs.writeOn d file bytes outcome d' = fs d' := by
  unfold writeOn
  cases fs d with
  | none => rfl
  | some files => exact Function.update_of_ne h _ _

end Directories

namespace SaveHost
variable {host : SaveHost} {p : SavedataParameters} {fs : Directories}

theorem writeAssets_of_ne {d d' : String} (h : d' ≠ d) (assets : List (String × Option (List Byte))) :
    ∀ fs : Directories, (host.writeAssets fs d assets).1 d' = fs d' := by
  induction assets with
  | nil => exact fun _ => rfl
  | cons asset rest ih =>
    intro fs
    obtain ⟨name, _ | _ | ⟨b, bytes⟩⟩ := asset
    · rfl
    · exact ih fs
    · simp only [writeAssets]
      split
      · exact Directories.writeOn_of_ne h
      · exact (ih _).trans (Directories.writeOn_of_ne h)
      · exact (ih _).trans (Directories.writeOn_of_ne h)

/-- The assets are taken as written unless one is seen to fail. -/
theorem writeAssets_ok (assets : List (String × Option (List Byte))) :
    ∀ (fs : Directories) (d : String), (host.writeAssets fs d assets).2.1 = true ↔
      ∀ asset ∈ assets, asset.2 ≠ some [] → asset.2 ≠ none ∧ ∀ left, host.writeAsset asset.1 ≠ .failed left := by
  induction assets with
  | nil => simp [writeAssets]
  | cons asset rest ih =>
    intro fs d
    obtain ⟨name, _ | _ | ⟨b, bytes⟩⟩ := asset
    · simp [writeAssets]
    · simp [writeAssets, ih]
    · simp only [writeAssets, List.forall_mem_cons]
      split
      next left heq => simp [heq]
      next left heq => simp [heq, ih]
      next heq => simp [heq, ih]

theorem stage_of_ne {makeSavedataSfo : String → String → String → List Byte} {data : List Byte} {d : String}
    (h : d ≠ p.staging) : (host.stage makeSavedataSfo p fs data).1 d = fs d := by
  simp only [stage]
  rw [Directories.writeOn_of_ne h, writeAssets_of_ne h, Directories.writeOn_of_ne h]
  split
  · rw [Directories.createDirectories_of_ne h, Directories.removeAllOn_of_ne h]
  · rw [Directories.removeAllOn_of_ne h]

theorem stage_ok {makeSavedataSfo : String → String → String → List Byte} {data : List Byte} :
    (host.stage makeSavedataSfo p fs data).2.1 = true ↔ host.Stages p := by
  simp only [stage, Bool.and_eq_true, decide_eq_true_eq, writeAssets_ok, Stages, and_assoc]

/-! ### The renames -/

theorem recover_false : recover p fs false p.name.directory = none := Function.update_self ..

/-- With the backup moved back the directory is what the backup was. -/
theorem recover_true : recover p fs true p.name.directory = fs p.backup := by
  have hbd := p.backup_ne_directory
  rw [recover, if_pos rfl, Directories.rename_apply hbd.symm, Directories.removeAll_of_ne hbd]

/-- A publication ends in an error with the directory as it was just when the branch recovers. -/
theorem publish_kept :
    (host.publish p fs).Kept p fs ↔
      (host.findDirectory = false ∧ fs p.name.directory = none) ∨
      (host.findDirectory = true ∧ fs p.name.directory = none ∧ host.renameIntoPlace = false) ∨
      (host.findDirectory = true ∧ fs p.name.directory ≠ none ∧ host.renameAway = true ∧
        host.renameIntoPlace = false) ∨
      (host.findDirectory = true ∧ fs p.name.directory ≠ none ∧ host.renameAway = false ∧
        host.backupLeft = some (fs p.name.directory)) := by
  have hbd := p.backup_ne_directory
  have hkept : fs.removeAllOn p.backup host.backupLeft p.name.directory = fs p.name.directory :=
    Directories.removeAllOn_of_ne hbd.symm
  unfold publish SaveEnd.Kept
  dsimp only
  rw [hkept]
  cases hold : fs p.name.directory with
  | none =>
    cases host.findDirectory with
    | false => simp [recover_false]
    | true => cases host.renameIntoPlace <;> simp [recover_false]
  | some files =>
    cases host.findDirectory with
    | false => simp [recover_false]
    | true =>
      cases host.renameAway with
      | false =>
        simp only [Option.isSome_some, if_true, Bool.false_eq_true, if_false, recover_true,
          Directories.removeAllOn_self]
        cases host.backupLeft <;> simp
      | true =>
        cases host.renameIntoPlace with
        | true => simp
        | false => simp [recover_true, Directories.rename_apply hbd, hkept, hold]

end SaveHost

/-- A save in which some step fails reports an error and keeps the save directory exactly when it recovers. -/
theorem save_failure_kept (makeSavedataSfo : String → String → String → List Byte) (host : SaveHost)
    (p : SavedataParameters) (fs : Directories) (hfails : (host.save makeSavedataSfo p fs).StepFails) :
    (host.save makeSavedataSfo p fs).Kept p fs ↔ host.Recovers p fs := by
  obtain ⟨step, hstep⟩ := hfails
  unfold SaveHost.save at hstep ⊢
  split at hstep
  · cases hstep
  next hvalid =>
    rw [if_neg hvalid]
    cases hsource : p.source with
    | none =>
      rw [hsource] at hstep
      cases hstep
    | some data =>
      have hsd := p.staging_ne_directory
      have hstaged : (host.stage makeSavedataSfo p fs data).1 p.name.directory = fs p.name.directory :=
        SaveHost.stage_of_ne hsd.symm
      dsimp only
      by_cases hok : (host.stage makeSavedataSfo p fs data).2.1 = true
      · have hpublished := @SaveHost.publish_kept host p (host.stage makeSavedataSfo p fs data).1
        rw [if_pos hok, SaveHost.Recovers, or_iff_right (not_not.2 (SaveHost.stage_ok.1 hok))]
        rw [SaveEnd.Kept, hstaged] at hpublished
        exact hpublished
      · rw [if_neg hok]
        refine iff_of_true ⟨show (0x80110385 : Word) ≠ 0 by decide, ?_⟩ (.inl fun hstages => hok (SaveHost.stage_ok.2 hstages))
        dsimp only
        rw [Directories.removeAll_of_ne hsd.symm, hstaged]

open SavedataParameters in
/-- The staged directory cannot be moved into place. -/
theorem save_failure_kept_slot :
    (SaveHost.save { renameIntoPlace := false } (fun _ _ _ => []) (saving "GAME" "A" "DATA" [1])
      fun _ => some fun _ => none).Kept (saving "GAME" "A" "DATA" [1]) fun _ => some fun _ => none := by
  refine (save_failure_kept _ _ _ _ ⟨.renameIntoPlace, by decide⟩).2 ?_
  exact .inr (.inr (.inr (.inl ⟨rfl, Option.some_ne_none _, rfl, rfl⟩)))

open SavedataParameters in
/-- A save directory that cannot be moved away is removed. -/
theorem save_failure_lost :
    let fs : Directories := fun _ => some fun _ => some [7]
    let p := saving "GAME" "A" "DATA" [1]
    let e := SaveHost.save { renameAway := false } (fun _ _ _ => []) p fs
    e.StepFails ∧ e.directories p.name.directory = none ∧ ¬ e.Kept p fs := by
  intro fs p e
  have hlost : e.directories p.name.directory = none := by decide
  refine ⟨⟨.renameAway, by decide⟩, hlost, ?_⟩
  rintro ⟨-, hkept⟩
  rw [hlost] at hkept
  cases hkept

end Psprism
