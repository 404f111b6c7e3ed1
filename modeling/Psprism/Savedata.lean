import Psprism.Reloc
import Psprism.Lib.Interleaving
import Mathlib.Logic.Function.Basic

/-!
# Savedata (`sceUtilitySavedataUpdate.cpp`)

A save writes its data file, the icons it comes with and a `PARAM.SFO` into a staging directory, and puts
that in the place of the whole save directory, whose name is the game name followed by the save name. A load
reads one file. The host file system is a map: below `PSP/SAVEDATA` from directory names to directories, and
in these from file names to bytes. Its operations succeed; of two files written under one name the later
stands. What a load copies besides the data file is left out.

So a save keeps nothing else that was saved in its directory, nor in the directories that have its name with
the suffixes for staging and backup, and a data file may be hidden by a file that comes with it. Away from
these a file holds what was last saved in it (`savedata_map`).
-/

namespace Psprism
open Interleaving

abbrev Directory := String → Option (List Byte)
abbrev Directories := String → Option Directory

namespace Directories

def removeAll (fs : Directories) (d : String) : Directories := Function.update fs d none

def createDirectories (fs : Directories) (d : String) : Directories :=
  if (fs d).isSome then fs else Function.update fs d (some fun _ => none)

def writeFile (fs : Directories) (d file : String) (bytes : List Byte) : Directories :=
  match fs d with
  | none => fs
  | some files => Function.update fs d (some (Function.update files file (some bytes)))

/-- To a name that is free. -/
def rename (fs : Directories) (d d' : String) : Directories :=
  Function.update (Function.update fs d' (fs d)) d none

end Directories

structure SavedataName where
  game : String
  save : String
  file : String
deriving DecidableEq

def SavedataName.directory (n : SavedataName) : String := n.game ++ n.save

def safeComponent (value : String) : Prop :=
  value ≠ "" ∧ value ≠ "." ∧ value ≠ ".." ∧ '/' ∉ value.toList ∧ '\\' ∉ value.toList

instance (value : String) : Decidable (safeComponent value) := inferInstanceAs (Decidable (_ ∧ _))

/-- `valid_path`. -/
def SavedataName.Valid (n : SavedataName) : Prop :=
  (safeComponent n.game ∧ safeComponent n.save) ∧ safeComponent n.file

instance (n : SavedataName) : Decidable n.Valid := inferInstanceAs (Decidable (_ ∧ _))

/-- What the operation reads in the guest's parameter block, with the memory it points to. -/
structure SavedataParameters where
  mode : Nat
  name : SavedataName
  /-- The data to save, if it is mapped. -/
  source : Option (List Byte) := none
  bufferSize : Nat := 0
  /-- Whether so many bytes of the buffer to load into are mapped. -/
  destination : Nat → Bool := fun _ => false
  /-- The icons and sounds to save, if they are mapped; one of size zero is not there. -/
  icon0 : Option (List Byte) := some []
  icon1 : Option (List Byte) := some []
  pic1 : Option (List Byte) := some []
  snd0 : Option (List Byte) := some []
  title : String := ""
  savedataTitle : String := ""
  detail : String := ""

namespace SavedataParameters

def loadMode (p : SavedataParameters) : Prop := p.mode ∈ [0, 2, 4, 15, 16]
def saveMode (p : SavedataParameters) : Prop := p.mode ∈ [1, 3, 5, 13, 14, 17, 18]

instance (p : SavedataParameters) : Decidable p.loadMode := inferInstanceAs (Decidable (_ ∈ _))
instance (p : SavedataParameters) : Decidable p.saveMode := inferInstanceAs (Decidable (_ ∈ _))

def assets (p : SavedataParameters) : List (String × Option (List Byte)) :=
  [("ICON0.PNG", p.icon0), ("ICON1.PMF", p.icon1), ("PIC1.PNG", p.pic1), ("SND0.AT3", p.snd0)]

def staging (p : SavedataParameters) : String := p.name.directory ++ ".refract.tmp"
def backup (p : SavedataParameters) : String := p.name.directory ++ ".refract.backup"

end SavedataParameters

def stored (fs : Directories) (n : SavedataName) : Option (List Byte) := (fs n.directory).bind (· n.file)

/-- The assets up to the first that is not mapped, and whether there is none such. -/
def writeAssets (fs : Directories) (staging : String) : List (String × Option (List Byte)) → Directories × Bool
  | [] => (fs, true)
  | (_, none) :: _ => (fs, false)
  | (_, some []) :: rest => writeAssets fs staging rest
  | (name, some bytes) :: rest => writeAssets (fs.writeFile staging name bytes) staging rest

/-- A load, with its result and the bytes it puts in the buffer. -/
def SavedataParameters.load (p : SavedataParameters) (fs : Directories) : Word × Option (List Byte) :=
  let noData : Word := if p.mode = 15 ∨ p.mode = 16 then 0x80110327 else 0x80110307
  if ¬ p.name.Valid then (noData, none)
  else
    match stored fs p.name with
    | none => (noData, none)
    | some bytes =>
      let readSize := min bytes.length p.bufferSize
      if p.destination readSize then (0, some (bytes.take readSize)) else (noData, none)

section
variable (makeSavedataSfo : String → String → String → List Byte)

/-- The staging directory of a save, and whether the assets are written. -/
def SavedataParameters.stage (p : SavedataParameters) (fs : Directories) (data : List Byte) :
    Directories × Bool :=
  let fs := (fs.removeAll p.staging).createDirectories p.staging
  let (fs, assetsOk) := writeAssets (fs.writeFile p.staging p.name.file data) p.staging p.assets
  (fs.writeFile p.staging "PARAM.SFO" (makeSavedataSfo p.title p.savedataTitle p.detail), assetsOk)

/-- The staging directory takes the place of the save directory. -/
def SavedataParameters.publish (p : SavedataParameters) (fs : Directories) : Directories :=
  let directory := p.name.directory
  let fs := fs.removeAll p.backup
  let fs := if (fs directory).isSome then fs.rename directory p.backup else fs
  (fs.rename p.staging directory).removeAll p.backup

def SavedataParameters.save (p : SavedataParameters) (fs : Directories) : Directories × Word :=
  if ¬ p.name.Valid then (fs, 0x80110388)
  else
    match p.source with
    | none => (fs, 0x80110388)
    | some data =>
      let (fs, assetsOk) := p.stage makeSavedataSfo fs data
      if assetsOk then (p.publish fs, 0) else (fs.removeAll p.staging, 0x80110385)

/-- The file system and what was saved, the last save first. -/
structure SavedataRun where
  directories : Directories := fun _ => none
  log : List (SavedataName × List Byte) := []

namespace SavedataRun

/-- A load or save that succeeds. -/
def step (s : SavedataRun) (p : SavedataParameters) : Option SavedataRun :=
  if p.loadMode then if (p.load s.directories).1 = 0 then some s else none
  else if p.saveMode then
    match p.source, p.save makeSavedataSfo s.directories with
    | some data, (directories, 0) => some { directories, log := (p.name, data) :: s.log }
    | _, _ => none
  else none

def lastSaved (log : List (SavedataName × List Byte)) (n : SavedataName) : Option (List Byte) :=
  (log.find? (·.1 = n)).map Prod.snd

/-- A load of what was saved gives it back. -/
def Faithful (s : SavedataRun) : Prop :=
  ∀ n bytes, lastSaved s.log n = some bytes → ∀ p : SavedataParameters, p.name = n →
    bytes.length ≤ p.bufferSize → p.destination bytes.length = true → p.load s.directories = (0, some bytes)

/-- A save does not write another file under the name of the data file, and nothing else that was saved is in
its directory, staging directory or backup directory. -/
def Alone (s : SavedataRun) (p : SavedataParameters) : Prop :=
  p.loadMode ∨ p.name.file ≠ "PARAM.SFO" ∧ (∀ asset ∈ p.assets, asset.2 ≠ some [] → p.name.file ≠ asset.1) ∧
    ∀ saved ∈ s.log, saved.1 ≠ p.name → saved.1.directory ∉ [p.name.directory, p.staging, p.backup]

instance (s : SavedataRun) (p : SavedataParameters) : Decidable (s.Alone p) :=
  inferInstanceAs (Decidable (_ ∨ _ ∧ _ ∧ _))

end SavedataRun
end

/-! ### The file system -/

namespace Directories
variable {fs : Directories} {d d' file : String} {bytes : List Byte}

@[simp] theorem removeAll_of_ne (h : d' ≠ d) : fs.removeAll d d' = fs d' := Function.update_of_ne h _ _

@[simp] theorem createDirectories_of_ne (h : d' ≠ d) : fs.createDirectories d d' = fs d' := by
  unfold createDirectories
  split_ifs
  · rfl
  · exact Function.update_of_ne h _ _

@[simp] theorem writeFile_of_ne (h : d' ≠ d) : fs.writeFile d file bytes d' = fs d' := by
  unfold writeFile
  cases fs d with
  | none => rfl
  | some files => exact Function.update_of_ne h _ _

theorem writeFile_self {files : Directory} (h : fs d = some files) :
    fs.writeFile d file bytes d = some (Function.update files file (some bytes)) := by
  rw [writeFile, h]
  exact Function.update_self _ _ _

theorem createDirectories_removeAll :
    (fs.removeAll d).createDirectories d d = some fun _ => none := by
  rw [createDirectories, removeAll, Function.update_self]
  exact Function.update_self _ _ _

theorem rename_apply (h : d' ≠ d) : fs.rename d d' d' = fs d := by
  rw [rename, Function.update_of_ne h, Function.update_self]

@[simp] theorem rename_of_ne {x : String} (h : x ≠ d) (h' : x ≠ d') : fs.rename d d' x = fs x := by
  rw [rename, Function.update_of_ne h, Function.update_of_ne h']

end Directories

theorem writeAssets_of_ne {d d' : String} (h : d' ≠ d) (assets : List (String × Option (List Byte))) :
    ∀ fs : Directories, (writeAssets fs d assets).1 d' = fs d' := by
  induction assets with
  | nil => exact fun _ => rfl
  | cons asset rest ih =>
    intro fs
    obtain ⟨name, _ | _ | ⟨b, bytes⟩⟩ := asset
    · rfl
    · exact ih fs
    · exact (ih _).trans (Directories.writeFile_of_ne h)

theorem writeAssets_file {d file : String} (assets : List (String × Option (List Byte)))
    (hfile : ∀ asset ∈ assets, asset.2 ≠ some [] → file ≠ asset.1) :
    ∀ (fs : Directories) (files : Directory), fs d = some files →
      ∃ files', (writeAssets fs d assets).1 d = some files' ∧ files' file = files file := by
  induction assets with
  | nil => exact fun _ files h => ⟨files, h, rfl⟩
  | cons asset rest ih =>
    intro fs files h
    obtain ⟨hasset, hrest⟩ := List.forall_mem_cons.1 hfile
    obtain ⟨name, _ | _ | ⟨b, bytes⟩⟩ := asset
    · exact ⟨files, h, rfl⟩
    · exact ih hrest fs files h
    · obtain ⟨files', h', heq⟩ := ih hrest _ _ (Directories.writeFile_self h)
      exact ⟨files', h', heq.trans (Function.update_of_ne (hasset (by simp)) _ _)⟩

namespace SavedataParameters
variable (p : SavedataParameters)

theorem staging_ne_directory : p.staging ≠ p.name.directory := fun h => by
  have hlength := congrArg String.length h
  rw [staging, String.length_append] at hlength
  have htmp : (".refract.tmp").length = 12 := rfl
  omega

theorem backup_ne_directory : p.backup ≠ p.name.directory := fun h => by
  have hlength := congrArg String.length h
  rw [backup, String.length_append] at hlength
  have hbackup : (".refract.backup").length = 15 := rfl
  omega

theorem staging_ne_backup : p.staging ≠ p.backup := fun h => by
  have hlength := congrArg String.length h
  rw [staging, backup, String.length_append, String.length_append] at hlength
  have htmp : (".refract.tmp").length = 12 := rfl
  have hbackup : (".refract.backup").length = 15 := rfl
  omega

variable {p} (makeSavedataSfo : String → String → String → List Byte) {fs : Directories} {data : List Byte}

theorem stage_of_ne {d : String} (h : d ≠ p.staging) : (p.stage makeSavedataSfo fs data).1 d = fs d := by
  simp only [stage]
  rw [Directories.writeFile_of_ne h, writeAssets_of_ne h, Directories.writeFile_of_ne h,
    Directories.createDirectories_of_ne h, Directories.removeAll_of_ne h]

/-- The data file is in the staging directory, unless another file has its name. -/
theorem stage_file (fs : Directories) (data : List Byte) (hsfo : p.name.file ≠ "PARAM.SFO")
    (hassets : ∀ asset ∈ p.assets, asset.2 ≠ some [] → p.name.file ≠ asset.1) :
    ∃ files, (p.stage makeSavedataSfo fs data).1 p.staging = some files ∧ files p.name.file = some data := by
  obtain ⟨files, hfiles, hdata⟩ := writeAssets_file p.assets hassets
    (((fs.removeAll p.staging).createDirectories p.staging).writeFile p.staging p.name.file data) _
    (Directories.writeFile_self Directories.createDirectories_removeAll)
  refine ⟨_, Directories.writeFile_self hfiles, ?_⟩
  rw [Function.update_of_ne hsfo, hdata, Function.update_self]

theorem publish_directory : p.publish fs p.name.directory = fs p.staging := by
  have hsd := p.staging_ne_directory
  have hbd := p.backup_ne_directory
  have hsb := p.staging_ne_backup
  simp only [publish]
  rw [Directories.removeAll_of_ne hbd.symm, Directories.rename_apply hsd.symm]
  split_ifs
  · rw [Directories.rename_of_ne hsd hsb, Directories.removeAll_of_ne hsb]
  · rw [Directories.removeAll_of_ne hsb]

theorem publish_of_not_mem {d : String} (h : d ∉ [p.name.directory, p.staging, p.backup]) :
    p.publish fs d = fs d := by
  simp only [List.mem_cons, List.not_mem_nil, or_false, not_or] at h
  obtain ⟨hdirectory, hstaging, hbackup⟩ := h
  simp only [publish]
  rw [Directories.removeAll_of_ne hbackup, Directories.rename_of_ne hstaging hdirectory]
  split_ifs
  · rw [Directories.rename_of_ne hdirectory hbackup, Directories.removeAll_of_ne hbackup]
  · rw [Directories.removeAll_of_ne hbackup]

theorem save_eq {fs' : Directories} (hsource : p.source = some data) (h : p.save makeSavedataSfo fs = (fs', 0)) :
    p.name.Valid ∧ fs' = p.publish (p.stage makeSavedataSfo fs data).1 := by
  unfold save at h
  split_ifs at h with hvalid
  · rw [hsource] at h
    dsimp only at h
    split_ifs at h with hassets
    · exact ⟨hvalid, (Prod.mk.inj h).1.symm⟩
    · exact absurd (Prod.mk.inj h).2 (by decide)
  · exact absurd (Prod.mk.inj h).2 (by decide)

theorem load_eq {bytes : List Byte} (hvalid : p.name.Valid) (hstored : stored fs p.name = some bytes)
    (hsize : bytes.length ≤ p.bufferSize) (hdestination : p.destination bytes.length = true) :
    p.load fs = (0, some bytes) := by
  simp only [load, hvalid, not_true, if_false, hstored, Nat.min_eq_left hsize, hdestination, if_true,
    List.take_length]

end SavedataParameters

/-! ### Runs -/

namespace SavedataRun
variable {makeSavedataSfo : String → String → String → List Byte} {s s' : SavedataRun} {p : SavedataParameters}

structure Inv (s : SavedataRun) : Prop where
  valid : ∀ saved ∈ s.log, saved.1.Valid
  stored : ∀ n bytes, lastSaved s.log n = some bytes → stored s.directories n = some bytes

theorem inv_start : Inv {} := ⟨by simp, by simp [lastSaved]⟩

theorem mem_of_lastSaved {log : List (SavedataName × List Byte)} {n : SavedataName} {bytes : List Byte}
    (h : lastSaved log n = some bytes) : ∃ saved ∈ log, saved.1 = n := by
  obtain ⟨saved, hfind, -⟩ := Option.map_eq_some_iff.1 h
  exact ⟨saved, List.mem_of_find?_eq_some hfind, by simpa using List.find?_some hfind⟩

theorem lastSaved_cons_self (n : SavedataName) (data : List Byte) (log : List (SavedataName × List Byte)) :
    lastSaved ((n, data) :: log) n = some data := by
  simp [lastSaved]

theorem lastSaved_cons_of_ne {n m : SavedataName} (h : n ≠ m) (data : List Byte)
    (log : List (SavedataName × List Byte)) : lastSaved ((n, data) :: log) m = lastSaved log m := by
  simp [lastSaved, h]

theorem Inv.faithful (h : Inv s) : s.Faithful := by
  rintro n bytes hsaved p rfl hsize hdestination
  obtain ⟨saved, hmem, hname⟩ := mem_of_lastSaved hsaved
  exact SavedataParameters.load_eq (hname ▸ h.valid saved hmem) (h.stored _ _ hsaved) hsize hdestination

theorem step_cases (hstep : s.step makeSavedataSfo p = some s') :
    (p.loadMode ∧ s' = s) ∨
      (¬ p.loadMode ∧ ∃ data, p.source = some data ∧ p.name.Valid ∧
        s' = { directories := p.publish (p.stage makeSavedataSfo s.directories data).1,
               log := (p.name, data) :: s.log }) := by
  unfold step at hstep
  split_ifs at hstep with hload hresult hsave
  · exact .inl ⟨hload, (Option.some.inj hstep).symm⟩
  · split at hstep
    · rename_i data directories hsource heq
      obtain ⟨hvalid, rfl⟩ := SavedataParameters.save_eq makeSavedataSfo hsource heq
      exact .inr ⟨hload, data, hsource, hvalid, (Option.some.inj hstep).symm⟩
    · cases hstep

/-- A save alone in its directories leaves every other file that was saved as it is. -/
theorem stored_of_alone (halone : s.Alone p) (hload : ¬ p.loadMode) (data : List Byte)
    {saved : SavedataName × List Byte} (hmem : saved ∈ s.log) (hne : saved.1 ≠ p.name) :
    stored (p.publish (p.stage makeSavedataSfo s.directories data).1) saved.1 = stored s.directories saved.1 := by
  have hdirectory := (halone.resolve_left hload).2.2 saved hmem hne
  have hstaging : saved.1.directory ≠ p.staging := fun heq => hdirectory (by simp [heq])
  rw [stored, stored, SavedataParameters.publish_of_not_mem hdirectory,
    SavedataParameters.stage_of_ne makeSavedataSfo hstaging]

theorem Inv.step (h : Inv s) (halone : s.Alone p) (hstep : s.step makeSavedataSfo p = some s') : Inv s' := by
  rcases step_cases hstep with ⟨-, rfl⟩ | ⟨hload, data, hsource, hvalid, rfl⟩
  · exact h
  refine ⟨List.forall_mem_cons.2 ⟨hvalid, h.valid⟩, fun n bytes hsaved => ?_⟩
  by_cases hn : p.name = n
  · subst hn
    rw [lastSaved_cons_self] at hsaved
    obtain rfl := Option.some.inj hsaved
    obtain ⟨hsfo, hassets, -⟩ := halone.resolve_left hload
    obtain ⟨files, hfiles, hdata⟩ := SavedataParameters.stage_file makeSavedataSfo s.directories data hsfo hassets
    show (p.publish (p.stage makeSavedataSfo s.directories data).1 p.name.directory).bind (· p.name.file) = _
    rw [SavedataParameters.publish_directory, hfiles]
    exact hdata
  · rw [lastSaved_cons_of_ne hn] at hsaved
    obtain ⟨saved, hmem, rfl⟩ := mem_of_lastSaved hsaved
    rw [stored_of_alone halone hload data hmem (Ne.symm hn)]
    exact h.stored _ _ hsaved

end SavedataRun

/-- After every run whose saves are alone, a load of what was saved gives back what was last saved under its
name; and another save that is alone changes no other file that was saved. -/
theorem savedata_map (makeSavedataSfo : String → String → String → List Byte)
    (operations : List SavedataParameters) (s : SavedataRun)
    (halone : Guarded (SavedataRun.step makeSavedataSfo) SavedataRun.Alone {} operations)
    (hrun : run (SavedataRun.step makeSavedataSfo) {} operations = some s) :
    s.Faithful ∧ ∀ p s', s.Alone p → s.step makeSavedataSfo p = some s' →
      ∀ saved ∈ s.log, saved.1 ≠ p.name → stored s'.directories saved.1 = stored s.directories saved.1 := by
  have h : SavedataRun.Inv s :=
    run_guarded (fun _ _ _ h halone hstep => h.step halone hstep) SavedataRun.inv_start halone hrun
  refine ⟨h.faithful, fun p s' hp hstep saved hmem hne => ?_⟩
  rcases SavedataRun.step_cases hstep with ⟨-, rfl⟩ | ⟨hload, data, -, -, rfl⟩
  · rfl
  · exact SavedataRun.stored_of_alone hp hload data hmem hne

def SavedataParameters.saving (game save file : String) (bytes : List Byte) : SavedataParameters :=
  { mode := 1, name := ⟨game, save, file⟩, source := some bytes }

open SavedataParameters in
/-- Two saves of a game with one file each, the first of them saved twice. -/
theorem savedata_map_slots :
    ∃ s, run (SavedataRun.step fun _ _ _ => []) {} [saving "GAME" "A" "DATA" [1], saving "GAME" "B" "DATA" [2],
        saving "GAME" "A" "DATA" [3]] = some s ∧ s.Faithful := by
  obtain ⟨s, hs⟩ := Option.isSome_iff_exists.1 (show (run (SavedataRun.step fun _ _ _ => []) {}
    [saving "GAME" "A" "DATA" [1], saving "GAME" "B" "DATA" [2], saving "GAME" "A" "DATA" [3]]).isSome = true by
      decide)
  exact ⟨s, hs, (savedata_map _ _ s (by decide) hs).1⟩

open SavedataParameters in
/-- A second file of one save replaces the first, which a load then does not find. -/
theorem savedata_lost :
    ∃ s, run (SavedataRun.step fun _ _ _ => []) {} [saving "GAME" "A" "ONE" [1], saving "GAME" "A" "TWO" [2]] =
      some s ∧ ¬ s.Faithful := by
  let loading : SavedataParameters :=
    { mode := 0, name := ⟨"GAME", "A", "ONE"⟩, bufferSize := 1, destination := fun size => size = 1 }
  have hend : (run (SavedataRun.step fun _ _ _ => []) {}
      [saving "GAME" "A" "ONE" [1], saving "GAME" "A" "TWO" [2]]).map
        (fun s => (SavedataRun.lastSaved s.log loading.name, loading.load s.directories)) =
          some (some [1], 0x80110307, none) := by
    decide
  obtain ⟨s, hs, heq⟩ := Option.map_eq_some_iff.1 hend
  obtain ⟨hsaved, hload⟩ := Prod.mk.inj heq
  refine ⟨s, hs, fun hfaithful => ?_⟩
  have hfound := hfaithful _ _ hsaved loading rfl (by decide) (by decide)
  rw [hload] at hfound
  exact absurd hfound (by decide)

end Psprism
