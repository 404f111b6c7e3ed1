import Psprism.Lib.HostPath
import Psprism.Savedata

/-!
# The host paths of savedata (`sceUtilitySavedataInitStart.cpp`, `sceUtilitySavedataUpdate.cpp`)

Every path that the dialog and its operation use starts at `PSP/SAVEDATA` below the writable root, and goes on with a
game name and a save name put together, and for a file with the file's name. The names are the guest's: those of the
parameter block, a list of save names, the name of the dialog's item, another block for the sizes. Loads, saves and
the deletes of one directory check the names first, but not for a drive of a Windows host in front. The dialog's items,
the delete of all listed directories, the sizes and the lists of files do not check theirs. Where names are enumerated,
`SAVEDATA` itself is read, and a save creates it where it is missing.

Paths are those of the host, POSIX or Windows (`Psprism.Lib.HostPath`), followed as text.
-/

namespace Psprism
open HostPath

/-- The host of a runtime and its writable root. -/
structure SavedataHost extends Process where
  writableRoot : HostPath.Path

/-- An entry of a directory of the host. -/
abbrev Entry (system : System) := { name : String // IsEntry system name.toList }

/-- What the host has of `SAVEDATA`: whether it is there, its entries, and whether a path from there is a directory. -/
structure SavedataTree (system : System) where
  present : Bool := true
  entries : List (Entry system) := []
  isDirectory : String → Bool := fun _ => false
  files : String → List (Entry system) := fun _ => []

/-- What both calls read in the guest's memory. -/
structure SavedataBlock extends SavedataParameters where
  /-- The listed names, up to the first that is empty or not mapped. -/
  nameList : List String := []
  /-- `1480`, if it is mapped. -/
  focus : Nat := 0
  /-- The game and save name of the sizes, if mapped. -/
  requested : Option (String × String) := none
  /-- Whether what a list is written to is mapped. -/
  listMapped : Bool := false

inductive AccessKind
  | creates | reads | lists | deletes
deriving DecidableEq

/-- A path from `SAVEDATA`: a directory, which is `SAVEDATA` itself if it is empty, or a file in one. -/
structure SavedataAccess where
  kind : AccessKind
  directory : String
  file : Option String := none
deriving DecidableEq

namespace SavedataHost
variable (host : SavedataHost)

def join (a : HostPath.Path) (b : String) : HostPath.Path := append host.system a (parse host.system b.toList)

/-- `writable_root / "PSP" / "SAVEDATA"`. -/
def saveRoot : HostPath.Path := host.join (host.join host.writableRoot "PSP") "SAVEDATA"

def path (a : SavedataAccess) : HostPath.Path :=
  let directory := host.join host.saveRoot a.directory
  match a.file with
  | none => directory
  | some file => host.join directory file

/-- Where a path is. -/
def location (a : SavedataAccess) : Place := host.resolve (host.path a)

/-- Where `SAVEDATA` is. -/
def savedata : Place := host.resolve host.saveRoot

/-- The path lies strictly inside `PSP/SAVEDATA` below the writable root. -/
def Inside (a : SavedataAccess) : Prop := host.savedata.Encloses (host.location a)

/-- The name leads strictly inside `SAVEDATA` from there. -/
def Descends (directory : String) : Prop :=
  host.toProcess.Descends host.savedata host.saveRoot (parse host.system directory.toList)

/-- The name leads inside `SAVEDATA` from there, or to it. -/
def ComesBack (directory : String) : Prop :=
  host.toProcess.ComesBack host.savedata host.saveRoot (parse host.system directory.toList)

/-- The name of a file leads strictly inside `SAVEDATA` from a directory. -/
def FileDescends (directory file : String) : Prop :=
  host.toProcess.Descends host.savedata (host.join host.saveRoot directory) (parse host.system file.toList)

end SavedataHost

/-! ### `sceUtilitySavedataInitStart` -/

namespace SavedataBlock
variable {system : System} (tree : SavedataTree system) (b : SavedataBlock)

def validDirectory : Prop := safeComponent b.name.game ∧ safeComponent b.name.save

instance : Decidable b.validDirectory := inferInstanceAs (Decidable (_ ∧ _))

/-- The names the guest gives: the list's, or the save name. -/
def guestNames : List String :=
  if b.nameList = [] then (if b.name.save = "" then [] else [b.name.save]) else b.nameList

/-- The host's directories of the game, for a delete without names. -/
def ownNames : List String :=
  tree.entries.filterMap fun e =>
    if tree.isDirectory e.val ∧ b.name.game.toList <+: e.val.toList then
      some (String.ofList (e.val.toList.drop b.name.game.length))
    else none

/-- The items of the dialog, and those of the operation behind it. -/
def dialogNames : List String :=
  if b.mode = 7 ∧ b.guestNames = [] then b.ownNames tree else b.guestNames

def interactive : Prop := 2 ≤ b.mode ∧ b.mode ≤ 7

instance : Decidable b.interactive := inferInstanceAs (Decidable (_ ∧ _))

/-- `DialogKind::savedata_save`, of an interactive mode. -/
def saveDialog : Prop := b.mode = 3 ∨ b.mode = 5

instance : Decidable b.saveDialog := inferInstanceAs (Decidable (_ ∨ _))

/-- `savedata_names` in the end. A save without names has one item, of the save name. -/
def savedataNames : List String :=
  if b.saveDialog ∧ b.dialogNames tree = [] then [b.name.save] else b.dialogNames tree

/-- An item of the dialog. -/
def itemAccesses (directory : String) : List SavedataAccess :=
  ⟨.reads, directory, none⟩ ::
    if tree.isDirectory directory then
      [⟨.reads, directory, some "PARAM.SFO"⟩, ⟨.lists, directory, none⟩, ⟨.reads, directory, some "ICON0.PNG"⟩,
        ⟨.reads, directory, some "PIC1.PNG"⟩]
    else []

/-- The paths that `sceUtilitySavedataInitStart` uses. -/
def initStart : List SavedataAccess :=
  (if b.mode = 7 ∧ b.guestNames = [] then
    ⟨.lists, "", none⟩ :: tree.entries.map fun e => ⟨.reads, e.val, none⟩
  else []) ++
  (if b.interactive then
    (b.dialogNames tree).flatMap (fun n => itemAccesses tree (b.name.game ++ n)) ++
    if b.focus = 3 ∨ b.focus = 4 then
      (b.savedataNames tree).map fun n => ⟨.reads, b.name.game ++ n, none⟩
    else []
  else [])

/-! ### `sceUtilitySavedataUpdate` -/

def deleteMode : Prop := b.mode ∈ [6, 7, 9, 10, 19, 20, 21]

instance : Decidable b.deleteMode := inferInstanceAs (Decidable (_ ∈ _))

def assetNames : List String := ["ICON0.PNG", "ICON1.PMF", "PIC1.PNG", "SND0.AT3", "PARAM.SFO"]

def loadAccesses : List SavedataAccess :=
  ⟨.reads, b.name.directory, some b.name.file⟩ :: assetNames.map fun file => ⟨.reads, b.name.directory, some file⟩

-- `create_directories` makes what is missing above the staging directory as well
def saveAccesses : List SavedataAccess :=
  (if tree.present then [] else [⟨.creates, "", none⟩]) ++
  [⟨.deletes, b.staging, none⟩, ⟨.creates, b.staging, none⟩, ⟨.creates, b.staging, some b.name.file⟩] ++
  (assetNames.map fun file => ⟨.creates, b.staging, some file⟩) ++
  [⟨.deletes, b.backup, none⟩, ⟨.reads, b.name.directory, none⟩, ⟨.deletes, b.name.directory, none⟩,
    ⟨.creates, b.backup, none⟩, ⟨.creates, b.name.directory, none⟩]

/-- The operation, with the names that the dialog was left with. -/
def operate (names : List String) : List SavedataAccess :=
  (if b.loadMode then (if b.name.Valid then b.loadAccesses else [])
    else if b.saveMode then (if b.name.Valid ∧ b.source.isSome then b.saveAccesses tree else [])
    else if b.deleteMode then
      if b.mode = 7 then names.map fun n => ⟨.deletes, b.name.game ++ n, none⟩
      else if b.validDirectory then [⟨.deletes, b.name.directory, none⟩] else []
    else []) ++
  (if b.mode = 8 then
    match b.requested with
    | none => []
    | some (game, save) => [⟨.reads, game ++ save, none⟩]
  else []) ++
  (if b.mode = 11 ∧ b.listMapped then
    ⟨.lists, "", none⟩ :: tree.entries.map fun e => ⟨.lists, e.val, none⟩
  else []) ++
  (if (b.mode = 12 ∨ b.mode = 22) ∧ b.listMapped then
    ⟨.lists, b.name.directory, none⟩ ::
      (tree.files b.name.directory).map fun e => ⟨.lists, b.name.directory, some e.val⟩
  else [])

/-- The name of the accepted item is copied into the block, but for its last byte. -/
def select (names : List String) (item : Nat) : SavedataBlock :=
  match names[item]? with
  | none => b
  | some name => { b with name := { b.name with save := String.ofList (name.toList.take 19) } }

end SavedataBlock

inductive DialogResult
  | pending | cancelled | accepted (item : Nat)
deriving DecidableEq

/-- What `sceUtilitySavedataInitStart` leaves. -/
structure SavedataDialog where
  names : List String
  presented : Bool

def SavedataBlock.dialog {system : System} (tree : SavedataTree system) (b : SavedataBlock) : SavedataDialog :=
  ⟨b.savedataNames tree, b.interactive⟩

/-- The block that the operation goes by, when there is one. -/
def SavedataDialog.block (dialog : SavedataDialog) (result : DialogResult) (b : SavedataBlock) :
    Option SavedataBlock :=
  if dialog.presented then
    match result with
    | .pending => none
    | .cancelled => none
    | .accepted item => some (b.select dialog.names item)
  else some b

/-- The paths that `sceUtilitySavedataUpdate` uses. -/
def SavedataDialog.update {system : System} (tree : SavedataTree system) (dialog : SavedataDialog) (result : DialogResult)
    (b : SavedataBlock) : List SavedataAccess :=
  match dialog.block result b with
  | none => []
  | some b => b.operate tree dialog.names

/-! ### Inside `SAVEDATA` -/

namespace SavedataBlock

/-- Every item's name, followed from `SAVEDATA`, goes down from there; so does the game name alone when it is what the
one item of a save without names is dated by. A delete has names. -/
def StartSafe (host : SavedataHost) (b : SavedataBlock) : Prop :=
  (b.mode = 7 → b.guestNames ≠ []) ∧
  (b.interactive →
    (∀ n ∈ b.guestNames, host.Descends (b.name.game ++ n)) ∧
    (b.focus = 3 ∨ b.focus = 4 → b.saveDialog → b.guestNames = [] → host.Descends b.name.game))

/-- The names of a load lead inside, though a drive of the host may be in front of them. -/
def LoadSafe (host : SavedataHost) (b : SavedataBlock) : Prop :=
  host.ComesBack b.name.directory ∧ host.FileDescends b.name.directory b.name.file

/-- So do those of a save. -/
def SaveSafe (host : SavedataHost) (b : SavedataBlock) : Prop :=
  (host.Descends b.staging ∧ host.FileDescends b.staging b.name.file) ∧ host.Descends b.backup ∧
    host.Descends b.name.directory

/-- `SAVEDATA` is there for a save and is not what is listed; on a Windows host, where a checked name can begin with a
drive, those of a load, of a save and of the delete of one directory lead inside; and so do the names that no check looks
at: all listed ones of a delete, those of the sizes and those of a list of files. -/
structure OperationSafe (host : SavedataHost) (tree : SavedataTree host.system) (names : List String)
    (b : SavedataBlock) : Prop where
  load : host.system = .windows → b.loadMode → b.name.Valid → b.LoadSafe host
  save : b.saveMode → b.name.Valid → b.source.isSome = true →
    tree.present = true ∧ (host.system = .windows → b.SaveSafe host)
  delete : host.system = .windows → b.deleteMode → b.mode ≠ 7 → b.validDirectory → host.Descends b.name.directory
  deleteAll : b.mode = 7 → ∀ n ∈ names, host.Descends (b.name.game ++ n)
  sizes : b.mode = 8 → ∀ r, b.requested = some r → host.Descends (r.1 ++ r.2)
  saves : b.mode = 11 → b.listMapped = false
  list : b.mode = 12 ∨ b.mode = 22 → b.listMapped = true → host.Descends b.name.directory

end SavedataBlock

section
variable {host : SavedataHost} {tree : SavedataTree host.system} {kind : AccessKind} {directory file : String}

namespace SavedataHost

theorem inside_directory : host.Inside ⟨kind, directory, none⟩ ↔ host.Descends directory :=
  Process.encloses_append_iff (.refl _)

theorem contains_directory :
    host.savedata.Contains (host.resolve (host.join host.saveRoot directory)) ↔ host.ComesBack directory :=
  Process.contains_append_iff (.refl _)

theorem Descends.comesBack (h : host.Descends directory) : host.ComesBack directory :=
  contains_directory.1 ((@inside_directory host .reads directory).2 h).contains

theorem inside_file (h : host.ComesBack directory) :
    host.Inside ⟨kind, directory, some file⟩ ↔ host.FileDescends directory file :=
  Process.encloses_append_iff (contains_directory.2 h)

/-- An entry is inside just when its directory is, or is `SAVEDATA`. -/
theorem inside_entry (hfile : IsEntry host.system file.toList) :
    host.Inside ⟨kind, directory, some file⟩ ↔ host.ComesBack directory := by
  rw [← contains_directory, Inside, location, path]
  dsimp only
  rw [join, Process.resolve_append_entry hfile]
  exact and_congr_right fun _ => PathText.below_entry_iff _

theorem descends_entry (h : IsEntry host.system directory.toList) : host.Descends directory := by
  refine (@inside_directory host .reads directory).1 ?_
  rw [Inside, location, path]
  dsimp only
  rw [join, Process.resolve_append_entry h]
  exact ⟨rfl, _, [], rfl⟩

theorem fileDescends_entry (hdirectory : host.ComesBack directory) (h : IsEntry host.system file.toList) :
    host.FileDescends directory file :=
  (@inside_file host .reads directory file hdirectory).1 ((inside_entry h).2 hdirectory)

theorem location_self : host.location ⟨kind, "", none⟩ = host.savedata := by
  have hempty : parse host.system "".toList = ⟨[], []⟩ := by
    cases host.system <;> rfl
  have hreplaces : ¬ Replaces host.system host.saveRoot ⟨[], []⟩ := by
    rintro (habsolute | ⟨hname, -⟩)
    · generalize host.system = system at habsolute
      cases system with
      | posix => cases habsolute
      | windows => exact habsolute rfl
    · exact hname rfl
  rw [location, path]
  dsimp only
  rw [join, hempty, Process.resolve_append hreplaces]
  rfl

/-- `SAVEDATA` itself is not strictly inside. -/
theorem not_inside_self : ¬ host.Inside ⟨kind, "", none⟩ := by
  rw [Inside, location_self]
  rintro ⟨-, c, rest, heq⟩
  have hlength := congrArg List.length heq
  simp only [List.length_append, List.length_cons] at hlength
  omega

end SavedataHost

open SavedataHost

theorem safeComponent.isEntry {value : String} (h : safeComponent value) : PathText.IsEntry value.toList := by
  obtain ⟨hempty, hdot, hdots, hslash, -⟩ := h
  refine ⟨fun heq => hempty ?_, fun heq => hdot ?_, fun heq => hdots ?_, hslash⟩
  · exact String.toList_inj.1 heq
  · exact String.toList_inj.1 heq
  · exact String.toList_inj.1 heq

theorem directory_isEntry {n : SavedataName} (h : safeComponent n.game ∧ safeComponent n.save) :
    PathText.IsEntry n.directory.toList := by
  rw [SavedataName.directory, String.toList_append]
  exact h.1.isEntry.append h.2.isEntry

namespace SavedataBlock
variable {b : SavedataBlock}

theorem isEntry_of_posix {text : List Char} (hposix : host.system ≠ .windows) (h : PathText.IsEntry text) :
    IsEntry host.system text :=
  ⟨h, fun hwindows => absurd hwindows hposix⟩

/-- An item's paths are inside just when its directory is. -/
theorem itemAccesses_inside : (∀ a ∈ itemAccesses tree directory, host.Inside a) ↔ host.Descends directory := by
  have hfile : ∀ file ∈ ["PARAM.SFO", "ICON0.PNG", "PIC1.PNG"], IsEntry host.system file.toList := by
    generalize host.system = system
    cases system <;> decide
  constructor
  · intro h
    exact inside_directory.1 (h _ (List.mem_cons_self ..))
  · intro h a ha
    rcases List.mem_cons.1 ha with rfl | ha
    · exact inside_directory.2 h
    · split at ha
      · simp only [List.mem_cons, List.not_mem_nil, or_false] at ha
        rcases ha with rfl | rfl | rfl | rfl
        · exact (inside_entry (hfile _ (by decide))).2 h.comesBack
        · exact inside_directory.2 h
        · exact (inside_entry (hfile _ (by decide))).2 h.comesBack
        · exact (inside_entry (hfile _ (by decide))).2 h.comesBack
      · cases ha

theorem assetNames_isEntry : ∀ file ∈ assetNames, IsEntry host.system file.toList := by
  generalize host.system = system
  cases system <;> decide

theorem loadAccesses_inside : (∀ a ∈ b.loadAccesses, host.Inside a) ↔ b.LoadSafe host := by
  rw [loadAccesses, List.forall_mem_cons]
  constructor
  · rintro ⟨hdata, hassets⟩
    have hdirectory : host.ComesBack b.name.directory :=
      (inside_entry (assetNames_isEntry "PARAM.SFO" (by decide))).1
        (hassets _ (List.mem_map.2 ⟨"PARAM.SFO", by decide, rfl⟩))
    exact ⟨hdirectory, (inside_file hdirectory).1 hdata⟩
  · rintro ⟨hdirectory, hdata⟩
    refine ⟨(inside_file hdirectory).2 hdata, fun a ha => ?_⟩
    obtain ⟨file, hfile, rfl⟩ := List.mem_map.1 ha
    exact (inside_entry (assetNames_isEntry file hfile)).2 hdirectory

theorem saveAccesses_inside :
    (∀ a ∈ b.saveAccesses tree, host.Inside a) ↔ tree.present = true ∧ b.SaveSafe host := by
  have hpresent : (∀ a ∈ if tree.present then [] else [(⟨.creates, "", none⟩ : SavedataAccess)], host.Inside a) ↔
      tree.present = true := by
    cases tree.present with
    | true => simp
    | false => simp [not_inside_self]
  simp only [saveAccesses, List.forall_mem_append, hpresent, List.forall_mem_cons, inside_directory, and_assoc]
  refine and_congr_right fun _ => ?_
  constructor
  · rintro ⟨hstaging, -, hdata, -, -, hbackup, hdirectory, -⟩
    exact ⟨⟨hstaging, (inside_file hstaging.comesBack).1 hdata⟩, hbackup, hdirectory⟩
  · rintro ⟨⟨hstaging, hdata⟩, hbackup, hdirectory⟩
    refine ⟨hstaging, hstaging, (inside_file hstaging.comesBack).2 hdata, nofun, fun a ha => ?_, hbackup, hdirectory,
      hdirectory, hbackup, hdirectory, nofun⟩
    obtain ⟨file, hfile, rfl⟩ := List.mem_map.1 ha
    exact (inside_entry (assetNames_isEntry file hfile)).2 hstaging.comesBack

/-! ### Checked names on a POSIX host -/

theorem loadSafe_of_posix (hposix : host.system ≠ .windows) (h : b.name.Valid) : b.LoadSafe host := by
  have hdirectory : host.ComesBack b.name.directory :=
    (descends_entry (isEntry_of_posix hposix (directory_isEntry h.1))).comesBack
  exact ⟨hdirectory, fileDescends_entry hdirectory (isEntry_of_posix hposix h.2.isEntry)⟩

theorem saveSafe_of_posix (hposix : host.system ≠ .windows) (h : b.name.Valid) : b.SaveSafe host := by
  have hentry := directory_isEntry h.1
  have hsuffixed (suffix : String) (hsuffix : PathText.IsEntry suffix.toList) :
      host.Descends (b.name.directory ++ suffix) := by
    refine descends_entry (isEntry_of_posix hposix ?_)
    rw [String.toList_append]
    exact hentry.append hsuffix
  have hstaging : host.Descends b.staging := hsuffixed _ (by decide)
  exact ⟨⟨hstaging, fileDescends_entry hstaging.comesBack (isEntry_of_posix hposix h.2.isEntry)⟩,
    hsuffixed _ (by decide), descends_entry (isEntry_of_posix hposix hentry)⟩

/-! ### The calls -/

theorem forall_mem_append_ite {α : Type} {P : α → Prop} {c : Prop} [Decidable c] {l : List α} :
    (∀ a ∈ if c then l else [], P a) ↔ (c → ∀ a ∈ l, P a) := by
  split_ifs with h
  · simp [h]
  · simp [h]

/-- `SAVEDATA` is listed, with its entries or not. -/
theorem not_inside_listed {accesses : List SavedataAccess} :
    ¬ ∀ a ∈ (⟨.lists, "", none⟩ : SavedataAccess) :: accesses, host.Inside a :=
  fun h => not_inside_self (h _ (List.mem_cons_self ..))

theorem dialogNames_eq (hown : b.mode = 7 → b.guestNames ≠ []) : b.dialogNames tree = b.guestNames :=
  if_neg fun h => hown h.1 h.2

theorem save_of_guestNames (h : b.guestNames = []) : b.name.save = "" := by
  rw [guestNames] at h
  split at h
  · split at h
    next hsave => exact hsave
    · cases h
  next hlist => exact absurd h hlist

/-- The dates of the items are read for the focus. -/
theorem focus_inside (hown : b.mode = 7 → b.guestNames ≠ [])
    (hguest : ∀ n ∈ b.guestNames, host.Descends (b.name.game ++ n)) :
    (∀ a ∈ (b.savedataNames tree).map fun n => (⟨.reads, b.name.game ++ n, none⟩ : SavedataAccess), host.Inside a) ↔
      (b.saveDialog → b.guestNames = [] → host.Descends b.name.game) := by
  simp only [List.forall_mem_map, inside_directory, savedataNames, dialogNames_eq hown]
  split_ifs with hone
  · have hgame : b.name.game ++ b.name.save = b.name.game := by
      rw [save_of_guestNames hone.2, String.append_empty]
    simp [hone, hgame]
  · exact iff_of_true hguest fun hdialog hnone => absurd ⟨hdialog, hnone⟩ hone

theorem initStart_inside : (∀ a ∈ b.initStart tree, host.Inside a) ↔ b.StartSafe host := by
  have hown : (b.mode = 7 ∧ b.guestNames = [] → ∀ a ∈ (⟨.lists, "", none⟩ : SavedataAccess) ::
      tree.entries.map fun e => ⟨.reads, e.val, none⟩, host.Inside a) ↔ (b.mode = 7 → b.guestNames ≠ []) := by
    simp only [not_inside_listed, imp_false, not_and, ne_eq]
  simp only [initStart, List.forall_mem_append, forall_mem_append_ite, StartSafe, hown]
  refine and_congr_right fun hown => imp_congr_right fun _ => ?_
  have hitems : (∀ a ∈ (b.dialogNames tree).flatMap fun n => itemAccesses tree (b.name.game ++ n), host.Inside a) ↔
      ∀ n ∈ b.guestNames, host.Descends (b.name.game ++ n) := by
    simp only [dialogNames_eq hown, List.forall_mem_flatMap, itemAccesses_inside]
  rw [hitems]
  exact and_congr_right fun hguest => imp_congr_right fun _ => focus_inside hown hguest

theorem modes_apart (b : SavedataBlock) : (b.loadMode → ¬ b.saveMode ∧ ¬ b.deleteMode ∧ b.mode ≠ 7) ∧
    (b.saveMode → ¬ b.deleteMode ∧ b.mode ≠ 7) ∧ (b.mode = 7 → b.deleteMode) := by
  simp only [SavedataParameters.loadMode, SavedataParameters.saveMode, deleteMode, List.mem_cons, List.not_mem_nil,
    or_false]
  omega

theorem of_windows {P : Prop} (hposix : host.system ≠ .windows → P) (hwindows : host.system = .windows → P) : P :=
  (em _).elim hwindows hposix

/-- The names of one directory are checked, those of a delete of all the listed ones are not. -/
theorem transfer_inside {names : List String} :
    (∀ a ∈ if b.loadMode then (if b.name.Valid then b.loadAccesses else [])
        else if b.saveMode then (if b.name.Valid ∧ b.source.isSome then b.saveAccesses tree else [])
        else if b.deleteMode then
          if b.mode = 7 then names.map fun n => ⟨.deletes, b.name.game ++ n, none⟩
          else if b.validDirectory then [⟨.deletes, b.name.directory, none⟩] else []
        else [], host.Inside a) ↔
      (host.system = .windows → b.loadMode → b.name.Valid → b.LoadSafe host) ∧
        (b.saveMode → b.name.Valid → b.source.isSome = true →
          tree.present = true ∧ (host.system = .windows → b.SaveSafe host)) ∧
        (host.system = .windows → b.deleteMode → b.mode ≠ 7 → b.validDirectory → host.Descends b.name.directory) ∧
        (b.mode = 7 → ∀ n ∈ names, host.Descends (b.name.game ++ n)) := by
  obtain ⟨hloads, hsaves, hdeletes⟩ := b.modes_apart
  by_cases hload : b.loadMode
  · obtain ⟨hsave, hdelete, hall⟩ := hloads hload
    rw [if_pos hload, forall_mem_append_ite, loadAccesses_inside]
    constructor
    · exact fun h => ⟨fun _ _ => h, fun h' => absurd h' hsave, fun _ h' => absurd h' hdelete, fun h' => absurd h' hall⟩
    · exact fun h hvalid => of_windows (loadSafe_of_posix · hvalid) fun hwindows => h.1 hwindows hload hvalid
  by_cases hsave : b.saveMode
  · obtain ⟨hdelete, hall⟩ := hsaves hsave
    rw [if_neg hload, if_pos hsave, forall_mem_append_ite, saveAccesses_inside]
    constructor
    · exact fun h => ⟨fun _ h' => absurd h' hload, fun _ hvalid hsource =>
        ⟨(h ⟨hvalid, hsource⟩).1, fun _ => (h ⟨hvalid, hsource⟩).2⟩, fun _ h' => absurd h' hdelete, fun h' => absurd h' hall⟩
    · rintro ⟨-, h, -, -⟩ ⟨hvalid, hsource⟩
      obtain ⟨hpresent, hsafe⟩ := h hsave hvalid hsource
      exact ⟨hpresent, of_windows (saveSafe_of_posix · hvalid) hsafe⟩
  rw [if_neg hload, if_neg hsave, forall_mem_append_ite]
  by_cases hall : b.mode = 7
  · have hdelete := hdeletes hall
    rw [if_pos hall, List.forall_mem_map]
    simp only [inside_directory]
    constructor
    · exact fun h => ⟨fun _ h' => absurd h' hload, fun h' => absurd h' hsave, fun _ _ h' => absurd hall h', fun _ => h hdelete⟩
    · exact fun h _ => h.2.2.2 hall
  · rw [if_neg hall, forall_mem_append_ite, List.forall_mem_singleton, inside_directory]
    constructor
    · exact fun h => ⟨fun _ h' => absurd h' hload, fun h' => absurd h' hsave, fun _ h' _ => h h', fun h' => absurd h' hall⟩
    · refine fun h hdelete hvalid => of_windows (fun hposix => ?_) fun hwindows => h.2.2.1 hwindows hdelete hall hvalid
      exact descends_entry (isEntry_of_posix hposix (directory_isEntry hvalid))

theorem requested_inside :
    (∀ a ∈ match b.requested with
      | none => []
      | some (game, save) => [(⟨.reads, game ++ save, none⟩ : SavedataAccess)], host.Inside a) ↔
      ∀ r, b.requested = some r → host.Descends (r.1 ++ r.2) := by
  cases b.requested with
  | none => simp
  | some r => simp [inside_directory]

theorem listed_inside :
    (∀ a ∈ (⟨.lists, b.name.directory, none⟩ : SavedataAccess) ::
        (tree.files b.name.directory).map fun e => ⟨.lists, b.name.directory, some e.val⟩, host.Inside a) ↔
      host.Descends b.name.directory := by
  rw [List.forall_mem_cons, inside_directory]
  refine and_iff_left_of_imp fun h a ha => ?_
  obtain ⟨e, -, rfl⟩ := List.mem_map.1 ha
  exact (inside_entry e.property).2 h.comesBack

/-- The operations of one directory check its names, and the others use theirs as they are. -/
theorem operate_inside {names : List String} :
    (∀ a ∈ b.operate tree names, host.Inside a) ↔ b.OperationSafe host tree names := by
  simp only [operate, List.forall_mem_append, transfer_inside]
  rw [forall_mem_append_ite, forall_mem_append_ite, forall_mem_append_ite, requested_inside, listed_inside]
  simp only [not_inside_listed, imp_false, not_and, Bool.not_eq_true, and_imp]
  constructor
  · rintro ⟨⟨⟨⟨hload, hsave, hdelete, hall⟩, hsizes⟩, hsaves⟩, hlist⟩
    exact ⟨hload, hsave, hdelete, hall, hsizes, hsaves, hlist⟩
  · intro h
    exact ⟨⟨⟨⟨h.load, h.save, h.delete, h.deleteAll⟩, h.sizes⟩, h.saves⟩, h.list⟩

end SavedataBlock
end

/-- For every block, list of names and mode, and whatever dialog the block of the operation belongs to, each path of a
call lies strictly inside `SAVEDATA` exactly when the names it does not check go down from there, as do on a Windows host
those that it checks, and `SAVEDATA` itself is neither listed nor created. -/
theorem savedata_paths_inside (host : SavedataHost) (tree : SavedataTree host.system) :
    (∀ b : SavedataBlock, (∀ a ∈ b.initStart tree, host.Inside a) ↔ b.StartSafe host) ∧
    ∀ (dialog : SavedataDialog) (result : DialogResult) (b : SavedataBlock),
      (∀ a ∈ dialog.update tree result b, host.Inside a) ↔
        ∀ b', dialog.block result b = some b' → b'.OperationSafe host tree dialog.names := by
  refine ⟨fun b => SavedataBlock.initStart_inside, fun dialog result b => ?_⟩
  rw [SavedataDialog.update]
  cases dialog.block result b with
  | none => simp
  | some b' => simp [SavedataBlock.operate_inside]

/-! ### A delete that leaves `SAVEDATA` -/

/-- The delete of all listed directories, with an empty game name and the list `..`. -/
def deleteAbove : SavedataBlock :=
  { mode := 7, name := ⟨"", "", ""⟩, nameList := [".."] }

/-- When the dialog is accepted, the directory that holds `SAVEDATA` is deleted; its path is that of no entry below. -/
theorem savedata_paths_outside :
    let host : SavedataHost := { writableRoot := ⟨[], "/data".toList⟩ }
    let tree : SavedataTree host.system := {}
    (deleteAbove.dialog tree).update tree (.accepted 0) deleteAbove = [⟨.deletes, "..", none⟩] ∧
      host.location ⟨.deletes, "..", none⟩ = ⟨[], ["data".toList, "PSP".toList]⟩ ∧
      ¬ ∀ a ∈ (deleteAbove.dialog tree).update tree (.accepted 0) deleteAbove, host.Inside a := by
  intro host tree
  have hdeleted : (deleteAbove.dialog tree).update tree (.accepted 0) deleteAbove = [⟨.deletes, "..", none⟩] := by
    decide
  have hlocation : host.location ⟨.deletes, "..", none⟩ = ⟨[], ["data".toList, "PSP".toList]⟩ := by
    decide
  have hsavedata : host.savedata.directory.length = 3 := by decide
  refine ⟨hdeleted, hlocation, fun hinside => ?_⟩
  rw [hdeleted] at hinside
  obtain ⟨-, c, rest, heq⟩ := hinside _ (List.mem_singleton_self _)
  rw [hlocation] at heq
  have hlength := congrArg List.length heq
  simp only [List.length_append, List.length_cons, List.length_nil, hsavedata] at hlength
  omega

/-- On a Windows host a save whose file has a drive in front is written to that drive, though its names are checked. -/
example :
    let host : SavedataHost :=
      { system := .windows, volume := "C:".toList, writableRoot := parse .windows "C:\\stick".toList }
    (⟨"GAME", "SAVE", "D:x"⟩ : SavedataName).Valid ∧
      host.location ⟨.creates, "GAMESAVE.refract.tmp", some "D:x"⟩ = ⟨"D:".toList, ["x".toList]⟩ := by
  decide

end Psprism
