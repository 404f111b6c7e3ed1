import Psprism.FilePosition
import Psprism.Lib.Unwinding

/-!
# Files apart from each other

Threads of the guest work on files of their own with calls that come in any order, and a result of an
asynchronous call waits until it is asked for. Descriptors may be open on the same file of the host, and an open with
the guest's flag 0x0400 empties that file for all of them. As long as none does so to the file of a descriptor, the
calls on it, the waits for results among them, are answered as if there were no others (`descriptor_isolated`).
-/

namespace Psprism.Io

/-- All that is kept for one descriptor of the guest. -/
def only (d : Int) (io : Implementation) : Implementation where
  files x := if x = d then io.files x else none
  fileViews x := if x = d then io.fileViews x else none
  sectorFiles x := if x = d then io.sectorFiles x else false
  asyncResults x := if x = d then io.asyncResults x else none
  nextFile := 0
  host h := if h = io.descriptor d ∧ 0 ≤ h then io.host h else none

section
variable {io io' : Implementation} {d h : Int} {offset size : BitVec 64} {whence : Word} {view : FileView} {s : State}
  {f : HostFile}

@[simp] theorem only_files : (only d io).files d = io.files d := if_pos rfl

@[simp] theorem only_fileViews : (only d io).fileViews d = io.fileViews d := if_pos rfl

@[simp] theorem only_sectorFiles : (only d io).sectorFiles d = io.sectorFiles d := if_pos rfl

@[simp] theorem only_asyncResults : (only d io).asyncResults d = io.asyncResults d := if_pos rfl

@[simp] theorem only_descriptor : (only d io).descriptor d = io.descriptor d := by
  simp only [Implementation.descriptor, only_files]

/-! ### Seeks and reads on the descriptor -/

/-- The descriptor is that of a host file. -/
def Opens (io : Implementation) (d h : Int) : Prop := io.descriptor d = h ∧ 0 ≤ h

theorem Opens.host (hopen : Opens io d h) : (only d io).host h = io.host h :=
  if_pos ⟨hopen.1.symm, hopen.2⟩

theorem Opens.same (hopen : Opens io d h) (hsame : Same h io io') : Opens io' d h := by
  refine ⟨?_, hopen.2⟩
  rw [← hopen.1, Implementation.descriptor, Implementation.descriptor, hsame.files]

theorem only_setHost (hopen : Opens io d h) (f : Option HostFile) :
    only d (io.setHost h f) = (only d io).setHost h f := by
  simp only [only, Implementation.setHost, Implementation.mk.injEq, true_and]
  refine funext fun x => ?_
  by_cases hx : x = h
  · have hdescriptor : h = io.descriptor d ∧ 0 ≤ h := ⟨hopen.1.symm, hopen.2⟩
    rw [hx, Function.update_self, Function.update_self]
    exact if_pos hdescriptor
  · rw [Function.update_of_ne hx, Function.update_of_ne hx]
    rfl

theorem only_setAsyncResult (result : Option (BitVec 64)) :
    only d (io.setAsyncResult d result) = (only d io).setAsyncResult d result := by
  simp only [only, Implementation.setAsyncResult, Implementation.mk.injEq, true_and]
  refine ⟨funext fun x => ?_, rfl⟩
  by_cases hx : x = d
  · rw [hx, Function.update_self, Function.update_self, if_pos rfl]
  · rw [Function.update_of_ne hx, if_neg hx, Function.update_of_ne hx, if_neg hx]

theorem seek_only (hopen : Opens io d h) :
    seek (only d io) h offset whence = ((seek io h offset whence).1, only d (seek io h offset whence).2) := by
  rw [seek, seek, hopen.host]
  split
  · rfl
  · split
    · rfl
    · dsimp only
      split
      · rw [only_setHost hopen]
      · rfl

theorem read_only (hopen : Opens io d h) :
    read (only d io) h size = ((read io h size).1, (read io h size).2.1, only d (read io h size).2.2) := by
  rw [read, read, hopen.host]
  split
  · rfl
  · dsimp only
    rw [only_setHost hopen]

theorem sectorOrigin_only (hopen : Opens io d h) :
    sectorOrigin (only d io) h whence = ((sectorOrigin io h whence).1, only d (sectorOrigin io h whence).2) := by
  rw [sectorOrigin, sectorOrigin, seek_only hopen, seek_only hopen]
  split
  · rfl
  · split
    · rfl
    · split <;> rfl

theorem seekSector_only (hopen : Opens io d h) :
    seekSector (only d io) h offset whence =
      ((seekSector io h offset whence).1, only d (seekSector io h offset whence).2) := by
  have hnext : Opens (sectorOrigin io h whence).2 d h := hopen.same sectorOrigin_same
  rw [seekSector, seekSector, sectorOrigin_only hopen]
  dsimp only
  split
  · rfl
  · split
    · rfl
    · split
      · rw [seek_only hnext]
      · rfl

theorem viewOrigin_only (hopen : Opens io d h) :
    viewOrigin (only d io) h view whence = ((viewOrigin io h view whence).1, only d (viewOrigin io h view whence).2) := by
  rw [viewOrigin, viewOrigin, seek_only hopen]
  split
  · rfl
  · split
    · rfl
    · split <;> rfl

theorem seekView_only (hopen : Opens io d h) :
    seekView (only d io) h view offset whence =
      ((seekView io h view offset whence).1, only d (seekView io h view offset whence).2) := by
  have hnext : Opens (viewOrigin io h view whence).2 d h := hopen.same viewOrigin_same
  rw [seekView, seekView, viewOrigin_only hopen]
  dsimp only
  split
  · rfl
  · split
    · rw [seek_only hnext]
    · rfl

theorem seekFile_only (hopen : Opens io d h) :
    seekFile (only d io) d s = ((seekFile io d s).1, only d (seekFile io d s).2) := by
  rw [seekFile, seekFile, only_descriptor, only_sectorFiles, only_fileViews, hopen.1]
  split
  · exact seekSector_only hopen
  · split
    · exact seek_only hopen
    · exact seekView_only hopen

theorem viewBytes_only (hopen : Opens io d h) :
    viewBytes (only d io) d size = ((viewBytes io d size).1, only d (viewBytes io d size).2) := by
  rw [viewBytes, viewBytes, only_fileViews, only_descriptor, hopen.1]
  split
  · rfl
  · dsimp only
    rw [seek_only hopen]

theorem readBuffer_only (hopen : Opens io d h) :
    readBuffer (only d io) d size s =
      ((readBuffer io d size s).1, only d (readBuffer io d size s).2.1, (readBuffer io d size s).2.2) := by
  rw [readBuffer, readBuffer, only_descriptor, hopen.1, read_only hopen]
  split
  · rfl
  · split
    · rfl
    · dsimp only
      rw [only_sectorFiles]
      split <;> rfl

theorem readFile_only :
    readFile (only d io) d s = ((readFile io d s).1, only d (readFile io d s).2.1, (readFile io d s).2.2) := by
  rw [readFile, readFile, only_descriptor]
  split
  · rfl
  next hnonneg =>
    have hopen : Opens io d (io.descriptor d) := ⟨rfl, Int.not_lt.1 hnonneg⟩
    rw [show requestedBytes (only d io) d (s.gpr 6) = requestedBytes io d (s.gpr 6) by
      rw [requestedBytes, requestedBytes, only_sectorFiles]]
    split
    · rfl
    next size _ =>
      have hview : Same (io.descriptor d) io (viewBytes io d size).2 := viewBytes_same
      rw [viewBytes_only hopen]
      cases hbytes : viewBytes io d size with
      | mk bytes io' =>
        rw [hbytes] at hview
        cases bytes with
        | none => rfl
        | some bytes => exact readBuffer_only (hopen.same hview)

theorem only_closeFile (hinv : Inv io) (hfile : io.files d = some h) :
    only d (closeFile io d h) = closeFile (only d io) d h := by
  obtain ⟨hthree, -, -⟩ := hinv.files d h hfile
  have hclosed : (closeFile io d h).descriptor d = -1 := by
    rw [Implementation.descriptor, if_neg (by omega), closeFile_files, if_pos rfl]
    rfl
  have hdescriptor : io.descriptor d = h := by
    rw [Implementation.descriptor, if_neg (by omega), hfile]
    rfl
  have hhost (x : Int) : (only d (closeFile io d h)).host x = (closeFile (only d io) d h).host x := by
    have hnone : ¬ (x = (closeFile io d h).descriptor d ∧ 0 ≤ x) := by omega
    rw [closeFile_host]
    refine (if_neg hnone).trans ?_
    split
    · rfl
    next hne => exact (if_neg fun hx => hne (hx.1.trans hdescriptor)).symm
  simp only [only, closeFile, Implementation.setHost, Implementation.mk.injEq, true_and]
  refine ⟨funext fun x => ?_, funext fun x => ?_, funext fun x => ?_, funext hhost⟩
  all_goals
    by_cases hx : x = d
    · rw [hx, if_pos rfl]
      simp
    · simp [hx]

/-! ### Calls on the descriptor -/

/-- The call is on the descriptor; an open is on none. -/
def Call.On (d : Int) (s : State) : Call → Bool
  | sceIoOpen _ => false
  | sceIoOpenAsync _ => false
  | _ => (s.gpr 4).toInt = d

/-- A call on the descriptor is answered from what is kept for it, and changes that as if there were nothing
else. -/
theorem run_only (hinv : Inv io) {c : Call} (hon : c.On d s) :
    c.run (only d io) s = (only d (c.run io s).1, (c.run io s).2) := by
  cases c with
  | sceIoOpen answer => cases hon
  | sceIoOpenAsync answer => cases hon
  | sceIoLseek =>
    obtain rfl : (s.gpr 4).toInt = d := of_decide_eq_true hon
    rw [Call.run, Call.run, sceIoLseek, sceIoLseek, only_descriptor]
    dsimp only
    split
    · rfl
    next hnonneg =>
      rw [seekFile_only ⟨rfl, Int.not_lt.1 hnonneg⟩]
      dsimp only
      split <;> rfl
  | sceIoLseekAsync =>
    obtain rfl : (s.gpr 4).toInt = d := of_decide_eq_true hon
    rw [Call.run, Call.run, sceIoLseekAsync, sceIoLseekAsync, only_descriptor]
    dsimp only
    split
    · rfl
    next hnonneg => rw [seekFile_only ⟨rfl, Int.not_lt.1 hnonneg⟩, only_setAsyncResult]
  | sceIoRead =>
    obtain rfl : (s.gpr 4).toInt = d := of_decide_eq_true hon
    rw [Call.run, Call.run, sceIoRead, sceIoRead, readFile_only]
    obtain ⟨result, io', s'⟩ := readFile io (s.gpr 4).toInt s
    rcases result with _ | _ | _ | result <;> rfl
  | sceIoReadAsync =>
    obtain rfl : (s.gpr 4).toInt = d := of_decide_eq_true hon
    rw [Call.run, Call.run, sceIoReadAsync, sceIoReadAsync, readFile_only]
    obtain ⟨result, io', s'⟩ := readFile io (s.gpr 4).toInt s
    rcases result with _ | _ | _ | result
    · rfl
    all_goals
      dsimp only
      rw [only_setAsyncResult]
  | sceIoWaitAsync =>
    obtain rfl : (s.gpr 4).toInt = d := of_decide_eq_true hon
    rw [Call.run, Call.run, sceIoWaitAsync, sceIoWaitAsync, only_asyncResults]
    split
    · rfl
    · rw [only_setAsyncResult]
  | sceIoPollAsync =>
    obtain rfl : (s.gpr 4).toInt = d := of_decide_eq_true hon
    rw [Call.run, Call.run, sceIoPollAsync, sceIoPollAsync, only_asyncResults]
    split <;> rfl
  | sceIoClose closed =>
    obtain rfl : (s.gpr 4).toInt = d := of_decide_eq_true hon
    rw [Call.run, Call.run, sceIoClose, sceIoClose, only_files]
    split
    · rfl
    next hfile => rw [only_setAsyncResult, only_closeFile hinv hfile]
  | sceIoCloseAsync closed =>
    obtain rfl : (s.gpr 4).toInt = d := of_decide_eq_true hon
    rw [Call.run, Call.run, sceIoCloseAsync, sceIoCloseAsync, only_files]
    split
    · rfl
    next hfile => rw [only_setAsyncResult, only_closeFile hinv hfile]

/-! ### Calls on other descriptors -/

/-- A descriptor is a standard one, not open or in the table. -/
theorem Inv.descriptor_cases (hinv : Inv io) (x : Int) :
    (io.descriptor x = x ∧ 0 ≤ x ∧ x ≤ 2) ∨ io.descriptor x = -1 ∨
      (3 ≤ io.descriptor x ∧ io.files x = some (io.descriptor x)) := by
  rw [Implementation.descriptor]
  split
  next hstandard => exact .inl ⟨rfl, hstandard⟩
  · cases hx : io.files x with
    | none => exact .inr (.inl rfl)
    | some h => exact .inr (.inr ⟨(hinv.files x h hx).2.2.1, rfl⟩)

/-- Host files belong to one descriptor each. -/
theorem Inv.descriptor_inj (hinv : Inv io) {d' : Int} (h : io.descriptor d' = io.descriptor d)
    (hnonneg : 0 ≤ io.descriptor d) : d' = d := by
  rcases hinv.descriptor_cases d with ⟨hd, hrange⟩ | hd | ⟨hthree, hd⟩ <;>
    rcases hinv.descriptor_cases d' with ⟨hd', hrange'⟩ | hd' | ⟨hthree', hd'⟩ <;> try omega
  exact hinv.own d' d _ hd' (hd.trans (congrArg some h.symm))

theorem Inv.isOpen (hinv : Inv io) (hnonneg : 0 ≤ io.descriptor d) : (io.host (io.descriptor d)).isSome := by
  rcases hinv.descriptor_cases d with ⟨hd, hlow, hhigh⟩ | hd | ⟨-, hd⟩
  · rw [hd]
    exact hinv.standard d hlow hhigh
  · omega
  · exact (hinv.files d _ hd).2.2.2

/-- Nothing that is kept for the descriptor has changed. -/
structure Spared (d : Int) (io io' : Implementation) : Prop where
  files : io'.files d = io.files d
  fileViews : io'.fileViews d = io.fileViews d
  sectorFiles : io'.sectorFiles d = io.sectorFiles d
  asyncResults : io'.asyncResults d = io.asyncResults d
  host : 0 ≤ io.descriptor d → io'.host (io.descriptor d) = io.host (io.descriptor d)

theorem Spared.refl : Spared d io io := ⟨rfl, rfl, rfl, rfl, fun _ => rfl⟩

theorem Spared.only_eq (h : Spared d io io') : only d io' = only d io := by
  have hdescriptor : io'.descriptor d = io.descriptor d := by
    rw [Implementation.descriptor, Implementation.descriptor, h.files]
  simp only [only, Implementation.mk.injEq, true_and, hdescriptor]
  refine ⟨funext fun x => ?_, funext fun x => ?_, funext fun x => ?_, funext fun x => ?_, funext fun x => ?_⟩
  · by_cases hx : x = d <;> simp [hx, h.files]
  · by_cases hx : x = d <;> simp [hx, h.fileViews]
  · by_cases hx : x = d <;> simp [hx, h.sectorFiles]
  · by_cases hx : x = d <;> simp [hx, h.asyncResults]
  · by_cases hx : x = io.descriptor d ∧ 0 ≤ x
    · rw [if_pos hx, if_pos hx, hx.1, h.host (hx.1 ▸ hx.2)]
    · rw [if_neg hx, if_neg hx]

variable {d' : Int}

theorem Spared.of_same (hinv : Inv io) (hne : d' ≠ d) (hsame : Same (io.descriptor d') io io') : Spared d io io' where
  files := congrFun hsame.files d
  fileViews := congrFun hsame.fileViews d
  sectorFiles := congrFun hsame.sectorFiles d
  asyncResults := congrFun hsame.asyncResults d
  host hnonneg := hsame.other _ fun h => hne (hinv.descriptor_inj h.symm hnonneg)

theorem Spared.setAsyncResult (h : Spared d io io') (hne : d' ≠ d) (result : Option (BitVec 64)) :
    Spared d io (io'.setAsyncResult d' result) :=
  ⟨h.files, h.fileViews, h.sectorFiles, (Function.update_of_ne hne.symm _ _).trans h.asyncResults, h.host⟩

theorem Spared.closeFile (hinv : Inv io) (hne : d' ≠ d) (hfile : io.files d' = some h) :
    Spared d io (closeFile io d' h) where
  files := by rw [closeFile_files, if_neg hne.symm]
  fileViews := by rw [closeFile_fileViews, if_neg hne.symm]
  sectorFiles := by rw [closeFile_sectorFiles, if_neg hne.symm]
  asyncResults := rfl
  host hnonneg := by
    rw [closeFile_host, if_neg]
    intro h'
    obtain ⟨hthree, -⟩ := hinv.files d' h hfile
    have hdescriptor : io.descriptor d' = h := by
      rw [Implementation.descriptor, if_neg (by omega), hfile]
      rfl
    exact hne (hinv.descriptor_inj (hdescriptor.trans h'.symm) hnonneg)

/-- The descriptors that the host still has to give are none of the guest's files. -/
theorem Spared.registerFile (hinv : Inv io) (hd : d < io.nextFile) (hfresh : io.host descriptor = none)
    (hsame : Same descriptor (io.setHost descriptor (some f)) io') {view : Option FileView} {sector async : Bool} :
    Spared d io (registerFile io' descriptor view sector async) := by
  have hne : d ≠ io'.nextFile := by
    have hnext : io'.nextFile = io.nextFile := hsame.nextFile
    omega
  refine ⟨?_, ?_, ?_, ?_, fun hnonneg => ?_⟩
  · rw [registerFile_files, if_neg hne]
    exact congrFun hsame.files d
  · rw [registerFile_fileViews, if_neg hne]
    exact congrFun hsame.fileViews d
  · rw [registerFile_sectorFiles, if_neg hne]
    exact congrFun hsame.sectorFiles d
  · have hresults : (Io.registerFile io' descriptor view sector async).asyncResults d = io'.asyncResults d := by
      rw [Io.registerFile]
      cases async
      · rfl
      · exact Function.update_of_ne hne _ _
    exact hresults.trans (congrFun hsame.asyncResults d)
  · have hdescriptor : io.descriptor d ≠ descriptor := by
      intro h
      have hopen := hinv.isOpen hnonneg
      rw [h, hfresh] at hopen
      cases hopen
    exact (hsame.other _ hdescriptor).trans (Function.update_of_ne hdescriptor _ _)

/-! ### What a call can do -/

/-- The changes that calls make: a seek or a read moves the file of its descriptor, a result is stored or taken,
an open registers a new file and a close gives one up. -/
inductive Changes (io : Implementation) (d : Int) : Implementation → Prop
  | moved {io' : Implementation} (hsame : Same (io.descriptor d) io io') : Changes io d io'
  | answered {io' : Implementation} (hsame : Same (io.descriptor d) io io') (result : Option (BitVec 64)) :
    Changes io d (io'.setAsyncResult d result)
  | closed {h : Int} (hfile : io.files d = some h) (result : Option (BitVec 64)) :
    Changes io d ((closeFile io d h).setAsyncResult d result)

inductive Opened (io : Implementation) : Implementation → Prop
  | refused : Opened io io
  | registered {io' : Implementation} {descriptor : Int} {f : HostFile} (hfresh : io.host descriptor = none)
      (hsame : Same descriptor (io.setHost descriptor (some f)) io') (view : Option FileView)
      (sector async : Bool) :
    Opened io (registerFile io' descriptor view sector async)

theorem openFile_opened {answer : HostOpen} (hanswer : answer.Fresh io) (path : List Char) (async : Bool) :
    Opened io (openFile io s answer path async).1 := by
  rw [openFile]
  split
  · exact .refused
  split
  · exact .refused
  next descriptor file hopened =>
    obtain ⟨-, hfresh, -⟩ := hanswer (descriptor, file) hopened
    have hhost : (io.setHost descriptor (some file)).host descriptor = some file := Function.update_self ..
    dsimp only
    split
    · exact .registered hfresh .refl ..
    next view hparse =>
      split
      next io' hview =>
        rw [openView_none hfresh hview]
        exact .refused
      next view' io' hview =>
        exact .registered hfresh (openView_some hhost (parseRawDiscView_fits hparse) hview).1 ..

/-- A call opens a file, or it is on the descriptor that it is told. -/
theorem run_cases (io : Implementation) (s : State) {c : Call} (hpossible : c.Possible io) :
    Opened io (c.run io s).1 ∨ Changes io (s.gpr 4).toInt (c.run io s).1 ∧ c.On (s.gpr 4).toInt s := by
  cases c with
  | sceIoOpen answer =>
    rw [Call.run, sceIoOpen]
    split
    · exact .inl .refused
    · split
      · exact .inl .refused
      · exact .inl (openFile_opened hpossible _ _)
  | sceIoOpenAsync answer =>
    rw [Call.run, sceIoOpenAsync]
    split
    · exact .inl .refused
    · exact .inl (openFile_opened hpossible _ _)
  | sceIoLseek =>
    refine .inr ⟨?_, decide_eq_true rfl⟩
    rw [Call.run, sceIoLseek]
    dsimp only
    split
    · exact .moved .refl
    · split <;> exact .moved seekFile_same
  | sceIoLseekAsync =>
    refine .inr ⟨?_, decide_eq_true rfl⟩
    rw [Call.run, sceIoLseekAsync]
    dsimp only
    split
    · exact .moved .refl
    · exact .answered seekFile_same _
  | sceIoRead =>
    refine .inr ⟨?_, decide_eq_true rfl⟩
    have hread : Same (io.descriptor (s.gpr 4).toInt) io (readFile io (s.gpr 4).toInt s).2.1 := readFile_same
    rw [Call.run, sceIoRead]
    split <;> next heq => rw [heq] at hread; exact .moved hread
  | sceIoReadAsync =>
    refine .inr ⟨?_, decide_eq_true rfl⟩
    have hread : Same (io.descriptor (s.gpr 4).toInt) io (readFile io (s.gpr 4).toInt s).2.1 := readFile_same
    rw [Call.run, sceIoReadAsync]
    split
    next heq => rw [heq] at hread; exact .moved hread
    all_goals next heq => rw [heq] at hread; exact .answered hread _
  | sceIoWaitAsync =>
    refine .inr ⟨?_, decide_eq_true rfl⟩
    rw [Call.run, sceIoWaitAsync]
    split
    · exact .moved .refl
    · exact .answered .refl _
  | sceIoPollAsync =>
    refine .inr ⟨?_, decide_eq_true rfl⟩
    rw [Call.run, sceIoPollAsync]
    split <;> exact .moved .refl
  | sceIoClose closed =>
    refine .inr ⟨?_, decide_eq_true rfl⟩
    rw [Call.run, sceIoClose]
    split
    · exact .moved .refl
    next hfile => exact .closed hfile _
  | sceIoCloseAsync closed =>
    refine .inr ⟨?_, decide_eq_true rfl⟩
    rw [Call.run, sceIoCloseAsync]
    split
    · exact .moved .refl
    next hfile => exact .closed hfile _

/-- A call that is not on the descriptor leaves all that is kept for it. -/
theorem run_spared (hinv : Inv io) (hd : d < io.nextFile) {c : Call} (hpossible : c.Possible io) (hon : ¬ c.On d s) :
    Spared d io (c.run io s).1 := by
  obtain hopened | ⟨hchanges, hown⟩ := run_cases io s hpossible
  all_goals generalize (c.run io s).1 = io' at *
  · cases hopened with
    | refused => exact .refl
    | registered hfresh hsame => exact .registerFile hinv hd hfresh hsame
  · have hne : (s.gpr 4).toInt ≠ d := fun h => hon (h ▸ hown)
    cases hchanges with
    | moved hsame => exact .of_same hinv hne hsame
    | answered hsame result => exact (Spared.of_same hinv hne hsame).setAsyncResult hne result
    | closed hfile result => exact (Spared.closeFile hinv hne hfile).setAsyncResult hne result

theorem nextFile_le_run {c : Call} (hpossible : c.Possible io) : io.nextFile ≤ (c.run io s).1.nextFile := by
  obtain hopened | ⟨hchanges, -⟩ := run_cases io s hpossible
  all_goals generalize (c.run io s).1 = io' at *
  · cases hopened with
    | refused => exact le_rfl
    | registered _ hsame => exact (le_of_eq hsame.nextFile.symm).trans (Int.le_add_one le_rfl)
  · cases hchanges with
    | moved hsame => exact le_of_eq hsame.nextFile.symm
    | answered hsame => exact le_of_eq hsame.nextFile.symm
    | closed => exact le_rfl

end

/-! ### Files of the host -/

/-- What a file of the host holds. -/
structure Contents where
  size : Fin (2 ^ 63)
  byte : Nat → Byte

/-- The tables with the host's files behind them: what each holds, and which of them a host descriptor is open on. -/
structure Disk (F : Type*) where
  io : Implementation
  contents : F → Contents
  file : Int → Option F

theorem zero_lt_offsets : 0 < 2 ^ 63 := by decide

/-- No bytes, as a size or a position. -/
def noOffset : Fin (2 ^ 63) := ⟨0, zero_lt_offsets⟩

/-- What the host answers to an open: the descriptor and the file it is open on, and `errno`. -/
structure FileOpen (F : Type*) where
  opened : Option (Int × F)
  errno : Int

/-- `O_TRUNC` of `host_open_flags`. -/
def truncates (s : State) : Bool := s.gpr 5 &&& 0x0400 ≠ 0

/-- The host is asked to open a file, if not for a sector view that cannot be parsed. -/
def asksHost (s : State) (async : Bool) : Bool :=
  match guestString s.mem (s.gpr 4) with
  | none => false
  | some path => (async || path ≠ []) && !(isRawDiscPath path && (parseRawDiscView path).isNone)

section
variable {F : Type*} [DecidableEq F]

namespace Disk

/-- The file is empty from now on, for all descriptors that are open on it; their positions stay. -/
def truncate (disk : Disk F) (f : F) : Disk F where
  io :=
    { disk.io with
      host := fun h =>
        if disk.file h = some f then (disk.io.host h).map fun file => { file with size := noOffset }
        else disk.io.host h }
  contents := Function.update disk.contents f { disk.contents f with size := noOffset }
  file := disk.file

/-- `host_file::open`, where the stub gets to it. -/
def openHost (disk : Disk F) (s : State) (async : Bool) (answer : FileOpen F) : HostOpen × Disk F :=
  match if asksHost s async then answer.opened else none with
  | none => (⟨none, answer.errno⟩, disk)
  | some (descriptor, f) =>
    let disk := if truncates s then disk.truncate f else disk
    (⟨some (descriptor, ⟨(disk.contents f).size, (disk.contents f).byte, noOffset⟩), answer.errno⟩,
      { disk with file := Function.update disk.file descriptor (some f) })

end Disk

def Call.opens : Call → Bool
  | sceIoOpen _ | sceIoOpenAsync _ => true
  | _ => false

/-- The calls of the stubs, with what the host answers. -/
inductive DiskCall (F : Type*)
  | sceIoOpen (answer : FileOpen F)
  | sceIoOpenAsync (answer : FileOpen F)
  | onFile (call : Call) (h : call.opens = false)

namespace DiskCall

/-- The call with the answer that the stub gets, and the files after that. -/
def ask (disk : Disk F) (s : State) : DiskCall F → Call × Disk F
  | sceIoOpen answer =>
    let (opened, disk) := disk.openHost s false answer
    (.sceIoOpen opened, disk)
  | sceIoOpenAsync answer =>
    let (opened, disk) := disk.openHost s true answer
    (.sceIoOpenAsync opened, disk)
  | onFile call _ => (call, disk)

def run (disk : Disk F) (s : State) (c : DiskCall F) : Disk F × State :=
  let (call, disk) := c.ask disk s
  let (io, s) := call.run disk.io s
  ({ disk with io }, s)

/-- What the host answers to an open. -/
def answer? : DiskCall F → Option (FileOpen F)
  | sceIoOpen answer => some answer
  | sceIoOpenAsync answer => some answer
  | onFile .. => none

/-- The host can give the answer: its descriptor is a new one. -/
def Possible (disk : Disk F) (c : DiskCall F) : Prop :=
  ∀ answer ∈ c.answer?, ∀ p ∈ answer.opened, 0 ≤ p.1 ∧ disk.io.host p.1 = none

/-- The call empties the file that the descriptor is open on. -/
def Empties (disk : Disk F) (d : Int) (s : State) (c : DiskCall F) : Prop :=
  truncates s = true ∧ ∃ answer ∈ c.answer?, ∃ p ∈ answer.opened,
    0 ≤ disk.io.descriptor d ∧ disk.file (disk.io.descriptor d) = some p.2

/-- The call is on the descriptor; an open is on none. -/
def On (d : Int) (s : State) : DiskCall F → Bool
  | onFile call _ => call.On d s
  | _ => false

end DiskCall

variable {disk : Disk F} {d : Int} {s : State}

theorem Inv.truncate (hinv : Inv disk.io) (f : F) : Inv (disk.truncate f).io := by
  have hopen (h : Int) : ((disk.truncate f).io.host h).isSome = (disk.io.host h).isSome := by
    simp only [Disk.truncate]
    split
    · exact Option.isSome_map
    · rfl
  refine ⟨hinv.nextFile, fun h h₀ h₂ => ?_, fun x h hx => ?_, hinv.own, fun x view hview => ?_⟩
  · rw [hopen]
    exact hinv.standard h h₀ h₂
  · rw [hopen]
    exact hinv.files x h hx
  · obtain ⟨h, file, hview⟩ := hinv.views x view hview
    by_cases hfile : disk.file h = some f
    · refine ⟨h, { file with size := noOffset }, ?_⟩
      refine ⟨hview.user, hview.file, hview.nonneg, ?_, hview.registered, hview.plain, hview.fits, hview.base_le⟩
      simp only [Disk.truncate, hfile, if_true, hview.host, Option.map_some]
    · refine ⟨h, file, hview.user, hview.file, hview.nonneg, ?_, hview.registered, hview.plain, hview.fits,
        hview.base_le⟩
      simp only [Disk.truncate, if_neg hfile, hview.host]

/-- All but the file that is emptied stays as it is. -/
theorem Spared.truncate {f : F} (hf : 0 ≤ disk.io.descriptor d → disk.file (disk.io.descriptor d) ≠ some f) :
    Spared d disk.io (disk.truncate f).io :=
  ⟨rfl, rfl, rfl, rfl, fun hnonneg => if_neg (hf hnonneg)⟩

section
variable {async : Bool} {answer : FileOpen F}

/-- An open empties its file, or changes nothing that is there. -/
theorem Disk.openHost_io (disk : Disk F) (s : State) (async : Bool) (answer : FileOpen F) :
    (disk.openHost s async answer).2.io = disk.io ∨
    truncates s = true ∧ ∃ p ∈ answer.opened, (disk.openHost s async answer).2.io = (disk.truncate p.2).io := by
  rw [Disk.openHost]
  split
  · exact Or.inl rfl
  next descriptor f hopened =>
    have hanswer : answer.opened = some (descriptor, f) := by
      split at hopened
      · exact hopened
      · cases hopened
    dsimp only
    split
    next htruncates => exact Or.inr ⟨htruncates, _, hanswer, rfl⟩
    · exact Or.inl rfl

/-- A descriptor of the host that was not open is not open now. -/
theorem Disk.openHost_none {h : Int} (hnone : disk.io.host h = none) :
    (disk.openHost s async answer).2.io.host h = none := by
  rcases disk.openHost_io s async answer with hio | ⟨-, p, -, hio⟩
  · rw [hio]
    exact hnone
  · rw [hio]
    simp only [Disk.truncate, hnone, Option.map_none, ite_self]

theorem Disk.openHost_fresh (hpossible : ∀ p ∈ answer.opened, 0 ≤ p.1 ∧ disk.io.host p.1 = none) :
    (disk.openHost s async answer).1.Fresh (disk.openHost s async answer).2.io := by
  intro p hp
  suffices h : ∃ q ∈ answer.opened, p.1 = q.1 ∧ p.2.position = noOffset by
    obtain ⟨q, hq, hdescriptor, hposition⟩ := h
    obtain ⟨hnonneg, hnone⟩ := hpossible q hq
    rw [← hdescriptor] at hnonneg hnone
    exact ⟨hnonneg, openHost_none hnone, hposition⟩
  rw [Disk.openHost] at hp
  split at hp
  · cases hp
  next descriptor f hopened =>
    have hanswer : answer.opened = some (descriptor, f) := by
      split at hopened
      · exact hopened
      · cases hopened
    obtain rfl := Option.some.inj hp
    exact ⟨_, hanswer, rfl, rfl⟩

end

namespace DiskCall

variable {c : DiskCall F}

theorem ask_io (disk : Disk F) (s : State) (c : DiskCall F) : (c.ask disk s).2.io = disk.io ∨
    truncates s = true ∧
      ∃ answer ∈ c.answer?, ∃ p ∈ answer.opened, (c.ask disk s).2.io = (disk.truncate p.2).io := by
  cases c with
  | sceIoOpen answer =>
    exact (disk.openHost_io s _ answer).imp_right fun ⟨htruncates, p, hp, hio⟩ => ⟨htruncates, answer, rfl, p, hp, hio⟩
  | sceIoOpenAsync answer =>
    exact (disk.openHost_io s _ answer).imp_right fun ⟨htruncates, p, hp, hio⟩ => ⟨htruncates, answer, rfl, p, hp, hio⟩
  | onFile call h => exact Or.inl rfl

theorem inv_ask (hinv : Inv disk.io) (s : State) (c : DiskCall F) : Inv (c.ask disk s).2.io := by
  rcases ask_io disk s c with hio | ⟨-, answer, -, p, -, hio⟩
  · rw [hio]
    exact hinv
  · rw [hio]
    exact hinv.truncate p.2

theorem nextFile_ask (disk : Disk F) (s : State) (c : DiskCall F) :
    (c.ask disk s).2.io.nextFile = disk.io.nextFile := by
  rcases ask_io disk s c with hio | ⟨-, answer, -, p, -, hio⟩
  · rw [hio]
  · rw [hio]
    rfl

theorem spared_ask (h : ¬ c.Empties disk d s) : Spared d disk.io (c.ask disk s).2.io := by
  rcases ask_io disk s c with hio | ⟨htruncates, answer, hanswer, p, hp, hio⟩
  · rw [hio]
    exact .refl
  · rw [hio]
    exact .truncate fun hnonneg hfile => h ⟨htruncates, answer, hanswer, p, hp, hnonneg, hfile⟩

theorem possible_ask (h : c.Possible disk) : (c.ask disk s).1.Possible (c.ask disk s).2.io := by
  cases c with
  | sceIoOpen answer => exact Disk.openHost_fresh (h answer rfl)
  | sceIoOpenAsync answer => exact Disk.openHost_fresh (h answer rfl)
  | onFile call hopens =>
    cases call with
    | sceIoOpen | sceIoOpenAsync => cases hopens
    | _ => trivial

omit [DecidableEq F] in
theorem onFile_possible (disk : Disk F) (call : Call) (h : call.opens = false) : (onFile call h).Possible disk := by
  intro answer hanswer
  cases hanswer

omit [DecidableEq F] in
theorem onFile_not_empties (disk : Disk F) (call : Call) (h : call.opens = false) :
    ¬ (onFile call h).Empties disk d s := by
  rintro ⟨-, answer, hanswer, -⟩
  cases hanswer

theorem on_ask : (c.ask disk s).1.On d s = c.On d s := by
  cases c <;> rfl

theorem inv_run (hinv : Inv disk.io) (h : c.Possible disk) : Inv (c.run disk s).1.io :=
  (inv_ask hinv s c).run _ (possible_ask h)

end DiskCall

/-! ### Histories of calls -/

/-- The states that calls lead to; at first the host has its three standard files open. -/
inductive Disk.Reachable : Disk F → Prop
  | start {host} {contents : F → Contents} {file} (hstandard : ∀ h, (host h).isSome ↔ 0 ≤ h ∧ h ≤ 2) :
    Reachable { io := { host }, contents, file }
  | call {disk : Disk F} (c : DiskCall F) (s : State) (h : Reachable disk) (hpossible : c.Possible disk) :
    Reachable (c.run disk s).1

theorem Disk.Reachable.inv (h : disk.Reachable) : Inv disk.io := by
  induction h with
  | start hstandard => exact (Io.Reachable.start hstandard).inv
  | call c s _ hpossible ih => exact DiskCall.inv_run ih hpossible

/-- A call in a state of the guest. -/
def stepCall (disk : Disk F) (call : DiskCall F × State) : Disk F × State := call.1.run disk call.2

/-- What the calls on the descriptor are answered: the states of the guest after them. -/
def answersOn (d : Int) : Disk F → List (DiskCall F × State) → List State :=
  Unwinding.answers stepCall fun call => call.1.On d call.2

/-- The host can give all its answers. -/
def PossibleRun : Disk F → List (DiskCall F × State) → Prop :=
  Unwinding.Allowed stepCall fun disk call => call.1.Possible disk

/-- No open empties the file of the descriptor. -/
def NeverEmpties (d : Int) : Disk F → List (DiskCall F × State) → Prop :=
  Unwinding.Allowed stepCall fun disk call => ¬ call.1.Empties disk d call.2

theorem unwinds (d : Int) : Unwinding.Unwinds (stepCall (F := F)) (fun call => call.1.On d call.2)
    (fun disk => only d disk.io) (fun disk => Inv disk.io ∧ d < disk.io.nextFile)
    fun disk call => call.1.Possible disk ∧ ¬ call.1.Empties disk d call.2 where
  keeps := by
    rintro disk ⟨c, s⟩ ⟨hinv, hd⟩ ⟨hpossible, -⟩
    rw [← DiskCall.nextFile_ask disk s c] at hd
    exact ⟨DiskCall.inv_run hinv hpossible, hd.trans_le (nextFile_le_run (DiskCall.possible_ask hpossible))⟩
  always := by
    rintro disk ⟨c, s⟩ hon
    cases c with
    | sceIoOpen | sceIoOpenAsync => cases hon
    | onFile call h => exact ⟨DiskCall.onFile_possible disk call h, DiskCall.onFile_not_empties disk call h⟩
  respects := by
    rintro disk ⟨c, s⟩ ⟨hinv, hd⟩ ⟨hpossible, hempties⟩ hon
    rw [← DiskCall.nextFile_ask disk s c] at hd
    rw [← DiskCall.on_ask] at hon
    have hcall := run_spared (DiskCall.inv_ask hinv s c) hd (DiskCall.possible_ask hpossible) hon
    exact hcall.only_eq.trans (DiskCall.spared_ask hempties).only_eq
  consistent := by
    rintro disk disk' ⟨c, s⟩ ⟨hinv, -⟩ ⟨hinv', -⟩ hon honly
    cases c with
    | sceIoOpen | sceIoOpenAsync => cases hon
    | onFile call h =>
      have hrun : (only d (call.run disk.io s).1, (call.run disk.io s).2) =
          (only d (call.run disk'.io s).1, (call.run disk'.io s).2) :=
        (run_only hinv hon).symm.trans ((congrArg (call.run · s) honly).trans (run_only hinv' hon))
      exact ⟨(Prod.mk.inj hrun).2, (Prod.mk.inj hrun).1⟩

/-- After any calls and from there on, whatever calls on other descriptors come between them, opens and closes
among them, of the same file too: the calls on a descriptor, the polls and the waits for results of asynchronous
calls too, are answered as if they were the only ones, as long as no open empties its file. -/
theorem descriptor_isolated (disk : Disk F) (hdisk : disk.Reachable) (d : Int) (hd : d < disk.io.nextFile)
    (calls : List (DiskCall F × State)) (hpossible : PossibleRun disk calls) (hempties : NeverEmpties d disk calls) :
    answersOn d disk calls = answersOn d disk (calls.filter fun call => call.1.On d call.2) :=
  (unwinds d).answers_filter ⟨hdisk.inv, hd⟩ (hpossible.and hempties)

end

/-- Two files of four bytes, and the guest has opened the first. -/
def twoFiles : Disk Nat :=
  let host : Disk Nat :=
    { io := standardFiles, contents := fun f => ⟨⟨4, by decide⟩, fun i => BitVec.ofNat 8 (16 * f + i)⟩
      file := fun _ => none }
  ((DiskCall.sceIoOpen ⟨some (5, 1), 0⟩).run host (pathState "ms0:/a")).1

/-- Two reads of two bytes, with another file opened, read and closed in between; the open is to empty it. -/
def readsAround (f : Nat) : List (DiskCall Nat × State) :=
  let read (d : Word) : State := (((pathState "").setGpr 4 d).setGpr 5 0x08800020).setGpr 6 2
  [(.onFile .sceIoRead rfl, read 3), (.sceIoOpen ⟨some (6, f), 0⟩, (pathState "ms0:/b").setGpr 5 0x0402),
    (.onFile .sceIoRead rfl, read 4), (.onFile (.sceIoClose true) rfl, read 4), (.onFile .sceIoRead rfl, read 3)]

/-- When it is the second file, the reads are as the only ones. -/
theorem descriptor_isolated_twoFiles :
    answersOn 3 twoFiles (readsAround 2) =
      answersOn 3 twoFiles ((readsAround 2).filter fun call => call.1.On 3 call.2) := by
  have hreachable : twoFiles.Reachable := by
    refine .call _ _ (.start fun d => ?_) ?_
    · simp only [Option.isSome_ite]
    · rintro answer hanswer p hp
      obtain rfl := Option.some.inj hanswer
      obtain rfl := Option.some.inj hp
      exact ⟨by decide, rfl⟩
  have hpossible := DiskCall.onFile_possible (F := Nat)
  have hkeeps (disk call h) {s} : ¬ (DiskCall.onFile call h).Empties disk 3 s :=
    DiskCall.onFile_not_empties (F := Nat) disk call h
  refine descriptor_isolated twoFiles hreachable 3 (by decide) _
    ⟨hpossible _ _ _, ?_, hpossible _ _ _, hpossible _ _ _, hpossible _ _ _, trivial⟩
    ⟨hkeeps _ _ _, ?_, hkeeps _ _ _, hkeeps _ _ _, hkeeps _ _ _, trivial⟩
  · rintro answer hanswer p hp
    obtain rfl := Option.some.inj hanswer
    obtain rfl := Option.some.inj hp
    exact ⟨by decide, Option.isNone_iff_eq_none.1 (by decide)⟩
  · rintro ⟨-, answer, hanswer, p, hp, -, hfile⟩
    obtain rfl := Option.some.inj hanswer
    obtain rfl := Option.some.inj hp
    revert hfile
    decide

/-- When it is the first file again, nothing is left of it for the second read. -/
example : (answersOn 3 twoFiles (readsAround 2)).map (·.gpr 2) = [2, 2] ∧
    (answersOn 3 twoFiles (readsAround 1)).map (·.gpr 2) = [2, 0] := by
  decide

end Psprism.Io
