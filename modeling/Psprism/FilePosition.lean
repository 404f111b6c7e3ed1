import Psprism.FileCalls

/-!
# Positions on file views

Calls come in any order, from any states of the guest. Every view that is open in the end has a host file of its own,
at its base or behind it (`Inv`), so each further seek and read on it is that of unbounded arithmetic, and the
asynchronous calls agree with the synchronous ones (`file_view_calls`).
-/

namespace Psprism.Io

/-- A call of a stub, with what the host answers. -/
inductive Call
  | sceIoOpen (answer : HostOpen)
  | sceIoOpenAsync (answer : HostOpen)
  | sceIoLseek
  | sceIoLseekAsync
  | sceIoRead
  | sceIoReadAsync
  | sceIoWaitAsync
  | sceIoPollAsync
  | sceIoClose (closed : Bool)
  | sceIoCloseAsync (closed : Bool)

namespace Call

def run (io : Implementation) (s : State) : Call → Implementation × State
  | sceIoOpen answer => Io.sceIoOpen io s answer
  | sceIoOpenAsync answer => Io.sceIoOpenAsync io s answer
  | sceIoLseek => Io.sceIoLseek io s
  | sceIoLseekAsync => Io.sceIoLseekAsync io s
  | sceIoRead => Io.sceIoRead io s
  | sceIoReadAsync => Io.sceIoReadAsync io s
  | sceIoWaitAsync => Io.sceIoWaitAsync io s
  | sceIoPollAsync => Io.sceIoPollAsync io s
  | sceIoClose closed => Io.sceIoClose io s closed
  | sceIoCloseAsync closed => Io.sceIoCloseAsync io s closed

/-- The host can give the answer. -/
def Possible (io : Implementation) : Call → Prop
  | sceIoOpen answer => answer.Fresh io
  | sceIoOpenAsync answer => answer.Fresh io
  | _ => True

end Call

/-- The states that calls lead to; at first the host has its three standard files open. -/
inductive Reachable : Implementation → Prop
  | start {host} (hstandard : ∀ d, (host d).isSome ↔ 0 ≤ d ∧ d ≤ 2) : Reachable { host }
  | call {io} (c : Call) (s : State) (h : Reachable io) (hpossible : c.Possible io) : Reachable (c.run io s).1

structure Inv (io : Implementation) : Prop where
  nextFile : 3 ≤ io.nextFile
  standard : ∀ d, 0 ≤ d → d ≤ 2 → (io.host d).isSome
  files : ∀ d h, io.files d = some h → 3 ≤ d ∧ d < io.nextFile ∧ 3 ≤ h ∧ (io.host h).isSome
  own : ∀ d d' h, io.files d = some h → io.files d' = some h → d = d'
  views : ∀ d view, io.fileViews d = some view → ∃ h f, ViewOpen io d view h f

section
variable {io io' : Implementation} {d descriptor pspDescriptor h : Int} {f f' : HostFile} {view : FileView} {s : State}

/-- Nothing in the invariant is about results. -/
theorem Inv.setAsyncResult (hinv : Inv io) (d : Int) (result : Option (BitVec 64)) :
    Inv (io.setAsyncResult d result) := by
  obtain ⟨hnext, hstandard, hfiles, hown, hviews⟩ := hinv
  refine ⟨hnext, hstandard, hfiles, hown, fun d view hview => ?_⟩
  obtain ⟨h, f, ⟨huser, hfile, hnonneg, hhost, hview, hplain, hfits, hbase⟩⟩ := hviews d view hview
  exact ⟨h, f, ⟨huser, hfile, hnonneg, hhost, hview, hplain, hfits, hbase⟩⟩

/-- A file moves, but not to before the base of its view. -/
theorem Inv.same (hinv : Inv io) (hsame : Same descriptor io io')
    (hmoved : ∀ d view f, ViewOpen io d view descriptor f →
      ∃ f', io'.host descriptor = some f' ∧ view.base.toNat ≤ f'.position) : Inv io' := by
  have hopen (x : Int) : (io'.host x).isSome = (io.host x).isSome := by
    by_cases hx : x = descriptor
    · rw [hx]; exact hsame.isOpen
    · rw [hsame.other x hx]
  refine ⟨?_, fun x h₀ h₂ => ?_, fun x h hx => ?_, fun x x' h hx hx' => ?_, fun x view hx => ?_⟩
  · rw [hsame.nextFile]; exact hinv.nextFile
  · rw [hopen]; exact hinv.standard x h₀ h₂
  · rw [hsame.files] at hx
    rw [hsame.nextFile, hopen]
    exact hinv.files x h hx
  · rw [hsame.files] at hx hx'
    exact hinv.own x x' h hx hx'
  · rw [hsame.fileViews] at hx
    obtain ⟨h, f, hview⟩ := hinv.views x view hx
    obtain ⟨huser, hfile, hnonneg, hhost, hregistered, hplain, hfits, hbase⟩ := id hview
    rw [← hsame.files] at hfile
    rw [← hsame.fileViews] at hregistered
    rw [← hsame.sectorFiles] at hplain
    by_cases hh : h = descriptor
    · subst hh
      obtain ⟨f', hhost', hbase'⟩ := hmoved x view f hview
      exact ⟨h, f', huser, hfile, hnonneg, hhost', hregistered, hplain, hfits, hbase'⟩
    · rw [← hsame.other h hh] at hhost
      exact ⟨h, f, huser, hfile, hnonneg, hhost, hregistered, hplain, hfits, hbase⟩

/-- The host file of a view belongs to the one guest descriptor. -/
theorem Inv.eq_of_descriptor (hinv : Inv io) (hview : ViewOpen io d view (io.descriptor pspDescriptor) f) :
    pspDescriptor = d := by
  have hfile := hview.file
  obtain ⟨-, -, hthree, -⟩ := hinv.files d _ hfile
  rw [Implementation.descriptor] at hfile hthree
  split at hfile
  next hstandard => rw [if_pos hstandard] at hthree; omega
  next hstandard =>
    rw [if_neg hstandard] at hthree
    cases hpsp : io.files pspDescriptor with
    | none => rw [hpsp, Option.getD_none] at hthree; omega
    | some h =>
      rw [hpsp, Option.getD_some] at hfile
      exact hinv.own pspDescriptor d h hpsp hfile

theorem Inv.seekFile (hinv : Inv io) : Inv (seekFile io pspDescriptor s).2 := by
  refine hinv.same seekFile_same fun d view f hview => ?_
  obtain rfl := hinv.eq_of_descriptor hview
  have hseek : Io.seekFile io pspDescriptor s =
      seekView io (io.descriptor pspDescriptor) view (signedFromWords (s.gpr 6) (s.gpr 7)) (s.gpr 8) := by
    simp only [Io.seekFile, hview.plain, Bool.false_eq_true, if_false, hview.registered]
  rw [hseek]
  cases ht : view.seekTarget f.position (signedFromWords (s.gpr 6) (s.gpr 7)) (s.gpr 8) with
  | none =>
    rw [seekView_none hview.host hview.base_le ht]
    exact ⟨f, hview.host, hview.base_le⟩
  | some t =>
    obtain ⟨f', hmoved, hf'⟩ := seekView_some hview.host hview.base_le ht
    rw [hf']
    refine ⟨f', Function.update_self .., ?_⟩
    rw [hmoved.position]
    omega

theorem Inv.readFile (hinv : Inv io) : Inv (readFile io pspDescriptor s).2.1 := by
  refine hinv.same readFile_same fun d view f hview => ?_
  obtain rfl := hinv.eq_of_descriptor hview
  rcases readFile_view (s := s) hview with ⟨-, hread⟩ | ⟨-, -, hread⟩ | ⟨-, buffer, f', -, hmoved, hread⟩
  · rw [hread]
    exact ⟨f, hview.host, hview.base_le⟩
  · rw [hread]
    exact ⟨f, hview.host, hview.base_le⟩
  · rw [hread]
    refine ⟨f', Function.update_self .., ?_⟩
    rw [hmoved.position]
    exact hview.base_le.trans (Nat.le_add_right ..)

/-! ### Open and close -/

theorem seek_set_negative {position : BitVec 64} (hhost : io.host h = some f) (hposition : 2 ^ 63 ≤ position.toNat) :
    seek io h position 0 = (-1, io) := by
  have horigin : f.origin 0 = some 0 := rfl
  have hint : position.toInt = position.toNat - 2 ^ 64 := by
    rw [BitVec.toInt_eq_toNat_cond, if_neg (by omega)]
    rfl
  simp only [seek, hhost, horigin, hint]
  rw [dif_neg (by omega)]

/-- A path with a sector number is longer than that of the whole disc. -/
theorem isWholeDiscPath_of_isRaw {path : List Char} (h : isRawDiscPath path = true) : isWholeDiscPath path = false := by
  obtain ⟨p, hp⟩ := Option.isSome_iff_exists.1 (Bool.and_eq_true_iff.1 h).2
  have hmem := List.mem_range'_1.1 (List.mem_of_find?_eq_some hp)
  have hmarker : lbnMarker.length = 10 := by decide
  have hlong : 10 ≤ path.length := by omega
  have hne (n : Nat) (hn : n < 10) : decide (path.length = n) = false := decide_eq_false (by omega)
  simp [isWholeDiscPath, equalsCaseInsensitive, hne]

/-- A host file that is closed again has left nothing. -/
theorem Same.setHost_none (hsame : Same descriptor (io.setHost descriptor (some f)) io')
    (hfresh : io.host descriptor = none) : io'.setHost descriptor none = io := by
  obtain ⟨hfiles, hviews, hsectors, hresults, hnext, hother, -⟩ := hsame
  have hhost : Function.update io'.host descriptor none = io.host := by
    funext x
    by_cases hx : x = descriptor
    · rw [hx, Function.update_self, hfresh]
    · rw [Function.update_of_ne hx, hother x hx]
      exact Function.update_of_ne hx _ _
  obtain ⟨files, fileViews, sectorFiles, asyncResults, nextFile, host⟩ := io'
  obtain rfl : files = io.files := hfiles
  obtain rfl : fileViews = io.fileViews := hviews
  obtain rfl : sectorFiles = io.sectorFiles := hsectors
  obtain rfl : asyncResults = io.asyncResults := hresults
  obtain rfl : nextFile = io.nextFile := hnext
  simp only [Implementation.setHost, hhost]

/-- A view is opened with its host file at the base. -/
theorem openView_some {view' : FileView} (hhost : io.host descriptor = some f) (hfits : view.Fits)
    (h : openView io descriptor view = (some view', io')) :
    Same descriptor io io' ∧ view'.Fits ∧ ∃ f', io'.host descriptor = some f' ∧ view'.base.toNat ≤ f'.position := by
  have hsame : Same descriptor io (seek io descriptor 0 2).2 := seek_same
  obtain ⟨f₁, hf₁⟩ := Option.isSome_iff_exists.1 (hsame.isOpen.trans (by rw [hhost]; rfl))
  rw [openView] at h
  dsimp only at h
  split at h
  · cases h
  next view'' hcomplete =>
    split at hcomplete
    · cases hcomplete
    obtain ⟨-, hfits'⟩ := completeFileView_fits hfits hcomplete
    by_cases hlt : view''.base.toNat < 2 ^ 63
    · rw [seek_set hf₁ hlt] at h
      dsimp only at h
      split at h
      · cases h
      · cases h
        exact ⟨hsame.trans (.setHost hf₁), hfits', _, Function.update_self .., le_rfl⟩
    · rw [seek_set_negative hf₁ (not_lt.1 hlt)] at h
      cases h

theorem openView_none (hfresh : io.host descriptor = none)
    (h : openView (io.setHost descriptor (some f)) descriptor view = (none, io')) : io' = io := by
  have hsame : Same descriptor (io.setHost descriptor (some f))
      (seek (io.setHost descriptor (some f)) descriptor 0 2).2 := seek_same
  rw [openView] at h
  dsimp only at h
  split at h
  · obtain ⟨-, rfl⟩ := Prod.mk.inj h
    exact hsame.setHost_none hfresh
  · split at h
    · obtain ⟨-, rfl⟩ := Prod.mk.inj h
      exact (hsame.trans seek_same).setHost_none hfresh
    · cases h

/-- A new host file under a new descriptor of the guest. -/
theorem Inv.registerFile (hinv : Inv io) (hnonneg : 0 ≤ descriptor) (hfresh : io.host descriptor = none)
    (hsame : Same descriptor (io.setHost descriptor (some f)) io') {view : Option FileView} {sector async : Bool}
    (hview : ∀ v ∈ view, sector = false ∧ v.Fits ∧ ∃ f', io'.host descriptor = some f' ∧ v.base.toNat ≤ f'.position) :
    Inv (registerFile io' descriptor view sector async) := by
  have hnext : io'.nextFile = io.nextFile := hsame.nextFile
  have hfiles : io'.files = io.files := hsame.files
  have hother {x : Int} (hx : x ≠ descriptor) : io'.host x = io.host x :=
    (hsame.other x hx).trans (Function.update_of_ne hx _ _)
  have hisOpen : (io'.host descriptor).isSome := by
    rw [hsame.isOpen]
    simp [Implementation.setHost]
  have hne {x : Int} (hx : (io.host x).isSome) : x ≠ descriptor := by
    rintro rfl
    rw [hfresh] at hx
    cases hx
  have hthree : 3 ≤ descriptor := by
    by_contra hlt
    have hstandard := hinv.standard descriptor hnonneg (by omega)
    rw [hfresh] at hstandard
    cases hstandard
  have hlow := hinv.nextFile
  refine ⟨?_, fun x h₀ h₂ => ?_, fun x h hx => ?_, fun x x' h hx hx' => ?_, fun x v hx => ?_⟩
  · show 3 ≤ io'.nextFile + 1
    omega
  · show (io'.host x).isSome
    have hx := hinv.standard x h₀ h₂
    rw [hother (hne hx)]
    exact hx
  · show 3 ≤ x ∧ x < io'.nextFile + 1 ∧ 3 ≤ h ∧ (io'.host h).isSome
    rw [registerFile_files, hfiles] at hx
    split at hx
    · obtain rfl := Option.some.inj hx
      exact ⟨by omega, by omega, hthree, hisOpen⟩
    · obtain ⟨h₁, h₂, h₃, h₄⟩ := hinv.files x h hx
      rw [hother (hne h₄)]
      exact ⟨h₁, by omega, h₃, h₄⟩
  · rw [registerFile_files, hfiles] at hx hx'
    split at hx <;> split at hx'
    · omega
    · obtain rfl := Option.some.inj hx
      exact absurd rfl (hne (hinv.files x' _ hx').2.2.2)
    · obtain rfl := Option.some.inj hx'
      exact absurd rfl (hne (hinv.files x _ hx).2.2.2)
    · exact hinv.own x x' h hx hx'
  · have hregistered := hx
    rw [registerFile_fileViews, hsame.fileViews] at hx
    split at hx
    next hnew =>
      obtain ⟨hplain, hfits, f', hhost, hbase⟩ := hview v hx
      refine ⟨descriptor, f', by omega, ?_, hnonneg, hhost, hregistered, ?_, hfits, hbase⟩
      · rw [registerFile_files, if_pos hnew]
      · rw [registerFile_sectorFiles, if_pos hnew, hplain]
    next hold =>
      obtain ⟨h, f, huser, hfile, hnonneg', hhost, -, hplain, hfits, hbase⟩ := hinv.views x v hx
      refine ⟨h, f, huser, ?_, hnonneg', ?_, hregistered, ?_, hfits, hbase⟩
      · rw [registerFile_files, if_neg hold, hfiles, hfile]
      · exact (hother (hne (by rw [hhost]; rfl))).trans hhost
      · rw [registerFile_sectorFiles, if_neg hold, hsame.sectorFiles]
        exact hplain

theorem Inv.openFile (hinv : Inv io) {answer : HostOpen} (hanswer : answer.Fresh io) (path : List Char)
    (async : Bool) : Inv (openFile io s answer path async).1 := by
  rw [Io.openFile]
  split
  · exact hinv
  split
  · exact hinv
  next descriptor file hopened =>
    obtain ⟨hnonneg, hfresh, -⟩ := hanswer (descriptor, file) hopened
    have hhost : (io.setHost descriptor (some file)).host descriptor = some file := Function.update_self ..
    dsimp only
    split
    · exact hinv.registerFile hnonneg hfresh .refl fun v hv => by cases hv
    next view hparse =>
      have hraw : isRawDiscPath path = true := by
        by_contra hnot
        rw [parseRawDiscView] at hparse
        simp [guard, hnot] at hparse
      split
      next io' hview =>
        rw [openView_none hfresh hview]
        exact hinv
      next view' io' hview =>
        obtain ⟨hsame, hfits, hbase⟩ := openView_some hhost (parseRawDiscView_fits hparse) hview
        refine hinv.registerFile hnonneg hfresh hsame fun v hv => ?_
        obtain rfl := Option.some.inj hv
        exact ⟨isWholeDiscPath_of_isRaw hraw, hfits, hbase⟩

theorem Inv.closeFile (hinv : Inv io) (hfile : io.files d = some descriptor) : Inv (closeFile io d descriptor) := by
  obtain ⟨-, -, hthree, -⟩ := hinv.files d descriptor hfile
  have hfiles {x h : Int} (hx : (Io.closeFile io d descriptor).files x = some h) :
      io.files x = some h ∧ h ≠ descriptor := by
    rw [closeFile_files] at hx
    split at hx
    · cases hx
    next hne =>
      refine ⟨hx, ?_⟩
      rintro rfl
      exact hne (hinv.own x d h hx hfile)
  refine ⟨hinv.nextFile, fun x h₀ h₂ => ?_, fun x h hx => ?_, fun x x' h hx hx' => ?_, fun x view hx => ?_⟩
  · rw [closeFile_host, if_neg (by omega)]
    exact hinv.standard x h₀ h₂
  · obtain ⟨hx, hne⟩ := hfiles hx
    rw [closeFile_host, if_neg hne]
    exact hinv.files x h hx
  · exact hinv.own x x' h (hfiles hx).1 (hfiles hx').1
  · have hregistered := hx
    rw [closeFile_fileViews] at hx
    split at hx
    · cases hx
    next hne =>
      obtain ⟨h, f, huser, hfile', hnonneg, hhost, -, hplain, hfits, hbase⟩ := hinv.views x view hx
      refine ⟨h, f, huser, ?_, hnonneg, ?_, hregistered, ?_, hfits, hbase⟩
      · rw [closeFile_files, if_neg hne, hfile']
      · rw [closeFile_host, if_neg, hhost]
        rintro rfl
        exact hne (hinv.own x d h hfile' hfile)
      · rw [closeFile_sectorFiles, if_neg hne, hplain]

/-- Every call keeps the invariant. -/
theorem Inv.run (hinv : Inv io) (c : Call) (hpossible : c.Possible io) : Inv (c.run io s).1 := by
  cases c with
  | sceIoOpen answer =>
    rw [Call.run, sceIoOpen]
    split
    · exact hinv
    · split
      · exact hinv
      · exact hinv.openFile hpossible _ _
  | sceIoOpenAsync answer =>
    rw [Call.run, sceIoOpenAsync]
    split
    · exact hinv
    · exact hinv.openFile hpossible _ _
  | sceIoLseek =>
    rw [Call.run, sceIoLseek]
    dsimp only
    split
    · exact hinv
    · split
      · exact hinv.seekFile
      · exact hinv.seekFile
  | sceIoLseekAsync =>
    rw [Call.run, sceIoLseekAsync]
    dsimp only
    split
    · exact hinv
    · exact hinv.seekFile.setAsyncResult _ _
  | sceIoRead =>
    have hread : Inv (Io.readFile io (s.gpr 4).toInt s).2.1 := hinv.readFile
    rw [Call.run, sceIoRead]
    split <;> next heq => rw [heq] at hread; exact hread
  | sceIoReadAsync =>
    have hread : Inv (Io.readFile io (s.gpr 4).toInt s).2.1 := hinv.readFile
    rw [Call.run, sceIoReadAsync]
    split
    next heq => rw [heq] at hread; exact hread
    all_goals next heq => rw [heq] at hread; exact hread.setAsyncResult _ _
  | sceIoWaitAsync =>
    rw [Call.run, sceIoWaitAsync]
    split
    · exact hinv
    · exact hinv.setAsyncResult _ _
  | sceIoPollAsync =>
    rw [Call.run, sceIoPollAsync]
    split
    · exact hinv
    · exact hinv
  | sceIoClose closed =>
    rw [Call.run, sceIoClose]
    split
    · exact hinv
    next hfile => exact (hinv.closeFile hfile).setAsyncResult _ _
  | sceIoCloseAsync closed =>
    rw [Call.run, sceIoCloseAsync]
    split
    · exact hinv
    next hfile => exact (hinv.closeFile hfile).setAsyncResult _ _

end

theorem Reachable.inv {io : Implementation} (h : Reachable io) : Inv io := by
  induction h with
  | start hstandard =>
    refine ⟨le_rfl, fun d h₀ h₂ => (hstandard d).2 ⟨h₀, h₂⟩, fun d h hd => ?_, fun d d' h hd => ?_,
      fun d view hd => ?_⟩
    · cases hd
    · cases hd
    · cases hd
  | call c s _ hpossible ih => exact ih.run c hpossible

/-! ### Seeks, reads and waits -/

/-- The 64-bit result of a call in its two registers. -/
def result64 (s : State) : BitVec 64 := signedFromWords (s.gpr 2) (s.gpr 3)

/-- What `sceIoLseek` does on a view. -/
inductive SeeksView (io : Implementation) (h : Int) (f : HostFile) (view : FileView) :
    Option Nat → Implementation × State → Prop
  | moved {t f' s'} (hmoved : MovedTo f f' (view.base.toNat + t)) (hresult : (result64 s').toNat = t) :
    SeeksView io h f view (some t) (io.setHost h (some f'), s')
  | failed {s'} (hresult : result64 s' = genericIoError.signExtend 64) : SeeksView io h f view none (io, s')

/-- The `n` bytes from a position on are bytes of the view, and no more than are asked for. -/
def FileView.Within (view : FileView) (position requested n : Nat) : Prop :=
  n ≤ requested ∧ (n ≠ 0 → view.base.toNat ≤ position ∧ position + n ≤ view.base.toNat + view.size.toNat)

/-- What `sceIoRead` does on a view that leaves it `n` bytes. -/
inductive ReadsView (io : Implementation) (s : State) (h : Int) (f : HostFile) (n : Nat) : Implementation × State → Prop
  | nothing (hn : n = 0) : ReadsView io s h f n (io, s.setGpr 2 0)
  | unmapped (hn : n ≠ 0) (hbuffer : s.mem.mappedAddress (s.gpr 5) n = none) :
    ReadsView io s h f n (io, s.setGpr 2 genericIoError)
  | transferred {buffer count f'} (hn : n ≠ 0) (hbuffer : s.mem.mappedAddress (s.gpr 5) n = some buffer)
      (hcount : count = min n (f.size - f.position)) (hmoved : MovedTo f f' (f.position + count)) :
    ReadsView io s h f n
      (io.setHost h (some f'),
        { s with mem := copyTo s.mem buffer count fun i => f.byte (f.position + i) }.setGpr 2 (BitVec.ofNat 32 count))

/-- An asynchronous call that returns 0, and the wait for its result in any later state of the guest with the same
memory, leave what the synchronous call leaves, and the result where the wait is told to put it. -/
def WaitsFor (asynchronous synchronous : Implementation × State) (d : Int) (result : BitVec 64) : Prop :=
  asynchronous.2.gpr 2 = 0 → ∀ w : State, (w.gpr 4).toInt = d → w.mem = asynchronous.2.mem →
    let waited := sceIoWaitAsync asynchronous.1 w
    waited.1 = synchronous.1.setAsyncResult d none ∧ waited.2.gpr 2 = 0 ∧
      waited.2.mem = storeResult synchronous.2.mem (w.gpr 5) result

section
variable {io : Implementation} {d h : Int} {f : HostFile} {view : FileView} {s : State}

theorem waitsFor_of_stored {io' : Implementation} {s₁ s₂ : State} {result : BitVec 64} (hmem : s₁.mem = s₂.mem) :
    WaitsFor (io'.setAsyncResult d (some result), s₁) (io', s₂) d result := by
  rintro - w rfl hw
  have hstored : (io'.setAsyncResult (w.gpr 4).toInt (some result)).asyncResults (w.gpr 4).toInt = some result :=
    Function.update_self ..
  simp only [sceIoWaitAsync, hstored]
  refine ⟨?_, by simp, ?_⟩
  · simp only [Implementation.setAsyncResult, Function.update_idem]
  · show storeResult w.mem _ _ = _
    rw [hw, hmem]

theorem signedFromWords_of_result (result : BitVec 64) :
    signedFromWords (result.setWidth 32) ((result >>> 32).setWidth 32) = result := by
  rw [signedFromWords]
  ext i hi
  have hget : result.getLsbD i = result[i] := BitVec.getLsbD_eq_getElem hi
  by_cases hlow : i < 32
  · simp [hlow, hget]
  · have hindex : 32 + (i - 32) = i := by omega
    have hbit : i - 32 < 32 := by omega
    simp [hlow, hindex, hbit, hget]

theorem seekFile_view (hopen : ViewOpen io d view h f) : seekFile io d s =
    seekView io h view (signedFromWords (s.gpr 6) (s.gpr 7)) (s.gpr 8) := by
  simp only [seekFile, hopen.plain, Bool.false_eq_true, if_false, hopen.registered, hopen.descriptor]

theorem seekTarget_lt {position t : Nat} {offset : BitVec 64} {whence : Word}
    (ht : view.seekTarget position offset whence = some t) : t < 2 ^ 63 := by
  obtain ⟨target, -, ht⟩ := Option.bind_eq_some_iff.1 ht
  split at ht
  · cases ht
    omega
  · cases ht

theorem result64_failed (s : State) :
    result64 ((s.setGpr 2 genericIoError).setGpr 3 0xffffffff) = genericIoError.signExtend 64 := by
  simp [result64, genericIoError, signedFromWords]

theorem result64_setGpr (s : State) (result : BitVec 64) :
    result64 ((s.setGpr 2 (result.setWidth 32)).setGpr 3 ((result >>> 32).setWidth 32)) = result := by
  rw [result64]
  simp only [State.setGpr_gpr]
  rw [Function.update_of_ne (by decide), Function.update_self, Function.update_self]
  exact signedFromWords_of_result result

theorem sceIoLseek_view (hopen : ViewOpen io d view h f) (hd : (s.gpr 4).toInt = d) :
    SeeksView io h f view (view.seekTarget f.position (signedFromWords (s.gpr 6) (s.gpr 7)) (s.gpr 8))
      (sceIoLseek io s) := by
  have hnonneg : ¬ h < 0 := not_lt.2 hopen.nonneg
  rw [sceIoLseek, hd, hopen.descriptor]
  simp only [if_neg hnonneg, seekFile_view hopen]
  cases ht : view.seekTarget f.position (signedFromWords (s.gpr 6) (s.gpr 7)) (s.gpr 8) with
  | none =>
    rw [seekView_none hopen.host hopen.base_le ht]
    exact .failed (result64_failed s)
  | some t =>
    obtain ⟨f', hmoved, hf'⟩ := seekView_some hopen.host hopen.base_le ht
    have hlt := seekTarget_lt ht
    have hresult : ¬ (BitVec.ofNat 64 t).toInt < 0 := by rw [toInt_ofNat hlt]; omega
    rw [hf']
    simp only [if_neg hresult]
    refine .moved hmoved ?_
    rw [result64_setGpr, toNat_ofNat hlt]

theorem sceIoLseekAsync_view (hopen : ViewOpen io d view h f) (hd : (s.gpr 4).toInt = d) :
    WaitsFor (sceIoLseekAsync io s) (sceIoLseek io s) d (result64 (sceIoLseek io s).2) := by
  have hnonneg : ¬ h < 0 := not_lt.2 hopen.nonneg
  simp only [sceIoLseekAsync, sceIoLseek, hd, hopen.descriptor, if_neg hnonneg]
  split
  next hfailed =>
    rw [result64_failed]
    exact waitsFor_of_stored rfl
  next hdone =>
    rw [result64_setGpr]
    exact waitsFor_of_stored rfl

theorem sceIoRead_view (hopen : ViewOpen io d view h f) (hd : (s.gpr 4).toInt = d) :
    ReadsView io s h f (view.left f.position (s.gpr 6).toNat) (sceIoRead io s) := by
  rw [sceIoRead, hd]
  rcases readFile_view (s := s) hopen with
    ⟨hn, hread⟩ | ⟨hn, hbuffer, hread⟩ | ⟨hn, buffer, f', hbuffer, hmoved, hread⟩
  · rw [hread]
    exact .nothing hn
  · rw [hread]
    exact .unmapped hn hbuffer
  · rw [hread]
    dsimp only
    rw [BitVec.setWidth_ofNat_of_le (by decide)]
    exact .transferred hn hbuffer rfl hmoved

theorem sceIoReadAsync_view (hopen : ViewOpen io d view h f) (hd : (s.gpr 4).toInt = d) :
    WaitsFor (sceIoReadAsync io s) (sceIoRead io s) d (((sceIoRead io s).2.gpr 2).setWidth 64) := by
  rw [sceIoRead, sceIoReadAsync, hd]
  rcases readFile_view (s := s) hopen with
    ⟨hn, hread⟩ | ⟨hn, hbuffer, hread⟩ | ⟨hn, buffer, f', hbuffer, hmoved, hread⟩
  · rw [hread]
    dsimp only
    have hresult : (((s.setGpr 2 0).gpr 2).setWidth 64 : BitVec 64) = 0 := by simp
    rw [hresult]
    exact waitsFor_of_stored rfl
  · rw [hread]
    intro hzero
    simp [genericIoError] at hzero
  · rw [hread]
    have hcount : min (view.left f.position (s.gpr 6).toNat) (f.size - f.position : Nat) < 2 ^ 32 := by
      have hleft : view.left f.position (s.gpr 6).toNat ≤ (s.gpr 6).toNat := by
        rw [FileView.left]
        split <;> omega
      omega
    have hresult : (((BitVec.ofNat 64 (min (view.left f.position (s.gpr 6).toNat) (f.size - f.position : Nat))).setWidth
        32).setWidth 64 : BitVec 64) =
        BitVec.ofNat 64 (min (view.left f.position (s.gpr 6).toNat) (f.size - f.position : Nat)) := by
      apply BitVec.eq_of_toNat_eq
      simp only [BitVec.toNat_setWidth, BitVec.toNat_ofNat]
      omega
    dsimp only
    rw [State.setGpr_gpr, Function.update_self, hresult]
    exact waitsFor_of_stored rfl

/-- A read takes no byte from outside the view. -/
theorem left_within (view : FileView) (position requested : Nat) :
    view.Within position requested (view.left position requested) := by
  rw [FileView.Within, FileView.left]
  split <;> omega

end

/-- After any calls, on any view that is open: a seek goes to the position that unbounded arithmetic gives, or fails
and leaves the host's file where it was; a read takes bytes of the view from the position on, no more than it is asked
for and no more than are left; and the asynchronous calls, waited for, do the same. -/
theorem file_view_calls (io : Implementation) (hio : Reachable io) (d : Int) (view : FileView)
    (hview : io.fileViews d = some view) (s : State) (hd : (s.gpr 4).toInt = d) :
    ∃ h f, io.files d = some h ∧ io.host h = some f ∧ view.Fits ∧ view.base.toNat ≤ f.position ∧
      SeeksView io h f view (view.seekTarget f.position (signedFromWords (s.gpr 6) (s.gpr 7)) (s.gpr 8))
        (sceIoLseek io s) ∧
      WaitsFor (sceIoLseekAsync io s) (sceIoLseek io s) d (result64 (sceIoLseek io s).2) ∧
      view.Within f.position (s.gpr 6).toNat (view.left f.position (s.gpr 6).toNat) ∧
      ReadsView io s h f (view.left f.position (s.gpr 6).toNat) (sceIoRead io s) ∧
      WaitsFor (sceIoReadAsync io s) (sceIoRead io s) d (((sceIoRead io s).2.gpr 2).setWidth 64) := by
  obtain ⟨h, f, hopen⟩ := hio.inv.views d view hview
  exact ⟨h, f, hopen.file, hopen.host, hopen.fits, hopen.base_le, sceIoLseek_view hopen hd,
    sceIoLseekAsync_view hopen hd, left_within .., sceIoRead_view hopen hd, sceIoReadAsync_view hopen hd⟩

/-! ### The second sector of a disc -/

/-- The host with its standard files. -/
def standardFiles : Implementation where
  host d := if 0 ≤ d ∧ d ≤ 2 then some ⟨⟨0, by decide⟩, fun _ => 0, ⟨0, by decide⟩⟩ else none

/-- A call with a path in the guest's memory. -/
def pathState (path : String) : State where
  gpr r := if r = 4 then 0x08800000 else 0
  mem :=
    { memory := ⟨some fun i => BitVec.ofNat 8 ((path.toList.map Char.toNat).getD i 0), 64⟩, memoryBase := 0x08800000 }

/-- A disc of four sectors. -/
def discAnswer : HostOpen := ⟨some (5, ⟨⟨8192, by decide⟩, fun i => BitVec.ofNat 8 i, ⟨0, by decide⟩⟩), 0⟩

/-- The guest has opened a part of the second sector. -/
def sectorOpen : Implementation := (sceIoOpen standardFiles (pathState "disc0:/sce_lbn0x1_size0x40") discAnswer).1

theorem reachable_sectorOpen : Reachable sectorOpen := by
  refine .call (.sceIoOpen discAnswer) _ (.start fun d => ?_) ?_
  · split <;> simp_all
  · rintro p hp
    obtain rfl := Option.some.inj hp
    exact ⟨by decide, rfl, rfl⟩

/-- A seek to 16 bytes before its end goes there, and a read that asks for more gets all of its 64 bytes. -/
theorem file_view_calls_sector :
    let s := (((((pathState "").setGpr 4 3).setGpr 5 0x08800000).setGpr 6 0xfffffff0).setGpr 7 0xffffffff).setGpr 8 2
    ∃ h f, sectorOpen.host h = some f ∧ f.position.val = 0x800 ∧
      SeeksView sectorOpen h f ⟨0x800, 0x40⟩ (some 0x30) (sceIoLseek sectorOpen s) ∧
      WaitsFor (sceIoLseekAsync sectorOpen s) (sceIoLseek sectorOpen s) 3 (result64 (sceIoLseek sectorOpen s).2) ∧
      ReadsView sectorOpen s h f 0x40 (sceIoRead sectorOpen s) ∧
      WaitsFor (sceIoReadAsync sectorOpen s) (sceIoRead sectorOpen s) 3
        (((sceIoRead sectorOpen s).2.gpr 2).setWidth 64) := by
  intro s
  obtain ⟨h, f, hfile, hhost, -, -, hseek, hseekAsync, -, hread, hreadAsync⟩ :=
    file_view_calls sectorOpen reachable_sectorOpen 3 ⟨0x800, 0x40⟩ (by decide) s (by decide)
  have hfive : sectorOpen.files 3 = some 5 := by decide
  have hbase : (sectorOpen.host 5).map (fun f => f.position.val) = some 0x800 := by decide
  obtain rfl : h = 5 := Option.some.inj (hfile.symm.trans hfive)
  have hposition : f.position.val = 0x800 := by
    rw [hhost] at hbase
    exact Option.some.inj hbase
  have htarget : FileView.seekTarget ⟨0x800, 0x40⟩ 0x800 (signedFromWords (s.gpr 6) (s.gpr 7)) (s.gpr 8) =
      some 0x30 := by
    decide
  have hleft : FileView.left ⟨0x800, 0x40⟩ 0x800 (s.gpr 6).toNat = 0x40 := by decide
  rw [hposition, htarget] at hseek
  rw [hposition, hleft] at hread
  exact ⟨5, f, hhost, hposition, hseek, hseekAsync, hread, hreadAsync⟩

end Psprism.Io
