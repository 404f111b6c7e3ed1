import Psprism.FileIo

/-!
# Runs of file calls

What a seek, a read and a wait do on a view, in unbounded arithmetic, and the invariant of all calls that the positions
need: the host's file of a view is its own, and stands at the base or behind it (`Inv`).
-/

namespace Psprism.Io

/-! ### Seeks -/

/-- The logical position that a seek asks for. -/
def FileView.target (view : FileView) (position : Nat) (offset : BitVec 64) (whence : Word) : Option Int :=
  if whence = 0 then some offset.toInt
  else if whence = 1 then some (position - view.base.toNat + offset.toInt)
  else if whence = 2 then some (view.size.toNat + offset.toInt)
  else none

/-- The logical position a seek comes to: one in the view or behind it that the host can be at. -/
def FileView.seekTarget (view : FileView) (position : Nat) (offset : BitVec 64) (whence : Word) : Option Nat :=
  (view.target position offset whence).bind fun target =>
    if 0 ≤ target ∧ view.base.toNat + target < 2 ^ 63 then some target.toNat else none

/-- The same file at another position. -/
structure MovedTo (f f' : HostFile) (position : Nat) : Prop where
  position : (f'.position : Nat) = position
  size : f'.size = f.size
  byte : f'.byte = f.byte

section
variable {io : Implementation} {h : Int} {f : HostFile} {view : FileView} {offset : BitVec 64} {whence : Word}

theorem Implementation.setHost_self (hhost : io.host h = some f) : io.setHost h (some f) = io := by
  rw [setHost, ← hhost, Function.update_eq_self]

/-- The host tells where it is. -/
theorem seek_cur (hhost : io.host h = some f) : seek io h 0 1 = (BitVec.ofNat 64 f.position, io) := by
  have hposition := f.position.isLt
  have horigin : f.origin 1 = some (f.position : Nat) := rfl
  have hzero : (0 : BitVec 64).toInt = 0 := rfl
  simp only [seek, hhost, horigin, hzero, Int.add_zero]
  rw [dif_pos ⟨by omega, by omega⟩]
  refine Prod.ext (BitVec.ofInt_natCast ..) ?_
  show io.setHost h (some _) = io
  simp only [Int.toNat_natCast, Fin.eta]
  exact Implementation.setHost_self hhost

/-- The host goes where it is told to. -/
theorem seek_set (hhost : io.host h = some f) {position : BitVec 64} (hposition : position.toNat < 2 ^ 63) :
    seek io h position 0 = (position, io.setHost h (some { f with position := ⟨position.toNat, hposition⟩ })) := by
  have hint : position.toInt = position.toNat := by
    rw [BitVec.toInt_eq_toNat_cond, if_pos (by omega)]
  have horigin : f.origin 0 = some 0 := rfl
  simp only [seek, hhost, horigin, hint]
  rw [dif_pos ⟨by omega, by omega⟩]
  simp

theorem toInt_ofNat {n : Nat} (hn : n < 2 ^ 63) : (BitVec.ofNat 64 n).toInt = n := by
  rw [BitVec.toInt_eq_toNat_cond, BitVec.toNat_ofNat, Nat.mod_eq_of_lt (by omega), if_pos (by omega)]

theorem toNat_ofNat {n : Nat} (hn : n < 2 ^ 63) : (BitVec.ofNat 64 n).toNat = n := by
  rw [BitVec.toNat_ofNat, Nat.mod_eq_of_lt (by omega)]

/-- The first half of a seek on a view: the logical position, in 64 bits. -/
theorem viewOrigin_spec (offset : BitVec 64) (whence : Word) (hhost : io.host h = some f)
    (hbase : view.base.toNat ≤ f.position) :
    ∃ origin, viewOrigin io h view whence = (origin, io) ∧
      ∀ position : BitVec 64, origin.bind (addSigned · offset) = some position ↔
        view.target f.position offset whence = some (position.toNat : Int) := by
  by_cases h₀ : whence = 0
  · refine ⟨some 0, by rw [viewOrigin, if_pos h₀], fun position => ?_⟩
    rw [Option.bind_some, addSigned_eq_some, FileView.target, if_pos h₀, Option.some.injEq]
    simp [eq_comm]
  by_cases h₂ : whence = 2
  · have h₁ : whence ≠ 1 := by rw [h₂]; decide
    refine ⟨some view.size, by rw [viewOrigin, if_neg h₀, if_pos h₂], fun position => ?_⟩
    rw [Option.bind_some, addSigned_eq_some, FileView.target, if_neg h₀, if_neg h₁, if_pos h₂, Option.some.injEq,
      eq_comm]
  by_cases h₁ : whence = 1
  · have hlt := f.position.isLt
    have hcurrent : BitVec.ofNat 64 f.position ≥ view.base := by
      rw [ge_iff_le, BitVec.le_def, toNat_ofNat hlt]
      exact hbase
    refine ⟨some (BitVec.ofNat 64 f.position - view.base), ?_, fun position => ?_⟩
    · rw [viewOrigin, if_neg h₀, if_neg h₂, if_pos h₁, seek_cur hhost]
      show (if _ then _ else _, io) = _
      rw [if_pos ⟨by rw [toInt_ofNat hlt]; omega, hcurrent⟩]
    · rw [Option.bind_some, addSigned_eq_some, FileView.target, if_neg h₀, if_pos h₁, Option.some.injEq,
        BitVec.toNat_sub_of_le hcurrent, toNat_ofNat hlt]
      omega
  · refine ⟨none, by rw [viewOrigin, if_neg h₀, if_neg h₂, if_neg h₁], fun position => ?_⟩
    rw [Option.bind_none, FileView.target, if_neg h₀, if_neg h₁, if_neg h₂]
    simp

theorem seekView_some {t : Nat} (hhost : io.host h = some f) (hbase : view.base.toNat ≤ f.position)
    (ht : view.seekTarget f.position offset whence = some t) :
    ∃ f', MovedTo f f' (view.base.toNat + t) ∧
      seekView io h view offset whence = (BitVec.ofNat 64 t, io.setHost h (some f')) := by
  obtain ⟨target, htarget, ht⟩ := Option.bind_eq_some_iff.1 ht
  split at ht
  · next hreach =>
    obtain rfl := Option.some.inj ht
    obtain ⟨hnonneg, hlt⟩ := hreach
    have hlogical : (BitVec.ofNat 64 target.toNat).toNat = target.toNat := toNat_ofNat (by omega)
    obtain ⟨origin, horigin, hposition⟩ := viewOrigin_spec offset whence hhost hbase
    have hfound := (hposition (BitVec.ofNat 64 target.toNat)).2 (by rw [htarget, hlogical, Int.toNat_of_nonneg hnonneg])
    have hsum : (view.base + BitVec.ofNat 64 target.toNat).toNat = view.base.toNat + target.toNat := by
      rw [BitVec.toNat_add_of_lt (by rw [hlogical]; omega), hlogical]
    have hguard : BitVec.ofNat 64 target.toNat ≤ maxValue - view.base ∧
        (view.base + BitVec.ofNat 64 target.toNat).toNat ≤ 2 ^ 63 - 1 := by
      rw [le_maxValue_sub, hlogical, hsum]
      omega
    have hlt' : (view.base + BitVec.ofNat 64 target.toNat).toNat < 2 ^ 63 := by omega
    refine ⟨{ f with position := ⟨_, hlt'⟩ }, ⟨hsum, rfl, rfl⟩, ?_⟩
    simp only [seekView, horigin, hfound, if_pos hguard]
    rw [seek_set hhost hlt']
    dsimp only
    rw [if_pos]
    rw [BitVec.toInt_eq_toNat_cond, if_pos (by omega)]
    omega
  · cases ht

theorem seekView_none (hhost : io.host h = some f) (hbase : view.base.toNat ≤ f.position)
    (ht : view.seekTarget f.position offset whence = none) : seekView io h view offset whence = (-1, io) := by
  obtain ⟨origin, horigin, hposition⟩ := viewOrigin_spec offset whence hhost hbase
  rw [seekView, horigin]
  dsimp only
  split
  · rfl
  next logical hlogical =>
    rw [FileView.seekTarget, (hposition logical).1 hlogical, Option.bind_some] at ht
    rw [if_neg]
    rintro ⟨hmax, hlt⟩
    rw [BitVec.toNat_add_of_lt (le_maxValue_sub.1 hmax)] at hlt
    rw [if_pos ⟨by omega, by omega⟩] at ht
    cases ht

end

/-! ### Reads -/

/-- The bytes of the view that a read takes from a position, at most. -/
def FileView.left (view : FileView) (position requested : Nat) : Nat :=
  if view.base.toNat ≤ position then min requested (view.base.toNat + view.size.toNat - position) else 0

/-- A guest descriptor of a view, with its host file. -/
structure ViewOpen (io : Implementation) (d : Int) (view : FileView) (h : Int) (f : HostFile) : Prop where
  user : 3 ≤ d
  file : io.files d = some h
  nonneg : 0 ≤ h
  host : io.host h = some f
  registered : io.fileViews d = some view
  plain : io.sectorFiles d = false
  fits : view.Fits
  base_le : view.base.toNat ≤ f.position

section
variable {io : Implementation} {d h : Int} {f : HostFile} {view : FileView} {s : State}

theorem ViewOpen.descriptor (hopen : ViewOpen io d view h f) : io.descriptor d = h := by
  have huser := hopen.user
  rw [Implementation.descriptor, if_neg (by omega), hopen.file, Option.getD_some]

/-- The host reads to the end of the file at most. -/
theorem read_eq (hhost : io.host h = some f) (size : BitVec 64) :
    ∃ f', MovedTo f f' (f.position + min size.toNat (f.size - f.position)) ∧
      read io h size = (BitVec.ofNat 64 (min size.toNat (f.size - f.position)), fun i => f.byte (f.position + i),
        io.setHost h (some f')) := by
  have hlt : (f.position + min size.toNat (f.size - f.position) : Nat) < 2 ^ 63 := by omega
  refine ⟨{ f with position := ⟨_, hlt⟩ }, ⟨rfl, rfl, rfl⟩, ?_⟩
  simp only [read, hhost]

/-- A read on a view, in unbounded arithmetic. -/
theorem readFile_view (hopen : ViewOpen io d view h f) :
    let n := view.left f.position (s.gpr 6).toNat
    let count := min n (f.size - f.position)
    (n = 0 ∧ readFile io d s = (.empty, io, s)) ∨
      (n ≠ 0 ∧ s.mem.mappedAddress (s.gpr 5) n = none ∧ readFile io d s = (.refused, io, s)) ∨
      (n ≠ 0 ∧ ∃ buffer f', s.mem.mappedAddress (s.gpr 5) n = some buffer ∧ MovedTo f f' (f.position + count) ∧
        readFile io d s = (.transferred (some (BitVec.ofNat 64 count)), io.setHost h (some f'),
          { s with mem := copyTo s.mem buffer count fun i => f.byte (f.position + i) })) := by
  intro n count
  obtain ⟨-, hfile, hnonneg, hhost, hview, hplain, hfits, hbase⟩ := id hopen
  have hlt := f.position.isLt
  have hsize : (readableSize view (BitVec.ofNat 64 f.position) ((s.gpr 6).setWidth 64)).toNat = n := by
    rw [toNat_readableSize hfits, toNat_ofNat hlt, BitVec.toNat_setWidth, Nat.mod_eq_of_lt (by omega)]
    rfl
  have hread : readFile io d s =
      readBuffer io d (readableSize view (BitVec.ofNat 64 f.position) ((s.gpr 6).setWidth 64)) s := by
    have hposition : ¬ (BitVec.ofNat 64 (f.position : Nat)).toInt < 0 := by rw [toInt_ofNat hlt]; omega
    have hcur := seek_cur hhost
    have hdescriptor : ¬ h < 0 := by omega
    simp only [readFile, hopen.descriptor, if_neg hdescriptor, requestedBytes, hplain, Bool.false_eq_true, if_false,
      viewBytes, hview, hcur, if_neg hposition]
  rw [hread, readBuffer]
  split
  next hzero =>
    rw [hzero] at hsize
    exact .inl ⟨hsize.symm, rfl⟩
  next hzero =>
    have hn : n ≠ 0 := fun hn => hzero (BitVec.eq_of_toNat_eq (hsize.trans hn))
    rw [hsize]
    split
    next hbuffer => exact .inr (.inl ⟨hn, hbuffer, rfl⟩)
    next buffer hbuffer =>
      obtain ⟨f', hmoved, hf'⟩ := read_eq hhost
        (readableSize view (BitVec.ofNat 64 f.position) ((s.gpr 6).setWidth 64))
      rw [hsize] at hmoved hf'
      have hcount : count < 2 ^ 63 := by omega
      have hresult : ¬ (BitVec.ofNat 64 count).toInt < 0 := by rw [toInt_ofNat hcount]; omega
      refine .inr (.inr ⟨hn, buffer, f', hbuffer, hmoved, ?_⟩)
      rw [hopen.descriptor, hf']
      dsimp only
      have hplain' : (io.setHost h (some f')).sectorFiles d = false := hplain
      rw [if_neg hresult, toNat_ofNat hcount, hplain', if_neg Bool.false_ne_true]

end

/-! ### What no seek and no read changes -/

/-- All but the position of one host file. -/
structure Same (descriptor : Int) (io io' : Implementation) : Prop where
  files : io'.files = io.files
  fileViews : io'.fileViews = io.fileViews
  sectorFiles : io'.sectorFiles = io.sectorFiles
  asyncResults : io'.asyncResults = io.asyncResults
  nextFile : io'.nextFile = io.nextFile
  other : ∀ h ≠ descriptor, io'.host h = io.host h
  isOpen : (io'.host descriptor).isSome = (io.host descriptor).isSome

section
variable {io io' io'' : Implementation} {descriptor pspDescriptor : Int} {offset size : BitVec 64} {whence : Word}
  {view : FileView} {s : State}

theorem Same.refl : Same descriptor io io := ⟨rfl, rfl, rfl, rfl, rfl, fun _ _ => rfl, rfl⟩

theorem Same.trans (h₁ : Same descriptor io io') (h₂ : Same descriptor io' io'') : Same descriptor io io'' :=
  ⟨h₂.1.trans h₁.1, h₂.2.trans h₁.2, h₂.3.trans h₁.3, h₂.4.trans h₁.4, h₂.5.trans h₁.5,
    fun h hne => (h₂.6 h hne).trans (h₁.6 h hne), h₂.7.trans h₁.7⟩

theorem Same.setHost {f f' : HostFile} (hhost : io.host descriptor = some f) :
    Same descriptor io (io.setHost descriptor (some f')) where
  files := rfl
  fileViews := rfl
  sectorFiles := rfl
  asyncResults := rfl
  nextFile := rfl
  other h hne := Function.update_of_ne hne _ _
  isOpen := by simp [Implementation.setHost, hhost]

theorem seek_same : Same descriptor io (seek io descriptor offset whence).2 := by
  rw [seek]
  split
  · exact .refl
  next f hhost =>
    split
    · exact .refl
    dsimp only
    split
    · exact .setHost hhost
    · exact .refl

theorem read_same : Same descriptor io (read io descriptor size).2.2 := by
  rw [read]
  split
  · exact .refl
  next f hhost => exact .setHost hhost

theorem sectorOrigin_same : Same descriptor io (sectorOrigin io descriptor whence).2 := by
  rw [sectorOrigin]
  split
  · exact .refl
  split
  · exact seek_same
  split
  · exact seek_same
  · exact .refl

theorem seekSector_same : Same descriptor io (seekSector io descriptor offset whence).2 := by
  have horigin : Same descriptor io (sectorOrigin io descriptor whence).2 := sectorOrigin_same
  rw [seekSector]
  dsimp only
  split
  · exact horigin
  split
  · exact horigin
  split
  · exact horigin.trans seek_same
  · exact horigin

theorem viewOrigin_same : Same descriptor io (viewOrigin io descriptor view whence).2 := by
  rw [viewOrigin]
  split
  · exact .refl
  split
  · exact .refl
  split
  · exact seek_same
  · exact .refl

theorem seekView_same : Same descriptor io (seekView io descriptor view offset whence).2 := by
  have horigin : Same descriptor io (viewOrigin io descriptor view whence).2 := viewOrigin_same
  rw [seekView]
  dsimp only
  split
  · exact horigin
  split
  · exact horigin.trans seek_same
  · exact horigin

theorem seekFile_same : Same (io.descriptor pspDescriptor) io (seekFile io pspDescriptor s).2 := by
  rw [seekFile]
  split
  · exact seekSector_same
  split
  · exact seek_same
  · exact seekView_same

theorem viewBytes_same : Same (io.descriptor pspDescriptor) io (viewBytes io pspDescriptor size).2 := by
  rw [viewBytes]
  split
  · exact .refl
  · exact seek_same

theorem readBuffer_same : Same (io.descriptor pspDescriptor) io (readBuffer io pspDescriptor size s).2.1 := by
  rw [readBuffer]
  split
  · exact .refl
  split
  · exact .refl
  · dsimp only
    split
    · exact read_same
    · exact read_same

theorem readFile_same : Same (io.descriptor pspDescriptor) io (readFile io pspDescriptor s).2.1 := by
  rw [readFile]
  split
  · exact .refl
  split
  · exact .refl
  next size _ =>
    have hview : Same (io.descriptor pspDescriptor) io (viewBytes io pspDescriptor size).2 := viewBytes_same
    split
    next heq => rw [heq] at hview; exact hview
    next io' heq =>
      rw [heq] at hview
      have hdescriptor : io'.descriptor pspDescriptor = io.descriptor pspDescriptor := by
        rw [Implementation.descriptor, hview.files, Implementation.descriptor]
      rw [← hdescriptor] at hview ⊢
      exact hview.trans readBuffer_same

end

end Psprism.Io
