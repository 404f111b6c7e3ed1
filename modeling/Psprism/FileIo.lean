import Psprism.FileView
import Psprism.Lib.Interleaving
import Psprism.PatchPointers

/-!
# Seeks and reads on file views (`stubs/io/`)

The stubs find the host file of a guest descriptor and work on its position. A host file is taken to seek and read as
it is asked to. Wherever the calls of a program have led to, a seek on a view goes to the position that unbounded
arithmetic gives, or leaves the file as it was; a read takes the bytes of the view from the position on; and the
asynchronous calls, with the wait for their result, do what the synchronous ones do (`file_view_calls`).
-/

namespace Psprism

/-- `guest_string`; a character is a byte. -/
def guestString (m : GuestMemory) (address : Word) : Option (List Char) :=
  let address := canonicalAddress address
  if address < m.memoryBase then none
  else
    let offset := (address - m.memoryBase).toNat
    let byte (i : Nat) : Byte := m.bytes .memory (offset + i)
    if offset ≥ m.memory.size then none
    else
      ((List.range (m.memory.size - offset)).find? (byte · = 0)).map fun size =>
        (List.range size).map fun i => Char.ofNat (byte i).toNat

namespace Io

/-! ### The host's files -/

/-- An open host file; positions are those of `off_t`. -/
structure HostFile where
  size : Fin (2 ^ 63)
  byte : Nat → Byte
  position : Fin (2 ^ 63)

/-- The fields of `Implementation` that the stubs use, with the host's files by their descriptors. -/
structure Implementation where
  files : Int → Option Int := fun _ => none
  fileViews : Int → Option FileView := fun _ => none
  sectorFiles : Int → Bool := fun _ => false
  asyncResults : Int → Option (BitVec 64) := fun _ => none
  nextFile : Int := 3
  host : Int → Option HostFile

namespace Implementation

def setHost (io : Implementation) (descriptor : Int) (file : Option HostFile) : Implementation :=
  { io with host := Function.update io.host descriptor file }

def setAsyncResult (io : Implementation) (descriptor : Int) (result : Option (BitVec 64)) : Implementation :=
  { io with asyncResults := Function.update io.asyncResults descriptor result }

end Implementation

/-- `SEEK_SET`, `SEEK_CUR` and `SEEK_END`. -/
def HostFile.origin (f : HostFile) (whence : Word) : Option Nat :=
  if whence = 0 then some 0 else if whence = 1 then some f.position else if whence = 2 then some f.size else none

/-- `host_file::seek`. -/
def seek (io : Implementation) (descriptor : Int) (offset : BitVec 64) (whence : Word) :
    BitVec 64 × Implementation :=
  match io.host descriptor with
  | none => (-1, io)
  | some f =>
    match f.origin whence with
    | none => (-1, io)
    | some origin =>
      let target := origin + offset.toInt
      if h : 0 ≤ target ∧ target < 2 ^ 63 then
        (BitVec.ofInt 64 target, io.setHost descriptor (some { f with position := ⟨target.toNat, by omega⟩ }))
      else (-1, io)

/-- `host_file::read`: the result, and the bytes it has read. -/
def read (io : Implementation) (descriptor : Int) (size : BitVec 64) :
    BitVec 64 × (Nat → Byte) × Implementation :=
  match io.host descriptor with
  | none => (-1, fun _ => 0, io)
  | some f =>
    let count := min size.toNat (f.size - f.position : Nat)
    (BitVec.ofNat 64 count, fun i => f.byte (f.position + i),
      io.setHost descriptor (some { f with position := ⟨f.position + count, by omega⟩ }))

/-! ### Seeks -/

/-- The host's descriptor for a guest's one, or a negative one. -/
def Implementation.descriptor (io : Implementation) (pspDescriptor : Int) : Int :=
  if 0 ≤ pspDescriptor ∧ pspDescriptor ≤ 2 then pspDescriptor else (io.files pspDescriptor).getD (-1)

/-- What a seek in sectors counts from. -/
def sectorOrigin (io : Implementation) (descriptor : Int) (whence : Word) : Option (BitVec 64) × Implementation :=
  if whence = 0 then (some 0, io)
  else if whence = 1 then
    let (current, io) := seek io descriptor 0 1
    (if 0 ≤ current.toInt then some (completeSectorCount current) else none, io)
  else if whence = 2 then
    let (last, io) := seek io descriptor 0 2
    (if 0 ≤ last.toInt then some (completeSectorCount last) else none, io)
  else (none, io)

def seekSector (io : Implementation) (descriptor : Int) (offset : BitVec 64) (whence : Word) :
    BitVec 64 × Implementation :=
  let (origin, io) := sectorOrigin io descriptor whence
  match origin.bind (addSigned · offset) with
  | none => (-1, io)
  | some logical =>
    match sectorByteOffset logical with
    | none => (-1, io)
    | some byteOffset =>
      if byteOffset.toNat ≤ 2 ^ 63 - 1 then
        let (position, io) := seek io descriptor byteOffset 0
        (if 0 ≤ position.toInt then logical else -1, io)
      else (-1, io)

/-- What a seek on a view counts from. -/
def viewOrigin (io : Implementation) (descriptor : Int) (view : FileView) (whence : Word) :
    Option (BitVec 64) × Implementation :=
  if whence = 0 then (some 0, io)
  else if whence = 2 then (some view.size, io)
  else if whence = 1 then
    let (current, io) := seek io descriptor 0 1
    (if 0 ≤ current.toInt ∧ current ≥ view.base then some (current - view.base) else none, io)
  else (none, io)

def seekView (io : Implementation) (descriptor : Int) (view : FileView) (offset : BitVec 64) (whence : Word) :
    BitVec 64 × Implementation :=
  let (origin, io) := viewOrigin io descriptor view whence
  match origin.bind (addSigned · offset) with
  | none => (-1, io)
  | some logical =>
    if logical ≤ maxValue - view.base ∧ (view.base + logical).toNat ≤ 2 ^ 63 - 1 then
      let (position, io) := seek io descriptor (view.base + logical) 0
      (if 0 ≤ position.toInt then logical else -1, io)
    else (-1, io)

/-- The seeks of `sceIoLseek` and `sceIoLseekAsync`; the result is negative where they fail. -/
def seekFile (io : Implementation) (pspDescriptor : Int) (s : State) : BitVec 64 × Implementation :=
  let descriptor := io.descriptor pspDescriptor
  let offset := signedFromWords (s.gpr 6) (s.gpr 7)
  let whence := s.gpr 8
  if io.sectorFiles pspDescriptor then seekSector io descriptor offset whence
  else
    match io.fileViews pspDescriptor with
    | none => seek io descriptor offset whence
    | some view => seekView io descriptor view offset whence

def sceIoLseek (io : Implementation) (s : State) : Implementation × State :=
  let pspDescriptor := (s.gpr 4).toInt
  if io.descriptor pspDescriptor < 0 then (io, (s.setGpr 2 genericIoError).setGpr 3 0xffffffff)
  else
    let (result, io) := seekFile io pspDescriptor s
    if result.toInt < 0 then (io, (s.setGpr 2 genericIoError).setGpr 3 0xffffffff)
    else (io, (s.setGpr 2 (result.setWidth 32)).setGpr 3 ((result >>> 32).setWidth 32))

def sceIoLseekAsync (io : Implementation) (s : State) : Implementation × State :=
  let pspDescriptor := (s.gpr 4).toInt
  if io.descriptor pspDescriptor < 0 then (io, s.setGpr 2 genericIoError)
  else
    let (result, io) := seekFile io pspDescriptor s
    (io.setAsyncResult pspDescriptor (some (if result.toInt < 0 then genericIoError.signExtend 64 else result)),
      (s.setGpr 2 0).setGpr 3 0)

/-! ### Reads -/

/-- `memcpy` to a place in guest memory. -/
def copyTo (m : GuestMemory) (p : Pointer) (width : Nat) (byte : Nat → Byte) : GuestMemory :=
  m.setBytes p.1 fun i => if p.2 ≤ i ∧ i < p.2 + width then byte (i - p.2) else m.bytes p.1 i

/-- How a read ends. `transferred` has the result for the guest. -/
inductive ReadEnd
  | refused
  | empty
  | transferred (result : Option (BitVec 64))

/-- The number of bytes a read is asked for. -/
def requestedBytes (io : Implementation) (pspDescriptor : Int) (count : Word) : Option (BitVec 64) :=
  if io.sectorFiles pspDescriptor then sectorByteCount (count.setWidth 64) else some (count.setWidth 64)

/-- The number of bytes that a view leaves of it. -/
def viewBytes (io : Implementation) (pspDescriptor : Int) (size : BitVec 64) : Option (BitVec 64) × Implementation :=
  match io.fileViews pspDescriptor with
  | none => (some size, io)
  | some view =>
    let (position, io) := seek io (io.descriptor pspDescriptor) 0 1
    (if position.toInt < 0 then none else some (readableSize view position size), io)

/-- The read into the buffer of the guest. -/
def readBuffer (io : Implementation) (pspDescriptor : Int) (size : BitVec 64) (s : State) :
    ReadEnd × Implementation × State :=
  if size = 0 then (.empty, io, s)
  else
    match s.mem.mappedAddress (s.gpr 5) size.toNat with
    | none => (.refused, io, s)
    | some buffer =>
      let (result, bytes, io) := read io (io.descriptor pspDescriptor) size
      if result.toInt < 0 then (.transferred none, io, s)
      else
        (.transferred (some (if io.sectorFiles pspDescriptor then completeSectorCount result else result)), io,
          { s with mem := copyTo s.mem buffer result.toNat bytes })

/-- The reads of `sceIoRead` and `sceIoReadAsync`. -/
def readFile (io : Implementation) (pspDescriptor : Int) (s : State) : ReadEnd × Implementation × State :=
  if io.descriptor pspDescriptor < 0 then (.refused, io, s)
  else
    match requestedBytes io pspDescriptor (s.gpr 6) with
    | none => (.refused, io, s)
    | some size =>
      match viewBytes io pspDescriptor size with
      | (none, io) => (.refused, io, s)
      | (some size, io) => readBuffer io pspDescriptor size s

def sceIoRead (io : Implementation) (s : State) : Implementation × State :=
  match readFile io (s.gpr 4).toInt s with
  | (.refused, io, s) => (io, s.setGpr 2 genericIoError)
  | (.empty, io, s) => (io, s.setGpr 2 0)
  | (.transferred none, io, s) => (io, s.setGpr 2 genericIoError)
  | (.transferred (some result), io, s) => (io, s.setGpr 2 (result.setWidth 32))

def sceIoReadAsync (io : Implementation) (s : State) : Implementation × State :=
  let pspDescriptor := (s.gpr 4).toInt
  match readFile io pspDescriptor s with
  | (.refused, io, s) => (io, s.setGpr 2 genericIoError)
  | (.empty, io, s) => (io.setAsyncResult pspDescriptor (some 0), s.setGpr 2 0)
  | (.transferred none, io, s) =>
    (io.setAsyncResult pspDescriptor (some (genericIoError.signExtend 64)), s.setGpr 2 0)
  | (.transferred (some result), io, s) => (io.setAsyncResult pspDescriptor (some result), s.setGpr 2 0)

/-! ### Results -/

/-- The result at the address, where it is mapped. -/
def storeResult (m : GuestMemory) (address : Word) (result : BitVec 64) : GuestMemory :=
  match m.mappedAddress address 8 with
  | none => m
  | some output => copyTo m output 8 fun i => (result >>> (8 * i)).setWidth 8

/-- `sceIoWaitAsync` and `sceIoWaitAsyncCB`. -/
def sceIoWaitAsync (io : Implementation) (s : State) : Implementation × State :=
  match io.asyncResults (s.gpr 4).toInt with
  | none => (io, s.setGpr 2 genericIoError)
  | some result =>
    (io.setAsyncResult (s.gpr 4).toInt none, { s with mem := storeResult s.mem (s.gpr 5) result }.setGpr 2 0)

def sceIoPollAsync (io : Implementation) (s : State) : Implementation × State :=
  match io.asyncResults (s.gpr 4).toInt with
  | none => (io, s.setGpr 2 1)
  | some result => (io, { s with mem := storeResult s.mem (s.gpr 5) result }.setGpr 2 0)

/-! ### Open and close -/

/-- What the host answers to an open, and `errno`. -/
structure HostOpen where
  opened : Option (Int × HostFile)
  errno : Int

/-- The host's descriptor is a new one, and the file is at its start. -/
def HostOpen.Fresh (answer : HostOpen) (io : Implementation) : Prop :=
  ∀ p ∈ answer.opened, 0 ≤ p.1 ∧ io.host p.1 = none ∧ p.2.position = 0

/-- The view of a file of the disc image, with the file at its base; `none` where the file has been closed again. -/
def openView (io : Implementation) (descriptor : Int) (view : FileView) : Option FileView × Implementation :=
  let (last, io) := seek io descriptor 0 2
  match if last.toInt < 0 then none else completeFileView view last with
  | none => (none, io.setHost descriptor none)
  | some view =>
    let (position, io) := seek io descriptor view.base 0
    if position.toInt < 0 then (none, io.setHost descriptor none) else (some view, io)

/-- A new descriptor for the guest. -/
def registerFile (io : Implementation) (descriptor : Int) (view : Option FileView) (sector async : Bool) :
    Implementation :=
  { io with
    nextFile := io.nextFile + 1
    files := Function.update io.files io.nextFile (some descriptor)
    fileViews := Function.update io.fileViews io.nextFile view
    sectorFiles := Function.update io.sectorFiles io.nextFile sector
    asyncResults :=
      if async then
        Function.update io.asyncResults io.nextFile
          ((io.asyncResults io.nextFile).or (some (BitVec.ofInt 64 io.nextFile)))
      else io.asyncResults }

section
variable (io : Implementation) (descriptor : Int) (view : Option FileView) (sector async : Bool) (x : Int)

theorem registerFile_files : (registerFile io descriptor view sector async).files x =
    if x = io.nextFile then some descriptor else io.files x := Function.update_apply ..

theorem registerFile_fileViews : (registerFile io descriptor view sector async).fileViews x =
    if x = io.nextFile then view else io.fileViews x := Function.update_apply ..

theorem registerFile_sectorFiles : (registerFile io descriptor view sector async).sectorFiles x =
    if x = io.nextFile then sector else io.sectorFiles x := Function.update_apply ..

end

/-- `sceIoOpen` and `sceIoOpenAsync` behind the tests of the path. -/
def openFile (io : Implementation) (s : State) (answer : HostOpen) (path : List Char) (async : Bool) :
    Implementation × State :=
  let rawDiscView := parseRawDiscView path
  if isRawDiscPath path ∧ rawDiscView = none then (io, s.setGpr 2 genericIoError)
  else
    match answer.opened with
    | none => (io, s.setGpr 2 (errorFromErrno answer.errno))
    | some (descriptor, file) =>
      let io := io.setHost descriptor (some file)
      match rawDiscView with
      | none =>
        (registerFile io descriptor none (isWholeDiscPath path) async, s.setGpr 2 (BitVec.ofInt 32 io.nextFile))
      | some view =>
        match openView io descriptor view with
        | (none, io) => (io, s.setGpr 2 (errorFromErrno answer.errno))
        | (some view, io) =>
          (registerFile io descriptor (some view) (isWholeDiscPath path) async,
            s.setGpr 2 (BitVec.ofInt 32 io.nextFile))

def sceIoOpen (io : Implementation) (s : State) (answer : HostOpen) : Implementation × State :=
  match guestString s.mem (s.gpr 4) with
  | none => (io, s)
  | some path =>
    if path = [] then (io, s.setGpr 2 genericIoError) else openFile io s answer path false

def sceIoOpenAsync (io : Implementation) (s : State) (answer : HostOpen) : Implementation × State :=
  match guestString s.mem (s.gpr 4) with
  | none => (io, s)
  | some path => openFile io s answer path true

/-- The descriptor is given up, in the guest and in the host. -/
def closeFile (io : Implementation) (pspDescriptor descriptor : Int) : Implementation :=
  { io.setHost descriptor none with
    files := Function.update io.files pspDescriptor none
    fileViews := Function.update io.fileViews pspDescriptor none
    sectorFiles := Function.update io.sectorFiles pspDescriptor false }

section
variable (io : Implementation) (pspDescriptor descriptor x : Int)

theorem closeFile_files : (closeFile io pspDescriptor descriptor).files x =
    if x = pspDescriptor then none else io.files x := Function.update_apply ..

theorem closeFile_fileViews : (closeFile io pspDescriptor descriptor).fileViews x =
    if x = pspDescriptor then none else io.fileViews x := Function.update_apply ..

theorem closeFile_sectorFiles : (closeFile io pspDescriptor descriptor).sectorFiles x =
    if x = pspDescriptor then false else io.sectorFiles x := Function.update_apply ..

theorem closeFile_host : (closeFile io pspDescriptor descriptor).host x =
    if x = descriptor then none else io.host x := Function.update_apply ..

end

/-- `closed` is whether the `close` of the host succeeds. -/
def sceIoClose (io : Implementation) (s : State) (closed : Bool) : Implementation × State :=
  let pspDescriptor := (s.gpr 4).toInt
  match io.files pspDescriptor with
  | none => (io, s)
  | some descriptor =>
    ((closeFile io pspDescriptor descriptor).setAsyncResult pspDescriptor none,
      s.setGpr 2 (if closed then 0 else genericIoError))

def sceIoCloseAsync (io : Implementation) (s : State) (closed : Bool) : Implementation × State :=
  let pspDescriptor := (s.gpr 4).toInt
  match io.files pspDescriptor with
  | none => (io, s)
  | some descriptor =>
    ((closeFile io pspDescriptor descriptor).setAsyncResult pspDescriptor
        (some (if closed then 0 else genericIoError.signExtend 64)),
      s.setGpr 2 0)

end Io
end Psprism
