import Psprism.BufferReads
import Psprism.Image

/-!
# The ELF loader (`src/elf/loader.cpp`, `src/elf/image.cpp`)

`load_elf` on the bytes of the input: program headers, section headers, executable sections, relocations and, in the
flat image of the segments, the header of the module with its import table. What the loader copies it reads with
checks of its own, each with the error it raises, and every access behind these checks is one that could go outside.
None does, whatever the bytes are: loading ends with an error or an image (`loadElf_inside`). The walk over the import
table ends because an entry takes five words at least.
-/

namespace Psprism
open CheckedReads

abbrev Load := Checked String

structure ElfSection extends ExecutableSection where
  name : List Byte

structure ElfSegment extends LoadSegment where
  flags : Word

structure ElfImport extends Import where
  library : List Byte
  nid : Word
  libraryFlags : Word

/-- `ElfImage`, with all that the loader puts into it. -/
structure ElfFile where
  entry : Word
  preferredBase : Word := 0
  gpPointerOffset : Word := 0xffffffff
  gpValueOffset : Word := 0
  executableSections : List ElfSection := []
  loadSegments : List ElfSegment := []
  relocations : List Relocation := []
  imports : List ElfImport := []

/-- The image that the emitter gets. -/
def ElfFile.image (file : ElfFile) : ElfImage where
  entry := file.entry
  preferredBase := file.preferredBase
  executableSections := file.executableSections.map (·.toExecutableSection)
  loadSegments := file.loadSegments.map (·.toLoadSegment)
  relocations := file.relocations
  imports := file.imports.map (·.toImport)

namespace ElfLoader

/-! ### Fields and names -/

def u16 (data : List Byte) (offset : Nat) : Load (BitVec 16) :=
  if offset > data.length ∨ data.length - offset < 2 then raise "truncated ELF field" else fetchHalf data offset

def u32 (data : List Byte) (offset : Nat) : Load Word :=
  if offset > data.length ∨ data.length - offset < 4 then raise "truncated ELF field" else fetchWord data offset

/-- The bytes up to a zero, among so many that are left of a table. -/
def nameBytes (table : List Byte) (i : Nat) : Nat → Load (List Byte)
  | 0 => raise "unterminated ELF section name"
  | left + 1 => do
    let byte ← cell table i
    if byte = 0 then return [] else return byte :: (← nameBytes table (i + 1) left)

def stringAt (table : List Byte) (offset : Word) : Load (List Byte) :=
  if offset.toNat ≥ table.length then raise "invalid ELF section name offset"
  else nameBytes table offset.toNat (table.length - offset.toNat)

/-! ### Program headers -/

structure ProgramLoadHeader where
  fileOffset : Word
  address : Word
  physicalAddress : Word
  fileSize : Word

/-- The program header of an index, if it is for a load segment. -/
def programHeader (data : List Byte) (base i : Nat) : Load (Option (ElfSegment × ProgramLoadHeader)) := do
  if (← u32 data base) ≠ 1 then return none
  else
    let fileOffset ← u32 data (base + 4)
    let address ← u32 data (base + 8)
    let physicalAddress ← u32 data (base + 12)
    let fileSize ← u32 data (base + 16)
    let memorySize ← u32 data (base + 20)
    let flags ← u32 data (base + 24)
    if fileSize > memorySize ∨ fileOffset.toNat > data.length ∨ fileSize.toNat > data.length - fileOffset.toNat then
      raise "invalid ELF load segment"
    else
      let bytes ← slice data fileOffset.toNat fileSize.toNat
      return some ({ programIndex := BitVec.ofNat 8 i, address, memorySize, flags, bytes },
        { fileOffset, address, physicalAddress, fileSize })

def programHeaders (data : List Byte) : Load (List (ElfSegment × ProgramLoadHeader)) := do
  let programOffset ← u32 data 28
  let programEntrySize ← u16 data 42
  let programCount ← u16 data 44
  let programTableSize := programCount.toNat * programEntrySize.toNat
  if (programCount ≠ 0 ∧ programEntrySize < 32) ∨ programTableSize > data.length ∨
      programOffset.toNat > data.length - programTableSize then
    raise "invalid ELF program table"
  else
    let headers ← (List.range programCount.toNat).mapM fun i =>
      programHeader data (programOffset.toNat + i * programEntrySize.toNat) i
    return headers.filterMap id

def pspUserBase : Word := 0x08000000
def pspUserEnd : Word := 0x0c000000

/-- A file with fixed addresses is moved to offsets from the base of user memory. -/
def rebase (file : ElfFile) : Load ElfFile :=
  if file.loadSegments ≠ [] ∧ ∀ segment ∈ file.loadSegments, segment.address ≥ pspUserBase ∧
      segment.address < pspUserEnd ∧ segment.memorySize ≤ pspUserEnd - segment.address then
    if file.entry < pspUserBase then raise "fixed PSP ELF entry is below user memory"
    else
      return { file with
        preferredBase := pspUserBase
        entry := file.entry - pspUserBase
        loadSegments := file.loadSegments.map fun segment => { segment with address := segment.address - pspUserBase } }
  else return file

/-! ### Section headers -/

structure SectionHeader where
  name : Word
  type : Word
  flags : Word
  address : Word
  offset : Word
  size : Word
  info : Word

def sectionHeader (data : List Byte) (base : Nat) : Load SectionHeader := do
  return {
    name := ← u32 data base
    type := ← u32 data (base + 4)
    flags := ← u32 data (base + 8)
    address := ← u32 data (base + 12)
    offset := ← u32 data (base + 16)
    size := ← u32 data (base + 20)
    info := ← u32 data (base + 28) }

/-- The section headers and the table of their names. -/
def sectionHeaders (data : List Byte) : Load (List SectionHeader × List Byte) := do
  let sectionOffset ← u32 data 32
  let sectionEntrySize ← u16 data 46
  let sectionCount ← u16 data 48
  let nameTableIndex ← u16 data 50
  if sectionEntrySize < 40 ∨ nameTableIndex ≥ sectionCount then raise "invalid ELF section table"
  else
    let sectionTableSize := sectionCount.toNat * sectionEntrySize.toNat
    if sectionTableSize > data.length ∨ sectionOffset.toNat > data.length - sectionTableSize then
      raise "ELF section table is outside the file"
    else
      let headers ← (List.range sectionCount.toNat).mapM fun i =>
        sectionHeader data (sectionOffset.toNat + i * sectionEntrySize.toNat)
      let stringHeader ← cell headers nameTableIndex.toNat
      if stringHeader.offset.toNat > data.length ∨ stringHeader.size.toNat > data.length - stringHeader.offset.toNat then
        raise "ELF section-name table is outside the file"
      else return (headers, ← slice data stringHeader.offset.toNat stringHeader.size.toNat)

/-- The section of a header, if it is executable and not empty. -/
def executableSection (data names : List Byte) (preferredBase : Word) (header : SectionHeader) :
    Load (Option ElfSection) :=
  if header.type ≠ 1 ∨ header.flags &&& 4 = 0 ∨ header.size = 0 then return none
  else if header.offset.toNat > data.length ∨ header.size.toNat > data.length - header.offset.toNat then
    raise "executable section is outside the file"
  else if header.address &&& 3 ≠ 0 ∨ header.size &&& 3 ≠ 0 then raise "executable section is not word-aligned"
  else do
    let name ← stringAt names header.name
    return some { name, address := header.address - preferredBase, bytes := ← slice data header.offset.toNat header.size.toNat }

def relocation (data : List Byte) (offset : Word) : Load Relocation := do
  let relocationOffset ← u32 data offset.toNat
  let info ← u32 data (offset + 4).toNat
  return {
    offset := relocationOffset
    type := (info &&& 15).setWidth 8
    patchSegment := ((info >>> 8) &&& 0xff).setWidth 8
    targetSegment := ((info >>> 16) &&& 0xff).setWidth 8 }

/-- The relocations of a header, eight bytes each. -/
def relocationSection (data : List Byte) (header : SectionHeader) : Load (List Relocation) :=
  if header.type ≠ 0x700000a0 then return []
  else if header.size &&& 7 ≠ 0 ∨ header.offset.toNat > data.length ∨
      header.size.toNat > data.length - header.offset.toNat then
    raise "invalid PSP relocation section"
  else
    (List.range (header.size.toNat / 8)).mapM fun k => relocation data (header.offset + BitVec.ofNat 32 (8 * k))

/-! ### The flat image -/

/-- `memory_image`. -/
def memoryImage (file : ElfFile) : Load (List Byte) := do
  let size ← demand "load segment address overflow" file.image.memorySize
  file.loadSegments.foldlM
    (fun image segment =>
      if segment.address.toNat > image.length ∨ segment.bytes.length > image.length - segment.address.toNat then
        raise "load segment is outside memory image"
      else store image segment.address.toNat segment.bytes)
    (List.replicate size.toNat 0)

section
variable (flat : List Byte) (preferredBase : Word)

def imageOffset (address : Word) : Load Word :=
  if address < preferredBase then raise "PSP address is below the image base" else return address - preferredBase

def imageU32 (address : Word) : Load Word := do u32 flat (← imageOffset preferredBase address).toNat

/-- The bytes up to a zero, when so many are taken and so many are left of the image. -/
def importBytes (i taken : Nat) : Nat → Load (List Byte)
  | 0 => raise "unterminated PSP import string"
  | left + 1 => do
    let byte ← cell flat i
    if byte = 0 then return []
    else if taken + 1 > 255 then raise "PSP import string is too long"
    else return byte :: (← importBytes (i + 1) (taken + 1) left)

def imageString (address : Word) : Load (List Byte) := do
  let offset ← imageOffset preferredBase address
  if offset.toNat ≥ flat.length then raise "PSP import string is outside load image"
  else importBytes flat offset.toNat 0 (flat.length - offset.toNat)

/-- One entry of the import table, with the place of the next. -/
def importEntry (stubEnd cursor : Word) : Load (List ElfImport × Word) :=
  if cursor.toNat > flat.length ∨ flat.length - cursor.toNat < 20 then raise "truncated PSP import table"
  else do
    let libraryAddress ← u32 flat cursor.toNat
    let libraryFlags ← u32 flat (cursor + 4).toNat
    let lengthWords ← cell flat (cursor + 8).toNat
    let functionCount ← u16 flat (cursor + 10).toNat
    let nidTable ← u32 flat (cursor + 12).toNat
    let stubTable ← u32 flat (cursor + 16).toNat
    if lengthWords < 5 ∨ lengthWords.setWidth 32 * 4 > stubEnd - cursor then raise "invalid PSP import-table length"
    else
      let library ← imageString flat preferredBase libraryAddress
      let imports ← (List.range functionCount.toNat).mapM fun i => do
        let nid ← imageU32 flat preferredBase (nidTable + BitVec.ofNat 32 (i * 4))
        let stub ← imageOffset preferredBase stubTable
        return { library, nid, stubAddress := stub + BitVec.ofNat 32 (i * 8), libraryFlags }
      return (imports, cursor + lengthWords.setWidth 32 * 4)

variable {flat preferredBase} in
/-- The walk advances: an entry takes five words at least, and ends inside the table. -/
theorem importEntry_advances {stubEnd cursor next : Word} {imports : List ElfImport} (hcursor : cursor < stubEnd)
    (h : importEntry flat preferredBase stubEnd cursor = .ok (imports, next)) :
    cursor.toNat + 20 ≤ next.toNat ∧ next ≤ stubEnd := by
  unfold importEntry at h
  split at h
  · cases h
  simp only [bind_eq_ok] at h
  obtain ⟨_, _, _, _, lengthWords, _, _, _, _, _, _, _, h⟩ := h
  split at h
  · cases h
  next hlength =>
  simp only [bind_eq_ok] at h
  obtain ⟨_, _, _, _, h⟩ := h
  obtain rfl := congrArg Prod.snd (Except.ok.inj h)
  simp only [not_or, BitVec.not_lt, gt_iff_lt] at hlength
  obtain ⟨hfive, hfits⟩ := hlength
  have hbyte := lengthWords.isLt
  have hwide : (lengthWords.setWidth 32).toNat = lengthWords.toNat := by
    rw [BitVec.toNat_setWidth]
    exact Nat.mod_eq_of_lt (by omega)
  bv_omega

/-- The import table from a cursor on. -/
def importTable (stubEnd cursor : Word) : Load (List ElfImport) :=
  if _hcursor : cursor < stubEnd then
    match _hentry : importEntry flat preferredBase stubEnd cursor with
    | .error fault => .error fault
    | .ok (imports, next) => do return imports ++ (← importTable stubEnd next)
  else return []
termination_by stubEnd.toNat - cursor.toNat
decreasing_by
  have hadvance := importEntry_advances _hcursor _hentry
  bv_omega

end

/-! ### The header of the module -/

def moduleInfoName : List Byte :=
  ['.', 'r', 'o', 'd', 'a', 't', 'a', '.', 's', 'c', 'e', 'M', 'o', 'd', 'u', 'l', 'e', 'I', 'n', 'f', 'o'].map
    fun c => BitVec.ofNat 8 c.toNat

/-- The address of the section with the module's header. -/
def moduleInfoSection (names : List Byte) : List SectionHeader → Load (Option Word)
  | [] => return none
  | header :: rest => do
    let name ← stringAt names header.name
    if name = moduleInfoName ∧ header.size ≥ 0x34 then return some header.address else moduleInfoSection names rest

/-- Without section names, the first program header has the file offset of the module's header. -/
def moduleInfoSegment (headers : List ProgramLoadHeader) : Option Word :=
  match headers with
  | [] => none
  | first :: _ =>
    let offset := first.physicalAddress
    (headers.find? fun segment => offset ≥ segment.fileOffset ∧ offset - segment.fileOffset ≤ segment.fileSize ∧
      segment.fileSize - (offset - segment.fileOffset) ≥ 0x34).map fun segment =>
        segment.address + (offset - segment.fileOffset)

def moduleInfoAddress (data names : List Byte) (headers : List SectionHeader)
    (loadHeaders : List ProgramLoadHeader) : Load (Option Word) := do
  match ← moduleInfoSection names headers with
  | some address => return some address
  | none => if (← u16 data 16) = 0xffa0 then return moduleInfoSegment loadHeaders else return none

/-- What the first relocation of the field adds to the stored value of the module's `$gp`. -/
def gpAddend (image : ElfImage) (gpPointerOffset : Word) : List Relocation → Load Word
  | [] => return 0
  | relocation :: rest =>
    match findLoadSegment image relocation.patchSegment with
    | none => gpAddend image gpPointerOffset rest
    | some patch =>
      if relocation.type ≠ 2 ∨ patch.address + relocation.offset ≠ gpPointerOffset then
        gpAddend image gpPointerOffset rest
      else
        match findLoadSegment image relocation.targetSegment with
        | none => raise "invalid PSP module gp relocation"
        | some target => return target.address

def loadModuleInfo (file : ElfFile) (flat : List Byte) (address : Word) : Load ElfFile := do
  let gpPointerOffset ← imageOffset file.preferredBase (address + 0x20)
  let stored ← imageU32 flat file.preferredBase (address + 0x20)
  let addend ← gpAddend file.image gpPointerOffset file.relocations
  let stubBegin ← imageOffset file.preferredBase (← imageU32 flat file.preferredBase (address + 0x2c))
  let stubEnd ← imageOffset file.preferredBase (← imageU32 flat file.preferredBase (address + 0x30))
  if stubBegin > stubEnd ∨ stubEnd.toNat > flat.length then raise "invalid PSP module import-table range"
  else
    let imports ← importTable flat file.preferredBase stubEnd stubBegin
    return { file with gpPointerOffset, gpValueOffset := stored + addend, imports }

/-- The checks of the identification. -/
def identify (data : List Byte) : Load Unit := do
  if data.length < 52 then raise "input is not a complete ELF32 file"
  else if (← cell data 0) ≠ 0x7f ∨ (← cell data 1) ≠ 0x45 ∨ (← cell data 2) ≠ 0x4c ∨ (← cell data 3) ≠ 0x46 then
    raise "input is not an ELF file"
  else if (← cell data 4) ≠ 1 ∨ (← cell data 5) ≠ 1 then raise "only little-endian ELF32 is supported"
  else if (← u16 data 18) ≠ 8 then raise "ELF machine is not MIPS"
  else return ()

end ElfLoader

open ElfLoader in
/-- `load_elf`, on the bytes of the input. -/
def loadElf (data : List Byte) : Load ElfFile := do
  identify data
  let entry ← u32 data 24
  let segments ← programHeaders data
  let file ← rebase { entry, loadSegments := segments.map Prod.fst }
  let (headers, names) ← sectionHeaders data
  let sections ← headers.mapM (executableSection data names file.preferredBase)
  if sections.filterMap id = [] then raise "ELF has no executable code sections"
  else
    let relocations ← headers.mapM (relocationSection data)
    let file := { file with executableSections := sections.filterMap id, relocations := relocations.flatten }
    let flat ← memoryImage file
    match ← moduleInfoAddress data names headers (segments.map Prod.snd) with
    | none => return file
    | some address => loadModuleInfo file flat address

/-! ### No access goes outside -/

namespace ElfLoader

section
variable {data table names flat : List Byte} {preferredBase : Word}

theorem inside_u16 (data : List Byte) (offset : Nat) : Inside (u16 data offset) :=
  Inside.ite (fun _ => inside_raise) fun h => inside_fetchHalf (by omega)

theorem inside_u32 (data : List Byte) (offset : Nat) : Inside (u32 data offset) :=
  Inside.ite (fun _ => inside_raise) fun h => inside_fetchWord (by omega)

theorem inside_nameBytes (left i : Nat) (h : i + left ≤ table.length) : Inside (nameBytes table i left) := by
  induction left generalizing i with
  | zero => exact inside_raise
  | succ left ih =>
    refine (inside_cell (by omega)).bind fun byte _ => Inside.ite (fun _ => inside_pure) fun _ => ?_
    exact (ih (i + 1) (by omega)).bind fun _ _ => inside_pure

theorem inside_stringAt (table : List Byte) (offset : Word) : Inside (stringAt table offset) :=
  Inside.ite (fun _ => inside_raise) fun h => inside_nameBytes _ _ (by omega)

theorem inside_programHeader (data : List Byte) (base i : Nat) : Inside (programHeader data base i) := by
  refine (inside_u32 data _).bind fun _ _ => Inside.ite (fun _ => inside_pure) fun _ => ?_
  refine (inside_u32 data _).bind fun fileOffset _ => (inside_u32 data _).bind fun _ _ =>
    (inside_u32 data _).bind fun _ _ => (inside_u32 data _).bind fun fileSize _ => (inside_u32 data _).bind fun _ _ =>
    (inside_u32 data _).bind fun _ _ => Inside.ite (fun _ => inside_raise) fun h => ?_
  exact (inside_slice (by omega)).bind fun _ _ => inside_pure

theorem inside_programHeaders (data : List Byte) : Inside (programHeaders data) := by
  refine (inside_u32 data _).bind fun _ _ => (inside_u16 data _).bind fun _ _ => (inside_u16 data _).bind fun _ _ =>
    Inside.ite (fun _ => inside_raise) fun _ => ?_
  exact (inside_mapM _ fun i _ => inside_programHeader data _ i).bind fun _ _ => inside_pure

theorem inside_rebase (file : ElfFile) : Inside (rebase file) :=
  Inside.ite (fun _ => Inside.ite (fun _ => inside_raise) fun _ => inside_pure) fun _ => inside_pure

theorem inside_sectionHeader (data : List Byte) (base : Nat) : Inside (sectionHeader data base) := by
  refine (inside_u32 data _).bind fun _ _ => (inside_u32 data _).bind fun _ _ => (inside_u32 data _).bind fun _ _ =>
    (inside_u32 data _).bind fun _ _ => (inside_u32 data _).bind fun _ _ => (inside_u32 data _).bind fun _ _ =>
    (inside_u32 data _).bind fun _ _ => inside_pure

/-- The names have one of the headers that are counted. -/
theorem inside_sectionHeaders (data : List Byte) : Inside (sectionHeaders data) := by
  refine (inside_u32 data _).bind fun _ _ => (inside_u16 data _).bind fun _ _ => (inside_u16 data _).bind fun count _ =>
    (inside_u16 data _).bind fun index _ => Inside.ite (fun _ => inside_raise) fun hindex => ?_
  refine Inside.ite (fun _ => inside_raise) fun _ => ?_
  refine (inside_mapM _ fun i _ => inside_sectionHeader data _).bind fun headers hheaders => ?_
  have hlength := length_mapM hheaders
  rw [List.length_range] at hlength
  simp only [not_or, ge_iff_le, BitVec.not_le, BitVec.lt_def] at hindex
  refine (inside_cell (by omega)).bind fun header _ => Inside.ite (fun _ => inside_raise) fun h => ?_
  exact (inside_slice (by omega)).bind fun _ _ => inside_pure

theorem inside_executableSection (data names : List Byte) (preferredBase : Word) (header : SectionHeader) :
    Inside (executableSection data names preferredBase header) := by
  refine Inside.ite (fun _ => inside_pure) fun _ => Inside.ite (fun _ => inside_raise) fun h =>
    Inside.ite (fun _ => inside_raise) fun _ => (inside_stringAt names _).bind fun _ _ => ?_
  exact (inside_slice (by omega)).bind fun _ _ => inside_pure

theorem inside_relocation (data : List Byte) (offset : Word) : Inside (relocation data offset) :=
  (inside_u32 data _).bind fun _ _ => (inside_u32 data _).bind fun _ _ => inside_pure

theorem inside_relocationSection (data : List Byte) (header : SectionHeader) :
    Inside (relocationSection data header) :=
  Inside.ite (fun _ => inside_pure) fun _ => Inside.ite (fun _ => inside_raise) fun _ =>
    inside_mapM _ fun _ _ => inside_relocation data _

theorem inside_memoryImage (file : ElfFile) : Inside (memoryImage file) := by
  refine (inside_demand _).bind fun size _ => inside_foldlM _ _ fun image segment _ => ?_
  exact Inside.ite (fun _ => inside_raise) fun h => inside_store (by omega)

theorem inside_imageOffset (preferredBase address : Word) : Inside (imageOffset preferredBase address) :=
  Inside.ite (fun _ => inside_raise) fun _ => inside_pure

theorem inside_imageU32 (flat : List Byte) (preferredBase address : Word) :
    Inside (imageU32 flat preferredBase address) :=
  (inside_imageOffset preferredBase address).bind fun _ _ => inside_u32 flat _

theorem inside_importBytes (left i taken : Nat) (h : i + left ≤ flat.length) :
    Inside (importBytes flat i taken left) := by
  induction left generalizing i taken with
  | zero => exact inside_raise
  | succ left ih =>
    refine (inside_cell (by omega)).bind fun byte _ => Inside.ite (fun _ => inside_pure) fun _ =>
      Inside.ite (fun _ => inside_raise) fun _ => ?_
    exact (ih (i + 1) (taken + 1) (by omega)).bind fun _ _ => inside_pure

theorem inside_imageString (flat : List Byte) (preferredBase address : Word) :
    Inside (imageString flat preferredBase address) :=
  (inside_imageOffset preferredBase address).bind fun _ _ =>
    Inside.ite (fun _ => inside_raise) fun h => inside_importBytes _ _ _ (by omega)

/-- An entry is read where twenty bytes are left. The image has addresses of 32 bits, so its offsets do not wrap. -/
theorem inside_importEntry (hflat : flat.length < 2 ^ 32) (preferredBase stubEnd cursor : Word) :
    Inside (importEntry flat preferredBase stubEnd cursor) := by
  refine Inside.ite (fun _ => inside_raise) fun hroom => ?_
  have hbyte : (cursor + 8).toNat < flat.length := by
    have hadd : (cursor + 8).toNat = cursor.toNat + 8 := by
      rw [BitVec.toNat_add]
      exact Nat.mod_eq_of_lt (by change cursor.toNat + 8 < _; omega)
    omega
  refine (inside_u32 flat _).bind fun _ _ => (inside_u32 flat _).bind fun _ _ => (inside_cell hbyte).bind fun _ _ =>
    (inside_u16 flat _).bind fun _ _ => (inside_u32 flat _).bind fun _ _ => (inside_u32 flat _).bind fun _ _ =>
    Inside.ite (fun _ => inside_raise) fun _ => (inside_imageString flat preferredBase _).bind fun _ _ => ?_
  refine (inside_mapM _ fun i _ => ?_).bind fun _ _ => inside_pure
  exact (inside_imageU32 flat preferredBase _).bind fun _ _ =>
    (inside_imageOffset preferredBase _).bind fun _ _ => inside_pure

theorem inside_importTable (hflat : flat.length < 2 ^ 32) (preferredBase stubEnd cursor : Word) :
    Inside (importTable flat preferredBase stubEnd cursor) := by
  rw [importTable]
  split
  · next hcursor =>
    have hinside := inside_importEntry hflat preferredBase stubEnd cursor
    split
    · next fault hentry =>
      rw [hentry] at hinside
      exact fun h => hinside (congrArg Except.error (Except.error.inj h))
    · next imports next hentry =>
      have hadvance := importEntry_advances hcursor hentry
      exact (inside_importTable hflat preferredBase stubEnd next).bind fun _ _ => inside_pure
  · exact inside_pure
termination_by stubEnd.toNat - cursor.toNat
decreasing_by bv_omega

theorem inside_moduleInfoSection (names : List Byte) (headers : List SectionHeader) :
    Inside (moduleInfoSection names headers) := by
  induction headers with
  | nil => exact inside_pure
  | cons header rest ih =>
    exact (inside_stringAt names _).bind fun _ _ => Inside.ite (fun _ => inside_pure) fun _ => ih

theorem inside_moduleInfoAddress (data names : List Byte) (headers : List SectionHeader)
    (loadHeaders : List ProgramLoadHeader) : Inside (moduleInfoAddress data names headers loadHeaders) := by
  refine (inside_moduleInfoSection names headers).bind fun found _ => ?_
  cases found with
  | some address => exact inside_pure
  | none => exact (inside_u16 data _).bind fun _ _ => Inside.ite (fun _ => inside_pure) fun _ => inside_pure

theorem inside_gpAddend (image : ElfImage) (gpPointerOffset : Word) (relocations : List Relocation) :
    Inside (gpAddend image gpPointerOffset relocations) := by
  induction relocations with
  | nil => exact inside_pure
  | cons relocation rest ih =>
    rw [gpAddend]
    split
    · exact ih
    · refine Inside.ite (fun _ => ih) fun _ => ?_
      split
      · exact inside_raise
      · exact inside_pure

theorem inside_loadModuleInfo (file : ElfFile) (hflat : flat.length < 2 ^ 32) (address : Word) :
    Inside (loadModuleInfo file flat address) := by
  refine (inside_imageOffset _ _).bind fun _ _ => (inside_imageU32 flat _ _).bind fun _ _ =>
    (inside_gpAddend _ _ _).bind fun _ _ => (inside_imageU32 flat _ _).bind fun _ _ =>
    (inside_imageOffset _ _).bind fun _ _ => (inside_imageU32 flat _ _).bind fun _ _ =>
    (inside_imageOffset _ _).bind fun _ _ => Inside.ite (fun _ => inside_raise) fun _ => ?_
  exact (inside_importTable hflat _ _ _).bind fun _ _ => inside_pure

theorem inside_identify (data : List Byte) : Inside (identify data) := by
  refine Inside.ite (fun _ => inside_raise) fun h => ?_
  have hcell : ∀ i < 6, Inside (cell data i : Load Byte) := fun i hi => inside_cell (by omega)
  refine (hcell 0 (by decide)).bind fun _ _ => (hcell 1 (by decide)).bind fun _ _ => (hcell 2 (by decide)).bind fun _ _ =>
    (hcell 3 (by decide)).bind fun _ _ => Inside.ite (fun _ => inside_raise) fun _ => ?_
  refine (hcell 4 (by decide)).bind fun _ _ => (hcell 5 (by decide)).bind fun _ _ =>
    Inside.ite (fun _ => inside_raise) fun _ => ?_
  exact (inside_u16 data _).bind fun _ _ => Inside.ite (fun _ => inside_raise) fun _ => inside_pure

/-- The copies leave the image its size. -/
theorem length_memoryImage {file : ElfFile} (h : memoryImage file = .ok flat) : flat.length < 2 ^ 32 := by
  obtain ⟨size, _, h⟩ := bind_eq_ok.1 h
  refine foldlM_invariant (P := fun image => image.length < 2 ^ 32) (fun image segment image' himage hcopy => ?_) ?_ h
  · split at hcopy
    · cases hcopy
    · rwa [length_store hcopy]
  · rw [List.length_replicate]
    exact size.isLt

end

end ElfLoader

open ElfLoader

theorem inside_loadElf (data : List Byte) : Inside (loadElf data) := by
  refine (inside_identify data).bind fun _ _ => (inside_u32 data _).bind fun _ _ =>
    (inside_programHeaders data).bind fun _ _ => (inside_rebase _).bind fun _ _ =>
    (inside_sectionHeaders data).bind fun _ _ =>
    (inside_mapM _ fun header _ => inside_executableSection data _ _ header).bind fun _ _ =>
    Inside.ite (fun _ => inside_raise) fun _ => ?_
  refine (inside_mapM _ fun header _ => inside_relocationSection data header).bind fun _ _ =>
    (inside_memoryImage _).bind fun flat hflat => (inside_moduleInfoAddress data _ _ _).bind fun found _ => ?_
  cases found with
  | none => exact inside_pure
  | some address => exact inside_loadModuleInfo _ (length_memoryImage hflat) address

/-- Loading ends with an error or an image, and by no access outside the file or the flat image; each entry takes the
walk over the import table forward, up to the table's end at most. -/
theorem loadElf_error_or_image (data : List Byte) :
    ((∃ file, loadElf data = .ok file) ∨ ∃ message, loadElf data = .error (.raised message)) ∧
      ∀ flat preferredBase stubEnd cursor imports next, cursor < stubEnd →
        importEntry flat preferredBase stubEnd cursor = .ok (imports, next) → cursor < next ∧ next ≤ stubEnd := by
  refine ⟨?_, fun flat preferredBase stubEnd cursor imports next hcursor hentry => ?_⟩
  · have hinside := inside_loadElf data
    cases hload : loadElf data with
    | ok file => exact .inl ⟨file, rfl⟩
    | error fault =>
      cases fault with
      | raised message => exact .inr ⟨message, rfl⟩
      | outside => exact absurd hload hinside
  · obtain ⟨hadvance, hend⟩ := importEntry_advances hcursor hentry
    exact ⟨BitVec.lt_def.2 (by omega), hend⟩

/-- An import table of one entry for two functions, behind it the name of their library and their numbers; the
stubs begin at 32. -/
def importTable : List Byte :=
  [20, 0, 0, 0, 0, 0, 1, 0x40, 5, 0, 2, 0, 24, 0, 0, 0, 32, 0, 0, 0] ++ [0x47, 0x65, 0, 0] ++
    [0x11, 0x22, 0x33, 0x44, 0x55, 0x66, 0x77, 0x08] ++ List.replicate 16 0

theorem loadElf_error_or_image_importTable :
    let imports : List ElfImport := [⟨⟨32⟩, [0x47, 0x65], 0x44332211, 0x40010000⟩,
      ⟨⟨40⟩, [0x47, 0x65], 0x08776655, 0x40010000⟩]
    importEntry importTable 0 20 0 = .ok (imports, 20) ∧ (0 : Word) < 20 ∧ (20 : Word) ≤ 20 := by
  intro imports
  have hentry : importEntry importTable 0 20 0 = .ok (imports, 20) := by rfl
  exact ⟨hentry, (loadElf_error_or_image []).2 importTable 0 20 0 imports 20 (by decide) hentry⟩

/-- One section of one instruction, and the empty name. -/
def smallElf : List Byte :=
  [0x7f, 0x45, 0x4c, 0x46, 1, 1, 1, 0, 0, 0, 0, 0, 0, 0, 0, 0, 2, 0, 8, 0, 1, 0, 0, 0, 0, 0, 0, 0, 0, 0, 0, 0,
    52, 0, 0, 0, 0, 0, 0, 0, 52, 0, 0, 0, 0, 0, 40, 0, 2, 0, 1, 0] ++
  [0, 0, 0, 0, 1, 0, 0, 0, 4, 0, 0, 0, 0, 0, 0, 0, 136, 0, 0, 0, 4, 0, 0, 0] ++ List.replicate 16 0 ++
  [0, 0, 0, 0, 3, 0, 0, 0, 0, 0, 0, 0, 0, 0, 0, 0, 132, 0, 0, 0, 1, 0, 0, 0] ++ List.replicate 24 0

example : (loadElf smallElf).isOk = true := by decide +kernel

/-! ### What is loaded -/

namespace ElfLoader

/-- The copies of `memory_image` are those into the image that generated code is given. -/
theorem memoryImage_image {file : ElfFile} {flat : List Byte} (h : memoryImage file = .ok flat) :
    ∃ size memory, file.image.memorySize = some size ∧ file.image.memoryImage = some memory := by
  obtain ⟨size, hsize, h⟩ := bind_eq_ok.1 h
  have hmemorySize : file.image.memorySize = some size := by
    cases hm : file.image.memorySize with
    | none => rw [hm] at hsize; cases hsize
    | some size' => rw [hm] at hsize; exact congrArg some (Except.ok.inj hsize)
  have hcopies : ∀ (segments : List ElfSegment) (image : List Byte) (memory : Bytes), image.length = size.toNat →
      segments.foldlM (fun image segment =>
        if segment.address.toNat > image.length ∨ segment.bytes.length > image.length - segment.address.toNat then
          raise "load segment is outside memory image"
        else store image segment.address.toNat segment.bytes) image = (.ok flat : Load _) →
      ∃ memory', (segments.map (·.toLoadSegment)).foldlM (loadSegment size) memory = some memory' := by
    intro segments
    induction segments with
    | nil => exact fun _ memory _ _ => ⟨memory, rfl⟩
    | cons segment rest ih =>
      intro image memory himage hfold
      rw [List.foldlM_cons] at hfold
      obtain ⟨image', hcopy, hfold⟩ := bind_eq_ok.1 hfold
      split at hcopy
      · cases hcopy
      next hfits =>
      rw [List.map_cons, List.foldlM_cons, loadSegment, if_neg]
      · exact ih image' _ ((length_store hcopy).trans himage) hfold
      · rw [himage] at hfits
        simp only [not_or, BitVec.not_lt, gt_iff_lt] at hfits ⊢
        have hsub : segment.address ≤ size := by
          rw [BitVec.le_def]
          omega
        rw [BitVec.toNat_sub_of_le hsub]
        exact ⟨hsub, by omega⟩
  obtain ⟨memory, hmemory⟩ := hcopies _ _ (fun _ => 0) List.length_replicate h
  exact ⟨size, memory, hmemorySize, by rw [ElfImage.memoryImage, hmemorySize]; exact hmemory⟩

/-- Sections are moved by none or by the base of user memory. -/
theorem rebase_preferredBase {file file' : ElfFile} (hfile : file.preferredBase = 0) (h : rebase file = .ok file') :
    file'.preferredBase.toNat % 4 = 0 := by
  unfold rebase at h
  split at h
  · split at h
    · cases h
    · obtain rfl := Except.ok.inj h
      show pspUserBase.toNat % 4 = 0
      decide
  · obtain rfl := Except.ok.inj h
    rw [hfile]
    rfl

theorem toNat_and_three (x : Word) : (x &&& 3).toNat = x.toNat % 4 := by
  rw [BitVec.toNat_and]
  exact Nat.and_two_pow_sub_one_eq_mod x.toNat 2

theorem executableSection_aligned {data names : List Byte} {preferredBase : Word} {header : SectionHeader}
    {elfSection : ElfSection} (hbase : preferredBase.toNat % 4 = 0)
    (h : executableSection data names preferredBase header = .ok (some elfSection)) :
    elfSection.address.toNat % 4 = 0 ∧ elfSection.bytes.length % 4 = 0 := by
  unfold executableSection at h
  split at h
  · cases h
  split at h
  · cases h
  next hfits =>
  split at h
  · cases h
  next haligned =>
  obtain ⟨name, _, h⟩ := bind_eq_ok.1 h
  obtain ⟨bytes, hbytes, h⟩ := bind_eq_ok.1 h
  obtain rfl := Option.some.inj (Except.ok.inj h)
  rw [slice_eq (by omega)] at hbytes
  obtain rfl := Except.ok.inj hbytes
  simp only [not_or, Classical.not_not] at haligned
  have haddress := congrArg BitVec.toNat haligned.1
  have hsize := congrArg BitVec.toNat haligned.2
  rw [toNat_and_three] at haddress hsize
  change header.address.toNat % 4 = 0 at haddress
  change header.size.toNat % 4 = 0 at hsize
  dsimp only
  rw [List.length_take, List.length_drop]
  refine ⟨?_, by omega⟩
  bv_omega

/-- The header of the module says where its `$gp` is and what it imports, and nothing else. -/
theorem loadModuleInfo_eq_ok {file file' : ElfFile} {flat : List Byte} {address : Word}
    (h : loadModuleInfo file flat address = .ok file') :
    ∃ gpPointerOffset gpValueOffset imports, file' = { file with gpPointerOffset, gpValueOffset, imports } := by
  obtain ⟨gpPointerOffset, _, h⟩ := bind_eq_ok.1 h
  obtain ⟨stored, _, h⟩ := bind_eq_ok.1 h
  obtain ⟨addend, _, h⟩ := bind_eq_ok.1 h
  obtain ⟨_, _, h⟩ := bind_eq_ok.1 h
  obtain ⟨_, _, h⟩ := bind_eq_ok.1 h
  obtain ⟨_, _, h⟩ := bind_eq_ok.1 h
  obtain ⟨_, _, h⟩ := bind_eq_ok.1 h
  split at h
  · cases h
  obtain ⟨imports, _, h⟩ := bind_eq_ok.1 h
  exact ⟨gpPointerOffset, stored + addend, imports, (Except.ok.inj h).symm⟩

end ElfLoader

/-- What the loader returns has a memory image and sections of whole words. -/
theorem loadElf_loadedImage {data : List Byte} {file : ElfFile} (h : loadElf data = .ok file) :
    ∃ loaded : LoadedImage, loaded.toElfImage = file.image := by
  obtain ⟨_, _, h⟩ := bind_eq_ok.1 h
  obtain ⟨entry, _, h⟩ := bind_eq_ok.1 h
  obtain ⟨segments, _, h⟩ := bind_eq_ok.1 h
  obtain ⟨moved, hmoved, h⟩ := bind_eq_ok.1 h
  obtain ⟨⟨headers, names⟩, _, h⟩ := bind_eq_ok.1 h
  obtain ⟨sections, hsections, h⟩ := bind_eq_ok.1 h
  dsimp only at h
  split at h
  · cases h
  obtain ⟨relocations, _, h⟩ := bind_eq_ok.1 h
  obtain ⟨flat, hflat, h⟩ := bind_eq_ok.1 h
  obtain ⟨found, _, h⟩ := bind_eq_ok.1 h
  obtain ⟨size, memory, hsize, hmemory⟩ := memoryImage_image hflat
  have haligned : ∀ s ∈ sections.filterMap id, s.address.toNat % 4 = 0 ∧ s.bytes.length % 4 = 0 := by
    intro s hs
    obtain ⟨found, hfound, hsome⟩ := List.mem_filterMap.1 hs
    obtain rfl : found = some s := hsome
    obtain ⟨header, _, hheader⟩ := exists_of_mem_mapM hsections hfound
    exact executableSection_aligned (rebase_preferredBase rfl hmoved) hheader
  have hsections : ∀ s ∈ (sections.filterMap id).map (·.toExecutableSection),
      s.address.toNat % 4 = 0 ∧ s.bytes.length % 4 = 0 := by
    rintro s hs
    obtain ⟨s', hs', rfl⟩ := List.mem_map.1 hs
    exact haligned s' hs'
  cases found with
  | none =>
    obtain rfl := Except.ok.inj h
    exact ⟨⟨_, size, memory, hsize, hmemory, hsections⟩, rfl⟩
  | some address =>
    obtain ⟨gpPointerOffset, gpValueOffset, imports, rfl⟩ := loadModuleInfo_eq_ok h
    refine ⟨⟨_, size, memory, ?_, ?_, ?_⟩, rfl⟩
    · exact hsize
    · exact hmemory
    · exact hsections

end Psprism
