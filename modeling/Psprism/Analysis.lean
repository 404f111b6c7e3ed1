import Mathlib.Data.List.Dedup
import Mathlib.Data.List.Sort
import Psprism.Image

/-!
# Entries and functions (`src/emitter/analysis.cpp`, `src/elf.hpp`)

`potentialBlockEntries` are the addresses the dispatcher may enter translated code at, and
`discoverFunctions` the starts of the functions it is cut into. Both collect candidate addresses and
keep those of executable words. Of a code map only the addresses that these two read are modelled.
-/

namespace Psprism

/-- `CodeMap`; of a function range its begin. -/
structure CodeMap where
  entry : Word := 0
  functionStarts : List Word := []
  functionRanges : List Word := []
  functionSymbols : List Word := []
  blockEntries : List Word := []
deriving DecidableEq, Repr

def isExecutableWord (image : ElfImage) (address : Word) : Bool :=
  address &&& 3 = 0 ∧ image.executableSections.any fun sec => sec.address ≤ address ∧
    address.toNat + 4 ≤ sec.address.toNat + sec.bytes.length

/-- The addresses of import stubs. -/
def importStubs (image : ElfImage) : List Word := image.imports.map (·.stubAddress)

/-! ### Block entries -/

/-- A secs address and the shard boundaries up to its end. -/
def sectionBoundaries (shardSize : Word) (sec : ExecutableSection) : List Word :=
  let sectionEnd := sec.address.toNat + sec.bytes.length
  let boundary := (sec.address + shardSize - 1) &&& ~~~(shardSize - 1)
  let count := (sectionEnd - boundary.toNat + shardSize.toNat - 1) / shardSize.toNat
  sec.address :: (List.range count).map fun k => boundary + BitVec.ofNat 32 k * shardSize

/-- Where a delayed branch lets control continue: behind its delay slot and at its direct target. -/
def controlEntries (image : ElfImage) (instruction : Word × Word) : List Word :=
  let (pc, w) := instruction
  if ¬ startsDelayedBranch w then []
  else
    (if needsPostDelayEntry w then [pc + 8] else []) ++
      (directControlTarget pc w (jumpRelocationBases image) image.preferredBase).toList

namespace LoadedImage
variable (image : LoadedImage)

/-- Words of the memory image that could be pointers, in an image without relocations. -/
def rawPointers : List Word :=
  if ¬ image.relocations.isEmpty then []
  else
    (List.range (image.size.toNat / 4)).map fun k =>
      let value := readU32 image.memory (4 * k)
      if image.preferredBase ≠ 0 ∧ image.preferredBase ≤ value then value - image.preferredBase
      else value

/-- The word of the memory image at an address, when it lies in it. -/
def memoryWord (address : Word) : Option Word :=
  if address.toNat + 4 ≤ image.size.toNat then some (readU32 image.memory address.toNat) else none

/-- Where a relocation patches. -/
def patchAddress (relocation : Relocation) : Option Word :=
  (findLoadSegment image.toElfImage relocation.patchSegment).map fun patch =>
    patch.address + relocation.offset

/-- The address that an R_MIPS_HI16 relocation materialises with the next R_MIPS_LO16 one of its
target segment. -/
def highLowPointer (high : Relocation) (rest : List Relocation) : Option Word := do
  if high.type ≠ 5 then none
  let low ← rest.find? fun low => low.type = 6 ∧ low.targetSegment = high.targetSegment
  let highWord ← (image.patchAddress high).bind image.memoryWord
  let lowWord ← (image.patchAddress low).bind image.memoryWord
  let target ← findLoadSegment image.toElfImage high.targetSegment
  some (((highWord &&& 0xffff) <<< 16) + signedImmediate lowWord + target.address)

def highLowPointers : List Relocation → List Word
  | [] => []
  | high :: rest => (image.highLowPointer high rest).toList ++ highLowPointers rest

/-- The address an R_MIPS_32 relocation outside the code stands for. -/
def relocatedPointer (relocation : Relocation) : Option Word := do
  if relocation.type ≠ 2 then none
  let target ← findLoadSegment image.toElfImage relocation.targetSegment
  let address ← image.patchAddress relocation
  if isExecutableWord image.toElfImage address then none
  some ((← image.memoryWord address) + target.address)

def potentialBlockEntries (codeMap : Option CodeMap) (entry shardSize : Word) : List Word :=
  let fromMap :=
    match codeMap with
    | none => []
    | some codeMap => codeMap.functionStarts ++ codeMap.blockEntries
  (entry :: image.executableSections.flatMap (sectionBoundaries shardSize) ++ fromMap ++
    image.instructions.flatMap (controlEntries image.toElfImage) ++ image.rawPointers ++
    image.highLowPointers image.relocations ++
    image.relocations.filterMap image.relocatedPointer).filter (isExecutableWord image.toElfImage)

/-! ### Functions -/

/-- The starts an instruction points to: a call's target, a prologue that lowers `$sp`, and the word
behind the delay slot of a `jr $ra` that its section still holds. -/
def instructionStarts (sec : ExecutableSection) (instruction : Word × Word) : List Word :=
  let (pc, w) := instruction
  let offset := (pc - sec.address).toNat
  (if opOf w = 0x03 then
      (directControlTarget pc w (jumpRelocationBases image.toElfImage) image.preferredBase).toList
    else if opOf w = 0x01 ∧ 0x10 ≤ rtOf w ∧ rtOf w ≤ 0x13 then [pc + 4 + signedImmediate w * 4]
    else []) ++
    (if w &&& 0xffff8000 = 0x27bd8000 then [pc] else []) ++
    (if w = 0x03e00008 ∧ offset + 8 < sec.bytes.length then [pc + 8] else [])

/-- The address an R_MIPS_32 relocation stands for; unlike for block entries, anywhere. -/
def functionPointer (relocation : Relocation) : Option Word := do
  if relocation.type ≠ 2 then none
  let target ← findLoadSegment image.toElfImage relocation.targetSegment
  let address ← image.patchAddress relocation
  if (address + 4).toNat ≤ image.size.toNat then
    some (readU32 image.memory address.toNat + target.address)
  else none

/-- The starts found without a list of them in the code map. -/
def scannedStarts (codeMap : Option CodeMap) : List Word :=
  let fromMap :=
    match codeMap with
    | none => []
    | some codeMap =>
      (if codeMap.entry ≠ 0 then [codeMap.entry] else []) ++ codeMap.functionRanges ++
        codeMap.functionSymbols
  image.entry :: fromMap ++ image.executableSections.map (·.address) ++
    image.executableSections.flatMap (fun sec =>
      sec.instructions.flatMap (image.instructionStarts sec)) ++
    image.relocations.filterMap image.functionPointer

/-- The candidates `discover_functions` adds. -/
def startCandidates (codeMap : Option CodeMap) : List Word :=
  match codeMap with
  | some codeMap' =>
    if codeMap'.functionStarts.isEmpty then image.scannedStarts codeMap
    else codeMap'.functionStarts
  | none => image.scannedStarts codeMap

/-- `discover_functions`, the starts in order. -/
def discoverFunctions (codeMap : Option CodeMap) : List Word :=
  (((image.startCandidates codeMap).filter fun address =>
    isExecutableWord image.toElfImage address ∧ address ∉ importStubs image.toElfImage).dedup).insertionSort
      (· ≤ ·)

end LoadedImage

end Psprism
