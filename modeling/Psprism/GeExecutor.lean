import Mathlib.Data.List.Basic
import Psprism.GeTexture
import Psprism.Lib.Memo

/-!
# The display-list executor (`execute_ge_list` of `stubs/ge/sceGeListEnQueue.cpp`)

One run of the executor over a display list: the commands it accepts, the graphics state they change, the
draws and block transfers they make and the callbacks they leave to be dispatched. Floats are their bits. A
draw stands for all that the vertex pipeline and the render state are computed from, which is floating-point
code without state of its own: the command registers, the matrices, the texture and the bytes of the vertices.
-/

namespace Psprism

/-! ### The graphics state -/

/-- `float24`. -/
def float24 (v : Word) : Word := (v &&& 0x00ffffff) <<< 8

/-- A matrix and the index of the element that is written next. -/
structure GeMatrix (n : Nat) where
  values : Fin n → Word := fun _ => 0
  index : Word := 0

def GeMatrix.select {n : Nat} (m : GeMatrix n) (index : Word) : GeMatrix n := { m with index := index }

def GeMatrix.write {n : Nat} (m : GeMatrix n) (argument : Word) : GeMatrix n :=
  if h : m.index.toNat < n then
    { values := Function.update m.values ⟨m.index.toNat, h⟩ (float24 argument), index := m.index + 1 }
  else m

structure TraceRecord where
  listId : Word
  programCounter : Word
  instruction : Word

structure GeTrace where
  enabled : Bool := false
  records : List TraceRecord := []

def GeTrace.record (t : GeTrace) (r : TraceRecord) : GeTrace :=
  if t.enabled then { t with records := t.records ++ [r] } else t

/-- `refract::ge::State`, as far as the executor uses it. -/
structure Graphics where
  commands : Commands := fun _ => 0
  vertexAddress : Word := 0
  indexAddress : Word := 0
  offsetAddress : Word := 0
  worldMatrix : GeMatrix 12 := {}
  viewMatrix : GeMatrix 12 := {}
  projectionMatrix : GeMatrix 16 := {}
  textureMatrix : GeMatrix 12 := {}
  boneMatrices : GeMatrix 96 := {}
  clut : Bytes := fun _ => 0
  textureGeneration : BitVec 64 := 0
  trace : GeTrace := {}

def geOpcode (instruction : Word) : Byte := (instruction >>> 24).setWidth 8

def geArgument (instruction : Word) : Word := instruction &&& 0x00ffffff

/-! ### Vertices -/

/-- `component_size`. -/
def componentSize (type : Nat) : Nat :=
  match type with
  | 1 => 1
  | 2 => 2
  | 3 => 4
  | _ => 0

/-- `align_offset`; the alignments are powers of two. -/
def alignOffset (value alignment : Nat) : Nat :=
  if alignment = 0 then value else (value + alignment - 1) / alignment * alignment

structure VertexLayout where
  stride : Nat
  weightOffset : Nat
  textureOffset : Nat
  colorOffset : Nat
  normalOffset : Nat
  positionOffset : Nat
  textureType : Nat
  colorType : Nat
  normalType : Nat
  positionType : Nat
  weightType : Nat
  weightCount : Nat

/-- `offset` and `maximum_alignment` of `VertexDecoder::layout`. -/
structure LayoutCursor where
  offset : Nat := 0
  maximumAlignment : Nat := 1

/-- Where `count` components of the size go, and the cursor behind them. -/
def LayoutCursor.place (c : LayoutCursor) (size count : Nat) : Nat × LayoutCursor :=
  let offset := alignOffset c.offset size
  (offset, { offset := offset + size * count, maximumAlignment := max c.maximumAlignment size })

/-- A vertex attribute that is left out when its components have no size. -/
def LayoutCursor.placeIf (c : LayoutCursor) (size count : Nat) : Nat × LayoutCursor :=
  if size ≠ 0 then c.place size count else (0, c)

/-- `VertexDecoder::layout`. -/
def vertexLayout (type : Word) : VertexLayout :=
  let textureType := (type &&& 3).toNat
  let colorType := ((type >>> 2) &&& 7).toNat
  let normalType := ((type >>> 5) &&& 3).toNat
  let positionType := ((type >>> 7) &&& 3).toNat
  let weightType := ((type >>> 9) &&& 3).toNat
  let weightCount := ((type >>> 14) &&& 7).toNat + 1
  let colorSize := if colorType = 7 then 4 else if 4 ≤ colorType then 2 else 0
  let weight := LayoutCursor.placeIf {} (componentSize weightType) weightCount
  let texture := weight.2.placeIf (componentSize textureType) 2
  let color := texture.2.placeIf colorSize 1
  let normal := color.2.placeIf (componentSize normalType) 3
  let position := normal.2.place (componentSize positionType) 3
  { stride := alignOffset position.2.offset position.2.maximumAlignment
    weightOffset := weight.1
    textureOffset := texture.1
    colorOffset := color.1
    normalOffset := normal.1
    positionOffset := position.1
    textureType, colorType, normalType, positionType, weightType, weightCount }

namespace Graphics

def vertexType (g : Graphics) : Word := g.commands 0x12 &&& 0x00ffffff

def layout (g : Graphics) : VertexLayout := vertexLayout g.vertexType

def indexType (g : Graphics) : Nat := ((g.vertexType >>> 11) &&& 3).toNat

/-- One of the indices behind the pointer. -/
def decodedIndex (type : Nat) (indices : Bytes) (i : Nat) : Nat :=
  if type = 1 then (indices i).toNat
  else if type = 2 then (readU16 indices (i * 2)).toNat
  else (readU32 indices (i * 4)).toNat

/-- `vertex_indices`; `none` when the indices are not mapped. -/
def vertexIndices (g : Graphics) (m : GuestMemory) (count : Nat) : Option (List Nat) :=
  if g.indexType = 0 then some (List.range count)
  else
    (m.mappedAddress g.indexAddress (count * componentSize g.indexType)).map fun p =>
      (List.range count).map (decodedIndex g.indexType (m.byteAt p))

def maximumIndex (indices : List Nat) : Nat := indices.foldl max 0

/-- Where the vertices that the indices choose from are. -/
def vertexSource (g : Graphics) (m : GuestMemory) (indices : List Nat) : Option Pointer :=
  m.mappedAddress g.vertexAddress ((maximumIndex indices + 1) * g.layout.stride)

/-- The bytes of the vertices of a primitive, one vertex for each index. -/
def vertexBytes (g : Graphics) (m : GuestMemory) (count : Nat) : Option (List (List Byte)) :=
  (g.vertexIndices m count).bind fun indices =>
    (g.vertexSource m indices).map fun p =>
      indices.map fun i => (List.range g.layout.stride).map fun b => m.byteAt p (i * g.layout.stride + b)

/-- Past the vertices of a primitive or a bounding box, or past their indices. -/
def advanceVertices (g : Graphics) (count : Nat) : Graphics :=
  if g.indexType = 0 then
    { g with vertexAddress := g.vertexAddress + BitVec.ofNat 32 (count * g.layout.stride) }
  else
    { g with indexAddress := g.indexAddress + BitVec.ofNat 32 (count * componentSize g.indexType) }

/-! ### Commands that only set the graphics state -/

/-- `Interpreter::accept`. -/
def accept (g : Graphics) (listId : Int) (programCounter instruction : Word) : Graphics :=
  { g with
    commands := Function.update g.commands (geOpcode instruction) instruction
    trace := g.trace.record ⟨BitVec.ofInt 32 listId, programCounter, instruction⟩ }

/-- `relative_address`. -/
def relativeAddress (g : Graphics) (value : Word) : Word :=
  (g.offsetAddress + (((g.commands 0x10 &&& 0x000f0000) <<< 8) ||| value)) &&& 0x0fffffff

def setRegister (g : Graphics) (programCounter : Word) (opcode : Byte) (argument : Word) : Graphics :=
  match opcode with
  | 0x01 => { g with vertexAddress := g.relativeAddress argument }
  | 0x02 => { g with indexAddress := g.relativeAddress argument }
  | 0x3a => { g with worldMatrix := g.worldMatrix.select (argument &&& 0xf) }
  | 0x3b => { g with worldMatrix := g.worldMatrix.write argument }
  | 0x3c => { g with viewMatrix := g.viewMatrix.select (argument &&& 0xf) }
  | 0x3d => { g with viewMatrix := g.viewMatrix.write argument }
  | 0x3e => { g with projectionMatrix := g.projectionMatrix.select (argument &&& 0xf) }
  | 0x3f => { g with projectionMatrix := g.projectionMatrix.write argument }
  | 0x40 => { g with textureMatrix := g.textureMatrix.select (argument &&& 0xf) }
  | 0x41 => { g with textureMatrix := g.textureMatrix.write argument }
  | 0x2a => { g with boneMatrices := g.boneMatrices.select (argument &&& 0x7f) }
  | 0x2b => { g with boneMatrices := g.boneMatrices.write argument }
  | 0x13 => { g with offsetAddress := argument <<< 8 }
  | 0x14 => { g with offsetAddress := programCounter }
  | _ => g

end Graphics

/-! ### The state of a run -/

structure CallFrame where
  returnAddress : Word
  offsetAddress : Word

/-- What a draw is submitted from. -/
structure Draw where
  primitiveType : Nat
  commands : Commands
  worldMatrix : Fin 12 → Word
  viewMatrix : Fin 12 → Word
  projectionMatrix : Fin 16 → Word
  textureMatrix : Fin 12 → Word
  boneMatrices : Fin 96 → Word
  textureGeneration : BitVec 64
  texture : DecodedTexture
  vertices : List (List Byte)

/-- A row of a block transfer, with the bytes that were moved. -/
structure MovedRow where
  source : Word
  destination : Word
  bytes : List Byte

structure PendingCallback where
  entry : Word
  commandArgument : Word
  commonArgument : Word
deriving DecidableEq

structure GeCallback where
  signalEntry : Word
  signalArgument : Word
  finishEntry : Word
  finishArgument : Word

/-- What the executor is called with, and the callbacks that are registered. -/
structure GeContext where
  listId : Int
  stallAddress : Word
  callbackId : Word
  callbacks : Int → Option GeCallback

/-- The locals of the executor's loop and all that its commands change. The top of the call stack is the
head. -/
structure GeExecution where
  graphics : Graphics
  memory : GuestMemory
  textureCache : TextureKey → Option DecodedTexture := fun _ => none
  programCounter : Word
  callStack : List CallFrame := []
  boundingBoxVisible : Bool := false
  words : Nat := 0
  draws : List Draw := []
  transfers : List (List MovedRow) := []
  pendingCallbacks : List PendingCallback := []

/-- What a decoded texture depends on apart from the registers. -/
structure TextureEnvironment where
  generation : BitVec 64
  memory : GuestMemory
  clut : Bytes

namespace TextureEnvironment

def key (commands : Commands) (e : TextureEnvironment) : TextureKey := textureKey commands e.generation

def decode (commands : Commands) (e : TextureEnvironment) : DecodedTexture :=
  decodeTexture e.memory commands e.clut

end TextureEnvironment

namespace GeExecution

def textureEnvironment (s : GeExecution) : TextureEnvironment :=
  ⟨s.graphics.textureGeneration, s.memory, s.graphics.clut⟩

/-- The texture of a draw, and the cache with it. -/
def fetchTexture (s : GeExecution) : DecodedTexture × (TextureKey → Option DecodedTexture) :=
  Memo.fetch TextureEnvironment.key TextureEnvironment.decode s.textureCache s.graphics.commands
    s.textureEnvironment

def goto (s : GeExecution) (programCounter : Word) : GeExecution := { s with programCounter := programCounter }

def accept (s : GeExecution) (c : GeContext) (instruction : Word) : GeExecution :=
  { s with graphics := s.graphics.accept c.listId s.programCounter instruction, words := s.words + 1 }

/-! ### Palettes, draws and transfers -/

def clutAddress (commands : Commands) : Word :=
  (commands 0xb0 &&& 0x00fffff0) ||| ((commands 0xb1 <<< 8) &&& 0x0f000000)

def clutBytes (argument : Word) : Nat :=
  min ((if argument &&& 0x7f = 0x40 then 0x40 else (argument &&& 0x3f).toNat) * 32) 1024

/-- LOADCLUT. -/
def loadClut (s : GeExecution) (argument : Word) : GeExecution :=
  match s.memory.mappedAddress (clutAddress s.graphics.commands) (clutBytes argument) with
  | none => s
  | some p =>
    if ∀ i < clutBytes argument, s.memory.byteAt p i = s.graphics.clut i then s
    else
      { s with
        graphics := { s.graphics with
          clut := fun i => if i < clutBytes argument then s.memory.byteAt p i else s.graphics.clut i
          textureGeneration := s.graphics.textureGeneration + 1 }
        textureCache := fun _ => none }

/-- What is submitted for the vertices with the texture. -/
def drawOf (g : Graphics) (primitiveType : Nat) (texture : DecodedTexture) (vertices : List (List Byte)) : Draw where
  primitiveType
  commands := g.commands
  worldMatrix := g.worldMatrix.values
  viewMatrix := g.viewMatrix.values
  projectionMatrix := g.projectionMatrix.values
  textureMatrix := g.textureMatrix.values
  boneMatrices := g.boneMatrices.values
  textureGeneration := g.textureGeneration
  texture
  vertices

def submit (s : GeExecution) (primitiveType : Nat) (vertices : List (List Byte)) : GeExecution :=
  { s with
    textureCache := s.fetchTexture.2
    draws := s.draws ++ [drawOf s.graphics primitiveType s.fetchTexture.1 vertices] }

def setGraphics (s : GeExecution) (g : Graphics) : GeExecution := { s with graphics := g }

/-- PRIM. -/
def primitive (s : GeExecution) (argument : Word) : GeExecution :=
  let primitiveType := ((argument >>> 16) &&& 7).toNat
  let count := (argument &&& 0xffff).toNat
  if s.graphics.layout.stride ≠ 0 ∧ primitiveType ≤ 6 then
    let drawn :=
      match s.graphics.vertexBytes s.memory count with
      | none => s
      | some vertices => s.submit primitiveType vertices
    drawn.setGraphics (s.graphics.advanceVertices count)
  else s

/-- BBOX. -/
def boundingBox (s : GeExecution) (argument : Word) : GeExecution :=
  let count := (argument &&& 0xffff).toNat
  { s with
    boundingBoxVisible := count ≠ 0
    graphics := if count ≠ 0 then s.graphics.advanceVertices count else s.graphics }

/-- The locals of a block transfer. -/
structure BlockTransfer where
  sourceAddress : Word
  destinationAddress : Word
  sourceStride : Word
  destinationStride : Word
  sourceX : Word
  sourceY : Word
  destinationX : Word
  destinationY : Word
  width : Word
  height : Word
  bytesPerPixel : Word

def blockTransfer (commands : Commands) (argument : Word) : BlockTransfer where
  sourceAddress := (commands 0xb2 &&& 0x00fffff0) ||| ((commands 0xb3 &&& 0x00ff0000) <<< 8)
  destinationAddress := (commands 0xb4 &&& 0x00fffff0) ||| ((commands 0xb5 &&& 0x00ff0000) <<< 8)
  sourceStride := commands 0xb3 &&& 0x7f8
  destinationStride := commands 0xb5 &&& 0x7f8
  sourceX := commands 0xeb &&& 0x3ff
  sourceY := (commands 0xeb >>> 10) &&& 0x3ff
  destinationX := commands 0xec &&& 0x3ff
  destinationY := (commands 0xec >>> 10) &&& 0x3ff
  width := (commands 0xee &&& 0x3ff) + 1
  height := ((commands 0xee >>> 10) &&& 0x3ff) + 1
  bytesPerPixel := if argument &&& 1 ≠ 0 then 4 else 2

namespace BlockTransfer

def source (t : BlockTransfer) (row : Word) : Word :=
  t.sourceAddress + ((t.sourceY + row) * t.sourceStride + t.sourceX) * t.bytesPerPixel

def destination (t : BlockTransfer) (row : Word) : Word :=
  t.destinationAddress + ((t.destinationY + row) * t.destinationStride + t.destinationX) * t.bytesPerPixel

def rowSize (t : BlockTransfer) : Nat := t.width.toNat * t.bytesPerPixel.toNat

/-- The pointers to a row, when both ends of it are mapped. -/
def rowPointers (t : BlockTransfer) (m : GuestMemory) (row : Nat) : Option (Pointer × Pointer) :=
  (m.mappedAddress (t.source (BitVec.ofNat 32 row)) t.rowSize).bind fun input =>
    (m.mappedAddress (t.destination (BitVec.ofNat 32 row)) t.rowSize).map fun output => (input, output)

/-- The loop over the rows from `row` on, of which `count` are left; it ends at a row that is not mapped. -/
def moveRows (t : BlockTransfer) : Nat → Nat → GuestMemory → GuestMemory × List MovedRow
  | 0, _, m => (m, [])
  | count + 1, row, m =>
    match t.rowPointers m row with
    | none => (m, [])
    | some (input, output) =>
      let rest := t.moveRows count (row + 1) (m.moveBytes input output t.rowSize)
      let moved : MovedRow :=
        { source := t.source (BitVec.ofNat 32 row)
          destination := t.destination (BitVec.ofNat 32 row)
          bytes := (List.range t.rowSize).map (m.byteAt input) }
      (rest.1, moved :: rest.2)

end BlockTransfer

def transfer (s : GeExecution) (argument : Word) : GeExecution :=
  let t := blockTransfer s.graphics.commands argument
  let moved := t.moveRows t.height.toNat 0 s.memory
  { s with
    textureCache := fun _ => none
    graphics := { s.graphics with textureGeneration := s.graphics.textureGeneration + 1 }
    memory := moved.1
    transfers := s.transfers ++ [moved.2] }

/-- SIGNAL and FINISH: the callback that is left to be dispatched. -/
def signalled (c : GeContext) (signal : Bool) (argument : Word) : List PendingCallback :=
  match c.callbacks c.callbackId.toInt with
  | none => []
  | some callback =>
    let entry := if signal then callback.signalEntry else callback.finishEntry
    let commonArgument := if signal then callback.signalArgument else callback.finishArgument
    if entry ≠ 0 then [⟨entry, argument, commonArgument⟩] else []

def callback (s : GeExecution) (c : GeContext) (signal : Bool) (argument : Word) : GeExecution :=
  { s with pendingCallbacks := s.pendingCallbacks ++ signalled c signal argument }

/-! ### The loop -/

/-- What an accepted command does, END apart. -/
def execute (s : GeExecution) (c : GeContext) (instruction : Word) : GeExecution :=
  let argument := geArgument instruction
  let next := s.programCounter + 4
  let target := s.graphics.relativeAddress (argument &&& 0x00fffffc)
  match geOpcode instruction with
  | 0x04 => (s.primitive argument).goto next
  | 0x07 => (s.boundingBox argument).goto next
  | 0x08 => s.goto target
  | 0x09 => s.goto (if s.boundingBoxVisible then next else target)
  | 0x0a =>
    if s.callStack.length < 64 then
      { s with callStack := ⟨next, s.graphics.offsetAddress⟩ :: s.callStack }.goto target
    else s.goto next
  | 0x0b =>
    match s.callStack with
    | [] => s.goto next
    | frame :: below =>
      { s with callStack := below, graphics.offsetAddress := frame.offsetAddress }.goto frame.returnAddress
  | 0x0e => (s.callback c true argument).goto next
  | 0x0f => (s.callback c false argument).goto next
  | 0xc4 => (s.loadClut argument).goto next
  | 0xea => (s.transfer argument).goto next
  | opcode => (s.setGraphics (s.graphics.setRegister s.programCounter opcode argument)).goto next

inductive Stop
  | ended | stalled | failed
deriving DecidableEq

/-- The test at the head of the loop. -/
def stalls (s : GeExecution) (c : GeContext) : Bool :=
  c.stallAddress ≠ 0 ∧ canonicalAddress s.programCounter = canonicalAddress c.stallAddress

def fetch (s : GeExecution) : Option Word :=
  (s.memory.mappedAddress s.programCounter 4).map fun p => readU32 (s.memory.byteAt p) 0

/-- The loop, with the number of words it may still execute. -/
def loop (c : GeContext) : Nat → GeExecution → Stop × GeExecution
  | 0, s => (.failed, s)
  | n + 1, s =>
    if s.stalls c then (.stalled, s)
    else
      match s.fetch with
      | none => (.failed, s)
      | some instruction =>
        if geOpcode instruction = 0x0c then (.ended, s.accept c instruction)
        else loop c n ((s.accept c instruction).execute c instruction)

def maxGeCommandWords : Nat := 2 ^ 20

end GeExecution

end Psprism
