import Psprism.Analysis
import Psprism.Emit

/-!
# The emitted project (`src/emitter/project_output/instruction_map.inc`, `functions.inc`)

`emitProject` gathers what `emit_project` writes function runners from: the image, the sorted starts
of the discovered functions, the block entries and the size by which the instruction map is ordered.
`Project.items start` are the pieces of the body of one runner, an item for each instruction with
everything that is decided about it when the C++ is written. File names, symbols and profiling
counters are left out, as is the hybrid overlay build, in which the native edges are compiled out.
-/

namespace Psprism

structure Project where
  image : ElfImage
  mappedFunctionStarts : List Word
  blockEntries : List Word
  shardSize : Word

/-- `emit_project`, up to the text of the files. -/
def emitProject (image : LoadedImage) (codeMap : Option CodeMap) (shardSize : Word) : Project :=
  let entry :=
    match codeMap with
    | some codeMap => codeMap.entry
    | none => image.entry
  { image := image.toElfImage
    mappedFunctionStarts := image.discoverFunctions codeMap
    blockEntries := image.potentialBlockEntries codeMap entry shardSize
    shardSize }

/-! ### The instruction map -/

structure EmittedInstruction where
  pc : Word
  instruction : Word
  code : Stmt
  directTarget : Option Word

namespace Project
variable (P : Project)

def emit (instruction : Word × Word) : EmittedInstruction :=
  let (pc, w) := instruction
  { pc
    instruction := w
    code := emitInstruction pc w (decide (pc ∈ relocatedWords P.image)) P.image.preferredBase
    directTarget := directControlTarget pc w (jumpRelocationBases P.image) P.image.preferredBase }

/-- The instructions in the order of `shards`; within a shard that of the sections. -/
def emitted : List EmittedInstruction :=
  (P.image.instructions.map P.emit).insertionSort fun a b => a.pc / P.shardSize ≤ b.pc / P.shardSize

/-- `delay_slots.contains`. -/
def isDelaySlot (pc : Word) : Bool :=
  P.image.instructions.any fun (p, w) => startsDelayedBranch w ∧ pc = p + 4

def isImportStub (pc : Word) : Bool := pc ∈ importStubs P.image

/-- `block_entries.contains`. -/
def isBlockEntry (pc : Word) : Bool := pc ∈ P.blockEntries

/-- The last start at or before an address, as `std::upper_bound` finds it. -/
def startBefore (address : Word) : Option Word :=
  (P.mappedFunctionStarts.takeWhile (· ≤ address)).getLast?

/-- `functions[start]`: empty where there is no such function. -/
def function (start : Word) : List EmittedInstruction :=
  if P.isImportStub start then []
  else P.emitted.filter fun emitted => P.startBefore emitted.pc = some start

/-- `functions.contains`. -/
def isFunction (start : Word) : Bool := ¬ (P.function start).isEmpty

def functionOwner (address : Word) : Option Word := (P.startBefore address).filter P.isFunction

/-! ### Bodies of runners -/

end Project

/-- A call of another runner, out of a delay slot: for `jal` with the label behind the call, if the
function has one, and as a tail call for `j`. -/
inductive NativeEdge
  | none
  | call (function : Word) (returnLabel : Option Word)
  | tail (function : Word)
deriving DecidableEq, Repr

/-- The function called. -/
def NativeEdge.function? : NativeEdge → Option Word
  | none => .none
  | call function _ => some function
  | tail function => some function

/-- What is written for one instruction. `nativeEdge` and `gotoTarget` are the edges tried, in this
order, when the instruction is a delay slot whose branch is taken. -/
structure Item extends EmittedInstruction where
  isBlockEntry : Bool
  isDelaySlot : Bool
  hasNext : Bool
  nativeEdge : NativeEdge
  gotoTarget : Option Word

namespace Item

def isControl (i : Item) : Bool := startsDelayedBranch i.instruction

def mayStop (i : Item) : Bool := mayStopExecution i.instruction

/-- The pc is stored before the statement. -/
def storesPc (i : Item) : Bool := i.isDelaySlot || i.isControl || i.mayStop || !i.hasNext

end Item

namespace Project
variable (P : Project)

/-- A label of the function at an address of it. -/
def labelIn (start pc : Word) : Option Word :=
  if P.functionOwner pc = some start ∧ P.isBlockEntry pc then some pc else none

/-- The edge of a delay slot at `pc` to the direct target of its branch. -/
def nativeEdge (start pc : Word) (control : EmittedInstruction) : NativeEdge :=
  match control.directTarget with
  | none => .none
  | some target =>
    if opOf control.instruction = 0x03 ∧ P.isFunction target then .call target (P.labelIn start (pc + 4))
    else if opOf control.instruction = 0x02 ∧ P.isFunction target ∧ target ≠ start then .tail target
    else .none

/-- The item of an instruction between its neighbours in the function. -/
def item (start : Word) (previous : Option EmittedInstruction) (emitted : EmittedInstruction)
    (next : Option EmittedInstruction) : Item :=
  let isDelaySlot := P.isDelaySlot emitted.pc
  let delayedControl := previous.filter fun control => isDelaySlot ∧ control.pc + 4 = emitted.pc
  { emitted with
    isBlockEntry := P.isBlockEntry emitted.pc
    isDelaySlot
    hasNext := next.any fun next => next.pc = emitted.pc + 4 ∧ ¬ P.isImportStub next.pc
    nativeEdge :=
      match delayedControl with
      | none => .none
      | some control => P.nativeEdge start emitted.pc control
    gotoTarget := (delayedControl.bind (·.directTarget)).bind (P.labelIn start) }

def itemsFrom (start : Word) : Option EmittedInstruction → List EmittedInstruction → List Item
  | _, [] => []
  | previous, emitted :: rest =>
    P.item start previous emitted rest.head? :: itemsFrom start (some emitted) rest

/-- The body of the runner of a function. -/
def items (start : Word) : List Item := P.itemsFrom start none (P.function start)

/-- The body from a label on; empty where there is no such label. -/
def label (start pc : Word) : List Item :=
  (P.items start).dropWhile fun i => ¬ (i.isBlockEntry ∧ i.pc = pc)

/-! ### Items and their neighbours -/

/-- The items behind one another: each is one of an emitted instruction, and where it goes on to the
next one, that is at the next address and no import stub. -/
def Linked : List Item → Prop
  | [] => True
  | i :: rest =>
    (i.toEmittedInstruction ∈ P.emitted ∧ i.isDelaySlot = P.isDelaySlot i.pc) ∧
      (i.hasNext = true → ∃ j rest', rest = j :: rest' ∧ j.pc = i.pc + 4 ∧ P.isImportStub j.pc = false) ∧
      Linked rest

variable {P}

theorem mem_emitted {e : EmittedInstruction} :
    e ∈ P.emitted ↔ ∃ x ∈ P.image.instructions, P.emit x = e := by
  rw [emitted, List.mem_insertionSort, List.mem_map]

theorem function_subset {start : Word} {e : EmittedInstruction} (he : e ∈ P.function start) :
    e ∈ P.emitted := by
  unfold function at he
  split at he
  · exact absurd he List.not_mem_nil
  · exact (List.mem_filter.1 he).1

theorem linked_itemsFrom (start : Word) {l : List EmittedInstruction} (hl : ∀ e ∈ l, e ∈ P.emitted)
    (previous : Option EmittedInstruction) : P.Linked (P.itemsFrom start previous l) := by
  induction l generalizing previous with
  | nil => trivial
  | cons e rest ih =>
    refine ⟨⟨hl e List.mem_cons_self, rfl⟩, fun hnext => ?_,
      ih (fun e' he' => hl e' (List.mem_cons_of_mem e he')) _⟩
    cases rest with
    | nil => cases hnext
    | cons next rest =>
      obtain ⟨hpc, hstub⟩ := of_decide_eq_true hnext
      exact ⟨_, _, rfl, hpc, Bool.not_eq_true _ ▸ hstub⟩

theorem Linked.dropWhile {l : List Item} (h : P.Linked l) (p : Item → Bool) :
    P.Linked (l.dropWhile p) := by
  induction l with
  | nil => exact h
  | cons i rest ih =>
    rw [List.dropWhile_cons]
    split
    · exact ih h.2.2
    · exact h

theorem linked_label (start pc : Word) : P.Linked (P.label start pc) :=
  (linked_itemsFrom start (fun _ he => function_subset he) none).dropWhile _

/-- A label is at its address. -/
theorem label_pc {start pc : Word} {i : Item} {rest : List Item} (h : P.label start pc = i :: rest) :
    i.isBlockEntry = true ∧ i.pc = pc := by
  have hhead := List.head?_dropWhile_not (fun i : Item => ¬ (i.isBlockEntry ∧ i.pc = pc)) (P.items start)
  rw [show List.dropWhile _ _ = _ from h] at hhead
  simpa using hhead

end Project

end Psprism
