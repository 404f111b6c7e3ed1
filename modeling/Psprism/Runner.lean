import Psprism.Interpreter
import Psprism.Lib.Machine
import Psprism.Project

/-!
# Function runners (`src/emitter/project_output/functions.inc`)

The C++ function written for each guest function, run item by item. A `Config` is a point of its
control flow with the runners that called it on the stack; `Runner.step` is one item, one entry or one
return. `patches` is the patch registry: what `find_patch` finds for a state and a pc is a hook, whose
call gives the runner's result and the state it leaves.
-/

namespace Psprism

/-- A hook, and where it is found. -/
abbrev Patches := State → Word → Option (State → Bool × State)

def noPatches : Patches := fun _ _ => none

/-- A runner that waits for a native call. -/
structure Frame where
  start : Word
  returnLabel : Option Word
  delayedTarget : Word
deriving DecidableEq

inductive Config
  /-- The call of the runner of `start` with `entry_pc`. -/
  | entering (start entryPc : Word) (stack : List Frame) (s : State)
  /-- Before the first of the items left of the body of `start`. -/
  | code (start : Word) (items : List Item) (applyDelayedBranch : Bool) (delayedTarget : Word)
      (stack : List Frame) (s : State)
  | returned (result : Bool) (stack : List Frame) (s : State)

namespace Config

def state : Config → State
  | entering _ _ _ s => s
  | code _ _ _ _ _ s => s
  | returned _ _ s => s

/-- The item about to run. -/
def current : Config → Option Item
  | code _ (i :: _) _ _ _ _ => some i
  | _ => none

/-- What the dispatcher's call has returned. -/
def result? : Config → Option Bool
  | returned result [] _ => some result
  | _ => none

theorem eq_of_result {c : Config} {result : Bool} (h : c.result? = some result) :
    c = .returned result [] c.state := by
  unfold result? at h
  split at h
  · rw [Option.some.inj h]
    rfl
  · cases h

end Config

/-- The statement of an item with the stores of the pc and of register zero around it. -/
def Item.exec (H : Host) (i : Item) (s : State) : State :=
  let currentPc := s.memoryBase + i.pc
  let s := if i.storesPc then s.setPc (s.memoryBase + (i.pc + 4)) else s
  let s := i.code.exec H currentPc s
  if i.code.writesZero then s.resetZero else s

namespace Runner
variable (H : Host) (P : Project) (patches : Patches)

/-- The edge inside the function, or the return to the dispatcher. -/
def gotoEdge (start : Word) (i : Item) (delayedTarget : Word) (stack : List Frame) (s : State) : Config :=
  match i.gotoTarget with
  | some target =>
    if delayedTarget = s.memoryBase + target then
      .code start (P.label start target) false delayedTarget stack s
    else .returned true stack s
  | none => .returned true stack s

/-- Behind a delay slot whose branch is taken. -/
def delayedBranch (start : Word) (i : Item) (delayedTarget : Word) (stack : List Frame) (s : State) :
    Config :=
  let s := s.setPc delayedTarget
  match i.nativeEdge with
  | .call function returnLabel =>
    if delayedTarget = s.memoryBase + function then
      .entering function delayedTarget (⟨start, returnLabel, delayedTarget⟩ :: stack) s
    else gotoEdge P start i delayedTarget stack s
  | .tail function =>
    if delayedTarget = s.memoryBase + function then .entering function delayedTarget stack s
    else gotoEdge P start i delayedTarget stack s
  | .none => gotoEdge P start i delayedTarget stack s

/-- Falling out of an item. -/
def fallThrough (start : Word) (i : Item) (rest : List Item) (applyDelayedBranch : Bool)
    (delayedTarget : Word) (stack : List Frame) (s : State) : Config :=
  if i.hasNext then .code start rest applyDelayedBranch delayedTarget stack s
  else .returned true stack s

/-- What follows the statement of an item. -/
def afterItem (start : Word) (i : Item) (rest : List Item) (applyDelayedBranch : Bool)
    (delayedTarget : Word) (stack : List Frame) (s : State) : Config :=
  if i.mayStop ∧ s.stopReason ≠ .running then .returned true stack s
  else if i.isDelaySlot ∧ applyDelayedBranch then delayedBranch P start i delayedTarget stack s
  else if i.isControl then
    if s.pc ≠ s.memoryBase + (i.pc + 4) then .returned true stack s
    -- the branch is pending in the two locals from here to the end of the delay slot
    else if i.hasNext then
      .code start rest s.branchPending s.branchTarget stack (s.setPending false)
    else .returned true stack s
  else fallThrough start i rest applyDelayedBranch delayedTarget stack s

/-- The caller goes on behind the call when the callee came back there. -/
def afterCall (frame : Frame) (stack : List Frame) (s : State) : Config :=
  if s.stopReason ≠ .running then .returned true stack s
  else
    match frame.returnLabel with
    | some returnPc =>
      if !s.branchPending ∧ s.pc = s.memoryBase + returnPc then
        .code frame.start (P.label frame.start returnPc) false frame.delayedTarget stack s
      else .returned true stack s
    | none => .returned true stack s

/-- The runner's `switch`; `branch_pending` is cleared before it. -/
def enter (start entryPc : Word) (stack : List Frame) (s : State) : Config :=
  match P.label start (entryPc - s.memoryBase) with
  | [] => .returned false stack (s.setPending false)
  | i :: rest =>
    .code start (i :: rest) s.branchPending s.branchTarget stack (s.setPending false)

def step : Config → Option Config
  | .entering start entryPc stack s =>
    match patches s entryPc with
    | some hook => some (.returned (hook s).1 stack (hook s).2)
    | none => some (enter P start entryPc stack s)
  | .code start (i :: rest) applyDelayedBranch delayedTarget stack s =>
    some (afterItem P start i rest applyDelayedBranch delayedTarget stack (i.exec H s))
  | .code _ [] _ _ _ _ => none
  | .returned _ [] _ => none
  | .returned true (frame :: stack) s => some (afterCall P frame stack s)
  | .returned false (_ :: stack) s => some (.returned false stack s)

end Runner

end Psprism
