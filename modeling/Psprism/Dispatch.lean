import Psprism.Runner

/-!
# The dispatcher (`src/emitter/project_output/dispatch.inc`)

`dispatch_block` hands a pc to a hook, to the platform's import or to the runner of the function that
the pc lies in; the loops of `run` and `execute_function_at` call it until they reach their return
address, and interpret one instruction wherever it declines. A `Phase` is a point of such a loop. What
the platform does for an import is a parameter; the generated `dispatch_import` around it is not.
-/

namespace Psprism

/-- A translated program: the project with the host, the patch registry and, for each stub address,
what the platform does there. -/
structure Program where
  H : Host
  project : Project
  patches : Patches
  importEffects : Word → State → State

/-- `dispatch_cache`: pc and function by the low bits of the word index. -/
abbrev DispatchCache := BitVec 10 → Option (Word × Word)

/-- Where a loop over `dispatch_block` ends. -/
structure LoopExit where
  returnAddress : Word
  onReturn : State → State

/-- The exit of `run`. -/
def LoopExit.run (returnAddress : Word) : LoopExit where
  returnAddress
  onReturn s := { s with stopReason := .returned }

/-- The exit of `execute_function_at`, at `CALL_RETURN_SENTINEL`. -/
def LoopExit.executeFunctionAt : LoopExit where
  returnAddress := 0xfffffff8
  onReturn s := s

/-- `remaining` counts the iterations a loop has left. -/
inductive Phase
  | loop (remaining : Nat) (cache : DispatchCache) (s : State)
  /-- Inside `dispatch_block`, in a runner. -/
  | runner (remaining : Nat) (cache : DispatchCache) (currentPc : Word) (c : Config)
  | done (s : State)

/-- The item about to run. -/
def Phase.current : Phase → Option Item
  | .runner _ _ _ c => c.current
  | _ => none

namespace Project
variable (P : Project)

def functionRoutes : List Word := P.mappedFunctionStarts.filter P.isFunction

/-- The route of an offset and its index, by binary search. -/
def searchRoute (offset : Word) : Option (Word × Word) :=
  let first := (P.functionRoutes.takeWhile (· ≤ offset)).length
  if first = 0 then none
  else (P.functionRoutes[first - 1]?).map fun start => (start, BitVec.ofNat 32 (first - 1))

/-- The route the hint stands for, when the offset lies in its function. -/
def hintedRoute (offset hint : Word) : Option (Word × Word) :=
  match P.functionRoutes[hint.toNat]? with
  | none => none
  | some start =>
    if start ≤ offset ∧ (P.functionRoutes[hint.toNat + 1]?).all (offset < ·) then some (start, hint)
    else none

end Project

namespace Program
variable (X : Program)

/-- The generated `platform::dispatch_import`; `none` is its `default`. -/
def dispatchImport (s : State) (currentPc : Word) : Option State :=
  let stub := currentPc - s.memoryBase
  if X.project.isImportStub stub then
    let s := X.importEffects stub s
    some (s.setPc (s.gpr 31))
  else none

/-- The test of `dispatch_block` around it: no branch is pending and the offset lies between the first
and the last stub. -/
def tryImport (s : State) (currentPc : Word) : Option State :=
  let offset := currentPc - s.memoryBase
  let stubs := importStubs X.project.image
  if s.branchPending = false ∧ stubs.any (· ≤ offset) ∧ stubs.any (offset ≤ ·) then
    X.dispatchImport s currentPc
  else none

/-- What a loop does with the result of `dispatch_block`. -/
def afterDispatch (remaining : Nat) (cache : DispatchCache) (currentPc : Word)
    (result : Bool × State) : Phase :=
  let (translated, s) := result
  if translated then if s.stopReason = .running then .loop remaining cache s else .done s
  else
    match interpretAllegrex X.H s currentPc with
    | (false, s) =>
      .done (if s.stopReason = .running then
        { s with stopReason := .invalidPc, faultAddress := currentPc, faultPc := currentPc } else s)
    | (true, s) => if s.stopReason = .running then .loop remaining cache s else .done s

/-- `dispatch_block`, up to the call of a runner. -/
def dispatchBlock (remaining : Nat) (cache : DispatchCache) (s : State) (currentPc : Word) : Phase :=
  match X.patches s currentPc with
  | some hook => X.afterDispatch remaining cache currentPc (hook s)
  | none =>
    match X.tryImport s currentPc with
    | some s => X.afterDispatch remaining cache currentPc (true, s)
    | none =>
      let offset := currentPc - s.memoryBase
      let index : BitVec 10 := (offset >>> 2).setWidth 10
      match (cache index).filter fun entry => entry.1 = currentPc with
      | some (_, start) => .runner remaining cache currentPc (.entering start currentPc [] s)
      | none =>
        match (X.project.hintedRoute offset s.dispatchRouteHint).or (X.project.searchRoute offset) with
        | some (start, hint) =>
          .runner remaining (Function.update cache index (some (currentPc, start))) currentPc
            (.entering start currentPc [] { s with dispatchRouteHint := hint })
        | none => X.afterDispatch remaining cache currentPc (false, s)

/-- One step of a loop that ends at `exit`. -/
def step (exit : LoopExit) : Phase → Option Phase
  | .loop 0 _ s => some (.done { s with stopReason := .stepLimit })
  | .loop (remaining + 1) cache s =>
    if s.pc = exit.returnAddress ∧ s.branchPending = false then some (.done (exit.onReturn s))
    else some (X.dispatchBlock remaining cache s s.pc)
  | .runner remaining cache currentPc c =>
    match Runner.step X.H X.project X.patches c with
    | some c => some (.runner remaining cache currentPc c)
    | none => c.result?.map fun result => X.afterDispatch remaining cache currentPc (result, c.state)
  | .done _ => none

end Program

end Psprism
