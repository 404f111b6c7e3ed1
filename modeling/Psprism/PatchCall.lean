import Mathlib.Logic.Relation
import Psprism.Dispatch
import Psprism.PatchArguments

/-!
# Calls of game functions from patches (`include/psprecomp/patch.hpp`)

A hook is host code: it works on the guest's state and calls game functions, which run translated code and may come to
hooks again. `Calls X n` are the calls that nest at most `n` deep. Whatever the exit it takes, a call gives the caller
back its stack pointer, return address, pc and pending branch, and the guards give it back its active and bypassed
patch; the stop reason is the caller's again unless the call has stopped (`call_restores`).
-/

namespace Psprism.Patch

inductive CallError
  | none | noActiveState | invalidAddress | unmappedPointer | stackFault | executionFailed
deriving DecidableEq

/-- The variables of the thread; a patch is told by its address. `activeState` is whether the state is active. -/
structure Bridge where
  activeState : Bool := false
  activePatch : Option Nat := none
  activePatchAddress : Word := 0
  bypassedPatch : Option Nat := none
  lastCallError : CallError := .none

structure World where
  bridge : Bridge
  state : State

def World.withError (w : World) (error : CallError) : World :=
  { w with bridge := { w.bridge with lastCallError := error } }

/-- `call_game_function`, `call_original_game_function` and `call_original`. -/
inductive Callee
  | function (target : GuestAddress)
  | originalFunction (target : GuestAddress)
  | original

/-- A call with its arguments; the type of the result is `none` for `void`. -/
structure CallRequest where
  callee : Callee
  args : List Passed
  ret : Option Argument

/-- What a hook does: host code, calls, and the result. -/
inductive HookCode
  | finish (handled : Bool)
  | work (f : State → State) (next : State → HookCode)
  | call (request : CallRequest) (next : Option Passed → CallError → State → HookCode)

/-- A translated game with its patches; `functionSymbol` is the generated one. -/
structure Guest where
  H : Host
  project : Project
  importEffects : Word → State → State
  functionSymbol : Word → Option String
  patches : List (PatchNode HookCode)
  hostAddress : Region → Nat

namespace Guest

def program (X : Guest) (patches : Patches) : Program := ⟨X.H, X.project, patches, X.importEffects⟩

end Guest

/-! ### One call -/

/-- `failed_call_result`. -/
def failedCallResult (ret : Option Argument) : Option Passed :=
  ret.map fun a =>
    ⟨a, match a with
      | .integer bits _ => (0 : BitVec bits)
      | .float => (0 : Word)
      | .pointer _ => none
      | .wide => (0 : BitVec 64)⟩

def extractReturn (s : State) : Option Argument → Option Passed × State
  | none => (none, s)
  | some .float => (some ⟨.float, s.fpr 0⟩, s)
  | some (.pointer width) =>
    if s.gpr 2 = 0 then (some ⟨.pointer width, none⟩, s)
    else
      match guestToHost s (s.gpr 2) width with
      | (some p, s) => (some ⟨.pointer width, some p⟩, s)
      | (none, s) => (some ⟨.pointer width, none⟩, noteMemoryFault s (s.gpr 2))
  | some .wide => (some ⟨.wide, (s.gpr 2).setWidth 64 ||| (s.gpr 3).setWidth 64 <<< 32⟩, s)
  | some (.integer bits fits) => (some ⟨.integer bits fits, (s.gpr 2).setWidth bits⟩, s)

/-- The fields that are put back from `saved` at every exit. -/
def restoreCaller (saved s : State) : State :=
  { (s.setGpr 29 (saved.gpr 29)).setGpr 31 (saved.gpr 31) with
    pc := saved.pc
    branchPending := saved.branchPending
    branchTarget := saved.branchTarget }

/-- How the first half of a call ends. `faulted` has the state in which a store to the stack left the guest. -/
inductive Begun
  | refused (error : CallError) (s : State)
  | faulted (fault s : State)
  | ready (s : State)

/-- The bytes a call takes from the stack, a multiple of sixteen. -/
def stackBytes (types : List Argument) : Word := BitVec.ofNat 32 ((stackWordsForArguments types * 4 + 15) / 16 * 16)

/-- The state that the arguments are injected into. -/
def callFrame (saved : State) (types : List Argument) : State :=
  let s := if stackBytes types ≠ 0 then saved.setGpr 29 (saved.gpr 29 - stackBytes types) else saved
  { s with stopReason := .running }

/-- The tests of a call after the injection. -/
def afterInjection (saved : State) (target : Word) (s : State) (argumentsValid : Bool) : Begun :=
  if s.stopReason ≠ .running then .faulted s (restoreCaller saved s)
  else if !argumentsValid then
    .refused .unmappedPointer { restoreCaller saved s with stopReason := saved.stopReason }
  else .ready { s.setGpr 31 0xfffffff8 with pc := target, branchPending := false }

/-- `call_game_function_impl` up to the execution. -/
def beginCall (hostAddress : Region → Nat) (saved : State) (guestTarget : GuestAddress) (args : List Passed) :
    Begun :=
  match resolveAddress saved guestTarget with
  | none => .refused .invalidAddress saved
  | some target =>
    if stackBytes (types args) ≠ 0 ∧ saved.gpr 29 < stackBytes (types args) then .refused .stackFault saved
    else
      let (s, argumentsValid) := injectArguments hostAddress (callFrame saved (types args)) args
      afterInjection saved target s argumentsValid

/-- The exits of a call: before anything ran, where the guest stopped in the state `fault`, and with a result. -/
inductive CallExit
  | refused
  | stopped (fault : State)
  | returned

/-- `call_game_function_impl` from the execution on. -/
def endCall (saved : State) (ret : Option Argument) (executed : Bool) (s : State) :
    CallExit × CallError × Option Passed × State :=
  let (result, s) := if executed then extractReturn s ret else (failedCallResult ret, s)
  if !executed then (.stopped s, .executionFailed, failedCallResult ret, restoreCaller saved s)
  else if s.stopReason ≠ .running then (.stopped s, .unmappedPointer, failedCallResult ret, restoreCaller saved s)
  else (.returned, .none, result, { restoreCaller saved s with stopReason := saved.stopReason })

/-- The target of a call and the patch that it bypasses; `call_original` needs an active patch. -/
def Guest.resolveCallee (X : Guest) (w : World) : Callee → Option (GuestAddress × Option Nat)
  | .function target => some (target, none)
  | .originalFunction target =>
    let resolved := if w.bridge.activeState then resolveAddress w.state target else none
    let own := if SameTarget resolved w.bridge.activePatchAddress then w.bridge.activePatch else none
    let found := resolved.bind fun address => findPatch X.patches w.bridge.bypassedPatch w.state address none
    some (target, own.or (found.map (·.address)))
  | .original =>
    if w.bridge.activeState then
      w.bridge.activePatch.map fun p => (⟨w.bridge.activePatchAddress, .absolute⟩, some p)
    else none

/-- What the calls of a hook can do: with a request, from a world to a world. -/
abbrev CallRelation := CallRequest → World → CallExit → Option Passed → World → Prop

/-- A call; `Executes` tells what `execute_function_at` does. The guard of the bypassed patch stands around it. -/
inductive Call (X : Guest) (Executes : World → Bool → World → Prop) : CallRelation
  | noOriginal {request w} (h : X.resolveCallee w request.callee = none) :
    Call X Executes request w .refused (failedCallResult request.ret) (w.withError .noActiveState)
  | noActiveState {request w target bypass} (h : X.resolveCallee w request.callee = some (target, bypass))
      (hactive : w.bridge.activeState = false) :
    Call X Executes request w .refused (failedCallResult request.ret) (w.withError .noActiveState)
  | refused {request w target bypass error s} (h : X.resolveCallee w request.callee = some (target, bypass))
      (hactive : w.bridge.activeState = true)
      (hbegin : beginCall X.hostAddress w.state target request.args = .refused error s) :
    Call X Executes request w .refused (failedCallResult request.ret) (World.withError { w with state := s } error)
  | faulted {request w target bypass fault s} (h : X.resolveCallee w request.callee = some (target, bypass))
      (hactive : w.bridge.activeState = true)
      (hbegin : beginCall X.hostAddress w.state target request.args = .faulted fault s) :
    Call X Executes request w (.stopped fault) (failedCallResult request.ret)
      (World.withError { w with state := s } .stackFault)
  | executed {request w target bypass s executed w'} {callExit : CallExit} {error result s'}
      (h : X.resolveCallee w request.callee = some (target, bypass)) (hactive : w.bridge.activeState = true)
      (hbegin : beginCall X.hostAddress w.state target request.args = .ready s)
      (hrun : Executes ⟨{ w.bridge with bypassedPatch := bypass }, s⟩ executed w')
      (hend : endCall w.state request.ret executed w'.state = (callExit, error, result, s')) :
    Call X Executes request w callExit result
      ⟨{ w'.bridge with bypassedPatch := w.bridge.bypassedPatch, lastCallError := error }, s'⟩

/-! ### Hooks -/

inductive HookRun (R : CallRelation) : HookCode → World → Bool → World → Prop
  | finish {handled w} : HookRun R (.finish handled) w handled w
  | work {f next w handled w'} (h : HookRun R (next (f w.state)) { w with state := f w.state } handled w') :
    HookRun R (.work f next) w handled w'
  | call {request next w callExit result w₁ handled w'} (hcall : R request w callExit result w₁)
      (h : HookRun R (next result w₁.bridge.lastCallError w₁.state) w₁ handled w') :
    HookRun R (.call request next) w handled w'

/-- `invoke_patch`, with the guard of the active patch around the hook. -/
inductive Invoke (R : CallRelation) (p : PatchNode HookCode) (actualAddress : Word) :
    World → Bool → World → Prop
  | noHook {w} (h : p.hook = none) : Invoke R p actualAddress w false w
  | hook {w code handled w'} (h : p.hook = some code)
      (hrun : HookRun R code
        { w with
          bridge :=
            { w.bridge with
              activeState := true, activePatch := some p.address, activePatchAddress := actualAddress } }
        handled w') :
    Invoke R p actualAddress w handled
      { w' with
        bridge :=
          { w'.bridge with
            activeState := w.bridge.activeState
            activePatch := w.bridge.activePatch
            activePatchAddress := w.bridge.activePatchAddress } }

/-! ### The guest runs -/

def phaseState : Phase → State
  | .loop _ _ s => s
  | .runner _ _ _ c => c.state
  | .done s => s

/-- The patch that is found where a phase looks for one, and the pc it is found for. -/
def Guest.patchAt (X : Guest) (bridge : Bridge) : Phase → Option (PatchNode HookCode × Word)
  | .loop (_ + 1) _ s =>
    (findPatch X.patches bridge.bypassedPatch s s.pc (X.functionSymbol (s.pc - s.memoryBase))).map (·, s.pc)
  | .runner _ _ _ (.entering start entryPc _ s) =>
    let functionName := if entryPc = s.memoryBase + start then X.functionSymbol start else none
    (findPatch X.patches bridge.bypassedPatch s entryPc functionName).map (·, entryPc)
  | _ => none

/-- Where a loop returns, and whether it has reached its return address. -/
def endOf (exit : LoopExit) : Phase → Option (Bool × State)
  | .loop (_ + 1) _ s =>
    if s.pc = exit.returnAddress ∧ s.branchPending = false then some (true, exit.onReturn s) else none
  | .done s => some (false, s)
  | _ => none

/-- A step of the guest, with the call of the hook it comes to. -/
inductive GuestStep (X : Guest) (R : CallRelation) (exit : LoopExit) : Bridge × Phase → Bridge × Phase → Prop
  | plain {bridge phase phase'} (hopen : endOf exit phase = none) (hpatch : X.patchAt bridge phase = none)
      (hstep : (X.program noPatches).step exit phase = some phase') :
    GuestStep X R exit (bridge, phase) (bridge, phase')
  | hooked {bridge phase phase' p pc handled w'} (hopen : endOf exit phase = none)
      (hpatch : X.patchAt bridge phase = some (p, pc))
      (hinvoke : Invoke R p pc ⟨bridge, phaseState phase⟩ handled w')
      (hstep : (X.program fun _ _ => some fun _ => (handled, w'.state)).step exit phase = some phase') :
    GuestStep X R exit (bridge, phase) (w'.bridge, phase')

/-- `execute_function_at` with `DEFAULT_CALL_BLOCK_LIMIT`, from the pc of the state. -/
def Executes (X : Guest) (R : CallRelation) (w : World) (executed : Bool) (w' : World) : Prop :=
  ∃ cache phase,
    Relation.ReflTransGen (GuestStep X R .executeFunctionAt) (w.bridge, .loop 10000000 cache w.state)
        (w'.bridge, phase) ∧
      endOf .executeFunctionAt phase = some (executed, w'.state)

/-- The calls that nest at most `n` deep. -/
def Calls (X : Guest) : Nat → CallRelation
  | 0 => fun _ _ _ _ _ => False
  | n + 1 => Call X (Executes X (Calls X n))

/-! ### Guards -/

/-- What the guards put back. -/
structure SameGuards (b b' : Bridge) : Prop where
  activeState : b'.activeState = b.activeState
  activePatch : b'.activePatch = b.activePatch
  activePatchAddress : b'.activePatchAddress = b.activePatchAddress
  bypassedPatch : b'.bypassedPatch = b.bypassedPatch

namespace SameGuards
variable {b b₁ b₂ : Bridge}

theorem refl (b : Bridge) : SameGuards b b := ⟨rfl, rfl, rfl, rfl⟩

theorem trans (h₁ : SameGuards b b₁) (h₂ : SameGuards b₁ b₂) : SameGuards b b₂ :=
  ⟨h₂.1.trans h₁.1, h₂.2.trans h₁.2, h₂.3.trans h₁.3, h₂.4.trans h₁.4⟩

end SameGuards

section
variable {X : Guest} {R : CallRelation}

theorem HookRun.guards {code : HookCode} {w w' : World} {handled : Bool}
    (hR : ∀ request w callExit result w', R request w callExit result w' → SameGuards w.bridge w'.bridge)
    (h : HookRun R code w handled w') : SameGuards w.bridge w'.bridge := by
  induction h with
  | finish => exact .refl _
  | work _ ih => exact ih
  | call hcall _ ih => exact (hR _ _ _ _ _ hcall).trans ih

theorem Invoke.guards {p : PatchNode HookCode} {pc : Word} {w w' : World} {handled : Bool}
    (hR : ∀ request w callExit result w', R request w callExit result w' → SameGuards w.bridge w'.bridge)
    (h : Invoke R p pc w handled w') : SameGuards w.bridge w'.bridge := by
  cases h with
  | noHook _ => exact .refl _
  | hook _ hrun => exact ⟨rfl, rfl, rfl, (hrun.guards hR).bypassedPatch⟩

theorem GuestStep.guards {exit : LoopExit} {a b : Bridge × Phase}
    (hR : ∀ request w callExit result w', R request w callExit result w' → SameGuards w.bridge w'.bridge)
    (h : GuestStep X R exit a b) : SameGuards a.1 b.1 := by
  cases h with
  | plain _ _ _ => exact .refl _
  | hooked _ _ hinvoke _ => exact hinvoke.guards hR

theorem guards_of_run {exit : LoopExit} {a b : Bridge × Phase}
    (hR : ∀ request w callExit result w', R request w callExit result w' → SameGuards w.bridge w'.bridge)
    (h : Relation.ReflTransGen (GuestStep X R exit) a b) : SameGuards a.1 b.1 := by
  induction h with
  | refl => exact .refl _
  | tail _ hstep ih => exact ih.trans (hstep.guards hR)

theorem Executes.guards {w w' : World} {executed : Bool}
    (hR : ∀ request w callExit result w', R request w callExit result w' → SameGuards w.bridge w'.bridge)
    (h : Executes X R w executed w') : SameGuards w.bridge w'.bridge := by
  obtain ⟨cache, phase, hsteps, -⟩ := h
  exact guards_of_run hR hsteps

end

/-! ### The stop reason -/

theorem afterDispatch_done {X : Program} {remaining : Nat} {cache : DispatchCache} {pc : Word}
    {result : Bool × State} {s : State} (h : X.afterDispatch remaining cache pc result = .done s) :
    s.stopReason ≠ .running := by
  obtain ⟨translated, t⟩ := result
  rw [Program.afterDispatch] at h
  split at h
  · split at h
    · cases h
    next hstop => obtain rfl := Phase.done.inj h; exact hstop
  split at h
  next s' _ =>
    obtain rfl := Phase.done.inj h
    split
    · exact fun hstop => StopReason.noConfusion hstop
    next hstop => exact hstop
  next s' _ =>
    split at h
    · cases h
    next hstop => obtain rfl := Phase.done.inj h; exact hstop

theorem dispatchBlock_done {X : Program} {remaining : Nat} {cache : DispatchCache} {s t : State} {pc : Word}
    (h : X.dispatchBlock remaining cache s pc = .done t) : t.stopReason ≠ .running := by
  rw [Program.dispatchBlock] at h
  split at h
  · exact afterDispatch_done h
  split at h
  · exact afterDispatch_done h
  dsimp only at h
  split at h
  · cases h
  split at h
  · cases h
  · exact afterDispatch_done h

/-- A loop that stops before its return address has a reason. -/
theorem step_done {X : Program} {exit : LoopExit} {phase : Phase} {s : State} (hopen : endOf exit phase = none)
    (h : X.step exit phase = some (.done s)) : s.stopReason ≠ .running := by
  cases phase with
  | done t => cases h
  | loop remaining cache t =>
    cases remaining with
    | zero =>
      obtain rfl := Phase.done.inj (Option.some.inj h)
      exact fun hstop => StopReason.noConfusion hstop
    | succ remaining =>
      rw [endOf] at hopen
      split at hopen
      · cases hopen
      next hreturn =>
        rw [Program.step, if_neg hreturn] at h
        exact dispatchBlock_done (Option.some.inj h)
  | runner remaining cache pc c =>
    rw [Program.step] at h
    split at h
    · cases h
    · obtain ⟨result, -, hdone⟩ := Option.map_eq_some_iff.1 h
      exact afterDispatch_done hdone

theorem Executes.stopReason {X : Guest} {R : CallRelation} {w w' : World} (h : Executes X R w false w') :
    w'.state.stopReason ≠ .running := by
  obtain ⟨cache, phase, hsteps, hend⟩ := h
  have hphase : phase = .done w'.state := by
    unfold endOf at hend
    split at hend
    · split at hend
      · obtain ⟨hfalse, -⟩ := Prod.mk.inj (Option.some.inj hend)
        cases hfalse
      · cases hend
    · obtain ⟨-, hstate⟩ := Prod.mk.inj (Option.some.inj hend)
      rw [hstate]
    · cases hend
  subst hphase
  generalize hb : (w'.bridge, Phase.done w'.state) = b at hsteps
  rcases Relation.ReflTransGen.cases_tail hsteps with heq | ⟨a, -, hstep⟩
  · obtain ⟨-, hloop⟩ := Prod.mk.inj (hb.trans heq)
    cases hloop
  · cases hstep with
    | plain hopen _ hstep =>
      obtain ⟨-, rfl⟩ := Prod.mk.inj hb
      exact step_done hopen hstep
    | hooked hopen _ _ hstep =>
      obtain ⟨-, rfl⟩ := Prod.mk.inj hb
      exact step_done hopen hstep

/-! ### What a call leaves -/

/-- The fields of the caller. -/
structure Restored (saved s : State) : Prop where
  sp : s.gpr 29 = saved.gpr 29
  ra : s.gpr 31 = saved.gpr 31
  pc : s.pc = saved.pc
  branchPending : s.branchPending = saved.branchPending
  branchTarget : s.branchTarget = saved.branchTarget

theorem Restored.refl (s : State) : Restored s s := ⟨rfl, rfl, rfl, rfl, rfl⟩

theorem restored_restoreCaller (saved s : State) : Restored saved (restoreCaller saved s) where
  sp := by
    show Function.update (Function.update s.gpr 29 (saved.gpr 29)) 31 (saved.gpr 31) 29 = saved.gpr 29
    rw [Function.update_of_ne (by decide), Function.update_self]
  ra := by simp [restoreCaller]
  pc := rfl
  branchPending := rfl
  branchTarget := rfl

/-- The stop reason after a call: the caller's, unless the guest has stopped, and then the fault. -/
def StopKept (saved : State) : CallExit → State → Prop
  | .refused, s => s.stopReason = saved.stopReason
  | .stopped fault, s =>
    fault.stopReason ≠ .running ∧ s.stopReason = fault.stopReason ∧ s.faultAddress = fault.faultAddress ∧
      s.faultInstruction = fault.faultInstruction ∧ s.faultPc = fault.faultPc
  | .returned, s => s.stopReason = saved.stopReason

section
variable {hostAddress : Region → Nat} {saved s fault : State} {target : GuestAddress} {args : List Passed}
  {error : CallError}

theorem afterInjection_refused {target : Word} {t : State} {valid : Bool}
    (h : afterInjection saved target t valid = .refused error s) :
    error ≠ .none ∧ Restored saved s ∧ StopKept saved .refused s := by
  rw [afterInjection] at h
  split at h
  · cases h
  split at h
  · cases h
    obtain ⟨hsp, hra, hpc, hpending, htarget⟩ := restored_restoreCaller saved t
    exact ⟨by simp, ⟨hsp, hra, hpc, hpending, htarget⟩, rfl⟩
  · cases h

theorem afterInjection_faulted {target : Word} {t : State} {valid : Bool}
    (h : afterInjection saved target t valid = .faulted fault s) :
    Restored saved s ∧ StopKept saved (.stopped fault) s := by
  rw [afterInjection] at h
  split at h
  next hstop =>
    cases h
    exact ⟨restored_restoreCaller _ _, hstop, rfl, rfl, rfl, rfl⟩
  split at h
  · cases h
  · cases h

/-- How a call ends that does not come to run. -/
theorem beginCall_refused (h : beginCall hostAddress saved target args = .refused error s) :
    error ≠ .none ∧ Restored saved s ∧ StopKept saved .refused s := by
  rw [beginCall] at h
  split at h
  · cases h
    exact ⟨by simp, .refl _, rfl⟩
  split at h
  · cases h
    exact ⟨by simp, .refl _, rfl⟩
  · exact afterInjection_refused h

theorem beginCall_faulted (h : beginCall hostAddress saved target args = .faulted fault s) :
    Restored saved s ∧ StopKept saved (.stopped fault) s := by
  rw [beginCall] at h
  split at h
  · cases h
  split at h
  · cases h
  · exact afterInjection_faulted h

end

/-- How a call ends that has run. -/
theorem endCall_spec {saved s s' : State} {ret : Option Argument} {executed : Bool} {callExit : CallExit}
    {error : CallError} {result : Option Passed} (hstop : executed = false → s.stopReason ≠ .running)
    (h : endCall saved ret executed s = (callExit, error, result, s')) :
    (callExit = .returned ↔ error = .none) ∧ Restored saved s' ∧ StopKept saved callExit s' := by
  cases executed with
  | false =>
    cases h
    exact ⟨by simp, restored_restoreCaller _ _, hstop rfl, rfl, rfl, rfl, rfl⟩
  | true =>
    rw [endCall] at h
    simp only [if_true, Bool.not_true, Bool.false_eq_true, if_false] at h
    split at h
    next hfault =>
      cases h
      exact ⟨by simp, restored_restoreCaller _ _, hfault, rfl, rfl, rfl, rfl⟩
    next =>
      cases h
      obtain ⟨hsp, hra, hpc, hpending, htarget⟩ := restored_restoreCaller saved (extractReturn s ret).2
      exact ⟨by simp, ⟨hsp, hra, hpc, hpending, htarget⟩, rfl⟩

theorem Call.spec {X : Guest} {E : World → Bool → World → Prop}
    (hguards : ∀ w executed w', E w executed w' → SameGuards w.bridge w'.bridge)
    (hstop : ∀ w w', E w false w' → w'.state.stopReason ≠ .running) {request : CallRequest} {w w' : World}
    {callExit : CallExit} {result : Option Passed} (h : Call X E request w callExit result w') :
    Restored w.state w'.state ∧ SameGuards w.bridge w'.bridge ∧ StopKept w.state callExit w'.state ∧
      (callExit = .returned ↔ w'.bridge.lastCallError = .none) := by
  cases h with
  | noOriginal _ => exact ⟨.refl _, ⟨rfl, rfl, rfl, rfl⟩, rfl, by simp [World.withError]⟩
  | noActiveState _ _ => exact ⟨.refl _, ⟨rfl, rfl, rfl, rfl⟩, rfl, by simp [World.withError]⟩
  | refused _ _ hbegin =>
    obtain ⟨herror, hrestored, hkept⟩ := beginCall_refused hbegin
    exact ⟨hrestored, ⟨rfl, rfl, rfl, rfl⟩, hkept, by simpa [World.withError] using herror⟩
  | faulted _ _ hbegin =>
    obtain ⟨hrestored, hkept⟩ := beginCall_faulted hbegin
    exact ⟨hrestored, ⟨rfl, rfl, rfl, rfl⟩, hkept, by simp [World.withError]⟩
  | executed _ _ _ hrun hend =>
    have hbridge := hguards _ _ _ hrun
    obtain ⟨herror, hrestored, hkept⟩ := endCall_spec (fun hfalse => hstop _ _ (hfalse ▸ hrun)) hend
    exact ⟨hrestored, ⟨hbridge.activeState, hbridge.activePatch, hbridge.activePatchAddress, rfl⟩, hkept, herror⟩

/-- Calls that nest to any depth leave the guards as they were. -/
theorem calls_guards {X : Guest} {n : Nat} {request : CallRequest} {w w' : World} {callExit : CallExit}
    {result : Option Passed} (h : Calls X n request w callExit result w') : SameGuards w.bridge w'.bridge := by
  induction n generalizing request w w' callExit result with
  | zero => cases h
  | succ n ih =>
    have hspec := Call.spec (fun _ _ _ hrun => hrun.guards fun _ _ _ _ _ => ih) (fun _ _ hrun => hrun.stopReason) h
    exact hspec.2.1

/-- A call that nests calls to any depth gives the caller back its registers, its pending branch and its patches. -/
theorem call_restores (X : Guest) (n : Nat) (request : CallRequest) (w w' : World) (callExit : CallExit)
    (result : Option Passed) (h : Calls X n request w callExit result w') :
    Restored w.state w'.state ∧ SameGuards w.bridge w'.bridge ∧ StopKept w.state callExit w'.state ∧
      (callExit = .returned ↔ w'.bridge.lastCallError = .none) := by
  cases n with
  | zero => cases h
  | succ n =>
    exact Call.spec (fun _ _ _ hrun => hrun.guards fun _ _ _ _ _ => calls_guards) (fun _ _ hrun => hrun.stopReason) h

/-! ### A hook that calls a function -/

/-- A call of the address that calls return to. -/
def returnRequest : CallRequest := ⟨.function ⟨0xfffffff8, .absolute⟩, [], none⟩

/-- A patch whose hook makes the call and returns to the caller of the patched function. -/
def callingPatch : PatchNode HookCode where
  address := 1
  target := ⟨0x08900000, .absolute⟩
  hook := some (.call returnRequest fun _ _ _ =>
    .work (fun s => { s with pc := s.gpr 31, branchPending := false }) fun _ => .finish true)

/-- A game of patches only. -/
def patchedGuest : Guest where
  H := zeroOperandHost
  project := ⟨{ entry := 0, executableSections := [], loadSegments := [] }, [], [], 4⟩
  importEffects _ s := s
  functionSymbol _ := none
  patches := [callingPatch]
  hostAddress _ := 0

/-- What a call of that address leaves. -/
def afterReturn (w : World) : World :=
  ⟨{ w.bridge with lastCallError := .none },
    { restoreCaller w.state (({ w.state with stopReason := .running } : State).setGpr 31 0xfffffff8) with
      stopReason := w.state.stopReason }⟩

theorem calls_return (X : Guest) (n : Nat) {w : World} (hactive : w.bridge.activeState = true) :
    Calls X (n + 1) returnRequest w .returned none (afterReturn w) := by
  exact @Call.executed X _ returnRequest w _ _ _ _ ⟨{ w.bridge with bypassedPatch := none }, _⟩ _ _ _ _
    rfl hactive rfl ⟨fun _ => none, _, .refl, rfl⟩ rfl

/-- The world of a patch that is active. -/
def patchWorld : World where
  bridge := { activeState := true, activePatch := some 7, activePatchAddress := 0x08804000 }
  state := { pc := 0x08804000, branchPending := true, gpr := fun r => BitVec.setWidth 32 r }

theorem invoke_callingPatch (w : World) :
    ∃ w', Invoke (Calls patchedGuest 1) callingPatch 0x08900000 w true w' ∧ w'.state.pc = w.state.gpr 31 ∧
      w'.state.branchPending = false ∧ w'.state.stopReason = w.state.stopReason :=
  ⟨_, .hook rfl (.call (calls_return patchedGuest 0 rfl) (.work .finish)), by simp [afterReturn, restoreCaller], rfl,
    rfl⟩

/-- The hook's call returns to the hook, and the hook to its caller. -/
theorem call_restores_nested :
    ∃ w' callExit result,
      Calls patchedGuest 2 ⟨.function ⟨0x08900000, .absolute⟩, [], none⟩ patchWorld callExit result w' ∧
      Restored patchWorld.state w'.state ∧ SameGuards patchWorld.bridge w'.bridge ∧
      StopKept patchWorld.state callExit w'.state ∧ (callExit = .returned ↔ w'.bridge.lastCallError = .none) := by
  let s : State :=
    { ({ patchWorld.state with stopReason := .running } : State).setGpr 31 0xfffffff8 with
      pc := 0x08900000, branchPending := false }
  obtain ⟨w', hinvoke, hpc, hpending, hstop⟩ :=
    invoke_callingPatch ⟨{ patchWorld.bridge with bypassedPatch := none }, s⟩
  have hreturn : w'.state.pc = 0xfffffff8 := hpc
  have hstep : (patchedGuest.program fun _ _ => some fun _ => (true, w'.state)).step .executeFunctionAt
      (.loop 10000000 (fun _ => none) s) = some (.loop 9999999 (fun _ => none) w'.state) := by
    have hrunning : w'.state.stopReason = .running := hstop
    show some (if w'.state.stopReason = .running then Phase.loop 9999999 (fun _ => none) w'.state
      else .done w'.state) = _
    rw [if_pos hrunning]
  have hend : endOf .executeFunctionAt (.loop 9999999 (fun _ => none) w'.state) = some (true, w'.state) :=
    if_pos ⟨hreturn, hpending⟩
  have hfound : findPatch patchedGuest.patches none s 0x08900000 none = some callingPatch := by
    rw [findPatch, patchedGuest, List.find?_cons_of_pos (by decide), Option.some_or]
  have hpatch : patchedGuest.patchAt { patchWorld.bridge with bypassedPatch := none }
      (.loop 10000000 (fun _ => none) s) = some (callingPatch, 0x08900000) :=
    congrArg (Option.map fun p => (p, s.pc)) hfound
  have hexecutes : Executes patchedGuest (Calls patchedGuest 1)
      ⟨{ patchWorld.bridge with bypassedPatch := none }, s⟩ true w' :=
    ⟨fun _ => none, _, .single (.hooked rfl hpatch hinvoke hstep), hend⟩
  have hcall : Calls patchedGuest 2 ⟨.function ⟨0x08900000, .absolute⟩, [], none⟩ patchWorld _ _ _ :=
    .executed rfl rfl rfl hexecutes rfl
  exact ⟨_, _, _, hcall, call_restores patchedGuest 2 _ _ _ _ _ hcall⟩

end Psprism.Patch
