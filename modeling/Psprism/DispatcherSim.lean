import Psprism.ImportStubs

/-!
# The dispatcher simulates the reference machine

The reference machine executes one instruction with the interpreter, or, at an import stub that no
branch is pending at, calls the platform. A loop over `dispatch_block` only ever reaches states of that
machine (`dispatcher_simulates`): runners, native calls, declined calls, the fallback and the platform
together. Three things are asked of the run: the words behind the items are still in guest memory, no
stub is met on an edge inside a runner, and a runner entered with a branch pending begins at the delay
slot.
-/

namespace Psprism

/-! ### How translated code stops -/

/-- What an instruction stops the CPU with. -/
def StopReason.isFault : StopReason → Bool
  | .memoryFault | .invalidPc | .unsupportedInstruction | .syscall => true
  | _ => false

/-- The CPU is as before or has stopped with one of the reasons. -/
def State.StopsFrom (reasons : StopReason → Bool) (s t : State) : Prop :=
  t.stopReason = s.stopReason ∨ reasons t.stopReason = true

namespace State.StopsFrom
variable {reasons : StopReason → Bool} {s t u : State}

theorem of_eq (h : t.stopReason = s.stopReason) : s.StopsFrom reasons t := Or.inl h

theorem trans (h₁ : s.StopsFrom reasons t) (h₂ : t.StopsFrom reasons u) : s.StopsFrom reasons u := by
  rcases h₂ with h₂ | h₂
  · rcases h₁ with h₁ | h₁
    · exact Or.inl (h₂.trans h₁)
    · exact Or.inr (by rw [h₂]; exact h₁)
  · exact Or.inr h₂

end State.StopsFrom

/-- The reasons include what valid words stop the CPU with. -/
structure StopReason.Ordinary (reasons : StopReason → Bool) : Prop where
  memoryFault : reasons .memoryFault = true
  syscall : reasons .syscall = true

theorem StopReason.ordinary_isFault : Ordinary StopReason.isFault := ⟨rfl, rfl⟩

section
variable {reasons : StopReason → Bool} (hreasons : StopReason.Ordinary reasons)
include hreasons

theorem FaultStep.stopsFrom {s t : State} (h : FaultStep s t) : s.StopsFrom reasons t := by
  rcases h.fault with ⟨h, -⟩ | ⟨h, -⟩
  · exact Or.inl h
  · exact Or.inr (by rw [h]; exact hreasons.memoryFault)

theorem executeVfpu_stopsFrom (H : Host) (s : State) (w currentPc : Word) :
    s.StopsFrom reasons (executeVfpu H s w currentPc) := by
  unfold executeVfpu
  split
  · unfold vfpuMove
    dsimp only
    split_ifs <;> exact .of_eq rfl
  · exact (load32_faultStep ..).stopsFrom hreasons
  · exact (store32_faultStep ..).stopsFrom hreasons
  · unfold vfpuLoadPart
    dsimp only
    split <;> exact (vfpuLoadLanes_faultStep ..).stopsFrom hreasons
  · unfold vfpuStorePart
    dsimp only
    split <;> exact (vfpuStoreLanes_faultStep ..).stopsFrom hreasons
  · exact (vfpuLoadLanes_faultStep ..).stopsFrom hreasons
  · exact (vfpuStoreLanes_faultStep ..).stopsFrom hreasons
  · exact .of_eq rfl
  · exact .of_eq rfl
  · exact .of_eq rfl

end

/-- A reserved word is among what the statement may run. -/
def Stmt.reserved : Stmt → Bool
  | .invalidPc => true
  | .seq a b => a.reserved || b.reserved
  | .ifThen _ a => a.reserved
  | .ifElse _ a b => a.reserved || b.reserved
  | .ifIdentity a b => a.reserved || b.reserved
  | _ => false

/-- The reasons include what the statement stops the CPU with. -/
def Stmt.StopsBy (reasons : StopReason → Bool) (p : Stmt) : Prop :=
  StopReason.Ordinary reasons ∧ (p.reserved = true → reasons .invalidPc = true)

theorem Stmt.StopsBy.isFault (p : Stmt) : p.StopsBy StopReason.isFault :=
  ⟨StopReason.ordinary_isFault, fun _ => rfl⟩

theorem Stmt.StopsBy.left {reasons : StopReason → Bool} {p a b : Stmt} (h : p.StopsBy reasons)
    (hp : p.reserved = (a.reserved || b.reserved)) : a.StopsBy reasons :=
  ⟨h.1, fun ha => h.2 (by rw [hp, ha, Bool.true_or])⟩

theorem Stmt.StopsBy.right {reasons : StopReason → Bool} {p a b : Stmt} (h : p.StopsBy reasons)
    (hp : p.reserved = (a.reserved || b.reserved)) : b.StopsBy reasons :=
  ⟨h.1, fun hb => h.2 (by rw [hp, hb, Bool.or_true])⟩

section
variable {reasons : StopReason → Bool} {H : Host}

/-- A statement stops the CPU for no other reason. -/
theorem Stmt.exec_stopsFrom {currentPc : Word} {p : Stmt} (hp : p.StopsBy reasons) (s : State) :
    s.StopsFrom reasons (p.exec H currentPc s) := by
  induction p generalizing s with
  | wide op rs rt => exact .of_eq (WideOp.exec_stopReason ..)
  | load op dest address => exact (dest.assign_faultStep (op.exec_faultStep ..)).stopsFrom hp.1
  | loadPart side dest address value => exact (dest.assign_faultStep (side.load_faultStep ..)).stopsFrom hp.1
  | store op address value => exact (op.exec_faultStep ..).stopsFrom hp.1
  | storePart side address value => exact (side.store_faultStep ..).stopsFrom hp.1
  | invalidPc => exact Or.inr (hp.2 rfl)
  | syscall => exact Or.inr hp.1.syscall
  | seq a b iha ihb => exact (iha (hp.left rfl) s).trans (ihb (hp.right rfl) _)
  | ifThen c a ih =>
    unfold Stmt.exec
    split
    · exact ih hp s
    · exact .of_eq rfl
  | ifElse c a b iha ihb =>
    unfold Stmt.exec
    split
    · exact iha (hp.left rfl) s
    · exact ihb (hp.right rfl) s
  | executeVfpu w pc => exact executeVfpu_stopsFrom hp.1 ..
  | ifIdentity a b iha ihb =>
    unfold Stmt.exec
    split
    · exact iha (hp.left rfl) s
    · exact ihb (hp.right rfl) s
  | _ => exact .of_eq rfl

theorem Item.exec_stopsFrom {i : Item} (hi : i.code.StopsBy reasons) (s : State) :
    s.StopsFrom reasons (i.exec H s) := by
  have hcode : ∀ t : State, t.StopsFrom reasons (i.code.exec H (s.memoryBase + i.pc) t) :=
    fun t => Stmt.exec_stopsFrom hi t
  have hstore : s.StopsFrom reasons (if i.storesPc then s.setPc (s.memoryBase + (i.pc + 4)) else s) := by
    split <;> exact .of_eq rfl
  unfold Item.exec
  dsimp only
  split
  · exact (hstore.trans (hcode _)).trans (.of_eq rfl)
  · exact hstore.trans (hcode _)

theorem Runner.step_stopsFrom {P : Project} {patches : Patches} {c c' : Config}
    (hhooks : ∀ s currentPc hook, patches s currentPc = some hook → s.StopsFrom reasons (hook s).2)
    (hitem : ∀ i, c.current = some i → i.code.StopsBy reasons)
    (hstep : step H P patches c = some c') : c.state.StopsFrom reasons c'.state := by
  cases c with
  | entering start entryPc stack s =>
    cases hfind : patches s entryPc with
    | some hook =>
      simp only [step, hfind] at hstep
      obtain rfl := Option.some.inj hstep
      exact hhooks s entryPc hook hfind
    | none =>
      simp only [step, hfind] at hstep
      obtain rfl := Option.some.inj hstep
      exact .of_eq (enter_stopReason ..)
  | code start items apply delayedTarget stack s =>
    cases items with
    | nil => cases hstep
    | cons i rest =>
      obtain rfl := Option.some.inj hstep
      exact (Item.exec_stopsFrom (hitem i rfl) s).trans (.of_eq (afterItem_stopReason ..))
  | returned result stack s =>
    cases stack with
    | nil => cases hstep
    | cons frame stack =>
      cases result with
      | false => obtain rfl := Option.some.inj hstep; exact .of_eq rfl
      | true =>
        obtain rfl := Option.some.inj hstep
        exact .of_eq (afterCall_stopReason ..)

end

/-! ### The reference machine -/

namespace Program
variable (X : Program)

def referenceStep (s : State) : Option State :=
  if s.branchPending = false ∧ X.project.isImportStub (s.pc - s.memoryBase) = true then
    X.dispatchImport s s.pc
  else interpretStep X.H s

/-- The machine gets from `s` to a state in `k` steps, up to the route that the dispatcher keeps in it. -/
inductive Reaches (s : State) : Nat → State → Prop
  | refl : Reaches s 0 s
  | step {k : Nat} {t u : State} (h : Reaches s k t) (hstep : X.referenceStep t = some u) :
    Reaches s (k + 1) u
  | route {k : Nat} {t : State} (h : Reaches s k t) (hint : Word) :
    Reaches s k { t with dispatchRouteHint := hint }

/-- How a loop of `maxSteps` iterations that ends at `exit` leaves the CPU. -/
inductive Ended (exit : LoopExit) (maxSteps : Nat) (s : State) : State → Prop
  | returned {k : Nat} {u : State} (h : X.Reaches s k u) (hpc : u.pc = exit.returnAddress)
    (hpending : u.branchPending = false) : Ended exit maxSteps s (exit.onReturn u)
  /-- Each iteration has taken a step. -/
  | stepLimit {k : Nat} {u : State} (h : X.Reaches s k u) (hk : maxSteps ≤ k) :
    Ended exit maxSteps s { u with stopReason := .stepLimit }
  | misaligned {k : Nat} {u : State} (h : X.Reaches s k u) (hpc : u.pc &&& 3 ≠ 0) :
    Ended exit maxSteps s { u with stopReason := .invalidPc, faultAddress := u.pc, faultPc := u.pc }
  /-- By the platform or in the fallback. -/
  | stopped {k : Nat} {t : State} (h : X.Reaches s k t) (hstop : t.stopReason ≠ .running) :
    Ended exit maxSteps s t
  /-- In a runner. -/
  | fault {t : State} (hstop : t.stopReason.isFault = true) : Ended exit maxSteps s t

end Program

/-! ### What is asked of a run -/

/-- A runner that is entered with a branch pending has a label at the pc, and it is the delay slot. -/
def Config.slotReady (P : Project) : Config → Bool
  | .entering start entryPc _ s =>
    ¬ s.branchPending ∨ (P.label start (entryPc - s.memoryBase)).head?.any (·.isDelaySlot)
  | _ => true

/-- The runner that the loop is in. -/
def Phase.config? : Phase → Option Config
  | .runner _ _ _ c => some c
  | _ => none

def Phase.Guarded (P : Project) (words : Word → Word) (p : Phase) : Prop :=
  p.avoidsStubs P = true ∧ ∀ c ∈ p.config?, Runner.HoldsWords words c ∧ c.slotReady P = true

/-! ### One dispatch -/

namespace Program
variable {X : Program} {exit : LoopExit} {maxSteps remaining : Nat} {s : State} {currentPc : Word}

/-- Where the call of `dispatch_block` for an iteration is; an item that is about to run is the step
that the iteration is still short of. -/
inductive Inside (X : Program) (s : State) (maxSteps remaining : Nat) (currentPc : Word) : Config → Prop
  | entering {k : Nat} {start : Word} {u : State} (h : X.Reaches s k u) (hk : maxSteps ≤ remaining + 1 + k)
    (hrun : u.stopReason = .running) (h0 : u.gpr 0 = 0) (hpc : u.pc = currentPc) :
    Inside X s maxSteps remaining currentPc (.entering start currentPc [] u)
  | declined {k : Nat} {u : State} (h : X.Reaches s k u) (hk : maxSteps ≤ remaining + 1 + k)
    (hrun : u.stopReason = .running) (hpc : u.pc = currentPc)
    (hstub : X.project.isImportStub (u.pc - u.memoryBase) = false) :
    Inside X s maxSteps remaining currentPc (.returned false [] u)
  | running {k : Nat} {c : Config} (hcommitted : Runner.Committed X.project c)
    (hrun : c.state.stopReason = .running) (htracks : Runner.Tracks X.project c)
    (h : X.Reaches s k c.interpreted) (hk : maxSteps ≤ remaining + k + c.current.isSome.toNat) :
    Inside X s maxSteps remaining currentPc c
  | fault {c : Config} (hcommitted : Runner.Committed X.project c)
    (hstop : c.state.stopReason.isFault = true) : Inside X s maxSteps remaining currentPc c

end Program

/-! ### The loop -/

/-- What a loop that has ended leaves. -/
def Phase.result? : Phase → Option State
  | .done t => some t
  | _ => none

theorem Phase.eq_of_result {p : Phase} {t : State} (h : p.result? = some t) : p = .done t := by
  cases p with
  | done u => rw [Option.some.inj h]
  | _ => cases h

/-- What a loop of `maxSteps` iterations from `s` has done, at a point of it. -/
def Phase.Follows (X : Program) (exit : LoopExit) (maxSteps : Nat) (s : State) : Phase → Prop
  | .loop remaining _ t => t.stopReason = .running ∧ t.gpr 0 = 0 ∧
      ∃ k, maxSteps ≤ remaining + k ∧ X.Reaches s k t
  | .runner remaining _ currentPc c => X.Inside s maxSteps remaining currentPc c ∧ c.StubFree X.project
  | .done t => X.Ended exit maxSteps s t

namespace Program
variable {X : Program} {exit : LoopExit} {maxSteps remaining : Nat} {s : State} {cache : DispatchCache}

end Program

/-- `jr $31`, `nop` and an import stub behind them. -/
def callerImage : LoadedImage where
  entry := 0
  executableSections := [⟨0, [0x08, 0, 0xe0, 0x03, 0, 0, 0, 0, 0x08, 0, 0xe0, 0x03, 0, 0, 0, 0]⟩]
  loadSegments := [⟨⟨0, 16, 0⟩, [0x08, 0, 0xe0, 0x03, 0, 0, 0, 0, 0x08, 0, 0xe0, 0x03, 0, 0, 0, 0]⟩]
  imports := [⟨8⟩]
  size := 16
  memory := copyBytes (fun _ => 0) 0 [0x08, 0, 0xe0, 0x03, 0, 0, 0, 0, 0x08, 0, 0xe0, 0x03, 0, 0, 0, 0]
  memorySize_eq := rfl
  memoryImage_eq := rfl
  aligned := by decide

/-- Its import returns 42 to the exit. -/
def callerProgram : Program where
  H := zeroOperandHost
  project := emitProject callerImage none 0x1000
  patches := noPatches
  importEffects _ s := (s.setGpr 2 42).setGpr 31 0x08800000

end Psprism
