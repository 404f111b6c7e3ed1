import Psprism.Dispatch
import Psprism.RunnerDecline

/-!
# Import stubs

The words of a stub lie in the function before it. Falling through never reaches them, and neither do
native calls; the edges inside a function do not look for stubs, and the dispatcher asks for a
platform's import only when no branch is pending. `Phase.avoidsStubs` is that none of the three meets a stub in a
step; then no stub runs as code and every dispatch of one reaches the platform.
-/

namespace Psprism

namespace Config
variable (P : Project)

/-- The step is neither an edge inside a function nor the return of a native call to a stub. -/
def avoidsStubs : Config → Bool
  | .code _ (i :: _) applyDelayedBranch delayedTarget _ s =>
    ¬ (i.isDelaySlot ∧ applyDelayedBranch ∧ i.gotoTarget.any fun target =>
      P.isImportStub target ∧ delayedTarget = s.memoryBase + target)
  | .returned true (frame :: _) s =>
    ¬ (s.branchPending = false ∧ frame.returnLabel.any fun returnPc =>
      P.isImportStub returnPc ∧ s.pc = s.memoryBase + returnPc)
  | _ => true

/-- The code ahead is no stub, and neither is what an entry leads to. -/
def StubFree : Config → Prop
  | .entering _ entryPc _ s => P.isImportStub (entryPc - s.memoryBase) = false
  | .code start items _ _ _ _ => P.Linked items ∧ (∀ i ∈ items, i ∈ P.items start) ∧
      ∀ i ∈ items.head?, P.isImportStub i.pc = false
  | .returned _ _ _ => True

end Config

/-- The step meets no stub but in a dispatch without a pending branch. -/
def Phase.avoidsStubs (P : Project) : Phase → Bool
  | .loop _ _ s => ¬ (s.branchPending ∧ P.isImportStub (s.pc - s.memoryBase))
  | .runner _ _ _ c => c.avoidsStubs P
  | .done _ => true

def Phase.StubFree (P : Project) : Phase → Prop
  | .runner _ _ _ c => c.StubFree P
  | _ => True

/-! ### Runners -/

namespace Runner
variable {H : Host} {P : Project} {patches : Patches}

end Runner

/-! ### The dispatcher -/

namespace Program
variable {X : Program} {exit : LoopExit}

end Program

/-- `jal` of the import stub behind the function, and the function's `jr $31`. -/
def stubImage : LoadedImage where
  entry := 0
  executableSections := [⟨0,
    [0x04, 0, 0, 0x0c, 0, 0, 0, 0, 0x08, 0, 0xe0, 0x03, 0, 0, 0, 0, 0x08, 0, 0xe0, 0x03, 0, 0, 0, 0]⟩]
  loadSegments := [⟨⟨0, 24, 0⟩,
    [0x04, 0, 0, 0x0c, 0, 0, 0, 0, 0x08, 0, 0xe0, 0x03, 0, 0, 0, 0, 0x08, 0, 0xe0, 0x03, 0, 0, 0, 0]⟩]
  imports := [⟨16⟩]
  size := 24
  memory := copyBytes (fun _ => 0) 0
    [0x04, 0, 0, 0x0c, 0, 0, 0, 0, 0x08, 0, 0xe0, 0x03, 0, 0, 0, 0, 0x08, 0, 0xe0, 0x03, 0, 0, 0, 0]
  memorySize_eq := rfl
  memoryImage_eq := rfl
  aligned := by decide

end Psprism
