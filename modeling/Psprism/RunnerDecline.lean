import Mathlib.Data.List.TakeWhile
import Psprism.RunnerSim

/-!
# When a runner declines

In an emitted project the native edges lead to functions that have a label at their start, since the
direct target of every delayed branch is a block entry. So a runner whose hooks handle their calls
declines only in its own `switch`, where it has executed nothing and has already cleared the pending
branch.
-/

namespace Psprism

/-! ### Starts of functions are labels -/

/-- Binary search in a sorted list finds a member at itself. -/
theorem getLast?_takeWhile_le {l : List Word} (hl : l.Pairwise (· ≤ ·)) {x : Word} (hx : x ∈ l) :
    (l.takeWhile fun y => decide (y ≤ x)).getLast? = some x := by
  induction l with
  | nil => exact absurd hx List.not_mem_nil
  | cons a l ih =>
    obtain ⟨ha, hl⟩ := List.pairwise_cons.1 hl
    have hax : a ≤ x := by
      rcases List.mem_cons.1 hx with rfl | hx
      · exact BitVec.le_refl _
      · exact ha x hx
    rw [List.takeWhile_cons, if_pos (decide_eq_true hax)]
    by_cases hxl : x ∈ l
    · rw [List.getLast?_cons, ih hl hxl]
      rfl
    · obtain rfl : x = a := (List.mem_cons.1 hx).resolve_right hxl
      have hnil : (l.takeWhile fun y => decide (y ≤ x)) = [] := by
        cases l with
        | nil => rfl
        | cons b l =>
          rw [List.takeWhile_cons, if_neg]
          intro hb
          rw [BitVec.le_antisymm (ha b List.mem_cons_self) (of_decide_eq_true hb)] at hxl
          exact hxl List.mem_cons_self
      rw [hnil]
      rfl

namespace LoadedImage
variable {image : LoadedImage}

/-- Every executable word is an instruction of the image. -/
theorem instruction_of_isExecutableWord {address : Word}
    (h : isExecutableWord image.toElfImage address = true) : ∃ w, (address, w) ∈ image.instructions := by
  obtain ⟨haligned, hsection⟩ := of_decide_eq_true h
  obtain ⟨s, hs, hin⟩ := List.any_eq_true.1 hsection
  obtain ⟨hle, hend⟩ := of_decide_eq_true hin
  obtain ⟨hstart, hlength⟩ := image.aligned s hs
  have hle : s.address.toNat ≤ address.toNat := BitVec.le_def.1 hle
  have hmod : address.toNat % 4 = 0 := by
    have h3 := congrArg BitVec.toNat haligned
    rw [BitVec.toNat_and] at h3
    exact (Nat.and_two_pow_sub_one_eq_mod address.toNat 2).symm.trans h3
  have haddress : s.address + BitVec.ofNat 32 (4 * ((address.toNat - s.address.toNat) / 4)) = address := by
    apply BitVec.eq_of_toNat_eq
    rw [BitVec.toNat_add, BitVec.toNat_ofNat]
    omega
  refine ⟨wordAt s (4 * ((address.toNat - s.address.toNat) / 4)), List.mem_flatMap.2 ⟨s, hs, ?_⟩⟩
  exact List.mem_map.2 ⟨(address.toNat - s.address.toNat) / 4, List.mem_range.2 (by omega), by rw [haddress]⟩

theorem mem_discoverFunctions {codeMap : Option CodeMap} {start : Word}
    (h : start ∈ image.discoverFunctions codeMap) :
    isExecutableWord image.toElfImage start = true ∧ start ∉ importStubs image.toElfImage := by
  have h := List.mem_dedup.1 ((List.mem_insertionSort _).1 h)
  simpa using (List.mem_filter.1 h).2

theorem discoverFunctions_sorted (image : LoadedImage) (codeMap : Option CodeMap) :
    (image.discoverFunctions codeMap).Pairwise (· ≤ ·) :=
  List.pairwise_insertionSort _ _

/-- The direct target of a delayed branch is a block entry, where there is code. -/
theorem mem_potentialBlockEntries {codeMap : Option CodeMap} {entry shardSize : Word} {x : Word × Word}
    (hx : x ∈ image.instructions) {target : Word}
    (htarget : directControlTarget x.1 x.2 (jumpRelocationBases image.toElfImage) image.preferredBase =
      some target)
    (hexecutable : isExecutableWord image.toElfImage target = true) :
    target ∈ image.potentialBlockEntries codeMap entry shardSize := by
  have hmem : target ∈ image.instructions.flatMap (controlEntries image.toElfImage) := by
    refine List.mem_flatMap.2 ⟨x, hx, ?_⟩
    have hbranch : startsDelayedBranch x.2 = true := by
      by_contra hbranch
      rw [directControlTarget, if_pos hbranch] at htarget
      cases htarget
    show target ∈ if ¬ startsDelayedBranch x.2 then [] else _
    rw [if_neg (not_not.2 hbranch), htarget]
    exact List.mem_append_right _ List.mem_cons_self
  refine List.mem_filter.2 ⟨?_, hexecutable⟩
  simp only [List.mem_append, List.mem_cons]
  exact .inl (.inl (.inl (.inr hmem)))

end LoadedImage

namespace Project
variable {P : Project}

theorem mem_itemsFrom {start : Word} {e : EmittedInstruction} {l : List EmittedInstruction} (he : e ∈ l)
    (previous : Option EmittedInstruction) :
    ∃ i ∈ P.itemsFrom start previous l, i.pc = e.pc ∧ i.isBlockEntry = P.isBlockEntry e.pc := by
  induction l generalizing previous with
  | nil => exact absurd he List.not_mem_nil
  | cons e' rest ih =>
    rcases List.mem_cons.1 he with rfl | he
    · exact ⟨_, List.mem_cons_self, rfl, rfl⟩
    · obtain ⟨i, hi, h⟩ := ih he (some e')
      exact ⟨i, List.mem_cons_of_mem _ hi, h⟩

theorem label_ne_nil {start pc : Word} {e : EmittedInstruction} (he : e ∈ P.function start)
    (hpc : e.pc = pc) (hentry : P.isBlockEntry pc = true) : P.label start pc ≠ [] := by
  obtain ⟨i, hi, hipc, hientry⟩ : ∃ i ∈ P.items start, i.pc = e.pc ∧ i.isBlockEntry = P.isBlockEntry e.pc :=
    mem_itemsFrom he none
  intro hnil
  have := List.dropWhile_eq_nil_iff.1 hnil i hi
  rw [hpc] at hipc hientry
  simp [hipc, hientry, hentry] at this

theorem mem_startBefore {address start : Word} (h : P.startBefore address = some start) :
    start ∈ P.mappedFunctionStarts :=
  List.takeWhile_subset _ (List.mem_of_getLast? h)

theorem mem_of_isFunction {start : Word} (h : P.isFunction start = true) :
    start ∈ P.mappedFunctionStarts ∧ P.isImportStub start = false := by
  have hne : P.function start ≠ [] := by
    rintro hnil
    simp [isFunction, hnil] at h
  obtain ⟨e, he⟩ := List.exists_mem_of_ne_nil _ hne
  unfold function at he
  split at he
  · exact absurd he List.not_mem_nil
  · rename_i hstub
    exact ⟨mem_startBefore (of_decide_eq_true (List.mem_filter.1 he).2), Bool.not_eq_true _ ▸ hstub⟩

theorem nativeEdge_function {start pc function : Word} {control : EmittedInstruction}
    (h : (P.nativeEdge start pc control).function? = some function) :
    control.directTarget = some function ∧ P.isFunction function = true := by
  unfold nativeEdge at h
  split at h
  · cases h
  rename_i target htarget
  split_ifs at h with hcall htail
  · obtain rfl := Option.some.inj h
    exact ⟨htarget, hcall.2⟩
  · obtain rfl := Option.some.inj h
    exact ⟨htarget, htail.2.1⟩
  · cases h

/-- A native edge is that of the control instruction before its item. -/
theorem itemsFrom_function {start function : Word} {i : Item} {l : List EmittedInstruction}
    {previous : Option EmittedInstruction} (hi : i ∈ P.itemsFrom start previous l)
    (h : i.nativeEdge.function? = some function) :
    ∃ control, (control ∈ previous ∨ control ∈ l) ∧ control.directTarget = some function ∧
      P.isFunction function = true := by
  induction l generalizing previous with
  | nil => exact absurd hi List.not_mem_nil
  | cons e rest ih =>
    rcases List.mem_cons.1 hi with rfl | hi
    · unfold item at h
      dsimp only at h
      split at h
      · cases h
      rename_i control hcontrol
      exact ⟨control, .inl (Option.filter_eq_some_iff.1 hcontrol).1, nativeEdge_function h⟩
    · obtain ⟨control, hmem, hcontrol⟩ := ih hi
      refine ⟨control, .inr ?_, hcontrol⟩
      rcases hmem with hmem | hmem
      · rw [Option.mem_some_iff.1 hmem]
        exact List.mem_cons_self
      · exact List.mem_cons_of_mem _ hmem

/-- The functions that native edges of the items lead to have a label at their start. -/
def LabelledEdges (P : Project) (items : List Item) : Prop :=
  ∀ i ∈ items, ∀ function, i.nativeEdge.function? = some function → P.label function function ≠ []

theorem LabelledEdges.of_subset {items items' : List Item} (h : P.LabelledEdges items)
    (hsub : ∀ i ∈ items', i ∈ items) : P.LabelledEdges items' :=
  fun i hi => h i (hsub i hi)

theorem label_subset (start pc : Word) : ∀ i ∈ P.label start pc, i ∈ P.items start :=
  fun _ hi => (List.dropWhile_sublist _).subset hi

/-- In an emitted project a function that a direct target leads to is labelled. -/
theorem emitProject_label {image : LoadedImage} {codeMap : Option CodeMap} {shardSize function : Word}
    {control : EmittedInstruction} (hcontrol : control ∈ (emitProject image codeMap shardSize).emitted)
    (htarget : control.directTarget = some function)
    (hfunction : (emitProject image codeMap shardSize).isFunction function = true) :
    (emitProject image codeMap shardSize).label function function ≠ [] := by
  obtain ⟨x, hx, rfl⟩ := mem_emitted.1 hcontrol
  obtain ⟨hstart, hstub⟩ := mem_of_isFunction hfunction
  obtain ⟨hexecutable, -⟩ := LoadedImage.mem_discoverFunctions hstart
  obtain ⟨w, hw⟩ := LoadedImage.instruction_of_isExecutableWord hexecutable
  have hbefore : (emitProject image codeMap shardSize).startBefore function = some function :=
    getLast?_takeWhile_le (image.discoverFunctions_sorted codeMap) hstart
  have hmem : (emitProject image codeMap shardSize).emit (function, w) ∈
      (emitProject image codeMap shardSize).function function := by
    unfold Project.function
    rw [if_neg (by rw [hstub]; exact Bool.false_ne_true)]
    exact List.mem_filter.2 ⟨mem_emitted.2 ⟨_, hw, rfl⟩, decide_eq_true hbefore⟩
  exact label_ne_nil hmem rfl
    (decide_eq_true (LoadedImage.mem_potentialBlockEntries hx htarget hexecutable))

theorem emitProject_labelledEdges (image : LoadedImage) (codeMap : Option CodeMap)
    (shardSize start : Word) : (emitProject image codeMap shardSize).LabelledEdges
      ((emitProject image codeMap shardSize).items start) := by
  intro i hi function hedge
  obtain ⟨control, hmem, htarget, hfunction⟩ := itemsFrom_function hi hedge
  have hmem := hmem.resolve_left (by simp)
  exact emitProject_label (function_subset hmem) htarget hfunction

end Project

/-! ### Runs that decline -/

namespace Runner
variable {H : Host} {P : Project} {patches : Patches}

/-- Hooks handle the calls they are found for. -/
def HooksHandle (patches : Patches) : Prop :=
  ∀ s pc hook, patches s pc = some hook → (hook s).1 = true

/-- A run that will not decline. -/
def Committed (P : Project) : Config → Prop
  | .entering start entryPc _ s => P.label start (entryPc - s.memoryBase) ≠ []
  | .code _ items _ _ _ _ => P.LabelledEdges items
  | .returned result _ _ => result = true

theorem gotoEdge_committed (hedges : ∀ start, P.LabelledEdges (P.items start)) (start delayedTarget : Word)
    (i : Item) (stack : List Frame) (s : State) : Committed P (gotoEdge P start i delayedTarget stack s) := by
  unfold gotoEdge
  split
  · split
    · exact (hedges start).of_subset (Project.label_subset _ _)
    · rfl
  · rfl

theorem delayedBranch_committed (hedges : ∀ start, P.LabelledEdges (P.items start)) {i : Item}
    (hi : ∀ function, i.nativeEdge.function? = some function → P.label function function ≠ [])
    (start delayedTarget : Word) (stack : List Frame) (s : State) :
    Committed P (delayedBranch P start i delayedTarget stack s) := by
  have henter : ∀ function, i.nativeEdge.function? = some function →
      delayedTarget = (s.setPc delayedTarget).memoryBase + function → ∀ stack,
        Committed P (.entering function delayedTarget stack (s.setPc delayedTarget)) := by
    intro function hfunction htarget stack
    have hoffset : delayedTarget - s.memoryBase = function := by
      rw [show delayedTarget = s.memoryBase + function from htarget, add_sub_cancel_left]
    show P.label function (delayedTarget - s.memoryBase) ≠ []
    rw [hoffset]
    exact hi function hfunction
  unfold delayedBranch
  dsimp only
  split
  · rename_i function _ hedge
    split
    · rename_i htarget
      exact henter function (by rw [hedge]; rfl) htarget _
    · exact gotoEdge_committed hedges ..
  · rename_i function hedge
    split
    · rename_i htarget
      exact henter function (by rw [hedge]; rfl) htarget _
    · exact gotoEdge_committed hedges ..
  · exact gotoEdge_committed hedges ..

theorem enter_committed (hedges : ∀ start, P.LabelledEdges (P.items start)) {start entryPc : Word}
    {stack : List Frame} {s : State} (h : P.label start (entryPc - s.memoryBase) ≠ []) :
    Committed P (enter P start entryPc stack s) := by
  have hsub := Project.label_subset (P := P) start (entryPc - s.memoryBase)
  unfold enter
  cases hl : P.label start (entryPc - s.memoryBase) with
  | nil => exact absurd hl h
  | cons i rest =>
    rw [hl] at hsub
    exact (hedges start).of_subset hsub

theorem step_committed (hedges : ∀ start, P.LabelledEdges (P.items start)) (hhooks : HooksHandle patches)
    {c c' : Config} (h : Committed P c) (hstep : step H P patches c = some c') : Committed P c' := by
  cases c with
  | entering start entryPc stack s =>
    cases hfind : patches s entryPc with
    | some hook =>
      simp only [step, hfind] at hstep
      obtain rfl := Option.some.inj hstep
      exact hhooks _ _ _ hfind
    | none =>
      simp only [step, hfind] at hstep
      obtain rfl := Option.some.inj hstep
      exact enter_committed hedges h
  | code start items apply delayedTarget stack s =>
    cases items with
    | nil => cases hstep
    | cons i rest =>
      obtain rfl := Option.some.inj hstep
      have hrest : P.LabelledEdges rest := h.of_subset fun _ => List.mem_cons_of_mem i
      unfold afterItem fallThrough
      split
      · rfl
      split
      · exact delayedBranch_committed hedges (h i List.mem_cons_self) ..
      split_ifs
      · rfl
      · exact hrest
      · rfl
      · exact hrest
      · rfl
  | returned result stack s =>
    obtain rfl : result = true := h
    cases stack with
    | nil => cases hstep
    | cons frame stack =>
      obtain rfl := Option.some.inj hstep
      unfold afterCall
      split
      · rfl
      split
      · split
        · exact (hedges _).of_subset (Project.label_subset _ _)
        · rfl
      · rfl

end Runner

open Machine Runner in
/-- A runner of an emitted project that declines has executed nothing, and what it leaves is the
interpreter's state, with the pc the dispatcher falls back to, exactly when no branch was pending. -/
theorem runner_declines_iff (H : Host) (image : LoadedImage) (codeMap : Option CodeMap)
    (shardSize start : Word) (patches : Patches) (s t : State) (n : Nat) (hhooks : HooksHandle patches)
    (hrun : run (step H (emitProject image codeMap shardSize) patches) n (.entering start s.pc [] s) =
      .returned false [] t) :
    let executed := (trace (step H (emitProject image codeMap shardSize) patches) n
      (.entering start s.pc [] s)).countP (·.current.isSome)
    (steps (interpretStep H) executed s = some t ∧ t.pc = s.pc) ↔ s.branchPending = false := by
  have hedges := Project.emitProject_labelledEdges image codeMap shardSize
  generalize emitProject image codeMap shardSize = P at hrun hedges ⊢
  -- any first step but the decline commits the run
  have hfirst : ∀ c, Committed P c → step H P patches (.entering start s.pc [] s) = some c →
      ∀ m, run (step H P patches) m c ≠ .returned false [] t := by
    intro c hc _ m hfalse
    have h := run_invariant (fun c c' => step_committed (H := H) hedges hhooks) m hc
    rw [hfalse] at h
    cases h
  cases n with
  | zero => cases hrun
  | succ n =>
    cases hfind : patches s s.pc with
    | some hook =>
      have hstep : step H P patches (.entering start s.pc [] s) =
          some (.returned (hook s).1 [] (hook s).2) := by
        simp only [step, hfind]
      have hc : Committed P (.returned (hook s).1 [] (hook s).2) := hhooks _ _ _ hfind
      rw [run_succ hstep] at hrun
      exact absurd hrun (hfirst _ hc hstep n)
    | none =>
      have hstep : step H P patches (.entering start s.pc [] s) = some (enter P start s.pc [] s) := by
        simp only [step, hfind]
      rw [run_succ hstep] at hrun
      cases hl : P.label start (s.pc - s.memoryBase) with
      | cons i rest =>
        have hc : Committed P (enter P start s.pc [] s) :=
          enter_committed hedges (by rw [hl]; exact List.cons_ne_nil i rest)
        exact absurd hrun (hfirst _ hc hstep n)
      | nil =>
        have henter : enter P start s.pc [] s = .returned false [] (s.setPending false) := by
          unfold enter
          rw [hl]
        rw [henter] at hstep hrun
        rw [run_of_none rfl] at hrun
        obtain rfl : s.setPending false = t := by cases hrun; rfl
        rw [trace_succ hstep, trace_of_none rfl]
        show (some s = some (s.setPending false) ∧ s.pc = s.pc) ↔ _
        rw [Option.some.injEq, and_iff_left rfl]
        exact ⟨fun h => (congrArg State.branchPending h : _), fun h => (State.setPending_self h).symm⟩

/-- `jr $31` with `addiu $sp, $sp, -16` in its delay slot, which looks like a prologue, and another
`jr $31`. -/
def slotImage : LoadedImage where
  entry := 0
  executableSections :=
    [⟨0, [0x08, 0, 0xe0, 0x03, 0xf0, 0xff, 0xbd, 0x27, 0x08, 0, 0xe0, 0x03, 0, 0, 0, 0]⟩]
  loadSegments :=
    [⟨⟨0, 16, 0⟩, [0x08, 0, 0xe0, 0x03, 0xf0, 0xff, 0xbd, 0x27, 0x08, 0, 0xe0, 0x03, 0, 0, 0, 0]⟩]
  size := 16
  memory := copyBytes (fun _ => 0) 0
    [0x08, 0, 0xe0, 0x03, 0xf0, 0xff, 0xbd, 0x27, 0x08, 0, 0xe0, 0x03, 0, 0, 0, 0]
  memorySize_eq := rfl
  memoryImage_eq := rfl
  aligned := by decide

open Machine Runner in
/-- Nothing is pending at the delay slot: the runner that begins there declines without harm. -/
theorem runner_declines_iff_slotImage :
    let P := emitProject slotImage none 0x1000
    let s := (slotImage.start 0x08804000).setPc 0x08804004
    let c := run (step zeroOperandHost P noPatches) 1 (.entering 4 s.pc [] s)
    c.result? = some false ∧ c.state.pc = s.pc := by
  intro P s c
  have hresult : c.result? = some false := by decide
  have hhooks : HooksHandle noPatches := fun _ _ _ h => by cases h
  exact ⟨hresult, ((runner_declines_iff zeroOperandHost slotImage none 0x1000 4 noPatches s c.state 1 hhooks
    (Config.eq_of_result hresult)).2 rfl).2⟩

open Machine Runner in
/-- The first function ends at its `jr $31` with the branch pending. The runner of the second, which
begins in the delay slot, declines and drops the branch: the fallback goes on behind the delay slot
instead of to `$31`. -/
theorem runner_declines_pending :
    let P := emitProject slotImage none 0x1000
    let H := zeroOperandHost
    let s := (slotImage.start 0x08804000).setGpr 31 0x08804100
    let c := run (step H P noPatches) 2 (.entering 0 s.pc [] s)
    let d := run (step H P noPatches) 1 (.entering 4 c.state.pc [] c.state)
    let executed := (trace (step H P noPatches) 1 (.entering 4 c.state.pc [] c.state)).countP
      (·.current.isSome)
    c.result? = some true ∧ d.result? = some false ∧
      ¬ (steps (interpretStep H) executed c.state = some d.state ∧ d.state.pc = c.state.pc) ∧
      (interpretAllegrex H c.state c.state.pc).2.pc = 0x08804100 ∧
      (interpretAllegrex H d.state c.state.pc).2.pc = 0x08804008 := by
  intro P H s c d executed
  have hpending : c.state.branchPending = true ∧ d.state.branchPending = false := by decide +kernel
  have hexecuted : executed = 0 := by decide
  refine ⟨by decide, by decide, ?_, by decide +kernel, by decide +kernel⟩
  rintro ⟨h, -⟩
  rw [hexecuted] at h
  have := congrArg State.branchPending (Option.some.inj h)
  rw [hpending.1, hpending.2] at this
  cases this

end Psprism
