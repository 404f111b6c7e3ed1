import Psprism.RunnerItem

/-!
# Runners simulate the interpreter

At each point of a runner the interpreter is in a state that differs only in where the pc and the
pending branch are kept: the pc in the place of the item, the branch in the local
`apply_delayed_branch`. An item is one step of the interpreter; entries, returns and edges are none.
-/

namespace Psprism

/-- One step of the interpreter at the pc of the state; none where it gives up. -/
def interpretStep (H : Host) (s : State) : Option State :=
  match interpretAllegrex H s s.pc with
  | (true, s') => some s'
  | (false, _) => none

/-- The state the interpreter is in at a point of a runner. -/
def Config.interpreted : Config → State
  | .entering _ _ _ s => s
  | .code _ (i :: _) applyDelayedBranch _ _ s =>
    (s.setPending applyDelayedBranch).setPc (s.memoryBase + i.pc)
  | .code _ [] _ _ _ s => s
  | .returned _ _ s => s

namespace Project

/-- No control instruction sits in a delay slot. -/
def NoControlInDelaySlot (P : Project) : Prop :=
  ∀ e ∈ P.emitted, P.isDelaySlot e.pc = true → startsDelayedBranch e.instruction = false

theorem isDelaySlot_next {P : Project} {e : EmittedInstruction} (he : e ∈ P.emitted)
    (hcontrol : startsDelayedBranch e.instruction = true) : P.isDelaySlot (e.pc + 4) = true := by
  obtain ⟨x, hx, rfl⟩ := mem_emitted.1 he
  exact List.any_eq_true.2 ⟨x, hx, decide_eq_true ⟨hcontrol, rfl⟩⟩

theorem emitted_straight {P : Project} {e : EmittedInstruction} (he : e ∈ P.emitted)
    (hcontrol : startsDelayedBranch e.instruction = false) :
    e.code.plain = true ∨ ∀ H currentPc s, (e.code.exec H currentPc s).stopReason ≠ .running := by
  obtain ⟨x, -, rfl⟩ := mem_emitted.1 he
  exact emitInstruction_straight hcontrol ..

end Project

namespace Runner
variable {H : Host} {P : Project}

/-- What holds at every point of a runner that was entered with no branch pending. A branch that is
pending is in the locals, and only before a delay slot. -/
def Tracks (P : Project) : Config → Prop
  | .entering _ entryPc _ s => s.pc = entryPc ∧ s.branchPending = false ∧ s.gpr 0 = 0
  | .code _ items applyDelayedBranch delayedTarget _ s =>
    P.Linked items ∧ s.branchPending = false ∧ s.gpr 0 = 0 ∧
      (applyDelayedBranch = true → s.branchTarget = delayedTarget ∧
        ∀ i ∈ items.head?, i.isDelaySlot = true)
  | .returned _ _ s => s.gpr 0 = 0

/-- The words the items of a run were emitted for are in guest memory, as `words` has them. -/
def HoldsWords (words : Word → Word) (c : Config) : Prop :=
  ∀ i, c.current = some i → HoldsWord c.state (c.state.memoryBase + i.pc) (words i.pc)

/-! ### Between items -/

/-- A jump to a label that the pc is at. -/
theorem label_tracks {pc : Word} {s : State} (start delayedTarget : Word) (stack : List Frame)
    (hpc : s.pc = s.memoryBase + pc) (hpending : s.branchPending = false) (h0 : s.gpr 0 = 0) :
    Tracks P (.code start (P.label start pc) false delayedTarget stack s) ∧
      (Config.code start (P.label start pc) false delayedTarget stack s).interpreted = s := by
  refine ⟨⟨Project.linked_label start pc, hpending, h0, fun h => by cases h⟩, ?_⟩
  cases hl : P.label start pc with
  | nil => rfl
  | cons i rest =>
    obtain ⟨-, hi⟩ := Project.label_pc hl
    show (s.setPending false).setPc (s.memoryBase + i.pc) = s
    rw [State.setPending_self hpending, State.setPc_self (by rw [hpc, hi])]

theorem enter_tracks {entryPc : Word} {s : State} (start : Word) (stack : List Frame) (hpc : s.pc = entryPc)
    (hpending : s.branchPending = false) (h0 : s.gpr 0 = 0) :
    Tracks P (enter P start entryPc stack s) ∧ (enter P start entryPc stack s).interpreted = s := by
  have hbase : s.pc = s.memoryBase + (entryPc - s.memoryBase) := by
    rw [hpc, add_comm, sub_add_cancel]
  have hlabel := label_tracks (P := P) start s.branchTarget stack hbase hpending h0
  unfold enter
  rw [State.setPending_self hpending, hpending]
  cases hl : P.label start (entryPc - s.memoryBase) with
  | nil => exact ⟨h0, rfl⟩
  | cons i rest => rw [hl] at hlabel; exact hlabel

theorem gotoEdge_tracks {delayedTarget : Word} {s : State} (start : Word) (i : Item) (stack : List Frame)
    (hpc : s.pc = delayedTarget) (hpending : s.branchPending = false) (h0 : s.gpr 0 = 0) :
    Tracks P (gotoEdge P start i delayedTarget stack s) ∧
      (gotoEdge P start i delayedTarget stack s).interpreted = s := by
  unfold gotoEdge
  split
  · split
    · rename_i target htarget
      exact label_tracks start delayedTarget stack (hpc.trans htarget) hpending h0
    · exact ⟨h0, rfl⟩
  · exact ⟨h0, rfl⟩

theorem delayedBranch_tracks {s : State} (start delayedTarget : Word) (i : Item) (stack : List Frame)
    (hpending : s.branchPending = false) (h0 : s.gpr 0 = 0) :
    Tracks P (delayedBranch P start i delayedTarget stack s) ∧
      (delayedBranch P start i delayedTarget stack s).interpreted = s.setPc delayedTarget := by
  have hgoto := gotoEdge_tracks (P := P) (s := s.setPc delayedTarget) start i stack rfl hpending h0
  unfold delayedBranch
  dsimp only
  split
  · split
    · exact ⟨⟨rfl, hpending, h0⟩, rfl⟩
    · exact hgoto
  · split
    · exact ⟨⟨rfl, hpending, h0⟩, rfl⟩
    · exact hgoto
  · exact hgoto

theorem afterCall_tracks {s : State} (frame : Frame) (stack : List Frame) (h0 : s.gpr 0 = 0) :
    Tracks P (afterCall P frame stack s) ∧ (afterCall P frame stack s).interpreted = s := by
  unfold afterCall
  split
  · exact ⟨h0, rfl⟩
  split
  · split
    · rename_i hreturn
      obtain ⟨hpending, hpc⟩ := hreturn
      exact label_tracks _ _ stack hpc (by simpa using hpending) h0
    · exact ⟨h0, rfl⟩
  · exact ⟨h0, rfl⟩

/-! ### One item -/

/-- The item that follows is at the next address. -/
theorem next_interpreted {i : Item} {rest : List Item} {start delayedTarget : Word} {stack : List Frame}
    {s : State} (apply : Bool) (hnext : ∃ j rest', rest = j :: rest' ∧ j.pc = i.pc + 4 ∧
      P.isImportStub j.pc = false) :
    (Config.code start rest apply delayedTarget stack s).interpreted =
      (s.setPending apply).setPc (s.memoryBase + i.pc + 4) := by
  obtain ⟨j, rest', rfl, hj, -⟩ := hnext
  show (s.setPending apply).setPc (s.memoryBase + j.pc) = _
  rw [hj, BitVec.add_assoc]

/-- The interpreter's step at an item, from its statement. -/
theorem interpretStep_item {words : Word → Word} {i : Item} {s : State} (apply : Bool)
    (hagrees : Agrees H i.pc (words i.pc) i.code) (hword : HoldsWord s (s.memoryBase + i.pc) (words i.pc))
    (hrun : s.stopReason = .running) (h0 : s.gpr 0 = 0) {t : State}
    (ht : ((i.code.exec H (s.memoryBase + i.pc) (s.advance (s.memoryBase + i.pc))).resetZero).applyBranch
      apply s.branchTarget = t) (htrun : t.stopReason = .running) :
    interpretStep H ((s.setPending apply).setPc (s.memoryBase + i.pc)) = some t := by
  subst ht
  have h := hagrees ((s.setPending apply).setPc (s.memoryBase + i.pc)) hrun h0
    (hword.of_mem hrun rfl) htrun
  unfold interpretStep
  rw [show interpretAllegrex H _ ((s.setPending apply).setPc (s.memoryBase + i.pc)).pc = _ from h]
  rfl

/-- A control instruction: the branch it leaves pending goes into the locals. -/
theorem control_simulates {words : Word → Word} {start delayedTarget : Word} {i : Item}
    {rest : List Item} {stack : List Frame} {s : State} (hlinked : P.Linked (i :: rest))
    (hpending : s.branchPending = false) (h0 : s.gpr 0 = 0) (hcontrol : i.isControl = true)
    (hslot : i.isDelaySlot = false) (hagrees : Agrees H i.pc (words i.pc) i.code)
    (hword : HoldsWord s (s.memoryBase + i.pc) (words i.pc))
    (hrun : (i.exec H s).stopReason = .running) :
    Tracks P (afterItem P start i rest false delayedTarget stack (i.exec H s)) ∧
      interpretStep H ((s.setPending false).setPc (s.memoryBase + i.pc)) =
        some (afterItem P start i rest false delayedTarget stack (i.exec H s)).interpreted := by
  have hstores : i.storesPc = true := by simp [Item.storesPc, hcontrol]
  have hzero := Item.exec_zero (H := H) (i := i) h0
  have hbase := Item.exec_memoryBase (H := H) (i := i) (s := s)
  have hstep : interpretStep H ((s.setPending false).setPc (s.memoryBase + i.pc)) = some (i.exec H s) := by
    refine interpretStep_item false hagrees hword (Item.exec_running hrun) h0 ?_ hrun
    rw [Item.exec_of_storesPc h0 hpending hstores, State.applyBranch, if_neg (by simp)]
  rw [hstep]
  obtain ⟨⟨hmem, -⟩, hnext, hrest⟩ := hlinked
  unfold afterItem
  rw [if_neg (by simp [hrun]), if_neg (by simp [hslot]), if_pos hcontrol]
  split
  · exact ⟨hzero, rfl⟩
  rename_i hpc
  rw [not_not] at hpc
  split
  · rename_i hhas
    obtain ⟨j, rest', hj, hjpc, hstub⟩ := hnext hhas
    refine ⟨⟨hrest, rfl, hzero, fun _ => ⟨rfl, ?_⟩⟩, ?_⟩
    · intro k hk
      subst hj
      obtain rfl : j = k := Option.some.inj hk
      rw [hrest.1.2, hjpc]
      exact Project.isDelaySlot_next hmem hcontrol
    · rw [next_interpreted _ ⟨j, rest', hj, hjpc, hstub⟩]
      refine congrArg some (Eq.symm ?_)
      show ((i.exec H s).setPending _).setPc ((i.exec H s).memoryBase + i.pc + 4) = i.exec H s
      rw [State.setPending_self rfl, State.setPc_self (by rw [hpc, BitVec.add_assoc])]
  · exact ⟨hzero, rfl⟩

/-- Any other item; behind a taken branch it is the delay slot. -/
theorem straight_simulates {words : Word → Word} {start delayedTarget : Word} {i : Item}
    {rest : List Item} {apply : Bool} {stack : List Frame} {s : State} (hlinked : P.Linked (i :: rest))
    (hpending : s.branchPending = false) (h0 : s.gpr 0 = 0)
    (happly : apply = true → s.branchTarget = delayedTarget ∧ i.isDelaySlot = true)
    (hcontrol : i.isControl = false) (hagrees : Agrees H i.pc (words i.pc) i.code)
    (hword : HoldsWord s (s.memoryBase + i.pc) (words i.pc))
    (hrun : (i.exec H s).stopReason = .running) :
    Tracks P (afterItem P start i rest apply delayedTarget stack (i.exec H s)) ∧
      interpretStep H ((s.setPending apply).setPc (s.memoryBase + i.pc)) =
        some (afterItem P start i rest apply delayedTarget stack (i.exec H s)).interpreted := by
  obtain ⟨⟨hmem, -⟩, hnext, hrest⟩ := hlinked
  have hzero := Item.exec_zero (H := H) (i := i) h0
  have hbase := Item.exec_memoryBase (H := H) (i := i) (s := s)
  have hplain : i.code.plain = true := by
    refine (Project.emitted_straight hmem hcontrol).resolve_right fun hstop => ?_
    rw [Item.exec_eq h0] at hrun
    exact hstop H _ _ hrun
  have hstraight := Item.exec_straight h0 hpending hplain hrun
  have hframe : (i.exec H s).branchPending = false ∧ (i.exec H s).branchTarget = s.branchTarget := by
    have hf : FaultStep _ (i.code.exec H (s.memoryBase + i.pc) _) :=
      i.code.exec_faultStep hplain (s.advance (s.memoryBase + i.pc))
    have hb := congrArg State.branchPending hstraight
    have ht := congrArg State.branchTarget hstraight
    exact ⟨hb.symm.trans hf.branchPending, ht.symm.trans hf.branchTarget⟩
  have hstep := fun t ht htrun => interpretStep_item (t := t) apply hagrees hword (Item.exec_running hrun) h0
    ht htrun
  rw [hstraight] at hstep
  unfold afterItem
  rw [if_neg (by simp [hrun])]
  cases apply with
  | true =>
    obtain ⟨htarget, hslot⟩ := happly rfl
    obtain ⟨htracks, hinterp⟩ := delayedBranch_tracks (P := P) start delayedTarget i stack
      hframe.1 hzero
    rw [if_pos ⟨hslot, rfl⟩, hinterp]
    refine ⟨htracks, hstep _ ?_ hrun⟩
    rw [State.applyBranch, if_pos ⟨hrun, rfl⟩, htarget]
    rfl
  | false =>
    rw [if_neg (by simp), if_neg (by simp [hcontrol]), fallThrough]
    have hstep := hstep _ rfl (by rw [State.applyBranch, if_neg (by simp)]; exact hrun)
    rw [State.applyBranch, if_neg (by simp)] at hstep
    rw [hstep]
    split
    · rename_i hhas
      refine ⟨⟨hrest, hframe.1, hzero, fun h => by cases h⟩, ?_⟩
      rw [next_interpreted _ (hnext hhas), State.setPending_self hframe.1, hbase]
    · rename_i hhas
      have hstores : i.storesPc = true := by simp [Item.storesPc, hhas]
      refine ⟨hzero, congrArg some ?_⟩
      rw [← hstraight, ← Item.exec_of_storesPc h0 hpending hstores]
      rfl

/-! ### One step and whole runs -/

theorem gotoEdge_stopReason (start delayedTarget : Word) (i : Item) (stack : List Frame) (s : State) :
    (gotoEdge P start i delayedTarget stack s).state.stopReason = s.stopReason := by
  unfold gotoEdge
  split
  · split <;> rfl
  · rfl

theorem delayedBranch_stopReason (start delayedTarget : Word) (i : Item) (stack : List Frame) (s : State) :
    (delayedBranch P start i delayedTarget stack s).state.stopReason = s.stopReason := by
  unfold delayedBranch
  dsimp only
  split
  · split
    · rfl
    · exact gotoEdge_stopReason ..
  · split
    · rfl
    · exact gotoEdge_stopReason ..
  · exact gotoEdge_stopReason ..

theorem afterItem_stopReason (start delayedTarget : Word) (i : Item) (rest : List Item) (apply : Bool)
    (stack : List Frame) (s : State) :
    (afterItem P start i rest apply delayedTarget stack s).state.stopReason = s.stopReason := by
  unfold afterItem fallThrough
  split
  · rfl
  split
  · exact delayedBranch_stopReason ..
  split_ifs <;> rfl

theorem enter_stopReason (start entryPc : Word) (stack : List Frame) (s : State) :
    (enter P start entryPc stack s).state.stopReason = s.stopReason := by
  unfold enter
  split <;> rfl

theorem afterCall_stopReason (frame : Frame) (stack : List Frame) (s : State) :
    (afterCall P frame stack s).state.stopReason = s.stopReason := by
  unfold afterCall
  split
  · rfl
  split
  · split <;> rfl
  · rfl

/-- No step of a runner starts a stopped CPU. -/
theorem step_running {c c' : Config} (hstep : step H P noPatches c = some c')
    (hrun : c'.state.stopReason = .running) : c.state.stopReason = .running := by
  cases c with
  | entering start entryPc stack s =>
    obtain rfl := Option.some.inj hstep
    exact (enter_stopReason ..).symm.trans hrun
  | code start items apply delayedTarget stack s =>
    cases items with
    | nil => cases hstep
    | cons i rest =>
      obtain rfl := Option.some.inj hstep
      exact Item.exec_running ((afterItem_stopReason ..).symm.trans hrun)
  | returned result stack s =>
    cases stack with
    | nil => cases hstep
    | cons frame stack =>
      cases result with
      | false => obtain rfl := Option.some.inj hstep; exact hrun
      | true =>
        obtain rfl := Option.some.inj hstep
        exact (afterCall_stopReason ..).symm.trans hrun

/-- One step of a runner is one step of the interpreter at an item, and none elsewhere. -/
theorem step_simulates {words : Word → Word} (hslots : P.NoControlInDelaySlot)
    (hagrees : ∀ e ∈ P.emitted, Agrees H e.pc (words e.pc) e.code) {c c' : Config} (hinv : Tracks P c)
    (hwords : HoldsWords words c) (hrun : c'.state.stopReason = .running)
    (hstep : step H P noPatches c = some c') :
    Tracks P c' ∧ if c.current.isSome then interpretStep H c.interpreted = some c'.interpreted
      else c.interpreted = c'.interpreted := by
  cases c with
  | entering start entryPc stack s =>
    obtain rfl := Option.some.inj hstep
    obtain ⟨hpc, hpending, h0⟩ := hinv
    obtain ⟨htracks, hinterp⟩ := enter_tracks (P := P) start stack hpc hpending h0
    exact ⟨htracks, hinterp.symm⟩
  | code start items apply delayedTarget stack s =>
    cases items with
    | nil => cases hstep
    | cons i rest =>
      obtain rfl := Option.some.inj hstep
      rw [afterItem_stopReason] at hrun
      obtain ⟨hlinked, hpending, h0, happly⟩ := hinv
      have hagrees := hagrees _ hlinked.1.1
      have hword := hwords i rfl
      have happly : apply = true → s.branchTarget = delayedTarget ∧ i.isDelaySlot = true :=
        fun h => ⟨(happly h).1, (happly h).2 i rfl⟩
      cases hcontrol : i.isControl with
      | false => exact straight_simulates hlinked hpending h0 happly hcontrol hagrees hword hrun
      | true =>
        have hslot : i.isDelaySlot = false := by
          by_contra hslot
          have hslot' := Bool.not_eq_false _ ▸ hslot
          have := hslots _ hlinked.1.1 (hlinked.1.2.symm.trans hslot')
          rw [show startsDelayedBranch _ = _ from hcontrol] at this
          cases this
        have hnone : apply = false := by
          by_contra ha
          rw [(happly (Bool.not_eq_false _ ▸ ha)).2] at hslot
          cases hslot
        subst hnone
        exact control_simulates hlinked hpending h0 hcontrol hslot hagrees hword hrun
  | returned result stack s =>
    cases stack with
    | nil => cases hstep
    | cons frame stack =>
      cases result with
      | false => obtain rfl := Option.some.inj hstep; exact ⟨hinv, rfl⟩
      | true =>
        obtain rfl := Option.some.inj hstep
        obtain ⟨htracks, hinterp⟩ := afterCall_tracks (P := P) frame stack hinv
        exact ⟨htracks, hinterp.symm⟩

end Runner

open Machine Runner in
/-- A runner that executes nothing declines. -/
theorem executes_of_returned {H : Host} {P : Project} {start entryPc : Word} {s t : State} {n : Nat}
    (hrun : run (step H P noPatches) n (.entering start entryPc [] s) = .returned true [] t) :
    ∃ c ∈ trace (step H P noPatches) n (.entering start entryPc [] s), c.current.isSome = true := by
  cases n with
  | zero => cases hrun
  | succ n =>
    have hstep : step H P noPatches (.entering start entryPc [] s) =
        some (enter P start entryPc [] s) := rfl
    rw [run_succ hstep] at hrun
    rw [trace_succ hstep]
    unfold enter at hrun ⊢
    split at hrun
    · rw [run_of_none rfl] at hrun
      cases hrun
    · cases n with
      | zero => cases hrun
      | succ n => exact ⟨_, List.mem_cons_of_mem _ List.mem_cons_self, rfl⟩

open Machine Runner in
/-- A runner that handles its call without a fault or a stop leaves the state that some positive
number of interpreter steps leads to. -/
theorem runner_simulates (H : Host) (P : Project) (words : Word → Word) (start : Word) (s t : State)
    (n : Nat) (hslots : P.NoControlInDelaySlot)
    (hagrees : ∀ e ∈ P.emitted, Agrees H e.pc (words e.pc) e.code) (hpending : s.branchPending = false)
    (h0 : s.gpr 0 = 0)
    (hwords : ∀ c ∈ trace (step H P noPatches) n (.entering start s.pc [] s), HoldsWords words c)
    (hrun : run (step H P noPatches) n (.entering start s.pc [] s) = .returned true [] t)
    (hrunning : t.stopReason = .running) :
    ∃ k > 0, steps (interpretStep H) k s = some t := by
  refine ⟨(trace (step H P noPatches) n (.entering start s.pc [] s)).countP (·.current.isSome), ?_, ?_⟩
  · exact List.countP_pos_iff.2 (executes_of_returned hrun)
  · have hsim : steps (interpretStep H) _ (Config.entering start s.pc [] s).interpreted =
        some (run (step H P noPatches) n (.entering start s.pc [] s)).interpreted :=
      run_simulates (P := Tracks P) (G := HoldsWords words) (Q := fun c => c.state.stopReason = .running)
        (fun c c' hstep hrun => step_running hstep hrun)
        (fun c c' hinv hwords hrun hstep => step_simulates hslots hagrees hinv hwords hrun hstep) n
        ⟨rfl, hpending, h0⟩ hwords (by rw [hrun]; exact hrunning)
    rw [hrun] at hsim
    exact hsim

/-! ### A run -/

theorem agrees_emitted (H : Host) {P : Project} {words : Word → Word}
    (h : (P.image.instructions.all fun x => agreesWord x.2 ∧ words x.1 = x.2) = true) :
    ∀ e ∈ P.emitted, Agrees H e.pc (words e.pc) e.code := by
  intro e he
  obtain ⟨x, hx, rfl⟩ := Project.mem_emitted.1 he
  obtain ⟨hagrees, hwords⟩ := of_decide_eq_true (List.all_eq_true.1 h x hx)
  show Agrees H x.1 (words x.1) (emitInstruction ..)
  rw [hwords]
  exact agrees_of_agreesWord H hagrees _ _ _

theorem Runner.HoldsWords.of_values {words : Word → Word} {c : Config}
    (h : ∀ i ∈ c.current, (c.state.mem.access32 (c.state.memoryBase + i.pc)).isSome = true ∧
      (load32 c.state (c.state.memoryBase + i.pc)).1 = words i.pc ∧
      instructionWord c.state (c.state.memoryBase + i.pc) (words i.pc) = words i.pc) :
    HoldsWords words c := by
  intro i hi
  obtain ⟨haccess, hvalue, himm⟩ := h i hi
  exact .of_value haccess hvalue himm

/-- `addiu $1, $0, 1`, `jr $31`, `nop`. -/
def leafImage : LoadedImage where
  entry := 0
  executableSections := [⟨0, [0x01, 0x00, 0x01, 0x24, 0x08, 0x00, 0xe0, 0x03, 0, 0, 0, 0]⟩]
  loadSegments := [⟨⟨0, 12, 0⟩, [0x01, 0x00, 0x01, 0x24, 0x08, 0x00, 0xe0, 0x03, 0, 0, 0, 0]⟩]
  size := 12
  memory := copyBytes (fun _ => 0) 0 [0x01, 0x00, 0x01, 0x24, 0x08, 0x00, 0xe0, 0x03, 0, 0, 0, 0]
  memorySize_eq := rfl
  memoryImage_eq := rfl
  aligned := by decide

open Machine Runner in
theorem runner_simulates_leafImage :
    let P := emitProject leafImage none 0x1000
    let s := leafImage.start 0x08804000
    ∃ k > 0, steps (interpretStep zeroOperandHost) k s =
      some (run (step zeroOperandHost P noPatches) 4 (.entering 0 s.pc [] s)).state := by
  intro P s
  let words : Word → Word := fun pc => readU32 leafImage.memory pc.toNat
  have hslots : ∀ e ∈ P.emitted, P.isDelaySlot e.pc = true → startsDelayedBranch e.instruction = false := by
    decide
  have hagrees : (P.image.instructions.all fun x => agreesWord x.2 ∧ words x.1 = x.2) = true := by
    decide
  have hwords : ∀ c ∈ trace (step zeroOperandHost P noPatches) 4 (.entering 0 s.pc [] s),
      ∀ i ∈ c.current, (c.state.mem.access32 (c.state.memoryBase + i.pc)).isSome = true ∧
        (load32 c.state (c.state.memoryBase + i.pc)).1 = words i.pc ∧
        instructionWord c.state (c.state.memoryBase + i.pc) (words i.pc) = words i.pc := by
    decide
  have hrun : (run (step zeroOperandHost P noPatches) 4 (.entering 0 s.pc [] s)).result? = some true := by
    decide
  exact runner_simulates zeroOperandHost P words 0 s _ 4 hslots (agrees_emitted _ hagrees) rfl rfl
    (fun c hc => .of_values (hwords c hc)) (Config.eq_of_result hrun) (by decide +kernel)

end Psprism
