import Psprism.ImportStubs
import Psprism.PatchCall

/-!
# Patches on every edge (`functions.inc`, `dispatch.inc`, `include/psprecomp/patch.hpp`)

The patch registry is asked in the dispatcher, with the symbol at the offset of the pc, and at the head of every
runner, with its symbol when it is entered at its start. Wherever control comes to the start of a function, in the
loop of the dispatcher or by a native edge, the two find the same patch, and its hook runs instead of the function
(`hook_on_every_edge`). An address goes before a name: a patch for the symbol of a function does not run where
another patch has been registered for its address.
-/

namespace Psprism.Patch

/-- The patch is for the start of the function, by its address or by its name. -/
def Targets (X : Guest) (start : Word) (s : State) (p : PatchNode HookCode) : Prop :=
  addressMatches s (s.memoryBase + start) p = true ∨
    nameMatches s (s.memoryBase + start) (X.functionSymbol start) p = true

/-- A patch of a validated registry for the start of a function, which is not bypassed; where it is given by a name,
no other one that is not bypassed is for the start. -/
structure Selected (X : Guest) (start : Word) (bypassed : Option Nat) (s : State) (p : PatchNode HookCode) :
    Prop where
  mem : p ∈ X.patches
  valid : validateRegistry s X.patches = true
  free : some p.address ≠ bypassed
  target : Targets X start s p
  alone : addressMatches s (s.memoryBase + start) p = true ∨
    ∀ q ∈ X.patches, some q.address ≠ bypassed → Targets X start s q → q = p

/-- Control comes to the start of the function: the loop of the dispatcher is there, or its runner is called. -/
inductive Arrives (exit : LoopExit) (start : Word) : Phase → Prop
  | loop {remaining cache s} (hpc : s.pc = s.memoryBase + start)
      (hopen : ¬ (s.pc = exit.returnAddress ∧ s.branchPending = false)) :
    Arrives exit start (.loop (remaining + 1) cache s)
  | runner {remaining cache pc stack s} :
    Arrives exit start (.runner remaining cache pc (.entering start (s.memoryBase + start) stack s))

/-- Behind a hook that has handled the call. -/
def afterHook : Phase → State → Phase
  | .loop (remaining + 1) cache _, s => if s.stopReason = .running then .loop remaining cache s else .done s
  | .runner remaining cache pc (.entering _ _ stack _), s => .runner remaining cache pc (.returned true stack s)
  | phase, _ => phase

/-- Behind a hook that has handled the call the state is the hook's. -/
theorem phaseState_afterHook {exit : LoopExit} {start : Word} {phase : Phase} (h : Arrives exit start phase)
    (s : State) : phaseState (afterHook phase s) = s := by
  cases h with
  | loop =>
    rw [afterHook]
    split <;> rfl
  | runner => rfl

/-- The first instruction of the function is about to run. -/
inductive AtStart (start : Word) : Phase → Prop
  | code {remaining cache pc i rest applyDelayedBranch delayedTarget stack s} (hi : i.pc = start) :
    AtStart start (.runner remaining cache pc (.code start (i :: rest) applyDelayedBranch delayedTarget stack s))

/-- The code of the function runs, or goes on behind a call it has made. -/
inductive Inside (start : Word) : Phase → Prop
  | code {remaining cache pc items applyDelayedBranch delayedTarget stack s} :
    Inside start (.runner remaining cache pc (.code start items applyDelayedBranch delayedTarget stack s))
  | resumed {remaining cache pc frame stack s} (hframe : frame.start = start) :
    Inside start (.runner remaining cache pc (.returned true (frame :: stack) s))

section
variable {X : Guest} {R : CallRelation} {exit : LoopExit} {start : Word} {bypassed : Option Nat} {s : State}
  {p : PatchNode HookCode} {bridge : Bridge} {phase : Phase}

theorem Selected.findPatch (h : Selected X start bypassed s p) :
    findPatch X.patches bypassed s (s.memoryBase + start) (X.functionSymbol start) = some p := by
  obtain ⟨hmem, hvalid, hfree, htarget, halone⟩ := h
  rw [Patch.findPatch]
  cases haddress : X.patches.find? fun p =>
      some p.address ≠ bypassed ∧ addressMatches s (s.memoryBase + start) p with
  | some q =>
    have hqfound := List.find?_some haddress
    obtain ⟨hq, hqmatch⟩ := of_decide_eq_true hqfound
    have hqmem := List.mem_of_find?_eq_some haddress
    rcases halone with hpmatch | halone
    · rw [eq_of_target hvalid hqmem hmem (addressMatches_target hqmatch) (addressMatches_target hpmatch),
        Option.some_or]
    · rw [halone q hqmem hq (.inl hqmatch), Option.some_or]
  | none =>
    have hnot : ¬ addressMatches s (s.memoryBase + start) p = true := fun hmatch =>
      List.find?_eq_none.1 haddress p hmem (decide_eq_true ⟨hfree, hmatch⟩)
    have hname := htarget.resolve_left hnot
    have halone := halone.resolve_left hnot
    rw [Option.none_or]
    cases hfound : X.patches.find? fun p => some p.address ≠ bypassed ∧
        nameMatches s (s.memoryBase + start) (X.functionSymbol start) p with
    | some q =>
      have hqfound := List.find?_some hfound
      obtain ⟨hq, hqmatch⟩ := of_decide_eq_true hqfound
      rw [halone q (List.mem_of_find?_eq_some hfound) hq (.inr hqmatch)]
    | none => exact absurd (decide_eq_true ⟨hfree, hname⟩) (List.find?_eq_none.1 hfound p hmem)

/-- Both places ask for the same patch. -/
theorem patchAt_of_arrives (h : Arrives exit start phase) :
    X.patchAt bridge phase =
      (findPatch X.patches bridge.bypassedPatch (phaseState phase) ((phaseState phase).memoryBase + start)
        (X.functionSymbol start)).map (·, (phaseState phase).memoryBase + start) := by
  cases h with
  | @loop _ _ s hpc _ =>
    have hoffset : s.memoryBase + start - s.memoryBase = start := by rw [BitVec.add_comm, BitVec.add_sub_cancel]
    simp only [Guest.patchAt, phaseState, hpc, hoffset]
  | runner => simp only [Guest.patchAt, phaseState, Config.state, if_true]

theorem patchAt_of_selected (harrives : Arrives exit start phase)
    (h : Selected X start bridge.bypassedPatch (phaseState phase) p) :
    X.patchAt bridge phase = some (p, (phaseState phase).memoryBase + start) := by
  rw [patchAt_of_arrives harrives, h.findPatch]
  rfl

/-- A step from the start of the function is the call of the hook. -/
theorem GuestStep.of_arrives {b : Bridge × Phase} (harrives : Arrives exit start phase)
    (hselected : Selected X start bridge.bypassedPatch (phaseState phase) p)
    (h : GuestStep X R exit (bridge, phase) b) :
    ∃ handled w', Invoke R p ((phaseState phase).memoryBase + start) ⟨bridge, phaseState phase⟩ handled w' ∧
      (handled = true → b = (w'.bridge, afterHook phase w'.state)) := by
  have hfound := patchAt_of_selected harrives hselected
  cases h with
  | plain _ hpatch _ => rw [hfound] at hpatch; cases hpatch
  | hooked hopen hpatch hinvoke hstep =>
    rw [hfound] at hpatch
    obtain ⟨rfl, rfl⟩ := Prod.mk.inj (Option.some.inj hpatch)
    refine ⟨_, _, hinvoke, ?_⟩
    rintro rfl
    cases harrives with
    | loop hpc hreturn =>
      rw [Program.step, if_neg hreturn] at hstep
      rw [← Option.some.inj hstep]
      rfl
    | runner =>
      simp only [Program.step, Runner.step, Guest.program] at hstep
      rw [← Option.some.inj hstep]
      rfl

/-! ### How control gets to the first instruction -/

theorem afterItem_code {P : Project} {start' : Word} {i : Item} {rest items : List Item}
    {applyDelayedBranch applyDelayedBranch' : Bool} {delayedTarget delayedTarget' : Word} {stack stack' : List Frame}
    {s s' : State}
    (h : Runner.afterItem P start i rest applyDelayedBranch delayedTarget stack s =
      .code start' items applyDelayedBranch' delayedTarget' stack' s') : start' = start := by
  have hgoto {t : State} (hgoto : Runner.gotoEdge P start i delayedTarget stack t =
      .code start' items applyDelayedBranch' delayedTarget' stack' s') : start' = start := by
    rw [Runner.gotoEdge] at hgoto
    grind
  rw [Runner.afterItem] at h
  split at h
  · cases h
  split at h
  · rw [Runner.delayedBranch] at h
    split at h
    · split at h
      · cases h
      · exact hgoto h
    · split at h
      · cases h
      · exact hgoto h
    · exact hgoto h
  split at h
  · split at h
    · cases h
    · split at h
      · cases h; rfl
      · cases h
  · rw [Runner.fallThrough] at h
    split at h
    · cases h; rfl
    · cases h

theorem afterDispatch_ne_runner {Y : Program} {remaining remaining' : Nat} {cache cache' : DispatchCache}
    {pc pc' : Word} {result : Bool × State} {c : Config} :
    Y.afterDispatch remaining cache pc result ≠ .runner remaining' cache' pc' c := by
  rw [Program.afterDispatch]
  intro h
  split at h
  · split at h <;> cases h
  · split at h
    · cases h
    · split at h <;> cases h

/-- The dispatcher enters a runner. -/
theorem dispatchBlock_runner {Y : Program} {remaining remaining' : Nat} {cache cache' : DispatchCache}
    {s : State} {pc pc' : Word} {c : Config}
    (h : Y.dispatchBlock remaining cache s pc = .runner remaining' cache' pc' c) :
    pc' = pc ∧ Y.patches s pc = none ∧ ∃ start s', c = .entering start pc [] s' := by
  rw [Program.dispatchBlock] at h
  split at h
  · exact absurd h afterDispatch_ne_runner
  next hpatch =>
  split at h
  · exact absurd h afterDispatch_ne_runner
  dsimp only at h
  split at h
  · cases h; exact ⟨rfl, hpatch, _, _, rfl⟩
  split at h
  · cases h; exact ⟨rfl, hpatch, _, _, rfl⟩
  · exact absurd h afterDispatch_ne_runner

/-- What a runner does before the first instruction of a function. -/
theorem runnerStep_code {H : Host} {P : Project} {patches : Patches} {c : Config} {i : Item} {rest : List Item}
    {applyDelayedBranch : Bool} {delayedTarget : Word} {stack : List Frame}
    (h : Runner.step H P patches c = some (.code start (i :: rest) applyDelayedBranch delayedTarget stack s)) :
    (∃ items applyDelayedBranch' delayedTarget' stack' s',
        c = .code start items applyDelayedBranch' delayedTarget' stack' s') ∨
      (∃ frame stack' s', c = .returned true (frame :: stack') s' ∧ frame.start = start) ∨
      ∃ s', c = .entering start (s'.memoryBase + i.pc) stack s' ∧ patches s' (s'.memoryBase + i.pc) = none := by
  cases c with
  | entering start' entryPc stack' s' =>
    refine .inr (.inr ⟨s', ?_⟩)
    rw [Runner.step] at h
    split at h
    · cases h
    next hpatch =>
    rw [Runner.enter] at h
    split at h
    · cases h
    next hlabel =>
      cases h
      obtain ⟨-, hpc⟩ := Project.label_pc hlabel
      have hentry : s'.memoryBase + i.pc = entryPc := by rw [hpc, BitVec.add_comm, BitVec.sub_add_cancel]
      rw [hentry]
      exact ⟨rfl, hpatch⟩
  | code start' items applyDelayedBranch' delayedTarget' stack' s' =>
    cases items with
    | nil => cases h
    | cons j items =>
      obtain rfl := afterItem_code (Option.some.inj h)
      exact .inl ⟨_, _, _, _, _, rfl⟩
  | returned result stack' s' =>
    cases stack' with
    | nil => cases result <;> cases h
    | cons frame stack' =>
      cases result with
      | false => cases h
      | true =>
        refine .inr (.inl ⟨frame, stack', s', rfl, ?_⟩)
        have hcall := Option.some.inj h
        rw [Runner.afterCall] at hcall
        grind

theorem step_atStart {patches : Patches} {t : Phase} (h : (X.program patches).step exit phase = some t)
    (hstart : AtStart start t) :
    Inside start phase ∨ ∃ remaining cache pc stack s,
      phase = .runner remaining cache pc (.entering start (s.memoryBase + start) stack s) ∧
        patches s (s.memoryBase + start) = none := by
  cases hstart with
  | code hi =>
    cases phase with
    | done s' => cases h
    | loop remaining cache s' =>
      cases remaining with
      | zero => cases h
      | succ remaining =>
        rw [Program.step] at h
        split at h
        · cases h
        · obtain ⟨-, -, _, _, hc⟩ := dispatchBlock_runner (Option.some.inj h)
          cases hc
    | runner remaining cache pc c =>
      rw [Program.step] at h
      split at h
      next c' hc' =>
        cases h
        rcases runnerStep_code hc' with ⟨_, _, _, _, _, rfl⟩ | ⟨frame, _, _, rfl, hframe⟩ | ⟨s', rfl, hpatch⟩
        · exact .inl .code
        · exact .inl (.resumed hframe)
        · rw [hi] at hpatch ⊢
          exact .inr ⟨_, _, _, _, _, rfl, hpatch⟩
      · obtain ⟨_, -, hafter⟩ := Option.map_eq_some_iff.1 h
        exact absurd hafter afterDispatch_ne_runner

/-- The first instruction runs from inside the function, or where its runner is called and finds no patch. -/
theorem GuestStep.of_atStart {b : Bridge × Phase} (h : GuestStep X R exit (bridge, phase) b)
    (hstart : AtStart start b.2) : Inside start phase ∨ Arrives exit start phase ∧ X.patchAt bridge phase = none := by
  cases h with
  | plain _ hpatch hstep =>
    rcases step_atStart hstep hstart with hinside | ⟨_, _, _, _, _, rfl, -⟩
    · exact .inl hinside
    · exact .inr ⟨.runner, hpatch⟩
  | hooked _ _ _ hstep =>
    rcases step_atStart hstep hstart with hinside | ⟨_, _, _, _, _, -, hnone⟩
    · exact .inl hinside
    · cases hnone

/-! ### Runs -/

theorem step_runner {patches : Patches} {remaining : Nat} {cache : DispatchCache} {pc : Word} {c : Config}
    (h : (X.program patches).step exit phase = some (.runner remaining cache pc c)) :
    (∃ c', phase = .runner remaining cache pc c') ∨
      ∃ remaining' cache' s, phase = .loop (remaining' + 1) cache' s ∧ s.pc = pc ∧
        ¬ (s.pc = exit.returnAddress ∧ s.branchPending = false) ∧ patches s s.pc = none := by
  cases phase with
  | done s => cases h
  | loop remaining' cache' s =>
    cases remaining' with
    | zero => cases h
    | succ remaining' =>
      rw [Program.step] at h
      split at h
      · cases h
      next hreturn =>
        obtain ⟨hpc, hpatch, -⟩ := dispatchBlock_runner (Option.some.inj h)
        exact .inr ⟨_, _, s, rfl, hpc.symm, hreturn, hpatch⟩
  | runner remaining' cache' pc' c' =>
    rw [Program.step] at h
    split at h
    · cases h
      exact .inl ⟨c', rfl⟩
    · obtain ⟨_, -, hafter⟩ := Option.map_eq_some_iff.1 h
      exact absurd hafter afterDispatch_ne_runner

/-- Where the dispatcher has called a runner, it had found no patch for the pc. -/
theorem dispatched_of_run {bridge₀ : Bridge} {phase₀ : Phase}
    (h₀ : ∀ remaining cache pc c, phase₀ ≠ .runner remaining cache pc c) {b : Bridge × Phase}
    (h : Relation.ReflTransGen (GuestStep X R exit) (bridge₀, phase₀) b)
    {remaining : Nat} {cache : DispatchCache} {pc : Word} {c : Config} (hb : b.2 = .runner remaining cache pc c) :
    ∃ bridge remaining cache s,
      Relation.ReflTransGen (GuestStep X R exit) (bridge₀, phase₀) (bridge, .loop (remaining + 1) cache s) ∧
        s.pc = pc ∧ ¬ (s.pc = exit.returnAddress ∧ s.branchPending = false) ∧
        X.patchAt bridge (.loop (remaining + 1) cache s) = none := by
  induction h generalizing remaining cache pc c with
  | refl => exact absurd hb (h₀ _ _ _ _)
  | tail hrun hstep ih =>
    cases hstep with
    | plain _ hpatch hstep =>
      obtain rfl : _ = Phase.runner remaining cache pc c := hb
      rcases step_runner hstep with ⟨c', rfl⟩ | ⟨_, _, s, rfl, hpc, hreturn, -⟩
      · exact ih rfl
      · exact ⟨_, _, _, s, hrun, hpc, hreturn, hpatch⟩
    | hooked _ _ _ hstep =>
      obtain rfl : _ = Phase.runner remaining cache pc c := hb
      rcases step_runner hstep with ⟨c', rfl⟩ | ⟨_, _, _, _, _, _, hnone⟩
      · exact ih rfl
      · cases hnone

end

/-- In a run of the dispatcher's loop: wherever control comes to the start of a function, the hook of the patch that
is selected for it runs, once, and the run goes on behind it; the first instruction of the function runs from inside
the function only; and the dispatcher calls no runner and no interpreter for the address. A run bypasses the patch
that it has bypassed from the first. -/
theorem hook_on_every_edge (X : Guest) (n : Nat) (exit : LoopExit) (start : Word) (p : PatchNode HookCode)
    (bridge₀ bridge : Bridge) (budget : Nat) (cache₀ : DispatchCache) (s₀ : State) (phase : Phase)
    (hrun : Relation.ReflTransGen (GuestStep X (Calls X n) exit) (bridge₀, .loop budget cache₀ s₀) (bridge, phase)) :
    bridge.bypassedPatch = bridge₀.bypassedPatch ∧
      (Selected X start bridge₀.bypassedPatch (phaseState phase) p → ∀ b,
        GuestStep X (Calls X n) exit (bridge, phase) b →
          (Arrives exit start phase → ∃ handled w',
            Invoke (Calls X n) p ((phaseState phase).memoryBase + start) ⟨bridge, phaseState phase⟩ handled w' ∧
              (handled = true → b = (w'.bridge, afterHook phase w'.state))) ∧
          (AtStart start b.2 → Inside start phase)) ∧
      ∀ remaining cache pc c, phase = .runner remaining cache pc c →
        ∃ bridge₁ remaining₁ cache₁ s₁,
          Relation.ReflTransGen (GuestStep X (Calls X n) exit) (bridge₀, .loop budget cache₀ s₀)
              (bridge₁, .loop (remaining₁ + 1) cache₁ s₁) ∧
            s₁.pc = pc ∧ ¬ (pc = s₁.memoryBase + start ∧ Selected X start bridge₀.bypassedPatch s₁ p) := by
  have hcalls : ∀ request w callExit result w', Calls X n request w callExit result w' →
      SameGuards w.bridge w'.bridge := fun _ _ _ _ _ h => calls_guards h
  have hbypassed : bridge.bypassedPatch = bridge₀.bypassedPatch := (guards_of_run hcalls hrun).bypassedPatch
  refine ⟨hbypassed, fun hselected b hstep => ⟨fun harrives => ?_, fun hstart => ?_⟩, ?_⟩
  · rw [← hbypassed] at hselected
    exact hstep.of_arrives harrives hselected
  · rcases hstep.of_atStart hstart with hinside | ⟨harrives, hnone⟩
    · exact hinside
    · rw [← hbypassed] at hselected
      rw [patchAt_of_selected harrives hselected] at hnone
      cases hnone
  · rintro remaining cache pc c rfl
    obtain ⟨bridge₁, remaining₁, cache₁, s₁, hrun₁, hpc, hreturn, hnone⟩ :=
      dispatched_of_run (fun _ _ _ _ h => by cases h) hrun rfl
    refine ⟨bridge₁, remaining₁, cache₁, s₁, hrun₁, hpc, fun ⟨haddress, hselected⟩ => ?_⟩
    rw [← (guards_of_run hcalls hrun₁).bypassedPatch] at hselected
    rw [patchAt_of_selected (.loop (hpc.trans haddress) hreturn) hselected] at hnone
    cases hnone

/-! ### Two patches for one function -/

/-- A patch whose hook returns `value`. -/
def returningPatch (address : Nat) (target : GuestAddress) (targetName : Option String) (value : Word) :
    PatchNode HookCode where
  address
  target
  targetName
  hook := some (.work (fun s => (s.setGpr 2 value).setPc (s.gpr 31)) fun _ => .finish true)

/-- The function at the image's base, by its symbol and by its address. -/
def drawByName : PatchNode HookCode := returningPatch 1 {} (some "draw_frame") 1

def drawByAddress : PatchNode HookCode := returningPatch 2 ⟨0, .imageOffset⟩ none 2

def drawGuest (patches : List (PatchNode HookCode)) : Guest where
  H := zeroOperandHost
  project := emitProject stubImage none 0x1000
  importEffects _ s := s
  functionSymbol offset := if offset = 0 then some "draw_frame" else none
  patches
  hostAddress _ := 0

/-- The loop at the start of the function. -/
def drawPhase : Phase := .loop 10 (fun _ => none) (stubImage.start 0x08804000)

theorem arrives_drawPhase : Arrives (.run 0x08800000) 0 drawPhase := .loop (by decide) (by decide)

/-- The hook of `returningPatch` runs. -/
theorem invoke_returningPatch (R : CallRelation) (address : Nat) (target : GuestAddress) (targetName : Option String)
    (value pc : Word) (bridge : Bridge) (s : State) :
    Invoke R (returningPatch address target targetName value) pc ⟨bridge, s⟩ true
      ⟨bridge, (s.setGpr 2 value).setPc (s.gpr 31)⟩ := by
  have hrun : HookRun R (.work (fun s => (s.setGpr 2 value).setPc (s.gpr 31)) fun _ => .finish true)
      ⟨{ bridge with activeState := true, activePatch := some address, activePatchAddress := pc }, s⟩ true
      ⟨{ bridge with activeState := true, activePatch := some address, activePatchAddress := pc },
        (s.setGpr 2 value).setPc (s.gpr 31)⟩ := .work .finish
  have hinvoke := Invoke.hook (R := R) (p := returningPatch address target targetName value)
    (w := ⟨bridge, s⟩) rfl hrun
  exact hinvoke

theorem Invoke.of_returningPatch {R : CallRelation} {address : Nat} {target : GuestAddress}
    {targetName : Option String} {value pc : Word} {w w' : World} {handled : Bool}
    (h : Invoke R (returningPatch address target targetName value) pc w handled w') :
    handled = true ∧ w'.state = (w.state.setGpr 2 value).setPc (w.state.gpr 31) := by
  cases h with
  | noHook hnone => cases hnone
  | hook hsome hcode =>
    cases hsome
    cases hcode with
    | work hcode =>
      cases hcode
      exact ⟨rfl, rfl⟩

/-- The patch for the symbol alone runs. -/
theorem hook_on_every_edge_draw :
    ∃ b handled w', GuestStep (drawGuest [drawByName]) (Calls (drawGuest [drawByName]) 1) (.run 0x08800000)
        ({}, drawPhase) b ∧
      Invoke (Calls (drawGuest [drawByName]) 1) drawByName ((phaseState drawPhase).memoryBase + 0)
        ⟨{}, phaseState drawPhase⟩ handled w' ∧ (handled = true → b = (w'.bridge, afterHook drawPhase w'.state)) := by
  have hselected : Selected (drawGuest [drawByName]) 0 none (phaseState drawPhase) drawByName :=
    { mem := List.mem_singleton.2 rfl
      valid := by decide
      free := by simp
      target := .inr (by decide)
      alone := .inr fun q hq _ _ => List.mem_singleton.1 hq }
  have hopen : endOf (.run 0x08800000) drawPhase = none := by
    rw [drawPhase, endOf, if_neg (by decide)]
  have hfound : (drawGuest [drawByName]).patchAt {} drawPhase = _ := patchAt_of_selected arrives_drawPhase hselected
  have hstep := GuestStep.hooked hopen hfound
    (invoke_returningPatch (Calls (drawGuest [drawByName]) 1) 1 {} (some "draw_frame") 1 _ {} _) rfl
  have hrun := hook_on_every_edge (drawGuest [drawByName]) 1 (.run 0x08800000) 0 drawByName {} {} 10 (fun _ => none)
    (stubImage.start 0x08804000) drawPhase .refl
  obtain ⟨handled, w', hinvoke, hb⟩ := (hrun.2.1 hselected _ hstep).1 arrives_drawPhase
  exact ⟨_, handled, w', hstep, hinvoke, hb⟩

/-- A validated registry has a patch for the symbol of an emitted function, but at its start the hook of the patch for
its address runs. -/
theorem hook_differs :
    let X := drawGuest [drawByName, drawByAddress]
    validateRegistry (phaseState drawPhase) X.patches = true ∧ X.project.isFunction 0 = true ∧
      drawByName ∈ X.patches ∧ drawByName.targetName = X.functionSymbol 0 ∧
      (phaseState drawPhase).branchPending = false ∧ Arrives (.run 0x08800000) 0 drawPhase ∧
      ∀ n b, GuestStep X (Calls X n) (.run 0x08800000) ({}, drawPhase) b → (phaseState b.2).gpr 2 = 2 := by
  refine ⟨by decide, by decide, List.mem_cons_self, rfl, by decide, arrives_drawPhase, ?_⟩
  intro n b hstep
  have hselected : Selected (drawGuest [drawByName, drawByAddress]) 0 none (phaseState drawPhase) drawByAddress :=
    { mem := List.mem_cons_of_mem _ List.mem_cons_self
      valid := by decide
      free := by simp
      target := .inl (by decide)
      alone := .inl (by decide) }
  obtain ⟨handled, w', hinvoke, hb⟩ := hstep.of_arrives arrives_drawPhase hselected
  obtain ⟨rfl, hstate⟩ := hinvoke.of_returningPatch
  rw [hb rfl, phaseState_afterHook arrives_drawPhase, hstate]
  rfl

end Psprism.Patch
