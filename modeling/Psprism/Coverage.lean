import Psprism.CodeMapFile
import Psprism.DispatcherSim

/-!
# Instruction coverage (`src/emitter/coverage.cpp`)

`analyze_coverage` sorts the words of the executable sections that the code map contains by how they are
lowered, and accepts the image when none of them is invalid. What it accepts is safe to run: a dispatcher
loop over the emitted project that keeps to these words never stops over an instruction, neither in
translated code, which stops at a reserved word with `invalid_pc`, nor in the interpreter
(`coverage_sound`). What it rejects holds a word at which both stop.
-/

namespace Psprism

/-! ### The analysis -/

/-- `MissingGroup`: how many words, and the first of them. -/
structure MissingGroup where
  count : Nat := 0
  examplePc : Word := 0
  exampleInstruction : Word := 0
deriving DecidableEq, Repr

def MissingGroup.add (group : MissingGroup) (pc w : Word) : MissingGroup :=
  let group := if group.count = 0 then { group with examplePc := pc, exampleInstruction := w } else group
  { group with count := group.count + 1 }

/-- `std::map<std::string, MissingGroup>`, in the order of the names. -/
abbrev MissingGroups := List (String × MissingGroup)

namespace MissingGroups

/-- A word counted in `groups[name]`. -/
def add (name : String) (pc w : Word) : MissingGroups → MissingGroups
  | [] => [(name, MissingGroup.add {} pc w)]
  | (other, group) :: rest =>
    if name = other then (other, group.add pc w) :: rest
    else if name < other then (name, MissingGroup.add {} pc w) :: (other, group) :: rest
    else (other, group) :: add name pc w rest

def total (groups : MissingGroups) : Nat := (groups.map (·.2.count)).sum

end MissingGroups

/-- `std::hex` with `std::setfill('0')` and a width. -/
def hexDigits (width value : Nat) : String :=
  let digits := Nat.toDigits 16 value
  String.ofList (List.replicate (width - digits.length) '0' ++ digits)

/-- `hex`. -/
def hexWord (value : Word) : String := "0x" ++ hexDigits 8 value.toNat ++ "U"

def opcodeGroup (w : Word) : String :=
  let decoded := decodeAllegrex w
  if decoded.valid then decoded.name
  else
    let op := (opOf w).toNat
    "op_" ++ hexDigits 2 op ++
      (if op = 0 then "_special_" ++ hexDigits 2 (functionOf w).toNat
      else if op = 1 then "_regimm_" ++ hexDigits 2 (rtOf w).toNat
      else if 0x10 ≤ op ∧ op ≤ 0x12 then "_rs_" ++ hexDigits 2 (rsOf w).toNat
      else "")

/-- The counters of `analyze_coverage`. -/
structure Coverage where
  translated : Nat := 0
  excluded : Nat := 0
  guarded : MissingGroups := []
  fallback : MissingGroups := []
  invalid : MissingGroups := []
deriving DecidableEq, Repr

/-- The code map, if there is one, contains the address. -/
def isMapped (codeMap : Option CodeMapFile.CodeMap) (pc : Word) : Bool := codeMap.all (·.contains pc)

namespace Coverage

/-- A turn of the loop. -/
def add (codeMap : Option CodeMapFile.CodeMap) (c : Coverage) (instruction : Word × Word) : Coverage :=
  let (pc, w) := instruction
  if ¬ isMapped codeMap pc then { c with excluded := c.excluded + 1 }
  else
    match (decodeAllegrex w).lowering with
    | .native => { c with translated := c.translated + 1 }
    | .guardedNative => { c with guarded := c.guarded.add (opcodeGroup w) pc w }
    | .runtimeFallback => { c with fallback := c.fallback.add (opcodeGroup w) pc w }
    | .invalid => { c with invalid := c.invalid.add (opcodeGroup w) pc w }

def ofImage (image : ElfImage) (codeMap : Option CodeMapFile.CodeMap) : Coverage :=
  image.instructions.foldl (add codeMap) {}

def reportGroups (label : String) (groups : MissingGroups) : List String :=
  groups.map fun (name, group) =>
    label ++ " " ++ name ++ " count=" ++ toString group.count ++ " example_pc=" ++ hexWord group.examplePc ++
      " instruction=" ++ hexWord group.exampleInstruction

/-- The lines written to the output. -/
def report (c : Coverage) : List String :=
  ["translated_words=" ++ toString c.translated, "excluded_words=" ++ toString c.excluded] ++
    reportGroups "guarded_native" c.guarded ++ ["guarded_native_words=" ++ toString c.guarded.total] ++
    reportGroups "fallback" c.fallback ++ ["fallback_words=" ++ toString c.fallback.total] ++
    reportGroups "invalid" c.invalid ++
    ["invalid_words=" ++ toString c.invalid.total, "unsupported_words=" ++ toString c.invalid.total]

end Coverage

def analyzeCoverage (image : ElfImage) (codeMap : Option CodeMapFile.CodeMap) : Bool × List String :=
  let c := Coverage.ofImage image codeMap
  (c.invalid.total = 0, c.report)

/-- The words that the code map contains, with their addresses. -/
def mappedWords (image : ElfImage) (codeMap : Option CodeMapFile.CodeMap) : List (Word × Word) :=
  image.instructions.filter fun x => isMapped codeMap x.1

/-! ### What is counted -/

theorem MissingGroup.add_count (group : MissingGroup) (pc w : Word) :
    (group.add pc w).count = group.count + 1 := by
  unfold add
  dsimp only
  split <;> rfl

namespace MissingGroups

@[simp] theorem total_nil : total [] = 0 := rfl

@[simp] theorem total_cons (x : String × MissingGroup) (groups : MissingGroups) :
    total (x :: groups) = x.2.count + total groups := rfl

theorem total_add (name : String) (pc w : Word) (groups : MissingGroups) :
    (groups.add name pc w).total = groups.total + 1 := by
  induction groups with
  | nil => rfl
  | cons x rest ih =>
    rcases x with ⟨other, group⟩
    unfold add
    split_ifs
    · rw [total_cons, total_cons, MissingGroup.add_count]
      exact Nat.add_right_comm ..
    · rw [total_cons, MissingGroup.add_count]
      exact Nat.add_comm ..
    · rw [total_cons, total_cons, ih]
      omega

end MissingGroups

namespace Coverage
variable {codeMap : Option CodeMapFile.CodeMap}

/-- The words a mapped word of each lowering adds to the counters. -/
def words (c : Coverage) : Nat :=
  c.translated + c.excluded + c.guarded.total + c.fallback.total + c.invalid.total

theorem words_add (c : Coverage) (x : Word × Word) : (add codeMap c x).words = c.words + 1 := by
  unfold add words
  dsimp only
  split_ifs
  · split
    · dsimp only
      omega
    all_goals
      dsimp only
      rw [MissingGroups.total_add]
      omega
  · dsimp only
    omega

/-- Each word is counted once. -/
theorem words_ofImage (image : ElfImage) (codeMap : Option CodeMapFile.CodeMap) :
    (ofImage image codeMap).words = image.instructions.length := by
  have hfold : ∀ (l : List (Word × Word)) (c : Coverage), (l.foldl (add codeMap) c).words = c.words + l.length := by
    intro l
    induction l with
    | nil => exact fun c => rfl
    | cons x rest ih =>
      intro c
      rw [List.foldl_cons, ih, words_add, List.length_cons]
      omega
  rw [ofImage, hfold]
  exact Nat.zero_add _

def isInvalid (codeMap : Option CodeMapFile.CodeMap) (x : Word × Word) : Bool :=
  isMapped codeMap x.1 ∧ (decodeAllegrex x.2).valid = false

theorem invalid_add (c : Coverage) (x : Word × Word) :
    (add codeMap c x).invalid.total = c.invalid.total + (isInvalid codeMap x).toNat := by
  unfold add isInvalid DecodedInstruction.valid
  dsimp only
  split_ifs with h
  · rw [h]
    split <;> rename_i hl <;> rw [hl]
    · rfl
    · rfl
    · rfl
    · exact MissingGroups.total_add ..
  · rw [Bool.eq_false_of_not_eq_true h]
    rfl

/-- The groups of invalid words count the mapped words that do not decode. -/
theorem invalid_ofImage (image : ElfImage) (codeMap : Option CodeMapFile.CodeMap) :
    (ofImage image codeMap).invalid.total = image.instructions.countP (isInvalid codeMap) := by
  have hfold : ∀ (l : List (Word × Word)) (c : Coverage),
      (l.foldl (add codeMap) c).invalid.total = c.invalid.total + l.countP (isInvalid codeMap) := by
    intro l
    induction l with
    | nil => exact fun c => rfl
    | cons x rest ih =>
      intro c
      rw [List.foldl_cons, ih, invalid_add, List.countP_cons, Nat.add_assoc, Nat.add_comm (List.countP ..)]
      cases isInvalid codeMap x <;> rfl
  rw [ofImage, hfold]
  exact Nat.zero_add _

end Coverage

/-- The analysis accepts when every mapped word decodes. -/
theorem analyzeCoverage_iff (image : ElfImage) (codeMap : Option CodeMapFile.CodeMap) :
    (analyzeCoverage image codeMap).1 = true ↔
      ∀ x ∈ mappedWords image codeMap, (decodeAllegrex x.2).valid = true := by
  have hfirst : (analyzeCoverage image codeMap).1 = true ↔ (Coverage.ofImage image codeMap).invalid.total = 0 :=
    decide_eq_true_iff
  rw [hfirst, Coverage.invalid_ofImage, List.countP_eq_zero]
  constructor
  · intro h x hx
    obtain ⟨hx, hmapped⟩ := List.mem_filter.1 hx
    by_contra hvalid
    exact h x hx (decide_eq_true ⟨hmapped, Bool.eq_false_of_not_eq_true hvalid⟩)
  · intro h x hx hinvalid
    obtain ⟨hmapped, hvalid⟩ := of_decide_eq_true hinvalid
    rw [h x (List.mem_filter.2 ⟨hx, hmapped⟩)] at hvalid
    cases hvalid

/-- One word of each kind, and one that the code map excludes. -/
example :
    let bytes : List Byte :=
      [0x2a, 0x00, 0x02, 0x24, 0xa3, 0x80, 0x03, 0xd0, 0x01, 0x00, 0x40, 0x00, 0xff, 0xff, 0xff, 0xff,
        0x00, 0x00, 0x00, 0x60, 0x00, 0x60, 0xc0, 0x63]
    let image : ElfImage := { entry := 0, executableSections := [⟨0x1000, bytes⟩], loadSegments := [] }
    let c := Coverage.ofImage image (some { excludedRanges := [⟨0x100c, 0x1010⟩] })
    (c.translated, c.excluded, c.guarded.total, c.fallback.total, c.invalid.total) = (1, 1, 1, 2, 1) := by
  decide +kernel

/-! ### Words that decode -/

section
variable {w pc currentPc : Word}

theorem Stmt.reserved_of_plain {p : Stmt} (h : p.plain = true) : p.reserved = false := by
  induction p with
  | invalidPc => cases h
  | seq a b iha ihb =>
    obtain ⟨ha, hb⟩ := Bool.and_eq_true_iff.1 h
    exact Bool.or_eq_false_iff.2 ⟨iha ha, ihb hb⟩
  | ifThen c a ih => exact ih h
  | ifElse c a b iha ihb =>
    obtain ⟨ha, hb⟩ := Bool.and_eq_true_iff.1 h
    exact Bool.or_eq_false_iff.2 ⟨iha ha, ihb hb⟩
  | ifIdentity a b iha ihb =>
    obtain ⟨ha, hb⟩ := Bool.and_eq_true_iff.1 h
    exact Bool.or_eq_false_iff.2 ⟨iha ha, ihb hb⟩
  | _ => rfl

theorem emitBranch_reserved (c : Cond) (target : Expr) (pc : Word) (likely : Bool) :
    (emitBranch c target pc likely).reserved = false := by
  unfold emitBranch
  split <;> rfl

theorem emitNative_control_reserved (hw : ControlWord w) (pc : Word) (relocated : Bool) (preferredBase : Word) :
    (emitNative pc w relocated preferredBase).reserved = false := by
  rcases hw.cases with ⟨hop, hf⟩ | ⟨hop, hf⟩ | ⟨hop, hrt⟩ | hop | hop | hop | ⟨hop, hrs⟩
  · simp only [emitNative, hop, emitSpecial, hf]
    rfl
  · simp only [emitNative, hop, emitSpecial, hf]
    split <;> rfl
  · simp only [emitNative, hop, emitRegimm, hrt, not_true_eq_false, if_false]
    split
    · exact emitBranch_reserved ..
    · exact emitBranch_reserved ..
  · simp only [emitNative, hop, emitJump]
    rfl
  · simp only [emitNative, hop, emitJump]
    rfl
  · simp only [branchOps, List.mem_cons, List.not_mem_nil, or_false] at hop
    rcases hop with hop | hop | hop | hop | hop | hop | hop | hop <;> simp only [emitNative, hop] <;>
      exact emitBranch_reserved ..
  · simp only [emitNative, hop, emitCop1, hrs]
    exact emitBranch_reserved ..

/-- The statement of a word that decodes runs no reserved word. -/
theorem emitInstruction_reserved (hw : (decodeAllegrex w).valid = true) (pc : Word) (relocated : Bool)
    (preferredBase : Word) : (emitInstruction pc w relocated preferredBase).reserved = false := by
  unfold emitInstruction
  split
  · rename_i hl
    rw [DecodedInstruction.valid, hl] at hw
    cases hw
  · rfl
  · rfl
  · rename_i hl
    have hl : (classify w).lowering = .native := hl
    by_cases hd : (classify w).flags.delayedBranch = true
    · exact emitNative_control_reserved ⟨hl, hd⟩ pc relocated preferredBase
    by_cases hsys : opOf w = 0x00#6 ∧ functionOf w = 0x0c#6
    · simp only [emitNative, hsys, emitSpecial]
      rfl
    · exact Stmt.reserved_of_plain
        (emitNative_plain ⟨hl, Bool.eq_false_of_not_eq_true hd, hsys⟩ pc relocated preferredBase)

end

section
variable {reasons : StopReason → Bool} {H : Host} {s : State} {currentPc w : Word}
  (hreasons : StopReason.Ordinary reasons)
include hreasons

omit hreasons in
theorem Classification.nativeIf_valid {c : Bool} {name : String} (h : (nativeIf c name).lowering ≠ .invalid) :
    c = true := by
  cases c with
  | false => exact absurd rfl h
  | true => rfl

theorem interpretSpecial_stopsFrom
    (h : (Classification.special (rsOf w) (shiftOf w) (functionOf w)).lowering ≠ .invalid) :
    s.StopsFrom reasons (interpretSpecial s currentPc w) := by
  unfold interpretSpecial
  dsimp only
  split <;> try exact .of_eq rfl
  · split <;> exact .of_eq rfl
  · split <;> exact .of_eq rfl
  · split <;> exact .of_eq rfl
  · exact Or.inr hreasons.syscall
  · unfold interpretDiv
    split_ifs <;> exact .of_eq rfl
  · unfold interpretDivu
    split_ifs <;> exact .of_eq rfl
  · refine absurd ?_ h
    unfold Classification.special
    split <;> first | rfl | contradiction

omit hreasons in
theorem branch_stopsFrom (condition likely : Bool) :
    s.StopsFrom reasons (s.branch currentPc w condition likely) := by
  unfold State.branch
  split_ifs <;> exact .of_eq rfl

omit hreasons in
theorem interpretRegimm_stopsFrom (h : (Classification.regimm (rtOf w)).lowering ≠ .invalid) :
    s.StopsFrom reasons (interpretRegimm s currentPc w) := by
  have hdefined : regimmDefined (rtOf w) = true := by
    generalize rtOf w = rt at h
    revert rt
    decide
  unfold interpretRegimm
  dsimp only
  rw [hdefined, if_neg (not_not.2 rfl)]
  refine .trans (.of_eq ?_) (branch_stopsFrom ..)
  split <;> rfl

omit hreasons in
theorem interpretSingle_stopsFrom (h : Classification.scalarFunction (functionOf w) = true) :
    s.StopsFrom reasons (interpretSingle H s currentPc w) := by
  unfold interpretSingle
  dsimp only
  split <;> try exact .of_eq rfl
  · split <;> exact .of_eq rfl
  · split
    · exact .of_eq rfl
    · rename_i hf
      rcases scalarFunction_cases _ h with hmem | hle
      · simp only [List.mem_cons, List.not_mem_nil, or_false] at hmem
        rcases hmem with hmem | hmem | hmem | hmem | hmem | hmem | hmem | hmem | hmem | hmem | hmem | hmem | hmem |
          hmem | hmem <;> contradiction
      · exact absurd hle hf

omit hreasons in
theorem interpretCop1_stopsFrom
    (h : (Classification.cop1 (rsOf w) (rtOf w) (functionOf w)).lowering ≠ .invalid) :
    s.StopsFrom reasons (interpretCop1 H s currentPc w) := by
  unfold interpretCop1
  dsimp only
  split
  · exact .of_eq rfl
  split
  · exact .of_eq rfl
  split
  · exact .of_eq rfl
  split
  · split <;> exact .of_eq rfl
  split
  · exact branch_stopsFrom ..
  split
  · rename_i h10
    refine interpretSingle_stopsFrom ?_
    by_contra hf
    refine h ?_
    simp only [Classification.cop1, h10, hf]
    rfl
  split
  · exact .of_eq rfl
  · rename_i h0 h4 h2 h6 h8 h10 h14
    refine absurd ?_ h
    simp only [Classification.cop1, h0, h4, h2, h6, h8, h10, h14]
    rfl

omit hreasons in
theorem interpretSpecial2_stopsFrom (h : functionOf w = 0x20#6 ∨ functionOf w = 0x21#6 ∨
    functionOf w = 0x2c#6 ∨ functionOf w = 0x2d#6) :
    s.StopsFrom reasons (interpretSpecial2 s currentPc w) := by
  rcases h with h | h | h | h <;> simp only [interpretSpecial2, h] <;> exact .of_eq rfl

omit hreasons in
theorem interpretSpecial3_stopsFrom
    (h : (Classification.special3 (rdOf w) (shiftOf w) (functionOf w)).lowering ≠ .invalid) :
    s.StopsFrom reasons (interpretSpecial3 s currentPc w) := by
  have hf := of_decide_eq_true (Classification.nativeIf_valid h)
  unfold interpretSpecial3
  dsimp only
  split_ifs with h0 h4 ha hb hc hd he <;> try exact .of_eq rfl
  rcases hf with hf | ⟨hf, -⟩ | ⟨hf, hs | hs | hs | hs | hs⟩
  · exact absurd hf h0
  · exact absurd hf h4
  · exact absurd ⟨hf, hs⟩ hb
  · exact absurd ⟨hf, hs⟩ hc
  · exact absurd ⟨hf, hs⟩ hd
  · exact absurd ⟨hf, hs⟩ ha
  · exact absurd ⟨hf, hs⟩ he

omit hreasons in
theorem loadGpr_stopsFrom {n : Nat} {r : BitVec n × State} (h : s.StopsFrom reasons r.2) (rt : Reg)
    (extend : BitVec n → Word) : s.StopsFrom reasons (loadGpr rt extend r) :=
  h.trans (.of_eq rfl)

/-- The interpreter executes a word that decodes. -/
theorem interpretBody_stopsFrom (hw : (decodeAllegrex w).valid = true) :
    s.StopsFrom reasons (interpretBody H s currentPc w) := by
  have hw : (classify w).lowering ≠ .invalid := of_decide_eq_true hw
  unfold classify at hw
  dsimp only at hw
  unfold interpretBody
  dsimp only
  split
  all_goals
    rename_i hop
    first
      | exact .of_eq rfl
      | exact branch_stopsFrom ..
      | exact executeVfpu_stopsFrom hreasons ..
      | skip
  · simp only [vfpuOpcodeSupported, hop] at hw
    exact interpretSpecial_stopsFrom hreasons hw
  · simp only [vfpuOpcodeSupported, hop] at hw
    exact interpretRegimm_stopsFrom hw
  · simp only [vfpuOpcodeSupported, hop] at hw
    exact interpretCop1_stopsFrom hw
  · simp only [vfpuOpcodeSupported, hop] at hw
    exact interpretSpecial2_stopsFrom (of_decide_eq_true (Classification.nativeIf_valid hw))
  · simp only [vfpuOpcodeSupported, hop] at hw
    exact interpretSpecial3_stopsFrom hw
  · exact loadGpr_stopsFrom ((load8_faultStep ..).stopsFrom hreasons) ..
  · exact loadGpr_stopsFrom ((load16_faultStep ..).stopsFrom hreasons) ..
  · exact loadGpr_stopsFrom ((Side.left.load_faultStep ..).stopsFrom hreasons) ..
  · exact loadGpr_stopsFrom ((load32_faultStep ..).stopsFrom hreasons) ..
  · exact loadGpr_stopsFrom ((load8_faultStep ..).stopsFrom hreasons) ..
  · exact loadGpr_stopsFrom ((load16_faultStep ..).stopsFrom hreasons) ..
  · exact loadGpr_stopsFrom ((Side.right.load_faultStep ..).stopsFrom hreasons) ..
  · exact (store8_faultStep ..).stopsFrom hreasons
  · exact (store16_faultStep ..).stopsFrom hreasons
  · exact (Side.left.store_faultStep ..).stopsFrom hreasons
  · exact (store32_faultStep ..).stopsFrom hreasons
  · exact (Side.right.store_faultStep ..).stopsFrom hreasons
  · exact loadGpr_stopsFrom ((load32_faultStep ..).stopsFrom hreasons) ..
  · exact ((load32_faultStep ..).stopsFrom hreasons).trans (.of_eq rfl)
  · exact ((store32_faultStep ..).stopsFrom hreasons).trans (.of_eq rfl)
  · exact (store32_faultStep ..).stopsFrom hreasons
  · simp only [vfpuOpcodeSupported] at hw
    exact absurd rfl hw

end

/-! ### Runs -/

/-- The CPU has not stopped over an instruction. -/
def StopReason.decodes : StopReason → Bool
  | .invalidPc | .unsupportedInstruction => false
  | _ => true

theorem StopReason.ordinary_decodes : Ordinary StopReason.decodes := ⟨rfl, rfl⟩

theorem State.StopsFrom.decodes {s t : State} (h : s.StopsFrom StopReason.decodes t)
    (hs : s.stopReason.decodes = true) : t.stopReason.decodes = true := by
  rcases h with h | h
  · rw [h]
    exact hs
  · exact h

/-- Hooks, imports and the exit do not stop the CPU over an instruction. -/
structure Program.OutsideDecodes (X : Program) (exit : LoopExit) : Prop where
  hooks : ∀ (s : State) currentPc hook, X.patches s currentPc = some hook → s.StopsFrom StopReason.decodes (hook s).2
  imports : ∀ (stub : Word) (s : State), s.StopsFrom StopReason.decodes (X.importEffects stub s)
  exit : ∀ s : State, s.StopsFrom StopReason.decodes (exit.onReturn s)

/-- `dispatch_block` finds a runner for the pc. -/
def Program.routed (X : Program) (cache : DispatchCache) (s : State) (currentPc : Word) : Bool :=
  let offset := currentPc - s.memoryBase
  ((cache ((offset >>> 2).setWidth 10)).filter fun entry => entry.1 = currentPc).isSome ||
    ((X.project.hintedRoute offset s.dispatchRouteHint).or (X.project.searchRoute offset)).isSome

/-- The state and the pc at which the next step of a loop interprets an instruction. -/
def Program.interprets (X : Program) (exit : LoopExit) : Phase → Option (State × Word)
  | .loop (_ + 1) cache s =>
    if s.pc = exit.returnAddress ∧ s.branchPending = false then none
    else
      match X.patches s s.pc with
      | some hook => if (hook s).1 then none else some ((hook s).2, s.pc)
      | none => if (X.tryImport s s.pc).isSome || X.routed cache s s.pc then none else some (s, s.pc)
  | .runner _ _ currentPc c => if c.result? = some false then some (c.state, currentPc) else none
  | _ => none

/-- What the interpreter fetches is a mapped word of the image. -/
def FetchesMapped (image : ElfImage) (codeMap : Option CodeMapFile.CodeMap) (x : State × Word) : Prop :=
  x.2 &&& 3 = 0 → (load32 x.1 x.2).2.stopReason = .running →
    (x.2 - x.1.memoryBase, (load32 x.1 x.2).1) ∈ mappedWords image codeMap

instance (image : ElfImage) (codeMap : Option CodeMapFile.CodeMap) (x : State × Word) :
    Decidable (FetchesMapped image codeMap x) :=
  inferInstanceAs (Decidable (_ → _ → _))

/-- The step executes no word but mapped ones. -/
def Program.KeepsMapped (X : Program) (exit : LoopExit) (image : ElfImage)
    (codeMap : Option CodeMapFile.CodeMap) (p : Phase) : Prop :=
  (∀ i ∈ p.current, isMapped codeMap i.pc = true) ∧ ∀ x ∈ X.interprets exit p, FetchesMapped image codeMap x

instance (X : Program) (exit : LoopExit) (image : ElfImage) (codeMap : Option CodeMapFile.CodeMap) (p : Phase) :
    Decidable (X.KeepsMapped exit image codeMap p) :=
  inferInstanceAs (Decidable (_ ∧ _))

/-- The code ahead is the project's. -/
def Config.LinkedCode (P : Project) : Config → Prop
  | .code _ items _ _ _ _ => P.Linked items
  | _ => True

namespace Runner
variable {H : Host} {P : Project} {patches : Patches}

theorem gotoEdge_linkedCode (start delayedTarget : Word) (i : Item) (stack : List Frame) (s : State) :
    (gotoEdge P start i delayedTarget stack s).LinkedCode P := by
  unfold gotoEdge
  split
  · split
    · exact Project.linked_label ..
    · trivial
  · trivial

theorem delayedBranch_linkedCode (start delayedTarget : Word) (i : Item) (stack : List Frame) (s : State) :
    (delayedBranch P start i delayedTarget stack s).LinkedCode P := by
  unfold delayedBranch
  dsimp only
  split
  · split
    · trivial
    · exact gotoEdge_linkedCode ..
  · split
    · trivial
    · exact gotoEdge_linkedCode ..
  · exact gotoEdge_linkedCode ..

theorem step_linkedCode {c c' : Config} (h : c.LinkedCode P) (hstep : step H P patches c = some c') :
    c'.LinkedCode P := by
  cases c with
  | entering start entryPc stack s =>
    cases hfind : patches s entryPc with
    | some hook =>
      simp only [step, hfind] at hstep
      obtain rfl := Option.some.inj hstep
      trivial
    | none =>
      simp only [step, hfind] at hstep
      obtain rfl := Option.some.inj hstep
      have hlabel := Project.linked_label (P := P) start (entryPc - s.memoryBase)
      unfold enter
      cases hl : P.label start (entryPc - s.memoryBase) with
      | nil => trivial
      | cons i rest => rw [hl] at hlabel; exact hlabel
  | code start items apply delayedTarget stack s =>
    cases items with
    | nil => cases hstep
    | cons i rest =>
      obtain rfl := Option.some.inj hstep
      have hrest : P.Linked rest := h.2.2
      unfold afterItem fallThrough
      split_ifs
      · trivial
      · exact delayedBranch_linkedCode ..
      · trivial
      · exact hrest
      · trivial
      · exact hrest
      · trivial
  | returned result stack s =>
    cases stack with
    | nil => cases hstep
    | cons frame stack =>
      cases result with
      | false => obtain rfl := Option.some.inj hstep; trivial
      | true =>
        obtain rfl := Option.some.inj hstep
        unfold afterCall
        split
        · trivial
        split
        · split
          · exact Project.linked_label ..
          · trivial
        · trivial

/-- The item about to run is a word of the image. -/
theorem current_emit {c : Config} (h : c.LinkedCode P) {i : Item} (hi : c.current = some i) :
    ∃ x ∈ P.image.instructions, P.emit x = i.toEmittedInstruction := by
  cases c with
  | entering => cases hi
  | returned => cases hi
  | code start items apply delayedTarget stack s =>
    cases items with
    | nil => cases hi
    | cons j rest =>
      obtain rfl := Option.some.inj hi
      exact Project.mem_emitted.1 h.1.1

end Runner

/-- The CPU has not stopped over an instruction where it is running, nor where it has stopped but at an
unaligned pc. -/
def Phase.Decodes (P : Project) : Phase → Prop
  | .loop _ _ s => s.stopReason.decodes = true
  | .runner _ _ _ c => c.state.stopReason.decodes = true ∧ c.LinkedCode P
  | .done t => t.stopReason ≠ .unsupportedInstruction ∧ (t.stopReason = .invalidPc → t.faultPc &&& 3 ≠ 0)

namespace Program
variable {X : Program} {exit : LoopExit} {image : ElfImage} {codeMap : Option CodeMapFile.CodeMap}

theorem done_decodes {P : Project} {t : State} (h : t.stopReason.decodes = true) : (Phase.done t).Decodes P := by
  refine ⟨fun hstop => ?_, fun hstop => ?_⟩ <;> rw [hstop] at h <;> cases h

theorem continue_decodes {P : Project} {t : State} (h : t.stopReason.decodes = true) (remaining : Nat)
    (cache : DispatchCache) :
    (if t.stopReason = .running then Phase.loop remaining cache t else .done t).Decodes P := by
  split
  · exact h
  · exact done_decodes h

theorem afterDispatch_true_decodes {remaining : Nat} {cache : DispatchCache} {currentPc : Word} {t : State}
    (h : t.stopReason.decodes = true) :
    (X.afterDispatch remaining cache currentPc (true, t)).Decodes X.project := by
  unfold afterDispatch
  dsimp only
  rw [if_pos rfl]
  exact continue_decodes h ..

/-- The fallback, at a word that decodes. -/
theorem afterDispatch_false_decodes {remaining : Nat} {cache : DispatchCache} {currentPc : Word} {t : State}
    (hvalid : ∀ x ∈ mappedWords image codeMap, (decodeAllegrex x.2).valid = true)
    (h : t.stopReason.decodes = true) (hmapped : FetchesMapped image codeMap (t, currentPc)) :
    (X.afterDispatch remaining cache currentPc (false, t)).Decodes X.project := by
  unfold afterDispatch
  dsimp only
  rw [if_neg Bool.false_ne_true]
  unfold interpretAllegrex
  by_cases halign : currentPc &&& 3 = 0
  · rw [if_neg (not_not.2 halign)]
    have hload := ((load32_faultStep t currentPc).stopsFrom StopReason.ordinary_decodes).decodes h
    dsimp only
    by_cases hrun : (load32 t currentPc).2.stopReason = .running
    · rw [if_neg (not_not.2 hrun), if_neg (not_not.2 (hvalid _ (hmapped halign hrun)))]
      dsimp only
      refine continue_decodes ?_ ..
      rw [State.applyBranch_eq]
      exact (interpretBody_stopsFrom (s := (load32 t currentPc).2.advance currentPc) StopReason.ordinary_decodes
        (hvalid _ (hmapped halign hrun))).decodes hload
    · rw [if_pos hrun]
      dsimp only
      rw [if_neg hrun]
      exact done_decodes hload
  · rw [if_pos halign]
    dsimp only
    split
    · refine ⟨fun hstop => ?_, fun _ => halign⟩
      cases hstop
    · exact done_decodes h

theorem tryImport_decodes {t u : State} {currentPc : Word} (houtside : X.OutsideDecodes exit)
    (h : t.stopReason.decodes = true) (htry : X.tryImport t currentPc = some u) : u.stopReason.decodes = true := by
  unfold tryImport dispatchImport at htry
  dsimp only at htry
  split_ifs at htry
  rw [← Option.some.inj htry]
  exact (houtside.imports _ t).decodes h

theorem step_decodes {p p' : Phase} (hvalid : ∀ x ∈ mappedWords X.project.image codeMap,
    (decodeAllegrex x.2).valid = true) (houtside : X.OutsideDecodes exit) (h : p.Decodes X.project)
    (hmapped : X.KeepsMapped exit X.project.image codeMap p) (hstep : X.step exit p = some p') :
    p'.Decodes X.project := by
  obtain ⟨hitem, hfetch⟩ := hmapped
  cases p with
  | done t => cases hstep
  | loop remaining cache t =>
    have h : t.stopReason.decodes = true := h
    cases remaining with
    | zero =>
      obtain rfl := Option.some.inj hstep
      exact done_decodes rfl
    | succ remaining =>
      simp only [step] at hstep
      simp only [interprets] at hfetch
      split at hstep
      · obtain rfl := Option.some.inj hstep
        exact done_decodes ((houtside.exit t).decodes h)
      rename_i hexit
      rw [if_neg hexit] at hfetch
      obtain rfl := Option.some.inj hstep
      unfold dispatchBlock
      cases hfind : X.patches t t.pc with
      | some hook =>
        have hhook := (houtside.hooks t t.pc hook hfind).decodes h
        rw [hfind] at hfetch
        dsimp only at hfetch ⊢
        cases hresult : (hook t).1 with
        | true =>
          rw [← Prod.mk.eta (p := hook t), hresult]
          exact afterDispatch_true_decodes hhook
        | false =>
          rw [hresult, if_neg Bool.false_ne_true] at hfetch
          rw [← Prod.mk.eta (p := hook t), hresult]
          exact afterDispatch_false_decodes hvalid hhook (hfetch _ rfl)
      | none =>
        rw [hfind] at hfetch
        dsimp only at hfetch ⊢
        cases htry : X.tryImport t t.pc with
        | some u => exact afterDispatch_true_decodes (tryImport_decodes houtside h htry)
        | none =>
          rw [htry] at hfetch
          dsimp only
          split
          · exact ⟨h, trivial⟩
          rename_i hcache
          split
          · exact ⟨h, trivial⟩
          rename_i hroute
          have hrouted : X.routed cache t t.pc = false := by
            unfold routed
            dsimp only
            rw [hcache, hroute]
            rfl
          rw [hrouted] at hfetch
          exact afterDispatch_false_decodes hvalid h (hfetch _ rfl)
  | runner remaining cache currentPc c =>
    obtain ⟨h, hlinked⟩ := h
    cases hc : Runner.step X.H X.project X.patches c with
    | some c' =>
      simp only [step, hc] at hstep
      obtain rfl := Option.some.inj hstep
      refine ⟨(Runner.step_stopsFrom houtside.hooks (fun i hi => ?_) hc).decodes h, Runner.step_linkedCode hlinked hc⟩
      -- the item is of a mapped word, so its statement runs no reserved word
      obtain ⟨x, hx, hemit⟩ := Runner.current_emit hlinked hi
      have hpc : x.1 = i.pc := congrArg EmittedInstruction.pc hemit
      have hcode : i.code = emitInstruction x.1 x.2 _ _ := (congrArg EmittedInstruction.code hemit).symm
      have hword := hvalid x (List.mem_filter.2 ⟨hx, by rw [hpc]; exact hitem i hi⟩)
      refine ⟨StopReason.ordinary_decodes, fun hreserved => ?_⟩
      rw [hcode, emitInstruction_reserved hword] at hreserved
      cases hreserved
    | none =>
      simp only [step, hc] at hstep
      obtain ⟨result, hresult, rfl⟩ := Option.map_eq_some_iff.1 hstep
      cases result with
      | true => exact afterDispatch_true_decodes h
      | false =>
        simp only [interprets, hresult, if_true] at hfetch
        exact afterDispatch_false_decodes hvalid h (hfetch _ rfl)

end Program

open Machine in
/-- An image the analysis accepts: no run of a dispatcher loop over its project that executes mapped words
alone stops at an unsupported instruction, nor with `invalid_pc` at an aligned pc. An image it rejects has a
mapped word at which the interpreter stops with the one and translated code with the other. -/
theorem coverage_sound (X : Program) (image : LoadedImage) (codeMap : Option CodeMapFile.CodeMap)
    (shardSize : Word) (exit : LoopExit)
    (hproject : X.project = emitProject image (codeMap.map (·.analyzed)) shardSize)
    (houtside : X.OutsideDecodes exit) :
    ((analyzeCoverage image.toElfImage codeMap).1 = true →
      ∀ (maxSteps n : Nat) (cache : DispatchCache) (s t : State), s.stopReason.decodes = true →
        (∀ p ∈ trace (X.step exit) n (.loop maxSteps cache s), X.KeepsMapped exit image.toElfImage codeMap p) →
        (run (X.step exit) n (.loop maxSteps cache s)).result? = some t →
          t.stopReason ≠ .unsupportedInstruction ∧ (t.stopReason = .invalidPc → t.faultPc &&& 3 ≠ 0)) ∧
      ((analyzeCoverage image.toElfImage codeMap).1 = false →
        ∃ x ∈ mappedWords image.toElfImage codeMap, ∀ (currentPc : Word) (s : State),
          currentPc &&& 3 = 0 → s.stopReason = .running → HoldsWord s currentPc x.2 →
            (interpretAllegrex X.H s currentPc).2.stopReason = .unsupportedInstruction ∧
              ((X.project.emit x).code.exec X.H currentPc s).stopReason = .invalidPc) := by
  constructor
  · intro haccepts maxSteps n cache s t hs hmapped hresult
    have himage : X.project.image = image.toElfImage := by rw [hproject]; rfl
    have hvalid := (analyzeCoverage_iff image.toElfImage codeMap).1 haccepts
    rw [← himage] at hvalid hmapped
    have h : (run (X.step exit) n (.loop maxSteps cache s)).Decodes X.project :=
      run_guarded (G := fun p => X.KeepsMapped exit X.project.image codeMap p)
        (fun p p' h hG hstep => Program.step_decodes hvalid houtside h hG hstep) n hs hmapped
    rw [Phase.eq_of_result hresult] at h
    exact h
  · intro hrejects
    have hinvalid : ¬ ∀ x ∈ mappedWords image.toElfImage codeMap, (decodeAllegrex x.2).valid = true := by
      rw [← analyzeCoverage_iff, hrejects]
      exact Bool.false_ne_true
    obtain ⟨x, hx⟩ := not_forall.1 hinvalid
    obtain ⟨hx, hw⟩ := Classical.not_imp.1 hx
    refine ⟨x, hx, fun currentPc s halign hrun hword => ⟨?_, ?_⟩⟩
    · unfold interpretAllegrex
      rw [if_neg (not_not.2 halign), hword.fetch]
      dsimp only
      rw [if_neg (not_not.2 hrun), if_pos hw]
      rfl
    · have hlowering : (decodeAllegrex x.2).lowering = .invalid := by
        by_contra hne
        exact hw (decide_eq_true hne)
      have hcode : (X.project.emit x).code = reservedWord := by
        show emitInstruction x.1 x.2 _ _ = _
        unfold emitInstruction
        rw [hlowering]
      rw [hcode]
      rfl

open Machine in
/-- The caller's image is accepted, and its run over the import comes back to the exit. -/
theorem coverage_sound_callerProgram :
    let exit := LoopExit.run 0x08800000
    let s := (callerImage.start 0x08804000).setGpr 31 0x08804008
    (analyzeCoverage callerImage.toElfImage none).1 = true ∧
      ∃ t, (run (callerProgram.step exit) 8 (.loop 10 (fun _ => none) s)).result? = some t ∧
        t.stopReason ≠ .unsupportedInstruction := by
  intro exit s
  have houtside : callerProgram.OutsideDecodes exit :=
    ⟨fun _ _ _ h => (by cases h), fun _ _ => .of_eq rfl, fun _ => Or.inr rfl⟩
  have haccepts : (analyzeCoverage callerImage.toElfImage none).1 = true := by decide
  have hmapped : ∀ p ∈ trace (callerProgram.step exit) 8 (.loop 10 (fun _ => none) s),
      callerProgram.KeepsMapped exit callerImage.toElfImage none p := by
    decide
  have hresult : (run (callerProgram.step exit) 8 (.loop 10 (fun _ => none) s)).result?.isSome = true := by
    decide
  obtain ⟨t, ht⟩ := Option.isSome_iff_exists.1 hresult
  exact ⟨haccepts, t, ht, ((coverage_sound callerProgram callerImage none 0x1000 exit rfl houtside).1 haccepts 10 8 _ s t
    rfl hmapped ht).1⟩

end Psprism
