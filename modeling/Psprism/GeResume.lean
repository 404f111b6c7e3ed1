import Psprism.GeLists
import Psprism.GeTextureCache

/-!
# A display list that stalls and is resumed

`execute_ge_list` stores with the list what a later run needs: the cursor, the call stack and the result of
the last bounding box; all else is in the graphics state, apart from the texture cache, which a run starts
without. So a list that advances through a sequence of stall addresses does what it would do in one run,
when the guest writes in between only what the commands before have not accessed.
-/

namespace Psprism

/-! ### What a command accesses -/

/-- The edit leaves the indices and the vertices of a primitive as they are. -/
def Edit.SparesVertices (e : Edit) (g : Graphics) (m : GuestMemory) (count : Nat) : Prop :=
  (g.indexType ≠ 0 → ∀ p ∈ m.mappedAddress g.indexAddress (count * componentSize g.indexType),
    e.Spares p (count * componentSize g.indexType)) ∧
  ∀ indices ∈ g.vertexIndices m count, ∀ p ∈ g.vertexSource m indices, ∀ i ∈ indices,
    e.Spares (p.1, p.2 + i * g.layout.stride) g.layout.stride

/-- The edit leaves the rows that a block transfer moves as they are, and what they are moved over. -/
def Edit.SparesRows (e : Edit) (t : GeExecution.BlockTransfer) (m : GuestMemory) : Nat → Nat → Prop
  | 0, _ => True
  | count + 1, row =>
    ∀ p ∈ t.rowPointers m row, e.Spares p.1 t.rowSize ∧ e.Spares p.2 t.rowSize ∧ e.SparesRows t m count (row + 1)

/-- The edit leaves what an accepted command accesses as it is. -/
def Edit.SparesCommand (e : Edit) (s : GeExecution) (instruction : Word) : Prop :=
  let argument := geArgument instruction
  let count := (argument &&& 0xffff).toNat
  let t := GeExecution.blockTransfer s.graphics.commands argument
  (geOpcode instruction = 0x04 → s.graphics.layout.stride ≠ 0 →
    e.SparesVertices s.graphics s.memory count ∧
      ((s.graphics.vertexBytes s.memory count).isSome → e.SparesTexture s.memory s.graphics.commands)) ∧
  (geOpcode instruction = 0xc4 → ∀ p ∈ s.memory.mappedAddress (GeExecution.clutAddress s.graphics.commands)
    (GeExecution.clutBytes argument), e.Spares p (GeExecution.clutBytes argument)) ∧
  (geOpcode instruction = 0xea → e.SparesRows t s.memory t.height.toNat 0)

/-- The edit leaves what a run of the loop accesses as it is. -/
def Edit.SparesRun (e : Edit) (c : GeContext) : Nat → GeExecution → Prop
  | 0, _ => True
  | n + 1, s =>
    ¬ s.stalls c → ∀ p ∈ s.memory.mappedAddress s.programCounter 4, e.Spares p 4 ∧
      let instruction := readU32 (s.memory.byteAt p) 0
      (geOpcode instruction ≠ 0x0c → e.SparesCommand (s.accept c instruction) instruction ∧
        e.SparesRun c n ((s.accept c instruction).execute c instruction))

section
variable (e : Edit)

instance (p : Pointer) (n : Nat) : Decidable (e.Spares p n) := inferInstanceAs (Decidable (∀ i < n, _))

instance (g : Graphics) (m : GuestMemory) (count : Nat) : Decidable (e.SparesVertices g m count) :=
  inferInstanceAs (Decidable ((_ → ∀ p ∈ m.mappedAddress _ _, _) ∧
    ∀ indices ∈ g.vertexIndices m count, ∀ p ∈ g.vertexSource m indices, ∀ i ∈ indices, _))

instance (m : GuestMemory) (commands : Commands) : Decidable (e.SparesTexture m commands) :=
  inferInstanceAs (Decidable (_ → ∀ p ∈ mappedTexture m commands, ∀ y < _, ∀ x < _, _))

instance decidableSparesRows (t : GeExecution.BlockTransfer) (m : GuestMemory) :
    ∀ count row, Decidable (e.SparesRows t m count row)
  | 0, _ => .isTrue trivial
  | count + 1, row =>
    have := decidableSparesRows t m count (row + 1)
    inferInstanceAs (Decidable (∀ p ∈ t.rowPointers m row, _ ∧ _ ∧ _))

instance (s : GeExecution) (instruction : Word) : Decidable (e.SparesCommand s instruction) :=
  inferInstanceAs (Decidable ((_ → _ → _ ∧ (_ → _)) ∧ (_ → ∀ p ∈ s.memory.mappedAddress _ _, _) ∧ (_ → _)))

instance decidableSparesRun (c : GeContext) : ∀ n s, Decidable (e.SparesRun c n s)
  | 0, _ => .isTrue trivial
  | n + 1, s =>
    have := fun s => decidableSparesRun c n s
    inferInstanceAs (Decidable (¬ _ → ∀ p ∈ s.memory.mappedAddress _ _, _ ∧ (_ → _ ∧ _)))

end

namespace GeExecution

variable {c : GeContext} {e : Edit} {s t : GeExecution} {instruction argument : Word}

/-! ### One command before and after an edit -/

/-- What one run has done of which the run after a stall knows nothing. -/
structure Earlier where
  words : Nat := 0
  callbacks : List PendingCallback := []

/-- The state with the edit made, at the same point of a run that has more behind it. -/
def shift (s : GeExecution) (e : Edit) (p : Earlier) (textureCache : TextureKey → Option DecodedTexture) :
    GeExecution :=
  { s with
    memory := s.memory.overlay e
    textureCache
    words := p.words + s.words
    pendingCallbacks := p.callbacks ++ s.pendingCallbacks }

@[simp] theorem shift_graphics {p : Earlier} {cache : TextureKey → Option DecodedTexture} :
    (s.shift e p cache).graphics = s.graphics := rfl

@[simp] theorem shift_callStack {p : Earlier} {cache : TextureKey → Option DecodedTexture} :
    (s.shift e p cache).callStack = s.callStack := rfl

theorem decodedIndex_congr {type i count : Nat} {f g : Bytes} (htype : type < 4) (hzero : type ≠ 0)
    (h : ∀ j < count * componentSize type, f j = g j) (hi : i < count) :
    Graphics.decodedIndex type f i = Graphics.decodedIndex type g i := by
  unfold Graphics.decodedIndex
  obtain rfl | rfl | rfl : type = 1 ∨ type = 2 ∨ type = 3 := by omega
  · simp only [componentSize] at h
    simp [h i (by omega)]
  · simp only [componentSize] at h
    simp [readU16, h (i * 2) (by omega), h (i * 2 + 1) (by omega)]
  · simp only [componentSize] at h
    simp [readU32, h (i * 4) (by omega), h (i * 4 + 1) (by omega), h (i * 4 + 2) (by omega),
      h (i * 4 + 3) (by omega)]

theorem vertexIndices_overlay {g : Graphics} {m : GuestMemory} {count : Nat} (h : e.SparesVertices g m count) :
    g.vertexIndices (m.overlay e) count = g.vertexIndices m count := by
  unfold Graphics.vertexIndices
  rw [GuestMemory.mappedAddress_overlay]
  split
  · rfl
  · next hzero =>
    cases hp : m.mappedAddress g.indexAddress (count * componentSize g.indexType) with
    | none => rfl
    | some p =>
      have htype : g.indexType < 4 := by
        rw [Graphics.indexType, BitVec.toNat_and]
        exact Nat.lt_of_le_of_lt Nat.and_le_right (by decide)
      simp only [Option.map_some, Option.some.injEq]
      refine List.map_congr_left fun i hi => ?_
      exact decodedIndex_congr htype hzero (fun j hj => GuestMemory.byteAt_overlay (h.1 hzero p hp) hj)
        (List.mem_range.1 hi)

theorem vertexBytes_overlay {g : Graphics} {m : GuestMemory} {count : Nat} (h : e.SparesVertices g m count) :
    g.vertexBytes (m.overlay e) count = g.vertexBytes m count := by
  unfold Graphics.vertexBytes
  rw [vertexIndices_overlay h]
  cases hindices : g.vertexIndices m count with
  | none => rfl
  | some indices =>
    have hsource : g.vertexSource (m.overlay e) indices = g.vertexSource m indices :=
      GuestMemory.mappedAddress_overlay ..
    rw [Option.bind_some, Option.bind_some, hsource]
    cases hp : g.vertexSource m indices with
    | none => rfl
    | some p =>
      simp only [Option.map_some, Option.some.injEq]
      refine List.map_congr_left fun i hi => List.map_congr_left fun b hb => ?_
      have := GuestMemory.byteAt_overlay (m := m) (h.2 indices hindices p hp i hi) (List.mem_range.1 hb)
      simpa only [GuestMemory.byteAt, Nat.add_assoc] using this

theorem rowPointers_congr {t : BlockTransfer} {m m' : GuestMemory}
    (h : ∀ address width, m'.mappedAddress address width = m.mappedAddress address width) (row : Nat) :
    t.rowPointers m' row = t.rowPointers m row := by
  simp only [BlockTransfer.rowPointers, h]

theorem sparesRows_congr {t : BlockTransfer} {m m' : GuestMemory}
    (h : ∀ address width, m'.mappedAddress address width = m.mappedAddress address width) {count row : Nat} :
    e.SparesRows t m' count row ↔ e.SparesRows t m count row := by
  induction count generalizing row with
  | zero => rfl
  | succ count ih => simp only [Edit.SparesRows, rowPointers_congr h, ih]

theorem moveRows_overlay {t : BlockTransfer} {m : GuestMemory} {count row : Nat} (h : e.SparesRows t m count row) :
    t.moveRows count row (m.overlay e) = ((t.moveRows count row m).1.overlay e, (t.moveRows count row m).2) := by
  induction count generalizing m row with
  | zero => rfl
  | succ count ih =>
    unfold BlockTransfer.moveRows
    rw [rowPointers_congr GuestMemory.mappedAddress_overlay]
    cases hp : t.rowPointers m row with
    | none => rfl
    | some p =>
      obtain ⟨input, output⟩ := p
      obtain ⟨hinput, houtput, hrest⟩ := h _ hp
      have hrest' : e.SparesRows t (m.moveBytes input output t.rowSize) count (row + 1) :=
        (sparesRows_congr (GuestMemory.mappedAddress_moveBytes input output)).2 hrest
      have hbytes : (List.range t.rowSize).map ((m.overlay e).byteAt input) =
          (List.range t.rowSize).map (m.byteAt input) :=
        List.map_congr_left fun i hi => GuestMemory.byteAt_overlay hinput (List.mem_range.1 hi)
      simp only [GuestMemory.moveBytes_overlay hinput houtput, ih hrest', hbytes]

/-- The run after a stall and the one run are at the same point, with an edit to be made. -/
structure Sim (e : Edit) (p : Earlier) (s t : GeExecution) : Prop where
  eq : t = s.shift e p t.textureCache
  coherent : s.Coherent
  coherent' : t.Coherent

theorem Sim.intro {p : Earlier} {cache : TextureKey → Option DecodedTexture} (h : t = s.shift e p cache)
    (hs : s.Coherent) (ht : t.Coherent) : Sim e p s t :=
  ⟨by rw [h]; rfl, hs, ht⟩

section
variable {p : Earlier} {cache : TextureKey → Option DecodedTexture}

theorem loadClut_shift (h : ∀ q ∈ s.memory.mappedAddress (clutAddress s.graphics.commands) (clutBytes argument),
    e.Spares q (clutBytes argument)) :
    ∃ cache', (s.shift e p cache).loadClut argument = (s.loadClut argument).shift e p cache' := by
  have hmapped : (s.memory.overlay e).mappedAddress (clutAddress s.graphics.commands) (clutBytes argument) =
      s.memory.mappedAddress (clutAddress s.graphics.commands) (clutBytes argument) :=
    GuestMemory.mappedAddress_overlay ..
  unfold loadClut
  simp only [shift, hmapped]
  cases hq : s.memory.mappedAddress (clutAddress s.graphics.commands) (clutBytes argument) with
  | none => exact ⟨cache, rfl⟩
  | some q =>
    have hbytes : ∀ i < clutBytes argument, (s.memory.overlay e).byteAt q i = s.memory.byteAt q i := fun i hi =>
      GuestMemory.byteAt_overlay (h q hq) hi
    have hsame : (∀ i < clutBytes argument, (s.memory.overlay e).byteAt q i = s.graphics.clut i) ↔
        ∀ i < clutBytes argument, s.memory.byteAt q i = s.graphics.clut i :=
      forall₂_congr fun i hi => by rw [hbytes i hi]
    have hclut : (fun i => if i < clutBytes argument then (s.memory.overlay e).byteAt q i else s.graphics.clut i) =
        fun i => if i < clutBytes argument then s.memory.byteAt q i else s.graphics.clut i := by
      funext i
      split
      · next hi => rw [hbytes i hi]
      · rfl
    simp only [hclut, hsame]
    split
    · exact ⟨cache, rfl⟩
    · exact ⟨fun _ => none, rfl⟩

theorem fetchTexture_shift (hs : s.Coherent) (ht : (s.shift e p cache).Coherent)
    (h : e.SparesTexture s.memory s.graphics.commands) :
    (s.shift e p cache).fetchTexture.1 = s.fetchTexture.1 :=
  (Memo.fetch_fst ht _).trans ((decodeTexture_overlay h).trans (Memo.fetch_fst hs _).symm)

theorem submit_shift (hs : s.Coherent) (ht : (s.shift e p cache).Coherent)
    (h : e.SparesTexture s.memory s.graphics.commands) (primitiveType : Nat) (vertices : List (List Byte)) :
    ∃ cache', (s.shift e p cache).submit primitiveType vertices =
      (s.submit primitiveType vertices).shift e p cache' := by
  refine ⟨(s.shift e p cache).fetchTexture.2, ?_⟩
  unfold submit
  rw [fetchTexture_shift hs ht h]
  rfl

theorem primitive_shift (hs : s.Coherent) (ht : (s.shift e p cache).Coherent)
    (h : s.graphics.layout.stride ≠ 0 → e.SparesVertices s.graphics s.memory (argument &&& 0xffff).toNat ∧
      ((s.graphics.vertexBytes s.memory (argument &&& 0xffff).toNat).isSome →
        e.SparesTexture s.memory s.graphics.commands)) :
    ∃ cache', (s.shift e p cache).primitive argument = (s.primitive argument).shift e p cache' := by
  unfold primitive
  dsimp only
  rw [shift_graphics]
  by_cases hlayout : s.graphics.layout.stride ≠ 0 ∧ ((argument >>> 16) &&& 7).toNat ≤ 6
  · obtain ⟨hvertices, htexture⟩ := h hlayout.1
    have hbytes : s.graphics.vertexBytes (s.shift e p cache).memory (argument &&& 0xffff).toNat =
        s.graphics.vertexBytes s.memory (argument &&& 0xffff).toNat := vertexBytes_overlay hvertices
    rw [if_pos hlayout, if_pos hlayout, hbytes]
    cases hv : s.graphics.vertexBytes s.memory (argument &&& 0xffff).toNat with
    | none => exact ⟨cache, rfl⟩
    | some vertices =>
      obtain ⟨cache', hsubmit⟩ := submit_shift hs ht (htexture (by rw [hv]; rfl))
        ((argument >>> 16) &&& 7).toNat vertices
      exact ⟨cache', by dsimp only; rw [hsubmit]; rfl⟩
  · rw [if_neg hlayout, if_neg hlayout]
    exact ⟨cache, rfl⟩

theorem transfer_shift (h : e.SparesRows (blockTransfer s.graphics.commands argument) s.memory
      (blockTransfer s.graphics.commands argument).height.toNat 0) :
    (s.shift e p cache).transfer argument = (s.transfer argument).shift e p fun _ => none := by
  unfold transfer
  simp only [shift, moveRows_overlay h]

/-- An accepted command does the same before and after an edit that spares what it accesses. -/
theorem execute_shift (hs : s.Coherent) (ht : (s.shift e p cache).Coherent) (h : e.SparesCommand s instruction) :
    ∃ cache', (s.shift e p cache).execute c instruction = (s.execute c instruction).shift e p cache' := by
  unfold execute
  dsimp only
  split
  · next hopcode =>
    obtain ⟨cache', heq⟩ := primitive_shift hs ht (h.1 hopcode)
    exact ⟨cache', by rw [heq]; rfl⟩
  · exact ⟨cache, rfl⟩
  · exact ⟨cache, rfl⟩
  · exact ⟨cache, rfl⟩
  · refine ⟨cache, ?_⟩
    change (if s.callStack.length < 64 then _ else _) = _
    split <;> rfl
  · refine ⟨cache, ?_⟩
    rw [shift_callStack]
    cases s.callStack <;> rfl
  · exact ⟨cache, by simp only [callback, goto, shift, List.append_assoc]⟩
  · exact ⟨cache, by simp only [callback, goto, shift, List.append_assoc]⟩
  · next hopcode =>
    obtain ⟨cache', heq⟩ := loadClut_shift (h.2.1 hopcode)
    exact ⟨cache', by rw [heq]; rfl⟩
  · next hopcode =>
    exact ⟨fun _ => none, by rw [transfer_shift (h.2.2 hopcode)]; rfl⟩
  · exact ⟨cache, rfl⟩

theorem fetch_shift (h : ∀ q ∈ s.memory.mappedAddress s.programCounter 4, e.Spares q 4) :
    (s.shift e p cache).fetch = s.fetch := by
  unfold fetch
  rw [show (s.shift e p cache).memory = s.memory.overlay e from rfl,
    show (s.shift e p cache).programCounter = s.programCounter from rfl, GuestMemory.mappedAddress_overlay]
  cases hq : s.memory.mappedAddress s.programCounter 4 with
  | none => rfl
  | some q =>
    have hbytes : ∀ i < 4, (s.memory.overlay e).byteAt q i = s.memory.byteAt q i := fun i hi =>
      GuestMemory.byteAt_overlay (h q hq) hi
    simp [readU32, hbytes]

end

/-! ### A run of the loop -/

section
variable {p : Earlier} {n k : Nat}

theorem Sim.accept (h : Sim e p s t) : Sim e p (s.accept c instruction) (t.accept c instruction) := by
  refine ⟨?_, h.coherent.accept, h.coherent'.accept⟩
  rw [h.eq]
  rfl

theorem Sim.execute (h : Sim e p s t) (hspares : e.SparesCommand s instruction) :
    Sim e p (s.execute c instruction) (t.execute c instruction) := by
  obtain ⟨heq, hs, ht⟩ := h
  obtain ⟨cache', hexecute⟩ := execute_shift (c := c) hs (heq ▸ ht) hspares
  exact .intro (by rw [heq, hexecute]) hs.execute ht.execute

/-- The one run has the context of the others, but no stall address. -/
def unstalled (c : GeContext) : GeContext := { c with stallAddress := 0 }

theorem stalls_unstalled : s.stalls (unstalled c) = false := by simp [stalls, unstalled]

theorem execute_words : (s.execute c instruction).words = s.words := by
  unfold execute
  dsimp only
  split
  · unfold primitive
    dsimp only
    split
    · split <;> rfl
    · rfl
  · rfl
  · rfl
  · rfl
  · split <;> rfl
  · split <;> rfl
  · rfl
  · rfl
  · unfold loadClut
    split
    · rfl
    · split <;> rfl
  · rfl
  · rfl

theorem Sim.fetch (h : Sim e p s t) (hspares : ∀ q ∈ s.memory.mappedAddress s.programCounter 4, e.Spares q 4) :
    t.fetch = s.fetch := by
  rw [h.eq]
  exact fetch_shift hspares

theorem loop_succ : loop c (n + 1) s =
    if s.stalls c then (.stalled, s)
    else
      match s.fetch with
      | none => (.failed, s)
      | some instruction =>
        if geOpcode instruction = 0x0c then (.ended, s.accept c instruction)
        else loop c n ((s.accept c instruction).execute c instruction) := rfl

/-- A run that stalls or ends goes through the same commands as the one run, which goes on where it stalls. -/
theorem loop_sim (h : Sim e p s t) (hspares : e.SparesRun c n s) : ∃ j, (loop c n s).2.words = s.words + j ∧
    ((loop c n s).1 = .stalled → ∃ t', Sim e p (loop c n s).2 t' ∧
      ∀ k, loop (unstalled c) (j + k) t = loop (unstalled c) k t') ∧
    ((loop c n s).1 = .ended → ∃ t', Sim e p (loop c n s).2 t' ∧
      ∀ k, loop (unstalled c) (j + k) t = (.ended, t')) := by
  induction n generalizing s t with
  | zero => exact ⟨0, rfl, nofun, nofun⟩
  | succ n ih =>
    rw [loop_succ]
    by_cases hstalls : s.stalls c
    · rw [if_pos hstalls]
      exact ⟨0, rfl, fun _ => ⟨t, h, fun k => by rw [Nat.zero_add]⟩, nofun⟩
    rw [if_neg hstalls]
    cases hfetch : s.fetch with
    | none => exact ⟨0, rfl, nofun, nofun⟩
    | some instruction =>
      obtain ⟨q, hq, rfl⟩ := Option.map_eq_some_iff.1 hfetch
      obtain ⟨hsparesWord, hrest⟩ := hspares hstalls q hq
      generalize readU32 (s.memory.byteAt q) 0 = instruction at hfetch hrest ⊢
      have htfetch : t.fetch = some instruction := by
        rw [h.fetch (fun q' hq' => Option.some.inj (hq.symm.trans hq') ▸ hsparesWord), hfetch]
      have hone : ∀ k, loop (unstalled c) (k + 1) t =
          if geOpcode instruction = 0x0c then (.ended, t.accept c instruction)
          else loop (unstalled c) k ((t.accept c instruction).execute c instruction) := by
        intro k
        rw [loop_succ, stalls_unstalled, if_neg (by decide), htfetch]
        rfl
      dsimp only
      by_cases hend : geOpcode instruction = 0x0c
      · rw [if_pos hend]
        refine ⟨1, rfl, nofun, fun _ => ⟨_, h.accept, fun k => ?_⟩⟩
        rw [Nat.add_comm, hone, if_pos hend]
      · rw [if_neg hend]
        obtain ⟨hcommand, hrun⟩ := hrest hend
        obtain ⟨j, hwords, hstalled, hended⟩ := ih (h.accept.execute hcommand) hrun
        refine ⟨j + 1, ?_, fun hstop => ?_, fun hstop => ?_⟩
        · rw [hwords, execute_words, accept]
          dsimp only
          omega
        · obtain ⟨t', hsim, hloop⟩ := hstalled hstop
          refine ⟨t', hsim, fun k => ?_⟩
          rw [Nat.add_right_comm, hone, if_neg hend, hloop]
        · obtain ⟨t', hsim, hloop⟩ := hended hstop
          refine ⟨t', hsim, fun k => ?_⟩
          rw [Nat.add_right_comm, hone, if_neg hend, hloop]

end

end GeExecution

/-! ### The guest lets a list advance -/

namespace GeMachine
open GeExecution (Sim Earlier loop unstalled)

/-- The guest writes memory. -/
def write (m : GeMachine) (e : Edit) : GeMachine := { m with memory := m.memory.overlay e }

def setScheduler (m : GeMachine) (scheduler : Scheduler) : GeMachine := { m with scheduler }

/-- The guest writes memory and moves the stall address of the list. -/
def advance (m : GeMachine) (listId : Word) (a : Edit × Word) : GeMachine :=
  ((m.write a.1).sceGeListUpdateStallAddr listId a.2).2

def advanceAll (m : GeMachine) (listId : Word) (advances : List (Edit × Word)) : GeMachine :=
  advances.foldl (fun m a => m.advance listId a) m

/-- All that the guest writes in the course of the advances. -/
def written (advances : List (Edit × Word)) : Edit :=
  advances.foldr (fun a rest => a.1.andThen rest) fun _ _ => none

/-- The words that the executor accepted. -/
def executedWords : List GeEvent → Nat
  | [] => 0
  | .executed _ words _ :: older => words + executedWords older
  | _ :: older => executedWords older

/-- The edit leaves what the run of the list to the stall address accesses as it is. -/
def SparesUpdate (e : Edit) (m : GeMachine) (listId stallAddress : Word) : Prop :=
  ∀ list ∈ m.scheduler.find listId.toInt, ¬ list.state.Finished →
    e.SparesRun (m.contextOf listId.toInt stallAddress list.callbackId) GeExecution.maxGeCommandWords
      (m.startOf list list.programCounter)

/-- What the guest writes before an advance is not accessed by the runs of the list before that. -/
def Undisturbed (m : GeMachine) (listId : Word) : List (Edit × Word) → Prop
  | [] => True
  | a :: rest => SparesUpdate (written rest) (m.write a.1) listId a.2 ∧ (m.advance listId a).Undisturbed listId rest

instance (e : Edit) (m : GeMachine) (listId stallAddress : Word) : Decidable (SparesUpdate e m listId stallAddress) :=
  inferInstanceAs (Decidable (∀ list ∈ m.scheduler.find listId.toInt, _ → _))

instance decidableUndisturbed (listId : Word) : ∀ (m : GeMachine) advances, Decidable (m.Undisturbed listId advances)
  | _, [] => .isTrue trivial
  | m, a :: rest =>
    have := decidableUndisturbed listId (m.advance listId a) rest
    inferInstanceAs (Decidable (_ ∧ _))

variable {m : GeMachine} {e : Edit} {id : Int} {list : DisplayList} {listId : Word} {t : GeExecution}
  {base : List PendingCallback}

/-- The one run has done in `t` what the machine has done, and what `e` writes is written already. -/
structure Agrees (m : GeMachine) (e : Edit) (base : List PendingCallback) (t : GeExecution) : Prop where
  graphics : t.graphics = m.graphics
  memory : t.memory = m.memory.overlay e
  draws : t.draws = m.draws
  transfers : t.transfers = m.transfers
  callbacks : base ++ t.pendingCallbacks = m.callbacks

/-- The one run is in `t` where a run of the list would go on. -/
def Resumes (m : GeMachine) (e : Edit) (base : List PendingCallback) (list : DisplayList) (t : GeExecution) : Prop :=
  ∃ p : Earlier, Sim e p (m.startOf list list.programCounter) t ∧ base ++ p.callbacks = m.callbacks

/-- The one run, from `t` on, has done in `j` words what the list has done that is now in its state. -/
structure Follows (m : GeMachine) (e : Edit) (base : List PendingCallback) (list : DisplayList) (c : GeContext)
    (j : Nat) (t : GeExecution) : Prop where
  stalled : list.state = .stalled → ∃ t', m.Resumes e base list t' ∧ ∀ k, loop c (j + k) t = loop c k t'
  completed : list.state = .completed → ∃ t', m.Agrees e base t' ∧ ∀ k, loop c (j + k) t = (.ended, t')
  state : list.state = .stalled ∨ list.state.Finished

theorem executeGeList_eq (h : m.scheduler.find id = some list) (startAddress stallAddress callbackId : Word) :
    m.executeGeList id startAddress stallAddress callbackId =
      let ran := m.ranOf list id startAddress stallAddress callbackId
      { m with
        graphics := ran.2.graphics
        memory := ran.2.memory
        scheduler := settle (m.scheduler.begin id) id stallAddress ran
        draws := ran.2.draws
        transfers := ran.2.transfers
        callbacks := m.callbacks ++ ran.2.pendingCallbacks
        log := .executed id ran.2.words (m.ahead id) :: m.log } := by
  rw [executeGeList, h]
  rfl

/-- One run of the list: where it stalls the one run goes on from the same point, and where it ends the one
run has ended with the same results. -/
theorem executeGeList_sim (hlist : m.scheduler.find id = some list) (hresumes : m.Resumes e base list t)
    (stallAddress : Word) (hspares : e.SparesRun (m.contextOf id stallAddress list.callbackId)
      GeExecution.maxGeCommandWords (m.startOf list list.programCounter)) :
    let m' := m.executeGeList id list.programCounter stallAddress list.callbackId
    ∃ list' j, m'.scheduler.find id = some list' ∧ list'.callbackId = list.callbackId ∧
      executedWords m'.log = executedWords m.log + j ∧
      m'.Follows e base list' (m.contextOf id 0 list.callbackId) j t := by
  intro m'
  obtain ⟨p, hsim, hbase⟩ := hresumes
  obtain ⟨j, hwords, hstalled, hended⟩ := GeExecution.loop_sim hsim hspares
  have hm' : m' = _ := executeGeList_eq hlist list.programCounter stallAddress list.callbackId
  set ran := m.ranOf list id list.programCounter stallAddress list.callbackId
  have hwords : ran.2.words = j := hwords.trans (Nat.zero_add j)
  have hfind : m'.scheduler.find id = some (settled list stallAddress ran) := by
    rw [hm']
    exact settle_find hlist
  refine ⟨settled list stallAddress ran, j, hfind, rfl, ?_, fun hstate => ?_, fun hstate => ?_, ?_⟩
  · rw [hm', executedWords, hwords, Nat.add_comm]
  · have hstop : ran.1 = .stalled := by
      cases hstop : ran.1 <;> simp [settled, hstop] at hstate ⊢
    obtain ⟨t', hsim', hloop⟩ := hstalled hstop
    change Sim e p ran.2 t' at hsim'
    refine ⟨t', ⟨⟨p.words + ran.2.words, p.callbacks ++ ran.2.pendingCallbacks⟩, ⟨?_, .of_empty rfl, hsim'.coherent'⟩,
      ?_⟩, hloop⟩
    · rw [hsim'.eq, hm']
      simp [GeExecution.shift, startOf, settled]
    · rw [hm', ← List.append_assoc, hbase]
  · have hstop : ran.1 = .ended := by
      cases hstop : ran.1 <;> simp [settled, hstop] at hstate ⊢
    obtain ⟨t', hsim', hloop⟩ := hended hstop
    refine ⟨t', ?_, hloop⟩
    rw [hsim'.eq, hm']
    exact ⟨rfl, rfl, rfl, rfl, (List.append_assoc ..).symm.trans (congrArg (· ++ ran.2.pendingCallbacks) hbase)⟩
  · cases hstop : ran.1 <;> simp [settled, hstop, ListState.Finished]

theorem executeGeList_geCallbacks (startAddress stallAddress callbackId : Word) :
    (m.executeGeList id startAddress stallAddress callbackId).geCallbacks = m.geCallbacks := by
  unfold executeGeList
  split <;> rfl

/-- A list that is finished stays as it is, and only the memory changes. -/
theorem advanceAll_of_finished (hlist : m.scheduler.find listId.toInt = some list) (hf : list.state.Finished)
    (advances : List (Edit × Word)) : m.advanceAll listId advances = m.write (written advances) := by
  induction advances generalizing m with
  | nil => exact (congrArg (fun memory => { m with memory }) GuestMemory.overlay_none).symm
  | cons a rest ih =>
    have hupdate : m.scheduler.updateStall listId.toInt a.2 = none := by
      cases hupdate : m.scheduler.updateStall listId.toInt a.2 with
      | none => rfl
      | some s' =>
        obtain ⟨list', hlist', hnot, -⟩ := Scheduler.updateStall_eq_some.1 hupdate
        rw [Option.some.inj (hlist'.symm.trans hlist)] at hnot
        exact absurd hf hnot
    have hadvance : m.advance listId a = m.write a.1 := by
      simp only [advance, sceGeListUpdateStallAddr, write, hupdate]
    rw [advanceAll, List.foldl_cons, hadvance]
    refine (ih (m := m.write a.1) hlist).trans ?_
    simp only [write, written, List.foldr_cons, GuestMemory.overlay_andThen]

theorem advance_eq (hlist : m.scheduler.find listId.toInt = some list) (hf : ¬ list.state.Finished)
    (a : Edit × Word) : ∃ scheduler, scheduler.find listId.toInt = some (Scheduler.restalled a.2 list) ∧
      m.advance listId a = ((m.write a.1).setScheduler scheduler).executeGeList listId.toInt
        (Scheduler.restalled a.2 list).programCounter a.2 (Scheduler.restalled a.2 list).callbackId := by
  have hupdate : m.scheduler.updateStall listId.toInt a.2 =
      some (m.scheduler.modify listId.toInt (Scheduler.restalled a.2)) :=
    Scheduler.updateStall_eq_some.2 ⟨list, hlist, hf, rfl⟩
  have hfind : (m.scheduler.modify listId.toInt (Scheduler.restalled a.2)).find listId.toInt =
      some (Scheduler.restalled a.2 list) := by
    rw [Scheduler.find_modify_self, hlist, Option.map_some]
  refine ⟨_, hfind, ?_⟩
  simp only [advance, sceGeListUpdateStallAddr, write, hupdate, hfind]
  rfl

/-- A list that is resumed until it is completed does the rest of the one run. -/
theorem advanceAll_sim (advances : List (Edit × Word)) {j : Nat} (hlist : m.scheduler.find listId.toInt = some list)
    (hfollows : m.Follows (written advances) base list (m.contextOf listId.toInt 0 list.callbackId) j t)
    (hundisturbed : m.Undisturbed listId advances)
    (hcompleted : (m.advanceAll listId advances).scheduler.Has listId.toInt .completed) :
    ∃ j' t', executedWords (m.advanceAll listId advances).log = executedWords m.log + j' ∧
      (m.advanceAll listId advances).Agrees (fun _ _ => none) base t' ∧
      ∀ k, loop (m.contextOf listId.toInt 0 list.callbackId) (j + j' + k) t = (.ended, t') := by
  induction advances generalizing m list t j with
  | nil =>
    obtain ⟨list', hlist', hstate⟩ := hcompleted
    rw [Option.some.inj (hlist'.symm.trans hlist)] at hstate
    obtain ⟨t', hagrees, hloop⟩ := hfollows.completed hstate
    exact ⟨0, t', rfl, hagrees, hloop⟩
  | cons a rest ih =>
    rcases hfollows.state with hstalled | hf
    · have hf : ¬ list.state.Finished := by simp [hstalled, ListState.Finished]
      obtain ⟨t₁, hresumes, hloop⟩ := hfollows.stalled hstalled
      obtain ⟨scheduler, hfind, hadvance⟩ := advance_eq hlist hf a
      -- the run starts in the memory that the guest has written
      have hresumes' : ((m.write a.1).setScheduler scheduler).Resumes (written rest) base
          (Scheduler.restalled a.2 list) t₁ := by
        obtain ⟨p, hsim, hbase⟩ := hresumes
        refine ⟨p, ⟨?_, .of_empty rfl, hsim.coherent'⟩, hbase⟩
        rw [hsim.eq]
        simp only [GeExecution.shift, startOf, write, setScheduler, written, List.foldr_cons,
          GuestMemory.overlay_andThen, Scheduler.restalled]
      obtain ⟨list', j₁, hlist', hcallback, hwords, hfollows'⟩ :=
        executeGeList_sim hfind hresumes' a.2 (hundisturbed.1 list hlist hf)
      rw [← hadvance] at hlist' hwords hfollows'
      have hcontext : (m.advance listId a).contextOf listId.toInt 0 list'.callbackId =
          m.contextOf listId.toInt 0 list.callbackId := by
        rw [contextOf, hcallback, hadvance, executeGeList_geCallbacks]
        rfl
      obtain ⟨j', t', hwords', hagrees, hloop'⟩ := ih hlist' (hcontext ▸ hfollows') hundisturbed.2 hcompleted
      refine ⟨j₁ + j', t', hwords'.trans (by rw [hwords, Nat.add_assoc]; rfl), hagrees, fun k => ?_⟩
      rw [hcontext] at hloop'
      rw [Nat.add_assoc, hloop, hloop']
    · rw [advanceAll_of_finished hlist hf] at hcompleted ⊢
      obtain ⟨list', hlist', hdone⟩ := hcompleted
      rw [Option.some.inj (hlist'.symm.trans hlist)] at hdone
      obtain ⟨t', hagrees, hloop⟩ := hfollows.completed hdone
      exact ⟨0, t', rfl, ⟨hagrees.graphics, hagrees.memory.trans GuestMemory.overlay_none.symm, hagrees.draws,
        hagrees.transfers, hagrees.callbacks⟩, hloop⟩

/-- The machine with the list enqueued, before it runs. -/
def enqueued (m : GeMachine) (startAddress stallAddress callbackId : Word) (atHead : Bool) : GeMachine :=
  m.setScheduler (m.scheduler.enqueue startAddress stallAddress callbackId atHead).2

/-- The edit leaves what the first run of a new list accesses as it is. -/
def SparesEnqueue (e : Edit) (m : GeMachine) (startAddress stallAddress callbackId : Word) (atHead : Bool) : Prop :=
  ∀ list ∈ (m.enqueued startAddress stallAddress callbackId atHead).scheduler.find m.scheduler.nextId,
    e.SparesRun (m.contextOf m.scheduler.nextId stallAddress callbackId) GeExecution.maxGeCommandWords
      (m.startOf list startAddress)

instance (e : Edit) (m : GeMachine) (startAddress stallAddress callbackId : Word) (atHead : Bool) :
    Decidable (SparesEnqueue e m startAddress stallAddress callbackId atHead) :=
  inferInstanceAs (Decidable (∀ list ∈ Scheduler.find _ m.scheduler.nextId, _))

end GeMachine

/-- A list that the guest lets advance through a sequence of stall addresses until it is completed leaves the
graphics state, the memory, the draws, the block transfers and the callbacks that it leaves when it is
enqueued without a stall address in the memory that the guest has written by then. -/
theorem resumed_eq_unstalled (m : GeMachine) (startAddress stallAddress callbackId listId : Word) (atHead : Bool)
    (advances : List (Edit × Word)) (hreachable : m.Reachable) (hid : listId.toInt = m.scheduler.nextId)
    (hfirst : GeMachine.SparesEnqueue (GeMachine.written advances) m startAddress stallAddress callbackId atHead) :
    let first := (m.sceGeListEnQueue startAddress stallAddress callbackId atHead).2
    let last := first.advanceAll listId advances
    let once := ((m.write (GeMachine.written advances)).sceGeListEnQueue startAddress 0 callbackId atHead).2
    first.Undisturbed listId advances → last.scheduler.Has listId.toInt .completed →
    GeMachine.executedWords last.log < GeMachine.executedWords m.log + GeExecution.maxGeCommandWords →
    last.graphics = once.graphics ∧ last.memory = once.memory ∧ last.draws = once.draws ∧
      last.transfers = once.transfers ∧ last.callbacks = once.callbacks := by
  intro first last once hundisturbed hcompleted hlimit
  have hfresh : m.scheduler.find m.scheduler.nextId = none := hreachable.inv.fresh _ le_rfl
  have hlist := Scheduler.enqueue_find_self hfresh startAddress stallAddress callbackId atHead
  set list : DisplayList := { id := m.scheduler.nextId, startAddress, programCounter := startAddress, stallAddress, callbackId }
  let start := (m.write (GeMachine.written advances)).enqueued startAddress 0 callbackId atHead
  let t := start.startOf list startAddress
  have hresumes : (m.enqueued startAddress stallAddress callbackId atHead).Resumes (GeMachine.written advances)
      m.callbacks list t :=
    ⟨{}, ⟨rfl, .of_empty rfl, .of_empty rfl⟩, List.append_nil _⟩
  obtain ⟨list', j, hlist', hcallback, hwords, hfollows⟩ :=
    GeMachine.executeGeList_sim hlist hresumes stallAddress (hfirst list hlist)
  have hcontext : first.contextOf listId.toInt 0 list'.callbackId = start.contextOf m.scheduler.nextId 0 callbackId := by
    have hcallbacks : first.geCallbacks = m.geCallbacks := GeMachine.executeGeList_geCallbacks ..
    rw [GeMachine.contextOf, hid, hcallback, hcallbacks]
    rfl
  have hfollows' : first.Follows (GeMachine.written advances) m.callbacks list'
      (first.contextOf listId.toInt 0 list'.callbackId) j t := hcontext ▸ hfollows
  obtain ⟨j', t', hwords', hagrees, hloop⟩ :=
    GeMachine.advanceAll_sim advances (hid ▸ hlist') hfollows' hundisturbed hcompleted
  -- the words of all runs are within the limit of one
  have hfirstWords : GeMachine.executedWords first.log = GeMachine.executedWords m.log + j := hwords
  have hlastWords : GeMachine.executedWords last.log = GeMachine.executedWords first.log + j' := hwords'
  obtain ⟨k, hk⟩ : ∃ k, GeExecution.maxGeCommandWords = j + j' + k :=
    Nat.exists_eq_add_of_le (by rw [hlastWords, hfirstWords] at hlimit; omega)
  have hran : start.ranOf { list with stallAddress := 0 } m.scheduler.nextId startAddress 0 callbackId =
      (.ended, t') := by
    rw [← hloop k, ← hk, hcontext]
    rfl
  have hstart : start.scheduler.find m.scheduler.nextId = some { list with stallAddress := 0 } :=
    Scheduler.enqueue_find_self hfresh startAddress 0 callbackId atHead
  have honce : once = _ := GeMachine.executeGeList_eq hstart startAddress 0 callbackId
  rw [hran] at honce
  rw [honce]
  exact ⟨hagrees.graphics.symm, (hagrees.memory.trans GuestMemory.overlay_none).symm, hagrees.draws.symm,
    hagrees.transfers.symm, hagrees.callbacks.symm⟩

/-- A subroutine that stalls before its RET, which the guest writes when the list has stalled there. -/
theorem resumed_eq_unstalled_subroutine :
    let m : GeMachine :=
      { memory := { memory := ⟨some (wordBytes [0x0a000008, 0x0c000000, 0x13000001, 0]), 16⟩ } }
    let ret : Edit := fun r i => if r = .memory ∧ 12 ≤ i ∧ i < 16 then some (wordByte 0x0b000000 (i - 12)) else none
    let advances := [((fun _ _ => none : Edit), (12 : Word)), (ret, 0)]
    let first := (m.sceGeListEnQueue 0 8 0 false).2
    let last := first.advanceAll 1 advances
    let once := ((m.write (GeMachine.written advances)).sceGeListEnQueue 0 0 0 false).2
    last.log = [.executed 1 2 [], .executed 1 1 [], .executed 1 1 []] ∧ last.graphics = once.graphics ∧
      last.memory = once.memory ∧ last.draws = once.draws ∧ last.transfers = once.transfers ∧
      last.callbacks = once.callbacks := by
  intro m ret advances first last once
  have hfirst : GeMachine.SparesEnqueue (GeMachine.written advances) m 0 8 0 false := by decide
  have hundisturbed : first.Undisturbed 1 advances := by decide +kernel
  have hcompleted : last.scheduler.Has (1 : Word).toInt .completed := by decide
  have hlimit : GeMachine.executedWords last.log < GeMachine.executedWords m.log + GeExecution.maxGeCommandWords := by
    decide
  exact ⟨by decide, resumed_eq_unstalled m 0 8 0 1 false advances ⟨m, [], rfl, rfl⟩ rfl hfirst
    hundisturbed hcompleted hlimit⟩

end Psprism
