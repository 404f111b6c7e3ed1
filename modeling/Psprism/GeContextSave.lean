import Psprism.BufferReads
import Psprism.FileIo
import Psprism.GeLists
import Psprism.GeTextureCache
import Psprism.PatchPointers
import Psprism.UnalignedWords

/-!
# Saved graphics contexts (`ge/ge_state.hpp`, `sceGeSaveContext`, `sceGeRestoreContext`)

A guest that shares the graphics engine saves its state to memory and has it restored later. The palette is
not saved, and a restore counts as a change of the textures: it drops what is cached of them and moves their
generation on. The lists that run after it draw what they would have drawn at the save all the same, as long
as the palette is the one of then.
-/

namespace Psprism
open GeExecution

/-! ### The words of a context -/

namespace Cursor

variable {W : Type*} [Inhabited W] {n : Nat}

/-- `*cursor++`. -/
def word (cursor : List W) : W × List W := (cursor.headD default, cursor.tail)

/-- As many words as an array has, and the cursor behind them. -/
def array (n : Nat) (cursor : List W) : (Fin n → W) × List W := (fun i => cursor.getD i default, cursor.drop n)

@[simp] theorem word_cons (w : W) (rest : List W) : word (w :: rest) = (w, rest) := rfl

@[simp] theorem array_ofFn_append (f : Fin n → W) (rest : List W) : array n (List.ofFn f ++ rest) = (f, rest) := by
  refine Prod.ext (funext fun i => ?_) ?_
  · simp [array, List.getD_eq_getElem?_getD, List.getElem?_append]
  · exact List.drop_left' List.length_ofFn

end Cursor

/-- `refract::ge::State` with what only its contexts hold, and all that the stubs of the display lists share. -/
structure GeUnit extends GeMachine where
  addressTranslationWidth : Word := 0

def contextWordCount : Nat := 512

namespace GeUnit
open Cursor

/-- `State::save`. -/
def save (u : GeUnit) : List Word :=
  let g := u.graphics
  let stored :=
    List.ofFn (fun i : Fin 256 => g.commands (BitVec.ofFin i)) ++ List.ofFn g.worldMatrix.values ++
      List.ofFn g.viewMatrix.values ++ List.ofFn g.projectionMatrix.values ++ List.ofFn g.textureMatrix.values ++
      List.ofFn g.boneMatrices.values ++
      [g.vertexAddress, g.indexAddress, g.offsetAddress, g.worldMatrix.index, g.viewMatrix.index,
        g.projectionMatrix.index, g.textureMatrix.index, g.boneMatrices.index, u.addressTranslationWidth]
  stored ++ List.replicate (contextWordCount - stored.length) 0

/-- `State::restore`. -/
def restore (u : GeUnit) (input : List Word) : GeUnit :=
  let (commands, cursor) := array 256 input
  let (worldMatrix, cursor) := array 12 cursor
  let (viewMatrix, cursor) := array 12 cursor
  let (projectionMatrix, cursor) := array 16 cursor
  let (textureMatrix, cursor) := array 12 cursor
  let (boneMatrices, cursor) := array 96 cursor
  let (vertexAddress, cursor) := word cursor
  let (indexAddress, cursor) := word cursor
  let (offsetAddress, cursor) := word cursor
  let (worldMatrixIndex, cursor) := word cursor
  let (viewMatrixIndex, cursor) := word cursor
  let (projectionMatrixIndex, cursor) := word cursor
  let (textureMatrixIndex, cursor) := word cursor
  let (boneMatrixIndex, cursor) := word cursor
  let (addressTranslationWidth, _) := word cursor
  { u with
    graphics :=
      { u.graphics with
        commands := fun command => commands command.toFin
        vertexAddress
        indexAddress
        offsetAddress
        worldMatrix := ⟨worldMatrix, worldMatrixIndex⟩
        viewMatrix := ⟨viewMatrix, viewMatrixIndex⟩
        projectionMatrix := ⟨projectionMatrix, projectionMatrixIndex⟩
        textureMatrix := ⟨textureMatrix, textureMatrixIndex⟩
        boneMatrices := ⟨boneMatrices, boneMatrixIndex⟩
        textureGeneration := u.graphics.textureGeneration + 1 }
    addressTranslationWidth }

/-! ### The stubs -/

/-- `Scheduler::busy`. -/
def busy (s : Scheduler) : Bool := s.queue.any fun id =>
  match s.find id with
  | none => false
  | some list => ¬ list.state.Finished

def contextBytes : Nat := contextWordCount * 4

def sceGeSaveContext (u : GeUnit) (address : Word) : Word × GeUnit :=
  match u.memory.mappedAddress address contextBytes with
  | none => (0x80000103, u)
  | some output =>
    if busy u.scheduler then (0xffffffff, u)
    else (0, { u with memory := Io.copyTo u.memory output contextBytes (wordBytes u.save) })

/-- The words of the context at a place in guest memory. -/
def contextAt (m : GuestMemory) (p : Pointer) : List Word :=
  (List.range contextWordCount).map fun i => readU32 (m.byteAt p) (4 * i)

def sceGeRestoreContext (u : GeUnit) (address : Word) : Word × GeUnit :=
  match u.memory.mappedAddress address contextBytes with
  | none => (0x80000103, u)
  | some input => if busy u.scheduler then (0x800201a7, u) else (0, u.restore (contextAt u.memory input))

def sceGeEdramSetAddrTranslation (u : GeUnit) (width : Word) : Word × GeUnit :=
  if width ≠ 0 ∧ (width < 0x200 ∨ 0x1000 < width ∨ width &&& (width - 1) ≠ 0) then (0x800001fe, u)
  else (u.addressTranslationWidth, { u with addressTranslationWidth := width })

/-! ### What a restore gives back -/

variable {u u' : GeUnit} {m : GuestMemory} {address : Word} {p : Pointer}

@[simp] theorem length_save : u.save.length = contextWordCount := by
  simp only [save, List.length_append, List.length_ofFn, List.length_replicate, List.length_cons, List.length_nil,
    contextWordCount]

/-- The graphics state saved, with what a restore leaves of the one there is now. -/
def restored (saved now : Graphics) : Graphics :=
  { saved with clut := now.clut, trace := now.trace, textureGeneration := now.textureGeneration + 1 }

theorem restore_save (u u' : GeUnit) :
    u'.restore u.save =
      { u' with
        graphics := restored u.graphics u'.graphics
        addressTranslationWidth := u.addressTranslationWidth } := by
  simp only [restore, save, List.append_assoc, array_ofFn_append, List.cons_append, word_cons]
  rfl

theorem contextAt_congr {m' : GuestMemory} {p' : Pointer}
    (h : ∀ i < contextBytes, m'.byteAt p' i = m.byteAt p i) : contextAt m' p' = contextAt m p := by
  refine List.map_congr_left fun i hi => readU32_congr fun j hj => h _ ?_
  have hi := List.mem_range.1 hi
  unfold contextBytes
  omega

theorem byteAt_copyTo (h : m.Hosted p.1) {width i : Nat} {byte : Nat → Byte} (hi : i < width) :
    (Io.copyTo m p width byte).byteAt p i = byte i := by
  rw [GuestMemory.byteAt, Io.copyTo, GuestMemory.bytes_setBytes h, if_pos (by omega), Nat.add_sub_cancel_left]

theorem contextAt_copyTo (h : m.Hosted p.1) (u : GeUnit) :
    contextAt (Io.copyTo m p contextBytes (wordBytes u.save)) p = u.save := by
  refine List.ext_getElem (by simp [contextAt]) fun i hi _ => ?_
  simp only [contextAt, List.getElem_map, List.getElem_range]
  have hi : i < contextWordCount := by simpa [contextAt] using hi
  refine readU32_of_bytes _ fun j hj => ?_
  have hbound : 4 * i + j < contextBytes := by
    unfold contextBytes
    omega
  rw [byteAt_copyTo h hbound, wordBytes, show (4 * i + j) / 4 = i by omega, show (4 * i + j) % 4 = j by omega]
  simp [List.getD_eq_getElem?_getD, hi]

/-- The bytes of a context in guest memory; `none` when they are not mapped. -/
def bytesAt (u : GeUnit) (address : Word) : Option (List Byte) :=
  (u.memory.mappedAddress address contextBytes).map fun p => (List.range contextBytes).map (u.memory.byteAt p)

theorem sceGeSaveContext_eq (h : u.sceGeSaveContext address = (0, u')) :
    ∃ p, u.memory.mappedAddress address contextBytes = some p ∧
      u' = { u with memory := Io.copyTo u.memory p contextBytes (wordBytes u.save) } := by
  unfold sceGeSaveContext at h
  split at h
  · cases congrArg Prod.fst h
  · next p hp =>
    split at h
    · cases congrArg Prod.fst h
    · exact ⟨p, hp, (congrArg Prod.snd h).symm⟩

theorem sceGeRestoreContext_eq (h : u.sceGeRestoreContext address = (0, u')) :
    ∃ p, u.memory.mappedAddress address contextBytes = some p ∧ u' = u.restore (contextAt u.memory p) := by
  unfold sceGeRestoreContext at h
  split at h
  · cases congrArg Prod.fst h
  · next p hp =>
    split at h
    · cases congrArg Prod.fst h
    · exact ⟨p, hp, (congrArg Prod.snd h).symm⟩

/-- A context that is restored from the bytes that it was saved to is the one that was saved. -/
theorem restored_eq {u₁ u₂ u₃ : GeUnit} (hsave : u.sceGeSaveContext address = (0, u₁))
    (hkept : u₂.bytesAt address = u₁.bytesAt address) (hrestore : u₂.sceGeRestoreContext address = (0, u₃)) :
    u₃ = u₂.restore u.save := by
  obtain ⟨p, hp, rfl⟩ := sceGeSaveContext_eq hsave
  obtain ⟨p₂, hp₂, rfl⟩ := sceGeRestoreContext_eq hrestore
  have hmapped : (Io.copyTo u.memory p contextBytes (wordBytes u.save)).mappedAddress address contextBytes = some p :=
    (GuestMemory.mappedAddress_setBytes ..).trans hp
  rw [bytesAt, bytesAt, hp₂, hmapped, Option.map_some, Option.map_some, Option.some.injEq] at hkept
  have hbytes : ∀ i < contextBytes, u₂.memory.byteAt p₂ i =
      (Io.copyTo u.memory p contextBytes (wordBytes u.save)).byteAt p i := fun i hi =>
    List.map_inj_left.1 hkept i (List.mem_range.2 hi)
  rw [contextAt_congr hbytes, contextAt_copyTo (hosted_of_mappedAddress hp)]

end GeUnit

/-! ### Runs that differ in the age of the textures -/

def Draw.unaged (d : Draw) : Draw := { d with textureGeneration := 0 }

def Graphics.unaged (g : Graphics) : Graphics := { g with textureGeneration := 0, trace := {} }

section
variable (g : Graphics)

theorem Graphics.unaged_indexType : g.unaged.indexType = g.indexType := rfl

theorem Graphics.unaged_layout : g.unaged.layout = g.layout := rfl

theorem Graphics.unaged_vertexBytes (m : GuestMemory) (count : Nat) :
    g.unaged.vertexBytes m count = g.vertexBytes m count := rfl

end

namespace GeExecution

variable {c : GeContext} {s t : GeExecution} {instruction argument : Word}

/-- The state of a run but for the generation of the textures, what is cached of them and the trace. -/
def unaged (s : GeExecution) : GeExecution :=
  { s with
    graphics := s.graphics.unaged
    textureCache := fun _ => none
    draws := s.draws.map Draw.unaged }

theorem coherent_unaged : s.unaged.Coherent := .of_empty rfl

@[simp] theorem unaged_graphics (s : GeExecution) : s.unaged.graphics = s.graphics.unaged := rfl

@[simp] theorem unaged_memory (s : GeExecution) : s.unaged.memory = s.memory := rfl

@[simp] theorem unaged_callStack (s : GeExecution) : s.unaged.callStack = s.callStack := rfl

theorem submit_unaged (hs : s.Coherent) (primitiveType : Nat) (vertices : List (List Byte)) :
    (s.submit primitiveType vertices).unaged = (s.unaged.submit primitiveType vertices).unaged := by
  have htexture : s.fetchTexture.1 = s.unaged.fetchTexture.1 :=
    (Memo.fetch_fst hs _).trans (Memo.fetch_fst coherent_unaged _).symm
  simp only [unaged, submit, htexture, List.map_append, List.map_map]
  rw [show Draw.unaged ∘ Draw.unaged = Draw.unaged from rfl]
  rfl

theorem advanceVertices_unaged (g : Graphics) (count : Nat) :
    (g.advanceVertices count).unaged = g.unaged.advanceVertices count := by
  unfold Graphics.advanceVertices
  rw [Graphics.unaged_indexType]
  split <;> rfl

theorem setRegister_unaged (g : Graphics) (programCounter : Word) (opcode : Byte) :
    (g.setRegister programCounter opcode argument).unaged = g.unaged.setRegister programCounter opcode argument := by
  unfold Graphics.setRegister
  split <;> rfl

theorem setGraphics_unaged (s : GeExecution) (g : Graphics) : (s.setGraphics g).unaged = s.unaged.setGraphics g.unaged := rfl

theorem unaged_unaged (s : GeExecution) : s.unaged.unaged = s.unaged := by
  simp only [unaged, List.map_map]
  rfl

theorem primitive_unaged (hs : s.Coherent) : (s.primitive argument).unaged = (s.unaged.primitive argument).unaged := by
  unfold primitive
  dsimp only
  rw [unaged_graphics, unaged_memory, Graphics.unaged_layout, Graphics.unaged_vertexBytes]
  split
  · rw [setGraphics_unaged, setGraphics_unaged, advanceVertices_unaged, advanceVertices_unaged]
    split
    · rw [unaged_unaged]
      rfl
    · rw [submit_unaged hs]
      rfl
  · rw [unaged_unaged]

theorem boundingBox_unaged (s : GeExecution) :
    (s.boundingBox argument).unaged = (s.unaged.boundingBox argument).unaged := by
  unfold boundingBox unaged
  dsimp only
  rw [List.map_map]
  split
  · rw [advanceVertices_unaged, advanceVertices_unaged]
    rfl
  · rfl

/-- A palette that changes does so whatever the textures' age. -/
theorem loadClut_unaged (s : GeExecution) : (s.loadClut argument).unaged = (s.unaged.loadClut argument).unaged := by
  have hcommands : s.graphics.unaged.commands = s.graphics.commands := rfl
  have hclut : s.graphics.unaged.clut = s.graphics.clut := rfl
  unfold loadClut
  rw [unaged_graphics, unaged_memory, hcommands, hclut]
  split
  · exact (unaged_unaged s).symm
  · split
    · exact (unaged_unaged s).symm
    · simp only [unaged, List.map_map]
      rfl

theorem transfer_unaged (s : GeExecution) : (s.transfer argument).unaged = (s.unaged.transfer argument).unaged := by
  simp only [transfer, unaged, List.map_map]
  rfl

theorem callback_unaged (s : GeExecution) (signal : Bool) :
    (s.callback c signal argument).unaged = (s.unaged.callback c signal argument).unaged := by
  simp only [callback, unaged, List.map_map]
  rfl

/-- An accepted command does the same whatever the textures' age. -/
theorem execute_unaged (hs : s.Coherent) :
    (s.execute c instruction).unaged = (s.unaged.execute c instruction).unaged := by
  have hgoto {s t : GeExecution} (h : s.unaged = t.unaged) (pc : Word) : (s.goto pc).unaged = (t.goto pc).unaged :=
    congrArg (·.goto pc) h
  unfold execute
  dsimp only
  split
  · exact hgoto (primitive_unaged hs) _
  · exact hgoto (boundingBox_unaged s) _
  · exact hgoto (unaged_unaged s).symm _
  · exact hgoto (unaged_unaged s).symm _
  · rw [unaged_callStack]
    split
    · simp only [goto, unaged, List.map_map]
      rfl
    · exact hgoto (unaged_unaged s).symm _
  · rw [unaged_callStack]
    cases s.callStack with
    | nil => exact hgoto (unaged_unaged s).symm _
    | cons frame below =>
      simp only [goto, unaged, List.map_map]
      rfl
  · exact hgoto (callback_unaged s true) _
  · exact hgoto (callback_unaged s false) _
  · exact hgoto (loadClut_unaged s) _
  · exact hgoto (transfer_unaged s) _
  · refine hgoto ?_ _
    rw [setGraphics_unaged, setGraphics_unaged, setRegister_unaged, setRegister_unaged, unaged_unaged]
    rfl

theorem accept_unaged (s : GeExecution) :
    (s.accept c instruction).unaged = (s.unaged.accept c instruction).unaged := by
  simp only [accept, unaged, List.map_map]
  rfl

/-! ### A whole run -/

/-- The two states are alike but for the textures' age, and what they have cached is right. -/
structure Alike (s t : GeExecution) : Prop where
  eq : s.unaged = t.unaged
  coherent : s.Coherent
  coherent' : t.Coherent

theorem Alike.accept (h : Alike s t) : Alike (s.accept c instruction) (t.accept c instruction) :=
  ⟨by rw [accept_unaged s, accept_unaged t, h.eq], h.coherent.accept, h.coherent'.accept⟩

theorem Alike.execute (h : Alike s t) : Alike (s.execute c instruction) (t.execute c instruction) :=
  ⟨by rw [execute_unaged h.coherent, execute_unaged h.coherent', h.eq], h.coherent.execute, h.coherent'.execute⟩

theorem Alike.stalls (h : Alike s t) : s.stalls c = t.stalls c := by
  change s.unaged.stalls c = t.unaged.stalls c
  rw [h.eq]

theorem Alike.fetch (h : Alike s t) : s.fetch = t.fetch := by
  change s.unaged.fetch = t.unaged.fetch
  rw [h.eq]

theorem Alike.loop (h : Alike s t) (n : Nat) :
    (loop c n s).1 = (loop c n t).1 ∧ Alike (loop c n s).2 (loop c n t).2 := by
  induction n generalizing s t with
  | zero => exact ⟨rfl, h⟩
  | succ n ih =>
    rw [GeExecution.loop, GeExecution.loop, h.stalls, h.fetch]
    split
    · exact ⟨rfl, h⟩
    · split
      · exact ⟨rfl, h⟩
      · split
        · exact ⟨rfl, h.accept⟩
        · exact ih h.accept.execute

end GeExecution

/-- A context restored from the bytes that it was saved to, whatever the guest did in between, gives back all
of the graphics state but the palette. When the palette is the one of the save, too, a display list then ends,
draws, transfers and calls back as it would have at the save; only the generation of the textures tells. -/
theorem context_restored (u u₁ u₂ u₃ : GeUnit) (address : Word) (hsave : u.sceGeSaveContext address = (0, u₁))
    (hkept : u₂.bytesAt address = u₁.bytesAt address) (hrestore : u₂.sceGeRestoreContext address = (0, u₃)) :
    u₃ = { u₂ with
      graphics := GeUnit.restored u.graphics u₂.graphics
      addressTranslationWidth := u.addressTranslationWidth } ∧
    (u₂.graphics.clut = u.graphics.clut → ∀ c n (s : GeExecution), s.graphics = u.graphics →
      s.textureCache = (fun _ => none) →
      (loop c n { s with graphics := u₃.graphics }).1 = (loop c n s).1 ∧
        (loop c n { s with graphics := u₃.graphics }).2.unaged = (loop c n s).2.unaged) := by
  have heq := (GeUnit.restored_eq hsave hkept hrestore).trans (GeUnit.restore_save u u₂)
  refine ⟨heq, fun hclut c n s hgraphics hcache => ?_⟩
  have halike : Alike { s with graphics := u₃.graphics } s := by
    refine ⟨?_, .of_empty hcache, .of_empty hcache⟩
    have hunaged : u₃.graphics.unaged = s.graphics.unaged := by
      rw [heq, hgraphics]
      simp only [Graphics.unaged, GeUnit.restored, hclut]
    rw [unaged, unaged, hunaged]
  have hloop := halike.loop (c := c) n
  exact ⟨hloop.1, hloop.2.eq⟩

/-- A guest that saves, has its graphics state reset and restores it. -/
theorem context_restored_reset :
    let u : GeUnit :=
      { memory := { memory := ⟨some fun _ => 0, 4096⟩ }
        graphics := { commands := fun command => command.setWidth 32, viewMatrix := ⟨fun _ => 0x3f800000, 3⟩ }
        addressTranslationWidth := 0x400 }
    let u₁ := (u.sceGeSaveContext 16).2
    let u₂ : GeUnit := { u₁ with graphics := {}, addressTranslationWidth := 0 }
    let u₃ := (u₂.sceGeRestoreContext 16).2
    u₃ = { u₂ with
      graphics := GeUnit.restored u.graphics u₂.graphics
      addressTranslationWidth := u.addressTranslationWidth } ∧
    ∀ c n (s : GeExecution), s.graphics = u.graphics → s.textureCache = (fun _ => none) →
      (loop c n { s with graphics := u₃.graphics }).1 = (loop c n s).1 ∧
        (loop c n { s with graphics := u₃.graphics }).2.unaged = (loop c n s).2.unaged := by
  intro u u₁ u₂ u₃
  have hsave : (u.sceGeSaveContext 16).1 = 0 := by decide
  have hrestore : (u₂.sceGeRestoreContext 16).1 = 0 := by decide
  have h := context_restored u u₁ u₂ u₃ 16 (Prod.ext hsave rfl) rfl (Prod.ext hrestore rfl)
  exact ⟨h.1, h.2 rfl⟩

end Psprism
