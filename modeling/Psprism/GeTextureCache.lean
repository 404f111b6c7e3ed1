import Mathlib.Logic.Relation
import Psprism.GeExecutor

/-!
# The executor's texture cache

The cache lives for one run. Its keys hold the registers that `decode_texture` reads, and the commands that
change the palette or the memory drop it.
-/

namespace Psprism.GeExecution
open Memo

variable {c : GeContext} {s t : GeExecution} {instruction argument : Word}

/-- Every cached texture is what decoding it now would give. -/
def Coherent (s : GeExecution) : Prop :=
  Memo.Coherent TextureEnvironment.key TextureEnvironment.decode s.textureCache s.textureEnvironment

theorem Coherent.of_empty (h : s.textureCache = fun _ => none) : s.Coherent := by
  rw [Coherent, h]
  exact Memo.Coherent.empty

theorem Coherent.of_eq (h : s.Coherent) (hcache : t.textureCache = s.textureCache)
    (henvironment : t.textureEnvironment = s.textureEnvironment) : t.Coherent := by
  rwa [Coherent, hcache, henvironment]

/-! ### One command -/

theorem setRegister_clut (g : Graphics) (programCounter : Word) (opcode : Byte) :
    (g.setRegister programCounter opcode argument).clut = g.clut := by
  unfold Graphics.setRegister
  split <;> rfl

theorem setRegister_textureGeneration (g : Graphics) (programCounter : Word) (opcode : Byte) :
    (g.setRegister programCounter opcode argument).textureGeneration = g.textureGeneration := by
  unfold Graphics.setRegister
  split <;> rfl

theorem advanceVertices_clut (g : Graphics) (count : Nat) : (g.advanceVertices count).clut = g.clut := by
  unfold Graphics.advanceVertices
  split <;> rfl

theorem advanceVertices_textureGeneration (g : Graphics) (count : Nat) :
    (g.advanceVertices count).textureGeneration = g.textureGeneration := by
  unfold Graphics.advanceVertices
  split <;> rfl

theorem Coherent.accept (h : s.Coherent) : (s.accept c instruction).Coherent := h.of_eq rfl rfl

theorem Coherent.goto (h : s.Coherent) (programCounter : Word) : (s.goto programCounter).Coherent := h.of_eq rfl rfl

theorem Coherent.setGraphics (h : s.Coherent) {g : Graphics} (hclut : g.clut = s.graphics.clut)
    (hgeneration : g.textureGeneration = s.graphics.textureGeneration) : (s.setGraphics g).Coherent := by
  refine h.of_eq rfl ?_
  simp only [textureEnvironment, GeExecution.setGraphics, hclut, hgeneration]

theorem Coherent.submit (h : s.Coherent) (primitiveType : Nat) (vertices : List (List Byte)) :
    (s.submit primitiveType vertices).Coherent := by
  exact Memo.Coherent.fetch h (fun _ _ hkey => decodeTexture_eq_of_key hkey _ _) _

theorem Coherent.primitive (h : s.Coherent) : (s.primitive argument).Coherent := by
  unfold GeExecution.primitive
  dsimp only
  split
  · split
    · exact h.setGraphics (advanceVertices_clut ..) (advanceVertices_textureGeneration ..)
    · exact (h.submit _ _).setGraphics (advanceVertices_clut ..) (advanceVertices_textureGeneration ..)
  · exact h

theorem Coherent.boundingBox (h : s.Coherent) : (s.boundingBox argument).Coherent := by
  refine h.of_eq rfl ?_
  unfold GeExecution.boundingBox textureEnvironment
  dsimp only
  split
  · rw [advanceVertices_clut, advanceVertices_textureGeneration]
  · rfl

/-- A palette that changes drops the cache. -/
theorem Coherent.loadClut (h : s.Coherent) : (s.loadClut argument).Coherent := by
  unfold GeExecution.loadClut
  split
  · exact h
  · split
    · exact h
    · exact .of_empty rfl

theorem Coherent.execute (h : s.Coherent) : (s.execute c instruction).Coherent := by
  unfold GeExecution.execute
  dsimp only
  split
  · exact h.primitive.goto _
  · exact h.boundingBox.goto _
  · exact h.goto _
  · exact h.goto _
  · split
    · exact h.of_eq rfl rfl
    · exact h.goto _
  · split
    · exact h.goto _
    · exact h.of_eq rfl rfl
  · exact h.of_eq rfl rfl
  · exact h.of_eq rfl rfl
  · exact h.loadClut.goto _
  · exact .of_empty rfl
  · exact (h.setGraphics (setRegister_clut ..) (setRegister_textureGeneration ..)).goto _

/-! ### A whole run -/

/-- The instruction that is accepted next, and does not end the list. -/
def next (s : GeExecution) (c : GeContext) : Option Word :=
  if s.stalls c then none else s.fetch.filter fun instruction => geOpcode instruction ≠ 0x0c

/-- The state after a command that does not end the list. -/
def step (s : GeExecution) (c : GeContext) (instruction : Word) : GeExecution :=
  (s.accept c instruction).execute c instruction

/-- The states in which a run that starts in `s` goes on to its next command. -/
def Reaches (c : GeContext) : GeExecution → GeExecution → Prop :=
  Relation.ReflTransGen fun s t => ∃ instruction, s.next c = some instruction ∧ t = s.step c instruction

theorem Coherent.reaches (h : s.Coherent) (hreaches : Reaches c s t) : t.Coherent := by
  induction hreaches with
  | refl => exact h
  | tail _ hstep ih =>
    obtain ⟨instruction, -, rfl⟩ := hstep
    exact ih.accept.execute

/-- A command submits nothing, or one draw with a texture that the cache gives. -/
theorem execute_draws (hs : s.Coherent) :
    (s.execute c instruction).draws = s.draws ∨
      ∃ d, (s.execute c instruction).draws = s.draws ++ [d] ∧
        d.texture = decodeTexture s.memory s.graphics.commands s.graphics.clut := by
  have hsubmit : ∀ primitiveType vertices, ∃ d, (s.submit primitiveType vertices).draws = s.draws ++ [d] ∧
      d.texture = decodeTexture s.memory s.graphics.commands s.graphics.clut := fun primitiveType vertices =>
    ⟨_, rfl, Memo.fetch_fst hs _⟩
  unfold GeExecution.execute
  dsimp only
  split
  · unfold GeExecution.primitive
    dsimp only
    split
    · split
      · exact .inl rfl
      · exact .inr (hsubmit _ _)
    · exact .inl rfl
  · exact .inl rfl
  · exact .inl rfl
  · exact .inl rfl
  · split <;> exact .inl rfl
  · split <;> exact .inl rfl
  · exact .inl rfl
  · exact .inl rfl
  · unfold GeExecution.loadClut
    split
    · exact .inl rfl
    · split <;> exact .inl rfl
  · exact .inl rfl
  · exact .inl rfl

/-- In a run, which starts with an empty cache, every texture that a draw is submitted with is what
`decode_texture` gives for the registers, the palette and the memory at the draw. -/
theorem run_draws_current {start : GeExecution} (hcache : start.textureCache = fun _ => none)
    (hreaches : Reaches c start s) :
    (s.step c instruction).draws = s.draws ∨
      ∃ d, (s.step c instruction).draws = s.draws ++ [d] ∧
        d.texture = decodeTexture s.memory (s.accept c instruction).graphics.commands s.graphics.clut :=
  execute_draws ((Coherent.of_empty hcache).reaches hreaches).accept

/-- A list of two points of one texel each, the second of which is drawn from the cache. -/
def texturedPoints : GeExecution where
  graphics :=
    { commands := fun opcode =>
        if opcode = 0x1e then 1 else if opcode = 0xc3 then 3 else if opcode = 0xa8 then 1
        else if opcode = 0x12 then 0x80 else 0 }
  memory := { memory := ⟨some (wordBytes [0x04000001, 0x04000001]), 8⟩ }
  programCounter := 0

theorem run_draws_current_second :
    let c : GeContext := { listId := 1, stallAddress := 0, callbackId := 0, callbacks := fun _ => none }
    let s := texturedPoints.step c 0x04000001
    ∃ d, (s.step c 0x04000001).draws = s.draws ++ [d] ∧
      d.texture = decodeTexture s.memory (s.accept c 0x04000001).graphics.commands s.graphics.clut := by
  intro c s
  have hstep : texturedPoints.next c = some 0x04000001 := by decide
  have hreaches : Reaches c texturedPoints s := .single ⟨0x04000001, hstep, rfl⟩
  exact (run_draws_current rfl hreaches).resolve_left fun h => absurd (congrArg List.length h) (by decide)

end Psprism.GeExecution
