import Psprism.GeExecutor
import Psprism.Lib.Fetch

/-!
# What a PRIM reads (`ge_vertex_decoder.hpp` and the vertex loop of `sceGeListEnQueue.cpp`)

The indices are mapped with their own size and the vertices up to the largest index. From each vertex the
loop fetches those components that the vertex type names, each at the offset that the layout gave it. The
components do not overlap and end before the stride, so that no fetch leaves the vertex.
-/

namespace Psprism

/-! ### Fetches -/

def fetchByte (offset : Nat) : Fetch Byte Word := (Fetch.cell offset).map (·.setWidth 32)

theorem readU16_agree {f g : Bytes} {offset : Nat} (h : AgreeOn [⟨offset, 2⟩] f g) :
    readU16 f offset = readU16 g offset := by
  have hbyte : ∀ i < 2, f (offset + i) = g (offset + i) := h _ List.mem_cons_self
  rw [readU16, readU16, show f offset = g offset from hbyte 0 (by omega), hbyte 1 (by omega)]

theorem readU32_agree {f g : Bytes} {offset : Nat} (h : AgreeOn [⟨offset, 4⟩] f g) :
    readU32 f offset = readU32 g offset := by
  have hbyte : ∀ i < 4, f (offset + i) = g (offset + i) := h _ List.mem_cons_self
  rw [readU32, readU32, show f offset = g offset from hbyte 0 (by omega), hbyte 1 (by omega), hbyte 2 (by omega),
    hbyte 3 (by omega)]

def fetchU16 (offset : Nat) : Fetch Byte Word where
  reads := [⟨offset, 2⟩]
  value f := (readU16 f offset).setWidth 32
  sound _ _ h := congrArg (·.setWidth 32) (readU16_agree h)

def fetchU32 (offset : Nat) : Fetch Byte Word where
  reads := [⟨offset, 4⟩]
  value f := readU32 f offset
  sound _ _ h := readU32_agree h

/-- A component of the type, as its bits; a float where the type is 3. -/
def fetchComponent (type offset : Nat) : Fetch Byte Word :=
  if type = 1 then fetchByte offset else if type = 2 then fetchU16 offset else fetchU32 offset

/-- The components that lie one behind the other. -/
def fetchComponents (type offset count : Nat) : Fetch Byte (List Word) :=
  Fetch.all ((List.range count).map fun c => fetchComponent type (offset + c * componentSize type))

/-- The `int8_t` or `int16_t` of a component. -/
def signedComponent (type : Nat) (v : Word) : Word :=
  if type = 1 then (v.setWidth 8).signExtend 32 else if type = 2 then (v.setWidth 16).signExtend 32 else v

/-- The colours of 16 bits; `colorType` is 4, 5 or 6. -/
def vertexColor16 (colorType : Nat) (packed : Word) : Word :=
  if colorType = 4 then
    ((packed &&& 31) <<< 3) ||| ((((packed >>> 5) &&& 63) * 255 / 63) <<< 8) |||
      (((packed >>> 11) &&& 31) <<< 19) ||| 0xff000000
  else if colorType = 5 then
    ((packed &&& 31) <<< 3) ||| (((packed >>> 5) &&& 31) <<< 11) ||| (((packed >>> 10) &&& 31) <<< 19) |||
      (if packed &&& 0x8000 ≠ 0 then 0xff000000 else 0)
  else
    ((packed &&& 15) * 17) ||| ((((packed >>> 4) &&& 15) * 17) <<< 8) |||
      ((((packed >>> 8) &&& 15) * 17) <<< 16) ||| ((((packed >>> 12) &&& 15) * 17) <<< 24)

/-- What the loop takes from a vertex, before it becomes floating point. -/
structure FetchedVertex where
  position : List Word
  weights : List Word
  normal : List Word
  color : Word
  coordinates : List Word
deriving DecidableEq

namespace Graphics

/-- `through`. -/
def through (g : Graphics) : Bool := g.vertexType &&& (1 <<< 23) ≠ 0

def materialColor (g : Graphics) : Word :=
  (g.commands 0x55 &&& 0x00ffffff) ||| ((g.commands 0x58 &&& 0xff) <<< 24)

/-- The third coordinate of a `through` vertex is unsigned. -/
def fetchPosition (g : Graphics) : Fetch Byte (List Word) :=
  let l := g.layout
  if l.positionType = 0 then Fetch.pure [0, 0, 0]
  else
    Fetch.all ((List.range 3).map fun c =>
      (fetchComponent l.positionType (l.positionOffset + c * componentSize l.positionType)).map
        (if g.through ∧ c = 2 then id else signedComponent l.positionType))

def skinned (g : Graphics) : Bool := ¬ g.through ∧ g.layout.weightType ≠ 0

def fetchWeights (g : Graphics) : Fetch Byte (List Word) :=
  let l := g.layout
  if g.skinned then fetchComponents l.weightType l.weightOffset l.weightCount else Fetch.pure []

def fetchNormal (g : Graphics) : Fetch Byte (List Word) :=
  let l := g.layout
  if ¬ g.through ∧ l.normalType ≠ 0 then
    (fetchComponents l.normalType l.normalOffset 3).map (List.map (signedComponent l.normalType))
  else Fetch.pure [0, 0, 1]

def fetchColor (g : Graphics) : Fetch Byte Word :=
  let l := g.layout
  if l.colorType = 7 then fetchU32 l.colorOffset
  else if 4 ≤ l.colorType then (fetchU16 l.colorOffset).map (vertexColor16 l.colorType)
  else Fetch.pure g.materialColor

/-- Only a vertex that is drawn with a texture is asked for its coordinates. -/
def fetchCoordinates (g : Graphics) (texture : DecodedTexture) : Fetch Byte (List Word) :=
  let l := g.layout
  if texture.width ≠ 0 ∧ texture.height ≠ 0 ∧ l.textureType ≠ 0 then
    fetchComponents l.textureType l.textureOffset 2
  else Fetch.pure [0, 0]

def fetchVertex (g : Graphics) (texture : DecodedTexture) : Fetch Byte FetchedVertex :=
  Fetch.map₂ (fun (position, weights, normal) (color, coordinates) => ⟨position, weights, normal, color, coordinates⟩)
    (Fetch.map₂ Prod.mk g.fetchPosition (Fetch.map₂ Prod.mk g.fetchWeights g.fetchNormal))
    (Fetch.map₂ Prod.mk g.fetchColor (g.fetchCoordinates texture))

/-- The elements of the bone matrices that skinning reads. -/
def boneElements (g : Graphics) : List Nat :=
  if g.skinned then
    (List.range g.layout.weightCount).flatMap fun bone => (List.range 12).map fun element => bone * 12 + element
  else []

/-- The index at a place of the index array, by the type of the indices. -/
def fetchIndex (g : Graphics) (i : Nat) : Fetch Byte Word :=
  if g.indexType = 1 then fetchByte i
  else if g.indexType = 2 then fetchU16 (i * 2)
  else fetchU32 (i * 4)

end Graphics

namespace GeExecution

/-- A PRIM reads inside: each index in the mapped indices, each component of each vertex in the mapped
vertices, and each bone in the bone matrices. -/
structure PrimInside (s : GeExecution) (count : Nat) : Prop where
  indices : s.graphics.indexType ≠ 0 → ∀ i < count,
    (s.graphics.fetchIndex i).Within (count * componentSize s.graphics.indexType)
  vertices : ∀ indices ∈ s.graphics.vertexIndices s.memory count, ∀ i ∈ indices,
    ((s.graphics.fetchVertex s.fetchTexture.1).shift (i * s.graphics.layout.stride)).Within
      ((Graphics.maximumIndex indices + 1) * s.graphics.layout.stride)
  bones : ∀ k ∈ s.graphics.boneElements, k < 96
  /-- The products are those of `Nat`: of 32 bits for the places of the indices, of 64 for the sizes. -/
  sizes : count * 4 < 2 ^ 32 ∧ ∀ indices ∈ s.graphics.vertexIndices s.memory count,
    (Graphics.maximumIndex indices + 1) * s.graphics.layout.stride < 2 ^ 64

end GeExecution

/-! ### The fetches of a component -/

@[simp] theorem within_fetchByte {offset size : Nat} : (fetchByte offset).Within size ↔ offset < size :=
  Fetch.within_map.trans Fetch.within_cell

@[simp] theorem within_fetchU16 {offset size : Nat} : (fetchU16 offset).Within size ↔ offset + 2 ≤ size := by
  simp only [Fetch.Within, fetchU16, List.forall_mem_singleton, Span.Within]

@[simp] theorem within_fetchU32 {offset size : Nat} : (fetchU32 offset).Within size ↔ offset + 4 ≤ size := by
  simp only [Fetch.Within, fetchU32, List.forall_mem_singleton, Span.Within]

/-- The types of components, and their sizes. -/
theorem componentSize_cases {type : Nat} (hlt : type < 4) (hne : type ≠ 0) :
    type = 1 ∧ componentSize type = 1 ∨ type = 2 ∧ componentSize type = 2 ∨ type = 3 ∧ componentSize type = 4 := by
  obtain rfl | rfl | rfl : type = 1 ∨ type = 2 ∨ type = 3 := by omega
  · exact .inl ⟨rfl, rfl⟩
  · exact .inr (.inl ⟨rfl, rfl⟩)
  · exact .inr (.inr ⟨rfl, rfl⟩)

theorem within_fetchComponent {type offset size : Nat} (hlt : type < 4) (hne : type ≠ 0)
    (h : offset + componentSize type ≤ size) : (fetchComponent type offset).Within size := by
  unfold fetchComponent
  rcases componentSize_cases hlt hne with ⟨rfl, hsize⟩ | ⟨rfl, hsize⟩ | ⟨rfl, hsize⟩
  · rw [if_pos rfl, within_fetchByte]
    omega
  · rw [if_neg (by decide), if_pos rfl, within_fetchU16]
    omega
  · rw [if_neg (by decide), if_neg (by decide), within_fetchU32]
    omega

theorem place_le {size count c : Nat} (hc : c < count) (offset : Nat) :
    offset + c * size + size ≤ offset + size * count := by
  have hle := Nat.mul_le_mul_left size (Nat.succ_le_of_lt hc)
  rw [Nat.mul_succ, Nat.mul_comm size c] at hle
  omega

theorem within_fetchComponents {type offset count size : Nat} (hlt : type < 4) (hne : type ≠ 0)
    (h : offset + componentSize type * count ≤ size) : (fetchComponents type offset count).Within size := by
  refine Fetch.within_all.2 fun x hx => ?_
  obtain ⟨c, hc, rfl⟩ := List.mem_map.1 hx
  exact within_fetchComponent hlt hne ((place_le (List.mem_range.1 hc) offset).trans h)

/-! ### The layout -/

theorem le_alignOffset (value alignment : Nat) : value ≤ alignOffset value alignment := by
  unfold alignOffset
  split_ifs with hzero
  · exact le_rfl
  · have hdiv := Nat.div_add_mod (value + alignment - 1) alignment
    have hmod := Nat.mod_lt (value + alignment - 1) (Nat.pos_of_ne_zero hzero)
    rw [Nat.mul_comm]
    omega

theorem alignOffset_le (value alignment : Nat) : alignOffset value alignment ≤ value + alignment := by
  unfold alignOffset
  split_ifs
  · exact Nat.le_add_right _ _
  · have hdiv := Nat.div_mul_le_self (value + alignment - 1) alignment
    omega

theorem componentSize_le (type : Nat) : componentSize type ≤ 4 := by
  unfold componentSize
  split <;> decide

namespace LayoutCursor

/-- The offset is at most `n`, and no alignment above 4 has been asked for. -/
def AtMost (c : LayoutCursor) (n : Nat) : Prop := c.offset ≤ n ∧ c.maximumAlignment ≤ 4

theorem AtMost.place {c : LayoutCursor} {n size : Nat} (h : c.AtMost n) (hsize : size ≤ 4) (count : Nat) :
    (c.place size count).2.AtMost (n + 4 + 4 * count) := by
  have halign := alignOffset_le c.offset size
  have hmul := Nat.mul_le_mul_right count hsize
  refine ⟨?_, max_le h.2 hsize⟩
  show alignOffset c.offset size + size * count ≤ _
  have hoffset := h.1
  omega

theorem AtMost.placeIf {c : LayoutCursor} {n size : Nat} (h : c.AtMost n) (hsize : size ≤ 4) (count : Nat) :
    (c.placeIf size count).2.AtMost (n + 4 + 4 * count) := by
  unfold LayoutCursor.placeIf
  split_ifs
  · exact h.place hsize count
  · refine ⟨?_, h.2⟩
    have hoffset := h.1
    dsimp only
    omega

theorem le_place (c : LayoutCursor) (size count : Nat) :
    c.offset ≤ (c.place size count).2.offset ∧
      (c.place size count).1 + size * count = (c.place size count).2.offset :=
  ⟨(le_alignOffset _ _).trans (Nat.le_add_right _ _), rfl⟩

theorem le_placeIf (c : LayoutCursor) (size count : Nat) :
    c.offset ≤ (c.placeIf size count).2.offset ∧
      (size ≠ 0 → (c.placeIf size count).1 + size * count = (c.placeIf size count).2.offset) := by
  unfold placeIf
  split_ifs with hzero
  · exact ⟨(c.le_place size count).1, fun _ => rfl⟩
  · exact ⟨le_rfl, fun hne => absurd hne hzero⟩

end LayoutCursor

/-- Components that are there end before the stride. -/
structure VertexLayout.Sound (l : VertexLayout) : Prop where
  weights : l.weightType ≠ 0 → l.weightOffset + componentSize l.weightType * l.weightCount ≤ l.stride
  texture : l.textureType ≠ 0 → l.textureOffset + componentSize l.textureType * 2 ≤ l.stride
  color : 4 ≤ l.colorType → l.colorOffset + (if l.colorType = 7 then 4 else 2) ≤ l.stride
  normal : l.normalType ≠ 0 → l.normalOffset + componentSize l.normalType * 3 ≤ l.stride
  position : l.positionOffset + componentSize l.positionType * 3 ≤ l.stride
  stride_le : l.stride ≤ 92
  types : l.weightType < 4 ∧ l.textureType < 4 ∧ l.normalType < 4 ∧ l.positionType < 4 ∧ l.weightCount ≤ 8

theorem componentSize_ne_zero {type : Nat} (hlt : type < 4) (hne : type ≠ 0) : componentSize type ≠ 0 := by
  rcases componentSize_cases hlt hne with ⟨-, hsize⟩ | ⟨-, hsize⟩ | ⟨-, hsize⟩ <;> rw [hsize] <;> decide

theorem toNat_and_le (v mask : Word) : (v &&& mask).toNat ≤ mask.toNat := by
  rw [BitVec.toNat_and]
  exact Nat.and_le_right

theorem vertexLayout_sound (type : Word) : (vertexLayout type).Sound := by
  have htexture : (type &&& 3).toNat < 4 := Nat.lt_succ_of_le (toNat_and_le type 3)
  have hcolor : ((type >>> 2) &&& 7).toNat < 8 := Nat.lt_succ_of_le (toNat_and_le (type >>> 2) 7)
  have hnormal : ((type >>> 5) &&& 3).toNat < 4 := Nat.lt_succ_of_le (toNat_and_le (type >>> 5) 3)
  have hposition : ((type >>> 7) &&& 3).toNat < 4 := Nat.lt_succ_of_le (toNat_and_le (type >>> 7) 3)
  have hweight : ((type >>> 9) &&& 3).toNat < 4 := Nat.lt_succ_of_le (toNat_and_le (type >>> 9) 3)
  have hcount : ((type >>> 14) &&& 7).toNat + 1 ≤ 8 := Nat.succ_le_succ (toNat_and_le (type >>> 14) 7)
  unfold vertexLayout
  dsimp only
  generalize (type &&& 3).toNat = textureType at *
  generalize ((type >>> 2) &&& 7).toNat = colorType at *
  generalize ((type >>> 5) &&& 3).toNat = normalType at *
  generalize ((type >>> 7) &&& 3).toNat = positionType at *
  generalize ((type >>> 9) &&& 3).toNat = weightType at *
  generalize ((type >>> 14) &&& 7).toNat + 1 = weightCount at *
  have hcolorSize : (if colorType = 7 then 4 else if 4 ≤ colorType then 2 else 0) ≤ 4 := by
    split_ifs <;> decide
  -- each component is placed behind the others, which end before it
  have hbound : LayoutCursor.AtMost {} 0 := ⟨le_rfl, by decide⟩
  have hbound := hbound.placeIf (componentSize_le weightType) weightCount
  obtain ⟨-, hw⟩ := LayoutCursor.le_placeIf {} (componentSize weightType) weightCount
  generalize LayoutCursor.placeIf {} (componentSize weightType) weightCount = weight at *
  have hbound := hbound.placeIf (componentSize_le textureType) 2
  obtain ⟨hle₁, ht⟩ := weight.2.le_placeIf (componentSize textureType) 2
  generalize weight.2.placeIf (componentSize textureType) 2 = texture at *
  have hbound := hbound.placeIf hcolorSize 1
  obtain ⟨hle₂, hc⟩ := texture.2.le_placeIf (if colorType = 7 then 4 else if 4 ≤ colorType then 2 else 0) 1
  generalize texture.2.placeIf (if colorType = 7 then 4 else if 4 ≤ colorType then 2 else 0) 1 = color at *
  have hbound := hbound.placeIf (componentSize_le normalType) 3
  obtain ⟨hle₃, hn⟩ := color.2.le_placeIf (componentSize normalType) 3
  generalize color.2.placeIf (componentSize normalType) 3 = normal at *
  have hbound := hbound.place (componentSize_le positionType) 3
  obtain ⟨hle₄, hp⟩ := normal.2.le_place (componentSize positionType) 3
  generalize normal.2.place (componentSize positionType) 3 = position at *
  obtain ⟨hoffset, halignment⟩ := hbound
  have hstride := le_alignOffset position.2.offset position.2.maximumAlignment
  have hstride' := alignOffset_le position.2.offset position.2.maximumAlignment
  refine ⟨fun hne => ?_, fun hne => ?_, fun hle => ?_, fun hne => ?_, ?_, ?_,
    ⟨hweight, htexture, hnormal, hposition, hcount⟩⟩
  · have hend := hw (componentSize_ne_zero hweight hne)
    dsimp only
    omega
  · have hend := ht (componentSize_ne_zero htexture hne)
    dsimp only
    omega
  · dsimp only at hle ⊢
    have hend := hc (by split_ifs <;> decide)
    split_ifs at hend ⊢ <;> omega
  · have hend := hn (componentSize_ne_zero hnormal hne)
    dsimp only
    omega
  · dsimp only
    omega
  · dsimp only
    omega

example : (vertexLayout 0x19f).stride = 24 := by decide

/-! ### The vertex -/

namespace Graphics
variable {g : Graphics}

theorem layout_sound (g : Graphics) : g.layout.Sound := vertexLayout_sound g.vertexType

/-- No component leaves the vertex. -/
theorem fetchVertex_within (g : Graphics) (texture : DecodedTexture) :
    (g.fetchVertex texture).Within g.layout.stride := by
  have hsound := g.layout_sound
  obtain ⟨hweight, htexture, hnormal, hposition, -⟩ := hsound.types
  have hpos : g.fetchPosition.Within g.layout.stride := by
    unfold fetchPosition
    dsimp only
    split_ifs with hzero
    · exact Fetch.within_pure _
    · refine Fetch.within_all.2 fun x hx => ?_
      obtain ⟨c, hc, rfl⟩ := List.mem_map.1 hx
      rw [Fetch.within_map]
      exact within_fetchComponent hposition hzero ((place_le (List.mem_range.1 hc) _).trans hsound.position)
  have hweights : g.fetchWeights.Within g.layout.stride := by
    unfold fetchWeights
    dsimp only
    split_ifs with hskinned
    · have hne : g.layout.weightType ≠ 0 := (of_decide_eq_true hskinned).2
      exact within_fetchComponents hweight hne (hsound.weights hne)
    · exact Fetch.within_pure _
  have hnormals : g.fetchNormal.Within g.layout.stride := by
    unfold fetchNormal
    dsimp only
    split_ifs with hthere
    · rw [Fetch.within_map]
      exact within_fetchComponents hnormal hthere.2 (hsound.normal hthere.2)
    · exact Fetch.within_pure _
  have hcolor : g.fetchColor.Within g.layout.stride := by
    unfold fetchColor
    dsimp only
    split_ifs with h7 h4
    · have hend := hsound.color (by omega)
      rw [if_pos h7] at hend
      exact within_fetchU32.2 hend
    · have hend := hsound.color h4
      rw [if_neg h7] at hend
      exact within_fetchU16.2 hend
    · exact Fetch.within_pure _
  have hcoordinates : (g.fetchCoordinates texture).Within g.layout.stride := by
    unfold fetchCoordinates
    dsimp only
    split_ifs with hthere
    · exact within_fetchComponents htexture hthere.2.2 (hsound.texture hthere.2.2)
    · exact Fetch.within_pure _
  unfold fetchVertex
  simp only [Fetch.within_map₂]
  exact ⟨⟨hpos, hweights, hnormals⟩, hcolor, hcoordinates⟩

theorem le_maximumIndex {indices : List Nat} {i : Nat} (hi : i ∈ indices) : i ≤ maximumIndex indices := by
  have hfold : ∀ (l : List Nat) (m : Nat), m ≤ l.foldl max m ∧ ∀ i ∈ l, i ≤ l.foldl max m := by
    intro l
    induction l with
    | nil => exact fun m => ⟨le_rfl, fun i hi => absurd hi List.not_mem_nil⟩
    | cons j l ih =>
      intro m
      obtain ⟨hle, hall⟩ := ih (max m j)
      refine ⟨(le_max_left _ _).trans hle, fun i hi => ?_⟩
      rcases List.mem_cons.1 hi with rfl | hi
      · exact (le_max_right _ _).trans hle
      · exact hall i hi
  exact (hfold indices 0).2 i hi

theorem boneElements_lt {k : Nat} (hk : k ∈ g.boneElements) : k < 96 := by
  obtain ⟨-, -, -, -, hcount⟩ := g.layout_sound.types
  unfold boneElements at hk
  split_ifs at hk
  · obtain ⟨bone, hbone, hk⟩ := List.mem_flatMap.1 hk
    obtain ⟨element, helement, rfl⟩ := List.mem_map.1 hk
    have hbone := List.mem_range.1 hbone
    have helement := List.mem_range.1 helement
    omega
  · exact absurd hk List.not_mem_nil

theorem fetchIndex_within (hne : g.indexType ≠ 0) {i count : Nat} (hi : i < count) :
    (g.fetchIndex i).Within (count * componentSize g.indexType) := by
  have hlt : g.indexType < 4 := Nat.lt_succ_of_le (toNat_and_le (g.vertexType >>> 11) 3)
  unfold fetchIndex
  rcases componentSize_cases hlt hne with ⟨htype, hsize⟩ | ⟨htype, hsize⟩ | ⟨htype, hsize⟩
  · rw [hsize, if_pos htype, within_fetchByte]
    omega
  · rw [hsize, if_neg (by omega), if_pos htype, within_fetchU16]
    omega
  · rw [hsize, if_neg (by omega), if_neg (by omega), within_fetchU32]
    omega

/-- The indices of the executor are the values of the fetches. -/
theorem decodedIndex_eq (g : Graphics) (indices : Bytes) (i : Nat) :
    decodedIndex g.indexType indices i = ((g.fetchIndex i).value indices).toNat := by
  unfold decodedIndex fetchIndex
  split_ifs
  · show _ = ((indices i).setWidth 32).toNat
    rw [BitVec.toNat_setWidth, Nat.mod_eq_of_lt ((indices i).isLt.trans (by decide))]
  · show _ = ((readU16 indices (i * 2)).setWidth 32).toNat
    rw [BitVec.toNat_setWidth, Nat.mod_eq_of_lt ((readU16 indices (i * 2)).isLt.trans (by decide))]
  · rfl

end Graphics

namespace GeExecution

/-- The bytes that a draw keeps of a vertex are enough to fetch it from. -/
theorem fetchVertex_of_bytes (g : Graphics) (texture : DecodedTexture) (source : Bytes) (start : Nat) :
    (g.fetchVertex texture).value
        (fun b => ((List.range g.layout.stride).map fun b => source (start + b)).getD b 0) =
      ((g.fetchVertex texture).shift start).value source := by
  refine Fetch.value_eq_of_within (g.fetchVertex_within texture) fun i hi => ?_
  rw [List.getD_eq_getElem?_getD, List.getElem?_map, List.getElem?_range hi]
  rfl

end GeExecution

theorem Graphics.maximumIndex_lt {g : Graphics} {m : GuestMemory} {count : Nat} (hcount : count ≤ 2 ^ 16)
    {indices : List Nat} (h : g.vertexIndices m count = some indices) : Graphics.maximumIndex indices < 2 ^ 32 := by
  have hfold : ∀ (l : List Nat) (k : Nat), k < 2 ^ 32 → (∀ i ∈ l, i < 2 ^ 32) → l.foldl max k < 2 ^ 32 := by
    intro l
    induction l with
    | nil => exact fun k hk _ => hk
    | cons j l ih =>
      intro k hk hl
      exact ih (max k j) (max_lt hk (hl j List.mem_cons_self)) fun i hi => hl i (List.mem_cons_of_mem _ hi)
  refine hfold indices 0 (by decide) fun i hi => ?_
  unfold vertexIndices at h
  split_ifs at h
  · obtain rfl := Option.some.inj h
    have := List.mem_range.1 hi
    omega
  · obtain ⟨p, -, rfl⟩ := Option.map_eq_some_iff.1 h
    obtain ⟨k, -, rfl⟩ := List.mem_map.1 hi
    rw [decodedIndex_eq]
    exact BitVec.isLt _

/-- Whatever the registers, the count, the indices and the memory are, a PRIM reads inside. -/
theorem prim_inside (s : GeExecution) (argument : Word) : s.PrimInside (argument &&& 0xffff).toNat := by
  have hcount : (argument &&& 0xffff).toNat ≤ 0xffff := toNat_and_le argument 0xffff
  refine ⟨fun hne i hi => Graphics.fetchIndex_within hne hi, fun indices _ i hi => ?_,
    fun k => Graphics.boneElements_lt, by omega, fun indices hindices => ?_⟩
  · have hle : i * s.graphics.layout.stride + s.graphics.layout.stride ≤
        (Graphics.maximumIndex indices + 1) * s.graphics.layout.stride := by
      rw [← Nat.succ_mul]
      exact Nat.mul_le_mul_right _ (Nat.succ_le_succ (Graphics.le_maximumIndex hi))
    exact ((s.graphics.fetchVertex_within s.fetchTexture.1).shift _).mono hle
  · have hlt := Graphics.maximumIndex_lt (hcount.trans (by decide)) hindices
    have hmul := Nat.mul_le_mul (Nat.succ_le_of_lt hlt) s.graphics.layout_sound.stride_le
    exact hmul.trans_lt (by decide)

end Psprism
