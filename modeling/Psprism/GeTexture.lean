import Mathlib.Algebra.Order.Group.Nat
import Psprism.GeMemory

/-!
# Textures of the graphics engine (`decode_texture` of `runtime.cpp`)

A texture is decoded from the command registers, the palette that the last LOADCLUT left and the bytes at
its address. The sizes are bounded by 1024, so that their arithmetic does not wrap and is that of `Nat`. The
texels are read behind the pointer to the mapped source, also where a row is wider than the buffer.
-/

namespace Psprism

/-- The command registers: the last instruction of each opcode. -/
abbrev Commands := Byte → Word

/-! ### Colours -/

/-- `expand_4`, `expand_5` and `expand_6`. -/
def expand4 (v : Word) : Word := v * 17
def expand5 (v : Word) : Word := (v <<< 3) ||| (v >>> 2)
def expand6 (v : Word) : Word := (v <<< 2) ||| (v >>> 4)

/-- `decode_16bit_color`. -/
def decode16BitColor (packed : Word) (format : Nat) : Word :=
  if format = 0 then
    expand5 (packed &&& 31) ||| (expand6 ((packed >>> 5) &&& 63) <<< 8) |||
      (expand5 ((packed >>> 11) &&& 31) <<< 16) ||| 0xff000000
  else if format = 1 then
    expand5 (packed &&& 31) ||| (expand5 ((packed >>> 5) &&& 31) <<< 8) |||
      (expand5 ((packed >>> 10) &&& 31) <<< 16) ||| (if packed &&& 0x8000 ≠ 0 then 0xff000000 else 0)
  else
    expand4 (packed &&& 15) ||| (expand4 ((packed >>> 4) &&& 15) <<< 8) |||
      (expand4 ((packed >>> 8) &&& 15) <<< 16) ||| (expand4 ((packed >>> 12) &&& 15) <<< 24)

/-- A `uint16_t` at an offset, as it is promoted. -/
def loadU16 (block : Bytes) (offset : Nat) : Word := (readU16 block offset).setWidth 32

/-- `decode_dxt_color`. -/
def decodeDxtColor (block : Bytes) (x y : Nat) (dxt1Alpha : Bool) : Word :=
  let first := loadU16 block 4
  let second := loadU16 block 6
  let expand (color : Word) : Word × Word × Word :=
    ((color >>> 8) &&& 0xf8, (color >>> 3) &&& 0xfc, (color <<< 3) &&& 0xf8)
  let a := expand first
  let b := expand second
  let index := ((block y).setWidth 32 >>> (2 * x)) &&& (3 : Word)
  let mix (u v d : Word) : Word × Word × Word :=
    ((a.1 * u + b.1 * v) / d, (a.2.1 * u + b.2.1 * v) / d, (a.2.2 * u + b.2.2 * v) / d)
  let pack (rgb : Word × Word × Word) (alpha : Word) : Word :=
    rgb.1 ||| (rgb.2.1 <<< 8) ||| (rgb.2.2 <<< 16) ||| (alpha <<< 24)
  if index = 0 then pack a 0xff
  else if index = 1 then pack b 0xff
  else if second < first then pack (if index = 2 then mix 2 1 3 else mix 1 2 3) 0xff
  else if index = 2 then pack (mix 1 1 2) 0xff
  else pack (0, 0, 0) (if dxt1Alpha then 0 else 0xff)

/-- The six bytes of a DXT5 block's alpha indices. -/
def alphaIndices (block : Bytes) : BitVec 64 :=
  (List.range 6).foldl (fun v byte => v ||| ((block (8 + byte)).setWidth 64 <<< (byte * 8))) 0

/-- `decode_dxt_texel`. -/
def decodeDxtTexel (block : Bytes) (format x y : Nat) : Word :=
  let color := decodeDxtColor block x y (format = 8)
  if format = 8 then color
  else
    let color := color &&& 0x00ffffff
    if format = 9 then
      let alpha := (loadU16 block (8 + y * 2) >>> (x * 4)) &&& 0xf
      color ||| (alpha * 17 <<< 24)
    else
      let first : Word := (block 14).setWidth 32
      let second : Word := (block 15).setWidth 32
      let index : Word := ((alphaIndices block >>> ((y * 4 + x) * 3)) &&& 7).setWidth 32
      let alpha :=
        if index = 0 then first
        else if index = 1 then second
        else if second < first then ((8 - index) * first + (index - 1) * second) / 7
        else if index < 6 then ((6 - index) * first + (index - 1) * second) / 5
        else if index = 6 then 0 else 0xff
      color ||| (alpha <<< 24)

theorem loadU16_congr {f g : Bytes} {i n : Nat} (h : ∀ i < n, f i = g i) (hi : i + 2 ≤ n) :
    loadU16 f i = loadU16 g i := by
  rw [loadU16, loadU16, readU16, readU16, h i (by omega), h (i + 1) (by omega)]

theorem readU32_zero_congr {f g : Bytes} (h : ∀ i < 4, f i = g i) : readU32 f 0 = readU32 g 0 := by
  simp [readU32, h]

theorem decodeDxtColor_congr {f g : Bytes} {x y : Nat} {dxt1Alpha : Bool} (h : ∀ i < 8, f i = g i) (hy : y < 4) :
    decodeDxtColor f x y dxt1Alpha = decodeDxtColor g x y dxt1Alpha := by
  unfold decodeDxtColor
  rw [loadU16_congr h (by omega : 4 + 2 ≤ 8), loadU16_congr h (by omega : 6 + 2 ≤ 8), h y (by omega)]

theorem decodeDxtTexel_congr {f g : Bytes} {format x y : Nat} (hy : y < 4)
    (h : ∀ i < (if format = 8 then 8 else 16), f i = g i) :
    decodeDxtTexel f format x y = decodeDxtTexel g format x y := by
  have hcolor : decodeDxtColor f x y (format = 8) = decodeDxtColor g x y (format = 8) :=
    decodeDxtColor_congr (fun i hi => h i (by split <;> omega)) hy
  unfold decodeDxtTexel
  rw [hcolor]
  by_cases h8 : format = 8
  · simp [h8]
  · rw [if_neg h8] at h
    have halpha : alphaIndices f = alphaIndices g := by
      unfold alphaIndices
      refine List.foldl_ext _ _ _ fun v byte hbyte => ?_
      rw [h (8 + byte) (by have := List.mem_range.1 hbyte; omega)]
    rw [loadU16_congr h (by omega : 8 + y * 2 + 2 ≤ 16), h 14 (by omega), h 15 (by omega), halpha]

/-! ### Where the texels are -/

/-- The locals of `decode_texture` that say how the source is laid out. -/
structure TextureSource where
  format : Nat
  width : Nat
  height : Nat
  bufferWidth : Nat
  swizzled : Bool

namespace TextureSource

def compressed (s : TextureSource) : Bool := 8 ≤ s.format

def blockBytes (s : TextureSource) : Nat := if s.format = 8 then 8 else 16

def texelBytes (s : TextureSource) : Nat :=
  if s.format = 3 ∨ s.format = 7 then 4 else if s.format < 3 ∨ s.format = 6 then 2 else 1

def rowBytes (s : TextureSource) : Nat :=
  if s.compressed then (s.bufferWidth + 3) / 4 * s.blockBytes
  else if s.format = 4 then (s.bufferWidth + 1) / 2
  else s.bufferWidth * s.texelBytes

def blocksPerRow (s : TextureSource) : Nat := (s.rowBytes + 15) / 16

def blockRows (s : TextureSource) : Nat := (s.height + 7) / 8

/-- `source_size`: what is asked to be mapped. -/
def sourceSize (s : TextureSource) : Nat :=
  if s.compressed then s.rowBytes * ((s.height + 3) / 4)
  else if s.swizzled then s.blocksPerRow * s.blockRows * 128
  else s.rowBytes * s.height

/-- `block_offset` of a compressed texture, `source_offset` of another. -/
def texelOffset (s : TextureSource) (x y : Nat) : Nat :=
  if s.compressed then y / 4 * s.rowBytes + x / 4 * s.blockBytes
  else
    let byteX := if s.format = 4 then x / 2 else x * s.texelBytes
    if s.swizzled then (y / 8 * s.blocksPerRow + byteX / 16) * 128 + y % 8 * 16 + byteX % 16
    else y * s.rowBytes + byteX

/-- How many bytes are read at the offset of a texel. -/
def texelReach (s : TextureSource) : Nat := if s.compressed then s.blockBytes else s.texelBytes

/-- The colour of a palette entry; `c5` is the CLUT format register. -/
def paletteColor (clut : Bytes) (c5 source : Word) : Word :=
  let shift := ((c5 >>> 2) &&& 0x1f).toNat
  let mask := (c5 >>> 8) &&& 0xff
  let start := ((c5 >>> 16) &&& 0x1f) <<< 4
  let format := (c5 &&& 3).toNat
  let limit : Word := if format = 3 then 0xff else 0x1ff
  let index := ((((source >>> shift) &&& mask) ||| start) &&& limit).toNat
  if format = 3 then readU32 clut (index * 4) else decode16BitColor (loadU16 clut (index * 2)) format

/-- The colour of a texel from the bytes at its offset. -/
def texelColor (s : TextureSource) (clut : Bytes) (c5 : Word) (x y : Nat) (texel : Bytes) : Word :=
  if s.compressed then decodeDxtTexel texel s.format (x % 4) (y % 4)
  else if s.format = 3 then readU32 texel 0
  else if s.format < 3 then decode16BitColor (loadU16 texel 0) s.format
  else
    let source : Word :=
      if s.format = 4 ∨ s.format = 5 then (texel 0).setWidth 32
      else if s.format = 6 then loadU16 texel 0
      else readU32 texel 0
    let source := if s.format = 4 then (if x % 2 = 0 then source &&& 15 else source >>> 4) else source
    paletteColor clut c5 source

theorem texelColor_congr {s : TextureSource} {clut f g : Bytes} {c5 : Word} {x y : Nat}
    (h : ∀ i < s.texelReach, f i = g i) : s.texelColor clut c5 x y f = s.texelColor clut c5 x y g := by
  unfold texelReach at h
  unfold texelColor
  by_cases hc : s.compressed
  · rw [if_pos hc] at h ⊢
    rw [if_pos hc, decodeDxtTexel_congr (Nat.mod_lt y (by omega)) h]
  rw [if_neg hc] at h ⊢
  rw [if_neg hc]
  have hformat : s.format < 8 := by simpa [compressed] using hc
  -- the bytes of a texel that are read, by the size of the texel
  have h4 (hs : s.format = 3 ∨ s.format = 7) : readU32 f 0 = readU32 g 0 :=
    readU32_zero_congr (by rwa [texelBytes, if_pos hs] at h)
  have h2 (hs : s.format ≠ 4) (hs' : s.format ≠ 5) : loadU16 f 0 = loadU16 g 0 :=
    loadU16_congr h (by unfold texelBytes; split <;> [omega; (split <;> omega)])
  have h1 : f 0 = g 0 := h 0 (by unfold texelBytes; split <;> [omega; (split <;> omega)])
  by_cases h3 : s.format = 3
  · rw [if_pos h3, if_pos h3, h4 (.inl h3)]
  rw [if_neg h3, if_neg h3]
  by_cases hlt : s.format < 3
  · rw [if_pos hlt, if_pos hlt, h2 (by omega) (by omega)]
  rw [if_neg hlt, if_neg hlt]
  by_cases h45 : s.format = 4 ∨ s.format = 5
  · simp only [if_pos h45, h1]
  by_cases h6 : s.format = 6
  · simp only [if_neg h45, if_pos h6, h2 (by omega) (by omega)]
  · simp only [if_neg h45, if_neg h6, h4 (by omega)]

/-- The four bytes of each texel, row by row. -/
def pixels (s : TextureSource) (clut : Bytes) (c5 : Word) (source : Bytes) : List Byte :=
  (List.range s.height).flatMap fun y =>
    (List.range s.width).flatMap fun x =>
      let color := s.texelColor clut c5 x y fun i => source (s.texelOffset x y + i)
      (List.range 4).map (wordByte color)

/-- The pointer reads alike at every byte of every texel. -/
def SameTexels (s : TextureSource) (f g : Bytes) : Prop :=
  ∀ y < s.height, ∀ x < s.width, ∀ i < s.texelReach, f (s.texelOffset x y + i) = g (s.texelOffset x y + i)

theorem pixels_congr {s : TextureSource} {clut f g : Bytes} {c5 : Word} (h : s.SameTexels f g) :
    s.pixels clut c5 f = s.pixels clut c5 g := by
  unfold pixels
  refine List.flatMap_congr fun y hy => List.flatMap_congr fun x hx => ?_
  rw [texelColor_congr (h y (List.mem_range.1 hy) x (List.mem_range.1 hx))]

end TextureSource

/-! ### Decoding -/

structure DecodedTexture where
  pixels : Option (List Byte) := none
  width : Nat := 0
  height : Nat := 0
  address : Word := 0
  bufferWidth : Nat := 0
  format : Nat := 0
  mipmapLevel : Nat := 0
  contentHash : BitVec 64 := 0
deriving DecidableEq

def contentHash (bytes : List Byte) : BitVec 64 :=
  bytes.foldl (fun hash byte => (hash ^^^ byte.setWidth 64) * 0x100000001b3) 0xcbf29ce484222325

/-- The level of the mipmap that is drawn with: `mipmap_level`, and the executor's `selected_mip`. -/
def selectedMip (commands : Commands) : Nat :=
  let maximum := ((commands 0xc2 >>> 16) &&& 7).toNat
  let mode := (commands 0xc8 &&& 3).toNat
  let bias := ((commands 0xc8 >>> 16).setWidth 8 : Byte).toInt
  if mode = 1 ∨ mode = 3 then min maximum (max bias 0 / 16).toNat else 0

/-- The register of the level's own among those of all levels. -/
def levelCommand (commands : Commands) (first : Byte) : Word :=
  commands (first + BitVec.ofNat 8 (selectedMip commands))

def textureAddress (commands : Commands) : Word :=
  (levelCommand commands 0xa0 &&& 0x00fffff0) ||| ((levelCommand commands 0xa8 <<< 8) &&& 0x0f000000)

def textureSource (commands : Commands) : TextureSource where
  format := (commands 0xc3 &&& 0xf).toNat
  width := 2 ^ (levelCommand commands 0xb8 &&& 0xf).toNat
  height := 2 ^ ((levelCommand commands 0xb8 >>> 8) &&& 0xf).toNat
  bufferWidth := (levelCommand commands 0xa8 &&& 0x3ff).toNat
  swizzled := commands 0xc2 &&& 1 ≠ 0

/-- The texture is enabled and its format is one of the known ones. -/
def textureEnabled (commands : Commands) : Bool :=
  commands 0x1e &&& 1 ≠ 0 ∧ (textureSource commands).format ≤ 10

/-- The source that the texels are read from, when there is one. -/
def mappedTexture (m : GuestMemory) (commands : Commands) : Option Pointer :=
  let s := textureSource commands
  if s.bufferWidth = 0 ∨ 1024 < s.width ∨ 1024 < s.height then none
  else m.mappedAddress (textureAddress commands) s.sourceSize

def decodeTexture (m : GuestMemory) (commands : Commands) (clut : Bytes) : DecodedTexture :=
  let s := textureSource commands
  if textureEnabled commands then
    match mappedTexture m commands with
    | none => {}
    | some p =>
      let pixels := s.pixels clut (commands 0xc5) (m.byteAt p)
      { pixels := some pixels
        width := s.width
        height := s.height
        address := textureAddress commands
        bufferWidth := s.bufferWidth
        format := s.format
        mipmapLevel := selectedMip commands
        contentHash := contentHash pixels }
  else
    { address := textureAddress commands
      format := s.format
      mipmapLevel := selectedMip commands }

/-! ### The key of the executor's cache -/

abbrev TextureKey := List Word

def textureKey (commands : Commands) (generation : BitVec 64) : TextureKey :=
  [commands 0x1e, commands 0xc2, commands 0xc3, commands 0xc5, commands 0xc8, levelCommand commands 0xa0,
    levelCommand commands 0xa8, levelCommand commands 0xb8, generation.setWidth 32,
    (generation >>> 32).setWidth 32, 0, 0]

/-- The key holds every register that the decoding reads. -/
theorem decodeTexture_eq_of_key {commands commands' : Commands} {generation generation' : BitVec 64}
    (h : textureKey commands generation = textureKey commands' generation') (m : GuestMemory) (clut : Bytes) :
    decodeTexture m commands clut = decodeTexture m commands' clut := by
  simp only [textureKey, List.cons.injEq] at h
  obtain ⟨h1e, hc2, hc3, hc5, hc8, ha0, ha8, hb8, -⟩ := h
  have hmip : selectedMip commands = selectedMip commands' := by rw [selectedMip, hc2, hc8, selectedMip]
  have hsource : textureSource commands = textureSource commands' := by
    rw [textureSource, hc2, hc3, ha8, hb8, textureSource]
  have haddress : textureAddress commands = textureAddress commands' := by
    rw [textureAddress, ha0, ha8, textureAddress]
  have henabled : textureEnabled commands = textureEnabled commands' := by
    rw [textureEnabled, h1e, hsource, textureEnabled]
  have hmapped : mappedTexture m commands = mappedTexture m commands' := by
    rw [mappedTexture, hsource, haddress, mappedTexture]
  rw [decodeTexture, henabled, hmapped, hsource, haddress, hmip, hc5, decodeTexture]

/-! ### Writes that a texture does not notice -/

/-- The edit leaves every byte that decoding the texture reads as it is. -/
def Edit.SparesTexture (e : Edit) (m : GuestMemory) (commands : Commands) : Prop :=
  textureEnabled commands → ∀ p ∈ mappedTexture m commands, ∀ y < (textureSource commands).height,
    ∀ x < (textureSource commands).width,
      e.Spares (p.1, p.2 + (textureSource commands).texelOffset x y) (textureSource commands).texelReach

theorem decodeTexture_overlay {e : Edit} {m : GuestMemory} {commands : Commands} {clut : Bytes}
    (h : e.SparesTexture m commands) : decodeTexture (m.overlay e) commands clut = decodeTexture m commands clut := by
  have hmapped : mappedTexture (m.overlay e) commands = mappedTexture m commands := by
    simp only [mappedTexture, GuestMemory.mappedAddress_overlay]
  unfold decodeTexture
  rw [hmapped]
  by_cases henabled : textureEnabled commands
  · simp only [if_pos henabled]
    cases hp : mappedTexture m commands with
    | none => rfl
    | some p =>
      have hsame : (textureSource commands).SameTexels ((m.overlay e).byteAt p) (m.byteAt p) := by
        intro y hy x hx i hi
        have := GuestMemory.byteAt_overlay (m := m) (h henabled p hp y hy x hx) hi
        simpa only [GuestMemory.byteAt, Nat.add_assoc] using this
      dsimp only
      rw [TextureSource.pixels_congr hsame]
  · simp only [if_neg henabled]

end Psprism
