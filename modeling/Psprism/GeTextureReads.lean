import Psprism.GeTexture
import Psprism.Lib.Fetch

/-!
# What `decode_texture` reads

The source is mapped once, with a size that follows from the buffer width and the height. Each texel then
reads a few bytes behind the pointer, and a palette entry. The palette index is masked, so that it stays
below 1024 bytes. The column of a texel is not compared with the buffer width: in a texture that is wider
than its buffer the last row, or the last row of blocks, runs over the end of what was mapped.
-/

namespace Psprism

/-- What `decode_dxt_texel` reads of a block: both colours, the line of indices, and the alpha. -/
def dxtReads (format y : Nat) : List Span :=
  ⟨4, 2⟩ :: ⟨6, 2⟩ :: ⟨y, 1⟩ ::
    if format = 8 then []
    else if format = 9 then [⟨8 + y * 2, 2⟩]
    else (List.range 6).map (fun byte => ⟨8 + byte, 1⟩) ++ [⟨14, 1⟩, ⟨15, 1⟩]

namespace TextureSource

/-- What is read behind the source pointer for a texel. -/
def texelReads (s : TextureSource) (x y : Nat) : List Span :=
  if s.compressed then (dxtReads s.format (y % 4)).map fun r => ⟨s.texelOffset x y + r.offset, r.length⟩
  else [⟨s.texelOffset x y, s.texelBytes⟩]

/-- `palette_source` of a texel from its bytes. -/
def paletteSource (s : TextureSource) (x : Nat) (texel : Bytes) : Word :=
  let source : Word :=
    if s.format = 4 ∨ s.format = 5 then (texel 0).setWidth 32
    else if s.format = 6 then loadU16 texel 0
    else readU32 texel 0
  if s.format = 4 then (if x % 2 = 0 then source &&& 15 else source >>> 4) else source

/-- `palette_index`. -/
def paletteIndex (c5 source : Word) : Nat :=
  let shift := ((c5 >>> 2) &&& 0x1f).toNat
  let mask := (c5 >>> 8) &&& 0xff
  let start := ((c5 >>> 16) &&& 0x1f) <<< 4
  let limit : Word := if (c5 &&& 3).toNat = 3 then 0xff else 0x1ff
  ((((source >>> shift) &&& mask) ||| start) &&& limit).toNat

/-- What is read of the palette for a texel. -/
def paletteRead (c5 source : Word) : Span :=
  if (c5 &&& 3).toNat = 3 then ⟨paletteIndex c5 source * 4, 4⟩ else ⟨paletteIndex c5 source * 2, 2⟩

def paletted (s : TextureSource) : Bool := 4 ≤ s.format ∧ s.format ≤ 7

/-- Every read of every texel stays in the mapped source and in the 1024 bytes of the palette. -/
structure Inside (s : TextureSource) (c5 : Word) (source : Bytes) : Prop where
  texels : ∀ y < s.height, ∀ x < s.width, ∀ r ∈ s.texelReads x y, r.Within s.sourceSize
  palette : s.paletted → ∀ y < s.height, ∀ x < s.width,
    (paletteRead c5 (s.paletteSource x fun i => source (s.texelOffset x y + i))).Within 1024

/-- A row of the texture takes no more bytes than a row of the buffer, or no more blocks where it is
swizzled. -/
def RowFits (s : TextureSource) : Prop :=
  let own := { s with bufferWidth := s.width }
  if s.swizzled ∧ ¬ s.compressed then own.blocksPerRow ≤ s.blocksPerRow else own.rowBytes ≤ s.rowBytes

instance (s : TextureSource) : Decidable s.RowFits :=
  inferInstanceAs (Decidable (if s.swizzled ∧ ¬ s.compressed then (_ : Nat) ≤ _ else (_ : Nat) ≤ _))

/-! ### The reads are all there are -/

theorem decodeDxtTexel_congr_reads {f g : Bytes} {format x y : Nat}
    (h : AgreeOn (dxtReads format y) f g) :
    decodeDxtTexel f format x y = decodeDxtTexel g format x y := by
  have hbyte : ∀ k, ⟨k, 1⟩ ∈ dxtReads format y → f k = g k := fun k hk => h _ hk 0 Nat.one_pos
  have hword : ∀ k, ⟨k, 2⟩ ∈ dxtReads format y → loadU16 f k = loadU16 g k := by
    intro k hk
    have h0 : f k = g k := h _ hk 0 (by simp)
    have h1 : f (k + 1) = g (k + 1) := h _ hk 1 (by simp)
    rw [loadU16, loadU16, readU16, readU16, h0, h1]
  have hcolor : decodeDxtColor f x y (format = 8) = decodeDxtColor g x y (format = 8) := by
    unfold decodeDxtColor
    rw [hword 4 (by simp [dxtReads]), hword 6 (by simp [dxtReads]), hbyte y (by simp [dxtReads])]
  unfold decodeDxtTexel
  rw [hcolor]
  by_cases h8 : format = 8
  · simp only [if_pos h8]
  by_cases h9 : format = 9
  · simp only [if_neg h8, if_pos h9, hword (8 + y * 2) (by simp [dxtReads, h9])]
  · have halpha : alphaIndices f = alphaIndices g := by
      unfold alphaIndices
      refine List.foldl_ext _ _ _ fun v byte hbyte' => ?_
      rw [hbyte (8 + byte) (by simp [dxtReads, h8, h9, List.mem_range.1 hbyte'])]
    simp only [if_neg h8, if_neg h9, halpha, hbyte 14 (by simp [dxtReads, h8, h9]),
      hbyte 15 (by simp [dxtReads, h8, h9])]

/-- Bytes that are not read do not matter. -/
theorem texelColor_congr_reads {s : TextureSource} {clut f g : Bytes} {c5 : Word} {x y : Nat}
    (h : AgreeOn (s.texelReads x y) f g) :
    s.texelColor clut c5 x y (fun i => f (s.texelOffset x y + i)) =
      s.texelColor clut c5 x y (fun i => g (s.texelOffset x y + i)) := by
  by_cases hc : s.compressed
  · unfold texelColor
    rw [if_pos hc, if_pos hc]
    refine decodeDxtTexel_congr_reads fun r hr i hi => ?_
    rw [texelReads, if_pos hc] at h
    have hread := h _ (List.mem_map_of_mem hr) i hi
    dsimp only at hread
    rwa [Nat.add_assoc] at hread
  · refine texelColor_congr fun i hi => ?_
    rw [texelReads, if_neg hc] at h
    rw [texelReach, if_neg hc] at hi
    exact h _ List.mem_cons_self i hi

theorem paletteColor_eq (clut : Bytes) (c5 source : Word) :
    paletteColor clut c5 source =
      if (c5 &&& 3).toNat = 3 then readU32 clut (paletteRead c5 source).offset
      else decode16BitColor (loadU16 clut (paletteRead c5 source).offset) (c5 &&& 3).toNat := by
  unfold paletteColor paletteRead paletteIndex
  dsimp only
  split_ifs <;> rfl

theorem texelColor_paletted {s : TextureSource} (h : s.paletted) (clut : Bytes) (c5 : Word) (x y : Nat)
    (texel : Bytes) : s.texelColor clut c5 x y texel = paletteColor clut c5 (s.paletteSource x texel) := by
  have hformat : 4 ≤ s.format ∧ s.format ≤ 7 := of_decide_eq_true h
  have hc : ¬ s.compressed := by
    simp only [compressed, decide_eq_true_eq]
    omega
  unfold texelColor
  rw [if_neg hc, if_neg (by omega), if_neg (by omega)]
  rfl

/-! ### The palette -/

theorem paletteIndex_le (c5 source : Word) :
    paletteIndex c5 source ≤ (if (c5 &&& 3).toNat = 3 then (0xff : Word) else 0x1ff).toNat := by
  unfold paletteIndex
  rw [BitVec.toNat_and]
  exact Nat.and_le_right

/-- The mask keeps the entry in the palette, whatever the texel is. -/
theorem paletteRead_within (c5 source : Word) : (paletteRead c5 source).Within 1024 := by
  have hle := paletteIndex_le c5 source
  unfold paletteRead Span.Within
  split_ifs at hle ⊢ with h
  · have hlimit : (0xff : Word).toNat = 255 := rfl
    dsimp only
    omega
  · have hlimit : (0x1ff : Word).toNat = 511 := rfl
    dsimp only
    omega

/-- Nor do bytes behind the palette. -/
theorem texelColor_congr_clut {s : TextureSource} {clut clut' : Bytes} (h : ∀ i < 1024, clut i = clut' i)
    (c5 : Word) (x y : Nat) (texel : Bytes) :
    s.texelColor clut c5 x y texel = s.texelColor clut' c5 x y texel := by
  by_cases hpaletted : s.paletted
  · have hwithin := paletteRead_within c5 (s.paletteSource x texel)
    unfold Span.Within at hwithin
    rw [texelColor_paletted hpaletted, texelColor_paletted hpaletted, paletteColor_eq, paletteColor_eq]
    unfold paletteRead at hwithin ⊢
    split_ifs at hwithin ⊢
    · dsimp only at hwithin ⊢
      simp only [readU32, h _ (by omega : paletteIndex c5 (s.paletteSource x texel) * 4 < 1024),
        h _ (by omega : paletteIndex c5 (s.paletteSource x texel) * 4 + 1 < 1024),
        h _ (by omega : paletteIndex c5 (s.paletteSource x texel) * 4 + 2 < 1024),
        h _ (by omega : paletteIndex c5 (s.paletteSource x texel) * 4 + 3 < 1024)]
    · rw [loadU16_congr h hwithin]
  · have hformat : ¬ (4 ≤ s.format ∧ s.format ≤ 7) := fun hformat => hpaletted (decide_eq_true hformat)
    unfold texelColor
    by_cases hc : s.compressed
    · rw [if_pos hc, if_pos hc]
    · have hlt : s.format < 8 := by simpa [compressed] using hc
      rw [if_neg hc, if_neg hc]
      by_cases h3 : s.format = 3
      · rw [if_pos h3, if_pos h3]
      · rw [if_neg h3, if_neg h3, if_pos (by omega), if_pos (by omega)]

/-! ### The source -/

/-- Bytes from the left edge to the texel. -/
def byteX (s : TextureSource) (x : Nat) : Nat := if s.format = 4 then x / 2 else x * s.texelBytes

variable {s : TextureSource}

theorem texelBytes_cases (s : TextureSource) :
    s.texelBytes = 4 ∧ s.format ≠ 4 ∨ s.texelBytes = 2 ∧ s.format ≠ 4 ∨ s.texelBytes = 1 := by
  unfold texelBytes
  split_ifs <;> omega

theorem rowBytes_compressed (hc : s.compressed) (width : Nat) :
    TextureSource.rowBytes { s with bufferWidth := width } = (width + 3) / 4 * s.blockBytes := if_pos hc

/-- Behind the last texel of a row as wide as the texture. -/
theorem byteX_last (hc : ¬ s.compressed) (hw : 0 < s.width) :
    s.byteX (s.width - 1) + s.texelBytes = TextureSource.rowBytes { s with bufferWidth := s.width } := by
  have hsize := s.texelBytes_cases
  show _ = if s.compressed then _ else if s.format = 4 then (s.width + 1) / 2 else s.width * s.texelBytes
  rw [if_neg hc]
  unfold byteX
  split_ifs with h4
  · omega
  · rw [Nat.sub_mul, Nat.one_mul, Nat.sub_add_cancel (Nat.le_mul_of_pos_left _ hw)]

theorem byteX_mono {x x' : Nat} (h : x ≤ x') : s.byteX x ≤ s.byteX x' := by
  unfold byteX
  split_ifs
  · exact Nat.div_le_div_right h
  · exact Nat.mul_le_mul_right _ h

/-- A texel does not straddle 16 bytes. -/
theorem byteX_mod (s : TextureSource) (x : Nat) : s.byteX x % 16 + s.texelBytes ≤ 16 := by
  unfold byteX
  rcases s.texelBytes_cases with ⟨hsize, h4⟩ | ⟨hsize, h4⟩ | hsize
  · rw [if_neg h4, hsize]
    omega
  · rw [if_neg h4, hsize]
    omega
  · omega

theorem blocksPerRow_own (hc : ¬ s.compressed) (hw : 0 < s.width) :
    TextureSource.blocksPerRow { s with bufferWidth := s.width } = s.byteX (s.width - 1) / 16 + 1 := by
  have hlast := byteX_last hc hw
  have hmod := s.byteX_mod (s.width - 1)
  have hsize := s.texelBytes_cases
  show (TextureSource.rowBytes { s with bufferWidth := s.width } + 15) / 16 = _
  omega

/-- The reads of a texel lie in its block, or are the texel. -/
theorem dxtReads_within {y : Nat} (hy : y < 4) {r : Span} (hr : r ∈ dxtReads s.format y) :
    r.Within s.blockBytes := by
  unfold blockBytes Span.Within
  simp only [dxtReads, List.mem_cons] at hr
  rcases hr with rfl | rfl | rfl | hr
  · split_ifs <;> decide
  · split_ifs <;> decide
  · split_ifs <;> dsimp only <;> omega
  split_ifs at hr ⊢ with h8 h9
  · cases hr
  · rw [List.mem_singleton] at hr
    rw [hr]
    dsimp only
    omega
  · rcases List.mem_append.1 hr with hr | hr
    · obtain ⟨byte, hbyte, rfl⟩ := List.mem_map.1 hr
      have := List.mem_range.1 hbyte
      dsimp only
      omega
    · simp only [List.mem_cons, List.not_mem_nil, or_false] at hr
      rcases hr with rfl | rfl <;> decide

/-- In a texture whose rows fit, every read is inside. -/
theorem texelReads_within (hfits : s.RowFits) (hw : 0 < s.width) {x y : Nat} (hx : x < s.width) (hy : y < s.height)
    {r : Span} (hr : r ∈ s.texelReads x y) : r.Within s.sourceSize := by
  unfold RowFits at hfits
  unfold texelReads at hr
  by_cases hc : s.compressed
  · rw [if_pos hc] at hr
    obtain ⟨span, hspan, rfl⟩ := List.mem_map.1 hr
    have hwithin : span.offset + span.length ≤ s.blockBytes := dxtReads_within (Nat.mod_lt y (by omega)) hspan
    rw [if_neg fun h => h.2 hc, rowBytes_compressed hc] at hfits
    have hcolumn : (x / 4 + 1) * s.blockBytes ≤ s.rowBytes :=
      (Nat.mul_le_mul_right _ (by omega)).trans hfits
    have hrows : (y / 4 + 1) * s.rowBytes ≤ s.rowBytes * ((s.height + 3) / 4) := by
      rw [Nat.mul_comm]
      exact Nat.mul_le_mul_left _ (by omega)
    show s.texelOffset x y + span.offset + span.length ≤ s.sourceSize
    rw [texelOffset, sourceSize, if_pos hc, if_pos hc]
    rw [Nat.succ_mul] at hcolumn hrows
    omega
  rw [if_neg hc] at hr
  rw [List.mem_singleton.1 hr]
  show s.texelOffset x y + s.texelBytes ≤ s.sourceSize
  have hbyte := byteX_mono (s := s) (show x ≤ s.width - 1 by omega)
  have hoffset : s.texelOffset x y = if s.swizzled then
      (y / 8 * s.blocksPerRow + s.byteX x / 16) * 128 + y % 8 * 16 + s.byteX x % 16
    else y * s.rowBytes + s.byteX x := if_neg hc
  rw [hoffset, sourceSize, if_neg hc]
  by_cases hswizzled : s.swizzled
  · have hmod := s.byteX_mod x
    rw [if_pos ⟨hswizzled, hc⟩, blocksPerRow_own hc hw] at hfits
    rw [if_pos hswizzled, if_pos hswizzled]
    have hcolumn : s.byteX x / 16 + 1 ≤ s.blocksPerRow := (by omega : _ ≤ s.byteX (s.width - 1) / 16 + 1).trans hfits
    have hrows : (y / 8 + 1) * s.blocksPerRow ≤ s.blocksPerRow * s.blockRows := by
      rw [Nat.mul_comm]
      exact Nat.mul_le_mul_left _ (by unfold blockRows; omega)
    rw [Nat.succ_mul] at hrows
    omega
  · rw [if_neg fun h => hswizzled h.1, ← byteX_last hc hw] at hfits
    rw [if_neg hswizzled, if_neg hswizzled]
    have hrows : (y + 1) * s.rowBytes ≤ s.rowBytes * s.height := by
      rw [Nat.mul_comm]
      exact Nat.mul_le_mul_left _ hy
    rw [Nat.succ_mul] at hrows
    omega

/-- The last texel decides: when it is inside, the rows fit. -/
theorem rowFits_of_last (hw : 0 < s.width) (hh : 0 < s.height)
    (hlast : ∀ r ∈ s.texelReads (s.width - 1) (s.height - 1), r.Within s.sourceSize) : s.RowFits := by
  unfold RowFits
  unfold texelReads at hlast
  by_cases hc : s.compressed
  · rw [if_neg fun h => h.2 hc, rowBytes_compressed hc]
    rw [if_pos hc] at hlast
    have hline : s.texelOffset (s.width - 1) (s.height - 1) + (s.height - 1) % 4 + 1 ≤ s.sourceSize :=
      hlast _ (List.mem_map_of_mem (by simp [dxtReads] : ⟨(s.height - 1) % 4, 1⟩ ∈ dxtReads _ _))
    rw [texelOffset, sourceSize, if_pos hc, if_pos hc] at hline
    have hrow : s.rowBytes = (s.bufferWidth + 3) / 4 * s.blockBytes := rowBytes_compressed hc s.bufferWidth
    have hrows : s.rowBytes * ((s.height + 3) / 4) = (s.height - 1) / 4 * s.rowBytes + s.rowBytes := by
      rw [show (s.height + 3) / 4 = (s.height - 1) / 4 + 1 by omega, Nat.mul_succ, Nat.mul_comm]
    have hlt : (s.width - 1) / 4 * s.blockBytes < (s.bufferWidth + 3) / 4 * s.blockBytes := by omega
    rw [hrow]
    have := Nat.lt_of_mul_lt_mul_right hlt
    exact Nat.mul_le_mul_right _ (by omega)
  rw [if_neg hc] at hlast
  have hend : s.texelOffset (s.width - 1) (s.height - 1) + s.texelBytes ≤ s.sourceSize :=
    hlast _ List.mem_cons_self
  have hoffset : s.texelOffset (s.width - 1) (s.height - 1) = if s.swizzled then
      ((s.height - 1) / 8 * s.blocksPerRow + s.byteX (s.width - 1) / 16) * 128 + (s.height - 1) % 8 * 16 +
        s.byteX (s.width - 1) % 16
    else (s.height - 1) * s.rowBytes + s.byteX (s.width - 1) := if_neg hc
  rw [hoffset, sourceSize, if_neg hc] at hend
  by_cases hswizzled : s.swizzled
  · rw [if_pos ⟨hswizzled, hc⟩, blocksPerRow_own hc hw]
    rw [if_pos hswizzled, if_pos hswizzled] at hend
    have hrows : s.blocksPerRow * s.blockRows = (s.height - 1) / 8 * s.blocksPerRow + s.blocksPerRow := by
      rw [blockRows, show (s.height + 7) / 8 = (s.height - 1) / 8 + 1 by omega, Nat.mul_succ, Nat.mul_comm]
    have hsize := s.texelBytes_cases
    omega
  · rw [if_neg fun h => hswizzled h.1, ← byteX_last hc hw]
    rw [if_neg hswizzled, if_neg hswizzled] at hend
    have hrows : s.rowBytes * s.height = (s.height - 1) * s.rowBytes + s.rowBytes := by
      conv_lhs => rw [← Nat.sub_add_cancel hh]
      rw [Nat.mul_succ, Nat.mul_comm]
    omega

theorem inside_iff (hw : 0 < s.width) (hh : 0 < s.height) (c5 : Word) (source : Bytes) :
    s.Inside c5 source ↔ s.RowFits := by
  constructor
  · intro h
    exact rowFits_of_last hw hh fun r hr => h.texels (s.height - 1) (by omega) (s.width - 1) (by omega) r hr
  · intro hfits
    exact ⟨fun y hy x hx r hr => texelReads_within hfits hw hx hy hr,
      fun _ y _ x _ => paletteRead_within c5 _⟩

/-- The pixels of a texture that is read inside are those of the mapped bytes and the palette, whatever lies
behind them. -/
theorem Inside.pixels_eq {clut clut' f g : Bytes} {c5 : Word} (h : s.Inside c5 f)
    (hsource : ∀ i < s.sourceSize, f i = g i) (hclut : ∀ i < 1024, clut i = clut' i) :
    s.pixels clut c5 f = s.pixels clut' c5 g := by
  unfold pixels
  refine List.flatMap_congr fun y hy => List.flatMap_congr fun x hx => ?_
  have hreads : s.texelColor clut c5 x y (fun i => f (s.texelOffset x y + i)) =
      s.texelColor clut c5 x y (fun i => g (s.texelOffset x y + i)) := by
    refine texelColor_congr_reads fun r hr i hi => hsource _ ?_
    have hwithin : r.offset + r.length ≤ s.sourceSize :=
      h.texels y (List.mem_range.1 hy) x (List.mem_range.1 hx) r hr
    omega
  rw [hreads, texelColor_congr_clut hclut]

end TextureSource

/-- Decoding fails, or it reads inside the mapped source and the palette. -/
def DecodesInside (m : GuestMemory) (commands : Commands) (clut : Bytes) : Prop :=
  match mappedTexture m commands with
  | none => (decodeTexture m commands clut).pixels = none
  | some p =>
    textureEnabled commands → (textureSource commands).Inside (commands 0xc5) (m.byteAt p)

/-- For all registers, memory and palettes: what is read is inside exactly when nothing is read or the rows
of the texture fit into the buffer. -/
theorem decode_texture_inside (m : GuestMemory) (commands : Commands) (clut : Bytes) :
    DecodesInside m commands clut ↔
      (textureEnabled commands → (mappedTexture m commands).isSome → (textureSource commands).RowFits) := by
  unfold DecodesInside
  cases hmapped : mappedTexture m commands with
  | none =>
    refine iff_of_true ?_ fun _ hsome => absurd hsome (by simp)
    unfold decodeTexture
    by_cases henabled : textureEnabled commands
    · simp only [if_pos henabled, hmapped]
    · simp only [if_neg henabled]
  | some p =>
    have hw : 0 < (textureSource commands).width := Nat.two_pow_pos _
    have hh : 0 < (textureSource commands).height := Nat.two_pow_pos _
    simp only [TextureSource.inside_iff hw hh, Option.isSome_some, forall_const]

/-- Eight texels of 32 bits in a row, in a buffer that is four texels wide and ends where guest memory ends. -/
theorem decode_texture_outside :
    let m : GuestMemory := { memory := ⟨some fun _ => 0, 16⟩, memoryBase := 0x08800000 }
    let commands : Commands := fun opcode =>
      if opcode = 0x1e then 1 else if opcode = 0xc3 then 3 else if opcode = 0xa0 then 0x800000
      else if opcode = 0xa8 then 0x080004 else if opcode = 0xb8 then 3 else 0
    ⟨28, 4⟩ ∈ (textureSource commands).texelReads 7 0 ∧ (textureSource commands).sourceSize = 16 ∧
      ∀ clut, ¬ DecodesInside m commands clut := by
  intro m commands
  have hread : ⟨28, 4⟩ ∈ (textureSource commands).texelReads 7 0 := by decide
  have hsize : (textureSource commands).sourceSize = 16 := by decide
  have hmapped : mappedTexture m commands = some (.memory, 0) := by decide
  refine ⟨hread, hsize, fun clut hinside => ?_⟩
  unfold DecodesInside at hinside
  rw [hmapped] at hinside
  have hwithin := (hinside (by decide)).texels 0 (by decide) 7 (by decide) _ hread
  rw [hsize] at hwithin
  exact absurd hwithin (by decide)

end Psprism
