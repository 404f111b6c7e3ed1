import Psprism.Heap
import Psprism.PatchArguments

/-!
# Unaligned words (`include/psprecomp/runtime.hpp`)

`load_word_left` and `load_word_right` each load the part of a word on one side of a word boundary, and the two
stores write it. The routines are written twice, with `memcpy` for little-endian hosts and byte by byte with masks
and shifts for big-endian ones. Of the word at `address`, the routines on the right take the bytes up to the
boundary and those on the left, called at `address + 3`, the bytes behind it. So the pair moves the four bytes at
`address`, in either order and on either host (`unaligned_words`), as long as each of the two parts is mapped. That
is so where the bytes are mapped and no allocation ends inside a word (`WordAligned.mapsWord`), as in the runtime.
-/

namespace Psprism

/-! ### Hosts -/

/-- `is_big_endian`. -/
inductive ByteOrder
  | little | big
deriving DecidableEq, Repr

/-- Which of a pair comes first, `lwl` and `swl` or `lwr` and `swr`. -/
inductive PairOrder
  | leftRight | rightLeft
deriving DecidableEq, Repr

/-- The loop of the loads on big-endian hosts: every byte goes to the bits from its shift on. -/
def loadEach (s : State) (value : Word) : List (Word × Nat) → Word × State
  | [] => (value, s)
  | (address, shift) :: rest =>
    let mask := (0xff : Word) <<< shift
    let (byte, s) := load8 s address
    loadEach s ((value &&& ~~~mask) ||| (byte.setWidth 32 <<< shift)) rest

/-- The loop of the stores on big-endian hosts. -/
def storeEach (s : State) (value : Word) : List (Word × Nat) → State
  | [] => s
  | (address, shift) :: rest => storeEach (store8 s address ((value >>> shift).setWidth 8)) value rest

/-- The addresses and the shifts of the loops on the left. -/
def leftBytes (address : Word) : List (Word × Nat) :=
  let offset := (address &&& 3).toNat
  let aligned := address &&& ~~~3
  (List.range (offset + 1)).map fun i => (aligned + BitVec.ofNat 32 i, 8 * (3 - offset + i))

/-- The addresses and the shifts of the loops on the right. -/
def rightBytes (address : Word) : List (Word × Nat) :=
  let offset := (address &&& 3).toNat
  let aligned := address &&& ~~~3
  (List.range' offset (4 - offset)).map fun i => (aligned + BitVec.ofNat 32 i, 8 * (i - offset))

namespace ByteOrder

def loadWordLeft : ByteOrder → State → Word → Word → Word × State
  | little, s, address, value => Psprism.loadWordLeft s address value
  | big, s, address, value => loadEach s value (leftBytes address)

def loadWordRight : ByteOrder → State → Word → Word → Word × State
  | little, s, address, value => Psprism.loadWordRight s address value
  | big, s, address, value => loadEach s value (rightBytes address)

def storeWordLeft : ByteOrder → State → Word → Word → State
  | little, s, address, value => Psprism.storeWordLeft s address value
  | big, s, address, value => storeEach s value (leftBytes address)

def storeWordRight : ByteOrder → State → Word → Word → State
  | little, s, address, value => Psprism.storeWordRight s address value
  | big, s, address, value => storeEach s value (rightBytes address)

/-- The pair that loads the word at an address; the second continues with the register of the first. -/
def loadPair (host : ByteOrder) (s : State) (address value : Word) : PairOrder → Word × State
  | .leftRight =>
    let (value, s) := host.loadWordLeft s (address + 3) value
    host.loadWordRight s address value
  | .rightLeft =>
    let (value, s) := host.loadWordRight s address value
    host.loadWordLeft s (address + 3) value

/-- The pair that stores the word. -/
def storePair (host : ByteOrder) (s : State) (address value : Word) : PairOrder → State
  | .leftRight => host.storeWordRight (host.storeWordLeft s (address + 3) value) address value
  | .rightLeft => host.storeWordLeft (host.storeWordRight s address value) (address + 3) value

end ByteOrder

/-! ### Where the bytes are -/

/-- The byte `j` of the word at an address. -/
def byteAddress (address : Word) (j : Nat) : Word := address + BitVec.ofNat 32 j

namespace GuestMemory

/-- The bytes of a part of the word at `address` lie one after another in one allocation. -/
def MapsPart (m : GuestMemory) (address : Word) (first count : Nat) : Prop :=
  ∃ r o, ∀ j < count, m.mappedAddress (byteAddress address (first + j)) 1 = some (r, o + j)

/-- Both parts of the word at `address` are mapped, the one up to the word boundary and the one behind it. -/
def MapsWord (m : GuestMemory) (address : Word) : Prop :=
  m.MapsPart address 0 (4 - address.toNat % 4) ∧
    m.MapsPart address (4 - address.toNat % 4) (address.toNat % 4)

/-- The image begins and ends at word boundaries, as do the other allocations. -/
structure WordAligned (m : GuestMemory) : Prop where
  base : m.memoryBase.toNat % 4 = 0
  memory : m.memory.size % 4 = 0
  scratchpad : m.scratchpad.size % 4 = 0
  videoMemory : m.videoMemory.size % 4 = 0
  volatileMemory : m.volatileMemory.size % 4 = 0

variable {m : GuestMemory} {x y : Word} {width o i : Nat} {r : Region} {p q : Pointer}

/-- The map looks at the physical address only. -/
theorem mappedAddress_alias (h : canonicalAddress y = canonicalAddress x) :
    m.mappedAddress y width = m.mappedAddress x width := by
  rw [← Patch.mappedAddress_canonical, h, Patch.mappedAddress_canonical]

theorem canonicalAddress_inj (hx : m.mappedAddress x width = some p) (hy : m.mappedAddress y width = some p) :
    canonicalAddress x = canonicalAddress y := by
  have hoffset := (offset_of_mappedAddress hx).symm.trans (offset_of_mappedAddress hy)
  have hsub := BitVec.eq_of_toNat_eq hoffset
  rw [← BitVec.sub_add_cancel (canonicalAddress x) (m.regionBase p.1), hsub, BitVec.sub_add_cancel]

/-- The four bytes of a word have places of their own. -/
theorem byteAddress_inj {j : Nat} (hi : i < 4) (hj : j < 4) (h : m.mappedAddress (byteAddress x i) 1 = some p)
    (h' : m.mappedAddress (byteAddress x j) 1 = some p) : i = j := by
  have hcanon := congrArg BitVec.toNat (canonicalAddress_inj h h')
  simp only [Patch.toNat_canonicalAddress, byteAddress, BitVec.toNat_add, BitVec.toNat_ofNat] at hcanon
  omega

/-- More bytes from the same place, as long as the allocation has them. -/
theorem mappedAddress_widen {width' : Nat} (h : m.mappedAddress x width = some (r, o)) (hwidth : width ≤ width')
    (hroom : o + width' ≤ (m.buffer r).size) : m.mappedAddress x width' = some (r, o) := by
  rcases mappedAddress_cases h with ⟨⟨hhost, hle, hwide⟩, rfl, rfl⟩ | ⟨himage, htag, ho⟩
  · have hsize : m.imageOffset x + width' ≤ m.memory.size := hroom
    exact mappedAddress_of_inImage ⟨hhost, hle, by omega⟩
  · -- what is not in the image with fewer bytes is not in it with more
    refine mappedAddress_of_region (fun ⟨hhost, hle, hwide⟩ => himage ⟨hhost, hle, by omega⟩) htag ?_
    obtain ⟨hhost, hsize, hoffset, hsum⟩ := regionAddress_spec ho
    rw [regionAddress, if_neg, ← hoffset]
    · dsimp only
      rw [if_pos (by omega)]
    · rw [← Option.not_isSome, hhost, BitVec.lt_def]
      simp
      omega

theorem WordAligned.ends (haligned : m.WordAligned) (r : Region) :
    (m.regionBase r).toNat % 4 = 0 ∧ (m.buffer r).size % 4 = 0 := by
  cases r with
  | memory => exact ⟨haligned.base, haligned.memory⟩
  | scratchpad => exact ⟨by simp [regionBase], haligned.scratchpad⟩
  | videoMemory => exact ⟨by simp [regionBase], haligned.videoMemory⟩
  | volatileMemory => exact ⟨by simp [regionBase], haligned.volatileMemory⟩
  | direct => exact ⟨by simp [regionBase], Nat.mod_eq_zero_of_dvd (pow_dvd_pow 2 (by decide : 2 ≤ 32))⟩

/-- The other bytes of an aligned word lie beside the first one, where no allocation ends inside a word. -/
theorem WordAligned.mappedAddress_add (haligned : m.WordAligned) (h : m.mappedAddress x 1 = some (r, o))
    (hword : x.toNat % 4 + i < 4) : m.mappedAddress (byteAddress x i) 1 = some (r, o + i) := by
  have hlt := Patch.canonicalAddress_lt x
  have hcanon : (canonicalAddress (byteAddress x i)).toNat = (canonicalAddress x).toNat + i := by
    simp only [Patch.toNat_canonicalAddress, byteAddress, BitVec.toNat_add, BitVec.toNat_ofNat]
    omega
  have hmod : (canonicalAddress x).toNat % 4 = x.toNat % 4 := by
    rw [Patch.toNat_canonicalAddress]
    omega
  have htag : canonicalAddress (byteAddress x i) >>> 24 = canonicalAddress x >>> 24 := by
    apply BitVec.eq_of_toNat_eq
    simp only [BitVec.toNat_ushiftRight, hcanon, Nat.shiftRight_eq_div_pow]
    omega
  have hoffset : m.imageOffset (byteAddress x i) = m.imageOffset x + i ∧ m.imageOffset x % 4 = x.toNat % 4 := by
    have hbase := haligned.base
    have hbaselt := m.memoryBase.isLt
    simp only [imageOffset, BitVec.toNat_sub, hcanon]
    omega
  have hsize := haligned.memory
  rcases mappedAddress_cases h with ⟨⟨hhost, hle, hwide⟩, rfl, rfl⟩ | ⟨himage, hregion, ho⟩
  · rw [mappedAddress_of_inImage ⟨hhost, by omega, by omega⟩, hoffset.1]
  · have hout : ¬ m.InImage (byteAddress x i) 1 := by
      rintro ⟨hhost, hle, hwide⟩
      exact himage ⟨hhost, by omega, by omega⟩
    refine mappedAddress_of_region hout (htag ▸ hregion) ?_
    have hends := haligned.ends r
    obtain ⟨hhost, hroom, ho', hsum⟩ := regionAddress_spec ho
    rw [regionAddress, if_neg, BitVec.toNat_sub, hcanon]
    · rw [BitVec.toNat_sub] at ho'
      dsimp only
      rw [if_pos (by omega), Option.some.injEq]
      omega
    · rw [← Option.not_isSome, hhost, BitVec.lt_def, hcanon]
      simp
      omega

/-- A part of a word inside an aligned word. -/
theorem WordAligned.mapsPart (haligned : m.WordAligned) {first count : Nat}
    (hmap : 0 < count → (m.mappedAddress (byteAddress x first) 1).isSome)
    (hword : (byteAddress x first).toNat % 4 + count ≤ 4) : m.MapsPart x first count := by
  rcases Nat.eq_zero_or_pos count with rfl | hpos
  · exact ⟨.memory, 0, fun j hj => absurd hj (Nat.not_lt_zero j)⟩
  obtain ⟨⟨r, o⟩, hp⟩ := Option.isSome_iff_exists.1 (hmap hpos)
  refine ⟨r, o, fun j hj => ?_⟩
  have hbyte : byteAddress x (first + j) = byteAddress (byteAddress x first) j := by
    rw [byteAddress, byteAddress, byteAddress, BitVec.add_assoc, ← BitVec.ofNat_add]
  rw [hbyte]
  exact haligned.mappedAddress_add hp (by omega)

/-- In an image that begins and ends at word boundaries, mapped bytes make a mapped word. -/
theorem WordAligned.mapsWord (haligned : m.WordAligned)
    (hmap : ∀ j < 4, (m.mappedAddress (byteAddress x j) 1).isSome) : m.MapsWord x := by
  have hlt := x.isLt
  refine ⟨haligned.mapsPart (fun _ => hmap 0 (by decide)) ?_, haligned.mapsPart (fun _ => hmap _ (by omega)) ?_⟩
  · simp only [byteAddress, BitVec.toNat_add, BitVec.toNat_ofNat]
    omega
  · simp only [byteAddress, BitVec.toNat_add, BitVec.toNat_ofNat]
    omega

end GuestMemory

/-! ### Bytes of guest memory -/

section
variable {s s' : State} {m : GuestMemory} {x y a value w : Word} {p : Pointer} {first count i j : Nat}

theorem access8_of_mapped (h : m.mappedAddress x 1 = some p) : m.access8 x = some p := by
  rw [GuestMemory.access8, GuestMemory.access]
  split
  next hfast =>
    have hlt : m.imageOffset x < m.memory.size := of_decide_eq_true hfast.2.1
    rw [← h, GuestMemory.mappedAddress_of_inImage ⟨hfast.1, by omega, by omega⟩]
  · rw [if_neg (not_not.2 (Nat.mod_one _)), h, Option.some_or]

theorem load8_of_mapped (h : s.mem.mappedAddress x 1 = some p) : load8 s x = (s.mem.bytes p.1 p.2, s) := by
  rw [load8, access8_of_mapped h]
  rfl

theorem store8_of_mapped (h : s.mem.mappedAddress x 1 = some p) (v : Byte) :
    store8 s x v = { s with mem := s.mem.setBytes p.1 (Function.update (s.mem.bytes p.1) p.2 v) } := by
  rw [store8, access8_of_mapped h]
  rfl

/-- The allocation behind a mapped address has bytes of its own. -/
theorem hosted_of_mappedAddress {width : Nat} (h : m.mappedAddress x width = some p) : m.Hosted p.1 := by
  have hhost := (GuestMemory.mappedAddress_within h).host
  rcases p with ⟨_ | _ | _ | _ | _, o⟩
  case direct => exact trivial
  all_goals exact hhost

theorem wordByte_wordOfBytes (b : Nat → Byte) (hj : j < 4) : wordByte (wordOfBytes b) j = b j := by
  rw [wordOfBytes, wordByte_readU32 b 0 hj, Nat.zero_add]

theorem wordByte_spliceWord (memory : Bytes) (offset : Nat) (hj : j < 4) :
    wordByte (spliceWord value first count memory offset) j =
      if first ≤ j ∧ j < first + count then memory (offset + (j - first)) else wordByte value j := by
  rw [spliceWord, wordByte_wordOfBytes _ hj]

/-- One byte of a word replaced through a mask. -/
theorem wordByte_mask (b : Byte) (hj : j < 4) :
    wordByte ((value &&& ~~~((0xff : Word) <<< (8 * i))) ||| (b.setWidth 32 <<< (8 * i))) j =
      if i = j then b else wordByte value j := by
  ext k hk
  have hmask := getLsbD_byteShift 0xff i hj hk
  have hones : (0xff : Byte).getLsbD k = true := by interval_cases k <;> rfl
  rw [show ((0xff : Byte).setWidth 32 : Word) = 0xff from rfl, hones, Bool.and_true] at hmask
  rw [← BitVec.getLsbD_eq_getElem, ← BitVec.getLsbD_eq_getElem, getLsbD_wordByte _ _ hk, BitVec.getLsbD_or,
    BitVec.getLsbD_and, BitVec.getLsbD_not, hmask, getLsbD_byteShift b i hj hk]
  split
  next heq => simp [heq]
  next hne => simp [hne, getLsbD_wordByte _ _ hk]; omega

/-! ### Parts of words -/

/-- The byte `j` of the word at an address, as the guest loads it. -/
def guestByte (s : State) (address : Word) (j : Nat) : Byte := (load8 s (byteAddress address j)).1

/-- `s'` is `s` with the bytes `j`, for which `P j`, of the word at `address` written, and no others. -/
structure Wrote (s s' : State) (address value : Word) (P : Nat → Prop) : Prop where
  frame : s' = { s with mem := s'.mem }
  layout : s'.mem.layout = s.mem.layout
  bytes : ∀ j, P j → guestByte s' address j = wordByte value j
  others : ∀ p : Pointer, (∀ j, P j → s.mem.mappedAddress (byteAddress address j) 1 ≠ some p) →
    s'.mem.bytes p.1 p.2 = s.mem.bytes p.1 p.2

/-- The bytes of a list of numbers, loaded into the word. -/
def Loaded (s : State) (address value : Word) (P : Nat → Prop) [DecidablePred P] (w : Word) : Prop :=
  ∀ j < 4, wordByte w j = if P j then guestByte s address j else wordByte value j

section
variable {P Q : Nat → Prop} [DecidablePred P] [DecidablePred Q]

theorem Loaded.congr (h : Loaded s a value P w) (hiff : ∀ j < 4, P j ↔ Q j) : Loaded s a value Q w :=
  fun j hj => (h j hj).trans (if_congr (hiff j hj) rfl rfl)

/-- Two parts that make the whole word leave nothing of the register. -/
theorem Loaded.trans {w' : Word} (h : Loaded s a value P w) (h' : Loaded s a w Q w')
    (hall : ∀ j < 4, P j ∨ Q j) : w' = wordOfBytes (guestByte s a) := by
  refine eq_of_wordByte fun j hj => ?_
  rw [wordByte_wordOfBytes _ hj, h' j hj, h j hj]
  rcases hall j hj with hP | hQ
  · rw [if_pos hP, ite_self]
  · rw [if_pos hQ]

end

theorem mappedAddress_of_layout {width : Nat} (h : s'.mem.layout = s.mem.layout) :
    s'.mem.mappedAddress x width = s.mem.mappedAddress x width := by
  rw [← GuestMemory.mappedAddress_layout, h, GuestMemory.mappedAddress_layout]

theorem guestByte_of_mapped (h : s.mem.mappedAddress (byteAddress a j) 1 = some p) :
    guestByte s a j = s.mem.bytes p.1 p.2 := by
  rw [guestByte, load8_of_mapped h]

namespace Wrote
variable {P Q : Nat → Prop} {s₁ : State}

theorem refl : Wrote s s a value fun _ => False where
  frame := rfl
  layout := rfl
  bytes := fun _ h => h.elim
  others := fun _ _ => rfl

theorem congr (h : Wrote s s' a value P) (hiff : ∀ j, Q j ↔ P j) : Wrote s s' a value Q := by
  obtain rfl : Q = P := funext fun j => propext (hiff j)
  exact h

/-- What was written first is there unless it was written again. -/
theorem trans (h : Wrote s s₁ a value P) (h' : Wrote s₁ s' a value Q) (hlt : ∀ j, P j ∨ Q j → j < 4)
    (hmap : ∀ j, P j → (s.mem.mappedAddress (byteAddress a j) 1).isSome) :
    Wrote s s' a value fun j => P j ∨ Q j where
  frame := by rw [h'.frame, h.frame]
  layout := h'.layout.trans h.layout
  bytes := by
    intro j hj
    by_cases hQ : Q j
    · exact h'.bytes j hQ
    have hP : P j := hj.resolve_right hQ
    obtain ⟨p, hp⟩ := Option.isSome_iff_exists.1 (hmap j hP)
    have hp₁ : s₁.mem.mappedAddress (byteAddress a j) 1 = some p := (mappedAddress_of_layout h.layout).trans hp
    have hp' : s'.mem.mappedAddress (byteAddress a j) 1 = some p := (mappedAddress_of_layout h'.layout).trans hp₁
    rw [guestByte_of_mapped hp', h'.others p, ← guestByte_of_mapped hp₁, h.bytes j hP]
    intro i hi hpi
    obtain rfl := GuestMemory.byteAddress_inj (hlt i (.inr hi)) (hlt j hj) hpi hp₁
    exact hQ hi
  others := by
    intro p hp
    rw [h'.others p, h.others p fun j hj => hp j (.inl hj)]
    intro j hj
    rw [mappedAddress_of_layout h.layout]
    exact hp j (.inr hj)

/-- One byte. -/
theorem store8 (value : Word) (hj : j < 4) (h : s.mem.mappedAddress (byteAddress a j) 1 = some p) :
    Wrote s (store8 s (byteAddress a j) (wordByte value j)) a value fun i => i = j := by
  rw [store8_of_mapped h]
  have hhosted := hosted_of_mappedAddress h
  refine ⟨rfl, GuestMemory.layout_setBytes, ?_, ?_⟩
  · rintro i rfl
    rw [guestByte_of_mapped (p := p) (by simpa using h)]
    simp [GuestMemory.bytes_setBytes hhosted]
  · intro q hq
    have hne : q ≠ p := fun hqp => hq j rfl (hqp ▸ h)
    by_cases hregion : q.1 = p.1
    · have hoffset : q.2 ≠ p.2 := fun h2 => hne (Prod.ext hregion h2)
      rw [hregion]
      simp [GuestMemory.bytes_setBytes hhosted, hoffset]
    · simp [GuestMemory.bytes_setBytes_of_ne hregion]

end Wrote

/-- The places of the bytes `js` of the word at `a` are mapped. -/
def MapsEach (m : GuestMemory) (a : Word) (js : List Nat) : Prop :=
  ∀ j ∈ js, j < 4 ∧ (m.mappedAddress (byteAddress a j) 1).isSome

theorem loadEach_spec {js : List Nat} (value : Word) (hmap : MapsEach s.mem a js) :
    ∃ w, loadEach s value (js.map fun j => (byteAddress a j, 8 * j)) = (w, s) ∧ Loaded s a value (· ∈ js) w := by
  induction js generalizing value with
  | nil => exact ⟨value, rfl, fun j hj => by simp⟩
  | cons k js ih =>
    obtain ⟨hk, hsome⟩ := hmap k List.mem_cons_self
    obtain ⟨p, hp⟩ := Option.isSome_iff_exists.1 hsome
    have hload : load8 s (byteAddress a k) = (guestByte s a k, s) := by
      rw [guestByte, load8_of_mapped hp]
    simp only [List.map_cons, loadEach, hload]
    obtain ⟨w, hw, hloaded⟩ := ih _ (fun j hj => hmap j (List.mem_cons_of_mem k hj))
    refine ⟨w, hw, fun j hj => ?_⟩
    rw [hloaded j hj, wordByte_mask _ hj]
    by_cases hkj : k = j
    · subst hkj
      simp
    · simp [hkj, Ne.symm hkj]

theorem storeEach_spec {js : List Nat} (value : Word) (hmap : MapsEach s.mem a js) :
    Wrote s (storeEach s value (js.map fun j => (byteAddress a j, 8 * j))) a value (· ∈ js) := by
  induction js generalizing s with
  | nil => exact Wrote.refl.congr fun j => by simp
  | cons k js ih =>
    obtain ⟨hk, hsome⟩ := hmap k List.mem_cons_self
    obtain ⟨p, hp⟩ := Option.isSome_iff_exists.1 hsome
    have hfirst := Wrote.store8 value hk hp
    have hrest : MapsEach (store8 s (byteAddress a k) (wordByte value k)).mem a js := by
      intro j hj
      rw [mappedAddress_of_layout hfirst.layout]
      exact hmap j (List.mem_cons_of_mem k hj)
    refine (hfirst.trans (ih hrest) ?_ ?_).congr fun j => List.mem_cons
    · rintro j (rfl | hj)
      · exact hk
      · exact (hrest j hj).1
    · rintro j rfl
      exact hsome

end

/-- The first byte that the routines on the left take of the word at an address. -/
def leftFirst (address : Word) : Nat := (4 - address.toNat % 4) % 4

section
variable {s : State} {a value : Word} {first count : Nat}

theorem GuestMemory.MapsPart.mapsEach (h : s.mem.MapsPart a first count) (hle : first + count ≤ 4) :
    MapsEach s.mem a (List.range' first count) := by
  obtain ⟨r, o, hplace⟩ := h
  intro j hj
  rw [List.mem_range'_1] at hj
  have hp := hplace (j - first) (by omega)
  rw [Nat.add_sub_cancel' hj.1] at hp
  exact ⟨by omega, Option.isSome_of_eq_some hp⟩

/-- A part in one allocation is found by one `mapped_address`. -/
theorem GuestMemory.MapsPart.accessPart (h : s.mem.MapsPart a first count) (hpos : 0 < count) :
    ∃ p, s.mem.accessPart (byteAddress a first) count = some p ∧
      ∀ j < count, s.mem.mappedAddress (byteAddress a (first + j)) 1 = some (p.1, p.2 + j) := by
  obtain ⟨r, o, hplace⟩ := h
  have hlast := (mappedAddress_within (hplace (count - 1) (by omega))).size
  have hwide : s.mem.mappedAddress (byteAddress a (first + 0)) count = some (r, o) :=
    mappedAddress_widen (hplace 0 hpos) hpos (by omega)
  refine ⟨(r, o), ?_, hplace⟩
  rw [GuestMemory.accessPart, ← Nat.add_zero first, hwide, Option.some_or]

theorem loadPart_spec (value : Word) (h : s.mem.MapsPart a first count) (hpos : 0 < count) :
    ∃ w, loadPart s (byteAddress a first) first count value = (w, s) ∧
      Loaded s a value (fun j => first ≤ j ∧ j < first + count) w := by
  obtain ⟨p, hp, hplace⟩ := h.accessPart hpos
  refine ⟨spliceWord value first count (s.mem.bytes p.1) p.2, by rw [loadPart, hp], fun j hj => ?_⟩
  rw [wordByte_spliceWord _ _ hj]
  split
  next hpart =>
    have hbyte := hplace (j - first) (by omega)
    rw [Nat.add_sub_cancel' hpart.1] at hbyte
    exact (guestByte_of_mapped hbyte).symm
  · rfl

theorem storePart_spec (value : Word) (h : s.mem.MapsPart a first count) (hpos : 0 < count) :
    Wrote s (storePart s (byteAddress a first) first count value) a value
      fun j => first ≤ j ∧ j < first + count := by
  obtain ⟨p, hp, hplace⟩ := h.accessPart hpos
  have hhosted : s.mem.Hosted p.1 := hosted_of_mappedAddress (hplace 0 hpos)
  rw [storePart, hp, storeWith]
  refine ⟨rfl, GuestMemory.layout_setBytes, ?_, ?_⟩
  · rintro j ⟨hfirst, hlt⟩
    have hbyte := hplace (j - first) (by omega)
    rw [Nat.add_sub_cancel' hfirst] at hbyte
    rw [guestByte_of_mapped (p := (p.1, p.2 + (j - first))) (by simpa using hbyte)]
    simp only [GuestMemory.bytes_setBytes hhosted, spliceMemory]
    rw [if_pos (by omega), Nat.add_sub_cancel_left, Nat.add_sub_cancel' hfirst]
  · intro q hq
    by_cases hregion : q.1 = p.1
    · -- an offset inside the part would be one of its bytes
      have hout : ¬ (p.2 ≤ q.2 ∧ q.2 < p.2 + count) := by
        rintro ⟨hle, hlt⟩
        refine hq (first + (q.2 - p.2)) ⟨by omega, by omega⟩ ?_
        rw [hplace (q.2 - p.2) (by omega), Nat.add_sub_cancel' hle, ← hregion]
      rw [hregion]
      simp only [GuestMemory.bytes_setBytes hhosted, spliceMemory, if_neg hout]
    · simp only [GuestMemory.bytes_setBytes_of_ne hregion]

/-! ### The four routines -/

theorem toNat_and_three (x : Word) : (x &&& (3 : Word)).toNat = x.toNat % 4 := by
  rw [BitVec.toNat_and]
  exact Nat.and_two_pow_sub_one_eq_mod _ 2

theorem toNat_and_not_three (x : Word) : (x &&& ~~~(3 : Word)).toNat = x.toNat - x.toNat % 4 := by
  have hsum := congrArg BitVec.toNat (and_not_add_and x 3)
  have hle : (x &&& ~~~(3 : Word)).toNat ≤ x.toNat := by
    rw [BitVec.toNat_and]
    exact Nat.and_le_left
  have hlt := x.isLt
  rw [BitVec.toNat_add, toNat_and_three] at hsum
  omega

/-- `address + 3` ends its part after the fourth byte. -/
theorem left_offset (a : Word) : ((a + 3) &&& (3 : Word)).toNat = 3 - leftFirst a := by
  rw [toNat_and_three, BitVec.toNat_add, leftFirst]
  simp
  omega

theorem left_aligned (a : Word) : (a + 3) &&& ~~~(3 : Word) = byteAddress a (leftFirst a) := by
  apply BitVec.eq_of_toNat_eq
  have hlt := a.isLt
  rw [toNat_and_not_three, byteAddress, BitVec.toNat_add, BitVec.toNat_add, BitVec.toNat_ofNat, leftFirst]
  simp
  omega

theorem leftFirst_lt (a : Word) : leftFirst a < 4 := Nat.mod_lt _ (by decide)

theorem leftBytes_eq (a : Word) : leftBytes (a + 3) =
    (List.range' (leftFirst a) (4 - leftFirst a)).map fun j => (byteAddress a j, 8 * j) := by
  have hlt := leftFirst_lt a
  have hcount : 3 - leftFirst a + 1 = 4 - leftFirst a := by omega
  simp only [leftBytes, left_offset, left_aligned, hcount, List.range'_eq_map_range, List.map_map]
  refine List.map_congr_left fun i hi => ?_
  have hi := List.mem_range.1 hi
  refine Prod.ext ?_ ?_
  · simp only [Function.comp, byteAddress, BitVec.add_assoc, ← BitVec.ofNat_add]
  · simp only [Function.comp]
    omega

theorem rightBytes_eq (a : Word) : rightBytes a =
    (List.range' 0 (4 - a.toNat % 4)).map fun j => (byteAddress a j, 8 * j) := by
  simp only [rightBytes, toNat_and_three, List.range'_eq_map_range, List.map_map]
  refine List.map_congr_left fun i hi => ?_
  refine Prod.ext (BitVec.eq_of_toNat_eq ?_) ?_
  · have hi := List.mem_range.1 hi
    have hlt := a.isLt
    simp only [Function.comp, byteAddress, BitVec.toNat_add, BitVec.toNat_ofNat, toNat_and_not_three]
    omega
  · simp only [Function.comp]
    omega

namespace ByteOrder

theorem mapsPart_left (h : s.mem.MapsWord a) : s.mem.MapsPart a (leftFirst a) (4 - leftFirst a) := by
  rcases Nat.eq_zero_or_pos (a.toNat % 4) with hzero | hpos
  · have hfirst : leftFirst a = 0 := by rw [leftFirst, hzero]
    simpa [hfirst, hzero] using h.1
  · have hfirst : leftFirst a = 4 - a.toNat % 4 := by rw [leftFirst]; omega
    have hcount : 4 - leftFirst a = a.toNat % 4 := by omega
    rw [hcount, hfirst]
    exact h.2

variable {host : ByteOrder}

theorem loadWordLeft_spec (host : ByteOrder) (value : Word) (h : s.mem.MapsWord a) :
    ∃ w, host.loadWordLeft s (a + 3) value = (w, s) ∧ Loaded s a value (leftFirst a ≤ ·) w := by
  have hpart := mapsPart_left h
  have hlt := leftFirst_lt a
  cases host with
  | little =>
    obtain ⟨w, hw, hloaded⟩ := loadPart_spec value hpart (by omega)
    refine ⟨w, ?_, Loaded.congr hloaded fun j hj => by omega⟩
    have hcount : 3 - leftFirst a + 1 = 4 - leftFirst a := by omega
    have hfirst : 4 - (4 - leftFirst a) = leftFirst a := by omega
    simp only [loadWordLeft, Psprism.loadWordLeft, left_offset, left_aligned, hcount, hfirst, hw]
  | big =>
    obtain ⟨w, hw, hloaded⟩ := loadEach_spec value (hpart.mapsEach (by omega))
    refine ⟨w, by rw [loadWordLeft, leftBytes_eq, hw], Loaded.congr hloaded fun j hj => ?_⟩
    rw [List.mem_range'_1]
    omega

theorem loadWordRight_spec (host : ByteOrder) (value : Word) (h : s.mem.MapsWord a) :
    ∃ w, host.loadWordRight s a value = (w, s) ∧ Loaded s a value (· < 4 - a.toNat % 4) w := by
  cases host with
  | little =>
    obtain ⟨w, hw, hloaded⟩ := loadPart_spec value h.1 (by omega)
    refine ⟨w, ?_, Loaded.congr hloaded fun j hj => by omega⟩
    rw [loadWordRight, Psprism.loadWordRight, toNat_and_three, ← hw, byteAddress]
    simp
  | big =>
    obtain ⟨w, hw, hloaded⟩ := loadEach_spec value (h.1.mapsEach (by omega))
    refine ⟨w, by rw [loadWordRight, rightBytes_eq, hw], Loaded.congr hloaded fun j hj => ?_⟩
    rw [List.mem_range'_1]
    omega

theorem storeWordLeft_spec (host : ByteOrder) (value : Word) (h : s.mem.MapsWord a) :
    Wrote s (host.storeWordLeft s (a + 3) value) a value fun j => leftFirst a ≤ j ∧ j < 4 := by
  have hpart := mapsPart_left h
  have hlt := leftFirst_lt a
  cases host with
  | little =>
    have hcount : 3 - leftFirst a + 1 = 4 - leftFirst a := by omega
    have hfirst : 4 - (4 - leftFirst a) = leftFirst a := by omega
    simp only [storeWordLeft, Psprism.storeWordLeft, left_offset, left_aligned, hcount, hfirst]
    exact (storePart_spec value hpart (by omega)).congr fun j => by omega
  | big =>
    rw [storeWordLeft, leftBytes_eq]
    refine (storeEach_spec value (hpart.mapsEach (by omega))).congr fun j => ?_
    rw [List.mem_range'_1]
    omega

theorem storeWordRight_spec (host : ByteOrder) (value : Word) (h : s.mem.MapsWord a) :
    Wrote s (host.storeWordRight s a value) a value fun j => j < 4 - a.toNat % 4 := by
  cases host with
  | little =>
    have hstore := storePart_spec value h.1 (by omega)
    rw [storeWordRight, Psprism.storeWordRight, toNat_and_three]
    simp only [byteAddress, BitVec.add_zero] at hstore
    exact hstore.congr fun j => by omega
  | big =>
    rw [storeWordRight, rightBytes_eq]
    refine (storeEach_spec value (h.1.mapsEach (by omega))).congr fun j => ?_
    rw [List.mem_range'_1]
    omega

theorem loadPair_eq (h : s.mem.MapsWord a) (order : PairOrder) :
    host.loadPair s a value order = (wordOfBytes (guestByte s a), s) := by
  cases order with
  | leftRight =>
    obtain ⟨w, hw, hleft⟩ := loadWordLeft_spec host value h
    obtain ⟨w', hw', hright⟩ := loadWordRight_spec host w h
    rw [loadPair, hw]
    dsimp only
    rw [hw', hleft.trans hright fun j hj => by rw [leftFirst]; omega]
  | rightLeft =>
    obtain ⟨w, hw, hright⟩ := loadWordRight_spec host value h
    obtain ⟨w', hw', hleft⟩ := loadWordLeft_spec host w h
    rw [loadPair, hw]
    dsimp only
    rw [hw', hright.trans hleft fun j hj => by rw [leftFirst]; omega]

end ByteOrder

theorem GuestMemory.MapsPart.of_layout {m m' : GuestMemory} (h : m.MapsPart a first count)
    (hmap : ∀ x, m'.mappedAddress x 1 = m.mappedAddress x 1) : m'.MapsPart a first count := by
  obtain ⟨r, o, hplace⟩ := h
  exact ⟨r, o, fun j hj => (hmap _).trans (hplace j hj)⟩

theorem GuestMemory.MapsWord.isSome (h : s.mem.MapsWord a) {j : Nat} (hj : j < 4) :
    (s.mem.mappedAddress (byteAddress a j) 1).isSome := by
  rcases Nat.lt_or_ge j (4 - a.toNat % 4) with hlt | hge
  · obtain ⟨r, o, hplace⟩ := h.1
    rw [← Nat.zero_add j, hplace j hlt]
    rfl
  · obtain ⟨r, o, hplace⟩ := h.2
    have hp := hplace (j - (4 - a.toNat % 4)) (by omega)
    rw [Nat.add_sub_cancel' hge] at hp
    exact Option.isSome_of_eq_some hp

namespace Wrote
variable {s' : State} {b : Word}

theorem mapsWord {P : Nat → Prop} (h : Wrote s s' a value P) (hmap : s.mem.MapsWord b) : s'.mem.MapsWord b :=
  ⟨hmap.1.of_layout fun _ => mappedAddress_of_layout h.layout,
    hmap.2.of_layout fun _ => mappedAddress_of_layout h.layout⟩

end Wrote

theorem ByteOrder.storePair_spec {host : ByteOrder} (h : s.mem.MapsWord a) (order : PairOrder) :
    Wrote s (host.storePair s a value order) a value (· < 4) := by
  cases order with
  | leftRight =>
    have hleft := storeWordLeft_spec host value h
    have hright := storeWordRight_spec host value (hleft.mapsWord h)
    refine (hleft.trans hright ?_ fun j hj => h.isSome hj.2).congr fun j => by rw [leftFirst]; omega
    omega
  | rightLeft =>
    have hright := storeWordRight_spec host value h
    have hleft := storeWordLeft_spec host value (hright.mapsWord h)
    refine (hright.trans hleft ?_ fun j hj => h.isSome (by omega)).congr fun j => by rw [leftFirst]; omega
    omega

end

/-! ### Aliases -/

section
variable {s s' : State} {m : GuestMemory} {a b value : Word} {width : Nat} {p : Pointer}

theorem toNat_mod_of_alias (h : canonicalAddress b = canonicalAddress a) (hwidth : width ∣ 2 ^ 29) :
    b.toNat % width = a.toNat % width := by
  have hcanon := congrArg BitVec.toNat h
  rw [Patch.toNat_canonicalAddress, Patch.toNat_canonicalAddress] at hcanon
  rw [← Nat.mod_mod_of_dvd b.toNat hwidth, hcanon, Nat.mod_mod_of_dvd a.toNat hwidth]

theorem byteAddress_alias (h : canonicalAddress b = canonicalAddress a) (j : Nat) :
    canonicalAddress (byteAddress b j) = canonicalAddress (byteAddress a j) := by
  have hcanon := congrArg BitVec.toNat h
  apply BitVec.eq_of_toNat_eq
  simp only [Patch.toNat_canonicalAddress, byteAddress, BitVec.toNat_add, BitVec.toNat_ofNat] at hcanon ⊢
  omega

theorem GuestMemory.MapsWord.alias (h : m.MapsWord a) (hb : canonicalAddress b = canonicalAddress a) :
    m.MapsWord b := by
  have hpart {first count : Nat} (hp : m.MapsPart a first count) : m.MapsPart b first count := by
    obtain ⟨r, o, hplace⟩ := hp
    exact ⟨r, o, fun j hj => (mappedAddress_alias (byteAddress_alias hb _)).trans (hplace j hj)⟩
  have hmod : b.toNat % 4 = a.toNat % 4 := toNat_mod_of_alias hb (by decide)
  rw [MapsWord, hmod]
  exact ⟨hpart h.1, hpart h.2⟩

/-- What was stored at an address is loaded at its aliases. -/
theorem Wrote.load_alias {host : ByteOrder} (h : Wrote s s' a value (· < 4)) (hmap : s.mem.MapsWord a)
    (hb : canonicalAddress b = canonicalAddress a) (order : PairOrder) (initial : Word) :
    host.loadPair s' b initial order = (value, s') := by
  have hmap' := h.mapsWord hmap
  rw [ByteOrder.loadPair_eq (hmap'.alias hb), Prod.mk.injEq, and_iff_left rfl]
  refine eq_of_wordByte fun j hj => ?_
  obtain ⟨p, hp⟩ := Option.isSome_iff_exists.1 (hmap'.isSome hj)
  have hp' := (GuestMemory.mappedAddress_alias (byteAddress_alias hb j)).trans hp
  rw [wordByte_wordOfBytes _ hj, guestByte_of_mapped hp', ← guestByte_of_mapped hp, h.bytes j hj]

section
variable {r : Region} {bytes : Bytes} {x : Word}

@[simp] theorem imageOffset_setBytes : (m.setBytes r bytes).imageOffset x = m.imageOffset x := by
  cases r <;> rfl

@[simp] theorem memory_size_setBytes : (m.setBytes r bytes).memory.size = m.memory.size := by
  cases r <;> rfl

@[simp] theorem access_setBytes {fast : Bool} : (m.setBytes r bytes).access x width fast = m.access x width fast := by
  have hhost : (m.setBytes r bytes).memory.host.isSome = m.memory.host.isSome := by
    cases r <;> simp [GuestMemory.setBytes]
  have hdirect : (m.setBytes r bytes).directMemoryAccess = m.directMemoryAccess := by
    cases r <;> rfl
  simp only [GuestMemory.access, GuestMemory.directAccess, hhost, hdirect, imageOffset_setBytes,
    GuestMemory.mappedAddress_setBytes]

end

/-- The accesses of an alias go where those of the address go. -/
theorem access_alias (fast : Nat → Bool) (h : m.mappedAddress a width = some p) (hwidth : width ∣ 2 ^ 29)
    (haligned : a.toNat % width = 0) (hb : canonicalAddress b = canonicalAddress a) :
    ∃ q, m.Hosted q.1 ∧ m.access a width (fast (m.imageOffset a)) = some q ∧
      m.access b width (fast (m.imageOffset b)) = some q := by
  have hoffset : m.imageOffset b = m.imageOffset a := by rw [GuestMemory.imageOffset, hb, GuestMemory.imageOffset]
  have hmod := toNat_mod_of_alias hb hwidth
  have hsame : m.access b width (fast (m.imageOffset b)) = m.access a width (fast (m.imageOffset a)) := by
    simp only [GuestMemory.access, hoffset, hmod, GuestMemory.mappedAddress_alias hb, h, Option.some_or]
  rw [hsame]
  by_cases hfast : m.memory.host.isSome = true ∧ fast (m.imageOffset a) = true ∧ a.toNat % width = 0
  · refine ⟨(.memory, m.imageOffset a), hfast.1, ?_⟩
    rw [GuestMemory.access, if_pos hfast, and_self]
  · refine ⟨p, hosted_of_mappedAddress h, ?_⟩
    rw [GuestMemory.access, if_neg hfast, if_neg (not_not.2 haligned), h, Option.some_or, and_self]

theorem readU16_writeU16 (memory : Bytes) (offset : Nat) (v : BitVec 16) :
    readU16 (writeU16 memory offset v) offset = v := by
  simp only [readU16, writeU16, if_pos, if_neg (Nat.succ_ne_self offset)]
  ext i hi
  by_cases hlow : i < 8
  · simp [hlow, BitVec.getLsbD_eq_getElem hi]
  · simp [hlow, show i - 8 < 8 by omega, show 8 + (i - 8) = i by omega, BitVec.getLsbD_eq_getElem hi]

/-- A load of an alias gives the value that a store of its width left behind. -/
theorem load_store_alias {n : Nat} (place : GuestMemory → Word → Option Pointer) (fast : Nat → Nat → Bool)
    {update : Bytes → Nat → Bytes} {read : Bytes → Nat → BitVec n} {v : BitVec n}
    (hplace : ∀ m x, place m x = m.access x width (fast m.memory.size (m.imageOffset x)))
    (hread : ∀ memory o, read (update memory o) o = v) (h : s.mem.mappedAddress a width = some p)
    (hwidth : width ∣ 2 ^ 29) (haligned : a.toNat % width = 0) (hb : canonicalAddress b = canonicalAddress a) :
    loadWith (storeWith s a (place s.mem a) update) b
      (place (storeWith s a (place s.mem a) update).mem b) read = (v, storeWith s a (place s.mem a) update) := by
  obtain ⟨q, hhost, ha, hb⟩ := access_alias (fast s.mem.memory.size) h hwidth haligned hb
  have hq : place s.mem a = some q := (hplace _ _).trans ha
  have hq' : place (storeWith s a (some q) update).mem b = some q := by
    rw [hplace, storeWith]
    simpa using hb
  simp only [hq, hq']
  simp only [loadWith, storeWith, GuestMemory.bytes_setBytes hhost, hread]

theorem load8_alias (h : s.mem.mappedAddress a 1 = some p) (hb : canonicalAddress b = canonicalAddress a)
    (v : Byte) : load8 (store8 s a v) b = (v, store8 s a v) :=
  load_store_alias GuestMemory.access8 (fun size o => o < size) (fun _ _ => rfl)
    (fun _ _ => Function.update_self ..) h (by decide) (Nat.mod_one _) hb

theorem load16_alias (h : s.mem.mappedAddress a 2 = some p) (haligned : a.toNat % 2 = 0)
    (hb : canonicalAddress b = canonicalAddress a) (v : BitVec 16) :
    load16 (store16 s a v) b = (v, store16 s a v) :=
  load_store_alias GuestMemory.access16 (fun size o => o ≤ sizeSub size 2) (fun _ _ => rfl)
    (fun _ _ => readU16_writeU16 _ _ v) h (by decide) haligned hb

theorem load32_alias (h : s.mem.mappedAddress a 4 = some p) (haligned : a.toNat % 4 = 0)
    (hb : canonicalAddress b = canonicalAddress a) (v : Word) :
    load32 (store32 s a v) b = (v, store32 s a v) :=
  load_store_alias GuestMemory.access32 (fun size o => o ≤ sizeSub size 4) (fun _ _ => rfl)
    (fun _ _ => readU32_writeU32 _ _ v) h (by decide) haligned hb

/-- The first bytes of a mapped word, as far as they share its part. -/
theorem GuestMemory.MapsWord.mappedAddress (h : m.MapsWord a) (width : Nat) (hpos : 0 < width) (hle : width ≤ 4 - a.toNat % 4) :
    ∃ p, m.mappedAddress a width = some p := by
  obtain ⟨r, o, hplace⟩ := h.1
  have hfirst : m.mappedAddress a 1 = some (r, o) := by simpa [byteAddress] using hplace 0 (by omega)
  have hlast := (mappedAddress_within (hplace (width - 1) (by omega))).size
  exact ⟨_, mappedAddress_widen hfirst hpos (by omega)⟩

end

/-- On either host and in either order, `lwl` at `a + 3` and `lwr` at `a` load the four bytes at `a`, whatever the
register was, and `swl` and `swr` write these four and nothing else. What was stored at `a`, by these or by the
aligned stores, is loaded from every alias of `a`. -/
theorem unaligned_words (host : ByteOrder) (s : State) (a : Word) (hmap : s.mem.MapsWord a) :
    (∀ initial order, host.loadPair s a initial order =
      (wordOfBytes fun j => (load8 s (byteAddress a j)).1, s)) ∧
    (∀ value order, Wrote s (host.storePair s a value order) a value (· < 4)) ∧
    ∀ b, canonicalAddress b = canonicalAddress a →
      (∀ value order initial order', host.loadPair (host.storePair s a value order) b initial order' =
        (value, host.storePair s a value order)) ∧
      (∀ v, load8 (store8 s a v) b = (v, store8 s a v)) ∧
      (a.toNat % 2 = 0 → ∀ v, load16 (store16 s a v) b = (v, store16 s a v)) ∧
      (a.toNat % 4 = 0 → ∀ v, load32 (store32 s a v) b = (v, store32 s a v)) := by
  refine ⟨fun initial order => ByteOrder.loadPair_eq hmap order, fun value order => ByteOrder.storePair_spec hmap order,
    fun b hb => ⟨?_, ?_, ?_, ?_⟩⟩
  · intro value order initial order'
    exact (ByteOrder.storePair_spec hmap order).load_alias hmap hb order' initial
  · obtain ⟨p, hp⟩ := hmap.mappedAddress 1 (by decide) (by omega)
    exact load8_alias hp hb
  · intro haligned
    obtain ⟨p, hp⟩ := hmap.mappedAddress 2 (by decide) (by omega)
    exact load16_alias hp haligned hb
  · intro haligned
    obtain ⟨p, hp⟩ := hmap.mappedAddress 4 (by decide) (by omega)
    exact load32_alias hp haligned hb

/-- The word at an odd address of a small image lies in two aligned words. -/
theorem unaligned_words_image :
    (∀ initial order, ByteOrder.little.loadPair (imageOfSize 8) 0x08800001 initial order =
      (wordOfBytes fun j => (load8 (imageOfSize 8) (byteAddress 0x08800001 j)).1, imageOfSize 8)) ∧
    ∀ value order, Wrote (imageOfSize 8) (ByteOrder.little.storePair (imageOfSize 8) 0x08800001 value order)
      0x08800001 value (· < 4) := by
  have h := unaligned_words .little (imageOfSize 8) 0x08800001 ⟨⟨.memory, 1, by decide⟩, ⟨.memory, 4, by decide⟩⟩
  exact ⟨h.1, h.2.1⟩

end Psprism
