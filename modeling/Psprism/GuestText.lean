import Mathlib.Data.List.GetD
import Mathlib.Tactic.IntervalCases
import Psprism.Lib.Utf
import Psprism.State

/-!
# Texts of the guest (`guest_utf16` and `utf16_to_utf8` of `runtime.cpp`)

The keyboard dialog reads labels and texts of 16-bit units up to a zero, and shows labels as bytes. A text without
lone surrogates becomes its UTF-8. A lone surrogate is encoded as if it were a character, so that the bytes are no
UTF-8; even then no two texts look alike (`guestText_shown`).
-/

namespace Psprism

/-- The loop of `guest_utf16`, with the units of the rounds still to come; `none` when one is not mapped. -/
def guestUnits (m : GuestMemory) (address : Word) : Nat → Nat → Option (List (BitVec 16))
  | 0, _ => some []
  | rounds + 1, index =>
    match m.mappedAddress (address + BitVec.ofNat 32 (index * 2)) 2 with
    | none => none
    | some (r, offset) =>
      let character := readU16 (m.bytes r) offset
      if character = 0 then some [] else (guestUnits m address rounds (index + 1)).map (character :: ·)

/-- A text that is not mapped to its end is empty. -/
def guestUtf16 (m : GuestMemory) (address : Word) (maximum : Nat) : List (BitVec 16) :=
  if address = 0 then [] else (guestUnits m address maximum 0).getD []

/-- `static_cast<char>(lead | bits)`. -/
def utf8Byte (lead bits : Word) : Byte := (lead ||| bits).setWidth 8

/-- The bytes that `utf16_to_utf8` adds for a character. -/
def utf8Bytes (character : Word) : List Byte :=
  if character ≤ 0x7f then [character.setWidth 8]
  else if character ≤ 0x7ff then [utf8Byte 0xc0 (character >>> 6), utf8Byte 0x80 (character &&& 0x3f)]
  else if character ≤ 0xffff then
    [utf8Byte 0xe0 (character >>> 12), utf8Byte 0x80 ((character >>> 6) &&& 0x3f),
      utf8Byte 0x80 (character &&& 0x3f)]
  else
    [utf8Byte 0xf0 (character >>> 18), utf8Byte 0x80 ((character >>> 12) &&& 0x3f),
      utf8Byte 0x80 ((character >>> 6) &&& 0x3f), utf8Byte 0x80 (character &&& 0x3f)]

def utf16ToUtf8 : List (BitVec 16) → List Byte
  | unit :: next :: rest =>
    let character := unit.setWidth 32
    let low := next.setWidth 32
    if (0xd800 ≤ character ∧ character ≤ 0xdbff) ∧ 0xdc00 ≤ low ∧ low ≤ 0xdfff then
      utf8Bytes ((0x10000 : Word) + ((character - 0xd800) <<< 10) + (low - 0xdc00)) ++ utf16ToUtf8 rest
    else utf8Bytes character ++ utf16ToUtf8 (next :: rest)
  | [unit] => utf8Bytes (unit.setWidth 32)
  | [] => []

/-- The units are mapped from the address on, and a zero behind them. -/
def GuestMemory.Holds (m : GuestMemory) (address : Word) (units : List (BitVec 16)) : Prop :=
  ∀ i ≤ units.length, ∃ r offset, m.mappedAddress (address + BitVec.ofNat 32 (i * 2)) 2 = some (r, offset) ∧
    readU16 (m.bytes r) offset = units.getD i 0

/-! ### Reading -/

section
variable {m : GuestMemory} {address : Word} {units : List (BitVec 16)}

theorem guestUnits_of_holds (h : m.Holds address units) (hzero : 0 ∉ units) {rounds index : Nat}
    (hindex : index ≤ units.length) (hrounds : units.length < index + rounds) :
    guestUnits m address rounds index = some (units.drop index) := by
  induction rounds generalizing index with
  | zero => omega
  | succ rounds ih =>
    obtain ⟨r, offset, hmap, hread⟩ := h index hindex
    rw [guestUnits, hmap]
    dsimp only
    rw [hread]
    by_cases hend : index < units.length
    · have hunit : units.getD index 0 = units[index] := List.getD_eq_getElem units 0 hend
      have hne : units[index] ≠ 0 := fun heq => hzero (heq ▸ List.getElem_mem hend)
      rw [hunit, if_neg hne, ih hend (by omega), Option.map_some, List.drop_eq_getElem_cons hend]
    · rw [List.getD_eq_default _ _ (by omega), if_pos rfl, List.drop_eq_nil_of_le (by omega)]

/-- A text that ends with a zero within the maximum is read as it is. -/
theorem guestUtf16_of_holds (h : m.Holds address units) (hzero : 0 ∉ units) (haddress : address ≠ 0) {maximum : Nat}
    (hmaximum : units.length < maximum) : guestUtf16 m address maximum = units := by
  unfold guestUtf16
  rw [if_neg haddress, guestUnits_of_holds h hzero (Nat.zero_le _) (by omega)]
  rfl

end

/-! ### Bytes -/

/-- A byte with leading bits over `k` bits of the character. -/
theorem utf8Byte_eq {k n : Nat} (lead : Nat) {bits : Word} (hbits : bits.toNat = n) (hn : n < 2 ^ k)
    (hlead : 2 ^ k * lead < 2 ^ 8) :
    utf8Byte (BitVec.ofNat 32 (2 ^ k * lead)) bits = BitVec.ofNat 8 (2 ^ k * lead + n) := by
  refine BitVec.eq_of_toNat_eq ?_
  rw [utf8Byte, BitVec.toNat_setWidth, BitVec.toNat_or, BitVec.toNat_ofNat, BitVec.toNat_ofNat, hbits,
    Nat.mod_eq_of_lt (a := 2 ^ k * lead) (b := 2 ^ 32) (by omega), ← Nat.two_pow_add_eq_or_of_lt hn]

theorem toNat_shift_and (character : Word) (k : Nat) :
    ((character >>> k) &&& 0x3f).toNat = character.toNat / 2 ^ k % 64 := by
  rw [BitVec.toNat_and, BitVec.toNat_ushiftRight, Nat.shiftRight_eq_div_pow]
  exact Nat.and_two_pow_sub_one_eq_mod _ 6

theorem utf8Bytes_eq {character : Word} (h : character.toNat < 0x110000) :
    utf8Bytes character = Utf.encode8 character.toNat := by
  have hshift (k : Nat) : (character >>> k).toNat = character.toNat / 2 ^ k := by
    rw [BitVec.toNat_ushiftRight, Nat.shiftRight_eq_div_pow]
  have htail (k : Nat) : utf8Byte 0x80 ((character >>> k) &&& 0x3f) = Utf.tail (character.toNat / 2 ^ k) :=
    utf8Byte_eq (k := 6) 2 (toNat_shift_and character k) (Nat.mod_lt _ (by decide)) (by decide)
  have hlast : utf8Byte 0x80 (character &&& 0x3f) = Utf.tail character.toNat := by
    simpa using htail 0
  have h7f : character ≤ 0x7f ↔ character.toNat ≤ 0x7f := BitVec.le_def
  have h7ff : character ≤ 0x7ff ↔ character.toNat ≤ 0x7ff := BitVec.le_def
  have hffff : character ≤ 0xffff ↔ character.toNat ≤ 0xffff := BitVec.le_def
  unfold utf8Bytes Utf.encode8
  simp only [h7f, h7ff, hffff]
  split_ifs with hone htwo hthree
  · refine congrArg (fun byte => [byte]) (BitVec.eq_of_toNat_eq ?_)
    rw [BitVec.toNat_setWidth, BitVec.toNat_ofNat]
  · have hlead : utf8Byte 0xc0 (character >>> 6) = _ := utf8Byte_eq (k := 6) 3 (hshift 6) (by omega) (by decide)
    rw [hlead, hlast]
    rfl
  · have hlead : utf8Byte 0xe0 (character >>> 12) = _ := utf8Byte_eq (k := 4) 14 (hshift 12) (by omega) (by decide)
    rw [hlead, htail 6, hlast]
    rfl
  · have hlead : utf8Byte 0xf0 (character >>> 18) = _ := utf8Byte_eq (k := 4) 15 (hshift 18) (by omega) (by decide)
    rw [hlead, htail 12, htail 6, hlast]
    rfl

theorem toNat_wide (unit : BitVec 16) : (unit.setWidth 32).toNat = unit.toNat := by
  rw [BitVec.toNat_setWidth]
  exact Nat.mod_eq_of_lt (unit.isLt.trans (by decide))

/-- The test for a pair of surrogates. -/
theorem pair_iff (unit next : BitVec 16) :
    ((0xd800 ≤ unit.setWidth 32 ∧ unit.setWidth 32 ≤ (0xdbff : Word)) ∧
      0xdc00 ≤ next.setWidth 32 ∧ next.setWidth 32 ≤ (0xdfff : Word)) ↔ Utf.IsHigh unit ∧ Utf.IsLow next := by
  simp only [BitVec.le_def, toNat_wide]
  rfl

theorem toNat_join {unit next : BitVec 16} (hunit : Utf.IsHigh unit) (hnext : Utf.IsLow next) :
    ((0x10000 : Word) + ((unit.setWidth 32 - 0xd800) <<< 10) + (next.setWidth 32 - 0xdc00)).toNat =
      Utf.join unit next := by
  obtain ⟨hlo, hhi⟩ := hunit
  obtain ⟨hlo', hhi'⟩ := hnext
  have hhigh : (unit.setWidth 32 - 0xd800 : Word).toNat = unit.toNat - 0xd800 := by
    rw [BitVec.toNat_sub, toNat_wide]
    simp
    omega
  have hlow : (next.setWidth 32 - 0xdc00 : Word).toNat = next.toNat - 0xdc00 := by
    rw [BitVec.toNat_sub, toNat_wide]
    simp
    omega
  have hshift : ((unit.setWidth 32 - 0xd800 : Word) <<< 10).toNat = (unit.toNat - 0xd800) * 0x400 := by
    rw [BitVec.toNat_shiftLeft, hhigh, Nat.shiftLeft_eq]
    omega
  have hbase : (0x10000 : Word).toNat = 0x10000 := rfl
  unfold Utf.join
  rw [BitVec.toNat_add, BitVec.toNat_add, hshift, hlow, hbase]
  omega

theorem join_lt {unit next : BitVec 16} (hunit : Utf.IsHigh unit) (hnext : Utf.IsLow next) :
    Utf.join unit next < 0x110000 := by
  obtain ⟨hlo, hhi⟩ := hunit
  obtain ⟨hlo', hhi'⟩ := hnext
  unfold Utf.join
  omega

theorem utf8Bytes_unit (unit : BitVec 16) : utf8Bytes (unit.setWidth 32) = Utf.encode8 unit.toNat := by
  have hlt := unit.isLt
  rw [utf8Bytes_eq (by rw [toNat_wide]; omega), toNat_wide]

/-- The conversion goes by the code points. -/
theorem utf16ToUtf8_eq (units : List (BitVec 16)) :
    utf16ToUtf8 units = (Utf.decode16 units).flatMap Utf.encode8 := by
  fun_induction Utf.decode16 units with
  | case1 unit next rest hpair ih =>
    rw [utf16ToUtf8]
    rw [if_pos ((pair_iff unit next).2 hpair), List.flatMap_cons, ih,
      utf8Bytes_eq (by rw [toNat_join hpair.1 hpair.2]; exact join_lt hpair.1 hpair.2), toNat_join hpair.1 hpair.2]
  | case2 unit next rest hpair ih =>
    rw [utf16ToUtf8]
    rw [if_neg (mt (pair_iff unit next).1 hpair), List.flatMap_cons, ih, utf8Bytes_unit]
  | case3 unit => rw [List.flatMap_singleton, utf16ToUtf8, utf8Bytes_unit]
  | case4 => rfl

/-- The units of a text. -/
def textUnits (text : List Char) : List (BitVec 16) := text.flatMap fun c => Utf.encode16 c.toNat

theorem decode16_textUnits (text : List Char) : Utf.decode16 (textUnits text) = text.map Char.toNat := by
  have hunits : textUnits text = (text.map Char.toNat).flatMap Utf.encode16 := (List.flatMap_map ..).symm
  rw [hunits]
  refine Utf.decode16_flatMap_encode16 fun c hc => ?_
  obtain ⟨char, -, rfl⟩ := List.mem_map.1 hc
  exact Utf.isScalar_char char

theorem zero_notMem_textUnits {text : List Char} (h : Char.ofNat 0 ∉ text) : 0 ∉ textUnits text := by
  intro hmem
  obtain ⟨c, hc, hzero⟩ := List.mem_flatMap.1 hmem
  have hnat : c.toNat = 0 := by
    refine Utf.eq_zero_of_mem_encode16 ?_ hzero
    rcases Utf.isScalar_char c with hlt | ⟨-, hlt⟩
    · omega
    · exact hlt
  have hchar : c = Char.ofNat 0 := by
    rw [← Char.ofNat_toNat c, hnat]
  exact h (hchar ▸ hc)

/-- A text that lies in guest memory, with a zero behind it, is shown as its UTF-8, and whatever units are in guest
memory, others are shown as other bytes. -/
theorem guestText_shown :
    (∀ (m : GuestMemory) (address : Word) (maximum : Nat) (text : List Char), m.Holds address (textUnits text) →
      Char.ofNat 0 ∉ text → address ≠ 0 → (textUnits text).length < maximum →
      utf16ToUtf8 (guestUtf16 m address maximum) = text.flatMap fun c => (String.utf8EncodeChar c).map UInt8.toBitVec) ∧
      ∀ units units', utf16ToUtf8 units = utf16ToUtf8 units' → units = units' := by
  constructor
  · intro m address maximum text hholds hzero haddress hmaximum
    rw [guestUtf16_of_holds hholds (zero_notMem_textUnits hzero) haddress hmaximum, utf16ToUtf8_eq,
      decode16_textUnits, List.flatMap_map]
    exact congrArg (text.flatMap ·) (funext Utf.encode8_char)
  · intro units units' h
    rw [utf16ToUtf8_eq, utf16ToUtf8_eq] at h
    exact Utf.decode16_inj (Utf.flatMap_encode8_inj (fun c => Utf.lt_of_mem_decode16)
      (fun c => Utf.lt_of_mem_decode16) h)

/-- A letter and a character of two units. -/
theorem guestText_shown_label :
    let m : GuestMemory := { memory := ⟨some (wordBytes [0xd8340041, 0xdd1e]), 8⟩, memoryBase := 0x08800000 }
    utf16ToUtf8 (guestUtf16 m 0x08800000 4096) = [0x41, 0xf0, 0x9d, 0x84, 0x9e] := by
  intro m
  have hholds : m.Holds 0x08800000 (textUnits [Char.ofNat 0x41, Char.ofNat 0x1d11e]) := by
    have hlength : (textUnits [Char.ofNat 0x41, Char.ofNat 0x1d11e]).length = 3 := by decide
    intro i hi
    refine ⟨.memory, i * 2, ?_⟩
    rw [hlength] at hi
    interval_cases i <;> decide
  rw [guestText_shown.1 m 0x08800000 4096 _ hholds (by decide) (by decide) (by decide)]
  decide

end Psprism
