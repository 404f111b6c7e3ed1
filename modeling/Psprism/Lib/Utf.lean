import Mathlib.Data.BitVec
import Mathlib.Data.List.Basic

/-!
# Unicode transformation formats

Texts as code points, as 16-bit units and as bytes. Code points are numbers below 0x110000 here, surrogates among
them: units in any order are a text (`flatMap_encode16_decode16`), in which a surrogate without its other half stands
for itself. UTF-8 written for such texts is no longer UTF-8 where they have surrogates, but it still tells all of them
apart (`flatMap_encode8_inj`). Without surrogates it is Lean's own (`encode8_char`).
-/

namespace Utf

def IsHigh (unit : BitVec 16) : Prop := 0xd800 ≤ unit.toNat ∧ unit.toNat ≤ 0xdbff
def IsLow (unit : BitVec 16) : Prop := 0xdc00 ≤ unit.toNat ∧ unit.toNat ≤ 0xdfff

instance (unit : BitVec 16) : Decidable (IsHigh unit) := inferInstanceAs (Decidable (_ ∧ _))
instance (unit : BitVec 16) : Decidable (IsLow unit) := inferInstanceAs (Decidable (_ ∧ _))

/-- The code point of two surrogates. -/
def join (high low : BitVec 16) : Nat := 0x10000 + (high.toNat - 0xd800) * 0x400 + (low.toNat - 0xdc00)

def decode16 : List (BitVec 16) → List Nat
  | high :: low :: rest =>
    if IsHigh high ∧ IsLow low then join high low :: decode16 rest else high.toNat :: decode16 (low :: rest)
  | [unit] => [unit.toNat]
  | [] => []

def encode16 (c : Nat) : List (BitVec 16) :=
  if c < 0x10000 then [BitVec.ofNat 16 c]
  else [BitVec.ofNat 16 (0xd800 + (c - 0x10000) / 0x400), BitVec.ofNat 16 (0xdc00 + (c - 0x10000) % 0x400)]

/-- A byte with the last six bits of `n`. -/
def tail (n : Nat) : BitVec 8 := BitVec.ofNat 8 (0x80 + n % 64)

def encode8 (c : Nat) : List (BitVec 8) :=
  if c ≤ 0x7f then [BitVec.ofNat 8 c]
  else if c ≤ 0x7ff then [BitVec.ofNat 8 (0xc0 + c / 64), tail c]
  else if c ≤ 0xffff then [BitVec.ofNat 8 (0xe0 + c / 4096), tail (c / 64), tail c]
  else [BitVec.ofNat 8 (0xf0 + c / 262144), tail (c / 4096), tail (c / 64), tail c]

/-- The first code point of some bytes, and what is left of them. -/
def decode8 : List (BitVec 8) → Option (Nat × List (BitVec 8))
  | [] => none
  | lead :: rest =>
    if lead.toNat < 0x80 then some (lead.toNat, rest)
    else
      match rest with
      | [] => none
      | b :: rest =>
        if lead.toNat < 0xe0 then some ((lead.toNat - 0xc0) * 64 + (b.toNat - 0x80), rest)
        else
          match rest with
          | [] => none
          | c :: rest =>
            if lead.toNat < 0xf0 then
              some ((lead.toNat - 0xe0) * 4096 + (b.toNat - 0x80) * 64 + (c.toNat - 0x80), rest)
            else
              match rest with
              | [] => none
              | d :: rest =>
                some ((lead.toNat - 0xf0) * 262144 + (b.toNat - 0x80) * 4096 + (c.toNat - 0x80) * 64 +
                  (d.toNat - 0x80), rest)

/-- Words that can be cut off the front of what they begin make up only one list each. -/
theorem eq_of_flatMap_eq {α β : Type*} {encode : α → List β} {decode : List β → Option (α × List β)} {P : α → Prop}
    (h : ∀ a, P a → ∀ rest, decode (encode a ++ rest) = some (a, rest)) (hnil : decode [] = none) {as bs : List α}
    (has : ∀ a ∈ as, P a) (hbs : ∀ b ∈ bs, P b) (heq : as.flatMap encode = bs.flatMap encode) : as = bs := by
  induction as generalizing bs with
  | nil =>
    cases bs with
    | nil => rfl
    | cons b bs =>
      have hfront := h b (hbs b List.mem_cons_self) (bs.flatMap encode)
      rw [← List.flatMap_cons, ← heq, List.flatMap_nil, hnil] at hfront
      cases hfront
  | cons a as ih =>
    have hfront := h a (has a List.mem_cons_self) (as.flatMap encode)
    rw [← List.flatMap_cons, heq] at hfront
    cases bs with
    | nil =>
      rw [List.flatMap_nil, hnil] at hfront
      cases hfront
    | cons b bs =>
      rw [List.flatMap_cons, h b (hbs b List.mem_cons_self)] at hfront
      obtain ⟨rfl, hrest⟩ := Prod.mk.inj (Option.some.inj hfront)
      rw [ih (fun a ha => has a (List.mem_cons_of_mem _ ha)) (fun b hb => hbs b (List.mem_cons_of_mem _ hb)) hrest.symm]

/-! ### UTF-16 -/

theorem encode16_join {high low : BitVec 16} (hhigh : IsHigh high) (hlow : IsLow low) :
    encode16 (join high low) = [high, low] := by
  obtain ⟨hlo, hhi⟩ := hhigh
  obtain ⟨hlo', hhi'⟩ := hlow
  have hsum : join high low - 0x10000 = (high.toNat - 0xd800) * 0x400 + (low.toNat - 0xdc00) := by
    unfold join
    omega
  have hhalf : BitVec.ofNat 16 (0xd800 + (join high low - 0x10000) / 0x400) = high := by
    rw [show 0xd800 + (join high low - 0x10000) / 0x400 = high.toNat by omega, BitVec.ofNat_toNat, BitVec.setWidth_eq]
  have hhalf' : BitVec.ofNat 16 (0xdc00 + (join high low - 0x10000) % 0x400) = low := by
    rw [show 0xdc00 + (join high low - 0x10000) % 0x400 = low.toNat by omega, BitVec.ofNat_toNat, BitVec.setWidth_eq]
  unfold encode16
  rw [hhalf, hhalf', if_neg]
  unfold join
  omega

theorem encode16_toNat (unit : BitVec 16) : encode16 unit.toNat = [unit] := by
  unfold encode16
  rw [if_pos unit.isLt, BitVec.ofNat_toNat, BitVec.setWidth_eq]

theorem flatMap_encode16_decode16 (units : List (BitVec 16)) : (decode16 units).flatMap encode16 = units := by
  fun_induction decode16 units with
  | case1 high low rest hpair ih =>
    rw [List.flatMap_cons, encode16_join hpair.1 hpair.2, ih]
    rfl
  | case2 high low rest hpair ih =>
    rw [List.flatMap_cons, encode16_toNat, ih]
    rfl
  | case3 unit => rw [List.flatMap_singleton, encode16_toNat]
  | case4 => rfl

theorem lt_of_mem_decode16 {units : List (BitVec 16)} {c : Nat} (h : c ∈ decode16 units) : c < 0x110000 := by
  fun_induction decode16 units with
  | case1 high low rest hpair ih =>
    rcases List.mem_cons.1 h with h | h
    · obtain ⟨⟨hlo, hhi⟩, hlo', hhi'⟩ := hpair
      rw [h]
      unfold join
      omega
    · exact ih h
  | case2 high low rest hpair ih =>
    rcases List.mem_cons.1 h with h | h
    · have := high.isLt
      omega
    · exact ih h
  | case3 unit =>
    have := unit.isLt
    rw [List.mem_singleton.1 h]
    omega
  | case4 => cases h

theorem eq_zero_of_mem_encode16 {c : Nat} (hc : c < 0x110000) (h : 0 ∈ encode16 c) : c = 0 := by
  unfold encode16 at h
  split_ifs at h with hsmall
  · have hzero := congrArg BitVec.toNat (List.mem_singleton.1 h)
    rw [BitVec.toNat_ofNat] at hzero
    change 0 = c % 2 ^ 16 at hzero
    omega
  · rcases List.mem_cons.1 h with h | h
    · have hzero := congrArg BitVec.toNat h
      rw [BitVec.toNat_ofNat] at hzero
      change 0 = (0xd800 + (c - 0x10000) / 0x400) % 2 ^ 16 at hzero
      omega
    · have hzero := congrArg BitVec.toNat (List.mem_singleton.1 h)
      rw [BitVec.toNat_ofNat] at hzero
      change 0 = (0xdc00 + (c - 0x10000) % 0x400) % 2 ^ 16 at hzero
      omega

theorem decode16_inj {units units' : List (BitVec 16)} (h : decode16 units = decode16 units') : units = units' := by
  rw [← flatMap_encode16_decode16 units, h, flatMap_encode16_decode16]

/-- A text of scalar values. -/
def IsScalar (c : Nat) : Prop := c < 0xd800 ∨ 0xdfff < c ∧ c < 0x110000

theorem decode16_cons {unit : BitVec 16} (h : ¬ IsHigh unit) (rest : List (BitVec 16)) :
    decode16 (unit :: rest) = unit.toNat :: decode16 rest := by
  cases rest with
  | nil => rfl
  | cons low rest => rw [decode16, if_neg fun hpair => h hpair.1]

theorem decode16_encode16 {c : Nat} (h : IsScalar c) (rest : List (BitVec 16)) :
    decode16 (encode16 c ++ rest) = c :: decode16 rest := by
  unfold IsScalar at h
  unfold encode16
  split_ifs with hsmall
  · have hunit : (BitVec.ofNat 16 c).toNat = c := by
      rw [BitVec.toNat_ofNat]
      omega
    rw [List.singleton_append, decode16_cons, hunit]
    unfold IsHigh
    rw [hunit]
    omega
  · have hhigh : (BitVec.ofNat 16 (0xd800 + (c - 0x10000) / 0x400)).toNat = 0xd800 + (c - 0x10000) / 0x400 := by
      rw [BitVec.toNat_ofNat]
      omega
    have hlow : (BitVec.ofNat 16 (0xdc00 + (c - 0x10000) % 0x400)).toNat = 0xdc00 + (c - 0x10000) % 0x400 := by
      rw [BitVec.toNat_ofNat]
      omega
    have hjoin : join (BitVec.ofNat 16 (0xd800 + (c - 0x10000) / 0x400))
        (BitVec.ofNat 16 (0xdc00 + (c - 0x10000) % 0x400)) = c := by
      unfold join
      rw [hhigh, hlow]
      omega
    rw [List.cons_append, List.singleton_append, decode16, if_pos]
    · rw [hjoin]
    · unfold IsHigh IsLow
      rw [hhigh, hlow]
      omega

theorem decode16_flatMap_encode16 {cs : List Nat} (h : ∀ c ∈ cs, IsScalar c) :
    decode16 (cs.flatMap encode16) = cs := by
  induction cs with
  | nil => rfl
  | cons c cs ih =>
    rw [List.flatMap_cons, decode16_encode16 (h c List.mem_cons_self), ih fun d hd => h d (List.mem_cons_of_mem _ hd)]

/-! ### UTF-8 -/

theorem toNat_tail (n : Nat) : (tail n).toNat = 0x80 + n % 64 := by
  unfold tail
  rw [BitVec.toNat_ofNat]
  omega

theorem toNat_lead {n : Nat} (h : n < 256) : (BitVec.ofNat 8 n).toNat = n := by
  rw [BitVec.toNat_ofNat]
  exact Nat.mod_eq_of_lt h

theorem decode8_encode8 {c : Nat} (h : c < 0x110000) (rest : List (BitVec 8)) :
    decode8 (encode8 c ++ rest) = some (c, rest) := by
  unfold encode8
  split_ifs with hone htwo hthree
  · have hlead := toNat_lead (n := c) (by omega)
    simp only [List.cons_append, List.nil_append, decode8, hlead]
    rw [if_pos (by omega)]
  · have hlead := toNat_lead (n := 0xc0 + c / 64) (by omega)
    simp only [List.cons_append, List.nil_append, decode8, hlead, toNat_tail]
    have hsum : (0xc0 + c / 64 - 0xc0) * 64 + (0x80 + c % 64 - 0x80) = c := by omega
    rw [if_neg (by omega), if_pos (by omega), hsum]
  · have hlead := toNat_lead (n := 0xe0 + c / 4096) (by omega)
    simp only [List.cons_append, List.nil_append, decode8, hlead, toNat_tail]
    have hsum : (0xe0 + c / 4096 - 0xe0) * 4096 + (0x80 + c / 64 % 64 - 0x80) * 64 + (0x80 + c % 64 - 0x80) = c := by
      omega
    rw [if_neg (by omega), if_neg (by omega), if_pos (by omega), hsum]
  · have hlead := toNat_lead (n := 0xf0 + c / 262144) (by omega)
    simp only [List.cons_append, List.nil_append, decode8, hlead, toNat_tail]
    have hsum : (0xf0 + c / 262144 - 0xf0) * 262144 + (0x80 + c / 4096 % 64 - 0x80) * 4096 +
        (0x80 + c / 64 % 64 - 0x80) * 64 + (0x80 + c % 64 - 0x80) = c := by
      omega
    rw [if_neg (by omega), if_neg (by omega), if_neg (by omega), hsum]

theorem flatMap_encode8_inj {cs ds : List Nat} (hcs : ∀ c ∈ cs, c < 0x110000) (hds : ∀ d ∈ ds, d < 0x110000)
    (h : cs.flatMap encode8 = ds.flatMap encode8) : cs = ds :=
  eq_of_flatMap_eq (fun _ hc rest => decode8_encode8 hc rest) rfl hcs hds h

theorem isScalar_char (c : Char) : IsScalar c.toNat := by
  have hvalid : c.toNat < 0xd800 ∨ 0xdfff < c.toNat ∧ c.toNat < 0x110000 := c.valid
  exact hvalid

theorem encode8_char (c : Char) : encode8 c.toNat = (String.utf8EncodeChar c).map UInt8.toBitVec := by
  have hvalid : c.toNat < 0x110000 := by
    rcases isScalar_char c with h | h <;> omega
  have htail (n : Nat) : (UInt8.ofNat (n % 0x40 + 0x80)).toBitVec = tail n := by
    unfold tail
    rw [Nat.add_comm]
    rfl
  have hlead {n k : Nat} (l : Nat) (h : n < k) : (UInt8.ofNat (n % k + l)).toBitVec = BitVec.ofNat 8 (l + n) := by
    rw [Nat.mod_eq_of_lt h, Nat.add_comm]
    rfl
  rw [String.utf8EncodeChar]
  show encode8 c.toNat = List.map UInt8.toBitVec
    (if c.toNat ≤ 0x7f then [UInt8.ofNat c.toNat]
    else if c.toNat ≤ 0x7ff then [UInt8.ofNat (c.toNat / 64 % 0x20 + 0xc0), UInt8.ofNat (c.toNat % 0x40 + 0x80)]
    else if c.toNat ≤ 0xffff then
      [UInt8.ofNat (c.toNat / 4096 % 0x10 + 0xe0), UInt8.ofNat (c.toNat / 64 % 0x40 + 0x80),
        UInt8.ofNat (c.toNat % 0x40 + 0x80)]
    else
      [UInt8.ofNat (c.toNat / 262144 % 0x08 + 0xf0), UInt8.ofNat (c.toNat / 4096 % 0x40 + 0x80),
        UInt8.ofNat (c.toNat / 64 % 0x40 + 0x80), UInt8.ofNat (c.toNat % 0x40 + 0x80)])
  unfold encode8
  split_ifs with hone htwo hthree
  · rfl
  · simp only [List.map_cons, List.map_nil, htail, hlead 0xc0 (show c.toNat / 64 < 0x20 by omega)]
  · simp only [List.map_cons, List.map_nil, htail, hlead 0xe0 (show c.toNat / 4096 < 0x10 by omega)]
  · simp only [List.map_cons, List.map_nil, htail, hlead 0xf0 (show c.toNat / 262144 < 0x08 by omega)]

end Utf
