import Mathlib.Algebra.Order.Group.Nat
import Mathlib.Data.Nat.NthRoot.Defs
import Mathlib.Data.Nat.Sqrt
import Mathlib.Data.List.Basic

/-!
# SHA-256 of byte messages

The algorithm of FIPS 180-4 for messages of whole bytes. Bits are counted from the most significant bit of the
first byte. The constants are computed from the primes as the standard says, not listed. The length field is the
length in bits modulo `2 ^ 64`; the standard sets no digest for longer messages.
-/

namespace Sha2

abbrev Byte := BitVec 8
abbrev Word := BitVec 32

/-! ## Functions and constants -/

def Ch (x y z : Word) : Word := (x &&& y) ^^^ (~~~x &&& z)

def Maj (x y z : Word) : Word := (x &&& y) ^^^ (x &&& z) ^^^ (y &&& z)

def bigSigma0 (x : Word) : Word := x.rotateRight 2 ^^^ x.rotateRight 13 ^^^ x.rotateRight 22

def bigSigma1 (x : Word) : Word := x.rotateRight 6 ^^^ x.rotateRight 11 ^^^ x.rotateRight 25

def smallSigma0 (x : Word) : Word := x.rotateRight 7 ^^^ x.rotateRight 18 ^^^ (x >>> (3 : Nat))

def smallSigma1 (x : Word) : Word := x.rotateRight 17 ^^^ x.rotateRight 19 ^^^ (x >>> (10 : Nat))

/-- The first sixty-four primes. -/
def primes : List Nat := (List.range 312).filter fun p => 2 ≤ p ∧ ∀ d ∈ List.range p, 2 ≤ d → p % d ≠ 0

/-- A number below `18 ^ 2` with a proper divisor has one below `18`. -/
theorem divisors_iff {p : Nat} (h : p < 324) :
    (∀ d ∈ List.range p, 2 ≤ d → p % d ≠ 0) ↔ ∀ d ∈ List.range 18, 2 ≤ d → d < p → p % d ≠ 0 := by
  simp only [List.mem_range]
  refine ⟨fun hall d _ h2 hd => hall d hd h2, fun hall d hd h2 hmod => ?_⟩
  obtain ⟨e, rfl⟩ := Nat.dvd_of_mod_eq_zero hmod
  have he : 2 ≤ e := by
    refine Nat.le_of_not_lt fun hlt => ?_
    have : d * e ≤ d * 1 := Nat.mul_le_mul_left d (by omega)
    omega
  rcases Nat.lt_or_ge d 18 with hsmall | hlarge
  · exact hall d hsmall h2 hd hmod
  · have hsquare : 18 * e ≤ d * e := Nat.mul_le_mul_right e hlarge
    have hdouble : 2 * e ≤ d * e := Nat.mul_le_mul_right e h2
    exact hall e (by omega) he (by omega) (Nat.mul_mod_left d e)

theorem primes_eq : primes =
    [2, 3, 5, 7, 11, 13, 17, 19, 23, 29, 31, 37, 41, 43, 47, 53, 59, 61, 67, 71, 73, 79, 83, 89, 97, 101, 103, 107,
      109, 113, 127, 131, 137, 139, 149, 151, 157, 163, 167, 173, 179, 181, 191, 193, 197, 199, 211, 223, 227, 229,
      233, 239, 241, 251, 257, 263, 269, 271, 277, 281, 283, 293, 307, 311] := by
  -- evaluated with divisors below 18 only
  have htest : primes = (List.range 312).filter
      fun p => 2 ≤ p ∧ ∀ d ∈ List.range 18, 2 ≤ d → d < p → p % d ≠ 0 := by
    refine List.filter_congr fun p hp => ?_
    simp only [divisors_iff (Nat.lt_trans (List.mem_range.mp hp) (by decide : 312 < 324))]
  rw [htest]
  decide +kernel

/-- The first thirty-two bits of the fractional part of the cube root of the `t`-th prime. -/
def K (t : Nat) : Word := BitVec.ofNat 32 (Nat.nthRoot 3 (primes.getD t 0 * 2 ^ 96))

/-- The first thirty-two bits of the fractional part of the square root of the `t`-th prime. -/
def rootWord (t : Nat) : Word := BitVec.ofNat 32 (Nat.sqrt (primes.getD t 0 * 2 ^ 64))

/-! ## One block -/

/-- The eight words of a hash value, also as the working variables of a block. -/
@[ext] structure Registers where
  a : Word
  b : Word
  c : Word
  d : Word
  e : Word
  f : Word
  g : Word
  h : Word
deriving DecidableEq, Repr

namespace Registers

def words (r : Registers) : List Word := [r.a, r.b, r.c, r.d, r.e, r.f, r.g, r.h]

def add (r s : Registers) : Registers :=
  ⟨r.a + s.a, r.b + s.b, r.c + s.c, r.d + s.d, r.e + s.e, r.f + s.f, r.g + s.g, r.h + s.h⟩

theorem add_comm (r s : Registers) : r.add s = s.add r := by simp only [add, BitVec.add_comm]

end Registers

def initial : Registers :=
  ⟨rootWord 0, rootWord 1, rootWord 2, rootWord 3, rootWord 4, rootWord 5, rootWord 6, rootWord 7⟩

/-- The message schedule of a block whose words are `M`. -/
def schedule (M : Nat → Word) (t : Nat) : Word :=
  if t < 16 then M t
  else smallSigma1 (schedule M (t - 2)) + schedule M (t - 7) + smallSigma0 (schedule M (t - 15)) +
    schedule M (t - 16)
termination_by t

def round (k w : Word) (r : Registers) : Registers :=
  let T1 := r.h + bigSigma1 r.e + Ch r.e r.f r.g + k + w
  let T2 := bigSigma0 r.a + Maj r.a r.b r.c
  ⟨T1 + T2, r.a, r.b, r.c, r.d + T1, r.e, r.f, r.g⟩

def rounds (M : Nat → Word) (H : Registers) : Registers :=
  (List.range 64).foldl (fun r t => round (K t) (schedule M t) r) H

def compress (M : Nat → Word) (H : Registers) : Registers := (rounds M H).add H

section
variable {M M' : Nat → Word} {t : Nat}

theorem schedule_lt (h : t < 16) : schedule M t = M t := by rw [schedule, if_pos h]

theorem schedule_ge (h : 16 ≤ t) :
    schedule M t = smallSigma1 (schedule M (t - 2)) + schedule M (t - 7) + smallSigma0 (schedule M (t - 15)) +
      schedule M (t - 16) := by
  rw [schedule, if_neg (by omega)]

/-- The schedule reads sixteen words. -/
theorem schedule_congr (h : ∀ i < 16, M i = M' i) (t : Nat) : schedule M t = schedule M' t := by
  induction t using Nat.strongRecOn with
  | ind t ih =>
    by_cases ht : t < 16
    · rw [schedule_lt ht, schedule_lt ht, h t ht]
    · have ht : 16 ≤ t := by omega
      rw [schedule_ge ht, schedule_ge ht, ih _ (by omega), ih _ (by omega), ih _ (by omega), ih _ (by omega)]

theorem compress_congr (h : ∀ i < 16, M i = M' i) (H : Registers) : compress M H = compress M' H := by
  simp only [compress, rounds, schedule_congr h]

end

/-! ## Padding -/

/-- The zero bits after the one bit that ends a message of `l` bits. -/
def zeroBits (l : Nat) : Nat := (959 - l % 512) % 512

theorem zeroBits_spec (l : Nat) : (l + 1 + zeroBits l) % 512 = 448 := by unfold zeroBits; omega

theorem zeroBits_le {l k : Nat} (h : (l + 1 + k) % 512 = 448) : zeroBits l ≤ k := by unfold zeroBits; omega

/-- The bytes of a word, the first the most significant. -/
def bytesBE {n : Nat} (count : Nat) (w : BitVec n) : List Byte :=
  (List.range count).map fun i => (w >>> (8 * (count - 1 - i))).setWidth 8

def bits (m : List Byte) : List Bool := m.flatMap fun b => (List.range 8).map b.getMsbD

/-- The bytes that pad a message of `n` bytes. -/
def padding (n : Nat) : List Byte :=
  0x80 :: (List.replicate ((zeroBits (8 * n) - 7) / 8) 0 ++ bytesBE 8 (BitVec.ofNat 64 (8 * n)))

theorem bits_append (m m' : List Byte) : bits (m ++ m') = bits m ++ bits m' := List.flatMap_append

theorem bits_cons (b : Byte) (m : List Byte) : bits (b :: m) = (List.range 8).map b.getMsbD ++ bits m := rfl

theorem bits_zeros (k : Nat) : bits (List.replicate k 0) = List.replicate (8 * k) false := by
  induction k with
  | zero => rfl
  | succ k ih =>
    have h : (List.range 8).map (0 : Byte).getMsbD = List.replicate 8 false := by decide
    rw [List.replicate_succ, bits_cons, h, ih, List.replicate_append_replicate, Nat.mul_succ, Nat.add_comm]

theorem bits_length_field (w : BitVec 64) : bits (bytesBE 8 w) = (List.range 64).map w.getMsbD := by
  simp [bits, bytesBE, List.range_succ, BitVec.getMsbD]

/-- The padding is a one bit, the least number of zero bits and the length in sixty-four bits. -/
theorem bits_padding (n : Nat) :
    bits (padding n) =
      true :: (List.replicate (zeroBits (8 * n)) false ++ (List.range 64).map (BitVec.ofNat 64 (8 * n)).getMsbD) := by
  have h80 : (List.range 8).map (0x80 : Byte).getMsbD = true :: List.replicate 7 false := by decide
  have hz : 7 + 8 * ((zeroBits (8 * n) - 7) / 8) = zeroBits (8 * n) := by unfold zeroBits; omega
  rw [padding, bits_cons, bits_append, bits_zeros, bits_length_field, h80, List.cons_append, ← List.append_assoc,
    List.replicate_append_replicate, hz]

theorem length_bytesBE {n count : Nat} (w : BitVec n) : (bytesBE count w).length = count := by simp [bytesBE]

theorem length_padding (n : Nat) : (padding n).length = 9 + (zeroBits (8 * n) - 7) / 8 := by
  simp [padding, length_bytesBE]; omega

theorem padded_length (n : Nat) : (n + (padding n).length) % 64 = 0 := by
  rw [length_padding]; unfold zeroBits; omega

/-! ## Messages -/

/-- The words of the `N`-th block of `m`. -/
def block (m : List Byte) (N t : Nat) : Word :=
  m.getD (64 * N + 4 * t) 0 ++ m.getD (64 * N + 4 * t + 1) 0 ++ m.getD (64 * N + 4 * t + 2) 0 ++
    m.getD (64 * N + 4 * t + 3) 0

/-- The hash value after the first `N` blocks of `m`. -/
def afterBlocks (m : List Byte) : Nat → Registers
  | 0 => initial
  | N + 1 => compress (block m N) (afterBlocks m N)

def digest (m : List Byte) : List Byte :=
  let padded := m ++ padding m.length
  (afterBlocks padded (padded.length / 64)).words.flatMap (bytesBE 4)

section
variable {m x : List Byte} {N : Nat}

theorem getD_append_of_lt {i : Nat} (h : i < m.length) : (m ++ x).getD i 0 = m.getD i 0 := by
  simp [List.getD, List.getElem?_append_left h]

theorem block_append {t : Nat} (h : 64 * (N + 1) ≤ m.length) (ht : t < 16) : block (m ++ x) N t = block m N t := by
  simp only [block, getD_append_of_lt (show 64 * N + 4 * t < m.length by omega),
    getD_append_of_lt (show 64 * N + 4 * t + 1 < m.length by omega),
    getD_append_of_lt (show 64 * N + 4 * t + 2 < m.length by omega),
    getD_append_of_lt (show 64 * N + 4 * t + 3 < m.length by omega)]

/-- Later bytes do not change the hash value of the blocks before them. -/
theorem afterBlocks_append (h : 64 * N ≤ m.length) : afterBlocks (m ++ x) N = afterBlocks m N := by
  induction N with
  | zero => rfl
  | succ N ih =>
    rw [afterBlocks, afterBlocks, ih (by omega)]
    exact compress_congr (fun t ht => block_append h ht) _

end

end Sha2
