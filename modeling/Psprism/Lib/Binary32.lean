import Mathlib.Algebra.Order.Floor.Ring
import Mathlib.Data.BitVec
import Mathlib.Data.Rat.Floor
import Mathlib.Tactic.Linarith
import Mathlib.Tactic.NormNum
import Mathlib.Tactic.Positivity
import Mathlib.Tactic.Ring

/-!
# Binary32 bit patterns as exact rationals

The rational a finite IEEE 754 single denotes, and rounding of rationals to integers: toward zero,
to nearest with ties to even, and to nearest with ties away from zero. The last two differ exactly
on ties whose truncation is even. A single of magnitude `2^24` or more is an integer, so rounding
never carries a single across a power of two that large.
-/

namespace Binary32

/-! ### Bit patterns -/

def sign (b : BitVec 32) : Bool := b.msb

def exponent (b : BitVec 32) : Nat := (b.extractLsb' 23 8).toNat

def fraction (b : BitVec 32) : Nat := (b.extractLsb' 0 23).toNat

def isFinite (b : BitVec 32) : Bool := exponent b ≠ 255

def isNan (b : BitVec 32) : Bool := exponent b = 255 ∧ fraction b ≠ 0

def isInf (b : BitVec 32) : Bool := exponent b = 255 ∧ fraction b = 0

/-- The significand with its hidden bit. -/
def significand (b : BitVec 32) : Nat := if exponent b = 0 then fraction b else 2 ^ 23 + fraction b

/-- The magnitude of a finite single: its significand times `2 ^ (exponent - 150)`. -/
def magnitude (b : BitVec 32) : ℚ :=
  let e := max (exponent b) 1
  if 150 ≤ e then significand b * 2 ^ (e - 150) else significand b / 2 ^ (150 - e)

/-- The rational a finite single denotes. -/
def toRat (b : BitVec 32) : ℚ := if sign b then -magnitude b else magnitude b

theorem significand_lt (b : BitVec 32) : significand b < 2 ^ 24 := by
  have h : fraction b < 2 ^ 23 := (b.extractLsb' 0 23).isLt
  unfold significand
  split <;> omega

theorem magnitude_nonneg (b : BitVec 32) : 0 ≤ magnitude b := by
  unfold magnitude
  dsimp only
  split <;> positivity

/-- A single is an integer unless its magnitude is below `2 ^ 24`. -/
theorem magnitude_int_or_lt (b : BitVec 32) :
    (∃ n : ℤ, magnitude b = n) ∨ magnitude b < 2 ^ 24 := by
  have hs : (significand b : ℚ) < 2 ^ 24 := by exact_mod_cast significand_lt b
  unfold magnitude
  dsimp only
  split
  · exact .inl ⟨(significand b * 2 ^ (max (exponent b) 1 - 150) : ℕ), by push_cast; ring⟩
  · refine .inr (lt_of_le_of_lt (div_le_self (by positivity) ?_) hs)
    exact one_le_pow₀ (by norm_num)

theorem toRat_int_or_abs_lt (b : BitVec 32) :
    (∃ n : ℤ, toRat b = n) ∨ (-2 ^ 24 < toRat b ∧ toRat b < 2 ^ 24) := by
  have h0 := magnitude_nonneg b
  unfold toRat
  rcases magnitude_int_or_lt b with ⟨n, hn⟩ | hlt
  · split
    · exact .inl ⟨-n, by rw [hn]; push_cast; rfl⟩
    · exact .inl ⟨n, hn⟩
  · refine .inr ?_
    split <;> constructor <;> linarith

/-! ### Rounding to an integer -/

/-- Toward zero. -/
def roundTrunc (q : ℚ) : ℤ := if 0 ≤ q then ⌊q⌋ else ⌈q⌉

/-- To nearest, ties to even. -/
def roundTiesEven (q : ℚ) : ℤ :=
  if q - ⌊q⌋ < 1 / 2 then ⌊q⌋
  else if 1 / 2 < q - ⌊q⌋ then ⌊q⌋ + 1
  else if ⌊q⌋ % 2 = 0 then ⌊q⌋ else ⌊q⌋ + 1

/-- To nearest, ties away from zero. -/
def roundTiesAway (q : ℚ) : ℤ := if 0 ≤ q then ⌊q + 1 / 2⌋ else ⌈q - 1 / 2⌉

/-- Halfway between two integers. -/
def IsTie (q : ℚ) : Prop := q - ⌊q⌋ = 1 / 2

instance (q : ℚ) : Decidable (IsTie q) := inferInstanceAs (Decidable (_ = _))

theorem roundTrunc_intCast (n : ℤ) : roundTrunc n = n := by
  unfold roundTrunc; split <;> simp

theorem roundTiesEven_intCast (n : ℤ) : roundTiesEven n = n := by
  simp [roundTiesEven]

theorem roundTiesAway_intCast (n : ℤ) : roundTiesAway n = n := by
  unfold roundTiesAway
  split
  · rw [Int.floor_eq_iff]; constructor <;> linarith
  · rw [Int.ceil_eq_iff]; constructor <;> linarith

/-- Any rounding lands on a neighbour of the rounded number. -/
theorem roundTiesEven_mem (q : ℚ) : ⌊q⌋ ≤ roundTiesEven q ∧ roundTiesEven q ≤ ⌊q⌋ + 1 := by
  unfold roundTiesEven
  split
  · omega
  · split
    · omega
    · split <;> omega

theorem roundTiesAway_mem (q : ℚ) : ⌊q⌋ ≤ roundTiesAway q ∧ roundTiesAway q ≤ ⌊q⌋ + 1 := by
  have h1 := Int.floor_le q
  have h2 := Int.lt_floor_add_one q
  unfold roundTiesAway
  split
  · refine ⟨Int.floor_le_floor (by linarith), ?_⟩
    rw [Int.floor_le_iff]; push_cast; linarith
  · constructor
    · rw [Int.le_ceil_iff]; linarith
    · rw [Int.ceil_le]; push_cast; linarith

theorem roundTrunc_mem (q : ℚ) : ⌊q⌋ ≤ roundTrunc q ∧ roundTrunc q ≤ ⌊q⌋ + 1 := by
  unfold roundTrunc
  split
  · omega
  · exact ⟨Int.floor_le_ceil q, Int.ceil_le_floor_add_one q⟩

theorem roundTiesAway_of_lt {q : ℚ} (h : q - ⌊q⌋ < 1 / 2) : roundTiesAway q = ⌊q⌋ := by
  have h1 := Int.floor_le q
  unfold roundTiesAway
  split
  · rw [Int.floor_eq_iff]; constructor <;> linarith
  · rw [Int.ceil_eq_iff]; constructor <;> linarith

theorem roundTiesAway_of_gt {q : ℚ} (h : 1 / 2 < q - ⌊q⌋) : roundTiesAway q = ⌊q⌋ + 1 := by
  have h2 := Int.lt_floor_add_one q
  unfold roundTiesAway
  split
  · rw [Int.floor_eq_iff]; push_cast; constructor <;> linarith
  · rw [Int.ceil_eq_iff]; push_cast; constructor <;> linarith

theorem roundTiesAway_of_tie {q : ℚ} (h : IsTie q) :
    roundTiesAway q = if 0 ≤ q then ⌊q⌋ + 1 else ⌊q⌋ := by
  have h : q - ⌊q⌋ = 1 / 2 := h
  unfold roundTiesAway
  split
  · rw [Int.floor_eq_iff]; push_cast; constructor <;> linarith
  · rw [Int.ceil_eq_iff]; constructor <;> linarith

theorem roundTiesEven_of_tie {q : ℚ} (h : IsTie q) :
    roundTiesEven q = if ⌊q⌋ % 2 = 0 then ⌊q⌋ else ⌊q⌋ + 1 := by
  have h : q - ⌊q⌋ = 1 / 2 := h
  rw [roundTiesEven, if_neg (by linarith), if_neg (by linarith)]

theorem roundTrunc_of_tie {q : ℚ} (h : IsTie q) :
    roundTrunc q = if 0 ≤ q then ⌊q⌋ else ⌊q⌋ + 1 := by
  have h : q - ⌊q⌋ = 1 / 2 := h
  unfold roundTrunc
  split
  · rfl
  · rw [Int.ceil_eq_iff]; push_cast; constructor <;> linarith

/-- The two nearest roundings differ exactly on ties with an even integer part. -/
theorem roundTiesEven_eq_roundTiesAway_iff (q : ℚ) :
    roundTiesEven q = roundTiesAway q ↔ ¬ (IsTie q ∧ roundTrunc q % 2 = 0) := by
  rcases lt_trichotomy (q - ⌊q⌋) (1 / 2) with h | h | h
  · rw [roundTiesAway_of_lt h, roundTiesEven, if_pos h]
    exact ⟨fun _ ht => absurd ht.1 (ne_of_lt h), fun _ => rfl⟩
  · have ht : IsTie q := h
    rw [roundTiesAway_of_tie ht, roundTiesEven_of_tie ht, roundTrunc_of_tie ht]
    by_cases h0 : 0 ≤ q <;> by_cases h2 : ⌊q⌋ % 2 = 0 <;>
      simp [h0, h2, ht] <;> omega
  · rw [roundTiesAway_of_gt h, roundTiesEven, if_neg (not_lt.2 h.le), if_pos h]
    exact ⟨fun _ ht => absurd ht.1 (ne_of_gt h), fun _ => rfl⟩

/-- Rounding to a neighbour keeps a single inside `[-2^b, 2^b)`, `24 ≤ b`, and outside it. -/
theorem round_mem_range_iff {round : ℚ → ℤ} (hint : ∀ n : ℤ, round n = n)
    (hmem : ∀ q, ⌊q⌋ ≤ round q ∧ round q ≤ ⌊q⌋ + 1) (x : BitVec 32) :
    (-2 ^ 31 ≤ round (toRat x) ∧ round (toRat x) ≤ 2 ^ 31 - 1) ↔
      -2 ^ 31 ≤ toRat x ∧ toRat x < 2 ^ 31 := by
  rcases toRat_int_or_abs_lt x with ⟨n, hn⟩ | ⟨hlo, hhi⟩
  · rw [hn, hint]
    constructor
    · rintro ⟨h1, h2⟩
      have h3 : n < 2 ^ 31 := by omega
      exact ⟨by exact_mod_cast h1, by exact_mod_cast h3⟩
    · rintro ⟨h1, h2⟩
      have h3 : n < 2 ^ 31 := by exact_mod_cast h2
      exact ⟨by exact_mod_cast h1, by omega⟩
  · obtain ⟨h1, h2⟩ := hmem (toRat x)
    have hf1 : -2 ^ 24 - 1 < ⌊toRat x⌋ := by
      have : (-2 ^ 24 : ℤ) ≤ ⌊toRat x⌋ := by rw [Int.le_floor]; push_cast; linarith
      omega
    have hf2 : ⌊toRat x⌋ < 2 ^ 24 := by rw [Int.floor_lt]; push_cast; linarith
    refine ⟨fun _ => ⟨by linarith, by linarith⟩, fun _ => ⟨by omega, by omega⟩⟩

end Binary32
