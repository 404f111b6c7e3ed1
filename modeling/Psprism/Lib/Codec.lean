import Mathlib.Data.Nat.Bitwise
import Mathlib.Data.BitVec

/-!
# Byte-stream codecs

Three general pieces for reading back what a delta encoder wrote: the zigzag map between integers
and naturals, the little-endian base-128 numbers (seven payload bits a byte, continuation bit on
every byte but the last), and the synchronisation argument for a stateful encoder and decoder.
A decoder state `Yields` a list when it produces exactly those items and then is exhausted; an
encoder whose step the decoder undoes from every synchronised pair of states yields its input.
-/

namespace Codec

/-! ### Zigzag -/

/-- Non-negative integers to even numbers, negative ones to odd numbers. -/
def zigzag (d : Int) : Nat :=
  if 0 ≤ d then d.toNat * 2 else (-(d + 1)).toNat * 2 + 1

/-- The integer behind a zigzag code. -/
def unzigzag (n : Nat) : Int :=
  if n % 2 = 1 then -((n / 2 : Nat) + 1 : Int) else (n / 2 : Nat)

theorem unzigzag_zigzag (d : Int) : unzigzag (zigzag d) = d := by
  rcases lt_or_ge d 0 with h | h
  · have hz : zigzag d = (-(d + 1)).toNat * 2 + 1 := if_neg (Int.not_le.2 h)
    rw [hz, unzigzag, if_pos (by omega)]; omega
  · have hz : zigzag d = d.toNat * 2 := if_pos h
    rw [hz, unzigzag, if_neg (by omega)]; omega

/-- A difference of two `b`-bit numbers has a zigzag code of `b + 1` bits. -/
theorem zigzag_lt {d : Int} {b : Nat} (hlo : -(2 ^ b : Nat) ≤ d) (hhi : d < (2 ^ b : Nat)) :
    zigzag d < 2 ^ (b + 1) := by
  have hp : 2 ^ (b + 1) = 2 ^ b * 2 := Nat.pow_succ ..
  unfold zigzag
  split <;> omega

/-! ### Base-128 numbers -/

/-- Seven bits a byte, lowest first, with bit 7 set on every byte but the last. -/
def varint (n : Nat) : List (BitVec 8) :=
  if n / 128 = 0 then [BitVec.ofNat 8 (n % 128)]
  else (BitVec.ofNat 8 (n % 128) ||| 0x80) :: varint (n / 128)
termination_by n
decreasing_by omega

/-- Reads a base-128 number: `acc` holds the payload below bit `shift`, and no payload is taken at
a shift of `limit` or more. -/
def readVarint (limit : Nat) : List (BitVec 8) → Nat → Nat → Option (Nat × List (BitVec 8))
  | [], _, _ => none
  | b :: rest, shift, acc =>
    if limit ≤ shift then none
    else
      let acc := acc ||| ((b &&& 0x7f).toNat <<< shift)
      if b &&& 0x80 = 0 then some (acc, rest) else readVarint limit rest (shift + 7) acc

theorem ofNat_and_mask {n : Nat} (h : n < 128) : (BitVec.ofNat 8 n &&& 0x7f).toNat = n := by
  have key : ∀ n : Fin 128, (BitVec.ofNat 8 n.val &&& 0x7f).toNat = n.val := by decide
  exact key ⟨n, h⟩

theorem ofNat_and_flag {n : Nat} (h : n < 128) : BitVec.ofNat 8 n &&& 0x80 = 0 := by
  have key : ∀ n : Fin 128, BitVec.ofNat 8 n.val &&& 0x80 = 0 := by decide
  exact key ⟨n, h⟩

theorem or_flag_and_mask {n : Nat} (h : n < 128) :
    ((BitVec.ofNat 8 n ||| 0x80) &&& 0x7f).toNat = n := by
  have key : ∀ n : Fin 128, ((BitVec.ofNat 8 n.val ||| 0x80) &&& 0x7f).toNat = n.val := by decide
  exact key ⟨n, h⟩

theorem or_flag_and_flag (b : BitVec 8) : ¬ (b ||| 0x80) &&& 0x80 = 0 := by
  revert b; decide

/-- Or-ing a payload in above `shift` bits adds it at that weight. -/
theorem or_shiftLeft {a p s : Nat} (h : a < 2 ^ s) : a ||| (p <<< s) = a + p * 2 ^ s := by
  rw [Nat.or_comm, ← Nat.shiftLeft_add_eq_or_of_lt h, Nat.shiftLeft_eq, Nat.add_comm]

theorem readVarint_varint {limit : Nat} (n : Nat) :
    ∀ (shift acc : Nat) (rest : List (BitVec 8)), acc < 2 ^ shift → shift < limit →
      n * 2 ^ shift < 2 ^ limit →
      readVarint limit (varint n ++ rest) shift acc = some (acc + n * 2 ^ shift, rest) := by
  induction n using Nat.strongRecOn with
  | ind n ih =>
    intro shift acc rest hacc hshift hn
    have hmod : n % 128 < 128 := Nat.mod_lt _ (by decide)
    rw [varint]
    by_cases h : n / 128 = 0
    · have hlow : n % 128 = n := by omega
      rw [if_pos h, hlow]
      simp only [List.cons_append, List.nil_append, readVarint, Nat.not_le.2 hshift, if_false]
      rw [hlow] at hmod
      rw [ofNat_and_mask hmod, ofNat_and_flag hmod, if_pos rfl, or_shiftLeft hacc]
    · rw [if_neg h]
      simp only [List.cons_append, readVarint, Nat.not_le.2 hshift, if_false]
      rw [or_flag_and_mask hmod, if_neg (or_flag_and_flag _), or_shiftLeft hacc]
      have hpow : 2 ^ (shift + 7) = 2 ^ shift * 128 := Nat.pow_add ..
      have hsplit : n * 2 ^ shift = n % 128 * 2 ^ shift + n / 128 * 2 ^ (shift + 7) := by
        rw [hpow, Nat.mul_comm (2 ^ shift) 128, ← Nat.mul_assoc, ← Nat.add_mul]
        congr 1; omega
      have hacc' : acc + n % 128 * 2 ^ shift < 2 ^ (shift + 7) := by
        have : n % 128 * 2 ^ shift ≤ 127 * 2 ^ shift := Nat.mul_le_mul_right _ (by omega)
        omega
      -- the remaining payload is not zero, so the next byte still starts below the limit
      have hnext : shift + 7 < limit := by
        have h1 : 1 * 2 ^ (shift + 7) ≤ n / 128 * 2 ^ (shift + 7) :=
          Nat.mul_le_mul_right _ (Nat.one_le_iff_ne_zero.2 h)
        exact (Nat.pow_lt_pow_iff_right (by decide)).1 (by omega : 2 ^ (shift + 7) < 2 ^ limit)
      rw [ih (n / 128) (by omega) _ _ rest hacc' hnext (by omega), Nat.add_assoc, ← hsplit]

/-! ### Synchronised encoders and decoders -/

/-- The decoder state `s` produces exactly the items `as` and is exhausted after them. -/
def Yields {σ α : Type*} (next : σ → Option (α × σ)) (done : σ → Prop) : σ → List α → Prop
  | s, [] => done s
  | s, a :: as => ∃ s', next s = some (a, s') ∧ Yields next done s' as

/-- All bytes a stateful encoder writes for `as` from the state `e`. -/
def encodeAll {ε α β : Type*} (step : ε → α → List β × ε) : ε → List α → List β
  | _, [] => []
  | e, a :: as => (step e a).1 ++ encodeAll step (step e a).2 as

/-- If the decoder undoes one encoder step from every synchronised pair of states, and the states
stay synchronised, then it yields everything that was encoded. `Sync e rest s` says that the
decoder state `s` has the bytes `rest` ahead of it and agrees with the encoder state `e`. -/
theorem Yields.of_sync {ε α β σ : Type*} {step : ε → α → List β × ε} {next : σ → Option (α × σ)}
    {done : σ → Prop} (Sync : ε → List β → σ → Prop)
    (hstep : ∀ e a rest s, Sync e ((step e a).1 ++ rest) s →
      ∃ s', next s = some (a, s') ∧ Sync (step e a).2 rest s')
    (hdone : ∀ e s, Sync e [] s → done s) :
    ∀ (as : List α) (e : ε) (s : σ), Sync e (encodeAll step e as) s → Yields next done s as
  | [], e, s, h => hdone e s h
  | a :: as, e, s, h => by
    obtain ⟨s', hnext, hsync⟩ := hstep e a _ s h
    exact ⟨s', hnext, Yields.of_sync Sync hstep hdone as _ s' hsync⟩

end Codec
