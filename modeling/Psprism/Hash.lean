import Psprism.Reloc
import Psprism.Lib.Sha2

/-!
# The hasher (`hash.cpp`)

`Sha256` collects bytes in a block of sixty-four and transforms the state each time the block is full. Whatever the
calls of `update` were, the state is the hash value of the whole blocks so far and the block holds the bytes after
them (`Sha256.Holds`), so `finish` gives the digest of all the bytes (`Sha256.finish_foldl_update`).
-/

namespace Psprism

open Sha2 (Registers afterBlocks)

def roundConstants : List Word :=
  [0x428a2f98, 0x71374491, 0xb5c0fbcf, 0xe9b5dba5, 0x3956c25b,
   0x59f111f1, 0x923f82a4, 0xab1c5ed5, 0xd807aa98, 0x12835b01,
   0x243185be, 0x550c7dc3, 0x72be5d74, 0x80deb1fe, 0x9bdc06a7,
   0xc19bf174, 0xe49b69c1, 0xefbe4786, 0x0fc19dc6, 0x240ca1cc,
   0x2de92c6f, 0x4a7484aa, 0x5cb0a9dc, 0x76f988da, 0x983e5152,
   0xa831c66d, 0xb00327c8, 0xbf597fc7, 0xc6e00bf3, 0xd5a79147,
   0x06ca6351, 0x14292967, 0x27b70a85, 0x2e1b2138, 0x4d2c6dfc,
   0x53380d13, 0x650a7354, 0x766a0abb, 0x81c2c92e, 0x92722c85,
   0xa2bfe8a1, 0xa81a664b, 0xc24b8b70, 0xc76c51a3, 0xd192e819,
   0xd6990624, 0xf40e3585, 0x106aa070, 0x19a4c116, 0x1e376c08,
   0x2748774c, 0x34b0bcb5, 0x391c0cb3, 0x4ed8aa4a, 0x5b9cca4f,
   0x682e6ff3, 0x748f82ee, 0x78a5636f, 0x84c87814, 0x8cc70208,
   0x90befffa, 0xa4506ceb, 0xbef9a3f7, 0xc67178f2]

/-- The hasher; `state_[0]` to `state_[7]` are the registers `a` to `h`. -/
structure Sha256 where
  state : Registers :=
    ⟨0x6a09e667, 0xbb67ae85, 0x3c6ef372, 0xa54ff53a, 0x510e527f, 0x9b05688c, 0x1f83d9ab, 0x5be0cd19⟩
  block : Vector Byte 64 := Vector.replicate 64 0
  blockSize : Nat := 0
  totalBytes : BitVec 64 := 0

namespace Sha256

/-! ## The code -/

/-- An array of sixty-four read at an index; the code stays in bounds. -/
def item {w : Nat} (xs : Vector (BitVec w) 64) (index : Nat) : BitVec w := xs.getD index 0

/-- The word that the loop over the block puts at `words[index]`. -/
def blockWord (block : Vector Byte 64) (index : Nat) : Word :=
  let offset := index * 4
  ((item block offset).setWidth 32 <<< 24) ||| ((item block (offset + 1)).setWidth 32 <<< 16) |||
    ((item block (offset + 2)).setWidth 32 <<< 8) ||| (item block (offset + 3)).setWidth 32

/-- The word that the next loop puts at `words[index]`. -/
def scheduleWord (words : Vector Word 64) (index : Nat) : Word :=
  let first := (item words (index - 15)).rotateRight 7 ^^^ (item words (index - 15)).rotateRight 18 ^^^
    (item words (index - 15) >>> (3 : Nat))
  let second := (item words (index - 2)).rotateRight 17 ^^^ (item words (index - 2)).rotateRight 19 ^^^
    (item words (index - 2) >>> (10 : Nat))
  item words (index - 16) + first + item words (index - 7) + second

def words (block : Vector Byte 64) : Vector Word 64 :=
  let words := (List.range 16).foldl (fun words index => words.setIfInBounds index (blockWord block index))
    (Vector.replicate 64 0)
  (List.range' 16 48).foldl (fun words index => words.setIfInBounds index (scheduleWord words index)) words

/-- One pass of the loop over `words` on the eight local variables. -/
def mixWord (words : Vector Word 64) (r : Registers) (index : Nat) : Registers :=
  let sumOne := r.e.rotateRight 6 ^^^ r.e.rotateRight 11 ^^^ r.e.rotateRight 25
  let choice := (r.e &&& r.f) ^^^ (~~~r.e &&& r.g)
  let temporaryOne := r.h + sumOne + choice + roundConstants.getD index 0 + item words index
  let sumZero := r.a.rotateRight 2 ^^^ r.a.rotateRight 13 ^^^ r.a.rotateRight 22
  let majority := (r.a &&& r.b) ^^^ (r.a &&& r.c) ^^^ (r.b &&& r.c)
  let temporaryTwo := sumZero + majority
  { h := r.g, g := r.f, f := r.e, e := r.d + temporaryOne, d := r.c, c := r.b, b := r.a,
    a := temporaryOne + temporaryTwo }

def transform (hash : Sha256) : Sha256 :=
  let r := (List.range 64).foldl (mixWord (words hash.block)) hash.state
  { hash with state := hash.state.add r }

/-- `block_[block_size_++] = byte`. -/
def pushByte (hash : Sha256) (byte : Byte) : Sha256 :=
  { hash with block := hash.block.setIfInBounds hash.blockSize byte, blockSize := hash.blockSize + 1 }

def updateByte (hash : Sha256) (byte : Byte) : Sha256 :=
  let hash := hash.pushByte byte
  if hash.blockSize = 64 then { hash.transform with blockSize := 0 } else hash

def update (hash : Sha256) (bytes : List Byte) : Sha256 :=
  bytes.foldl updateByte { hash with totalBytes := hash.totalBytes + BitVec.ofNat 64 bytes.length }

/-- `while (block_size_ < size) block_[block_size_++] = 0U`. -/
def fillZeros (hash : Sha256) (size : Nat) : Sha256 :=
  (List.replicate (size - hash.blockSize) 0).foldl pushByte hash

/-- The length, written from the end of the block. -/
def putBitCount (block : Vector Byte 64) (bitCount : BitVec 64) : Vector Byte 64 :=
  (List.range 8).foldl
    (fun block index => block.setIfInBounds (63 - index) ((bitCount >>> (index * 8)).setWidth 8)) block

def finish (hash : Sha256) : List Byte :=
  let bitCount := hash.totalBytes * 8
  let hash := hash.pushByte 0x80
  let hash :=
    if hash.blockSize > 56 then { (hash.fillZeros 64).transform with blockSize := 0 } else hash
  let hash := hash.fillZeros 56
  let hash := { hash with block := putBitCount hash.block bitCount }
  let hash := hash.transform
  hash.state.words.flatMap fun word : Word => (List.range 4).map fun byte => (word >>> ((3 - byte) * 8)).setWidth 8

/-! ## Its constants -/

theorem roundConstants_eq (t : Nat) (h : t < 64) : roundConstants.getD t 0 = Sha2.K t := by
  have hall : ∀ t < 64, roundConstants.getD t 0 = Sha2.K t := by
    simp only [Sha2.K, Sha2.primes_eq]
    decide +kernel
  exact hall t h

theorem state_new : ({} : Sha256).state = Sha2.initial := by decide +kernel

/-! ## One block -/

theorem item_set {w : Nat} (xs : Vector (BitVec w) 64) {i : Nat} (h : i < 64) (v : BitVec w) (j : Nat) :
    item (xs.setIfInBounds i v) j = if j = i then v else item xs j := by
  simp only [item, Vector.getD, Vector.toArray_setIfInBounds, Array.getD_eq_getD_getElem?,
    Array.getElem?_setIfInBounds, Vector.size_toArray]
  grind

/-- A loop that writes an array from the start. -/
theorem item_fill {w : Nat} (xs : Vector (BitVec w) 64) (f : Nat → BitVec w) {count : Nat} (h : count ≤ 64)
    (j : Nat) :
    item ((List.range count).foldl (fun xs i => xs.setIfInBounds i (f i)) xs) j =
      if j < count then f j else item xs j := by
  induction count with
  | zero => rfl
  | succ count ih =>
    rw [List.range_succ, List.foldl_append, List.foldl_cons, List.foldl_nil, item_set _ (by omega), ih (by omega)]
    grind

/-- The loop of `words` makes the message schedule. -/
theorem item_schedule (words : Vector Word 64) {count : Nat} (h : count ≤ 48) :
    ∀ t < 16 + count,
      item ((List.range' 16 count).foldl (fun words i => words.setIfInBounds i (scheduleWord words i)) words) t =
        Sha2.schedule (item words) t := by
  induction count with
  | zero => intro t ht; rw [Sha2.schedule_lt ht]; rfl
  | succ count ih =>
    intro t ht
    rw [List.range'_1_concat, List.foldl_append, List.foldl_cons, List.foldl_nil, item_set _ (by omega)]
    split
    next heq =>
      have hge : 16 ≤ t := by omega
      rw [← heq, scheduleWord, ih (by omega) _ (by omega), ih (by omega) _ (by omega), ih (by omega) _ (by omega),
        ih (by omega) _ (by omega), Sha2.schedule_ge hge]
      simp only [Sha2.smallSigma0, Sha2.smallSigma1]
      ac_rfl
    next hne => exact ih (by omega) t (by omega)

theorem item_words (block : Vector Byte 64) {t : Nat} (h : t < 64) :
    item (words block) t = Sha2.schedule (blockWord block) t := by
  rw [words, item_schedule _ (Nat.le_refl 48) t (by omega)]
  refine Sha2.schedule_congr (fun i hi => ?_) t
  rw [item_fill _ _ (by omega), if_pos hi]

theorem mixWord_eq (words : Vector Word 64) (r : Registers) {t : Nat} (h : t < 64) :
    mixWord words r t = Sha2.round (Sha2.K t) (item words t) r := by
  simp only [mixWord, roundConstants_eq t h]
  rfl

theorem transform_state (hash : Sha256) :
    hash.transform.state = Sha2.compress (blockWord hash.block) hash.state := by
  have hrounds : (List.range 64).foldl (mixWord (words hash.block)) hash.state =
      Sha2.rounds (blockWord hash.block) hash.state := by
    refine List.foldl_ext _ _ _ fun r t ht => ?_
    have ht : t < 64 := List.mem_range.mp ht
    rw [mixWord_eq _ _ ht, item_words _ ht]
  simp only [transform, hrounds, Sha2.compress, Registers.add_comm]

/-- A big-endian word is its bytes side by side. -/
theorem blockWord_eq (block : Vector Byte 64) (t : Nat) :
    blockWord block t =
      item block (4 * t) ++ item block (4 * t + 1) ++ item block (4 * t + 2) ++ item block (4 * t + 3) := by
  simp only [blockWord, Nat.mul_comm t]
  ext i hi
  simp
  grind

/-! ## Runs -/

/-- The state is the hash value of the first `n` blocks of `m`, and the block holds the bytes of `m` after them. -/
structure Filled (hash : Sha256) (m : List Byte) (n : Nat) : Prop where
  length : m.length = 64 * n + hash.blockSize
  state : hash.state = afterBlocks m n
  bytes : ∀ i < hash.blockSize, item hash.block i = m.getD (64 * n + i) 0

namespace Filled
variable {hash : Sha256} {m : List Byte} {n : Nat}

theorem new : Filled {} [] 0 := ⟨rfl, state_new, by intro i hi; simp at hi⟩

theorem pushByte (h : Filled hash m n) (hroom : hash.blockSize < 64) (byte : Byte) :
    Filled (hash.pushByte byte) (m ++ [byte]) n where
  length := by simp [Sha256.pushByte, h.length]; omega
  state := by rw [Sha2.afterBlocks_append (by rw [h.length]; omega)]; exact h.state
  bytes := by
    intro i hi
    simp only [Sha256.pushByte] at hi ⊢
    rw [item_set _ hroom]
    split
    next heq => rw [heq, ← h.length]; simp
    next hne =>
      rw [Sha2.getD_append_of_lt (by rw [h.length]; omega)]
      exact h.bytes i (by omega)

theorem pushBytes {bytes : List Byte} (h : Filled hash m n) (hroom : hash.blockSize + bytes.length ≤ 64) :
    Filled (bytes.foldl Sha256.pushByte hash) (m ++ bytes) n := by
  induction bytes generalizing hash m with
  | nil => simpa using h
  | cons byte bytes ih =>
    rw [List.length_cons] at hroom
    have hrest : (hash.pushByte byte).blockSize + bytes.length ≤ 64 := by simp [Sha256.pushByte]; omega
    simpa using ih (h.pushByte (by omega) byte) hrest

/-- The words of a full block are those of the next block of the message. -/
theorem transform_state (h : Filled hash m n) (hfull : hash.blockSize = 64) :
    hash.transform.state = afterBlocks m (n + 1) := by
  rw [Sha256.transform_state, h.state, afterBlocks]
  refine Sha2.compress_congr (fun t ht => ?_) _
  rw [blockWord_eq, Sha2.block, h.bytes _ (by omega), h.bytes _ (by omega), h.bytes _ (by omega),
    h.bytes _ (by omega)]
  simp only [Nat.add_assoc]

theorem transform (h : Filled hash m n) (hfull : hash.blockSize = 64) :
    Filled { hash.transform with blockSize := 0 } m (n + 1) where
  length := by rw [h.length, hfull]; rfl
  state := h.transform_state hfull
  bytes := by intro i hi; simp at hi

end Filled

theorem blockSize_pushBytes (bytes : List Byte) (hash : Sha256) :
    (bytes.foldl pushByte hash).blockSize = hash.blockSize + bytes.length := by
  induction bytes generalizing hash with
  | nil => rfl
  | cons byte bytes ih => rw [List.foldl_cons, ih, List.length_cons]; simp [pushByte]; omega

theorem updateByte_filled {hash : Sha256} {m : List Byte} (h : Filled hash m (m.length / 64)) (byte : Byte) :
    Filled (hash.updateByte byte) (m ++ [byte]) ((m ++ [byte]).length / 64) := by
  have hsize := h.length
  have hpush := h.pushByte (by omega) byte
  have hlength := hpush.length
  simp only [updateByte]
  split
  next hfull =>
    rw [show (m ++ [byte]).length / 64 = m.length / 64 + 1 by omega]
    exact hpush.transform hfull
  next hfull =>
    have : (hash.pushByte byte).blockSize = hash.blockSize + 1 := rfl
    rw [show (m ++ [byte]).length / 64 = m.length / 64 by omega]
    exact hpush

/-- What a run of `update` keeps: `m` are the bytes so far. -/
structure Holds (hash : Sha256) (m : List Byte) : Prop where
  filled : Filled hash m (m.length / 64)
  total : hash.totalBytes = BitVec.ofNat 64 m.length

namespace Holds
variable {hash : Sha256} {m : List Byte}

theorem new : Holds {} [] := ⟨Filled.new, rfl⟩

theorem updateBytes (h : Filled hash m (m.length / 64)) (bytes : List Byte) :
    Filled (bytes.foldl updateByte hash) (m ++ bytes) ((m ++ bytes).length / 64) := by
  induction bytes generalizing hash m with
  | nil => simpa using h
  | cons byte bytes ih => simpa using ih (updateByte_filled h byte)

theorem withState_totalBytes (hash : Sha256) (state : Registers) :
    ({ hash with state := state } : Sha256).totalBytes = hash.totalBytes := rfl

theorem transform_totalBytes (hash : Sha256) : hash.transform.totalBytes = hash.totalBytes :=
  withState_totalBytes hash _

theorem updateByte_totalBytes (byte : Byte) (hash : Sha256) :
    (hash.updateByte byte).totalBytes = hash.totalBytes := by
  have hpush : (hash.pushByte byte).totalBytes = hash.totalBytes := rfl
  simp only [updateByte]
  split
  · exact (transform_totalBytes _).trans hpush
  · exact hpush

theorem totalBytes_updateBytes (bytes : List Byte) (hash : Sha256) :
    (bytes.foldl updateByte hash).totalBytes = hash.totalBytes := by
  induction bytes generalizing hash with
  | nil => rfl
  | cons byte bytes ih => exact (ih _).trans (updateByte_totalBytes byte hash)

theorem update (h : Holds hash m) (bytes : List Byte) : Holds (hash.update bytes) (m ++ bytes) where
  filled := by
    have hcount : Filled { hash with totalBytes := hash.totalBytes + BitVec.ofNat 64 bytes.length } m _ :=
      ⟨h.filled.length, h.filled.state, h.filled.bytes⟩
    exact updateBytes hcount bytes
  total := by
    rw [Sha256.update, totalBytes_updateBytes, List.length_append, BitVec.ofNat_add, h.total]

theorem updates (h : Holds hash m) (chunks : List (List Byte)) :
    Holds (chunks.foldl Sha256.update hash) (m ++ chunks.flatten) := by
  induction chunks generalizing hash m with
  | nil => simpa using h
  | cons chunk chunks ih => simpa using ih (h.update chunk)

end Holds

/-! ## The end of a message -/

theorem Filled.fillZeros {hash : Sha256} {m : List Byte} {n size : Nat} (h : Filled hash m n)
    (hroom : hash.blockSize ≤ 64) (hsize : size ≤ 64) :
    Filled (hash.fillZeros size) (m ++ List.replicate (size - hash.blockSize) 0) n := by
  refine h.pushBytes ?_
  rw [List.length_replicate]
  omega

theorem blockSize_fillZeros {hash : Sha256} {size : Nat} (h : hash.blockSize ≤ size) :
    (hash.fillZeros size).blockSize = size := by
  rw [fillZeros, blockSize_pushBytes, List.length_replicate]
  omega

theorem item_putBitCount (block : Vector Byte 64) (bitCount : BitVec 64) {i : Nat} (h : i < 64) :
    item (putBitCount block bitCount) i =
      if 56 ≤ i then (bitCount >>> ((63 - i) * 8)).setWidth 8 else item block i := by
  have hcount (count : Nat) (hc : count ≤ 8) :
      item ((List.range count).foldl
        (fun block index => block.setIfInBounds (63 - index) ((bitCount >>> (index * 8)).setWidth 8)) block) i =
        if 64 - count ≤ i then (bitCount >>> ((63 - i) * 8)).setWidth 8 else item block i := by
    induction count with
    | zero => rw [if_neg (by omega)]; rfl
    | succ count ih =>
      rw [List.range_succ, List.foldl_append, List.foldl_cons, List.foldl_nil, item_set _ (by omega), ih (by omega)]
      grind
  exact hcount 8 (Nat.le_refl 8)

/-- The last block once the length is written. -/
theorem Filled.putBitCount {hash : Sha256} {m : List Byte} {n : Nat} (h : Filled hash m n)
    (hsize : hash.blockSize = 56) (bitCount : BitVec 64) :
    Filled { hash with block := Sha256.putBitCount hash.block bitCount, blockSize := 64 }
      (m ++ Sha2.bytesBE 8 bitCount) n where
  length := by simp [Sha2.length_bytesBE, h.length, hsize]
  state := by rw [Sha2.afterBlocks_append (by rw [h.length]; omega)]; exact h.state
  bytes := by
    intro i hi
    simp only at hi ⊢
    have hlength := h.length
    rw [item_putBitCount _ _ hi]
    split
    next hend =>
      have hindex : 64 * n + i = m.length + (i - 56) := by omega
      rw [hindex, Nat.mul_comm, List.getD, List.getElem?_append_right (by omega)]
      simp [Sha2.bytesBE, show i - 56 < 8 by omega, show 7 - (i - 56) = 63 - i by omega]
    next hend =>
      rw [Sha2.getD_append_of_lt (by omega)]
      exact h.bytes i (by omega)

/-- The hasher when the length is to be written. -/
def padded (hash : Sha256) : Sha256 :=
  let hash := hash.pushByte 0x80
  let hash :=
    if hash.blockSize > 56 then { (hash.fillZeros 64).transform with blockSize := 0 } else hash
  hash.fillZeros 56

theorem finish_eq (hash : Sha256) :
    hash.finish =
      (({ hash.padded with block := putBitCount hash.padded.block (hash.totalBytes * 8) } : Sha256).transform
        |>.state.words.flatMap (Sha2.bytesBE 4)) := by
  rfl

theorem Filled.padded {hash : Sha256} {m : List Byte} (h : Filled hash m (m.length / 64)) :
    ∃ n, Filled hash.padded (m ++ 0x80 :: List.replicate ((Sha2.zeroBits (8 * m.length) - 7) / 8) 0) n ∧
      hash.padded.blockSize = 56 := by
  have hlength := h.length
  have hpush := h.pushByte (by omega) 0x80
  have hsize : (hash.pushByte 0x80).blockSize = hash.blockSize + 1 := rfl
  have hmessage (z : Nat) : m ++ [0x80] ++ List.replicate z 0 = m ++ 0x80 :: List.replicate z 0 := by simp
  simp only [Sha256.padded]
  split
  next hlong =>
    have hfill := hpush.fillZeros (by omega) (Nat.le_refl 64)
    have hnext := hfill.transform (blockSize_fillZeros (by omega))
    refine ⟨m.length / 64 + 1, ?_, blockSize_fillZeros (by simp)⟩
    convert hnext.fillZeros (by simp) (show 56 ≤ 64 by omega) using 1
    rw [List.append_assoc _ _ (List.replicate _ _), List.replicate_append_replicate, hmessage]
    congr 3
    unfold Sha2.zeroBits
    simp only
    omega
  next hshort =>
    refine ⟨m.length / 64, ?_, blockSize_fillZeros (by omega)⟩
    convert hpush.fillZeros (by omega) (show 56 ≤ 64 by omega) using 1
    rw [hmessage]
    congr 3
    unfold Sha2.zeroBits
    omega

/-- Any split of a message into calls of `update` gives its SHA-256. -/
theorem finish_foldl_update (chunks : List (List Byte)) :
    (chunks.foldl update {}).finish = Sha2.digest chunks.flatten := by
  have h : Holds (chunks.foldl update {}) chunks.flatten := by simpa using Holds.new.updates chunks
  generalize chunks.foldl update {} = hash at h
  generalize chunks.flatten = m at h
  obtain ⟨n, hpad, hsize⟩ := h.filled.padded
  have hlast := hpad.putBitCount hsize (BitVec.ofNat 64 (8 * m.length))
  have htotal : hash.totalBytes * 8 = BitVec.ofNat 64 (8 * m.length) := by
    rw [h.total, Nat.mul_comm, BitVec.ofNat_mul, BitVec.ofNat_eq_ofNat]
  have hblocks : (m ++ Sha2.padding m.length).length / 64 = n + 1 := by
    have hlength := hlast.length
    simp [Sha2.padding] at hlength ⊢
    omega
  rw [finish_eq, htotal, Sha2.digest, hblocks]
  have hstate := hlast.transform_state rfl
  rw [Sha256.transform_state] at hstate ⊢
  simp only [hstate, Sha2.padding, List.append_assoc, List.cons_append]

end Sha256

end Psprism
