import Psprism.Reloc

/-!
# What the waiting stubs share

A stub that waits reads its timeout through a register, sleeps on the condition variable of the object it
waits for, and tests its condition again whenever it is woken and a last time when its timeout is over.
The calls asleep on one object are a list, each of them found by its thread. Counts are `int`: a sum that
leaves its range wraps.
-/

namespace Psprism

/-- What a wait reads through its register: no timeout, an address that is not mapped, or microseconds. -/
inductive Timeout
  | forever
  | unmapped
  | after (microseconds : Word)
deriving DecidableEq

def unimplemented : Word := 0x8002013a
def waitTimeout : Word := 0x800201a8

/-- The `int` that a sum or difference of two of them gives. -/
def wrapInt (x : Int) : Int := x.bmod (2 ^ 32)

theorem wrapInt_add (x : Int) (w : Word) : wrapInt (x + w.toInt) = wrapInt (x + w.toNat) := by
  rw [wrapInt, BitVec.toInt_eq_toNat_bmod, Int.add_bmod_bmod, wrapInt]

theorem wrapInt_cases (x : Int) :
    -2 ^ 31 ≤ wrapInt x ∧ wrapInt x < 2 ^ 31 ∧ wrapInt x % 2 ^ 32 = x % 2 ^ 32 := by
  have hlo := Int.le_bmod (x := x) (show 0 < 2 ^ 32 by decide)
  have hhi := Int.bmod_lt (x := x) (show 0 < 2 ^ 32 by decide)
  have hmod := Int.bmod_emod (x := x) (m := 2 ^ 32)
  unfold wrapInt
  omega

section
variable {T ω : Type} [DecidableEq T] {f : ω → T} {l : List ω} {t : T} {w : ω}

/-- The place of a sleeping call, and what is left without it. -/
theorem split_of_find? (hw : l.find? (f · = t) = some w) :
    f w = t ∧ ∃ pre post, l = pre ++ w :: post ∧ l.eraseP (f · = t) = pre ++ post ∧
      (l.map f).erase t = (pre ++ post).map f := by
  have ht : f w = t := by simpa using List.find?_some hw
  obtain ⟨-, pre, post, heq, hpre⟩ := List.find?_eq_some_iff_append.1 hw
  have hpre : ∀ v ∈ pre, f v ≠ t := by simpa using hpre
  refine ⟨ht, pre, post, heq, ?_, ?_⟩
  · rw [heq, List.eraseP_append_right _ (by simpa using hpre), List.eraseP_cons_of_pos (by simpa using ht)]
  · rw [heq, List.map_append, List.erase_append_right _ (by simpa using hpre), List.map_cons, ht,
      List.erase_cons_head, List.map_append]

end

end Psprism
