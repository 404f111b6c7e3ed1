import Mathlib.Logic.Function.Basic

/-!
# Memo tables

A table keeps what was computed, under a key that says all that the result depends on. `x` is what is asked
for and `e` the surroundings, which the key need not cover as long as the table is dropped when they change.
-/

namespace Memo

variable {X E K V : Type*} {key : X → E → K} {compute : X → E → V} {table : K → Option V} {e : E}

/-- Every result in the table is what computing it again would give. -/
def Coherent (key : X → E → K) (compute : X → E → V) (table : K → Option V) (e : E) : Prop :=
  ∀ x v, table (key x e) = some v → v = compute x e

theorem Coherent.empty : Coherent key compute (fun _ => none) e := by
  intro x v h
  cases h

variable [DecidableEq K]

/-- The result from the table, or computed and put there. -/
def fetch (key : X → E → K) (compute : X → E → V) (table : K → Option V) (x : X) (e : E) :
    V × (K → Option V) :=
  match table (key x e) with
  | some v => (v, table)
  | none => (compute x e, Function.update table (key x e) (some (compute x e)))

theorem fetch_fst (h : Coherent key compute table e) (x : X) :
    (fetch key compute table x e).1 = compute x e := by
  unfold fetch
  split
  · next v hv => exact h x v hv
  · rfl

/-- What is computed anew is coherent when the key says all that the result depends on. -/
theorem Coherent.fetch (h : Coherent key compute table e)
    (hkey : ∀ x y, key x e = key y e → compute x e = compute y e) (x : X) :
    Coherent key compute (fetch key compute table x e).2 e := by
  unfold Memo.fetch
  split
  · exact h
  · intro y v hv
    dsimp only at hv
    by_cases hxy : key y e = key x e
    · rw [hxy, Function.update_self] at hv
      rw [← Option.some.inj hv]
      exact (hkey y x hxy).symm
    · rw [Function.update_of_ne hxy] at hv
      exact h y v hv

end Memo
