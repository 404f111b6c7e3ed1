import Mathlib.Logic.Function.Basic

/-!
# Overwriting a store in some places

An edit gives the places it overwrites their new values. What reads or writes other places does not notice it.
-/

namespace Overlay

variable {A V : Type*}

def overlay (e : A → Option V) (f : A → V) : A → V := fun a => (e a).getD (f a)

/-- The edit that makes two edits, one after the other. -/
def andThen (first second : A → Option V) : A → Option V := fun a => (second a).or (first a)

variable {e e₁ e₂ : A → Option V} {f g : A → V} {a : A}

theorem overlay_of_none (h : e a = none) : overlay e f a = f a := by
  rw [overlay, h, Option.getD_none]

@[simp] theorem overlay_none : overlay (fun _ => none) f = f := rfl

@[simp] theorem overlay_andThen : overlay (andThen e₁ e₂) f = overlay e₂ (overlay e₁ f) := by
  funext a
  unfold overlay andThen
  cases e₂ a <;> rfl

end Overlay
