import Mathlib.Data.List.Basic

/-!
# Noninterference by unwinding

Some of a machine's actions are those of one party, and a projection says what of a state is the party's. When
the actions of others leave the projection as it is, and those of the party depend on it alone, then the party
is answered what it would be answered if it were alone, however the actions are mixed.
-/

namespace Unwinding

variable {S A O V : Type*}

/-- The answers to the party's actions in a run. -/
def answers (step : S → A → S × O) (mine : A → Bool) : S → List A → List O
  | _, [] => []
  | s, a :: as =>
    if mine a then (step s a).2 :: answers step mine (step s a).1 as else answers step mine (step s a).1 as

/-- Every action is allowed where it is taken. -/
def Allowed (step : S → A → S × O) (allowed : S → A → Prop) : S → List A → Prop
  | _, [] => True
  | s, a :: as => allowed s a ∧ Allowed step allowed (step s a).1 as

theorem Allowed.and {step : S → A → S × O} {p q : S → A → Prop} {s : S} {as : List A} (hp : Allowed step p s as)
    (hq : Allowed step q s as) : Allowed step (fun s a => p s a ∧ q s a) s as := by
  induction as generalizing s with
  | nil => trivial
  | cons a as ih => exact ⟨⟨hp.1, hq.1⟩, ih hp.2 hq.2⟩

/-- The conditions on single actions, in the states of an invariant. -/
structure Unwinds (step : S → A → S × O) (mine : A → Bool) (project : S → V) (inv : S → Prop)
    (allowed : S → A → Prop) : Prop where
  keeps : ∀ {s a}, inv s → allowed s a → inv (step s a).1
  always : ∀ {s a}, mine a → allowed s a
  respects : ∀ {s a}, inv s → allowed s a → ¬ mine a → project (step s a).1 = project s
  consistent : ∀ {s t a}, inv s → inv t → mine a → project s = project t →
    (step s a).2 = (step t a).2 ∧ project (step s a).1 = project (step t a).1

variable {step : S → A → S × O} {mine : A → Bool} {project : S → V} {inv : S → Prop} {allowed : S → A → Prop}

/-- The same from two states that are the same to the party. -/
theorem Unwinds.answers_filter_of_eq (h : Unwinds step mine project inv allowed) {s t : S} (hs : inv s) (ht : inv t)
    (hproject : project s = project t) {as : List A} (has : Allowed step allowed s as) :
    answers step mine s as = answers step mine t (as.filter mine) := by
  induction as generalizing s t with
  | nil => rfl
  | cons a as ih =>
    obtain ⟨ha, has⟩ := has
    by_cases hmine : mine a
    · obtain ⟨hanswer, hnext⟩ := h.consistent hs ht hmine hproject
      rw [List.filter_cons_of_pos hmine, answers, answers, if_pos hmine, if_pos hmine, hanswer]
      rw [ih (h.keeps hs ha) (h.keeps ht (h.always hmine)) hnext has]
    · rw [List.filter_cons_of_neg hmine, answers, if_neg hmine]
      exact ih (h.keeps hs ha) ht ((h.respects hs ha hmine).trans hproject) has

/-- The party is answered what it is answered when it is alone. -/
theorem Unwinds.answers_filter (h : Unwinds step mine project inv allowed) {s : S} (hs : inv s) {as : List A}
    (has : Allowed step allowed s as) : answers step mine s as = answers step mine s (as.filter mine) :=
  h.answers_filter_of_eq hs hs rfl has

end Unwinding
