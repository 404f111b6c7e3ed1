import Mathlib.Data.List.Induction

/-!
# Machines that answer

A step takes a call and gives an answer and the next state. `after step s as` is the state after the calls
`as`, and `answers step s as` lists what they were answered. Two states that a relation kept by the steps
joins answer alike for ever (`answers_eq`); an invariant of the steps holds after every run
(`after_invariant`), and one that exactly the steps under a guard keep holds in all states of exactly the runs
that keep to the guard (`after_guarded_iff`). A step that does not see a part of the state commutes with every
change of it (`Commutes`).
-/

namespace Transducer

variable {σ α β : Type*}

def after (step : σ → α → β × σ) (s : σ) (as : List α) : σ := as.foldl (fun s a => (step s a).2) s

def answers (step : σ → α → β × σ) (s : σ) : List α → List β
  | [] => []
  | a :: as => (step s a).1 :: answers step (step s a).2 as

section
variable {step : σ → α → β × σ} {s t : σ} {a : α} {as bs : List α}

@[simp] theorem after_nil : after step s [] = s := rfl

@[simp] theorem after_cons : after step s (a :: as) = after step (step s a).2 as := rfl

@[simp] theorem answers_nil : answers step s [] = [] := rfl

@[simp] theorem answers_cons : answers step s (a :: as) = (step s a).1 :: answers step (step s a).2 as := rfl

theorem after_append : after step s (as ++ bs) = after step (after step s as) bs := List.foldl_append

/-- An invariant of the steps. -/
theorem after_invariant {P : σ → Prop} (hstep : ∀ s a, P s → P (step s a).2) (h : P s) (as : List α) :
    P (after step s as) := by
  induction as generalizing s with
  | nil => exact h
  | cons a as ih => exact ih (hstep s a h)

/-- What a step keeps exactly when it meets a guard holds all along exactly when all steps meet it. -/
theorem after_guarded_iff {P : σ → Prop} {G : σ → α → Prop} (hstep : ∀ s a, P s → (P (step s a).2 ↔ G s a))
    (h : P s) (as : List α) : (∀ before rest, as = before ++ rest → P (after step s before)) ↔
      ∀ before a rest, as = before ++ a :: rest → G (after step s before) a := by
  refine ⟨fun hall before a rest heq => ?_, fun hall before => ?_⟩
  · refine (hstep _ a (hall before (a :: rest) heq)).1 ?_
    have hnext := hall (before ++ [a]) rest (by rw [heq, List.append_assoc, List.singleton_append])
    rwa [after_append] at hnext
  · induction before using List.reverseRecOn with
    | nil => exact fun _ _ => h
    | append_singleton before a ih =>
      intro rest heq
      rw [List.append_assoc, List.singleton_append] at heq
      rw [after_append]
      exact (hstep _ a (ih _ heq)).2 (hall before a rest heq)

/-- A preorder that the steps climb. -/
theorem rel_after {R : σ → σ → Prop} (hrefl : ∀ s, R s s) (htrans : ∀ {s t u}, R s t → R t u → R s u)
    (hstep : ∀ s a, R s (step s a).2) (s : σ) (as : List α) : R s (after step s as) := by
  induction as generalizing s with
  | nil => exact hrefl s
  | cons a as ih => exact htrans (hstep s a) (ih _)

/-- States that are joined by a relation which the steps keep, and answered alike in each, answer alike. -/
theorem answers_eq {R : σ → σ → Prop} (hanswer : ∀ s t a, R s t → (step s a).1 = (step t a).1)
    (hstep : ∀ s t a, R s t → R (step s a).2 (step t a).2) (h : R s t) (as : List α) :
    answers step s as = answers step t as := by
  induction as generalizing s t with
  | nil => rfl
  | cons a as ih => rw [answers_cons, answers_cons, hanswer s t a h, ih (hstep s t a h)]

end

/-! ### What a step does not see -/

section
variable {γ : Type*}

/-- `f` does not see what `u` changes, and leaves it as it is. -/
def Commutes (u : σ → σ) (f : σ → β × σ) : Prop := ∀ s, f (u s) = ((f s).1, u (f s).2)

namespace Commutes
variable {u t : σ → σ} {f g : σ → β × σ}

theorem pure {b : σ → β} (hb : ∀ s, b (u s) = b s) (ht : ∀ s, t (u s) = u (t s)) : Commutes u fun s => (b s, t s) := by
  intro s
  dsimp only
  rw [hb, ht]

theorem comp (hf : Commutes u f) (ht : ∀ s, t (u s) = u (t s)) : Commutes u fun s => f (t s) := by
  intro s
  dsimp only
  rw [ht, hf]

theorem dep {v : σ → γ} {f : γ → σ → β × σ} (hf : ∀ c, Commutes u (f c)) (hv : ∀ s, v (u s) = v s) :
    Commutes u fun s => f (v s) s := by
  intro s
  dsimp only
  rw [hv, hf]

theorem bind {k : β → σ → γ × σ} (hf : Commutes u f) (hk : ∀ b, Commutes u (k b)) :
    Commutes u fun s => k (f s).1 (f s).2 := by
  intro s
  dsimp only
  rw [hf]
  exact hk _ _

theorem ite {c : σ → Prop} [DecidablePred c] (hf : Commutes u f) (hg : Commutes u g) (hc : ∀ s, c (u s) ↔ c s) :
    Commutes u fun s => if c s then f s else g s := by
  intro s
  by_cases h : c s
  · dsimp only
    rw [if_pos h, if_pos ((hc s).2 h), hf]
  · dsimp only
    rw [if_neg h, if_neg (fun hu => h ((hc s).1 hu)), hg]

/-- A step that goes on by what another one answers. -/
theorem pick {k : σ → Bool × σ} {m : σ → β × σ} (hk : Commutes u k) (hf : Commutes u f) (hg : Commutes u g)
    (hfalse : ∀ s s', k s = (false, s') → m s = f s') (htrue : ∀ s s', k s = (true, s') → m s = g s') :
    Commutes u m := by
  intro s
  have hu := hk s
  cases h : k s with
  | mk ok s' =>
    rw [h] at hu
    cases ok with
    | false => rw [hfalse s s' h, hfalse (u s) (u s') hu, hf]
    | true => rw [htrue s s' h, htrue (u s) (u s') hu, hg]

end Commutes

end

end Transducer
