import Mathlib.Data.List.Basic

/-!
# Deterministic machines

A machine is a partial step function. `run step n c` takes at most `n` steps from `c`, and `trace`
lists the states it steps from. An invariant of the steps holds after every run (`run_invariant`), one
that only steps under a guard keep holds after the runs whose steps all meet the guard
(`run_guarded`), and a machine whose every step another one matches by one step or by none is matched
over whole runs (`run_simulates`). The simulation may assume a property of the state after the step
that no step regains, once it holds at the end. A machine that needs several steps for one of another
still gets to a related state (`run_matched`).
-/

namespace Machine

variable {α β : Type*}

def run (step : α → Option α) : Nat → α → α
  | 0, c => c
  | n + 1, c =>
    match step c with
    | none => c
    | some c' => run step n c'

def trace (step : α → Option α) : Nat → α → List α
  | 0, _ => []
  | n + 1, c =>
    match step c with
    | none => []
    | some c' => c :: trace step n c'

/-- Exactly `n` steps. -/
def steps (step : α → Option α) : Nat → α → Option α
  | 0, c => some c
  | n + 1, c => (step c).bind (steps step n)

section
variable {step : α → Option α} {c c' : α}

@[simp] theorem run_zero : run step 0 c = c := rfl

@[simp] theorem trace_zero : trace step 0 c = [] := rfl

theorem run_succ (h : step c = some c') (n : Nat) : run step (n + 1) c = run step n c' := by
  simp only [run, h]

theorem run_of_none (h : step c = none) (n : Nat) : run step n c = c := by
  cases n with
  | zero => rfl
  | succ n => simp only [run, h]

theorem trace_succ (h : step c = some c') (n : Nat) :
    trace step (n + 1) c = c :: trace step n c' := by
  simp only [trace, h]

theorem trace_of_none (h : step c = none) (n : Nat) : trace step n c = [] := by
  cases n with
  | zero => rfl
  | succ n => simp only [trace, h]

/-- An invariant of the steps that meet a guard. -/
theorem run_guarded {P G : α → Prop} (hstep : ∀ c c', P c → G c → step c = some c' → P c') (n : Nat)
    (hP : P c) (hG : ∀ d ∈ trace step n c, G d) : P (run step n c) := by
  induction n generalizing c with
  | zero => exact hP
  | succ n ih =>
    cases h : step c with
    | none => rw [run_of_none h]; exact hP
    | some c' =>
      rw [trace_succ h] at hG
      rw [run_succ h]
      exact ih (hstep c c' hP (hG c List.mem_cons_self) h) fun d hd => hG d (List.mem_cons_of_mem c hd)

theorem run_invariant {P : α → Prop} (hstep : ∀ c c', P c → step c = some c' → P c') (n : Nat)
    (hP : P c) : P (run step n c) :=
  run_guarded (G := fun _ => True) (fun c c' h _ => hstep c c' h) n hP fun _ _ => trivial

/-- What no step regains held all along. -/
theorem of_run {Q : α → Prop} (hback : ∀ c c', step c = some c' → Q c' → Q c) (n : Nat)
    (hQ : Q (run step n c)) : Q c := by
  induction n generalizing c with
  | zero => exact hQ
  | succ n ih =>
    cases h : step c with
    | none => rw [run_of_none h] at hQ; exact hQ
    | some c' =>
      rw [run_succ h] at hQ
      exact hback c c' h (ih hQ)

theorem run_add (m n : Nat) : run step (m + n) c = run step n (run step m c) := by
  induction m generalizing c with
  | zero => rw [Nat.zero_add]; rfl
  | succ m ih =>
    cases h : step c with
    | none => rw [run_of_none h, run_of_none h, run_of_none h]
    | some c' => rw [Nat.add_right_comm, run_succ h, run_succ h, ih]

theorem mem_trace_add {d : α} {m n : Nat} (hd : d ∈ trace step (m + n) c) :
    d ∈ trace step m c ∨ d ∈ trace step n (run step m c) := by
  induction m generalizing c with
  | zero => rw [Nat.zero_add] at hd; exact Or.inr hd
  | succ m ih =>
    cases h : step c with
    | none => rw [trace_of_none h] at hd; cases hd
    | some c' =>
      rw [Nat.add_right_comm, trace_succ h] at hd
      rw [trace_succ h, run_succ h]
      rcases List.mem_cons.1 hd with rfl | hd
      · exact Or.inl List.mem_cons_self
      · rcases ih hd with hd | hd
        · exact Or.inl (List.mem_cons_of_mem c hd)
        · exact Or.inr hd

/-- The second machine matches each step of the first by some steps, from states with a property. -/
theorem run_matched {astep : β → Option β} {R : α → β → Prop} {Q : β → Prop} {b : β}
    (hstep : ∀ c c' b, R c b → step c = some c' →
      ∃ m, R c' (run astep m b) ∧ ∀ d ∈ trace astep m b, Q d)
    (n : Nat) (hR : R c b) : ∃ m, R (run step n c) (run astep m b) ∧ ∀ d ∈ trace astep m b, Q d := by
  induction n generalizing c b with
  | zero => exact ⟨0, hR, fun d hd => absurd hd List.not_mem_nil⟩
  | succ n ih =>
    cases h : step c with
    | none => rw [run_of_none h]; exact ⟨0, hR, fun d hd => absurd hd List.not_mem_nil⟩
    | some c' =>
      rw [run_succ h]
      obtain ⟨m, hm, htrace⟩ := hstep c c' b hR h
      obtain ⟨m', hm', htrace'⟩ := ih hm
      refine ⟨m + m', by rw [run_add]; exact hm', fun d hd => ?_⟩
      rcases mem_trace_add hd with hd | hd
      · exact htrace d hd
      · exact htrace' d hd

/-- The second machine takes one step for each step of the first from a state that `moves`. -/
theorem run_simulates {astep : β → Option β} {P G Q : α → Prop} {moves : α → Bool} {abs : α → β}
    (hback : ∀ c c', step c = some c' → Q c' → Q c)
    (hsim : ∀ c c', P c → G c → Q c' → step c = some c' →
      P c' ∧ if moves c then astep (abs c) = some (abs c') else abs c = abs c')
    (n : Nat) (hP : P c) (hG : ∀ d ∈ trace step n c, G d) (hQ : Q (run step n c)) :
    steps astep ((trace step n c).countP moves) (abs c) = some (abs (run step n c)) := by
  induction n generalizing c with
  | zero => rfl
  | succ n ih =>
    cases h : step c with
    | none =>
      rw [trace_of_none h, run_of_none h]
      rfl
    | some c' =>
      rw [run_succ h] at hQ ⊢
      rw [trace_succ h] at hG ⊢
      obtain ⟨hP', habs⟩ := hsim c c' hP (hG c List.mem_cons_self) (of_run hback n hQ) h
      have ih := ih hP' (fun d hd => hG d (List.mem_cons_of_mem c hd)) hQ
      rw [List.countP_cons]
      cases hm : moves c with
      | false =>
        rw [hm] at habs
        rw [show abs c = abs c' from habs]
        exact ih
      | true =>
        rw [hm] at habs
        show (astep (abs c)).bind _ = _
        rw [show astep (abs c) = some (abs c') from habs]
        exact ih

end

end Machine
