import Mathlib.Data.List.Basic

/-!
# Interleavings

A shared system steps by labelled actions: `step s a` is `none` when the action `a` is not enabled in
`s`. The actions of all parties in the order in which they happen make a run. An invariant of the steps
holds in every state a run reaches (`run_invariant`), and one that only some steps keep in every state that
is reached through such steps alone (`run_guarded`).
-/

namespace Interleaving

variable {σ α : Type*}

/-- The state after the actions, when each of them is enabled in its turn. -/
def run (step : σ → α → Option σ) (s : σ) : List α → Option σ
  | [] => some s
  | a :: as => (step s a).bind fun s' => run step s' as

/-- Every action of the run happens in a state in which it meets the guard. -/
def Guarded (step : σ → α → Option σ) (G : σ → α → Prop) (s : σ) : List α → Prop
  | [] => True
  | a :: as => G s a ∧ ∀ s' ∈ step s a, Guarded step G s' as

instance decidableGuarded (step : σ → α → Option σ) (G : σ → α → Prop) [∀ s a, Decidable (G s a)] :
    ∀ s as, Decidable (Guarded step G s as)
  | _, [] => .isTrue trivial
  | s, a :: as =>
    have := fun s' => decidableGuarded step G s' as
    inferInstanceAs (Decidable (G s a ∧ ∀ s' ∈ step s a, Guarded step G s' as))

section
variable {step : σ → α → Option σ} {s s' : σ} {a : α} {as bs : List α} {P : σ → Prop} {G : σ → α → Prop}

theorem run_cons : run step s (a :: as) = (step s a).bind fun s' => run step s' as := rfl

theorem run_cons_eq_some :
    run step s (a :: as) = some s' ↔ ∃ t, step s a = some t ∧ run step t as = some s' := by
  rw [run_cons, Option.bind_eq_some_iff]

theorem run_append : run step s (as ++ bs) = (run step s as).bind fun s' => run step s' bs := by
  induction as generalizing s with
  | nil => rfl
  | cons a as ih =>
    rw [List.cons_append, run_cons, run_cons, Option.bind_assoc]
    congr 1
    funext t
    exact ih

theorem run_append_eq_some :
    run step s (as ++ bs) = some s' ↔ ∃ t, run step s as = some t ∧ run step t bs = some s' := by
  rw [run_append, Option.bind_eq_some_iff]

/-- An invariant of the steps whose action meets the guard. -/
theorem run_guarded (hstep : ∀ s a s', P s → G s a → step s a = some s' → P s') (hP : P s)
    (hG : Guarded step G s as) (hrun : run step s as = some s') : P s' := by
  induction as generalizing s with
  | nil => exact Option.some.inj hrun ▸ hP
  | cons a as ih =>
    obtain ⟨t, ht, hrun⟩ := run_cons_eq_some.1 hrun
    exact ih (hstep s a t hP hG.1 ht) (hG.2 t ht) hrun

theorem Guarded.of_forall (h : ∀ s a, G s a) : Guarded step G s as := by
  induction as generalizing s with
  | nil => trivial
  | cons a as ih => exact ⟨h s a, fun _ _ => ih⟩

theorem Guarded.of_mem (h : ∀ a ∈ as, ∀ s, G s a) : Guarded step G s as := by
  induction as generalizing s with
  | nil => trivial
  | cons a as ih => exact ⟨h a (by simp) s, fun _ _ => ih fun b hb => h b (List.mem_cons_of_mem _ hb)⟩

theorem run_invariant (hstep : ∀ s a s', P s → step s a = some s' → P s') (hP : P s)
    (hrun : run step s as = some s') : P s' :=
  run_guarded (G := fun _ _ => True) (fun s a s' h _ => hstep s a s' h) hP
    (Guarded.of_forall fun _ _ => trivial) hrun

theorem Guarded.append_left (h : Guarded step G s (as ++ bs)) : Guarded step G s as := by
  induction as generalizing s with
  | nil => trivial
  | cons a as ih => exact ⟨h.1, fun t ht => ih (h.2 t ht)⟩

theorem Guarded.append_right (h : Guarded step G s (as ++ bs)) (hrun : run step s as = some s') :
    Guarded step G s' bs := by
  induction as generalizing s with
  | nil => exact Option.some.inj hrun ▸ h
  | cons a as ih =>
    obtain ⟨t, ht, hrun⟩ := run_cons_eq_some.1 hrun
    exact ih (h.2 t ht) hrun

/-- Actions that each lower a measure. -/
theorem Guarded.length_le {I : σ → Prop} {μ : σ → Nat} (hI : ∀ s a s', I s → G s a → step s a = some s' → I s')
    (hstep : ∀ s a s', I s → G s a → step s a = some s' → μ s' < μ s) (hIs : I s) (h : Guarded step G s as)
    (hrun : run step s as = some s') : as.length + μ s' ≤ μ s := by
  induction as generalizing s with
  | nil => exact Option.some.inj hrun ▸ Nat.le_of_eq (Nat.zero_add _)
  | cons a as ih =>
    obtain ⟨t, ht, hrest⟩ := run_cons_eq_some.1 hrun
    have hlt := hstep s a t hIs h.1 ht
    have hle := ih (hI s a t hIs h.1 ht) (h.2 t ht) hrest
    rw [List.length_cons]
    omega

/-- A run of a system each of whose steps another one follows by the actions `f` makes of it. -/
theorem run_simulated {τ β : Type*} {step' : τ → β → Option τ} {f : α → List β} {R : σ → τ → Prop}
    (hstep : ∀ s a s' t, R s t → step s a = some s' → ∃ t', run step' t (f a) = some t' ∧ R s' t') {t : τ}
    (hR : R s t) (hrun : run step s as = some s') : ∃ t', run step' t (as.flatMap f) = some t' ∧ R s' t' := by
  induction as generalizing s t with
  | nil => exact ⟨t, rfl, Option.some.inj hrun ▸ hR⟩
  | cons a as ih =>
    obtain ⟨u, hu, hrest⟩ := run_cons_eq_some.1 hrun
    obtain ⟨v, hv, huv⟩ := hstep s a u t hR hu
    obtain ⟨t', ht', hR'⟩ := ih huv hrest
    exact ⟨t', by rw [List.flatMap_cons, run_append, hv]; exact ht', hR'⟩

/-- A run is guarded when each of its actions is, in the state that the actions before it reach. -/
theorem guarded_iff (hrun : run step s as = some s') :
    Guarded step G s as ↔ ∀ pre a t, pre ++ [a] <+: as → run step s pre = some t → G t a := by
  constructor
  · rintro h pre a t ⟨rest, rfl⟩ ht
    rw [List.append_assoc] at h
    exact (h.append_right ht).1
  · intro h
    induction as generalizing s with
    | nil => trivial
    | cons a as ih =>
      obtain ⟨t, ht, hrest⟩ := run_cons_eq_some.1 hrun
      refine ⟨h [] a s ⟨as, rfl⟩ rfl, fun t' ht' => ?_⟩
      obtain rfl := Option.some.inj (ht.symm.trans ht')
      refine ih hrest fun pre b u hpre hu => ?_
      exact h (a :: pre) b u ((List.prefix_cons_inj a).2 hpre) (run_cons_eq_some.2 ⟨t, ht, hu⟩)

/-- When a step keeps a property exactly if it meets the guard, a run keeps it all along exactly if all of
its steps do. -/
theorem run_prefixes_iff {I : σ → Prop} (hI : ∀ s a s', I s → step s a = some s' → I s')
    (hstep : ∀ s a s', I s → P s → step s a = some s' → (P s' ↔ G s a)) (hIs : I s) (hP : P s)
    (hrun : run step s as = some s') :
    (∀ pre t, pre <+: as → run step s pre = some t → P t) ↔ Guarded step G s as := by
  induction as generalizing s with
  | nil =>
    refine ⟨fun _ => trivial, fun _ pre t hpre ht => ?_⟩
    rw [List.prefix_nil.1 hpre] at ht
    exact Option.some.inj ht ▸ hP
  | cons a as ih =>
    obtain ⟨t, ht, hrest⟩ := run_cons_eq_some.1 hrun
    have hiff := hstep s a t hIs hP ht
    constructor
    · intro hall
      have hPt : P t := hall [a] t ⟨as, rfl⟩ (run_cons_eq_some.2 ⟨t, ht, rfl⟩)
      refine ⟨hiff.1 hPt, fun t' ht' => ?_⟩
      obtain rfl := Option.some.inj (ht.symm.trans ht')
      refine (ih (hI s a t hIs ht) hPt hrest).1 fun pre u hpre hu => ?_
      exact hall (a :: pre) u ((List.prefix_cons_inj a).2 hpre) (run_cons_eq_some.2 ⟨t, ht, hu⟩)
    · rintro ⟨hG, hGs⟩ pre u hpre hu
      cases pre with
      | nil => exact Option.some.inj hu ▸ hP
      | cons b pre =>
        obtain ⟨rfl, htail⟩ := List.cons_prefix_cons.1 hpre
        obtain ⟨t', ht', hu⟩ := run_cons_eq_some.1 hu
        obtain rfl := Option.some.inj (ht.symm.trans ht')
        exact (ih (hI s b t hIs ht) (hiff.2 hG) hrest).2 (hGs t ht) pre u htail hu

end

end Interleaving
