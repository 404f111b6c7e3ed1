import Mathlib.Logic.Function.Basic
import Psprism.Semaphore

/-!
# Bounds of semaphore counts (`sceKernelCreateSema.cpp`, `sceKernelSignalSema.cpp`)

All semaphores of a run, by their uid. A wait checks what it requests against the maximum, and a poll against the
count; a create and a signal check nothing. So the counts stay between zero and the maximum, and the sums of the signals
stay `int`s, exactly as long as creates and signals are given arguments that keep them there.
-/

namespace Psprism
open Interleaving

structure Semaphores (T : Type) where
  semaphores : Int → Option (SemaRun T) := fun _ => none
  nextUid : Int := 0x100
  /-- The sums that signals have formed, before they wrap. -/
  sums : List Int := []

inductive SemaCall (T : Type)
  | create (count maximum : Word)
  /-- Any of the other calls, or a sleeper's test, on a semaphore. -/
  | act (uid : Int) (a : SemaAction T)

namespace Semaphores
variable {T : Type} [DecidableEq T]

/-- `sceKernelCreateSema`. -/
def create (s : Semaphores T) (count maximum : Word) : Semaphores T :=
  { s with
    semaphores := Function.update s.semaphores s.nextUid (some (SemaRun.create count maximum))
    nextUid := s.nextUid + 1 }

/-- The sums of an action: a signal's. -/
def sumsOf (r : SemaRun T) : SemaAction T → List Int
  | .signal _ amount => [r.sema.count + amount.toInt]
  | _ => []

/-- A call on a semaphore that is not there changes nothing. -/
def step (s : Semaphores T) : SemaCall T → Option (Semaphores T)
  | .create count maximum => some (s.create count maximum)
  | .act uid a =>
    match s.semaphores uid with
    | none => some s
    | some r => (r.step a).map fun r' =>
      { s with semaphores := Function.update s.semaphores uid (some r'), sums := sumsOf r a ++ s.sums }

/-- Every count is between zero and its maximum, and no sum has left `int`. -/
def Bounded (s : Semaphores T) : Prop :=
  (∀ uid r, s.semaphores uid = some r → 0 ≤ r.sema.count ∧ r.sema.count ≤ r.sema.maximum) ∧
    ∀ x ∈ s.sums, -2 ^ 31 ≤ x ∧ x < 2 ^ 31

/-- The arguments of a create are in order, and a signal leaves a count that is an `int` and not negative. -/
def Meets (s : Semaphores T) : SemaCall T → Prop
  | .create count maximum => 0 ≤ count.toInt ∧ count.toInt ≤ maximum.toInt
  | .act uid (.signal t amount) => ∀ r, s.semaphores uid = some r → ¬ r.Blocked t →
      0 ≤ r.sema.count + amount.toInt ∧ r.sema.count + amount.toInt < 2 ^ 31
  | _ => True

/-! ### One semaphore -/

section
variable {r r' : SemaRun T} {maximum initial : Int}

/-- The sum of a signal, cut off at the maximum, is in range just when it is a count. -/
theorem signalled_bounded {maximum count : Int} (amount : Word) (hcount : 0 ≤ count) (hmaximum : count ≤ maximum)
    (hint : maximum < 2 ^ 31) :
    (0 ≤ Semaphore.signalled maximum count amount.toInt ∧
        Semaphore.signalled maximum count amount.toInt ≤ maximum) ↔
      0 ≤ count + amount.toInt ∧ count + amount.toInt < 2 ^ 31 := by
  obtain ⟨hlo, hhi, hmod⟩ := wrapInt_cases (count + amount.toInt)
  have hamount := amount.le_toInt
  have hamount' := amount.toInt_lt
  unfold Semaphore.signalled
  omega

theorem step_maximum (hinv : SemaRun.Inv maximum initial r) {a : SemaAction T} (hstep : r.step a = some r') :
    r'.sema.maximum = r.sema.maximum :=
  (hinv.step hstep).bound.trans hinv.bound.symm

/-- Waits and polls take no more than there is. -/
theorem step_bounded (hinv : SemaRun.Inv maximum initial r) {a : SemaAction T} (hstep : r.step a = some r')
    (hsignal : ∀ t amount, a ≠ .signal t amount) (hcount : 0 ≤ r.sema.count) (hmaximum : r.sema.count ≤ r.sema.maximum) :
    0 ≤ r'.sema.count ∧ r'.sema.count ≤ r'.sema.maximum := by
  have hresume : ∀ {t w} (expired : Prop) [Decidable expired], r.asleep.find? (·.thread = t) = some w →
      0 ≤ (r.resume w expired).sema.count ∧ (r.resume w expired).sema.count ≤ r.sema.maximum := by
    intro t w expired _ hw
    have hpositive := hinv.positive w (List.mem_of_find?_eq_some hw)
    unfold SemaRun.resume
    dsimp only
    split_ifs with havailable
    · have hleft := havailable.2
      simp only [Semaphore.removeWaiter]
      omega
    · exact ⟨hcount, hmaximum⟩
    · exact ⟨hcount, hmaximum⟩
  rw [step_maximum hinv hstep]
  cases a with
  | signal t amount => exact absurd rfl (hsignal t amount)
  | wait t requested timeout =>
    obtain ⟨-, ⟨⟩⟩ := Option.ite_none_left_eq_some.1 hstep
    unfold SemaRun.wait
    dsimp only
    split_ifs with herror hqueue
    · exact ⟨hcount, hmaximum⟩
    · exact ⟨hcount, hmaximum⟩
    · simp only [not_or, not_le] at herror
      simp only [not_or, not_lt] at hqueue
      exact ⟨by dsimp only; omega, by dsimp only; omega⟩
  | poll t requested =>
    obtain ⟨-, ⟨⟩⟩ := Option.ite_none_left_eq_some.1 hstep
    unfold SemaRun.poll
    split_ifs with hrefused
    · exact ⟨hcount, hmaximum⟩
    · simp only [not_or, not_le, not_lt] at hrefused
      exact ⟨by dsimp only; omega, by dsimp only; omega⟩
  | wake t =>
    obtain ⟨w, hw, rfl⟩ := Option.map_eq_some_iff.1 hstep
    exact hresume False hw
  | expire t =>
    obtain ⟨w, hw, hstep⟩ := Option.bind_eq_some_iff.1 hstep
    obtain ⟨-, ⟨⟩⟩ := Option.ite_none_left_eq_some.1 hstep
    exact hresume True hw

end

/-! ### All of them -/

/-- What holds of every semaphore of a table when one of them changes. -/
theorem forall_update {ρ : Type} {f : Int → Option ρ} {uid : Int} {r' : ρ} {P : ρ → Prop} :
    (∀ u r, Function.update f uid (some r') u = some r → P r) ↔ P r' ∧ ∀ u r, u ≠ uid → f u = some r → P r := by
  constructor
  · intro h
    refine ⟨h uid r' (Function.update_self ..), fun u r hne hu => h u r ?_⟩
    rwa [Function.update_of_ne hne]
  · rintro ⟨hr', hothers⟩ u r h
    rcases eq_or_ne u uid with rfl | hne
    · rw [Function.update_self] at h
      exact Option.some.inj h ▸ hr'
    · rw [Function.update_of_ne hne] at h
      exact hothers u r hne h

/-- What holds of every run: each semaphore is fair, with a maximum that is an `int`, and later uids are free. -/
structure Inv (s : Semaphores T) : Prop where
  fair : ∀ uid r, s.semaphores uid = some r → ∃ maximum initial, SemaRun.Inv maximum initial r
  maximum_lt : ∀ uid r, s.semaphores uid = some r → r.sema.maximum < 2 ^ 31
  fresh : ∀ uid, s.nextUid ≤ uid → s.semaphores uid = none

variable {s s' : Semaphores T}

theorem inv_start : Inv ({} : Semaphores T) := by
  refine ⟨fun _ _ h => ?_, fun _ _ h => ?_, fun _ _ => rfl⟩ <;> cases h

theorem step_act {uid : Int} {a : SemaAction T} (hstep : s.step (.act uid a) = some s') :
    (s.semaphores uid = none ∧ s' = s) ∨
      ∃ r r', s.semaphores uid = some r ∧ r.step a = some r' ∧
        s' = { s with semaphores := Function.update s.semaphores uid (some r'), sums := sumsOf r a ++ s.sums } := by
  rw [step] at hstep
  cases hr : s.semaphores uid with
  | none =>
    rw [hr] at hstep
    exact .inl ⟨rfl, (Option.some.inj hstep).symm⟩
  | some r =>
    rw [hr] at hstep
    obtain ⟨r', hr', heq⟩ := Option.map_eq_some_iff.1 hstep
    exact .inr ⟨r, r', rfl, hr', heq.symm⟩

theorem Inv.step (hinv : Inv s) {c : SemaCall T} (hstep : s.step c = some s') : Inv s' := by
  cases c with
  | create count maximum =>
    obtain rfl := Option.some.inj hstep
    refine ⟨?_, ?_, fun uid h => ?_⟩
    · exact forall_update.2 ⟨⟨_, _, SemaRun.inv_create count maximum⟩, fun uid r _ => hinv.fair uid r⟩
    · exact forall_update.2 ⟨maximum.toInt_lt, fun uid r _ => hinv.maximum_lt uid r⟩
    · have hlt : s.nextUid < uid := by
        change s.nextUid + 1 ≤ uid at h
        omega
      exact (Function.update_of_ne (ne_of_gt hlt) _ _).trans (hinv.fresh uid hlt.le)
  | act uid a =>
    rcases step_act hstep with ⟨-, rfl⟩ | ⟨r, r', hr, hr', rfl⟩
    · exact hinv
    obtain ⟨maximum, initial, hfair⟩ := hinv.fair uid r hr
    refine ⟨?_, ?_, fun uid' h => ?_⟩
    · exact forall_update.2 ⟨⟨_, _, hfair.step hr'⟩, fun uid r _ => hinv.fair uid r⟩
    · refine forall_update.2 ⟨?_, fun uid r _ => hinv.maximum_lt uid r⟩
      rw [step_maximum hfair hr']
      exact hinv.maximum_lt uid r hr
    · have hne : uid' ≠ uid := by
        rintro rfl
        rw [hinv.fresh uid' h] at hr
        cases hr
      exact (Function.update_of_ne hne _ _).trans (hinv.fresh uid' h)

/-- From a state in bounds, a step leads to one exactly when its arguments are in order. -/
theorem step_bounded_iff (hinv : Inv s) (hbounded : s.Bounded) {c : SemaCall T} (hstep : s.step c = some s') :
    s'.Bounded ↔ s.Meets c := by
  obtain ⟨hcounts, hsums⟩ := hbounded
  cases c with
  | create count maximum =>
    obtain rfl := Option.some.inj hstep
    constructor
    · rintro ⟨h, -⟩
      exact (forall_update.1 h).1
    · intro h
      exact ⟨forall_update.2 ⟨h, fun uid r _ => hcounts uid r⟩, hsums⟩
  | act uid a =>
    rcases step_act hstep with ⟨hr, rfl⟩ | ⟨r, r', hr, hr', rfl⟩
    · refine iff_of_true ⟨hcounts, hsums⟩ ?_
      cases a with
      | signal t amount =>
        intro r h
        rw [hr] at h
        cases h
      | _ => trivial
    obtain ⟨maximum, initial, hfair⟩ := hinv.fair uid r hr
    obtain ⟨hcount, hmaximum⟩ := hcounts uid r hr
    have hothers : ∀ u r₁, u ≠ uid → s.semaphores u = some r₁ →
        0 ≤ r₁.sema.count ∧ r₁.sema.count ≤ r₁.sema.maximum := fun u r₁ _ => hcounts u r₁
    by_cases hsignal : ∃ t amount, a = .signal t amount
    · obtain ⟨t, amount, rfl⟩ := hsignal
      obtain ⟨hblocked, ⟨⟩⟩ := Option.ite_none_left_eq_some.1 hr'
      have hiff := signalled_bounded amount hcount hmaximum (hinv.maximum_lt uid r hr)
      constructor
      · rintro ⟨h, -⟩ r₁ hr₁ -
        rw [hr] at hr₁
        obtain rfl := Option.some.inj hr₁
        exact hiff.1 (forall_update.1 h).1
      · intro h
        have hsum := h r hr hblocked
        refine ⟨forall_update.2 ⟨hiff.2 hsum, hothers⟩, fun x hx => ?_⟩
        rcases List.mem_cons.1 hx with rfl | hx
        · omega
        · exact hsums x hx
    · have hne : ∀ t amount, a ≠ .signal t amount := fun t amount h => hsignal ⟨t, amount, h⟩
      have hnone : sumsOf r a = [] := by
        cases a with
        | signal t amount => exact absurd rfl (hne t amount)
        | _ => rfl
      refine iff_of_true ⟨forall_update.2 ⟨step_bounded hfair hr' hne hcount hmaximum, hothers⟩, ?_⟩ ?_
      · dsimp only
        rwa [hnone]
      · cases a with
        | signal t amount => exact absurd rfl (hne t amount)
        | _ => trivial

end Semaphores

/-- In every run, each state on the way has all counts between zero and their maximum and no sum that left `int`,
exactly when every create and every signal of the run has its arguments in order. -/
theorem semaphores_bounded {T : Type} [DecidableEq T] (calls : List (SemaCall T)) (s : Semaphores T)
    (hrun : run Semaphores.step {} calls = some s) :
    (∀ pre t, pre <+: calls → run Semaphores.step {} pre = some t → t.Bounded) ↔
      Guarded Semaphores.step Semaphores.Meets {} calls := by
  refine run_prefixes_iff (fun _ _ _ h hstep => h.step hstep)
    (fun _ _ _ hinv hbounded hstep => Semaphores.step_bounded_iff hinv hbounded hstep) Semaphores.inv_start ?_ hrun
  exact ⟨fun _ _ h => (by cases h), fun _ h => absurd h List.not_mem_nil⟩

theorem semaphores_bounded_signalled :
    ∃ s, run Semaphores.step ({} : Semaphores Nat)
      [.create 0 2, .act 0x100 (.signal 1 5), .act 0x100 (.poll 1 2)] = some s ∧ s.Bounded := by
  obtain ⟨s, hs⟩ := Option.isSome_iff_exists.1 (show (run Semaphores.step ({} : Semaphores Nat)
    [.create 0 2, .act 0x100 (.signal 1 5), .act 0x100 (.poll 1 2)]).isSome = true by decide)
  have hguarded : Guarded Semaphores.step Semaphores.Meets ({} : Semaphores Nat)
      [.create 0 2, .act 0x100 (.signal 1 5), .act 0x100 (.poll 1 2)] := by
    refine ⟨⟨by decide, by decide⟩, ?_⟩
    rintro s₁ ⟨⟩
    refine ⟨?_, ?_⟩
    · rintro r ⟨⟩ -
      decide
    · rintro s₂ ⟨⟩
      exact ⟨trivial, fun _ _ => trivial⟩
  exact ⟨s, hs, (semaphores_bounded _ s hs).2 hguarded _ s (List.prefix_refl _) hs⟩

/-- A count above its maximum, a signal that takes more than there is, and one whose sum wraps. -/
theorem semaphores_unbounded :
    (∃ t, run Semaphores.step ({} : Semaphores Nat) [.create 2 1] = some t ∧ ¬ t.Bounded) ∧
    (∃ t, run Semaphores.step ({} : Semaphores Nat) [.create 0 1, .act 0x100 (.signal 1 (-1))] = some t ∧
      ¬ t.Bounded) ∧
    ∃ t, run Semaphores.step ({} : Semaphores Nat) [.create 1 0x7fffffff, .act 0x100 (.signal 1 0x7fffffff)] = some t ∧
      2 ^ 31 ∈ t.sums ∧ ¬ t.Bounded := by
  refine ⟨⟨_, rfl, fun h => ?_⟩, ⟨_, rfl, fun h => ?_⟩, ⟨_, rfl, by decide, fun h => ?_⟩⟩
  · exact absurd (h.1 0x100 _ rfl) (by decide)
  · exact absurd (h.1 0x100 _ rfl) (by decide)
  · exact absurd (h.2 (2 ^ 31) (by decide)) (by decide)

end Psprism
