import Mathlib.Data.List.Nodup
import Psprism.Lib.Interleaving

/-!
# Monitors

Calls share a state under a mutex, and a call whose condition does not hold sleeps on the one condition variable,
which is only ever told to wake all its sleepers. A monitor is first a system in which a sleeper tests its condition
at any time. With the notifications (`Monitor.next`) it runs as before (`run_calls`), as a sleeper can still wake for
no reason. Where nothing is under way none sleeps beside a condition that holds (`Informed.unready`), and what is
under way ends (`Informed.length_le`).
-/

open Interleaving

/-- The `notify_all` that goes with a step. -/
inductive Notice
  | silent
  /-- After the mutex is given up. -/
  | later
  /-- Under the mutex. -/
  | now
deriving DecidableEq

structure Monitor (σ α ω : Type*) where
  step : σ → α → Option σ
  sleepers : σ → List ω
  /-- The sleeper whose test the action is. -/
  woken : α → Option ω
  notice : σ → α → Notice

/-- A state with the sleepers that are notified and wait for the mutex, and the number of calls of `notify_all`
still to come. -/
structure Monitored (σ ω : Type*) where
  state : σ
  notified : List ω := []
  posting : Nat := 0

inductive MonitorAction (α : Type*)
  | call (a : α)
  | notifyAll

/-- The action without notifications. -/
def MonitorAction.calls {α : Type*} : MonitorAction α → List α
  | .call a => [a]
  | .notifyAll => []

namespace Monitor

variable {σ α ω : Type*}

section
variable [DecidableEq ω] (m : Monitor σ α ω)

/-- The sleepers that are notified once the mutex is given up. -/
def notifiedAfter (s : Monitored σ ω) (a : α) (state : σ) : List ω :=
  match m.notice s.state a, m.woken a with
  | .now, _ => m.sleepers state
  | _, some w => s.notified.erase w
  | _, none => s.notified

def next (s : Monitored σ ω) : MonitorAction α → Option (Monitored σ ω)
  | .call a => (m.step s.state a).map fun state =>
    { state
      notified := m.notifiedAfter s a state
      posting := if m.notice s.state a = .later then s.posting + 1 else s.posting }
  | .notifyAll =>
    match s.posting with
    | 0 => none
    | n + 1 => some { s with notified := m.sleepers s.state, posting := n }

/-- What is under way already: a notification, and a sleeper that was notified. -/
def UnderWay (s : Monitored σ ω) : MonitorAction α → Prop
  | .call a => ∃ w ∈ m.woken a, w ∈ s.notified
  | .notifyAll => True

instance (s : Monitored σ ω) : DecidablePred (m.UnderWay s)
  | .call a => inferInstanceAs (Decidable (∃ w ∈ m.woken a, w ∈ s.notified))
  | .notifyAll => .isTrue trivial

/-- The steps that what is under way can take, at most. -/
def pending (s : Monitored σ ω) : Nat :=
  ((m.sleepers s.state).length + s.posting) * ((m.sleepers s.state).length + 1) + s.notified.length

/-- The guard `G` on the calls, in a state with notifications. -/
def CallGuard (G : σ → α → Prop) (s : Monitored σ ω) : MonitorAction α → Prop
  | .call a => G s.state a
  | .notifyAll => True

instance (G : σ → α → Prop) [∀ s a, Decidable (G s a)] (s : Monitored σ ω) : DecidablePred (CallGuard G s)
  | .call a => inferInstanceAs (Decidable (G s.state a))
  | .notifyAll => .isTrue trivial

/-- Steps from states that meet `I` by actions that meet `G` make no sleeper ready in silence, and a sleeper that
tests its condition sleeps on or leaves. -/
structure Lawful (I : σ → Prop) (G : σ → α → Prop) (ready : σ → ω → Prop) : Prop where
  inv : ∀ {s a s'}, I s → G s a → m.step s a = some s' → I s'
  nodup : ∀ {s}, I s → (m.sleepers s).Nodup
  wakes : ∀ {s w}, w ∈ m.sleepers s → ∃ a, m.woken a = some w ∧ (m.step s a).isSome
  call : ∀ {s a s'}, m.step s a = some s' → m.woken a = none → m.sleepers s ⊆ m.sleepers s'
  test : ∀ {s a s' w}, I s → m.step s a = some s' → m.woken a = some w →
    (m.sleepers s' = m.sleepers s ∧ m.notice s a = .silent) ∨
      w ∈ m.sleepers s ∧ m.sleepers s' = (m.sleepers s).erase w
  free : ∀ {s a}, m.woken a ≠ none → G s a
  silent : ∀ {s a s' w}, I s → G s a → m.step s a = some s' → m.notice s a = .silent →
    w ∈ m.sleepers s' → ready s' w → w ∈ m.sleepers s ∧ ready s w ∧ m.woken a ≠ some w

/-- Each sleeper whose condition holds is notified, or will be. -/
structure Informed (I : σ → Prop) (ready : σ → ω → Prop) (s : Monitored σ ω) : Prop where
  inv : I s.state
  nodup : s.notified.Nodup
  asleep : s.notified ⊆ m.sleepers s.state
  ready : ∀ w ∈ m.sleepers s.state, ready s.state w → w ∈ s.notified ∨ 0 < s.posting

end

section
variable [DecidableEq ω] {m : Monitor σ α ω} {I : σ → Prop} {G : σ → α → Prop} {ready : σ → ω → Prop}
  {s s' : Monitored σ ω} {a : α} {state : σ}

theorem next_notifyAll (h : m.next s .notifyAll = some s') :
    ∃ n, s.posting = n + 1 ∧ s' = { s with notified := m.sleepers s.state, posting := n } := by
  unfold Monitor.next at h
  cases hposting : s.posting with
  | zero => simp [hposting] at h
  | succ n =>
    simp only [hposting] at h
    exact ⟨n, rfl, (Option.some.inj h).symm⟩

theorem notifiedAfter_of_now (h : m.notice s.state a = .now) : m.notifiedAfter s a state = m.sleepers state := by
  unfold notifiedAfter
  rw [h]

theorem notifiedAfter_of_none (h : m.notice s.state a ≠ .now) (hwoken : m.woken a = none) :
    m.notifiedAfter s a state = s.notified := by
  unfold notifiedAfter
  rw [hwoken]
  cases hnotice : m.notice s.state a with
  | now => exact absurd hnotice h
  | silent | later => rfl

theorem notifiedAfter_of_some {w : ω} (h : m.notice s.state a ≠ .now) (hwoken : m.woken a = some w) :
    m.notifiedAfter s a state = s.notified.erase w := by
  unfold notifiedAfter
  rw [hwoken]
  cases hnotice : m.notice s.state a with
  | now => exact absurd hnotice h
  | silent | later => rfl

/-- Who is notified stays notified until it tests its condition. -/
theorem mem_notifiedAfter {w : ω} (h : m.notice s.state a ≠ .now) (hw : w ∈ s.notified)
    (hwoken : m.woken a ≠ some w) : w ∈ m.notifiedAfter s a state := by
  cases ha : m.woken a with
  | none => rwa [notifiedAfter_of_none h ha]
  | some v =>
    rw [notifiedAfter_of_some h ha]
    refine (List.mem_erase_of_ne ?_).2 hw
    rintro rfl
    exact hwoken ha

theorem Informed.notifiedAfter (h : m.Informed I ready s) (hm : m.Lawful I G ready)
    (hI : I state) (hstep : m.step s.state a = some state) :
    (m.notifiedAfter s a state).Nodup ∧ m.notifiedAfter s a state ⊆ m.sleepers state := by
  by_cases hnow : m.notice s.state a = .now
  · rw [notifiedAfter_of_now hnow]
    exact ⟨hm.nodup hI, fun _ => id⟩
  · cases ha : m.woken a with
    | none =>
      rw [notifiedAfter_of_none hnow ha]
      exact ⟨h.nodup, fun w hw => hm.call hstep ha (h.asleep hw)⟩
    | some v =>
      rw [notifiedAfter_of_some hnow ha]
      refine ⟨h.nodup.erase v, fun w hw => ?_⟩
      obtain ⟨hne, hw⟩ := h.nodup.mem_erase_iff.1 hw
      rcases hm.test h.inv hstep ha with ⟨hsame, -⟩ | ⟨-, herase⟩
      · rw [hsame]
        exact h.asleep hw
      · rw [herase]
        exact (List.mem_erase_of_ne hne).2 (h.asleep hw)

theorem Informed.call (h : m.Informed I ready s) (hm : m.Lawful I G ready) (hG : G s.state a)
    (hstep : m.step s.state a = some state) :
    m.Informed I ready
      ⟨state, m.notifiedAfter s a state, if m.notice s.state a = .later then s.posting + 1 else s.posting⟩ := by
  have hI := hm.inv h.inv hG hstep
  obtain ⟨hnodup, hasleep⟩ := h.notifiedAfter hm hI hstep
  refine ⟨hI, hnodup, hasleep, fun w hw hready => ?_⟩
  cases hnotice : m.notice s.state a with
  | now =>
    left
    rw [notifiedAfter_of_now hnotice]
    exact hw
  | later =>
    right
    rw [if_pos rfl]
    exact Nat.succ_pos _
  | silent =>
    obtain ⟨hbefore, hwas, hother⟩ := hm.silent h.inv hG hstep hnotice hw hready
    refine (h.ready w hbefore hwas).imp (fun hmem => ?_) fun hpos => ?_
    · exact mem_notifiedAfter (by simp [hnotice]) hmem hother
    · rwa [if_neg (by simp)]

theorem Informed.next (h : m.Informed I ready s) (hm : m.Lawful I G ready) {a : MonitorAction α}
    (hG : CallGuard G s a) (hnext : m.next s a = some s') : m.Informed I ready s' := by
  cases a with
  | call a =>
    obtain ⟨state, hstep, rfl⟩ := Option.map_eq_some_iff.1 hnext
    exact h.call hm hG hstep
  | notifyAll =>
    obtain ⟨n, -, rfl⟩ := next_notifyAll hnext
    exact ⟨h.inv, hm.nodup h.inv, fun _ => id, fun w hw _ => .inl hw⟩

/-- Where nothing is under way any more, no sleeper's condition holds. -/
theorem Informed.unready (h : m.Informed I ready s) (hm : m.Lawful I G ready)
    (hquiet : ∀ a, m.UnderWay s a → m.next s a = none) {w : ω} (hw : w ∈ m.sleepers s.state) :
    ¬ ready s.state w := by
  intro hready
  rcases h.ready w hw hready with hmem | hpos
  · obtain ⟨a, ha, hsome⟩ := hm.wakes hw
    have hnone := hquiet (.call a) ⟨w, ha, hmem⟩
    rw [Monitor.next, Option.map_eq_none_iff] at hnone
    rw [hnone] at hsome
    cases hsome
  · have hnone := hquiet .notifyAll trivial
    obtain ⟨n, hn⟩ := Nat.exists_eq_succ_of_ne_zero (Nat.pos_iff_ne_zero.1 hpos)
    simp [Monitor.next, hn] at hnone

omit [DecidableEq ω] in
theorem callGuard_of_forall (h : ∀ state a, G state a) : ∀ a, CallGuard G s a
  | .call a => h s.state a
  | .notifyAll => trivial

theorem callGuard_of_underWay (hm : m.Lawful I G ready) {a : MonitorAction α} (ha : m.UnderWay s a) :
    CallGuard G s a := by
  cases a with
  | call a =>
    obtain ⟨w, hwoken, -⟩ := ha
    exact hm.free (by rw [hwoken]; exact Option.some_ne_none w)
  | notifyAll => trivial

/-- A sleeper that leaves makes up for one `notify_all`. -/
theorem pending_leave {n n' p p' k k' : Nat} (hn : n = n' + 1)
    (hp : p' = p + 1 ∧ k' ≤ k ∨ p' = p ∧ k' ≤ k + n') :
    (n' + p') * (n' + 1) + k' < (n + p) * (n + 1) + k := by
  subst hn
  have hsplit : (n' + 1 + p) * (n' + 1 + 1) = (n' + 1 + p) * (n' + 1) + (n' + 1 + p) := Nat.mul_succ _ _
  rcases hp with ⟨rfl, hk⟩ | ⟨rfl, hk⟩
  · have hsame : n' + (p + 1) = n' + 1 + p := by omega
    rw [hsame]
    omega
  · have hle : (n' + p') * (n' + 1) ≤ (n' + 1 + p') * (n' + 1) := Nat.mul_le_mul_right _ (by omega)
    omega

/-- What is under way takes a step off what is pending. -/
theorem Informed.pending_lt (h : m.Informed I ready s) (hm : m.Lawful I G ready) {a : MonitorAction α}
    (ha : m.UnderWay s a) (hnext : m.next s a = some s') : m.pending s' < m.pending s := by
  cases a with
  | call a =>
    obtain ⟨w, hwoken, hw⟩ := ha
    obtain ⟨state, hstep, rfl⟩ := Option.map_eq_some_iff.1 hnext
    have hlength := List.length_erase_of_mem hw
    have hpos := List.length_pos_of_mem hw
    unfold pending
    dsimp only
    rcases hm.test h.inv hstep hwoken with ⟨hsame, hsilent⟩ | ⟨hmem, herase⟩
    · rw [notifiedAfter_of_some (by simp [hsilent]) hwoken, hsame, if_neg (by simp [hsilent])]
      omega
    · have hasleep := List.length_erase_of_mem hmem
      have hsome := List.length_pos_of_mem hmem
      refine pending_leave (by rw [herase]; omega) ?_
      cases hnotice : m.notice s.state a with
      | now =>
        rw [notifiedAfter_of_now hnotice]
        exact .inr ⟨rfl, Nat.le_add_left _ _⟩
      | later =>
        rw [notifiedAfter_of_some (by simp [hnotice]) hwoken]
        exact .inl ⟨rfl, by omega⟩
      | silent =>
        rw [notifiedAfter_of_some (by simp [hnotice]) hwoken]
        exact .inr ⟨rfl, by omega⟩
  | notifyAll =>
    obtain ⟨p, hposting, rfl⟩ := next_notifyAll hnext
    unfold pending
    dsimp only
    rw [hposting, ← Nat.add_assoc, Nat.succ_mul]
    omega

theorem Informed.length_le (h : m.Informed I ready s) (hm : m.Lawful I G ready) {more : List (MonitorAction α)}
    (hguarded : Guarded m.next m.UnderWay s more) (hrun : run m.next s more = some s') :
    more.length ≤ m.pending s := by
  have hle := Guarded.length_le (I := m.Informed I ready) (μ := m.pending)
    (fun s a s' h ha hnext => h.next hm (callGuard_of_underWay hm ha) hnext)
    (fun s a s' h ha hnext => h.pending_lt hm ha hnext) h hguarded hrun
  omega

/-- Without the notifications, a run of the system in which a sleeper tests its condition at any time. -/
theorem run_calls {actions : List (MonitorAction α)} (hrun : run m.next s actions = some s') :
    run m.step s.state (actions.flatMap MonitorAction.calls) = some s'.state := by
  have hstep : ∀ (s : Monitored σ ω) (a : MonitorAction α) s' state, s.state = state → m.next s a = some s' →
      ∃ state', run m.step state a.calls = some state' ∧ s'.state = state' := by
    rintro s a s' - rfl hnext
    cases a with
    | call a =>
      obtain ⟨state, hstep, rfl⟩ := Option.map_eq_some_iff.1 hnext
      exact ⟨state, run_cons_eq_some.2 ⟨state, hstep, rfl⟩, rfl⟩
    | notifyAll =>
      obtain ⟨n, -, rfl⟩ := next_notifyAll hnext
      exact ⟨s.state, rfl, rfl⟩
  obtain ⟨state, hstate, rfl⟩ := run_simulated hstep rfl hrun
  exact hstate

theorem Lawful.run (hm : m.Lawful I G ready) {state : σ} (hI : I state) (hnil : m.sleepers state = [])
    {actions : List (MonitorAction α)} (hG : Guarded m.next (CallGuard G) ⟨state, [], 0⟩ actions)
    (hrun : run m.next ⟨state, [], 0⟩ actions = some s) : m.Informed I ready s := by
  refine run_guarded (fun _ _ _ h hG hnext => Informed.next h hm hG hnext) ?_ hG hrun
  refine ⟨hI, List.nodup_nil, List.nil_subset _, fun w hw => ?_⟩
  rw [hnil] at hw
  cases hw

end
end Monitor
