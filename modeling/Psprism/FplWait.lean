import Psprism.Fpl
import Psprism.Lib.WaitSet

/-!
# Waiting for a fixed pool (`sceKernelAllocateFpl.cpp`, `sceKernelTryAllocateFpl.cpp`, `sceKernelFreeFpl.cpp`)

A thread whose `sceKernelAllocateFpl` finds no block sleeps on the pool's condition variable, without the guest
execution lock: what it does when it wakes falls between any two steps of other threads, also between the
`push_back` of `sceKernelFreeFpl` and its `notify_one`. The calls here have found the pool, and no exit is
requested.

All blocks fit all threads. Unlike a variable pool, a fixed one loses no wake-up.
-/

namespace Psprism
open Interleaving

structure FplWait (T : Type) where
  p : FixedPoolRun
  waits : WaitSet T := {}

inductive FplWaitAction (T : Type)
  | tryAllocate (t : T)
  | allocate (t : T)
  | free (t : T) (address : Word)
  /-- The `notify_one` of a call of `sceKernelFreeFpl`. -/
  | notify (woken : Option T)
  /-- A sleeper tests its condition. -/
  | wake (t : T)

namespace FplWait
variable {T : Type} {s s' : FplWait T} {t : T}

/-- The wait of `sceKernelAllocateFpl`, under the lock of the pool. -/
def test (s : FplWait T) (t : T) : FplWait T :=
  if s.p.pool.available = [] then { s with waits := s.waits.sleep t } else { s with p := s.p.allocate }

def Blocked (s : FplWait T) (t : T) : Prop := t ∈ s.waits.calls

section
variable [DecidableEq T]

instance (s : FplWait T) (t : T) : Decidable (s.Blocked t) := inferInstanceAs (Decidable (t ∈ _))

def step (s : FplWait T) : FplWaitAction T → Option (FplWait T)
  | .tryAllocate t => if s.Blocked t then none else some { s with p := s.p.allocate }
  | .allocate t => if s.Blocked t then none else some (s.test t)
  | .free t address =>
    if s.Blocked t then none else some { p := s.p.free address, waits := s.waits.post }
  | .notify woken => (s.waits.notifyOne woken).map fun waits => { s with waits }
  | .wake t => (s.waits.awaken t).map fun waits => test { s with waits } t

/-- What is under way already: a notification, and a thread that was notified. -/
def UnderWay (s : FplWait T) : FplWaitAction T → Prop
  | .notify _ => True
  | .wake t => t ∈ s.waits.notified
  | _ => False

instance (s : FplWait T) : DecidablePred s.UnderWay
  | .notify _ => .isTrue trivial
  | .wake t => inferInstanceAs (Decidable (t ∈ _))
  | .tryAllocate _ | .allocate _ | .free _ _ => .isFalse id

end

/-- The notifications on their way are enough for the blocks. -/
def Served (s : FplWait T) : Prop := s.waits.Covered s.p.pool.available.length

theorem length_allocate (p : FixedPoolRun) :
    p.allocate.pool.available.length = p.pool.available.length - 1 := by
  unfold FixedPoolRun.allocate
  rcases p.pool.take_cases with ⟨hnil, htake⟩ | ⟨front, address, hfront, htake⟩ <;> rw [htake]
  · rw [hnil, List.length_nil]
  · rw [hfront, List.length_append, List.length_singleton, Nat.add_sub_cancel]

/-- The thread takes a block, unless there is none. -/
theorem served_test (h : s.waits.Covered (s.p.pool.available.length - 1)) : (s.test t).Served := by
  unfold test
  split_ifs with hnil
  · show (s.waits.sleep t).Covered s.p.pool.available.length
    rw [hnil]
    exact WaitSet.covered_zero
  · show s.waits.Covered s.p.allocate.pool.available.length
    rwa [length_allocate]

theorem pending_test : (s.test t).waits.pending = s.waits.pending := by
  unfold test
  split_ifs <;> rfl

variable [DecidableEq T]

theorem Served.step (h : s.Served) {a : FplWaitAction T} (hstep : s.step a = some s') : s'.Served := by
  cases a with
  | tryAllocate t =>
    obtain ⟨-, ⟨⟩⟩ := Option.ite_none_left_eq_some.1 hstep
    refine WaitSet.Covered.mono h ?_
    rw [length_allocate]
    omega
  | allocate t =>
    obtain ⟨-, ⟨⟩⟩ := Option.ite_none_left_eq_some.1 hstep
    exact served_test (WaitSet.Covered.mono h (by omega))
  | free t address =>
    obtain ⟨-, ⟨⟩⟩ := Option.ite_none_left_eq_some.1 hstep
    refine WaitSet.Covered.mono (WaitSet.Covered.post h) ?_
    simp [FixedPoolRun.free]
  | notify woken =>
    obtain ⟨waits, hwaits, rfl⟩ := Option.map_eq_some_iff.1 hstep
    exact WaitSet.Covered.notifyOne h hwaits
  | wake t =>
    obtain ⟨waits, hwaits, rfl⟩ := Option.map_eq_some_iff.1 hstep
    exact served_test (WaitSet.Covered.awaken h hwaits)

theorem pending_step {a : FplWaitAction T} (ha : s.UnderWay a) (hstep : s.step a = some s') :
    s'.waits.pending < s.waits.pending := by
  cases a with
  | tryAllocate t => cases ha
  | allocate t => cases ha
  | free t address => cases ha
  | notify woken =>
    obtain ⟨waits, hwaits, rfl⟩ := Option.map_eq_some_iff.1 hstep
    exact WaitSet.pending_notifyOne hwaits
  | wake t =>
    obtain ⟨waits, hwaits, rfl⟩ := Option.map_eq_some_iff.1 hstep
    rw [pending_test]
    exact (WaitSet.awaken_notified hwaits ha).2

theorem quiet_of_none (h : ∀ a, s.UnderWay a → s.step a = none) : s.waits.Quiet :=
  WaitSet.quiet_of_none (fun woken => Option.map_eq_none_iff.1 (h (.notify woken) trivial))
    fun t ht => Option.map_eq_none_iff.1 (h (.wake t) ht)

end FplWait

/-- However the threads interleave: what is under way on a fixed pool ends after `pending` steps at most, and once
nothing is, no thread sleeps beside a block that is available. -/
theorem fplWait_served {T : Type} [DecidableEq T] (p : FixedPoolRun) (actions : List (FplWaitAction T))
    (s : FplWait T) (hrun : run FplWait.step { p } actions = some s) :
    ((∀ a, s.UnderWay a → s.step a = none) → s.waits.sleeping = [] ∨ s.p.pool.available = []) ∧
      ∀ more s', Guarded FplWait.step FplWait.UnderWay s more → run FplWait.step s more = some s' →
        more.length ≤ s.waits.pending := by
  constructor
  · intro hnone
    have hserved : s.Served :=
      run_invariant (fun _ _ _ h hstep => FplWait.Served.step h hstep) (WaitSet.covered_of_awake rfl) hrun
    rcases WaitSet.Covered.eq_zero hserved (FplWait.quiet_of_none hnone) with hnil | hzero
    · exact .inl hnil
    · exact .inr (List.length_eq_zero_iff.1 hzero)
  · intro more s' hguarded hmore
    have hle := Guarded.length_le (I := fun _ => True) (μ := fun s => s.waits.pending) (fun _ _ _ _ _ _ => trivial)
      (fun _ _ _ _ ha hstep => FplWait.pending_step ha hstep) trivial hguarded hmore
    omega

/-- Of two sleepers one is notified of the freed block and takes it: two steps, and then nothing is left. -/
theorem fplWait_served_two :
    let p : FixedPoolRun := { pool := { backing := [⟨0x08800000, 32⟩], available := [0x08800000] } }
    let actions : List (FplWaitAction Nat) := [.tryAllocate 1, .allocate 2, .allocate 3, .free 1 0x08800000]
    ∃ s, run FplWait.step { p } actions = some s ∧ 2 ≤ s.waits.pending ∧ s.waits.sleeping = [3, 2] := by
  intro p actions
  obtain ⟨s, hrun⟩ : ∃ s, run FplWait.step { p } actions = some s := ⟨_, rfl⟩
  have hs := hrun
  cases hs
  exact ⟨_, hrun, (fplWait_served p actions _ hrun).2 [.notify (some 2), .wake 2] _ (by decide) rfl, rfl⟩

end Psprism
