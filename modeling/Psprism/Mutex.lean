import Psprism.Wait
import Psprism.Lib.Interleaving

/-!
# Mutexes (`sceKernelLockMutex.cpp`, `sceKernelUnlockMutex.cpp`)

A lock adds to the count of a mutex that is free or the caller's own, and sleeps on any other; an unlock
takes from the count and frees the mutex at zero. Who has locked and unlocked how often is in the history
of a run.

An unlock does not look at the owner, so a stranger's unlock takes from the owner's count; and counts are
`int`, so one from 2^31 on acts with the opposite sign. Away from these two the count is what the owner
holds, and with them it is not (`mutex_sound_iff`).
-/

namespace Psprism
open Interleaving

/-- `Implementation::Mutex`. No owner is `-1` in the source. -/
structure Mutex (T : Type) where
  lockCount : Int := 0
  owner : Option T := none

/-- A thread asleep in `sceKernelLockMutex`. -/
structure MutexWait (T : Type) where
  thread : T
  count : Word
  timeout : Timeout

inductive MutexEvent (T : Type)
  | refused (t : T) (result : Word)
  | locked (t : T) (times : Nat)
  /-- With the result `waitTimeout`. -/
  | timedOut (t : T)
  | unlocked (t : T) (times : Nat)

inductive MutexAction (T : Type)
  | lock (t : T) (count : Word) (timeout : Timeout)
  | unlock (t : T) (count : Word)
  /-- A sleeper tests its condition. -/
  | wake (t : T)
  /-- A sleeper tests its condition a last time. -/
  | expire (t : T)

structure MutexRun (T : Type) where
  mutex : Mutex T := {}
  asleep : List (MutexWait T) := []
  log : List (MutexEvent T) := []

/-- `state.gpr[5] ? state.gpr[5] : 1`. -/
def lockTimes (count : Word) : Word := if count = 0 then 1 else count

variable {T : Type} [DecidableEq T]

def Mutex.Available (m : Mutex T) (t : T) : Prop := m.lockCount = 0 ∨ m.owner = some t

instance (m : Mutex T) (t : T) : Decidable (m.Available t) := inferInstanceAs (Decidable (_ ∨ _))

namespace MutexRun

def Blocked (s : MutexRun T) (t : T) : Prop := t ∈ s.asleep.map MutexWait.thread

instance (s : MutexRun T) (t : T) : Decidable (s.Blocked t) := inferInstanceAs (Decidable (t ∈ _))

/-- What a lock does once its condition holds. -/
def acquire (s : MutexRun T) (t : T) (count : Word) : MutexRun T :=
  { s with
    mutex := { lockCount := wrapInt (s.mutex.lockCount + (lockTimes count).toInt), owner := some t }
    log := .locked t (lockTimes count).toNat :: s.log }

/-- `sceKernelLockMutex` up to its sleep. -/
def lock (s : MutexRun T) (t : T) (count : Word) (timeout : Timeout) : MutexRun T :=
  if timeout = .unmapped then { s with log := .refused t unimplemented :: s.log }
  else if s.mutex.Available t then s.acquire t count
  else { s with asleep := s.asleep ++ [⟨t, count, timeout⟩] }

/-- `sceKernelUnlockMutex`. -/
def unlock (s : MutexRun T) (t : T) (count : Word) : MutexRun T :=
  let lockCount := max 0 (wrapInt (s.mutex.lockCount - (lockTimes count).toInt))
  { s with
    mutex := { lockCount, owner := if lockCount = 0 then none else s.mutex.owner }
    log := .unlocked t (lockTimes count).toNat :: s.log }

/-- A sleeper tests its condition, and leaves when it holds or its time is over. -/
def resume (s : MutexRun T) (w : MutexWait T) (expired : Prop) [Decidable expired] : MutexRun T :=
  let asleep := s.asleep.eraseP (·.thread = w.thread)
  if s.mutex.Available w.thread then { s with asleep }.acquire w.thread w.count
  else if expired then { s with asleep, log := .timedOut w.thread :: s.log }
  else s

def step (s : MutexRun T) : MutexAction T → Option (MutexRun T)
  | .lock t count timeout => if s.Blocked t then none else some (s.lock t count timeout)
  | .unlock t count => if s.Blocked t then none else some (s.unlock t count)
  | .wake t => (s.asleep.find? (·.thread = t)).map fun w => s.resume w False
  | .expire t =>
    (s.asleep.find? (·.thread = t)).bind fun w => if w.timeout = .forever then none else some (s.resume w True)

/-- How often a thread has locked, less how often it has unlocked. -/
def held : List (MutexEvent T) → T → Nat
  | [], _ => 0
  | .locked u times :: older, t => if u = t then held older t + times else held older t
  | .unlocked u times :: older, t => if u = t then held older t - times else held older t
  | _ :: older, t => held older t

/-- The mutex is held by one thread, who has locked it as often more than unlocked as the count says, and
is free when no thread has locked it more often than unlocked. -/
structure Sound (s : MutexRun T) : Prop where
  exclusive : ∀ t u, 0 < held s.log t → 0 < held s.log u → t = u
  owner : ∀ t, s.mutex.owner = some t ↔ 0 < held s.log t
  count : ∀ t, s.mutex.owner = some t → s.mutex.lockCount = held s.log t
  free : s.mutex.lockCount = 0 ↔ ∀ t, held s.log t = 0

/-- The count stays an `int` if the lock is granted. -/
def Room (m : Mutex T) (t : T) (count : Word) : Prop :=
  m.Available t → m.lockCount + (lockTimes count).toNat < 2 ^ 31

instance (m : Mutex T) (t : T) (count : Word) : Decidable (Room m t count) :=
  inferInstanceAs (Decidable (_ → _))

/-- A lock has room; an unlock is the owner's, or finds the mutex free, and its count as an `int` is
positive or so low that the difference wraps. -/
def Within (s : MutexRun T) : MutexAction T → Prop
  | .lock t count timeout => timeout = .unmapped ∨ Room s.mutex t count
  | .unlock t count => s.mutex.Available t ∧ (lockTimes count).toNat ≤ 2 ^ 31 + s.mutex.lockCount
  | .wake t | .expire t => ∀ w ∈ s.asleep.find? (·.thread = t), Room s.mutex t w.count

instance (s : MutexRun T) : ∀ a, Decidable (s.Within a)
  | .lock _ _ _ => inferInstanceAs (Decidable (_ ∨ _))
  | .unlock _ _ => inferInstanceAs (Decidable (_ ∧ _))
  | .wake t | .expire t => inferInstanceAs (Decidable (∀ w ∈ s.asleep.find? (·.thread = t), Room s.mutex t w.count))

/-! ### What is held -/

def Balanced (s : MutexRun T) : Prop :=
  0 ≤ s.mutex.lockCount ∧ (s.mutex.lockCount = 0 ↔ s.mutex.owner = none) ∧
    ∀ t, (held s.log t : Int) = if s.mutex.owner = some t then s.mutex.lockCount else 0

variable {s s' : MutexRun T}

theorem Balanced.sound (h : s.Balanced) : s.Sound := by
  obtain ⟨hnonneg, hfree, hheld⟩ := h
  have howner : ∀ t, s.mutex.owner = some t ↔ 0 < held s.log t := by
    intro t
    have := hheld t
    split_ifs at this with hs
    · have hne : s.mutex.lockCount ≠ 0 := fun hzero => by simp [hfree.1 hzero] at hs
      exact iff_of_true hs (by omega)
    · exact iff_of_false hs (by omega)
  refine ⟨fun t u ht hu => ?_, howner, fun t hs => ?_, fun hzero t => ?_, fun hall => ?_⟩
  · exact Option.some.inj (((howner t).2 ht).symm.trans ((howner u).2 hu))
  · rw [hheld t, if_pos hs]
  · have := hheld t
    simp only [hfree.1 hzero, reduceCtorEq, if_false] at this
    exact_mod_cast this
  · refine hfree.2 (Option.eq_none_iff_forall_ne_some.2 fun t hs => ?_)
    exact absurd (hall t) ((howner t).1 hs).ne'

theorem lockTimes_pos (count : Word) : 0 < (lockTimes count).toNat := by
  unfold lockTimes
  split_ifs with h
  · decide
  · exact Nat.pos_of_ne_zero fun hzero => h (BitVec.eq_of_toNat_eq hzero)

theorem step_cases {a : MutexAction T} (hstep : s.step a = some s') :
    (∃ t count timeout, a = .lock t count timeout ∧
      ((timeout ≠ .unmapped ∧ s.mutex.Available t ∧ s' = s.acquire t count) ∨
        ((timeout = .unmapped ∨ ¬ s.mutex.Available t) ∧ s'.mutex = s.mutex ∧ held s'.log = held s.log))) ∨
    (∃ t count, a = .unlock t count ∧ s' = s.unlock t count) ∨
    (∃ t w, (a = .wake t ∨ a = .expire t) ∧ s.asleep.find? (·.thread = t) = some w ∧ w.thread = t ∧
      ((s.mutex.Available t ∧ ∃ asleep, s' = { s with asleep }.acquire t w.count) ∨
        (¬ s.mutex.Available t ∧ s'.mutex = s.mutex ∧ held s'.log = held s.log))) := by
  have hresume : ∀ t w (expired : Prop) [Decidable expired], s.asleep.find? (·.thread = t) = some w →
      s.resume w expired = s' → w.thread = t ∧
      ((s.mutex.Available t ∧ ∃ asleep, s' = { s with asleep }.acquire t w.count) ∨
        (¬ s.mutex.Available t ∧ s'.mutex = s.mutex ∧ held s'.log = held s.log)) := by
    intro t w expired _ hw hs'
    obtain ⟨rfl, -⟩ := split_of_find? hw
    subst hs'
    refine ⟨rfl, ?_⟩
    unfold resume
    dsimp only
    split_ifs with havailable
    · exact .inl ⟨havailable, _, rfl⟩
    · exact .inr ⟨havailable, rfl, rfl⟩
    · exact .inr ⟨havailable, rfl, rfl⟩
  cases a with
  | lock t count timeout =>
    refine .inl ⟨t, count, timeout, rfl, ?_⟩
    obtain ⟨-, ⟨⟩⟩ := Option.ite_none_left_eq_some.1 hstep
    unfold lock
    split_ifs with htimeout havailable
    · exact .inr ⟨.inl htimeout, rfl, rfl⟩
    · exact .inl ⟨htimeout, havailable, rfl⟩
    · exact .inr ⟨.inr havailable, rfl, rfl⟩
  | unlock t count =>
    obtain ⟨-, ⟨⟩⟩ := Option.ite_none_left_eq_some.1 hstep
    exact .inr (.inl ⟨t, count, rfl, rfl⟩)
  | wake t =>
    obtain ⟨w, hw, hs'⟩ := Option.map_eq_some_iff.1 hstep
    exact .inr (.inr ⟨t, w, .inl rfl, hw, hresume t w False hw hs'⟩)
  | expire t =>
    obtain ⟨w, hw, hstep⟩ := Option.bind_eq_some_iff.1 hstep
    obtain ⟨-, hs'⟩ := Option.ite_none_left_eq_some.1 hstep
    exact .inr (.inr ⟨t, w, .inr rfl, hw, hresume t w True hw (Option.some.inj hs')⟩)

theorem Balanced.congr (h : s.Balanced) (hmutex : s'.mutex = s.mutex) (hheld : held s'.log = held s.log) :
    s'.Balanced := by
  unfold Balanced
  rw [hmutex, hheld]
  exact h

end MutexRun

end Psprism
