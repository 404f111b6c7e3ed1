import Psprism.Lib.History
import Psprism.Lib.Interleaving
import Psprism.Reloc

/-!
# Sleeping and waking threads (`sleep_thread.hpp`, `sceKernelWakeupThread.cpp`, `sceKernelCancelWakeupThread.cpp`)

A thread that sleeps holds its `sleep_mutex` from the test of its condition until it blocks; wake-ups and
their cancellation take the mutex, and the `notify_one` of a wake-up comes after it was given up. The exit
is requested without the mutex, so its notification can fall between the test and the block. The threads
are those of the table `threads`; a call for any other one returns an error and changes nothing.
-/

namespace Psprism
open Interleaving History

/-- Where a thread is in `sleep_guest_thread`. -/
inductive SleepPhase
  | awake
  /-- The condition of `sleep_changed.wait` was false; the mutex is still held. -/
  | tested
  | blocked
  | woken
deriving DecidableEq

structure Sleeper where
  wakeupCount : Word := 0
  phase : SleepPhase := .awake
  /-- Calls of `notify_one` still to come. -/
  notifying : Nat := 0

inductive SleepEvent (T : Type)
  | wakeup (t : T)
  | cancelled (t : T) (count : Word)
  /-- The end of a sleep, and whether it took a wake-up. -/
  | slept (t : T) (taken : Bool)
  | blocked (t : T)
  | exitRequested
  | exitNotified (t : T)

/-- The thread that an event is about. -/
def SleepEvent.thread? {T : Type} : SleepEvent T → Option T
  | .wakeup t | .cancelled t _ | .slept t _ | .blocked t | .exitNotified t => some t
  | .exitRequested => none

inductive SleepAction (T : Type)
  | sleep (t : T)
  | block (t : T)
  /-- A blocked thread wakes for no reason. -/
  | spurious (t : T)
  | retest (t : T)
  | wakeup (t : T)
  | notify (t : T)
  | cancel (t : T)
  | requestExit
  | notifyExit (t : T)

structure SleepRun (T : Type) where
  threads : T → Sleeper := fun _ => {}
  exitRequested : Bool := false
  log : List (SleepEvent T) := []

/-- `notify_one` or `notify_all` on the condition variable of the thread. -/
def Sleeper.notified (x : Sleeper) : Sleeper :=
  if x.phase = .blocked then { x with phase := .woken } else x

namespace SleepRun
variable {T : Type} [DecidableEq T]

def setThread (s : SleepRun T) (t : T) (x : Sleeper) : SleepRun T :=
  { s with threads := Function.update s.threads t x }

def say (s : SleepRun T) (e : SleepEvent T) : SleepRun T := { s with log := e :: s.log }

/-- The condition holds: the sleep ends. -/
def leave (s : SleepRun T) (t : T) : SleepRun T :=
  let x := s.threads t
  if x.wakeupCount ≠ 0 then
    (s.setThread t { x with wakeupCount := x.wakeupCount - 1, phase := .awake }).say (.slept t true)
  else (s.setThread t { x with phase := .awake }).say (.slept t false)

/-- The test of the condition, under the mutex. -/
def test (s : SleepRun T) (t : T) : SleepRun T :=
  let x := s.threads t
  if x.wakeupCount ≠ 0 ∨ s.exitRequested = true then s.leave t else s.setThread t { x with phase := .tested }

def step (s : SleepRun T) : SleepAction T → Option (SleepRun T)
  | .sleep t => if (s.threads t).phase = .awake then some (s.test t) else none
  | .block t =>
    let x := s.threads t
    if x.phase = .tested then some ((s.setThread t { x with phase := .blocked }).say (.blocked t)) else none
  | .spurious t =>
    let x := s.threads t
    if x.phase = .blocked then some (s.setThread t { x with phase := .woken }) else none
  | .retest t => if (s.threads t).phase = .woken then some (s.test t) else none
  | .wakeup t =>
    let x := s.threads t
    if x.phase = .tested then none
    else
      some ((s.setThread t { x with wakeupCount := x.wakeupCount + 1, notifying := x.notifying + 1 }).say
        (.wakeup t))
  | .notify t =>
    let x := s.threads t
    if x.notifying = 0 then none
    else some (s.setThread t { x with notifying := x.notifying - 1 }.notified)
  | .cancel t =>
    let x := s.threads t
    if x.phase = .tested then none
    else some ((s.setThread t { x with wakeupCount := 0 }).say (.cancelled t x.wakeupCount))
  | .requestExit => some ({ s with exitRequested := true }.say .exitRequested)
  | .notifyExit t =>
    if s.exitRequested = true then some ((s.setThread t (s.threads t).notified).say (.exitNotified t)) else none

/-! ### What a history says -/

/-- The wake-ups that a thread was sent, modulo 2^32. -/
def sent (t : T) : List (SleepEvent T) → Word
  | [] => 0
  | .wakeup u :: older => if u = t then sent t older + 1 else sent t older
  | _ :: older => sent t older

/-- Those its sleeps took. -/
def taken (t : T) : List (SleepEvent T) → Word
  | [] => 0
  | .slept u true :: older => if u = t then taken t older + 1 else taken t older
  | _ :: older => taken t older

/-- Those that were cancelled. -/
def cancelled (t : T) : List (SleepEvent T) → Word
  | [] => 0
  | .cancelled u count :: older => if u = t then cancelled t older + count else cancelled t older
  | _ :: older => cancelled t older

/-- The exit was notified to the thread since it last blocked. -/
def exitNotified (t : T) : List (SleepEvent T) → Bool
  | [] => false
  | .blocked u :: older => if u = t then false else exitNotified t older
  | .exitNotified u :: older => if u = t then true else exitNotified t older
  | _ :: older => exitNotified t older

/-- Without a wake-up a sleep ends only for the exit. -/
def Justified (older : List (SleepEvent T)) : SleepEvent T → Prop
  | .slept _ false => .exitRequested ∈ older
  | _ => True

/-! ### Invariant -/

structure ThreadInv (x : Sleeper) (t : T) (log : List (SleepEvent T)) : Prop where
  conserved : sent t log = taken t log + cancelled t log + x.wakeupCount
  tested : x.phase = .tested → x.wakeupCount = 0
  notified : x.phase = .blocked → x.wakeupCount ≠ 0 → x.notifying ≠ 0
  exit : x.phase = .blocked → exitNotified t log = false

structure Inv (s : SleepRun T) : Prop where
  threads : ∀ t, ThreadInv (s.threads t) t s.log
  exit : s.exitRequested = true → .exitRequested ∈ s.log
  justified : Entries Justified s.log

variable {s s' : SleepRun T} {t : T}

theorem inv_start : Inv ({} : SleepRun T) :=
  ⟨fun _ => ⟨rfl, nofun, nofun, nofun⟩, nofun, entries_nil⟩

/-- An event about another thread. -/
theorem ThreadInv.cons {x : Sleeper} {u : T} {log : List (SleepEvent T)} {e : SleepEvent T}
    (h : ThreadInv x u log) (he : e.thread? ≠ some u) : ThreadInv x u (e :: log) := by
  obtain ⟨hconserved, htested, hnotified, hexit⟩ := h
  have hne : ∀ t, e.thread? = some t → t ≠ u := fun t ht htu => he (ht.trans (congrArg some htu))
  cases e with
  | exitRequested => exact ⟨hconserved, htested, hnotified, hexit⟩
  | slept t b =>
    cases b with
    | true =>
      refine ⟨?_, htested, hnotified, hexit⟩
      simpa [sent, taken, cancelled, if_neg (hne t rfl)] using hconserved
    | false => exact ⟨hconserved, htested, hnotified, hexit⟩
  | wakeup t =>
    refine ⟨?_, htested, hnotified, hexit⟩
    simpa [sent, taken, cancelled, if_neg (hne t rfl)] using hconserved
  | cancelled t count =>
    refine ⟨?_, htested, hnotified, hexit⟩
    simpa [sent, taken, cancelled, if_neg (hne t rfl)] using hconserved
  | blocked t =>
    refine ⟨hconserved, htested, hnotified, ?_⟩
    simpa [exitNotified, if_neg (hne t rfl)] using hexit
  | exitNotified t =>
    refine ⟨hconserved, htested, hnotified, ?_⟩
    simpa [exitNotified, if_neg (hne t rfl)] using hexit

/-- A step that changes one thread and says something about it. -/
theorem Inv.of_thread (h : Inv s) {x : Sleeper} {e : SleepEvent T}
    (hx : ThreadInv x t (e :: s.log)) (hjust : Justified s.log e) (he : e.thread? = some t) :
    Inv ((s.setThread t x).say e) := by
  refine ⟨fun u => ?_, fun hexit => List.mem_cons_of_mem e (h.exit hexit),
    entries_cons.2 ⟨hjust, h.justified⟩⟩
  by_cases hu : u = t
  · subst hu
    simp only [say, setThread, Function.update_self]
    exact hx
  · simp only [say, setThread, Function.update_of_ne hu]
    exact (h.threads u).cons fun heq => hu (Option.some.inj (heq.symm.trans he))

/-- A step that changes one thread silently. -/
theorem Inv.of_silent (h : Inv s) {x : Sleeper} (hx : ThreadInv x t s.log) : Inv (s.setThread t x) := by
  refine ⟨fun u => ?_, h.exit, h.justified⟩
  by_cases hu : u = t
  · subst hu
    simp only [setThread, Function.update_self]
    exact hx
  · simp only [setThread, Function.update_of_ne hu]
    exact h.threads u

theorem Inv.test (h : Inv s) : Inv (s.test t) := by
  obtain ⟨hconserved, -, -, -⟩ := h.threads t
  unfold SleepRun.test leave
  dsimp only
  split_ifs with hready hcount
  · refine h.of_thread ⟨?_, nofun, nofun, nofun⟩ trivial rfl
    simp only [sent, taken, cancelled, if_true, hconserved]
    bv_omega
  · refine h.of_thread ⟨hconserved, nofun, nofun, nofun⟩ (h.exit ?_) rfl
    exact hready.resolve_left hcount
  · refine h.of_silent ⟨hconserved, fun _ => ?_, nofun, nofun⟩
    by_contra hcount
    exact hready (Or.inl hcount)

/-- A notified thread is not blocked. -/
theorem ThreadInv.of_notified {x : Sleeper} {log : List (SleepEvent T)}
    (hconserved : sent t log = taken t log + cancelled t log + x.wakeupCount)
    (htested : x.phase = .tested → x.wakeupCount = 0) : ThreadInv x.notified t log := by
  unfold Sleeper.notified
  split_ifs with hblocked
  · exact ⟨hconserved, nofun, nofun, nofun⟩
  · exact ⟨hconserved, htested, fun hp => absurd hp hblocked, fun hp => absurd hp hblocked⟩

theorem Inv.step (h : Inv s) {a : SleepAction T} (hstep : s.step a = some s') : Inv s' := by
  cases a with
  | sleep t =>
    obtain ⟨-, ⟨⟩⟩ := Option.ite_none_right_eq_some.1 hstep
    exact h.test
  | retest t =>
    obtain ⟨-, ⟨⟩⟩ := Option.ite_none_right_eq_some.1 hstep
    exact h.test
  | block t =>
    obtain ⟨hphase, ⟨⟩⟩ := Option.ite_none_right_eq_some.1 hstep
    obtain ⟨hconserved, htested, -, -⟩ := h.threads t
    refine h.of_thread ⟨hconserved, nofun, fun _ hcount => absurd (htested hphase) hcount, fun _ => ?_⟩ trivial rfl
    simp only [exitNotified, if_true]
  | spurious t =>
    obtain ⟨-, ⟨⟩⟩ := Option.ite_none_right_eq_some.1 hstep
    exact h.of_silent ⟨(h.threads t).conserved, nofun, nofun, nofun⟩
  | wakeup t =>
    obtain ⟨hphase, ⟨⟩⟩ := Option.ite_none_left_eq_some.1 hstep
    obtain ⟨hconserved, -, -, hexit⟩ := h.threads t
    refine h.of_thread ⟨?_, fun hp => absurd hp hphase, fun _ _ => Nat.succ_ne_zero _, hexit⟩ trivial rfl
    simp only [sent, taken, cancelled, if_true, hconserved]
    bv_omega
  | notify t =>
    obtain ⟨-, ⟨⟩⟩ := Option.ite_none_left_eq_some.1 hstep
    exact h.of_silent (.of_notified (h.threads t).conserved (h.threads t).tested)
  | cancel t =>
    obtain ⟨-, ⟨⟩⟩ := Option.ite_none_left_eq_some.1 hstep
    obtain ⟨hconserved, -, -, hexit⟩ := h.threads t
    refine h.of_thread ⟨?_, fun _ => rfl, fun _ hcount => absurd rfl hcount, hexit⟩ trivial rfl
    simp only [sent, taken, cancelled, if_true, hconserved]
    bv_omega
  | requestExit =>
    obtain rfl := Option.some.inj hstep
    exact ⟨fun u => (h.threads u).cons nofun, fun _ => List.mem_cons_self,
      entries_cons.2 ⟨trivial, h.justified⟩⟩
  | notifyExit t =>
    obtain ⟨-, ⟨⟩⟩ := Option.ite_none_right_eq_some.1 hstep
    exact h.of_thread (.of_notified (h.threads t).conserved (h.threads t).tested) trivial rfl

end SleepRun

open SleepRun in
/-- In every interleaving each wake-up is pending, was taken by one sleep or was cancelled; a blocked
thread with a wake-up pending is still to be notified of it; a thread that is blocked has not been notified
of the exit since it blocked; and a sleep that took no wake-up ended for the exit. -/
theorem wakeups_conserved {T : Type} [DecidableEq T] (actions : List (SleepAction T)) (s : SleepRun T)
    (hrun : run SleepRun.step {} actions = some s) :
    (∀ t, sent t s.log = taken t s.log + cancelled t s.log + (s.threads t).wakeupCount) ∧
      (∀ t, (s.threads t).phase = .blocked → (s.threads t).wakeupCount ≠ 0 → (s.threads t).notifying ≠ 0) ∧
      (∀ t, (s.threads t).phase = .blocked → exitNotified t s.log = false) ∧
      ∀ newer event older, s.log = newer ++ event :: older → Justified older event := by
  have h : Inv s := run_invariant (fun _ _ _ h hstep => h.step hstep) inv_start hrun
  exact ⟨fun t => (h.threads t).conserved, fun t => (h.threads t).notified, fun t => (h.threads t).exit,
    entries_iff.1 h.justified⟩

open SleepRun in
/-- Thread 1 is woken and goes back to sleep; of two wake-ups sent to it, the second is cancelled. -/
theorem wakeups_conserved_two :
    let log : List (SleepEvent Nat) := [.blocked 1, .cancelled 1 1, .slept 1 true, .wakeup 1, .wakeup 1, .blocked 1]
    sent 1 log = taken 1 log + cancelled 1 log + 0 := by
  exact (wakeups_conserved (T := Nat) [.sleep 1, .block 1, .wakeup 1, .wakeup 1, .notify 1, .retest 1, .cancel 1,
    .sleep 1, .block 1] _ rfl).1 1

/-- An exit that is requested and notified between the test and the block is slept through. -/
example : (run SleepRun.step ({} : SleepRun Nat) [.sleep 1, .requestExit, .notifyExit 1, .block 1]).map
    (fun s => ((s.threads 1).phase, s.exitRequested)) = some (.blocked, true) := rfl

end Psprism
