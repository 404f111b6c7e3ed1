import Psprism.Wait
import Psprism.Lib.History
import Psprism.Lib.Interleaving

/-!
# Semaphores (`sceKernelWaitSema.cpp`, `sceKernelPollSema.cpp`, `sceKernelSignalSema.cpp`)

A wait takes a ticket and decides whether it queues while it holds the semaphore's own mutex, and gives
that up only in `changed.wait`, where the condition is tested first; so the part of a wait up to its sleep
is one action, as are a poll, a signal, and a sleeper's test of its condition after a wake-up or at its
timeout. No exit is requested. Tickets are counted without wrapping: a run of 2^64 waits is out of reach.

The history of a run says which call queued, was granted or timed out. What fairness means is defined on
it alone, apart from the tickets.
-/

namespace Psprism
open Interleaving History

structure Semaphore where
  count : Int
  maximum : Int
  nextWaitTicket : Nat := 0
  waitingTickets : List Nat := []

/-- A thread asleep in `sceKernelWaitSema`. -/
structure SemaWait (T : Type) where
  thread : T
  ticket : Nat
  requested : Int
  timeout : Timeout

def semaphoreZero : Word := 0x800201ad

/-- What became of a call. -/
inductive SemaEvent (T : Type)
  | refused (t : T) (result : Word)
  /-- A wait or a poll that did not sleep. -/
  | granted (t : T) (requested : Int)
  | queued (t : T)
  /-- A wait that slept. -/
  | served (t : T) (requested : Int)
  /-- With the result `waitTimeout`. -/
  | timedOut (t : T)
  | signalled (t : T) (amount : Int)

inductive SemaAction (T : Type)
  | wait (t : T) (requested : Word) (timeout : Timeout)
  | poll (t : T) (requested : Word)
  | signal (t : T) (amount : Word)
  /-- A sleeper tests its condition. -/
  | wake (t : T)
  /-- A sleeper tests its condition a last time. -/
  | expire (t : T)

structure SemaRun (T : Type) where
  sema : Semaphore
  asleep : List (SemaWait T) := []
  log : List (SemaEvent T) := []

namespace Semaphore

def Available (s : Semaphore) (ticket : Nat) (requested : Int) : Prop :=
  s.waitingTickets.head? = some ticket ∧ requested ≤ s.count

instance (s : Semaphore) (ticket : Nat) (requested : Int) : Decidable (s.Available ticket requested) :=
  inferInstanceAs (Decidable (_ ∧ _))

def removeWaiter (s : Semaphore) (ticket : Nat) : Semaphore :=
  { s with waitingTickets := s.waitingTickets.erase ticket }

def signalled (maximum count amount : Int) : Int := min maximum (wrapInt (count + amount))

end Semaphore

namespace SemaRun
variable {T : Type} [DecidableEq T]

/-- `sceKernelCreateSema`. -/
def create (count maximum : Word) : SemaRun T := { sema := { count := count.toInt, maximum := maximum.toInt } }

def Blocked (s : SemaRun T) (t : T) : Prop := t ∈ s.asleep.map SemaWait.thread

instance (s : SemaRun T) (t : T) : Decidable (s.Blocked t) := inferInstanceAs (Decidable (t ∈ _))

/-- `sceKernelWaitSema` up to its sleep. -/
def wait (s : SemaRun T) (t : T) (requested : Int) (timeout : Timeout) : SemaRun T :=
  if requested ≤ 0 ∨ s.sema.maximum < requested ∨ timeout = .unmapped then
    { s with log := .refused t unimplemented :: s.log }
  else
    let ticket := s.sema.nextWaitTicket
    if s.sema.count < requested ∨ s.sema.waitingTickets ≠ [] then
      { sema := { s.sema with
          nextWaitTicket := ticket + 1, waitingTickets := s.sema.waitingTickets ++ [ticket] }
        asleep := s.asleep ++ [⟨t, ticket, requested, timeout⟩]
        log := .queued t :: s.log }
    else
      { s with
        sema := { s.sema with nextWaitTicket := ticket + 1, count := s.sema.count - requested }
        log := .granted t requested :: s.log }

/-- `sceKernelPollSema`. -/
def poll (s : SemaRun T) (t : T) (requested : Int) : SemaRun T :=
  if requested ≤ 0 ∨ s.sema.count < requested ∨ s.sema.waitingTickets ≠ [] then
    { s with log := .refused t semaphoreZero :: s.log }
  else
    { s with
      sema := { s.sema with count := s.sema.count - requested }
      log := .granted t requested :: s.log }

/-- `sceKernelSignalSema`. -/
def signal (s : SemaRun T) (t : T) (amount : Int) : SemaRun T :=
  { s with
    sema := { s.sema with count := Semaphore.signalled s.sema.maximum s.sema.count amount }
    log := .signalled t amount :: s.log }

/-- A sleeper tests its condition, and leaves when it holds or its time is over. -/
def resume (s : SemaRun T) (w : SemaWait T) (expired : Prop) [Decidable expired] : SemaRun T :=
  let asleep := s.asleep.eraseP (·.thread = w.thread)
  let sema := s.sema.removeWaiter w.ticket
  if s.sema.Available w.ticket w.requested then
    { sema := { sema with count := sema.count - w.requested }
      asleep
      log := .served w.thread w.requested :: s.log }
  else if expired then { sema, asleep, log := .timedOut w.thread :: s.log }
  else s

def step (s : SemaRun T) : SemaAction T → Option (SemaRun T)
  | .wait t requested timeout => if s.Blocked t then none else some (s.wait t requested.toInt timeout)
  | .poll t requested => if s.Blocked t then none else some (s.poll t requested.toInt)
  | .signal t amount => if s.Blocked t then none else some (s.signal t amount.toInt)
  | .wake t => (s.asleep.find? (·.thread = t)).map fun w => s.resume w False
  | .expire t =>
    (s.asleep.find? (·.thread = t)).bind fun w => if w.timeout = .forever then none else some (s.resume w True)

/-! ### Fairness -/

/-- The threads that queued and have not left, the one that queued first at the front. -/
def waiting : List (SemaEvent T) → List T
  | [] => []
  | .queued t :: older => waiting older ++ [t]
  | .served t _ :: older => (waiting older).erase t
  | .timedOut t :: older => (waiting older).erase t
  | _ :: older => waiting older

/-- What signals have added and grants taken away. -/
def countAfter (maximum initial : Int) : List (SemaEvent T) → Int
  | [] => initial
  | .granted _ requested :: older => countAfter maximum initial older - requested
  | .served _ requested :: older => countAfter maximum initial older - requested
  | .signalled _ amount :: older => Semaphore.signalled maximum (countAfter maximum initial older) amount
  | _ :: older => countAfter maximum initial older

/-- How an event may follow those before it. -/
def Fair (maximum initial : Int) (older : List (SemaEvent T)) : SemaEvent T → Prop
  | .granted _ requested => 0 < requested ∧ requested ≤ countAfter maximum initial older ∧
      waiting older = []
  | .served t requested => 0 < requested ∧ requested ≤ countAfter maximum initial older ∧
      (waiting older).head? = some t
  | .timedOut t => t ∈ waiting older ∧ t ∉ waiting (.timedOut t :: older)
  | .queued t => t ∉ waiting older
  | _ => True

/-! ### Invariant -/

structure Inv (maximum initial : Int) (s : SemaRun T) : Prop where
  bound : s.sema.maximum = maximum
  count : s.sema.count = countAfter maximum initial s.log
  waiting : waiting s.log = s.asleep.map SemaWait.thread
  threads : (s.asleep.map SemaWait.thread).Nodup
  tickets : s.sema.waitingTickets = s.asleep.map SemaWait.ticket
  sorted : (s.asleep.map SemaWait.ticket).Pairwise (· < ·)
  fresh : ∀ w ∈ s.asleep, w.ticket < s.sema.nextWaitTicket
  positive : ∀ w ∈ s.asleep, 0 < w.requested
  fair : Entries (Fair maximum initial) s.log

variable {maximum initial : Int} {s s' : SemaRun T}

theorem inv_create (count maximum : Word) : Inv maximum.toInt count.toInt (create count maximum : SemaRun T) where
  bound := rfl
  count := rfl
  waiting := rfl
  threads := List.nodup_nil
  tickets := rfl
  sorted := List.Pairwise.nil
  fresh := by simp [create]
  positive := by simp [create]
  fair := entries_nil

theorem Inv.split (h : Inv maximum initial s) {t : T} {w : SemaWait T}
    (hw : s.asleep.find? (·.thread = t) = some w) :
    w.thread = t ∧ ∃ pre post, s.asleep = pre ++ w :: post ∧
      s.asleep.eraseP (·.thread = t) = pre ++ post ∧
      (SemaRun.waiting s.log).erase t = (pre ++ post).map SemaWait.thread ∧
      s.sema.waitingTickets.erase w.ticket = (pre ++ post).map SemaWait.ticket := by
  obtain ⟨ht, pre, post, heq, herase, hmap⟩ := split_of_find? hw
  refine ⟨ht, pre, post, heq, herase, by rw [h.waiting, hmap], ?_⟩
  have hsorted := h.sorted
  rw [heq, List.map_append, List.map_cons, List.pairwise_append] at hsorted
  have hticket : w.ticket ∉ pre.map SemaWait.ticket := fun hmem =>
    lt_irrefl _ (hsorted.2.2 _ hmem _ List.mem_cons_self)
  rw [h.tickets, heq, List.map_append, List.erase_append_right _ hticket, List.map_cons,
    List.erase_cons_head, List.map_append]

theorem Inv.wait (h : Inv maximum initial s) {t : T} (ht : ¬ s.Blocked t) (requested : Int) (timeout : Timeout) :
    Inv maximum initial (s.wait t requested timeout) := by
  unfold SemaRun.wait
  dsimp only
  split_ifs with herror hqueue
  · exact { h with fair := entries_cons.2 ⟨trivial, h.fair⟩ }
  · rw [not_or, not_or, not_le] at herror
    have hthread : ∀ u ∈ s.asleep.map SemaWait.thread, u ≠ t := fun u hu heq => ht (heq ▸ hu)
    refine ⟨h.bound, h.count, ?_, ?_, ?_, ?_, ?_, ?_, entries_cons.2 ⟨?_, h.fair⟩⟩
    · simp [SemaRun.waiting, h.waiting]
    · rw [List.map_append]
      exact List.nodup_append.2 ⟨h.threads, List.nodup_singleton _, by simpa using hthread⟩
    · simp [h.tickets]
    · rw [List.map_append]
      refine List.pairwise_append.2 ⟨h.sorted, List.pairwise_singleton _ _, ?_⟩
      simpa using h.fresh
    · intro w hw
      rcases List.mem_append.1 hw with hw | hw
      · exact Nat.lt_succ_of_lt (h.fresh w hw)
      · rw [List.mem_singleton.1 hw]
        exact Nat.lt_succ_self _
    · intro w hw
      rcases List.mem_append.1 hw with hw | hw
      · exact h.positive w hw
      · rw [List.mem_singleton.1 hw]
        exact herror.1
    · show t ∉ SemaRun.waiting s.log
      rw [h.waiting]
      exact ht
  · rw [not_or, not_or, not_le] at herror
    rw [not_or, not_lt, not_not] at hqueue
    have hnil : SemaRun.waiting s.log = [] := by
      have htickets := h.tickets
      rw [hqueue.2] at htickets
      rw [h.waiting, List.map_eq_nil_iff.1 htickets.symm, List.map_nil]
    refine { h with count := ?_, fresh := ?_, fair := entries_cons.2 ⟨?_, h.fair⟩ }
    · simp only [countAfter, h.count]
    · exact fun w hw => Nat.lt_succ_of_lt (h.fresh w hw)
    · exact ⟨herror.1, h.count ▸ hqueue.1, hnil⟩

theorem Inv.poll (h : Inv maximum initial s) (t : T) (requested : Int) :
    Inv maximum initial (s.poll t requested) := by
  unfold SemaRun.poll
  split_ifs with hrefused
  · exact { h with fair := entries_cons.2 ⟨trivial, h.fair⟩ }
  · rw [not_or, not_or, not_le, not_lt, not_not] at hrefused
    obtain ⟨hpos, hcount, hnil⟩ := hrefused
    have hasleep : s.asleep = [] := List.map_eq_nil_iff.1 (h.tickets.symm.trans hnil)
    refine { h with count := ?_, fair := entries_cons.2 ⟨⟨hpos, h.count ▸ hcount, ?_⟩, h.fair⟩ }
    · simp only [countAfter, h.count]
    · rw [h.waiting, hasleep, List.map_nil]

theorem Inv.signal (h : Inv maximum initial s) (t : T) (amount : Int) :
    Inv maximum initial (s.signal t amount) := by
  refine { h with count := ?_, fair := entries_cons.2 ⟨trivial, h.fair⟩ }
  simp only [SemaRun.signal, countAfter, h.count, h.bound]

theorem Inv.resume (h : Inv maximum initial s) {t : T} {w : SemaWait T}
    (hw : s.asleep.find? (·.thread = t) = some w) (expired : Prop) [Decidable expired] :
    Inv maximum initial (s.resume w expired) := by
  obtain ⟨rfl, pre, post, heq, herase, hwaiting, htickets⟩ := h.split hw
  have hsub : (pre ++ post).Sublist s.asleep := by
    rw [heq]
    exact (List.Sublist.refl pre).append (List.sublist_cons_self w post)
  have hmem : w ∈ s.asleep := by rw [heq]; simp
  have hthreads := h.threads.sublist (hsub.map SemaWait.thread)
  have hsorted := h.sorted.sublist (hsub.map SemaWait.ticket)
  unfold SemaRun.resume
  dsimp only
  rw [herase]
  split_ifs with havailable
  · obtain ⟨hfront, hcount⟩ := havailable
    -- tickets are distinct, so the sleeper whose ticket is in front is the first one
    have hfirst : pre = [] := by
      rw [h.tickets, heq] at hfront
      cases pre with
      | nil => rfl
      | cons v pre =>
        have hlt := h.sorted
        rw [heq] at hlt
        have hv : v.ticket = w.ticket := by simpa using hfront
        have hvw : v.ticket < w.ticket := (List.pairwise_cons.1 hlt).1 _ (by simp)
        omega
    have hhead : (SemaRun.waiting s.log).head? = some w.thread := by
      rw [h.waiting, heq, hfirst]
      rfl
    refine ⟨h.bound, ?_, hwaiting, hthreads, htickets, hsorted, fun v hv => h.fresh v (hsub.subset hv),
      fun v hv => h.positive v (hsub.subset hv), entries_cons.2 ⟨?_, h.fair⟩⟩
    · simp only [countAfter, Semaphore.removeWaiter, h.count]
    · exact ⟨h.positive w hmem, h.count ▸ hcount, hhead⟩
  · refine ⟨h.bound, h.count, hwaiting, hthreads, htickets, hsorted, fun v hv => h.fresh v (hsub.subset hv),
      fun v hv => h.positive v (hsub.subset hv), entries_cons.2 ⟨⟨?_, ?_⟩, h.fair⟩⟩
    · rw [h.waiting]
      exact List.mem_map_of_mem hmem
    · have hnodup : (SemaRun.waiting s.log).Nodup := h.waiting ▸ h.threads
      exact hnodup.not_mem_erase
  · exact h

theorem Inv.step (h : Inv maximum initial s) {a : SemaAction T} (hstep : s.step a = some s') :
    Inv maximum initial s' := by
  cases a with
  | wait t requested timeout =>
    obtain ⟨hblocked, ⟨⟩⟩ := Option.ite_none_left_eq_some.1 hstep
    exact h.wait hblocked _ _
  | poll t requested =>
    obtain ⟨-, ⟨⟩⟩ := Option.ite_none_left_eq_some.1 hstep
    exact h.poll t _
  | signal t amount =>
    obtain ⟨-, ⟨⟩⟩ := Option.ite_none_left_eq_some.1 hstep
    exact h.signal t _
  | wake t =>
    obtain ⟨w, hw, rfl⟩ := Option.map_eq_some_iff.1 hstep
    exact h.resume hw False
  | expire t =>
    obtain ⟨w, hw, hstep⟩ := Option.bind_eq_some_iff.1 hstep
    obtain ⟨-, ⟨⟩⟩ := Option.ite_none_left_eq_some.1 hstep
    exact h.resume hw True

end SemaRun

open SemaRun in
/-- After every run, the history is fair, the count is what its events leave, and the tickets in the
semaphore are those of the threads that are still waiting, in the order in which they queued. -/
theorem semaphore_fair {T : Type} [DecidableEq T] (count maximum : Word) (actions : List (SemaAction T))
    (s : SemaRun T) (hrun : run SemaRun.step (SemaRun.create count maximum) actions = some s) :
    (∀ newer event older, s.log = newer ++ event :: older → Fair maximum.toInt count.toInt older event) ∧
      s.sema.count = countAfter maximum.toInt count.toInt s.log ∧
      s.asleep.map SemaWait.thread = waiting s.log ∧
      s.sema.waitingTickets = s.asleep.map SemaWait.ticket := by
  have h : Inv maximum.toInt count.toInt s :=
    run_invariant (fun _ _ _ h hstep => h.step hstep) (inv_create count maximum) hrun
  exact ⟨entries_iff.1 h.fair, h.count, h.waiting.symm, h.tickets⟩

open SemaRun in
/-- Thread 3 cannot poll what a signal has set free for thread 2. -/
theorem semaphore_fair_signalled :
    let older : List (SemaEvent Nat) := [.refused 3 semaphoreZero, .signalled 1 1, .queued 2, .granted 1 1]
    waiting older = [2] ∧ Fair 2 1 older (.served 2 1) := by
  obtain ⟨hfair, -⟩ := semaphore_fair (T := Nat) 1 2
    [.wait 1 1 .forever, .wait 2 1 (.after 100), .signal 1 1, .poll 3 1, .wake 2] _ rfl
  exact ⟨rfl, hfair [] _ _ rfl⟩

end Psprism
