import Psprism.Lib.History
import Psprism.Lib.Interleaving
import Psprism.Lib.TicketLock

/-!
# The guest execution lock (`GuestExecutionLock` and `GuestExecutionPause` of `runtime.cpp`)

A thread that is to run guest code takes a ticket and waits until it is served; a `GuestExecutionPause`
gives the lock up for its scope if the thread has it, and takes a new ticket at its end. The thread knows
by a flag of its own whether it has the lock. Locks and pauses are scopes, and the scopes of a thread end
in the reverse order of their beginnings. Taking a ticket, being served and releasing each happen under
`guest_execution_mutex`. No exit is requested, and tickets are counted without wrapping.
-/

namespace Psprism
open Interleaving History TicketLock

/-- A scope that a thread is in, with the member its destructor looks at. -/
inductive Scope
  | lock (locked : Bool)
  | pause (paused : Bool)

/-- Where a thread waits in `acquire_guest_execution`. -/
inductive Acquiring
  | lock
  | pause

structure GuestThread where
  /-- `guest_execution_locked`. -/
  locked : Bool := false
  scopes : List Scope := []
  acquiring : Option (Nat × Acquiring) := none

inductive GuestEvent (T : Type)
  | took (t : T)
  | entered (t : T)
  | left (t : T)
  | pauseBegan (t : T)
  | pauseEnded (t : T)

inductive GuestAction (T : Type)
  | beginLock (t : T)
  /-- The ticket of a waiting thread is served. -/
  | serve (t : T)
  | endLock (t : T)
  | beginPause (t : T)
  | endPause (t : T)

/-- The party that takes an action on the execution lock. -/
def GuestAction.party {T : Type} : GuestAction T → T
  | .beginLock t | .serve t | .endLock t | .beginPause t | .endPause t => t

structure GuestRun (T : Type) where
  nextGuestTicket : Nat := 0
  servingGuestTicket : Nat := 0
  threads : T → GuestThread := fun _ => {}
  log : List (GuestEvent T) := []

namespace GuestRun
variable {T : Type}

/-! ### What a history says -/

/-- Who has taken a ticket, in the order in which they did. -/
def taken : List (GuestEvent T) → List T
  | [] => []
  | .took t :: older => taken older ++ [t]
  | _ :: older => taken older

/-- Who has been served, in the order in which they were. -/
def served : List (GuestEvent T) → List T
  | [] => []
  | .entered t :: older => served older ++ [t]
  | _ :: older => served older

variable [DecidableEq T]

def inside : List (GuestEvent T) → List T
  | [] => []
  | .entered t :: older => inside older ++ [t]
  | .left t :: older => (inside older).erase t
  | _ :: older => inside older

/-- For each pause that a thread is in, from the inmost one out: whether the thread was inside guest
execution when it began. -/
def pauses (t : T) : List (GuestEvent T) → List Bool
  | [] => []
  | .pauseBegan u :: older => if u = t then decide (t ∈ inside older) :: pauses t older else pauses t older
  | .pauseEnded u :: older => if u = t then (pauses t older).tail else pauses t older
  | _ :: older => pauses t older

theorem self_mem_inside (t : T) (older : List (GuestEvent T)) : t ∈ inside (.entered t :: older) :=
  List.mem_append_right _ List.mem_cons_self

theorem mem_inside_entered {t u : T} (h : u ≠ t) {older : List (GuestEvent T)} :
    u ∈ inside (.entered t :: older) ↔ u ∈ inside older := by
  rw [inside, List.mem_append, List.mem_singleton, or_iff_left h]

theorem pauses_began (t : T) (older : List (GuestEvent T)) :
    pauses t (.pauseBegan t :: older) = decide (t ∈ inside older) :: pauses t older := if_pos rfl

theorem pauses_ended (t : T) (older : List (GuestEvent T)) :
    pauses t (.pauseEnded t :: older) = (pauses t older).tail := if_pos rfl

theorem pauses_began_of_ne {t u : T} (h : t ≠ u) (older : List (GuestEvent T)) :
    pauses u (.pauseBegan t :: older) = pauses u older := if_neg h

theorem pauses_ended_of_ne {t u : T} (h : t ≠ u) (older : List (GuestEvent T)) :
    pauses u (.pauseEnded t :: older) = pauses u older := if_neg h

/-- A pause ends with the thread inside guest execution exactly if it was when the pause began. -/
def Restores (older : List (GuestEvent T)) : GuestEvent T → Prop
  | .pauseEnded t => (pauses t older).head? = some (decide (t ∈ inside older))
  | _ => True

/-! ### Steps -/

def setThread (s : GuestRun T) (t : T) (thread : GuestThread) : GuestRun T :=
  { s with threads := Function.update s.threads t thread }

def say (s : GuestRun T) (e : GuestEvent T) : GuestRun T := { s with log := e :: s.log }

/-- The first half of `acquire_guest_execution`. -/
def takeTicket (s : GuestRun T) (t : T) (acquiring : Acquiring) : GuestRun T :=
  ({ s with nextGuestTicket := s.nextGuestTicket + 1 }.setThread t
    { s.threads t with acquiring := some (s.nextGuestTicket, acquiring) }).say (.took t)

/-- `release_guest_execution`. -/
def release (s : GuestRun T) (t : T) : GuestRun T :=
  ({ s with servingGuestTicket := s.servingGuestTicket + 1 }.setThread t
    { s.threads t with locked := false }).say (.left t)

/-- The second half of `acquire_guest_execution`, and what is left of the constructor or destructor. -/
def serve (s : GuestRun T) (t : T) : Acquiring → GuestRun T
  | .lock => (s.setThread t
      { s.threads t with locked := true, scopes := .lock true :: (s.threads t).scopes, acquiring := none }).say
        (.entered t)
  | .pause => ((s.setThread t { s.threads t with locked := true, acquiring := none }).say (.entered t)).say
      (.pauseEnded t)

/-- `~GuestExecutionLock`. -/
def endLock (s : GuestRun T) (t : T) (locked : Bool) (below : List Scope) : GuestRun T :=
  let closed := s.setThread t { s.threads t with scopes := below }
  if locked then closed.release t else closed

/-- `GuestExecutionPause::GuestExecutionPause`. -/
def beginPause (s : GuestRun T) (t : T) : GuestRun T :=
  let paused := (s.threads t).locked
  let opened := (s.setThread t { s.threads t with scopes := .pause paused :: (s.threads t).scopes }).say
    (.pauseBegan t)
  if paused then opened.release t else opened

/-- `~GuestExecutionPause`. -/
def endPause (s : GuestRun T) (t : T) (paused : Bool) (below : List Scope) : GuestRun T :=
  let closed := s.setThread t { s.threads t with scopes := below }
  if paused then closed.takeTicket t .pause else closed.say (.pauseEnded t)

def step (s : GuestRun T) : GuestAction T → Option (GuestRun T)
  | .beginLock t => if (s.threads t).acquiring = none then some (s.takeTicket t .lock) else none
  | .serve t =>
    match (s.threads t).acquiring with
    | none => none
    | some (ticket, acquiring) => if ticket = s.servingGuestTicket then some (s.serve t acquiring) else none
  | .endLock t =>
    match (s.threads t).acquiring, (s.threads t).scopes with
    | none, .lock locked :: below => some (s.endLock t locked below)
    | _, _ => none
  | .beginPause t => if (s.threads t).acquiring = none then some (s.beginPause t) else none
  | .endPause t =>
    match (s.threads t).acquiring, (s.threads t).scopes with
    | none, .pause paused :: below => some (s.endPause t paused below)
    | _, _ => none

/-- What a step can do, and where. -/
inductive Steps (s : GuestRun T) : GuestAction T → GuestRun T → Prop
  | beginLock {t : T} (ht : (s.threads t).acquiring = none) : Steps s (.beginLock t) (s.takeTicket t .lock)
  | serve {t : T} {acquiring : Acquiring}
      (ht : (s.threads t).acquiring = some (s.servingGuestTicket, acquiring)) :
    Steps s (.serve t) (s.serve t acquiring)
  | endLock {t : T} {locked : Bool} {below : List Scope} (ht : (s.threads t).acquiring = none)
      (hscopes : (s.threads t).scopes = .lock locked :: below) :
    Steps s (.endLock t) (s.endLock t locked below)
  | beginPause {t : T} (ht : (s.threads t).acquiring = none) : Steps s (.beginPause t) (s.beginPause t)
  | endPause {t : T} {paused : Bool} {below : List Scope} (ht : (s.threads t).acquiring = none)
      (hscopes : (s.threads t).scopes = .pause paused :: below) :
    Steps s (.endPause t) (s.endPause t paused below)

theorem steps_of_step {s s' : GuestRun T} {a : GuestAction T} (hstep : s.step a = some s') : s.Steps a s' := by
  cases a with
  | beginLock t =>
    obtain ⟨ht, ⟨⟩⟩ := Option.ite_none_right_eq_some.1 hstep
    exact .beginLock ht
  | serve t =>
    rw [step] at hstep
    split at hstep
    · cases hstep
    next ticket acquiring ht =>
      obtain ⟨rfl, ⟨⟩⟩ := Option.ite_none_right_eq_some.1 hstep
      exact .serve ht
  | endLock t =>
    rw [step] at hstep
    split at hstep
    next locked below ht hscopes =>
      obtain rfl := Option.some.inj hstep
      exact .endLock ht hscopes
    · cases hstep
  | beginPause t =>
    obtain ⟨ht, ⟨⟩⟩ := Option.ite_none_right_eq_some.1 hstep
    exact .beginPause ht
  | endPause t =>
    rw [step] at hstep
    split at hstep
    next paused below ht hscopes =>
      obtain rfl := Option.some.inj hstep
      exact .endPause ht hscopes
    · cases hstep

/-! ### Invariant -/

def status : List Scope → Bool
  | .lock locked :: _ => locked
  | _ => false

/-- A lock was begun without the lock, and a pause remembers how it was begun. -/
def Nested : List Scope → Prop
  | [] => True
  | .lock locked :: below => locked = true ∧ status below = false ∧ Nested below
  | .pause paused :: below => paused = status below ∧ Nested below

/-- The pauses that a thread is in, the one that waits in its destructor included. -/
def openPauses (thread : GuestThread) : List Bool :=
  (match thread.acquiring with | some (_, .pause) => [true] | _ => []) ++
    thread.scopes.filterMap fun | .pause paused => some paused | .lock _ => none

/-- The flag is what the scopes say, except for a thread that waits in the destructor of a pause. -/
def FlagOk (thread : GuestThread) : Prop :=
  match thread.acquiring with
  | some (_, .pause) => thread.locked = false ∧ status thread.scopes = true
  | _ => thread.locked = status thread.scopes

structure ThreadInv (thread : GuestThread) (isInside : Prop) (pauses : List Bool) : Prop where
  inside : isInside ↔ thread.locked = true
  nested : Nested thread.scopes
  flag : FlagOk thread
  pauses : pauses = openPauses thread

structure Inv (s : GuestRun T) : Prop where
  orderly : Orderly s.nextGuestTicket s.servingGuestTicket (fun t => (s.threads t).acquiring.map Prod.fst)
    (inside s.log) (taken s.log) (served s.log)
  threads : ∀ t, ThreadInv (s.threads t) (t ∈ inside s.log) (pauses t s.log)
  restores : Entries Restores s.log

variable {s s' : GuestRun T} {t : T}

theorem inv_start : Inv ({} : GuestRun T) where
  orderly := .start
  threads := fun _ => ⟨iff_of_false List.not_mem_nil Bool.false_ne_true, trivial, rfl, rfl⟩
  restores := entries_nil

theorem Inv.not_mem_erase (h : Inv s) (hinside : t ∈ inside s.log) : t ∉ (inside s.log).erase t := by
  rw [h.orderly.inside_eq_singleton hinside, List.erase_cons_head]
  exact List.not_mem_nil

/-- The threads other than `t` see nothing of what `t` does. -/
theorem Inv.of_thread (h : Inv s)
    (hother : ∀ u, u ≠ t → s'.threads u = s.threads u ∧ (u ∈ inside s'.log ↔ u ∈ inside s.log) ∧
      pauses u s'.log = pauses u s.log)
    (hself : ThreadInv (s'.threads t) (t ∈ inside s'.log) (pauses t s'.log))
    (horderly : Orderly s'.nextGuestTicket s'.servingGuestTicket
      (fun u => (s'.threads u).acquiring.map Prod.fst) (inside s'.log) (taken s'.log) (served s'.log))
    (hrestores : Entries Restores s'.log) : Inv s' := by
  refine ⟨horderly, fun u => ?_, hrestores⟩
  by_cases hu : u = t
  · exact hu ▸ hself
  · obtain ⟨hthread, hinside, hpauses⟩ := hother u hu
    rw [hthread, hinside, hpauses]
    exact h.threads u

theorem tickets_update (threads : T → GuestThread) (t : T) (thread : GuestThread) :
    (fun u => (Function.update threads t thread u).acquiring.map Prod.fst) =
      Function.update (fun u => (threads u).acquiring.map Prod.fst) t (thread.acquiring.map Prod.fst) := by
  funext u
  by_cases hu : u = t
  · subst hu
    rw [Function.update_self, Function.update_self]
  · rw [Function.update_of_ne hu, Function.update_of_ne hu]

theorem tickets_update_self (threads : T → GuestThread) (t : T) (locked : Bool) (scopes : List Scope) :
    (fun u => (Function.update threads t ⟨locked, scopes, (threads t).acquiring⟩ u).acquiring.map Prod.fst) =
      fun u => (threads u).acquiring.map Prod.fst := by
  rw [tickets_update]
  exact Function.update_eq_self t _

theorem Inv.beginLock (h : Inv s) (ht : (s.threads t).acquiring = none) : Inv (s.takeTicket t .lock) := by
  have hself := h.threads t
  refine h.of_thread (t := t) (fun u hu => ?_) ?_ ?_ (entries_cons.2 ⟨trivial, h.restores⟩)
  · exact ⟨Function.update_of_ne hu _ _, Iff.rfl, rfl⟩
  · simp only [takeTicket, setThread, say, Function.update_self]
    refine ⟨hself.inside, hself.nested, ?_, ?_⟩
    · have hflag := hself.flag
      rw [FlagOk, ht] at hflag
      exact hflag
    · have hpauses := hself.pauses
      rw [openPauses, ht] at hpauses
      exact hpauses
  · have horderly := h.orderly.take t
    simp only [takeTicket, setThread, say, tickets_update]
    exact horderly

theorem Inv.serve (h : Inv s) {acquiring : Acquiring}
    (ht : (s.threads t).acquiring = some (s.servingGuestTicket, acquiring)) : Inv (s.serve t acquiring) := by
  have hself := h.threads t
  have hflag := hself.flag
  have hpauses := hself.pauses
  have hticket : (fun u => (s.threads u).acquiring.map Prod.fst) t = some s.servingGuestTicket := by
    simp only [ht, Option.map_some]
  have hnil := h.orderly.inside_eq_nil hticket
  have horderly := h.orderly.enter hticket
  have hunlocked : (s.threads t).locked = false := by
    rw [← Bool.not_eq_true, ← hself.inside, hnil]
    exact List.not_mem_nil
  rw [openPauses, ht] at hpauses
  rw [FlagOk, ht] at hflag
  cases acquiring with
  | lock =>
    refine h.of_thread (t := t) (fun u hu => ?_) ?_ ?_ (entries_cons.2 ⟨trivial, h.restores⟩)
    · exact ⟨Function.update_of_ne hu _ _, mem_inside_entered hu, rfl⟩
    · simp only [GuestRun.serve, setThread, say, Function.update_self]
      exact ⟨iff_of_true (self_mem_inside t _) rfl, ⟨rfl, hflag.symm.trans hunlocked, hself.nested⟩, rfl, hpauses⟩
    · simp only [GuestRun.serve, setThread, say, tickets_update]
      exact horderly
  | pause =>
    refine h.of_thread (t := t) (fun u hu => ?_) ?_ ?_
      (entries_cons.2 ⟨?_, entries_cons.2 ⟨trivial, h.restores⟩⟩)
    · exact ⟨Function.update_of_ne hu _ _, mem_inside_entered hu, pauses_ended_of_ne (Ne.symm hu) _⟩
    · simp only [GuestRun.serve, setThread, say, Function.update_self, pauses_ended]
      exact ⟨iff_of_true (self_mem_inside t _) rfl, hself.nested, hflag.2.symm, congrArg List.tail hpauses⟩
    · simp only [GuestRun.serve, setThread, say, tickets_update]
      exact horderly
    · have hmem : t ∈ inside (.entered t :: s.log) := self_mem_inside t _
      have hhead : (pauses t (.entered t :: s.log)).head? = some true := congrArg List.head? hpauses
      simp only [Restores, setThread, say, hhead, hmem, decide_true]

theorem Inv.endLock (h : Inv s) {locked : Bool} {below : List Scope} (ht : (s.threads t).acquiring = none)
    (hscopes : (s.threads t).scopes = .lock locked :: below) : Inv (s.endLock t locked below) := by
  have hself := h.threads t
  have hflag := hself.flag
  have hpauses := hself.pauses
  obtain ⟨rfl, hbelow, hnested⟩ : locked = true ∧ status below = false ∧ Nested below := by
    have hnested := hself.nested
    rwa [hscopes] at hnested
  rw [openPauses, ht, hscopes] at hpauses
  rw [FlagOk, ht, hscopes] at hflag
  have hinside : t ∈ inside s.log := hself.inside.2 hflag
  have hleave := h.orderly.leave hinside
  refine h.of_thread (t := t) (fun u hu => ?_) ?_ ?_ (entries_cons.2 ⟨trivial, h.restores⟩)
  · refine ⟨?_, List.mem_erase_of_ne hu, rfl⟩
    simp [GuestRun.endLock, release, setThread, say, hu]
  · simp only [GuestRun.endLock, release, setThread, say, if_true, Function.update_self]
    refine ⟨?_, hnested, ?_, hpauses.trans ?_⟩
    · exact iff_of_false (h.not_mem_erase hinside) Bool.false_ne_true
    · rw [FlagOk]
      simp only [ht]
      exact hbelow.symm
    · rw [openPauses]
      simp only [ht]
      rfl
  · simp only [GuestRun.endLock, release, setThread, say, if_true, Function.update_self, Function.update_idem]
    rw [tickets_update_self]
    exact hleave

theorem Inv.beginPause (h : Inv s) (ht : (s.threads t).acquiring = none) : Inv (s.beginPause t) := by
  have hself := h.threads t
  have hflag := hself.flag
  have hpauses := hself.pauses
  rw [openPauses, ht] at hpauses
  rw [FlagOk, ht] at hflag
  unfold GuestRun.beginPause
  dsimp only
  split_ifs with hlocked
  · have hinside : t ∈ inside s.log := hself.inside.2 hlocked
    have hleave := h.orderly.leave hinside
    refine h.of_thread (t := t) (fun u hu => ?_) ?_ ?_
      (entries_cons.2 ⟨trivial, entries_cons.2 ⟨trivial, h.restores⟩⟩)
    · refine ⟨?_, List.mem_erase_of_ne hu, ?_⟩
      · simp [release, setThread, say, hu]
      · exact pauses_began_of_ne (Ne.symm hu) _
    · simp only [release, setThread, say, Function.update_self]
      refine ⟨?_, ⟨hflag, hself.nested⟩, ?_, (pauses_began t _).trans ?_⟩
      · exact iff_of_false (h.not_mem_erase hinside) Bool.false_ne_true
      · rw [FlagOk]
        simp only [ht]
        rfl
      · rw [openPauses, hpauses]
        simp only [ht, hinside, hlocked, decide_true]
        rfl
    · simp only [release, setThread, say, Function.update_self, Function.update_idem]
      rw [tickets_update_self]
      exact hleave
  · have houtside : t ∉ inside s.log := mt hself.inside.1 hlocked
    rw [Bool.not_eq_true] at hlocked
    refine h.of_thread (t := t) (fun u hu => ?_) ?_ ?_ (entries_cons.2 ⟨trivial, h.restores⟩)
    · exact ⟨Function.update_of_ne hu _ _, Iff.rfl, pauses_began_of_ne (Ne.symm hu) _⟩
    · simp only [setThread, say, Function.update_self]
      refine ⟨hself.inside, ⟨hflag, hself.nested⟩, ?_, (pauses_began t _).trans ?_⟩
      · rw [FlagOk]
        simp only [ht]
        exact hlocked
      · rw [openPauses, hpauses]
        simp only [ht, houtside, hlocked, decide_false]
        rfl
    · simp only [setThread, say]
      rw [tickets_update_self]
      exact h.orderly

theorem Inv.endPause (h : Inv s) {paused : Bool} {below : List Scope} (ht : (s.threads t).acquiring = none)
    (hscopes : (s.threads t).scopes = .pause paused :: below) : Inv (s.endPause t paused below) := by
  have hself := h.threads t
  have hflag := hself.flag
  have hpauses := hself.pauses
  obtain ⟨hpaused, hnested⟩ : paused = status below ∧ Nested below := by
    have hnested := hself.nested
    rwa [hscopes] at hnested
  rw [openPauses, ht, hscopes] at hpauses
  rw [FlagOk, ht, hscopes] at hflag
  have hunlocked : (s.threads t).locked = false := hflag
  have houtside : t ∉ inside s.log := fun hmem => by
    rw [hself.inside, hunlocked] at hmem
    cases hmem
  unfold GuestRun.endPause
  dsimp only
  split_ifs with hp
  · refine h.of_thread (t := t) (fun u hu => ?_) ?_ ?_ (entries_cons.2 ⟨trivial, h.restores⟩)
    · refine ⟨?_, Iff.rfl, rfl⟩
      simp [takeTicket, setThread, say, hu]
    · simp only [takeTicket, setThread, say, Function.update_self]
      refine ⟨hself.inside, hnested, ⟨hunlocked, hpaused.symm.trans hp⟩, hpauses.trans ?_⟩
      rw [hp]
      rfl
    · simp only [takeTicket, setThread, say, Function.update_self, Function.update_idem, tickets_update]
      exact h.orderly.take t
  · rw [Bool.not_eq_true] at hp
    refine h.of_thread (t := t) (fun u hu => ?_) ?_ ?_ (entries_cons.2 ⟨?_, h.restores⟩)
    · exact ⟨Function.update_of_ne hu _ _, Iff.rfl, pauses_ended_of_ne (Ne.symm hu) _⟩
    · simp only [setThread, say, Function.update_self]
      refine ⟨hself.inside, hnested, ?_, (pauses_ended t _).trans ?_⟩
      · rw [FlagOk]
        simp only [ht]
        rw [hunlocked, ← hpaused, hp]
      · rw [openPauses, hpauses]
        simp only [ht]
        rfl
    · simp only [setThread, say]
      rw [tickets_update_self]
      exact h.orderly
    · simp only [Restores, setThread, hpauses, houtside, decide_false]
      rw [hp]
      rfl

theorem Inv.step (h : Inv s) {a : GuestAction T} (hstep : s.step a = some s') : Inv s' := by
  cases steps_of_step hstep with
  | beginLock ht => exact h.beginLock ht
  | serve ht => exact h.serve ht
  | endLock ht hscopes => exact h.endLock ht hscopes
  | beginPause ht => exact h.beginPause ht
  | endPause ht hscopes => exact h.endPause ht hscopes

/-- A step changes nobody but who takes it. -/
theorem step_other {a : GuestAction T} (hstep : s.step a = some s') {u : T} (hu : u ≠ a.party) :
    s'.threads u = s.threads u := by
  cases steps_of_step hstep with
  | beginLock => exact Function.update_of_ne hu _ _
  | @serve t acquiring =>
    cases acquiring <;> exact Function.update_of_ne hu _ _
  | endLock =>
    unfold endLock
    dsimp only
    split_ifs
    · exact (Function.update_of_ne hu _ _).trans (Function.update_of_ne hu _ _)
    · exact Function.update_of_ne hu _ _
  | beginPause =>
    unfold beginPause
    dsimp only
    split_ifs
    · exact (Function.update_of_ne hu _ _).trans (Function.update_of_ne hu _ _)
    · exact Function.update_of_ne hu _ _
  | endPause =>
    unfold endPause
    dsimp only
    split_ifs
    · exact (Function.update_of_ne hu _ _).trans (Function.update_of_ne hu _ _)
    · exact Function.update_of_ne hu _ _

end GuestRun

open GuestRun in
/-- After every run at most one thread is inside guest execution, and it is the one whose flag is set;
those served are the first that took a ticket; and every pause that has ended restored what it found. -/
theorem guestExecution_exclusive {T : Type} [DecidableEq T] (actions : List (GuestAction T)) (s : GuestRun T)
    (hrun : run GuestRun.step {} actions = some s) :
    (inside s.log).length ≤ 1 ∧ (∀ t, t ∈ inside s.log ↔ (s.threads t).locked = true) ∧
      served s.log <+: taken s.log ∧
      ∀ newer event older, s.log = newer ++ event :: older → Restores older event := by
  have h : Inv s := run_invariant (fun _ _ _ h hstep => h.step hstep) inv_start hrun
  exact ⟨h.orderly.exclusive, fun t => (h.threads t).inside, h.orderly.prefix_taken, entries_iff.1 h.restores⟩

open GuestRun in
/-- Thread 2 runs while thread 1 is in two nested pauses, after which thread 1 is served again. -/
theorem guestExecution_exclusive_nested :
    let older : List (GuestEvent Nat) := [.entered 1, .left 2, .took 1, .pauseEnded 1, .entered 2,
      .pauseBegan 1, .left 1, .pauseBegan 1, .took 2, .entered 1, .took 1]
    (taken older, served older, inside older) = ([1, 2, 1], [1, 2, 1], [1]) ∧
      Restores older (.pauseEnded 1) := by
  obtain ⟨-, -, -, hrestores⟩ := guestExecution_exclusive (T := Nat)
    [.beginLock 1, .serve 1, .beginLock 2, .beginPause 1, .beginPause 1, .serve 2, .endPause 1, .endPause 1,
      .endLock 2, .serve 1] _ rfl
  exact ⟨by decide, hrestores [] _ _ rfl⟩

end Psprism
