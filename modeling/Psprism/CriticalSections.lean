import Psprism.GuestExecution
import Psprism.Reloc

/-!
# Interrupt-protected sections (`sceKernelCpuSuspendIntr.cpp`, `yield_guest` of `runtime.cpp`)

Every stub but the listed ones yields when it returns: the execution lock is released and taken again, so
that another guest thread can run. While a thread has the CPU's interrupts suspended it does not yield. The
section it is in is then split only by the end of its slice or by a stub that blocks (`section_protected`).
No exit is requested in these runs; after a request a thread that has paused goes on without the lock.
-/

namespace Psprism
open Interleaving History

inductive SectionEvent (T : Type)
  | suspended (t : T)
  | resumed (t : T) (enabled : Bool)
  /-- A thread is served and runs guest code. -/
  | entered (t : T)
  | yielded (t : T)
  /-- A stub that pauses guest execution for itself. -/
  | blocked (t : T)
  | sliceEnded (t : T)

inductive SectionAction (T : Type)
  | guest (a : GuestAction T)
  /-- `sceKernelCpuSuspendIntr`. -/
  | suspend (t : T)
  /-- `sceKernelCpuResumeIntr` with its argument. -/
  | resume (t : T) (flags : Word)
  /-- The return of a stub that yields. -/
  | yield (t : T)

structure SectionRun (T : Type) where
  guest : GuestRun T := {}
  /-- `guest_interrupts_enabled` of each thread. -/
  interruptsEnabled : T → Bool := fun _ => true
  log : List (SectionEvent T) := []

/-- What an action on the execution lock means to the guest. -/
def GuestAction.event? {T : Type} : GuestAction T → Option (SectionEvent T)
  | .serve t => some (.entered t)
  | .endLock t => some (.sliceEnded t)
  | .beginPause t => some (.blocked t)
  | .beginLock _ | .endPause _ => none

namespace SectionRun
variable {T : Type} [DecidableEq T]

def setInterrupts (s : SectionRun T) (t : T) (enabled : Bool) : SectionRun T :=
  { s with interruptsEnabled := Function.update s.interruptsEnabled t enabled }

def say (s : SectionRun T) (e : SectionEvent T) : SectionRun T := { s with log := e :: s.log }

/-- The thread runs guest code. -/
def Running (s : SectionRun T) (t : T) : Prop :=
  (s.guest.threads t).locked = true ∧ (s.guest.threads t).acquiring = none

instance (s : SectionRun T) (t : T) : Decidable (s.Running t) := inferInstanceAs (Decidable (_ ∧ _))

def step (s : SectionRun T) : SectionAction T → Option (SectionRun T)
  | .guest a =>
    (s.guest.step a).map fun guest =>
      match a.event? with
      | some e => { s with guest }.say e
      | none => { s with guest }
  | .suspend t => if s.Running t then some ((s.setInterrupts t false).say (.suspended t)) else none
  | .resume t flags =>
    if s.Running t then some ((s.setInterrupts t (flags ≠ 0)).say (.resumed t (flags ≠ 0))) else none
  | .yield t =>
    if ¬ s.Running t then none
    else if s.interruptsEnabled t then
      (s.guest.step (.beginPause t)).map fun guest => { s with guest }.say (.yielded t)
    else some s

/-! ### Invariant -/

/-- Nothing that ends a section of the thread, or its slice, and no stub of it that blocks. -/
def Protected (t : T) (newer : List (SectionEvent T)) : Prop :=
  .resumed t true ∉ newer ∧ .sliceEnded t ∉ newer ∧ .blocked t ∉ newer

/-- Since it was suspended, the thread has not left guest execution and nobody else has entered it. -/
structure SectionInv (s : SectionRun T) (t : T) (newer : List (SectionEvent T)) : Prop where
  inside : (s.guest.threads t).locked = true
  suspended : s.interruptsEnabled t = false
  alone : ∀ u, .entered u ∉ newer
  kept : .yielded t ∉ newer

structure Inv (s : SectionRun T) : Prop where
  guest : s.guest.Inv
  sections : ∀ newer t older, s.log = newer ++ .suspended t :: older → Protected t newer → SectionInv s t newer

variable {s s' : SectionRun T} {t : T}

theorem inv_start : Inv ({} : SectionRun T) := ⟨GuestRun.inv_start, fun newer t older h => by simp at h⟩

omit [DecidableEq T] in
theorem Protected.of_cons {newer : List (SectionEvent T)} {e : SectionEvent T} (h : Protected t (e :: newer)) :
    Protected t newer :=
  ⟨fun hm => h.1 (List.mem_cons_of_mem e hm), fun hm => h.2.1 (List.mem_cons_of_mem e hm),
    fun hm => h.2.2 (List.mem_cons_of_mem e hm)⟩

/-- A thread that is inside stays inside, unless its lock or a pause takes it out; nobody is served. -/
theorem locked_of_step {g g' : GuestRun T} (h : g.Inv) {a : GuestAction T} (hstep : g.step a = some g')
    (hlocked : (g.threads t).locked = true) (hend : a ≠ .endLock t) (hpause : a ≠ .beginPause t) :
    (g'.threads t).locked = true ∧ ∀ u, a ≠ .serve u := by
  have hinside := (h.threads t).inside.2 hlocked
  have hserve : ∀ u, a ≠ .serve u := by
    rintro u rfl
    cases GuestRun.steps_of_step hstep with
    | serve hacq =>
      rw [h.orderly.inside_eq_nil (t := u) (by rw [hacq]; rfl)] at hinside
      cases hinside
  refine ⟨?_, hserve⟩
  by_cases hparty : t = a.party
  swap
  · rw [GuestRun.step_other hstep hparty]
    exact hlocked
  subst hparty
  cases GuestRun.steps_of_step hstep with
  | serve => exact absurd rfl (hserve _)
  | endLock => exact absurd rfl hend
  | beginPause => exact absurd rfl hpause
  | @beginLock u =>
    have hlocked : (g.threads u).locked = true := hlocked
    simpa [GuestRun.takeTicket, GuestRun.setThread, GuestRun.say, GuestAction.party] using hlocked
  | @endPause u paused below hacq hscopes =>
    -- in a pause the thread is not inside
    have hflag := (h.threads u).flag
    have hlocked : (g.threads u).locked = true := hlocked
    rw [GuestRun.FlagOk, hacq, hscopes, hlocked] at hflag
    cases hflag

/-- A step of the execution lock that does not take the thread out of its section. -/
theorem SectionInv.guestStep {newer : List (SectionEvent T)} (hinv : s.guest.Inv) (h : SectionInv s t newer)
    {a : GuestAction T} {guest : GuestRun T} (hstep : s.guest.step a = some guest) (hend : a ≠ .endLock t)
    (hpause : a ≠ .beginPause t) (log : List (SectionEvent T)) :
    SectionInv { s with guest, log } t newer ∧ ∀ u, a ≠ .serve u := by
  obtain ⟨hlocked, hserve⟩ := locked_of_step hinv hstep h.inside hend hpause
  exact ⟨⟨hlocked, h.suspended, h.alone, h.kept⟩, hserve⟩

omit [DecidableEq T] in
theorem SectionInv.cons [DecidableEq T] {newer : List (SectionEvent T)} {e : SectionEvent T}
    (h : SectionInv s t newer) (hentered : ∀ u, e ≠ .entered u) (hyielded : e ≠ .yielded t) :
    SectionInv s t (e :: newer) := by
  refine ⟨h.inside, h.suspended, fun u hm => ?_, fun hm => ?_⟩
  · rcases List.mem_cons.1 hm with heq | hm
    · exact hentered u heq.symm
    · exact h.alone u hm
  · rcases List.mem_cons.1 hm with heq | hm
    · exact hyielded heq.symm
    · exact h.kept hm

theorem Inv.guestStep (h : Inv s) {a : GuestAction T} {guest : GuestRun T}
    (hstep : s.guest.step a = some guest) {e : SectionEvent T} (he : a.event? = some e) :
    Inv ({ s with guest }.say e) := by
  refine ⟨h.guest.step hstep, fun newer t older hlog hprotected => ?_⟩
  rcases cons_eq_append_cons.1 hlog with ⟨-, rfl, -⟩ | ⟨newer', rfl, hlog'⟩
  · cases a <;> cases he
  · have hend : a ≠ .endLock t := by
      rintro rfl
      cases he
      exact hprotected.2.1 List.mem_cons_self
    have hpause : a ≠ .beginPause t := by
      rintro rfl
      cases he
      exact hprotected.2.2 List.mem_cons_self
    obtain ⟨hsection, hserve⟩ :=
      (h.sections newer' t older hlog' hprotected.of_cons).guestStep h.guest hstep hend hpause (e :: s.log)
    refine hsection.cons (fun u => ?_) ?_
    · rintro rfl
      cases a with
      | serve v => exact hserve v rfl
      | _ => cases he
    · rintro rfl
      cases a <;> cases he

theorem Inv.step (h : Inv s) {a : SectionAction T} (hstep : s.step a = some s') : Inv s' := by
  cases a with
  | guest a =>
    obtain ⟨guest, hguest, rfl⟩ := Option.map_eq_some_iff.1 hstep
    cases he : a.event? with
    | some e => exact h.guestStep hguest he
    | none =>
      refine ⟨h.guest.step hguest, fun newer t older hlog hprotected => ?_⟩
      refine ((h.sections newer t older hlog hprotected).guestStep h.guest hguest ?_ ?_ s.log).1
      · rintro rfl
        cases he
      · rintro rfl
        cases he
  | suspend t₀ =>
    obtain ⟨hrunning, ⟨⟩⟩ := Option.ite_none_right_eq_some.1 hstep
    refine ⟨h.guest, fun newer t older hlog hprotected => ?_⟩
    rcases cons_eq_append_cons.1 hlog with ⟨rfl, heq, -⟩ | ⟨newer', rfl, hlog'⟩
    · obtain rfl := SectionEvent.suspended.inj heq
      exact ⟨hrunning.1, Function.update_self .., fun _ => List.not_mem_nil, List.not_mem_nil⟩
    · obtain ⟨hinside, hsuspended, halone, hkept⟩ := h.sections newer' t older hlog' hprotected.of_cons
      have hsection : SectionInv ((s.setInterrupts t₀ false).say (.suspended t₀)) t newer' := by
        refine ⟨hinside, ?_, halone, hkept⟩
        by_cases ht : t = t₀
        · subst ht
          exact Function.update_self ..
        · exact (Function.update_of_ne ht _ _).trans hsuspended
      exact hsection.cons (fun _ => nofun) nofun
  | resume t₀ flags =>
    obtain ⟨-, ⟨⟩⟩ := Option.ite_none_right_eq_some.1 hstep
    refine ⟨h.guest, fun newer t older hlog hprotected => ?_⟩
    rcases cons_eq_append_cons.1 hlog with ⟨-, heq, -⟩ | ⟨newer', rfl, hlog'⟩
    · cases heq
    · obtain ⟨hinside, hsuspended, halone, hkept⟩ := h.sections newer' t older hlog' hprotected.of_cons
      have hsection : SectionInv ((s.setInterrupts t₀ (flags ≠ 0)).say (.resumed t₀ (flags ≠ 0))) t newer' := by
        refine ⟨hinside, ?_, halone, hkept⟩
        by_cases ht : t = t₀
        · subst ht
          -- had it been resumed, the section would be over
          rw [← Bool.not_eq_true]
          intro hon
          refine hprotected.1 (List.mem_cons.2 (Or.inl ?_))
          rw [show decide (flags ≠ 0) = true from (Function.update_self t _ s.interruptsEnabled).symm.trans hon]
        · exact (Function.update_of_ne ht _ _).trans hsuspended
      exact hsection.cons (fun _ => nofun) nofun
  | yield t₀ =>
    obtain ⟨-, hstep⟩ := Option.ite_none_left_eq_some.1 hstep
    split at hstep
    · rename_i henabled
      obtain ⟨guest, hguest, rfl⟩ := Option.map_eq_some_iff.1 hstep
      refine ⟨h.guest.step hguest, fun newer t older hlog hprotected => ?_⟩
      rcases cons_eq_append_cons.1 hlog with ⟨-, heq, -⟩ | ⟨newer', rfl, hlog'⟩
      · cases heq
      · have hsection := h.sections newer' t older hlog' hprotected.of_cons
        have hne : t₀ ≠ t := by
          rintro rfl
          rw [hsection.suspended] at henabled
          cases henabled
        obtain ⟨hsection, -⟩ := hsection.guestStep h.guest hguest nofun
          (fun heq => hne (GuestAction.beginPause.inj heq)) (.yielded t₀ :: s.log)
        exact hsection.cons (fun _ => nofun) fun heq => hne (SectionEvent.yielded.inj heq)
    · obtain rfl := Option.some.inj hstep
      exact h

end SectionRun

open SectionRun in
/-- In every interleaving: from the point where a thread suspends the interrupts, as long as it does not
resume them, its slice does not end and no stub of it blocks, the thread is inside guest execution, does not
yield, and no thread is served. -/
theorem section_protected {T : Type} [DecidableEq T] (actions : List (SectionAction T)) (s : SectionRun T)
    (hrun : run SectionRun.step {} actions = some s) (newer older : List (SectionEvent T)) (t : T)
    (hlog : s.log = newer ++ .suspended t :: older) (hresumed : .resumed t true ∉ newer)
    (hslice : .sliceEnded t ∉ newer) (hblocked : .blocked t ∉ newer) :
    GuestRun.inside s.guest.log = [t] ∧ .yielded t ∉ newer ∧ ∀ u, .entered u ∉ newer := by
  have h : Inv s := run_invariant (fun _ _ _ h hstep => h.step hstep) inv_start hrun
  obtain ⟨hinside, -, halone, hkept⟩ := h.sections newer t older hlog ⟨hresumed, hslice, hblocked⟩
  exact ⟨h.guest.orderly.inside_eq_singleton ((h.guest.threads t).inside.2 hinside), hkept, halone⟩

open SectionRun in
/-- Thread 2 waits for the lock while thread 1 returns from a stub in its section. -/
theorem section_protected_yield :
    (run SectionRun.step ({} : SectionRun Nat) [.guest (.beginLock 1), .guest (.serve 1), .suspend 1,
      .guest (.beginLock 2), .yield 1]).map (fun s => GuestRun.inside s.guest.log) = some [1] := by
  obtain ⟨hinside, -, -⟩ := section_protected (T := Nat) [.guest (.beginLock 1), .guest (.serve 1), .suspend 1,
    .guest (.beginLock 2), .yield 1] _ rfl [] [.entered 1] 1 rfl List.not_mem_nil List.not_mem_nil List.not_mem_nil
  exact congrArg some hinside

/-- The end of a slice lets another thread into the section. -/
example : (run SectionRun.step ({} : SectionRun Nat) [.guest (.beginLock 1), .guest (.serve 1), .suspend 1,
    .guest (.beginLock 2), .guest (.endLock 1), .guest (.serve 2)]).map
      (fun s => (GuestRun.inside s.guest.log, s.interruptsEnabled 1)) = some ([2], false) := rfl

end Psprism
