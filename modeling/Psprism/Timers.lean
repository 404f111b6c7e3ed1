import Psprism.GuestExecution
import Psprism.Reloc

/-!
# Alarms and sub-interrupts (`sceKernelSetAlarm.cpp`, `sceKernelEnableSubIntr.cpp`)

An alarm and a sub-interrupt have a host thread each: it waits for its time, takes the guest execution
lock, runs the handler under it and waits again. Whether it was cancelled it asks only in the wait, so a
cancelled timer whose time was up runs its handler once more, and no other one does (`timers_cancelled`).
The host threads are parties of the execution lock next to the guest threads. Registered timers stay in
their tables for good. No exit is requested in these runs: a request ends every wait, and the lock is not
given any more.
-/

namespace Psprism
open Interleaving History

inductive TimerKey
  | alarm (uid : Nat)
  | subInterrupt (interrupt sub : Word)
deriving DecidableEq

/-- Where the host thread of a timer is. -/
inductive TimerPhase
  /-- It was not started. -/
  | idle
  | waiting
  /-- Its time is up, and it wants the execution lock. -/
  | due
  | dispatching
  | finished
deriving DecidableEq

structure Timer where
  handler : Word
  enabled : Bool
  cancelled : Bool := false
  phase : TimerPhase

inductive TimerEvent
  | registered (k : TimerKey) (handler : Word)
  | cancelled (k : TimerKey)
  | expired (k : TimerKey)
  | fired (k : TimerKey)
deriving DecidableEq

def TimerEvent.key : TimerEvent → TimerKey
  | .registered k _ | .cancelled k | .expired k | .fired k => k

/-- What guest code can do that runs under a lock: pause, and come back. -/
def GuestAction.ofHandler {T : Type} : GuestAction T → Bool
  | .beginPause _ | .endPause _ | .serve _ => true
  | .beginLock _ | .endLock _ => false

inductive TimerAction (T : Type)
  /-- By a guest thread, or by a handler that is running. -/
  | guest (a : GuestAction (T ⊕ TimerKey))
  | setAlarm (handler : Word)
  | cancelAlarm (uid : Nat)
  | registerSubIntr (interrupt sub handler : Word)
  | enableSubIntr (interrupt sub : Word)
  | releaseSubIntr (interrupt sub : Word)
  /-- The wait ends because the timer was cancelled. -/
  | wake (k : TimerKey)
  | expire (k : TimerKey)
  | acquire (k : TimerKey)
  | fire (k : TimerKey)
  /-- The handler is done, and whether it is to run again. -/
  | finish (k : TimerKey) (again : Bool)

structure TimerRun (T : Type) where
  guest : GuestRun (T ⊕ TimerKey) := {}
  nextUid : Nat := 1
  timers : TimerKey → Option Timer := fun _ => none
  log : List TimerEvent := []

namespace TimerRun
variable {T : Type}

def setTimer (s : TimerRun T) (k : TimerKey) (x : Timer) : TimerRun T :=
  { s with timers := Function.update s.timers k (some x) }

def say (s : TimerRun T) (e : TimerEvent) : TimerRun T := { s with log := e :: s.log }

def phase (s : TimerRun T) (k : TimerKey) : TimerPhase := ((s.timers k).map Timer.phase).getD .idle

variable [DecidableEq T]

/-- `sceKernelCancelAlarm`, and `sceKernelReleaseSubIntrHandler`, which disables the interrupt as well. -/
def cancel (s : TimerRun T) (k : TimerKey) (enabled : Bool → Bool) : TimerRun T :=
  match s.timers k with
  | none => s
  | some x => (s.setTimer k { x with enabled := enabled x.enabled, cancelled := true }).say (.cancelled k)

/-- `sceKernelRegisterSubIntrHandler`. -/
def register (s : TimerRun T) (k : TimerKey) (handler : Word) : TimerRun T :=
  if handler = 0 ∨ (s.timers k).isSome then s
  else (s.setTimer k { handler, enabled := false, phase := .idle }).say (.registered k handler)

/-- `sceKernelEnableSubIntr`; only the display interrupt has a host thread. -/
def enable (s : TimerRun T) (interrupt sub : Word) : TimerRun T :=
  match s.timers (.subInterrupt interrupt sub) with
  | none => s
  | some x =>
    s.setTimer (.subInterrupt interrupt sub)
      { x with enabled := true, phase := if interrupt = 30 ∧ x.phase = .idle then .waiting else x.phase }

/-- A step of the host thread of a timer that is in `phase`, with the lock. -/
def advance (s : TimerRun T) (k : TimerKey) (phase : TimerPhase)
    (f : Timer → Option (Timer × GuestRun (T ⊕ TimerKey))) : Option (TimerRun T) :=
  (s.timers k).bind fun x =>
    if x.phase = phase then (f x).map fun (y, guest) => { s with guest }.setTimer k y else none

def step (s : TimerRun T) : TimerAction T → Option (TimerRun T)
  | .guest a =>
    match a.party with
    | .inl _ => (s.guest.step a).map fun guest => { s with guest }
    | .inr k =>
      if s.phase k = .dispatching ∧ a.ofHandler then (s.guest.step a).map fun guest => { s with guest } else none
  | .setAlarm handler =>
    let k := TimerKey.alarm s.nextUid
    some (({ s with nextUid := s.nextUid + 1 }.setTimer k { handler, enabled := true, phase := .waiting }).say
      (.registered k handler))
  | .cancelAlarm uid => some (s.cancel (.alarm uid) id)
  | .registerSubIntr interrupt sub handler => some (s.register (.subInterrupt interrupt sub) handler)
  | .enableSubIntr interrupt sub => some (s.enable interrupt sub)
  | .releaseSubIntr interrupt sub => some (s.cancel (.subInterrupt interrupt sub) fun _ => false)
  | .wake k =>
    s.advance k .waiting fun x => if x.cancelled then some ({ x with phase := .finished }, s.guest) else none
  | .expire k =>
    (s.advance k .waiting fun x =>
      if x.enabled ∧ ¬ x.cancelled then some ({ x with phase := .due }, s.guest) else none).map (·.say (.expired k))
  | .acquire k => s.advance k .due fun x => (s.guest.step (.beginLock (.inr k))).map fun guest => (x, guest)
  | .fire k =>
    (s.advance k .due fun x => (s.guest.step (.serve (.inr k))).map fun guest =>
      ({ x with phase := .dispatching }, guest)).map (·.say (.fired k))
  | .finish k again =>
    s.advance k .dispatching fun x => (s.guest.step (.endLock (.inr k))).map fun guest =>
      ({ x with phase := if again then .waiting else .finished }, guest)

/-! ### The execution lock -/

end TimerRun

namespace GuestRun
variable {T : Type} [DecidableEq T] {s s' : GuestRun T} {t : T}

/-- The scopes of a thread that runs a handler: its lock, and pauses within. -/
def Handling (x : GuestThread) : Prop :=
  (∃ pauses : List Bool, x.scopes = pauses.map Scope.pause ++ [.lock true]) ∧ x.acquiring.map Prod.snd ≠ some .lock

theorem Handling.step {a : GuestAction T} (h : Handling (s.threads a.party)) (ha : a.ofHandler = true)
    (hstep : s.step a = some s') : Handling (s'.threads a.party) := by
  obtain ⟨⟨pauses, hscopes⟩, hacquiring⟩ := h
  cases steps_of_step hstep with
  | beginLock => cases ha
  | endLock => cases ha
  | @serve t acquiring hacq =>
    simp only [GuestAction.party] at hscopes hacquiring
    cases acquiring with
    | lock => exact absurd (by rw [hacq]; rfl) hacquiring
    | pause =>
      refine ⟨⟨pauses, ?_⟩, ?_⟩
      · simpa [GuestRun.serve, setThread, say, GuestAction.party] using hscopes
      · simp [GuestRun.serve, setThread, say, GuestAction.party]
  | @beginPause t hacq =>
    have hscopes : (s.threads t).scopes = _ := hscopes
    refine ⟨⟨(s.threads t).locked :: pauses, ?_⟩, ?_⟩
    · unfold GuestRun.beginPause
      dsimp only
      split_ifs with hlocked
      · simp [release, setThread, say, GuestAction.party, hscopes, hlocked]
      · simp [setThread, say, GuestAction.party, hscopes, hlocked]
    · unfold GuestRun.beginPause
      dsimp only
      split_ifs <;> simp [release, setThread, say, GuestAction.party, hacq]
  | @endPause t paused below hacq htop =>
    simp only [GuestAction.party] at hscopes
    rw [htop] at hscopes
    cases pauses with
    | nil => cases hscopes
    | cons p pauses =>
      obtain ⟨-, hbelow⟩ := List.cons.inj hscopes
      refine ⟨⟨pauses, ?_⟩, ?_⟩
      · unfold GuestRun.endPause
        dsimp only
        split_ifs <;> simp [takeTicket, setThread, say, GuestAction.party, hbelow]
      · unfold GuestRun.endPause
        dsimp only
        split_ifs <;> simp [takeTicket, setThread, say, GuestAction.party, hacq]

end GuestRun

namespace TimerRun
variable {T : Type} [DecidableEq T] {s s' : TimerRun T} {k : TimerKey}

/-! ### What a history says -/

/-- The time of the timer is up, and its handler has not begun since. -/
def due (k : TimerKey) : List TimerEvent → Bool
  | [] => false
  | .expired j :: older => if j = k then true else due k older
  | .fired j :: older => if j = k then false else due k older
  | _ :: older => due k older

/-- A timer is registered once. -/
def Once (older : List TimerEvent) : TimerEvent → Prop
  | .registered k _ => ∀ handler, .registered k handler ∉ older
  | _ => True

/-! ### Invariant -/

def phaseOf (x : Option Timer) : TimerPhase := (x.map Timer.phase).getD .idle

/-- What the host thread of a timer has begun on the execution lock. -/
def Party : TimerPhase → GuestThread → Prop
  | .dispatching, x => GuestRun.Handling x
  | .due, x => x.scopes = [] ∧ x.acquiring.map Prod.snd ≠ some .pause
  | _, x => x.scopes = [] ∧ x.acquiring = none

structure KeyInv (x : Option Timer) (thread : GuestThread) (k : TimerKey) (log : List TimerEvent) : Prop where
  due : due k log = true ↔ phaseOf x = .due
  cancelled : .cancelled k ∈ log → ∃ y, x = some y ∧ y.cancelled = true
  late : ∀ newer older, log = newer ++ .cancelled k :: older →
    newer.count (.fired k) + (if phaseOf x = .due then 1 else 0) ≤ if TimerRun.due k older then 1 else 0
  party : Party (phaseOf x) thread
  registered : ∀ handler, .registered k handler ∈ log → x ≠ none

structure Inv (s : TimerRun T) : Prop where
  guest : s.guest.Inv
  keys : ∀ k, KeyInv (s.timers k) (s.guest.threads (.inr k)) k s.log
  fresh : ∀ uid, s.nextUid ≤ uid → s.timers (.alarm uid) = none
  once : Entries Once s.log

theorem inv_start : Inv ({} : TimerRun T) where
  guest := GuestRun.inv_start
  keys _ := ⟨by simp [due, phaseOf], nofun, fun newer older h => by simp at h, ⟨rfl, rfl⟩, nofun⟩
  fresh _ _ := rfl
  once := entries_nil

/-- An event about another timer. -/
theorem KeyInv.cons {x : Option Timer} {thread : GuestThread} {log : List TimerEvent} {e : TimerEvent}
    (h : KeyInv x thread k log) (he : e.key ≠ k) : KeyInv x thread k (e :: log) := by
  have hne : ∀ e', e'.key = k → e' ≠ e := fun e' hk heq => he (heq ▸ hk)
  refine ⟨?_, fun hmem => ?_, fun newer older hlog => ?_, h.party, fun handler hmem => ?_⟩
  · rw [← h.due]
    cases e with
    | expired j => rw [TimerRun.due, if_neg (show j ≠ k from he)]
    | fired j => rw [TimerRun.due, if_neg (show j ≠ k from he)]
    | _ => rfl
  · exact h.cancelled ((List.mem_cons.1 hmem).resolve_left (hne _ rfl))
  · rcases cons_eq_append_cons.1 hlog with ⟨-, heq, -⟩ | ⟨newer', rfl, hlog'⟩
    · exact absurd heq.symm (hne _ rfl)
    · rw [List.count_cons_of_ne (hne _ rfl).symm]
      exact h.late newer' older hlog'
  · exact h.registered handler ((List.mem_cons.1 hmem).resolve_left (hne _ rfl))

/-- A step of one timer that its history does not mention. -/
theorem Inv.of_key (h : Inv s) {y : Timer} (guest : GuestRun (T ⊕ TimerKey)) (hguest : guest.Inv)
    (hother : ∀ j, j ≠ k → guest.threads (.inr j) = s.guest.threads (.inr j)) (hold : s.timers k ≠ none)
    (hkey : KeyInv (some y) (guest.threads (.inr k)) k s.log) : Inv ({ s with guest }.setTimer k y) := by
  refine ⟨hguest, fun j => ?_, fun uid huid => ?_, h.once⟩
  · by_cases hj : j = k
    · subst hj
      simp only [setTimer, Function.update_self]
      exact hkey
    · simp only [setTimer, Function.update_of_ne hj, hother j hj]
      exact h.keys j
  · have hfresh := h.fresh uid huid
    have hne : TimerKey.alarm uid ≠ k := fun heq => hold (heq ▸ hfresh)
    simp only [setTimer, Function.update_of_ne hne]
    exact hfresh

/-- The same with an event about the timer. -/
theorem Inv.of_key_say (h : Inv s) {y : Timer} {e : TimerEvent} (guest : GuestRun (T ⊕ TimerKey))
    (hguest : guest.Inv) (hother : ∀ j, j ≠ k → guest.threads (.inr j) = s.guest.threads (.inr j))
    (hfresh : ∀ uid, s.nextUid ≤ uid → TimerKey.alarm uid ≠ k) (he : e.key = k) (honce : Once s.log e)
    (hkey : KeyInv (some y) (guest.threads (.inr k)) k (e :: s.log)) :
    Inv (({ s with guest }.setTimer k y).say e) := by
  refine ⟨hguest, fun j => ?_, fun uid huid => ?_, entries_cons.2 ⟨honce, h.once⟩⟩
  · by_cases hj : j = k
    · subst hj
      simp only [say, setTimer, Function.update_self]
      exact hkey
    · simp only [say, setTimer, Function.update_of_ne hj, hother j hj]
      exact (h.keys j).cons fun heq => hj (heq.symm.trans he)
  · simp only [say, setTimer, Function.update_of_ne (hfresh uid huid)]
    exact h.fresh uid huid

theorem Inv.not_fresh (h : Inv s) (hold : s.timers k ≠ none) (uid : Nat) (huid : s.nextUid ≤ uid) :
    TimerKey.alarm uid ≠ k :=
  fun heq => hold (heq ▸ h.fresh uid huid)

/-- The timer is as it was but for its flags and a phase that is not near its handler. -/
theorem KeyInv.of_quiet {x y : Timer} {thread thread' : GuestThread} {log : List TimerEvent}
    (h : KeyInv (some x) thread k log) (hcancelled : x.cancelled = true → y.cancelled = true)
    (hdue : y.phase = .due ↔ x.phase = .due) (hparty : Party y.phase thread') :
    KeyInv (some y) thread' k log := by
  refine ⟨h.due.trans hdue.symm, fun hmem => ?_, fun newer older hlog => ?_, hparty, fun _ _ => nofun⟩
  · obtain ⟨x', hx, hc⟩ := h.cancelled hmem
    obtain rfl := Option.some.inj hx
    exact ⟨y, rfl, hcancelled hc⟩
  · have hlate := h.late newer older hlog
    simp only [phaseOf, Option.map_some, Option.getD_some] at hlate ⊢
    simp only [hdue]
    exact hlate

omit [DecidableEq T] in
theorem advance_eq_some {phase : TimerPhase} {f : Timer → Option (Timer × GuestRun (T ⊕ TimerKey))}
    (h : s.advance k phase f = some s') : ∃ x y guest, s.timers k = some x ∧ x.phase = phase ∧
      f x = some (y, guest) ∧ s' = { s with guest }.setTimer k y := by
  obtain ⟨x, hx, h⟩ := Option.bind_eq_some_iff.1 h
  obtain ⟨hphase, h⟩ := Option.ite_none_right_eq_some.1 h
  obtain ⟨⟨y, guest⟩, hf, rfl⟩ := Option.map_eq_some_iff.1 h
  exact ⟨x, y, guest, hx, hphase, hf, rfl⟩

/-- A timer that is registered now. -/
theorem Inv.register (h : Inv s) (hnone : s.timers k = none) (handler : Word) (enabled : Bool)
    {phase : TimerPhase} (hphase : phase = .idle ∨ phase = .waiting)
    (hfresh : ∀ uid, s.nextUid ≤ uid → TimerKey.alarm uid ≠ k) :
    Inv ((s.setTimer k { handler, enabled, phase }).say (.registered k handler)) := by
  obtain ⟨hdue, hcancelled, -, hparty, hregistered⟩ := h.keys k
  rw [hnone] at hdue hcancelled hparty hregistered
  have hnever : .cancelled k ∉ s.log := fun hmem => by
    obtain ⟨y, hy, -⟩ := hcancelled hmem
    cases hy
  refine h.of_key_say s.guest h.guest (fun _ _ => rfl) hfresh rfl
    (fun _ hmem => hregistered _ hmem rfl) ⟨?_, fun hmem => ?_, fun newer older hlog => ?_, ?_, fun _ _ => nofun⟩
  · rw [show TimerRun.due k (.registered k handler :: s.log) = TimerRun.due k s.log from rfl, hdue]
    rcases hphase with rfl | rfl <;> simp [phaseOf]
  · exact absurd ((List.mem_cons.1 hmem).resolve_left nofun) hnever
  · rcases cons_eq_append_cons.1 hlog with ⟨-, heq, -⟩ | ⟨newer', -, hlog'⟩
    · cases heq
    · exact absurd (hlog' ▸ List.mem_append_right _ List.mem_cons_self) hnever
  · rcases hphase with rfl | rfl <;> exact hparty

theorem Inv.cancel (h : Inv s) (k : TimerKey) (enabled : Bool → Bool) : Inv (s.cancel k enabled) := by
  unfold TimerRun.cancel
  cases hx : s.timers k with
  | none => exact h
  | some x =>
    obtain ⟨hdue, -, hlate, hparty, -⟩ := h.keys k
    rw [hx] at hdue hlate hparty
    refine h.of_key_say s.guest h.guest (fun _ _ => rfl) (h.not_fresh (by simp [hx])) rfl trivial
      ⟨hdue, fun _ => ⟨_, rfl, rfl⟩, fun newer older hlog => ?_, hparty, fun _ _ => nofun⟩
    rcases cons_eq_append_cons.1 hlog with ⟨rfl, -, rfl⟩ | ⟨newer', rfl, hlog'⟩
    · rw [List.count_nil, Nat.zero_add]
      have hdue' : phaseOf (some x) = .due ↔ TimerRun.due k s.log = true := hdue.symm
      simp only [← hdue']
      exact Nat.le_refl _
    · have hne : TimerEvent.cancelled k ≠ .fired k := nofun
      rw [List.count_cons_of_ne hne]
      exact hlate newer' older hlog'

theorem Inv.enable (h : Inv s) (interrupt sub : Word) : Inv (s.enable interrupt sub) := by
  unfold TimerRun.enable
  cases hx : s.timers (.subInterrupt interrupt sub) with
  | none => exact h
  | some x =>
    have hkey := h.keys (.subInterrupt interrupt sub)
    rw [hx] at hkey
    have hparty := hkey.party
    refine h.of_key s.guest h.guest (fun _ _ => rfl) (by simp [hx]) (hkey.of_quiet (fun hc => hc) ?_ ?_)
    · dsimp only
      split_ifs with hstart
      · simp [hstart.2]
      · exact Iff.rfl
    · dsimp only
      split_ifs with hstart
      · rw [phaseOf, Option.map_some, hstart.2] at hparty
        exact hparty
      · exact hparty

/-- What guest threads and running handlers do with the lock. -/
theorem Inv.guestStep (h : Inv s) {a : GuestAction (T ⊕ TimerKey)} {guest : GuestRun (T ⊕ TimerKey)}
    (hstep : s.guest.step a = some guest)
    (hallowed : ∀ k, a.party = .inr k → phaseOf (s.timers k) = .dispatching ∧ a.ofHandler = true) :
    Inv { s with guest } := by
  refine ⟨h.guest.step hstep, fun k => ?_, h.fresh, h.once⟩
  obtain ⟨hdue, hcancelled, hlate, hparty, hregistered⟩ := h.keys k
  refine ⟨hdue, hcancelled, hlate, ?_, hregistered⟩
  by_cases hk : a.party = .inr k
  · obtain ⟨hphase, hhandler⟩ := hallowed k hk
    rw [hphase] at hparty ⊢
    have hhandling : GuestRun.Handling (s.guest.threads a.party) := by rw [hk]; exact hparty
    have hafter := hhandling.step hhandler hstep
    rw [hk] at hafter
    exact hafter
  · show Party _ (guest.threads (.inr k))
    rw [GuestRun.step_other hstep (Ne.symm hk)]
    exact hparty

theorem Inv.expire (h : Inv s) {x : Timer} (hx : s.timers k = some x) (hphase : x.phase = .waiting)
    (hcancelled : x.cancelled = false) :
    Inv (({ s with guest := s.guest }.setTimer k { x with phase := .due }).say (.expired k)) := by
  have hkey := h.keys k
  rw [hx] at hkey
  have hparty := hkey.party
  rw [phaseOf, Option.map_some, hphase] at hparty
  have hnever : .cancelled k ∉ s.log := fun hmem => by
    obtain ⟨y, hy, hc⟩ := hkey.cancelled hmem
    rw [← Option.some.inj hy, hcancelled] at hc
    cases hc
  refine h.of_key_say s.guest h.guest (fun _ _ => rfl) (h.not_fresh (by simp [hx])) rfl trivial
    ⟨?_, fun hmem => ?_, fun newer older hlog => ?_, ⟨hparty.1, by rw [hparty.2]; nofun⟩, fun _ _ => nofun⟩
  · rw [TimerRun.due, if_pos rfl]
    simp [phaseOf]
  · exact absurd ((List.mem_cons.1 hmem).resolve_left nofun) hnever
  · rcases cons_eq_append_cons.1 hlog with ⟨-, heq, -⟩ | ⟨newer', -, hlog'⟩
    · cases heq
    · exact absurd (hlog' ▸ List.mem_append_right _ List.mem_cons_self) hnever

theorem Inv.fire (h : Inv s) {x : Timer} {guest : GuestRun (T ⊕ TimerKey)} (hx : s.timers k = some x)
    (hphase : x.phase = .due) (hstep : s.guest.step (.serve (.inr k)) = some guest) :
    Inv (({ s with guest }.setTimer k { x with phase := .dispatching }).say (.fired k)) := by
  have hkey := h.keys k
  rw [hx] at hkey
  obtain ⟨-, hcancelled, hlate, hparty, -⟩ := hkey
  rw [phaseOf, Option.map_some, hphase] at hparty
  obtain ⟨hscopes, hacquiring⟩ := hparty
  refine h.of_key_say guest (h.guest.step hstep) (fun j hj => GuestRun.step_other hstep (by simpa [GuestAction.party]))
    (h.not_fresh (by simp [hx])) rfl trivial ⟨?_, fun hmem => ?_, fun newer older hlog => ?_, ?_, fun _ _ => nofun⟩
  · rw [TimerRun.due, if_pos rfl]
    simp [phaseOf]
  · obtain ⟨y, hy, hc⟩ := hcancelled ((List.mem_cons.1 hmem).resolve_left nofun)
    obtain rfl := Option.some.inj hy
    exact ⟨_, rfl, hc⟩
  · rcases cons_eq_append_cons.1 hlog with ⟨-, heq, -⟩ | ⟨newer', rfl, hlog'⟩
    · cases heq
    · have hbound := hlate newer' older hlog'
      rw [phaseOf, Option.map_some, hphase] at hbound
      rw [List.count_cons_self]
      simpa [phaseOf] using hbound
  · show GuestRun.Handling (guest.threads (.inr k))
    simp only [GuestRun.step] at hstep
    split at hstep
    · cases hstep
    · rename_i ticket acquiring hacq
      obtain ⟨-, ⟨⟩⟩ := Option.ite_none_right_eq_some.1 hstep
      cases acquiring with
      | pause => exact absurd (by rw [hacq]; rfl) hacquiring
      | lock =>
        refine ⟨⟨[], ?_⟩, ?_⟩
        · simp [GuestRun.serve, GuestRun.setThread, GuestRun.say, hscopes]
        · simp [GuestRun.serve, GuestRun.setThread, GuestRun.say]

theorem Inv.acquire (h : Inv s) {x : Timer} {guest : GuestRun (T ⊕ TimerKey)} (hx : s.timers k = some x)
    (hphase : x.phase = .due) (hstep : s.guest.step (.beginLock (.inr k)) = some guest) :
    Inv ({ s with guest }.setTimer k x) := by
  have hkey := h.keys k
  rw [hx] at hkey
  have hparty := hkey.party
  rw [phaseOf, Option.map_some, hphase] at hparty
  refine h.of_key guest (h.guest.step hstep) (fun j hj => GuestRun.step_other hstep (by simpa [GuestAction.party]))
    (by simp [hx]) (hkey.of_quiet (fun hc => hc) Iff.rfl ?_)
  obtain ⟨-, ⟨⟩⟩ := Option.ite_none_right_eq_some.1 hstep
  rw [hphase]
  refine ⟨?_, ?_⟩
  · simpa [GuestRun.takeTicket, GuestRun.setThread, GuestRun.say] using hparty.1
  · simp [GuestRun.takeTicket, GuestRun.setThread, GuestRun.say]

theorem Inv.finish (h : Inv s) {x : Timer} {guest : GuestRun (T ⊕ TimerKey)} (hx : s.timers k = some x)
    (hphase : x.phase = .dispatching) (hstep : s.guest.step (.endLock (.inr k)) = some guest) (again : Bool) :
    Inv ({ s with guest }.setTimer k { x with phase := if again then .waiting else .finished }) := by
  have hkey := h.keys k
  rw [hx] at hkey
  have hparty := hkey.party
  rw [phaseOf, Option.map_some, hphase] at hparty
  obtain ⟨⟨pauses, hscopes⟩, -⟩ := hparty
  refine h.of_key guest (h.guest.step hstep) (fun j hj => GuestRun.step_other hstep (by simpa [GuestAction.party]))
    (by simp [hx]) (hkey.of_quiet (fun hc => hc) (by rw [hphase]; cases again <;> simp) ?_)
  -- the lock is the last scope, so no pause is left
  have hafter : (guest.threads (.inr k)).scopes = [] ∧ (guest.threads (.inr k)).acquiring = none := by
    simp only [GuestRun.step] at hstep
    split at hstep
    · rename_i locked below hacq htop
      obtain rfl := Option.some.inj hstep
      rw [htop] at hscopes
      cases pauses with
      | cons p pauses => cases hscopes
      | nil =>
        obtain ⟨-, rfl⟩ := List.cons.inj hscopes
        unfold GuestRun.endLock
        dsimp only
        split_ifs <;> simp [GuestRun.release, GuestRun.setThread, GuestRun.say, hacq]
    · cases hstep
  cases again <;> exact hafter

theorem Inv.step (h : Inv s) {a : TimerAction T} (hstep : s.step a = some s') : Inv s' := by
  cases a with
  | guest a =>
    simp only [TimerRun.step] at hstep
    split at hstep
    · rename_i t hparty
      obtain ⟨guest, hguest, rfl⟩ := Option.map_eq_some_iff.1 hstep
      exact h.guestStep hguest fun k hk => by rw [hparty] at hk; cases hk
    · rename_i j hparty
      obtain ⟨hallowed, hstep⟩ := Option.ite_none_right_eq_some.1 hstep
      obtain ⟨guest, hguest, rfl⟩ := Option.map_eq_some_iff.1 hstep
      refine h.guestStep hguest fun k hk => ?_
      rw [hparty] at hk
      cases hk
      exact hallowed
  | setAlarm handler =>
    obtain rfl := Option.some.inj hstep
    have hnext : Inv { s with nextUid := s.nextUid + 1 } :=
      ⟨h.guest, h.keys, fun uid huid => h.fresh uid (Nat.le_of_succ_le huid), h.once⟩
    refine hnext.register (h.fresh _ (Nat.le_refl _)) handler true (.inr rfl) fun uid huid heq => ?_
    obtain rfl := TimerKey.alarm.inj heq
    exact absurd huid (Nat.not_succ_le_self _)
  | cancelAlarm uid => obtain rfl := Option.some.inj hstep; exact h.cancel ..
  | releaseSubIntr interrupt sub => obtain rfl := Option.some.inj hstep; exact h.cancel ..
  | enableSubIntr interrupt sub => obtain rfl := Option.some.inj hstep; exact h.enable ..
  | registerSubIntr interrupt sub handler =>
    obtain rfl := Option.some.inj hstep
    unfold TimerRun.register
    split_ifs with hskip
    · exact h
    · refine Inv.register h ?_ handler false (.inl rfl) fun _ _ => nofun
      rw [not_or, Option.not_isSome_iff_eq_none] at hskip
      exact hskip.2
  | wake k =>
    obtain ⟨x, y, guest, hx, hphase, hf, rfl⟩ := advance_eq_some hstep
    obtain ⟨-, hy⟩ := Option.ite_none_right_eq_some.1 hf
    cases hy
    have hkey := h.keys k
    rw [hx] at hkey
    have hparty := hkey.party
    rw [phaseOf, Option.map_some, hphase] at hparty
    exact h.of_key s.guest h.guest (fun _ _ => rfl) (by simp [hx])
      (hkey.of_quiet (fun hc => hc) (by rw [hphase]; simp) hparty)
  | expire k =>
    obtain ⟨s₁, hadvance, rfl⟩ := Option.map_eq_some_iff.1 hstep
    obtain ⟨x, y, guest, hx, hphase, hf, rfl⟩ := advance_eq_some hadvance
    obtain ⟨hready, hy⟩ := Option.ite_none_right_eq_some.1 hf
    cases hy
    exact h.expire hx hphase (Bool.not_eq_true _ ▸ hready.2)
  | acquire k =>
    obtain ⟨x, y, guest, hx, hphase, hf, rfl⟩ := advance_eq_some hstep
    obtain ⟨guest', hguest, hy⟩ := Option.map_eq_some_iff.1 hf
    cases hy
    exact h.acquire hx hphase hguest
  | fire k =>
    obtain ⟨s₁, hadvance, rfl⟩ := Option.map_eq_some_iff.1 hstep
    obtain ⟨x, y, guest, hx, hphase, hf, rfl⟩ := advance_eq_some hadvance
    obtain ⟨guest', hguest, hy⟩ := Option.map_eq_some_iff.1 hf
    cases hy
    exact h.fire hx hphase hguest
  | finish k again =>
    obtain ⟨x, y, guest, hx, hphase, hf, rfl⟩ := advance_eq_some hstep
    obtain ⟨guest', hguest, hy⟩ := Option.map_eq_some_iff.1 hf
    cases hy
    exact h.finish hx hphase hguest again

/-- Only a timer whose handler runs is inside guest execution. -/
theorem Inv.dispatching (h : Inv s) (hinside : .inr k ∈ GuestRun.inside s.guest.log) :
    s.phase k = .dispatching := by
  have hlocked := (h.guest.threads (.inr k)).inside.1 hinside
  have hflag := (h.guest.threads (.inr k)).flag
  have hparty := (h.keys k).party
  have hidle : ∀ x : GuestThread, x.scopes = [] → x.acquiring.map Prod.snd ≠ some .pause → GuestRun.FlagOk x →
      x.locked = false := by
    intro x hscopes hacq hflag
    unfold GuestRun.FlagOk at hflag
    split at hflag
    · rename_i ticket heq
      exact absurd (by rw [heq]; rfl) hacq
    · rw [hflag, hscopes]
      rfl
  show phaseOf (s.timers k) = .dispatching
  cases hphase : phaseOf (s.timers k) with
  | dispatching => rfl
  | due =>
    rw [hphase] at hparty
    rw [hidle _ hparty.1 hparty.2 hflag] at hlocked
    cases hlocked
  | _ =>
    rw [hphase] at hparty
    rw [hidle _ hparty.1 (by rw [hparty.2]; nofun) hflag] at hlocked
    cases hlocked

end TimerRun

open TimerRun in
/-- After every run of guest threads and timers: at most one party is inside guest execution, and a timer
only while its handler runs; each timer is registered once; and after a timer is cancelled its handler runs
at most once more, and not at all unless the timer's time was up when it was cancelled. -/
theorem timers_cancelled {T : Type} [DecidableEq T] (actions : List (TimerAction T)) (s : TimerRun T)
    (hrun : run TimerRun.step {} actions = some s) :
    (GuestRun.inside s.guest.log).length ≤ 1 ∧
      (∀ k, .inr k ∈ GuestRun.inside s.guest.log → s.phase k = .dispatching) ∧
      (∀ newer k handler older, s.log = newer ++ .registered k handler :: older →
        ∀ handler', .registered k handler' ∉ older) ∧
      ∀ newer k older, s.log = newer ++ .cancelled k :: older →
        newer.count (.fired k) ≤ if due k older then 1 else 0 := by
  have h : Inv s := run_invariant (fun _ _ _ h hstep => h.step hstep) inv_start hrun
  refine ⟨h.guest.orderly.exclusive, fun k hk => h.dispatching hk, fun newer k handler older hlog => ?_,
    fun newer k older hlog => ?_⟩
  · exact entries_iff.1 h.once newer _ older hlog
  · exact Nat.le_of_add_right_le ((h.keys k).late newer older hlog)

open TimerRun in
/-- An alarm that is cancelled while it waits for the lock runs its handler once more and not again. -/
theorem timers_cancelled_late :
    let k := TimerKey.alarm 1
    let newer : List TimerEvent := [.fired k]
    newer.count (.fired k) ≤ if due k [.expired k, .registered k 0x08900000] then 1 else 0 := by
  exact (timers_cancelled (T := Nat) [.setAlarm 0x08900000, .expire (.alarm 1), .acquire (.alarm 1), .cancelAlarm 1,
    .fire (.alarm 1), .finish (.alarm 1) true, .wake (.alarm 1)] _ rfl).2.2.2 _ _ _ rfl

end Psprism
