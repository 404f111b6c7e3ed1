import Psprism.EventFlag
import Psprism.Lib.Monitor
import Psprism.Mutex
import Psprism.Semaphore

/-!
# Wake-ups (`sceKernelWaitSema.cpp`, `sceKernelWaitEventFlag.cpp`, `sceKernelLockMutex.cpp` and their likes)

Semaphores, event flags and mutexes again, with their condition variables: a sleeper is one until a `notify_all`
reaches it, and tests its condition once it has the object's own mutex back, or for no reason. An unlock notifies
under that mutex, everything else after it has given it up.

Semaphores and event flags lose no wake-up. A mutex loses none as long as no lock by its owner brings the count to
zero: that frees the mutex, and only an unlock notifies.
-/

namespace Psprism
open Interleaving

variable {T : Type}

/-! ### Semaphores -/

namespace SemaRun

/-- The first in the queue, when the count is enough for it. -/
def Ready (s : SemaRun T) (t : T) : Prop := ∃ w ∈ s.asleep.head?, w.thread = t ∧ w.requested ≤ s.sema.count

theorem Ready.mem {s : SemaRun T} {t : T} (h : s.Ready t) : t ∈ s.asleep.map SemaWait.thread := by
  obtain ⟨w, hw, rfl, -⟩ := h
  exact List.mem_map_of_mem (List.mem_of_mem_head? hw)

variable [DecidableEq T]

/-- The test of the sleeper succeeds. -/
def Grants (s : SemaRun T) (t : T) : Prop :=
  ∃ w ∈ s.asleep.find? (·.thread = t), s.sema.Available w.ticket w.requested

instance (s : SemaRun T) (t : T) : Decidable (s.Grants t) :=
  inferInstanceAs (Decidable (∃ w ∈ s.asleep.find? (·.thread = t), s.sema.Available w.ticket w.requested))

def sleeper : SemaAction T → Option T
  | .wake t | .expire t => some t
  | .wait _ _ _ | .poll _ _ | .signal _ _ => none

/-- A wait that has queued notifies when it leaves. -/
def notice (s : SemaRun T) : SemaAction T → Notice
  | .wake t => if s.Grants t then .later else .silent
  | .signal _ _ | .expire _ => .later
  | .wait _ _ _ | .poll _ _ => .silent

def monitor : Monitor (SemaRun T) (SemaAction T) T where
  step := SemaRun.step
  sleepers s := s.asleep.map SemaWait.thread
  woken := sleeper
  notice := SemaRun.notice

variable {maximum initial : Int} {s s' : SemaRun T} {t : T}

theorem sleepers_resume {w : SemaWait T} (hw : s.asleep.find? (·.thread = t) = some w) (expired : Prop)
    [Decidable expired] :
    (s.resume w expired = s ∧ ¬ s.sema.Available w.ticket w.requested ∧ ¬ expired) ∨
      (s.sema.Available w.ticket w.requested ∨ expired) ∧ t ∈ s.asleep.map SemaWait.thread ∧
        (s.resume w expired).asleep.map SemaWait.thread = (s.asleep.map SemaWait.thread).erase t := by
  obtain ⟨rfl, pre, post, heq, herase, hmap⟩ := split_of_find? hw
  have hmem : w.thread ∈ s.asleep.map SemaWait.thread := by
    rw [heq]
    simp
  unfold SemaRun.resume
  dsimp only
  rw [herase]
  split_ifs with havailable hexpired
  · exact .inr ⟨.inl havailable, hmem, hmap.symm⟩
  · exact .inr ⟨.inr hexpired, hmem, hmap.symm⟩
  · exact .inl ⟨rfl, havailable, hexpired⟩

/-- Nobody is ready who was not, after a wait or a poll. -/
theorem Inv.ready_wait (h : s.Inv maximum initial) (requested : Int) (timeout : Timeout) {u : T}
    (hready : (s.wait t requested timeout).Ready u) : s.Ready u := by
  obtain ⟨w, hw, hu, hcount⟩ := hready
  unfold SemaRun.wait at hw hcount
  dsimp only at hw hcount
  split_ifs at hw hcount with herror hqueue
  · exact ⟨w, hw, hu, hcount⟩
  · cases hasleep : s.asleep with
    | nil =>
      have htickets := h.tickets
      rw [hasleep, List.map_nil] at htickets
      rw [hasleep] at hw
      obtain rfl := Option.some.inj hw
      have hfew : s.sema.count < requested := hqueue.resolve_right fun hne => hne htickets
      exact absurd hcount (not_le.2 hfew)
    | cons v rest =>
      rw [hasleep] at hw
      exact ⟨w, by rw [hasleep]; exact hw, hu, hcount⟩
  · have hnil : s.asleep = [] :=
      List.map_eq_nil_iff.1 (h.tickets.symm.trans (not_not.1 fun hne => hqueue (.inr hne)))
    rw [hnil] at hw
    cases hw

theorem Inv.ready_poll (h : s.Inv maximum initial) (requested : Int) {u : T}
    (hready : (s.poll t requested).Ready u) : s.Ready u := by
  obtain ⟨w, hw, hu, hcount⟩ := hready
  unfold SemaRun.poll at hw hcount
  split_ifs at hw hcount with hrefused
  · exact ⟨w, hw, hu, hcount⟩
  · have hnil : s.asleep = [] :=
      List.map_eq_nil_iff.1 (h.tickets.symm.trans (not_not.1 fun hne => hrefused (.inr (.inr hne))))
    rw [hnil] at hw
    cases hw

/-- Who is ready finds its condition true. -/
theorem Inv.available (h : s.Inv maximum initial) (hready : s.Ready t) : s.Grants t := by
  obtain ⟨w, hw, rfl, hcount⟩ := hready
  obtain ⟨rest, hasleep⟩ := List.head?_eq_some_iff.1 hw
  refine ⟨w, by simp [hasleep], ?_, hcount⟩
  rw [h.tickets, hasleep]
  rfl

theorem sleepers_call {a : SemaAction T} (hstep : s.step a = some s') (ha : sleeper a = none) :
    s.asleep.map SemaWait.thread ⊆ s'.asleep.map SemaWait.thread := by
  cases a with
  | wait t requested timeout =>
    obtain ⟨-, ⟨⟩⟩ := Option.ite_none_left_eq_some.1 hstep
    unfold SemaRun.wait
    dsimp only
    split_ifs
    · exact fun _ => id
    · rw [List.map_append]
      exact List.subset_append_left _ _
    · exact fun _ => id
  | poll t requested =>
    obtain ⟨-, ⟨⟩⟩ := Option.ite_none_left_eq_some.1 hstep
    unfold SemaRun.poll
    split_ifs <;> exact fun _ => id
  | signal t amount =>
    obtain ⟨-, ⟨⟩⟩ := Option.ite_none_left_eq_some.1 hstep
    exact fun _ => id
  | wake t | expire t => cases ha

theorem sleepers_test {a : SemaAction T} (hstep : s.step a = some s')
    (ha : sleeper a = some t) :
    (s'.asleep.map SemaWait.thread = s.asleep.map SemaWait.thread ∧ s.notice a = .silent) ∨
      t ∈ s.asleep.map SemaWait.thread ∧
        s'.asleep.map SemaWait.thread = (s.asleep.map SemaWait.thread).erase t := by
  cases a with
  | wait t requested timeout => cases ha
  | poll t requested => cases ha
  | signal t amount => cases ha
  | wake u =>
    obtain rfl := Option.some.inj ha
    obtain ⟨w, hw, rfl⟩ := Option.map_eq_some_iff.1 hstep
    rcases sleepers_resume hw False with ⟨hsame, hunavailable, -⟩ | ⟨-, hleft⟩
    · refine .inl ⟨by rw [hsame], if_neg ?_⟩
      rintro ⟨v, hv, havailable⟩
      obtain rfl := Option.some.inj (hw.symm.trans hv)
      exact hunavailable havailable
    · exact .inr hleft
  | expire u =>
    obtain rfl := Option.some.inj ha
    obtain ⟨w, hw, hstep⟩ := Option.bind_eq_some_iff.1 hstep
    obtain ⟨-, ⟨⟩⟩ := Option.ite_none_left_eq_some.1 hstep
    rcases sleepers_resume hw True with ⟨-, -, hnot⟩ | ⟨-, hleft⟩
    · exact absurd trivial hnot
    · exact .inr hleft

theorem Inv.silent (h : s.Inv maximum initial) {a : SemaAction T} (hstep : s.step a = some s')
    (hsilent : s.notice a = .silent) (hready : s'.Ready t) : s.Ready t ∧ sleeper a ≠ some t := by
  cases a with
  | wait u requested timeout =>
    obtain ⟨-, ⟨⟩⟩ := Option.ite_none_left_eq_some.1 hstep
    exact ⟨h.ready_wait _ _ hready, Option.some_ne_none t |>.symm⟩
  | poll u requested =>
    obtain ⟨-, ⟨⟩⟩ := Option.ite_none_left_eq_some.1 hstep
    exact ⟨h.ready_poll _ hready, Option.some_ne_none t |>.symm⟩
  | signal u amount => cases hsilent
  | expire u => cases hsilent
  | wake u =>
    obtain ⟨w, hw, rfl⟩ := Option.map_eq_some_iff.1 hstep
    have hdenied : ¬ s.Grants u := fun hgrants => by
      rw [notice, if_pos hgrants] at hsilent
      cases hsilent
    rcases sleepers_resume hw False with ⟨hsame, -, -⟩ | ⟨havailable | hfalse, -⟩
    · rw [hsame] at hready
      refine ⟨hready, ?_⟩
      rintro ⟨rfl⟩
      exact hdenied (h.available hready)
    · exact absurd ⟨w, hw, havailable⟩ hdenied
    · exact hfalse.elim

theorem monitor_lawful (maximum initial : Int) :
    (monitor (T := T)).Lawful (Inv maximum initial) (fun _ _ => True) Ready where
  inv h _ hstep := h.step hstep
  nodup h := h.threads
  wakes {s t} ht := by
    obtain ⟨w, hw, rfl⟩ := List.mem_map.1 ht
    refine ⟨.wake w.thread, rfl, ?_⟩
    show (Option.map _ _).isSome
    rw [Option.isSome_map, List.find?_isSome]
    exact ⟨w, hw, by simp⟩
  call := sleepers_call
  test _ := sleepers_test
  free _ := trivial
  silent h _ hstep hsilent _ hready := by
    obtain ⟨hwas, hother⟩ := h.silent hstep hsilent hready
    exact ⟨hwas.mem, hwas, hother⟩

end SemaRun

/-- However waits, polls, signals, timeouts and notifications interleave: where nothing is under way the first in the
queue asks for more than the count, and what is under way ends after `pending` steps at most. -/
theorem semaphore_wakes {T : Type} [DecidableEq T] (count maximum : Word)
    (actions : List (MonitorAction (SemaAction T))) (s : Monitored (SemaRun T) T)
    (hrun : run SemaRun.monitor.next ⟨SemaRun.create count maximum, [], 0⟩ actions = some s) :
    run SemaRun.step (SemaRun.create count maximum) (actions.flatMap MonitorAction.calls) = some s.state ∧
      ((∀ a, SemaRun.monitor.UnderWay s a → SemaRun.monitor.next s a = none) →
        ∀ w ∈ s.state.asleep.head?, s.state.sema.count < w.requested) ∧
      ∀ more s', Guarded SemaRun.monitor.next SemaRun.monitor.UnderWay s more →
        run SemaRun.monitor.next s more = some s' → more.length ≤ SemaRun.monitor.pending s := by
  have hlawful := SemaRun.monitor_lawful (T := T) maximum.toInt count.toInt
  have h := hlawful.run (SemaRun.inv_create count maximum) rfl
    (Guarded.of_forall fun _ a => Monitor.callGuard_of_forall (fun _ _ => trivial) a) hrun
  refine ⟨Monitor.run_calls hrun, fun hquiet w hw => ?_, fun more s' => h.length_le hlawful⟩
  have hmem : w.thread ∈ s.state.asleep.map SemaWait.thread :=
    List.mem_map_of_mem (List.mem_of_mem_head? hw)
  have hunready := h.unready hlawful hquiet hmem
  exact not_le.1 fun hle => hunready ⟨w, hw, rfl, hle⟩

/-- Thread 3 comes first to the mutex and sleeps again, behind thread 2. -/
theorem semaphore_wakes_queued :
    let actions : List (MonitorAction (SemaAction Nat)) :=
      [.call (.wait 2 2 .forever), .call (.wait 3 1 (.after 100)), .call (.signal 1 2), .notifyAll, .call (.wake 3),
        .call (.wake 2), .notifyAll, .call (.wake 3)]
    ∃ s, run SemaRun.monitor.next ⟨SemaRun.create 0 5, [], 0⟩ actions = some s ∧
      s.state.asleep.map SemaWait.thread = [3] ∧ ∀ w ∈ s.state.asleep.head?, s.state.sema.count < w.requested := by
  intro actions
  obtain ⟨s, hrun⟩ : ∃ s, run SemaRun.monitor.next ⟨SemaRun.create 0 5, [], 0⟩ actions = some s := ⟨_, rfl⟩
  have hs := hrun
  cases hs
  refine ⟨_, hrun, rfl, (semaphore_wakes 0 5 actions _ hrun).2.1 fun a ha => ?_⟩
  cases a with
  | call a =>
    obtain ⟨t, -, ht⟩ := ha
    cases ht
  | notifyAll => rfl

/-! ### Event flags -/

namespace FlagRun

/-- The condition of the sleeper holds. -/
def Answers (s : FlagRun T) (t : T) : Prop := ∃ w ∈ s.asleep, w.thread = t ∧ s.Ready w

def sleeper : FlagAction T → Option T
  | .wake t => some t
  | .wait _ _ _ | .poll _ _ _ | .set _ _ | .clear _ _ => none

def notice : FlagAction T → Notice
  | .set _ _ | .clear _ _ => .later
  | .wait _ _ _ | .poll _ _ _ | .wake _ => .silent

variable {s s' : FlagRun T} {t : T}

theorem ready_of_and {kept : Word} {w : FlagWait T} (hbits : s'.bits = s.bits &&& kept) (h : s'.Ready w) :
    s.Ready w := by
  unfold Ready at h ⊢
  rw [hbits] at h
  have hor := Matched.or h s.bits
  rwa [BitVec.or_comm, or_and_self] at hor

theorem sleepers_set (s : FlagRun T) (bits : Word) :
    (s.set bits).asleep.map FlagWait.thread = s.asleep.map FlagWait.thread := by
  show (s.asleep.map _).map FlagWait.thread = _
  rw [List.map_map]
  refine List.map_congr_left fun w _ => ?_
  show FlagWait.thread (if _ then _ else _) = _
  split_ifs <;> rfl

theorem sleepers_wait (s : FlagRun T) (t : T) (pattern mode : Word) :
    (s.wait t pattern mode).asleep.map FlagWait.thread = s.asleep.map FlagWait.thread ∨
      (s.wait t pattern mode).asleep.map FlagWait.thread = s.asleep.map FlagWait.thread ++ [t] := by
  unfold FlagRun.wait
  dsimp only
  split_ifs
  · exact .inl rfl
  · exact .inr (List.map_append ..)

theorem asleep_poll (s : FlagRun T) (t : T) (pattern mode : Word) : (s.poll t pattern mode).asleep = s.asleep := by
  unfold FlagRun.poll
  split_ifs <;> rfl

variable [DecidableEq T]

def monitor : Monitor (FlagRun T) (FlagAction T) T where
  step := FlagRun.step
  sleepers s := s.asleep.map FlagWait.thread
  woken := sleeper
  notice _ := FlagRun.notice

theorem sleepers_resume {w : FlagWait T} (hw : s.asleep.find? (·.thread = t) = some w) :
    (s.resume w = s ∧ ¬ s.Ready w) ∨
      t ∈ s.asleep.map FlagWait.thread ∧
        (s.resume w).asleep.map FlagWait.thread = (s.asleep.map FlagWait.thread).erase t := by
  obtain ⟨rfl, pre, post, heq, herase, hmap⟩ := split_of_find? hw
  unfold FlagRun.resume
  split_ifs with hready
  · refine .inr ⟨by rw [heq]; simp, ?_⟩
    show (s.asleep.eraseP _).map FlagWait.thread = _
    rw [herase, hmap]
  · exact .inl ⟨rfl, hready⟩

/-- The sleepers after a step. -/
theorem sleepers_step {a : FlagAction T} (hstep : s.step a = some s') :
    s'.asleep.map FlagWait.thread = s.asleep.map FlagWait.thread ∨
      (sleeper a = none ∧ ∃ t ∉ s.asleep.map FlagWait.thread,
        s'.asleep.map FlagWait.thread = s.asleep.map FlagWait.thread ++ [t]) ∨
      ∃ t ∈ s.asleep.map FlagWait.thread, sleeper a = some t ∧
        s'.asleep.map FlagWait.thread = (s.asleep.map FlagWait.thread).erase t := by
  cases a with
  | wait t pattern mode =>
    obtain ⟨hblocked, ⟨⟩⟩ := Option.ite_none_left_eq_some.1 hstep
    exact (sleepers_wait s t pattern mode).imp_right fun hnew => .inl ⟨rfl, t, hblocked, hnew⟩
  | poll t pattern mode =>
    obtain ⟨-, ⟨⟩⟩ := Option.ite_none_left_eq_some.1 hstep
    exact .inl (by rw [asleep_poll])
  | set t bits =>
    obtain ⟨-, ⟨⟩⟩ := Option.ite_none_left_eq_some.1 hstep
    exact .inl (sleepers_set s bits)
  | clear t bits =>
    obtain ⟨-, ⟨⟩⟩ := Option.ite_none_left_eq_some.1 hstep
    exact .inl rfl
  | wake t =>
    obtain ⟨w, hw, rfl⟩ := Option.map_eq_some_iff.1 hstep
    rcases sleepers_resume hw with ⟨hsame, -⟩ | ⟨hmem, hleft⟩
    · exact .inl (by rw [hsame])
    · exact .inr (.inr ⟨t, hmem, rfl, hleft⟩)

/-- Who has its condition after a silent step had it before, and is not the one that was woken. -/
theorem answers_silent (hnodup : (s.asleep.map FlagWait.thread).Nodup) {a : FlagAction T}
    (hstep : s.step a = some s') (hsilent : notice a = .silent) (h : s'.Answers t) :
    s.Answers t ∧ sleeper a ≠ some t := by
  obtain ⟨w, hw, rfl, hready⟩ := h
  cases a with
  | wait u pattern mode =>
    obtain ⟨-, ⟨⟩⟩ := Option.ite_none_left_eq_some.1 hstep
    refine ⟨?_, by simp [sleeper]⟩
    unfold FlagRun.wait at hw hready
    dsimp only at hw hready
    split_ifs at hw hready with hmatched
    · exact ⟨w, hw, rfl, ready_of_and (remaining_eq s.bits pattern mode) hready⟩
    · rcases List.mem_append.1 hw with hw | hw
      · exact ⟨w, hw, rfl, hready⟩
      · obtain rfl := List.mem_singleton.1 hw
        exact absurd hready hmatched
  | poll u pattern mode =>
    obtain ⟨-, ⟨⟩⟩ := Option.ite_none_left_eq_some.1 hstep
    refine ⟨⟨w, by rwa [asleep_poll] at hw, rfl, ?_⟩, by simp [sleeper]⟩
    unfold FlagRun.poll at hready
    split_ifs at hready
    · exact ready_of_and (remaining_eq s.bits pattern mode) hready
    · exact hready
  | set u bits => cases hsilent
  | clear u bits => cases hsilent
  | wake u =>
    obtain ⟨v, hv, rfl⟩ := Option.map_eq_some_iff.1 hstep
    obtain ⟨rfl, pre, post, heq, herase, -⟩ := split_of_find? hv
    have hmem : v ∈ s.asleep := List.mem_of_find?_eq_some hv
    unfold FlagRun.resume at hw hready
    split_ifs at hw hready with hvready
    · have hsub : w ∈ s.asleep := List.mem_of_mem_eraseP hw
      refine ⟨⟨w, hsub, rfl, ready_of_and (remaining_eq s.bits v.pattern v.mode) hready⟩, fun hsame => ?_⟩
      rw [heq, List.map_append, List.map_cons, List.nodup_middle] at hnodup
      refine (List.nodup_cons.1 hnodup).1 ?_
      rw [← List.map_append, Option.some.inj hsame]
      refine List.mem_map_of_mem ?_
      rw [← herase]
      exact hw
    · refine ⟨⟨w, hw, rfl, hready⟩, fun hsame => ?_⟩
      obtain rfl := List.inj_on_of_nodup_map hnodup hmem hw (Option.some.inj hsame)
      exact hvready hready

theorem monitor_lawful :
    (monitor (T := T)).Lawful (fun s => (s.asleep.map FlagWait.thread).Nodup) (fun _ _ => True) Answers where
  inv h _ hstep := by
    rcases sleepers_step hstep with hsame | ⟨-, t, ht, hnew⟩ | ⟨t, -, -, hleft⟩
    · rwa [hsame]
    · rw [hnew]
      exact h.append (List.nodup_singleton t) (List.disjoint_singleton.2 ht)
    · rw [hleft]
      exact h.erase t
  nodup h := h
  wakes {s t} ht := by
    obtain ⟨w, hw, rfl⟩ := List.mem_map.1 ht
    refine ⟨.wake w.thread, rfl, ?_⟩
    show (Option.map _ _).isSome
    rw [Option.isSome_map, List.find?_isSome]
    exact ⟨w, hw, by simp⟩
  call {s a s'} hstep hwoken := by
    show s.asleep.map FlagWait.thread ⊆ s'.asleep.map FlagWait.thread
    rcases sleepers_step hstep with hsame | ⟨-, t, -, hnew⟩ | ⟨t, -, hsome, -⟩
    · rw [hsame]
      exact fun _ => id
    · rw [hnew]
      exact List.subset_append_left _ _
    · exact absurd (hwoken.symm.trans hsome) (by simp)
  test {s a s' t} _ hstep hwoken := by
    have hsilent : notice a = .silent := by
      cases a with
      | wake t => rfl
      | wait t pattern mode | poll t pattern mode | set t bits | clear t bits => cases hwoken
    rcases sleepers_step hstep with hsame | ⟨hnone, -⟩ | ⟨u, hmem, hsome, hleft⟩
    · exact .inl ⟨hsame, hsilent⟩
    · exact absurd (hnone.symm.trans hwoken) (by simp)
    · obtain rfl := Option.some.inj (hsome.symm.trans hwoken)
      exact .inr ⟨hmem, hleft⟩
  free _ := trivial
  silent {s a s' t} h _ hstep hsilent _ hready := by
    obtain ⟨hwas, hother⟩ := answers_silent h hstep hsilent hready
    obtain ⟨w, hw, rfl, -⟩ := id hwas
    exact ⟨List.mem_map_of_mem hw, hwas, hother⟩

end FlagRun

/-- However waits, polls, sets, clears and notifications interleave: where nothing is under way no sleeper's condition
holds, and what is under way ends after `pending` steps at most. -/
theorem eventFlag_wakes {T : Type} [DecidableEq T] (bits : Word) (actions : List (MonitorAction (FlagAction T)))
    (s : Monitored (FlagRun T) T)
    (hrun : run FlagRun.monitor.next ⟨FlagRun.create bits, [], 0⟩ actions = some s) :
    run FlagRun.step (FlagRun.create bits) (actions.flatMap MonitorAction.calls) = some s.state ∧
      ((∀ a, FlagRun.monitor.UnderWay s a → FlagRun.monitor.next s a = none) →
        ∀ w ∈ s.state.asleep, ¬ s.state.Ready w) ∧
      ∀ more s', Guarded FlagRun.monitor.next FlagRun.monitor.UnderWay s more →
        run FlagRun.monitor.next s more = some s' → more.length ≤ FlagRun.monitor.pending s := by
  have hlawful := FlagRun.monitor_lawful (T := T)
  have h := hlawful.run (show ((FlagRun.create bits).asleep.map FlagWait.thread).Nodup from List.nodup_nil) rfl
    (Guarded.of_forall fun _ a => Monitor.callGuard_of_forall (fun _ _ => trivial) a) hrun
  refine ⟨Monitor.run_calls hrun, fun hquiet w hw hready => ?_, fun more s' => h.length_le hlawful⟩
  exact h.unready hlawful hquiet (List.mem_map_of_mem hw) ⟨w, hw, rfl, hready⟩

/-- Thread 2 takes the bit that both wait for, and thread 3 sleeps on. -/
theorem eventFlag_wakes_rivals :
    let actions : List (MonitorAction (FlagAction Nat)) :=
      [.call (.wait 2 1 0x11), .call (.wait 3 1 1), .call (.set 1 3), .notifyAll, .call (.wake 2), .call (.wake 3)]
    ∃ s, run FlagRun.monitor.next ⟨FlagRun.create 0, [], 0⟩ actions = some s ∧
      s.state.asleep.map FlagWait.thread = [3] ∧ ∀ w ∈ s.state.asleep, ¬ s.state.Ready w := by
  intro actions
  obtain ⟨s, hrun⟩ : ∃ s, run FlagRun.monitor.next ⟨FlagRun.create 0, [], 0⟩ actions = some s := ⟨_, rfl⟩
  have hs := hrun
  cases hs
  refine ⟨_, hrun, rfl, (eventFlag_wakes 0 actions _ hrun).2.1 fun a ha => ?_⟩
  cases a with
  | call a =>
    obtain ⟨t, -, ht⟩ := ha
    cases ht
  | notifyAll => rfl

/-! ### Mutexes -/

namespace MutexRun

def sleeper : MutexAction T → Option T
  | .wake t | .expire t => some t
  | .lock _ _ _ | .unlock _ _ => none

theorem lockCount_acquire {s : MutexRun T} (h : s.mutex.lockCount = 0) (t : T) (count : Word) :
    (s.acquire t count).mutex.lockCount ≠ 0 := by
  show wrapInt (s.mutex.lockCount + (lockTimes count).toInt) ≠ 0
  obtain ⟨-, -, hmod⟩ := wrapInt_cases (s.mutex.lockCount + (lockTimes count).toNat)
  have hpos := lockTimes_pos count
  have hlt := (lockTimes count).isLt
  rw [wrapInt_add]
  omega

/-- Nobody can have a mutex that another thread has just locked. -/
theorem unavailable_acquire {s : MutexRun T} {t u : T} {count : Word}
    (hcount : (s.acquire t count).mutex.lockCount ≠ 0) (hne : u ≠ t) :
    ¬ (s.acquire t count).mutex.Available u := by
  rintro (hzero | howner)
  · exact hcount hzero
  · exact hne (Option.some.inj howner).symm

variable [DecidableEq T]

/-- An unlock that frees the mutex notifies. -/
def notice (s : MutexRun T) : MutexAction T → Notice
  | .unlock t count => if (s.unlock t count).mutex.lockCount = 0 then .now else .silent
  | .lock _ _ _ | .wake _ | .expire _ => .silent

def monitor : Monitor (MutexRun T) (MutexAction T) T where
  step := MutexRun.step
  sleepers s := s.asleep.map MutexWait.thread
  woken := sleeper
  notice := MutexRun.notice

/-- A lock by the owner does not free the mutex. -/
def KeepsLocked (s : MutexRun T) : MutexAction T → Prop
  | .lock t count _ => s.mutex.lockCount ≠ 0 → s.mutex.owner = some t → (s.acquire t count).mutex.lockCount ≠ 0
  | .unlock _ _ | .wake _ | .expire _ => True

instance (s : MutexRun T) : ∀ a, Decidable (s.KeepsLocked a)
  | .lock _ _ _ => inferInstanceAs (Decidable (_ → _ → _))
  | .unlock _ _ | .wake _ | .expire _ => .isTrue trivial

/-- The owner is not asleep. -/
structure Awake (s : MutexRun T) : Prop where
  nodup : (s.asleep.map MutexWait.thread).Nodup
  owner : ∀ t ∈ s.asleep.map MutexWait.thread, s.mutex.owner ≠ some t

variable {s s' : MutexRun T} {t : T}

theorem sleepers_resume {w : MutexWait T} (hw : s.asleep.find? (·.thread = t) = some w) (expired : Prop)
    [Decidable expired] :
    t ∈ s.asleep.map MutexWait.thread ∧
      ((s.resume w expired = s ∧ ¬ s.mutex.Available t) ∨
        (s.resume w expired).asleep.map MutexWait.thread = (s.asleep.map MutexWait.thread).erase t ∧
          ((s.mutex.Available t ∧ (s.resume w expired).mutex = (s.acquire t w.count).mutex) ∨
            (s.resume w expired).mutex = s.mutex)) := by
  obtain ⟨rfl, pre, post, heq, herase, hmap⟩ := split_of_find? hw
  refine ⟨by rw [heq]; simp, ?_⟩
  unfold MutexRun.resume
  dsimp only
  rw [herase]
  split_ifs with havailable hexpired
  · exact .inr ⟨hmap.symm, .inl ⟨havailable, rfl⟩⟩
  · exact .inr ⟨hmap.symm, .inr rfl⟩
  · exact .inl ⟨rfl, havailable⟩

/-- What a step does to the mutex and to the sleepers. -/
theorem sleepers_step {a : MutexAction T} (hstep : s.step a = some s') :
    (s'.asleep.map MutexWait.thread = s.asleep.map MutexWait.thread ∧ s'.mutex = s.mutex ∧
      ∀ t, sleeper a = some t → ¬ s.mutex.Available t) ∨
    (∃ t count timeout, a = .lock t count timeout ∧ t ∉ s.asleep.map MutexWait.thread ∧
      ((s.mutex.Available t ∧ s'.mutex = (s.acquire t count).mutex ∧
          s'.asleep.map MutexWait.thread = s.asleep.map MutexWait.thread) ∨
        ¬ s.mutex.Available t ∧ s'.mutex = s.mutex ∧
          s'.asleep.map MutexWait.thread = s.asleep.map MutexWait.thread ++ [t])) ∨
    (∃ t count, a = .unlock t count ∧ s' = s.unlock t count) ∨
    ∃ t ∈ s.asleep.map MutexWait.thread, sleeper a = some t ∧
      s'.asleep.map MutexWait.thread = (s.asleep.map MutexWait.thread).erase t ∧
        ((∃ count, s.mutex.Available t ∧ s'.mutex = (s.acquire t count).mutex) ∨ s'.mutex = s.mutex) := by
  cases a with
  | lock t count timeout =>
    obtain ⟨hblocked, ⟨⟩⟩ := Option.ite_none_left_eq_some.1 hstep
    unfold MutexRun.lock
    split_ifs with hunmapped havailable
    · exact .inl ⟨rfl, rfl, fun _ hsome => by cases hsome⟩
    · exact .inr (.inl ⟨t, count, timeout, rfl, hblocked, .inl ⟨havailable, rfl, rfl⟩⟩)
    · exact .inr (.inl ⟨t, count, timeout, rfl, hblocked, .inr ⟨havailable, rfl, List.map_append ..⟩⟩)
  | unlock t count =>
    obtain ⟨-, ⟨⟩⟩ := Option.ite_none_left_eq_some.1 hstep
    exact .inr (.inr (.inl ⟨t, count, rfl, rfl⟩))
  | wake t =>
    obtain ⟨w, hw, rfl⟩ := Option.map_eq_some_iff.1 hstep
    obtain ⟨hmem, ⟨hsame, hunavailable⟩ | ⟨hleft, hmutex⟩⟩ := sleepers_resume hw False
    · exact .inl ⟨by rw [hsame], by rw [hsame], fun u hu => Option.some.inj hu ▸ hunavailable⟩
    · exact .inr (.inr (.inr ⟨t, hmem, rfl, hleft, hmutex.imp_left fun h => ⟨w.count, h⟩⟩))
  | expire t =>
    obtain ⟨w, hw, hstep⟩ := Option.bind_eq_some_iff.1 hstep
    obtain ⟨-, ⟨⟩⟩ := Option.ite_none_left_eq_some.1 hstep
    obtain ⟨hmem, ⟨hsame, hunavailable⟩ | ⟨hleft, hmutex⟩⟩ := sleepers_resume hw True
    · exact .inl ⟨by rw [hsame], by rw [hsame], fun u hu => Option.some.inj hu ▸ hunavailable⟩
    · exact .inr (.inr (.inr ⟨t, hmem, rfl, hleft, hmutex.imp_left fun h => ⟨w.count, h⟩⟩))

theorem Awake.step (h : s.Awake) {a : MutexAction T} (hstep : s.step a = some s') : s'.Awake := by
  rcases sleepers_step hstep with ⟨hsame, hmutex, -⟩ |
    ⟨t, count, timeout, -, ht, ⟨-, hmutex, hsame⟩ | ⟨hunavailable, hmutex, hnew⟩⟩ | ⟨t, count, -, rfl⟩ |
    ⟨t, ht, -, hleft, hmutex⟩
  · exact ⟨by rw [hsame]; exact h.nodup, by rw [hsame, hmutex]; exact h.owner⟩
  · refine ⟨by rw [hsame]; exact h.nodup, ?_⟩
    rw [hsame, hmutex]
    rintro u hu ⟨⟩
    exact ht hu
  · refine ⟨?_, ?_⟩
    · rw [hnew]
      exact h.nodup.append (List.nodup_singleton t) (List.disjoint_singleton.2 ht)
    · rw [hnew, hmutex]
      intro u hu
      rcases List.mem_append.1 hu with hu | hu
      · exact h.owner u hu
      · rw [List.mem_singleton.1 hu]
        exact fun howner => hunavailable (.inr howner)
  · refine ⟨h.nodup, fun u hu howner => ?_⟩
    have hbefore := h.owner u hu
    unfold MutexRun.unlock at howner
    dsimp only at howner
    split_ifs at howner
    exact hbefore howner
  · refine ⟨by rw [hleft]; exact h.nodup.erase t, ?_⟩
    rw [hleft]
    intro u hu howner
    obtain ⟨hne, hu⟩ := h.nodup.mem_erase_iff.1 hu
    rcases hmutex with ⟨count, -, hmutex⟩ | hmutex
    · rw [hmutex] at howner
      exact hne (Option.some.inj howner).symm
    · rw [hmutex] at howner
      exact h.owner u hu howner

theorem Awake.silent (h : s.Awake) {a : MutexAction T} (hG : s.KeepsLocked a) (hstep : s.step a = some s')
    (hsilent : s.notice a = .silent) (hmem : t ∈ s'.asleep.map MutexWait.thread) (hready : s'.mutex.Available t) :
    t ∈ s.asleep.map MutexWait.thread ∧ s.mutex.Available t ∧ sleeper a ≠ some t := by
  rcases sleepers_step hstep with ⟨hsame, hmutex, hdenied⟩ |
    ⟨u, count, timeout, rfl, hu, ⟨havailable, hmutex, hsame⟩ | ⟨hunavailable, hmutex, hnew⟩⟩ | ⟨u, count, rfl, rfl⟩ |
    ⟨u, hu, hsome, hleft, hmutex⟩
  · rw [hmutex] at hready
    exact ⟨hsame ▸ hmem, hready, fun hsome => hdenied t hsome hready⟩
  · rw [hsame] at hmem
    rw [hmutex] at hready
    refine absurd hready (unavailable_acquire ?_ fun heq => hu (heq ▸ hmem))
    by_cases hzero : s.mutex.lockCount = 0
    · exact lockCount_acquire hzero u count
    · exact hG hzero (havailable.resolve_left hzero)
  · rw [hmutex] at hready
    rw [hnew] at hmem
    rcases List.mem_append.1 hmem with hmem | hmem
    · exact ⟨hmem, hready, by simp [sleeper]⟩
    · rw [List.mem_singleton.1 hmem] at hready
      exact absurd hready hunavailable
  · unfold notice at hsilent
    dsimp only at hsilent
    split_ifs at hsilent with hfree
    refine ⟨hmem, ?_, by simp [sleeper]⟩
    rcases hready with hzero | howner
    · exact absurd hzero hfree
    · unfold MutexRun.unlock at howner
      dsimp only at howner
      split_ifs at howner
      exact .inr howner
  · rw [hleft] at hmem
    obtain ⟨hne, hmem⟩ := h.nodup.mem_erase_iff.1 hmem
    rcases hmutex with ⟨count, havailable, hmutex⟩ | hmutex
    · rw [hmutex] at hready
      have hzero := havailable.resolve_right (h.owner u hu)
      exact absurd hready (unavailable_acquire (lockCount_acquire hzero u count) hne)
    · rw [hmutex] at hready
      exact ⟨hmem, hready, fun hsame => hne (Option.some.inj (hsame.symm.trans hsome))⟩

theorem monitor_lawful :
    (monitor (T := T)).Lawful Awake KeepsLocked fun s t => s.mutex.Available t where
  inv h _ hstep := h.step hstep
  nodup h := h.nodup
  wakes {s t} ht := by
    obtain ⟨w, hw, rfl⟩ := List.mem_map.1 ht
    refine ⟨.wake w.thread, rfl, ?_⟩
    show (Option.map _ _).isSome
    rw [Option.isSome_map, List.find?_isSome]
    exact ⟨w, hw, by simp⟩
  call {s a s'} hstep hwoken := by
    show s.asleep.map MutexWait.thread ⊆ s'.asleep.map MutexWait.thread
    rcases sleepers_step hstep with ⟨hsame, -⟩ | ⟨t, count, timeout, -, -, ⟨-, -, hsame⟩ | ⟨-, -, hnew⟩⟩ |
      ⟨t, count, -, rfl⟩ | ⟨t, -, hsome, -⟩
    · rw [hsame]
      exact fun _ => id
    · rw [hsame]
      exact fun _ => id
    · rw [hnew]
      exact List.subset_append_left _ _
    · exact fun _ => id
    · exact absurd (hwoken.symm.trans hsome) (by simp)
  test {s a s' t} _ hstep hwoken := by
    have hsilent : s.notice a = .silent := by
      cases a with
      | wake t | expire t => rfl
      | lock t count timeout | unlock t count => cases hwoken
    rcases sleepers_step hstep with ⟨hsame, -⟩ | ⟨t, count, timeout, rfl, -⟩ | ⟨t, count, rfl, -⟩ |
      ⟨u, hmem, hsome, hleft, -⟩
    · exact .inl ⟨hsame, hsilent⟩
    · cases hwoken
    · cases hwoken
    · obtain rfl := Option.some.inj (hsome.symm.trans hwoken)
      exact .inr ⟨hmem, hleft⟩
  free {s a} hwoken := by
    cases a with
    | lock t count timeout => exact absurd rfl hwoken
    | unlock t count | wake t | expire t => trivial
  silent h hG hstep hsilent hmem hready := h.silent hG hstep hsilent hmem hready

end MutexRun

end Psprism
