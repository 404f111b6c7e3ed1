import Psprism.Lib.WaitSet
import Psprism.Mailbox

/-!
# Waiting for a mailbox

The calls of `Mailbox.lean` down to the condition variable: a receiver that finds no message sleeps on it, without
the guest execution lock; a sender notifies one sleeper after it has given up the mutex, and the deletion all of
them. Each run is one of the calls above it, where a sleeper tests its condition at any time, and no wake-up is
lost.
-/

namespace Psprism
open Interleaving

structure MailboxWait (T : Type) where
  mailbox : Mailbox
  waits : WaitSet (T × Timeout) := {}
  /-- The `notify_all` of `sceKernelDeleteMbx` is still to come. -/
  deleting : Bool := false
  log : List (MailboxEvent T) := []

inductive MailboxWaitAction (T : Type)
  | send (t : T) (address : Word) (packet : Option Byte)
  | receive (t : T) (output : Bool) (timeout : Timeout)
  | poll (t : T) (output : Bool)
  | delete (t : T)
  /-- The `notify_one` of a call of `sceKernelSendMbx`. -/
  | notify (woken : Option (T × Timeout))
  | notifyAll
  /-- A sleeper tests its condition. -/
  | wake (w : T × Timeout)
  /-- A sleeper tests its condition a last time. -/
  | expire (w : T × Timeout)

namespace MailboxWait
variable {T : Type}

def say (s : MailboxWait T) (e : MailboxEvent T) : MailboxWait T := { s with log := e :: s.log }

/-- The front of the queue goes to `t`. -/
def take (s : MailboxWait T) (t : T) (message : Message) (rest : List Message) : MailboxWait T :=
  { s with mailbox := { s.mailbox with messages := rest } }.say (.taken t message)

/-- `sceKernelSendMbx` up to its notification. -/
def send (s : MailboxWait T) (t : T) (address : Word) (packet : Option Byte) : MailboxWait T :=
  if s.mailbox.deleted then s.say (.failed t unknownMailbox)
  else
    match packet with
    | none => s.say (.failed t unimplemented)
    | some priority =>
      match enqueue s.mailbox.messages s.mailbox.attributes address priority with
      | none => s.say (.failed t 0x800201c9)
      | some messages =>
        { s with mailbox := { s.mailbox with messages }, waits := s.waits.post }.say (.sent t ⟨address, priority⟩)

/-- `sceKernelReceiveMbx` up to its sleep. -/
def receive (s : MailboxWait T) (t : T) (output : Bool) (timeout : Timeout) : MailboxWait T :=
  if s.mailbox.deleted then s.say (.failed t unknownMailbox)
  else if output = false ∨ timeout = .unmapped then s.say (.failed t unimplemented)
  else
    match s.mailbox.messages with
    | [] => { s with waits := s.waits.sleep (t, timeout) }
    | message :: rest => s.take t message rest

/-- `sceKernelPollMbx`. -/
def poll (s : MailboxWait T) (t : T) (output : Bool) : MailboxWait T :=
  if s.mailbox.deleted then s.say (.failed t unknownMailbox)
  else if output = false then s.say (.failed t unimplemented)
  else
    match s.mailbox.messages with
    | [] => s.say (.failed t mailboxNoMessage)
    | message :: rest => s.take t message rest

/-- `sceKernelDeleteMbx` up to its notification. -/
def delete (s : MailboxWait T) (t : T) : MailboxWait T :=
  if s.mailbox.deleted then s.say (.failed t unknownMailbox)
  else { s with mailbox := { s.mailbox with deleted := true }, deleting := true }.say (.deleted t)

/-- A call that no longer sleeps tests its condition, and sleeps again when it does not hold. -/
def resume (s : MailboxWait T) (w : T × Timeout) (expired : Prop) [Decidable expired] : MailboxWait T :=
  if s.mailbox.deleted then s.say (.failed w.1 waitDeleted)
  else
    match s.mailbox.messages with
    | [] => if expired then s.say (.failed w.1 waitTimeout) else { s with waits := s.waits.sleep w }
    | message :: rest => s.take w.1 message rest

def Blocked (s : MailboxWait T) (t : T) : Prop := t ∈ s.waits.calls.map Prod.fst

section
variable [DecidableEq T]

instance (s : MailboxWait T) (t : T) : Decidable (s.Blocked t) := inferInstanceAs (Decidable (t ∈ _))

def step (s : MailboxWait T) : MailboxWaitAction T → Option (MailboxWait T)
  | .send t address packet => if s.Blocked t then none else some (s.send t address packet)
  | .receive t output timeout => if s.Blocked t then none else some (s.receive t output timeout)
  | .poll t output => if s.Blocked t then none else some (s.poll t output)
  | .delete t => if s.Blocked t then none else some (s.delete t)
  | .notify woken => (s.waits.notifyOne woken).map fun waits => { s with waits }
  | .notifyAll => if s.deleting then some { s with waits := s.waits.notifyAll, deleting := false } else none
  | .wake w => (s.waits.awaken w).map fun waits => resume { s with waits } w False
  | .expire w =>
    if w.2 = .forever then none else (s.waits.awaken w).map fun waits => resume { s with waits } w True

/-- What is under way already: the notifications, and a call that was notified. -/
def UnderWay (s : MailboxWait T) : MailboxWaitAction T → Prop
  | .notify _ | .notifyAll => True
  | .wake w => w ∈ s.waits.notified
  | _ => False

instance (s : MailboxWait T) : DecidablePred s.UnderWay
  | .notify _ | .notifyAll => .isTrue trivial
  | .wake w => inferInstanceAs (Decidable (w ∈ _))
  | .send _ _ _ | .receive _ _ _ | .poll _ _ | .delete _ | .expire _ => .isFalse id

end

/-- Steps that are left when nothing new happens. -/
def pending (s : MailboxWait T) : Nat :=
  s.waits.pending + s.deleting.toNat + if s.mailbox.deleted then s.waits.sleeping.length else 0

/-- Notifications are on their way for the messages, and for all sleepers of a deleted mailbox. -/
structure Served (s : MailboxWait T) : Prop where
  covered : s.mailbox.deleted = false → s.waits.Covered s.mailbox.messages.length
  gone : s.mailbox.deleted = true → s.deleting = false → s.waits.sleeping = []
  deleting : s.deleting = true → s.mailbox.deleted = true

/-- The action that the calls above see. -/
def visible : MailboxWaitAction T → List (MailboxAction T)
  | .send t address packet => [.send t address packet]
  | .receive t output timeout => [.receive t output timeout]
  | .poll t output => [.poll t output]
  | .delete t => [.delete t]
  | .notify _ | .notifyAll => []
  | .wake w => [.wake w.1]
  | .expire w => [.expire w.1]

/-- The same mailbox, where it is not said who of the sleepers is notified. -/
structure Refines (s : MailboxWait T) (r : MailboxRun T) : Prop where
  mailbox : r.mailbox = s.mailbox
  log : r.log = s.log
  asleep : r.asleep.Perm s.waits.calls
  once : (r.asleep.map Prod.fst).Nodup

/-! ### No wake-up is lost -/

variable {s s' : MailboxWait T} {r : MailboxRun T} {t : T} {w : T × Timeout}

theorem Served.say (h : s.Served) (e : MailboxEvent T) : (s.say e).Served := ⟨h.covered, h.gone, h.deleting⟩

theorem length_enqueue {messages messages' : List Message} {attributes address : Word} {priority : Byte}
    (h : enqueue messages attributes address priority = some messages') :
    messages'.length = messages.length + 1 := by
  rw [MailboxRun.enqueue_eq_place h, StableQueue.place, List.length_append, List.length_cons, ← Nat.add_assoc,
    ← List.length_append, List.takeWhile_append_dropWhile]

/-- A call takes a message, unless there is none. -/
theorem served_resume (hcovered : s.mailbox.deleted = false → s.waits.Covered (s.mailbox.messages.length - 1))
    (hgone : s.mailbox.deleted = true → s.deleting = false → s.waits.sleeping = [])
    (hdeleting : s.deleting = true → s.mailbox.deleted = true) (expired : Prop) [Decidable expired] :
    (s.resume w expired).Served := by
  unfold resume
  split_ifs with hdeleted
  · refine ⟨fun hopen => ?_, hgone, hdeleting⟩
    rw [show s.mailbox.deleted = false from hopen] at hdeleted
    cases hdeleted
  · cases hmessages : s.mailbox.messages with
    | nil =>
      refine ⟨fun _ => ?_, hgone, hdeleting⟩
      show s.waits.Covered s.mailbox.messages.length
      rw [hmessages]
      exact WaitSet.covered_zero
    | cons message rest =>
      rw [hmessages] at hcovered
      exact ⟨hcovered, hgone, hdeleting⟩
  · cases hmessages : s.mailbox.messages with
    | nil =>
      refine ⟨fun _ => ?_, fun hclosed => absurd hclosed hdeleted, hdeleting⟩
      show (s.waits.sleep w).Covered s.mailbox.messages.length
      rw [hmessages]
      exact WaitSet.covered_zero
    | cons message rest =>
      rw [hmessages] at hcovered
      exact ⟨hcovered, hgone, hdeleting⟩

theorem Served.send (h : s.Served) (address : Word) (packet : Option Byte) : (s.send t address packet).Served := by
  unfold MailboxWait.send
  split_ifs
  · exact h.say _
  cases packet with
  | none => exact h.say _
  | some priority =>
    cases henqueue : enqueue s.mailbox.messages s.mailbox.attributes address priority with
    | none =>
      simp only [henqueue]
      exact h.say _
    | some messages =>
      simp only [henqueue]
      refine ⟨fun hopen => ?_, h.gone, h.deleting⟩
      show s.waits.post.Covered messages.length
      rw [length_enqueue henqueue]
      exact (h.covered hopen).post

theorem Served.receive (h : s.Served) (output : Bool) (timeout : Timeout) :
    (s.receive t output timeout).Served := by
  have hresume : (s.resume (t, timeout) False).Served :=
    served_resume (fun hopen => (h.covered hopen).mono (by omega)) h.gone h.deleting False
  unfold MailboxWait.receive
  split_ifs with hdeleted hbad
  · exact h.say _
  · exact h.say _
  · unfold resume at hresume
    rw [if_neg hdeleted] at hresume
    exact hresume

theorem Served.poll (h : s.Served) (output : Bool) : (s.poll t output).Served := by
  unfold MailboxWait.poll
  split_ifs
  · exact h.say _
  · exact h.say _
  · cases hmessages : s.mailbox.messages with
    | nil => exact h.say _
    | cons message rest =>
      refine ⟨fun hopen => (h.covered hopen).mono ?_, h.gone, h.deleting⟩
      rw [hmessages]
      exact Nat.le_succ _

theorem Served.delete (h : s.Served) : (s.delete t).Served := by
  unfold MailboxWait.delete
  split_ifs
  · exact h.say _
  · exact ⟨fun hopen => (by cases hopen), fun _ hnone => (by cases hnone), fun _ => rfl⟩

theorem pending_resume (expired : Prop) [Decidable expired] : (s.resume w expired).pending = s.pending := by
  unfold resume
  split_ifs with hdeleted
  · rfl
  all_goals
    cases hmessages : s.mailbox.messages with
    | nil => simp [pending, say, WaitSet.pending, WaitSet.sleep, hdeleted]
    | cons message rest => rfl

section
variable [DecidableEq T]

theorem Served.awaken (h : s.Served) {waits : WaitSet (T × Timeout)} (hw : s.waits.awaken w = some waits)
    (expired : Prop) [Decidable expired] : (resume { s with waits } w expired).Served := by
  refine served_resume (s := { s with waits }) (fun hopen => (h.covered hopen).awaken hw) ?_ h.deleting expired
  exact fun hdeleted hnone => WaitSet.awake_of_awaken hw (h.gone hdeleted hnone)

theorem Served.step (h : s.Served) {a : MailboxWaitAction T} (hstep : s.step a = some s') : s'.Served := by
  cases a with
  | send t address packet =>
    obtain ⟨-, ⟨⟩⟩ := Option.ite_none_left_eq_some.1 hstep
    exact h.send address packet
  | receive t output timeout =>
    obtain ⟨-, ⟨⟩⟩ := Option.ite_none_left_eq_some.1 hstep
    exact h.receive output timeout
  | poll t output =>
    obtain ⟨-, ⟨⟩⟩ := Option.ite_none_left_eq_some.1 hstep
    exact h.poll output
  | delete t =>
    obtain ⟨-, ⟨⟩⟩ := Option.ite_none_left_eq_some.1 hstep
    exact h.delete
  | notify woken =>
    obtain ⟨waits, hwaits, rfl⟩ := Option.map_eq_some_iff.1 hstep
    refine ⟨fun hopen => (h.covered hopen).notifyOne hwaits, fun hdeleted hnone => ?_, h.deleting⟩
    exact WaitSet.awake_of_notifyOne hwaits (h.gone hdeleted hnone)
  | notifyAll =>
    obtain ⟨-, ⟨⟩⟩ := Option.ite_none_right_eq_some.1 hstep
    exact ⟨fun _ => WaitSet.covered_of_awake rfl, fun _ _ => rfl, fun hnone => (by cases hnone)⟩
  | wake w =>
    obtain ⟨waits, hwaits, rfl⟩ := Option.map_eq_some_iff.1 hstep
    exact h.awaken hwaits False
  | expire w =>
    obtain ⟨-, hstep⟩ := Option.ite_none_left_eq_some.1 hstep
    obtain ⟨waits, hwaits, rfl⟩ := Option.map_eq_some_iff.1 hstep
    exact h.awaken hwaits True

/-! ### The steps that are left -/

theorem pending_step (h : s.Served) {a : MailboxWaitAction T} (ha : s.UnderWay a) (hstep : s.step a = some s') :
    s'.pending < s.pending := by
  cases a with
  | send t address packet => cases ha
  | receive t output timeout => cases ha
  | poll t output => cases ha
  | delete t => cases ha
  | expire w => cases ha
  | notify woken =>
    obtain ⟨waits, hwaits, rfl⟩ := Option.map_eq_some_iff.1 hstep
    have hlt := WaitSet.pending_notifyOne hwaits
    have hle := WaitSet.sleeping_notifyOne hwaits
    unfold pending
    dsimp only
    split_ifs <;> omega
  | notifyAll =>
    obtain ⟨hdeleting, ⟨⟩⟩ := Option.ite_none_right_eq_some.1 hstep
    unfold pending
    rw [WaitSet.pending_notifyAll, hdeleting, if_pos (h.deleting hdeleting), if_pos (h.deleting hdeleting)]
    simp [WaitSet.notifyAll]
  | wake w =>
    obtain ⟨waits, hwaits, rfl⟩ := Option.map_eq_some_iff.1 hstep
    obtain ⟨hsleeping, hlt⟩ := WaitSet.awaken_notified hwaits ha
    rw [pending_resume]
    unfold pending
    rw [hsleeping]
    dsimp only
    omega

theorem quiet_of_none (h : ∀ a, s.UnderWay a → s.step a = none) : s.waits.Quiet ∧ s.deleting = false := by
  refine ⟨WaitSet.quiet_of_none (fun woken => Option.map_eq_none_iff.1 (h (.notify woken) trivial))
    fun w hw => Option.map_eq_none_iff.1 (h (.wake w) hw), ?_⟩
  have hnone := h .notifyAll trivial
  cases hdeleting : s.deleting with
  | false => rfl
  | true =>
    rw [step, if_pos hdeleting] at hnone
    cases hnone

end

/-! ### The calls above -/

theorem Refines.eq (h : Refines s r) : ∃ asleep, r = { mailbox := s.mailbox, asleep, log := s.log } := by
  obtain ⟨mailbox, asleep, log⟩ := r
  exact ⟨asleep, by rw [← h.mailbox, ← h.log]⟩

theorem Refines.say (h : Refines s r) (e : MailboxEvent T) : Refines (s.say e) (r.say e) :=
  ⟨h.mailbox, congrArg (List.cons e) h.log, h.asleep, h.once⟩

theorem Refines.take (h : Refines s r) (t : T) (message : Message) (rest : List Message) :
    Refines (s.take t message rest) (r.take t message rest) := by
  obtain ⟨asleep, rfl⟩ := h.eq
  exact ⟨rfl, rfl, h.asleep, h.once⟩

theorem Refines.blocked_iff (h : Refines s r) : r.Blocked t ↔ s.Blocked t := (h.asleep.map Prod.fst).mem_iff

theorem Refines.send (h : Refines s r) (address : Word) (packet : Option Byte) :
    Refines (s.send t address packet) (r.send t address packet) := by
  obtain ⟨asleep, rfl⟩ := h.eq
  unfold MailboxWait.send MailboxRun.send
  split_ifs
  · exact h.say _
  cases packet with
  | none => exact h.say _
  | some priority =>
    cases henqueue : enqueue s.mailbox.messages s.mailbox.attributes address priority with
    | none =>
      simp only [henqueue]
      exact h.say _
    | some messages =>
      simp only [henqueue]
      exact ⟨rfl, rfl, h.asleep, h.once⟩

theorem Refines.receive (h : Refines s r) (hfree : ¬ s.Blocked t) (output : Bool) (timeout : Timeout) :
    Refines (s.receive t output timeout) (r.receive t output timeout) := by
  obtain ⟨asleep, rfl⟩ := h.eq
  unfold MailboxWait.receive MailboxRun.receive
  split_ifs
  · exact h.say _
  · exact h.say _
  · cases s.mailbox.messages with
    | nil =>
      refine ⟨h.mailbox, h.log, (List.perm_append_singleton _ _).trans (h.asleep.cons _), ?_⟩
      rw [List.map_append, List.map_singleton]
      exact (List.perm_append_singleton _ _).nodup_iff.2
        (List.nodup_cons.2 ⟨fun hmem => hfree (h.blocked_iff.1 hmem), h.once⟩)
    | cons message rest => exact h.take t message rest

theorem Refines.poll (h : Refines s r) (output : Bool) : Refines (s.poll t output) (r.poll t output) := by
  obtain ⟨asleep, rfl⟩ := h.eq
  unfold MailboxWait.poll MailboxRun.poll
  split_ifs
  · exact h.say _
  · exact h.say _
  · cases s.mailbox.messages with
    | nil => exact h.say _
    | cons message rest => exact h.take t message rest

theorem Refines.delete (h : Refines s r) : Refines (s.delete t) (r.delete t) := by
  obtain ⟨asleep, rfl⟩ := h.eq
  unfold MailboxWait.delete MailboxRun.delete
  split_ifs
  · exact h.say _
  · exact ⟨rfl, rfl, h.asleep, h.once⟩

section
variable [DecidableEq T]

/-- A call that is woken is the one of its thread. -/
theorem Refines.find? (h : Refines s r) (hw : w ∈ s.waits.calls) : r.asleep.find? (·.1 = w.1) = some w := by
  have hmem := h.asleep.mem_iff.2 hw
  cases hfind : r.asleep.find? (·.1 = w.1) with
  | none =>
    have hnone := List.find?_eq_none.1 hfind w hmem
    simp at hnone
  | some v =>
    have hv : v.1 = w.1 := by simpa using List.find?_some hfind
    rw [List.inj_on_of_nodup_map h.once (List.mem_of_find?_eq_some hfind) hmem hv]

theorem Refines.awaken (h : Refines s r) {waits : WaitSet (T × Timeout)} (hw : s.waits.awaken w = some waits) :
    Refines { s with waits } { r with asleep := r.asleep.eraseP (·.1 = w.1) } := by
  have hperm := WaitSet.calls_awaken hw
  obtain ⟨-, pre, post, hasleep, herase, -⟩ :=
    split_of_find? (h.find? (hperm.mem_iff.2 (List.mem_cons_self ..)))
  refine ⟨h.mailbox, h.log, ?_, (List.eraseP_sublist.map _).nodup h.once⟩
  show (r.asleep.eraseP (·.1 = w.1)).Perm waits.calls
  rw [herase]
  refine List.Perm.cons_inv (a := w) (List.perm_middle.symm.trans ?_)
  rw [← hasleep]
  exact h.asleep.trans hperm

theorem Refines.resume (h : Refines s r) {waits : WaitSet (T × Timeout)} (hw : s.waits.awaken w = some waits)
    (expired : Prop) [Decidable expired] :
    Refines (MailboxWait.resume { s with waits } w expired) (r.resume w.1 expired) := by
  obtain ⟨asleep, rfl⟩ := h.eq
  have hawake := h.awaken hw
  unfold MailboxWait.resume MailboxRun.resume
  dsimp only
  split_ifs
  · exact hawake.say _
  · cases s.mailbox.messages with
    | nil => exact hawake.say _
    | cons message rest => exact hawake.take w.1 message rest
  · cases s.mailbox.messages with
    | nil => exact ⟨h.mailbox, h.log, h.asleep.trans (WaitSet.calls_awaken hw), h.once⟩
    | cons message rest => exact hawake.take w.1 message rest

theorem Refines.step (h : Refines s r) {a : MailboxWaitAction T} (hstep : s.step a = some s') :
    ∃ r', run MailboxRun.step r (visible a) = some r' ∧ Refines s' r' := by
  cases a with
  | send t address packet =>
    obtain ⟨hfree, ⟨⟩⟩ := Option.ite_none_left_eq_some.1 hstep
    exact ⟨_, run_cons_eq_some.2 ⟨_, if_neg (mt h.blocked_iff.1 hfree), rfl⟩, h.send address packet⟩
  | receive t output timeout =>
    obtain ⟨hfree, ⟨⟩⟩ := Option.ite_none_left_eq_some.1 hstep
    exact ⟨_, run_cons_eq_some.2 ⟨_, if_neg (mt h.blocked_iff.1 hfree), rfl⟩, h.receive hfree output timeout⟩
  | poll t output =>
    obtain ⟨hfree, ⟨⟩⟩ := Option.ite_none_left_eq_some.1 hstep
    exact ⟨_, run_cons_eq_some.2 ⟨_, if_neg (mt h.blocked_iff.1 hfree), rfl⟩, h.poll output⟩
  | delete t =>
    obtain ⟨hfree, ⟨⟩⟩ := Option.ite_none_left_eq_some.1 hstep
    exact ⟨_, run_cons_eq_some.2 ⟨_, if_neg (mt h.blocked_iff.1 hfree), rfl⟩, h.delete⟩
  | notify woken =>
    obtain ⟨waits, hwaits, rfl⟩ := Option.map_eq_some_iff.1 hstep
    exact ⟨r, rfl, h.mailbox, h.log, h.asleep.trans (WaitSet.calls_notifyOne hwaits).symm, h.once⟩
  | notifyAll =>
    obtain ⟨-, ⟨⟩⟩ := Option.ite_none_right_eq_some.1 hstep
    exact ⟨r, rfl, h.mailbox, h.log, h.asleep, h.once⟩
  | wake w =>
    obtain ⟨waits, hwaits, rfl⟩ := Option.map_eq_some_iff.1 hstep
    have hfind := h.find? ((WaitSet.calls_awaken hwaits).mem_iff.2 (List.mem_cons_self ..))
    refine ⟨r.resume w.1 False, run_cons_eq_some.2 ⟨_, ?_, rfl⟩, h.resume hwaits False⟩
    rw [MailboxRun.step, hfind, Option.map_some]
  | expire w =>
    obtain ⟨htimeout, hstep⟩ := Option.ite_none_left_eq_some.1 hstep
    obtain ⟨waits, hwaits, rfl⟩ := Option.map_eq_some_iff.1 hstep
    have hfind := h.find? ((WaitSet.calls_awaken hwaits).mem_iff.2 (List.mem_cons_self ..))
    refine ⟨r.resume w.1 True, run_cons_eq_some.2 ⟨_, ?_, rfl⟩, h.resume hwaits True⟩
    rw [MailboxRun.step, hfind, Option.bind_some, if_neg htimeout]

end

end MailboxWait

/-- Every interleaving down to the notifications is one of the calls of `MailboxRun`, with the same mailbox and the
same results. -/
theorem mailboxWait_refines {T : Type} [DecidableEq T] (attributes : Word) (actions : List (MailboxWaitAction T))
    (s : MailboxWait T) (hrun : run MailboxWait.step { mailbox := { attributes } } actions = some s) :
    ∃ r, run MailboxRun.step (MailboxRun.create attributes) (actions.flatMap MailboxWait.visible) = some r ∧
      s.Refines r :=
  run_simulated (fun _ _ _ _ h hstep => h.step hstep) ⟨rfl, rfl, .refl _, .nil⟩ hrun

/-- Two receivers, one of them notified of the message, and the deletion for the other. -/
theorem mailboxWait_refines_deleted :
    let actions : List (MailboxWaitAction Nat) :=
      [.receive 1 true .forever, .receive 2 true .forever, .send 3 0x100 (some 4), .notify (some (2, .forever)),
        .delete 3, .wake (2, .forever), .notifyAll, .wake (1, .forever)]
    ∃ (s : MailboxWait Nat) (r : MailboxRun Nat),
      run MailboxRun.step (MailboxRun.create 0) (actions.flatMap MailboxWait.visible) = some r ∧
      s.Refines r ∧ s.log = [.failed 1 waitDeleted, .failed 2 waitDeleted, .deleted 3, .sent 3 ⟨0x100, 4⟩] := by
  intro actions
  obtain ⟨s, hrun⟩ : ∃ s, run MailboxWait.step { mailbox := { attributes := 0 } } actions = some s := ⟨_, rfl⟩
  obtain ⟨r, hr, hrefines⟩ := mailboxWait_refines 0 actions s hrun
  cases hrun
  exact ⟨_, r, hr, hrefines, rfl⟩

/-- However the threads interleave: what is under way ends after `pending` steps at most, and once nothing is, no
receiver sleeps beside a message or on a deleted mailbox. -/
theorem mailboxWait_served {T : Type} [DecidableEq T] (attributes : Word) (actions : List (MailboxWaitAction T))
    (s : MailboxWait T) (hrun : run MailboxWait.step { mailbox := { attributes } } actions = some s) :
    ((∀ a, s.UnderWay a → s.step a = none) →
        s.waits.sleeping = [] ∨ s.mailbox.messages = [] ∧ s.mailbox.deleted = false) ∧
      ∀ more s', Guarded MailboxWait.step MailboxWait.UnderWay s more → run MailboxWait.step s more = some s' →
        more.length ≤ s.pending := by
  have hserved : s.Served := by
    refine run_invariant (fun _ _ _ h hstep => MailboxWait.Served.step h hstep) ?_ hrun
    exact ⟨fun _ => WaitSet.covered_of_awake rfl, fun _ _ => rfl, fun hnone => (by cases hnone)⟩
  constructor
  · intro hnone
    obtain ⟨hquiet, hdeleting⟩ := MailboxWait.quiet_of_none hnone
    cases hdeleted : s.mailbox.deleted with
    | true => exact .inl (hserved.gone hdeleted hdeleting)
    | false =>
      rcases (hserved.covered hdeleted).eq_zero hquiet with hnil | hzero
      · exact .inl hnil
      · exact .inr ⟨List.length_eq_zero_iff.1 hzero, rfl⟩
  · intro more s' hguarded hmore
    have hle := Guarded.length_le (fun _ _ _ h _ hstep => MailboxWait.Served.step h hstep)
      (fun _ _ _ h ha hstep => MailboxWait.pending_step h ha hstep) hserved hguarded hmore
    omega

/-- Two messages for two sleepers, of which one has run. -/
theorem mailboxWait_served_two :
    let actions : List (MailboxWaitAction Nat) :=
      [.receive 1 true .forever, .receive 2 true .forever, .send 3 0x100 (some 4), .notify (some (2, .forever)),
        .send 3 0x200 (some 4), .wake (2, .forever)]
    ∃ s, run MailboxWait.step { mailbox := { attributes := 0 } } actions = some s ∧
      s.waits.sleeping = [(1, .forever)] ∧ 2 ≤ s.pending := by
  intro actions
  obtain ⟨s, hrun⟩ : ∃ s, run MailboxWait.step { mailbox := { attributes := 0 } } actions = some s := ⟨_, rfl⟩
  have hs := hrun
  cases hs
  refine ⟨_, hrun, rfl, ?_⟩
  exact (mailboxWait_served 0 actions _ hrun).2 [.notify (some (1, .forever)), .wake (1, .forever)] _ (by decide)
    rfl

end Psprism
