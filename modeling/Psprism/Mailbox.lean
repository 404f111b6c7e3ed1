import Psprism.Wait
import Psprism.Lib.History
import Psprism.Lib.Interleaving
import Psprism.Lib.StableQueue

/-!
# Mailboxes (`mailbox_state.hpp`, `sceKernelSendMbx.cpp`, `sceKernelReceiveMbx.cpp`,
`sceKernelPollMbx.cpp`, `sceKernelDeleteMbx.cpp`)

A message is a packet in guest memory; the mailbox keeps its address and the priority byte that it had
when it was sent. A receiver that finds no message sleeps, and takes the front of the queue when it gets
to run and there is one. A stub holds the guest execution lock from its look-up of the mailbox on, so one
call, up to its sleep, is one action; no exit is requested.
-/

namespace Psprism
open Interleaving History StableQueue

structure Message where
  address : Word
  priority : Byte
deriving DecidableEq

/-- `Implementation::Mailbox`; a deleted one is no longer found by its uid. -/
structure Mailbox where
  attributes : Word
  messages : List Message := []
  deleted : Bool := false

inductive MailboxEvent (T : Type)
  | sent (t : T) (message : Message)
  | taken (t : T) (message : Message)
  | failed (t : T) (result : Word)
  | deleted (t : T)

inductive MailboxAction (T : Type)
  /-- `packet` is the priority byte at the address, if the packet is mapped. -/
  | send (t : T) (address : Word) (packet : Option Byte)
  | receive (t : T) (output : Bool) (timeout : Timeout)
  | poll (t : T) (output : Bool)
  | delete (t : T)
  /-- A sleeper tests its condition. -/
  | wake (t : T)
  /-- A sleeper tests its condition a last time. -/
  | expire (t : T)

structure MailboxRun (T : Type) where
  mailbox : Mailbox
  asleep : List (T × Timeout) := []
  log : List (MailboxEvent T) := []

def unknownMailbox : Word := 0x8002019b
def mailboxNoMessage : Word := 0x800201b2
def waitDeleted : Word := 0x800201b5

/-- `message_priority_attribute` is not set. -/
def Unordered (attributes : Word) : Prop := attributes &&& 0x400 = 0

instance (attributes : Word) : Decidable (Unordered attributes) := inferInstanceAs (Decidable (_ = _))

def enqueue (messages : List Message) (attributes address : Word) (priority : Byte) : Option (List Message) :=
  if messages.any (·.address = address) then none
  else if Unordered attributes then some (messages ++ [⟨address, priority⟩])
  else
    let later := fun queued : Message => priority < queued.priority
    some (messages.takeWhile (¬ later ·) ++ ⟨address, priority⟩ :: messages.dropWhile (¬ later ·))

namespace MailboxRun
variable {T : Type}

/-- `sceKernelCreateMbx`. -/
def create (attributes : Word) : MailboxRun T := { mailbox := { attributes } }

def say (s : MailboxRun T) (e : MailboxEvent T) : MailboxRun T := { s with log := e :: s.log }

/-- The front of the queue goes to `t`. -/
def take (s : MailboxRun T) (t : T) (message : Message) (rest : List Message) : MailboxRun T :=
  { s with mailbox := { s.mailbox with messages := rest } }.say (.taken t message)

/-- `sceKernelSendMbx`. -/
def send (s : MailboxRun T) (t : T) (address : Word) (packet : Option Byte) : MailboxRun T :=
  if s.mailbox.deleted then s.say (.failed t unknownMailbox)
  else
    match packet with
    | none => s.say (.failed t unimplemented)
    | some priority =>
      match enqueue s.mailbox.messages s.mailbox.attributes address priority with
      | none => s.say (.failed t 0x800201c9)
      | some messages =>
        { s with mailbox := { s.mailbox with messages } }.say (.sent t ⟨address, priority⟩)

/-- `sceKernelReceiveMbx` up to its sleep. -/
def receive (s : MailboxRun T) (t : T) (output : Bool) (timeout : Timeout) : MailboxRun T :=
  if s.mailbox.deleted then s.say (.failed t unknownMailbox)
  else if output = false ∨ timeout = .unmapped then s.say (.failed t unimplemented)
  else
    match s.mailbox.messages with
    | [] => { s with asleep := s.asleep ++ [(t, timeout)] }
    | message :: rest => s.take t message rest

/-- `sceKernelPollMbx`. -/
def poll (s : MailboxRun T) (t : T) (output : Bool) : MailboxRun T :=
  if s.mailbox.deleted then s.say (.failed t unknownMailbox)
  else if output = false then s.say (.failed t unimplemented)
  else
    match s.mailbox.messages with
    | [] => s.say (.failed t mailboxNoMessage)
    | message :: rest => s.take t message rest

/-- `sceKernelDeleteMbx`. -/
def delete (s : MailboxRun T) (t : T) : MailboxRun T :=
  if s.mailbox.deleted then s.say (.failed t unknownMailbox)
  else { s with mailbox := { s.mailbox with deleted := true } }.say (.deleted t)

section
variable [DecidableEq T]

def Blocked (s : MailboxRun T) (t : T) : Prop := t ∈ s.asleep.map Prod.fst

instance (s : MailboxRun T) (t : T) : Decidable (s.Blocked t) := inferInstanceAs (Decidable (t ∈ _))

/-- A sleeper tests its condition, and leaves when it holds or its time is over. -/
def resume (s : MailboxRun T) (t : T) (expired : Prop) [Decidable expired] : MailboxRun T :=
  let awake := { s with asleep := s.asleep.eraseP (·.1 = t) }
  if s.mailbox.deleted then awake.say (.failed t waitDeleted)
  else
    match s.mailbox.messages with
    | [] => if expired then awake.say (.failed t waitTimeout) else s
    | message :: rest => awake.take t message rest

def step (s : MailboxRun T) : MailboxAction T → Option (MailboxRun T)
  | .send t address packet => if s.Blocked t then none else some (s.send t address packet)
  | .receive t output timeout => if s.Blocked t then none else some (s.receive t output timeout)
  | .poll t output => if s.Blocked t then none else some (s.poll t output)
  | .delete t => if s.Blocked t then none else some (s.delete t)
  | .wake t => (s.asleep.find? (·.1 = t)).map fun _ => s.resume t False
  | .expire t =>
    (s.asleep.find? (·.1 = t)).bind fun w => if w.2 = .forever then none else some (s.resume t True)

end

/-! ### Deliveries -/

def accepted (log : List (MailboxEvent T)) : List Message :=
  log.filterMap fun | .sent _ message => some message | _ => none

def delivered (log : List (MailboxEvent T)) : List Message :=
  log.filterMap fun | .taken _ message => some message | _ => none

/-- The messages that were sent and not taken, in the order in which they were sent. -/
def unread : List (MailboxEvent T) → List Message
  | [] => []
  | .sent _ message :: older => unread older ++ [message]
  | .taken _ message :: older => (unread older).erase message
  | _ :: older => unread older

/-- What a mailbox orders messages by: nothing, or their priority. -/
def rank (attributes : Word) (message : Message) : Nat :=
  if Unordered attributes then 0 else message.priority.toNat

/-- A message that is taken was sent and is not yet taken; those sent before it and not yet taken have a
larger rank, and those sent after it have no smaller one. -/
def InOrder (attributes : Word) (older : List (MailboxEvent T)) : MailboxEvent T → Prop
  | .taken _ message => ∃ before after, unread older = before ++ message :: after ∧
      (∀ m ∈ before, rank attributes message < rank attributes m) ∧
      ∀ m ∈ after, rank attributes message ≤ rank attributes m
  | _ => True

variable {attributes : Word} {s s' : MailboxRun T}

theorem enqueue_eq_place {messages messages' : List Message} {address : Word} {priority : Byte}
    (h : enqueue messages attributes address priority = some messages') :
    messages' = place (rank attributes) ⟨address, priority⟩ messages := by
  unfold enqueue at h
  split_ifs at h with hlisted hunordered
  · rw [place_of_forall_le fun m _ => by simp [rank, hunordered]]
    exact (Option.some.inj h).symm
  · have hlater : (fun m : Message => decide ¬ priority < m.priority) =
        fun m => decide (rank attributes m ≤ rank attributes ⟨address, priority⟩) := by
      funext m
      simp [rank, hunordered, BitVec.lt_def]
    rw [place, ← hlater]
    exact (Option.some.inj h).symm

structure Inv (attributes : Word) (s : MailboxRun T) : Prop where
  kept : s.mailbox.attributes = attributes
  stable : Stable (rank attributes) s.mailbox.messages (unread s.log)
  perm : (accepted s.log).Perm (delivered s.log ++ unread s.log)
  inOrder : Entries (InOrder attributes) s.log

theorem inv_create (attributes : Word) : Inv attributes (create attributes : MailboxRun T) :=
  ⟨rfl, .nil, .refl _, entries_nil⟩

/-- Who sleeps, whether the mailbox is deleted, and what has failed are no part of the invariant. -/
theorem Inv.asleep (h : Inv attributes s) (asleep : List (T × Timeout)) : Inv attributes { s with asleep } :=
  ⟨h.kept, h.stable, h.perm, h.inOrder⟩

theorem Inv.fail (h : Inv attributes s) (t : T) (result : Word) : Inv attributes (s.say (.failed t result)) :=
  ⟨h.kept, h.stable, h.perm, entries_cons.2 ⟨trivial, h.inOrder⟩⟩

theorem Inv.delete (h : Inv attributes s) (t : T) : Inv attributes (s.delete t) := by
  unfold MailboxRun.delete
  split_ifs
  · exact h.fail t _
  · exact ⟨h.kept, h.stable, h.perm, entries_cons.2 ⟨trivial, h.inOrder⟩⟩

theorem Inv.send (h : Inv attributes s) (t : T) (address : Word) (packet : Option Byte) :
    Inv attributes (s.send t address packet) := by
  unfold MailboxRun.send
  split_ifs
  · exact h.fail t _
  cases packet with
  | none => exact h.fail t _
  | some priority =>
    cases henqueue : enqueue s.mailbox.messages s.mailbox.attributes address priority with
    | none =>
      simp only [henqueue]
      exact h.fail t _
    | some messages =>
      simp only [henqueue]
      rw [h.kept] at henqueue
      refine ⟨h.kept, ?_, ?_, entries_cons.2 ⟨trivial, h.inOrder⟩⟩
      · rw [enqueue_eq_place henqueue]
        exact h.stable.place _
      · show (⟨address, priority⟩ :: accepted s.log).Perm
          (delivered s.log ++ (unread s.log ++ [⟨address, priority⟩]))
        rw [← List.append_assoc]
        exact (h.perm.cons _).trans (List.perm_append_singleton _ _).symm

theorem Inv.take (h : Inv attributes s) (t : T) {message : Message} {rest : List Message}
    (hfront : s.mailbox.messages = message :: rest) : Inv attributes (s.take t message rest) := by
  have hstable := h.stable
  rw [hfront] at hstable
  obtain ⟨before, after, hunread, hbefore, hafter, hstable⟩ := hstable.pop
  have herase : (unread s.log).erase message = before ++ after := by
    have hmem : message ∉ before := fun hmem => lt_irrefl _ (hbefore message hmem)
    rw [hunread, List.erase_append_right _ hmem, List.erase_cons_head]
  refine ⟨h.kept, ?_, ?_, entries_cons.2 ⟨⟨before, after, hunread, hbefore, hafter⟩, h.inOrder⟩⟩
  · show Stable (rank attributes) rest ((unread s.log).erase message)
    rwa [herase]
  · show (accepted s.log).Perm (message :: delivered s.log ++ (unread s.log).erase message)
    have hmem : message ∈ unread s.log := by rw [hunread]; simp
    exact h.perm.trans (((List.perm_cons_erase hmem).append_left _).trans List.perm_middle)

theorem Inv.receive (h : Inv attributes s) (t : T) (output : Bool) (timeout : Timeout) :
    Inv attributes (s.receive t output timeout) := by
  unfold MailboxRun.receive
  split_ifs
  · exact h.fail t _
  · exact h.fail t _
  · cases hmessages : s.mailbox.messages with
    | nil => exact h.asleep _
    | cons message rest => exact h.take t hmessages

theorem Inv.poll (h : Inv attributes s) (t : T) (output : Bool) : Inv attributes (s.poll t output) := by
  unfold MailboxRun.poll
  split_ifs
  · exact h.fail t _
  · exact h.fail t _
  · cases hmessages : s.mailbox.messages with
    | nil => exact h.fail t _
    | cons message rest => exact h.take t hmessages

section
variable [DecidableEq T]

theorem Inv.resume (h : Inv attributes s) (t : T) (expired : Prop) [Decidable expired] :
    Inv attributes (s.resume t expired) := by
  unfold MailboxRun.resume
  dsimp only
  split_ifs
  · exact (h.asleep _).fail t _
  · cases hmessages : s.mailbox.messages with
    | nil => exact (h.asleep _).fail t _
    | cons message rest => exact (h.asleep _).take t hmessages
  · cases hmessages : s.mailbox.messages with
    | nil => exact h
    | cons message rest => exact (h.asleep _).take t hmessages

theorem Inv.step (h : Inv attributes s) {a : MailboxAction T} (hstep : s.step a = some s') :
    Inv attributes s' := by
  cases a with
  | send t address packet =>
    obtain ⟨-, ⟨⟩⟩ := Option.ite_none_left_eq_some.1 hstep
    exact h.send t address packet
  | receive t output timeout =>
    obtain ⟨-, ⟨⟩⟩ := Option.ite_none_left_eq_some.1 hstep
    exact h.receive t output timeout
  | poll t output =>
    obtain ⟨-, ⟨⟩⟩ := Option.ite_none_left_eq_some.1 hstep
    exact h.poll t output
  | delete t =>
    obtain ⟨-, ⟨⟩⟩ := Option.ite_none_left_eq_some.1 hstep
    exact h.delete t
  | wake t =>
    obtain ⟨w, -, rfl⟩ := Option.map_eq_some_iff.1 hstep
    exact h.resume t False
  | expire t =>
    obtain ⟨w, -, hstep⟩ := Option.bind_eq_some_iff.1 hstep
    obtain ⟨-, ⟨⟩⟩ := Option.ite_none_left_eq_some.1 hstep
    exact h.resume t True

end

end MailboxRun

open MailboxRun in
/-- After every run the accepted messages are those delivered and those in the queue, each as often as it
was sent, and every delivery was in order. -/
theorem mailbox_inOrder {T : Type} [DecidableEq T] (attributes : Word) (actions : List (MailboxAction T))
    (s : MailboxRun T) (hrun : run MailboxRun.step (MailboxRun.create attributes) actions = some s) :
    (accepted s.log).Perm (delivered s.log ++ s.mailbox.messages) ∧
      s.mailbox.messages.Perm (unread s.log) ∧
      ∀ newer event older, s.log = newer ++ event :: older → InOrder attributes older event := by
  have h : Inv attributes s :=
    run_invariant (fun _ _ _ h hstep => h.step hstep) (inv_create attributes) hrun
  exact ⟨h.perm.trans (h.stable.perm.symm.append_left _), h.stable.perm, entries_iff.1 h.inOrder⟩

open MailboxRun in
/-- Of three messages in a priority mailbox the sleeper gets the first, and a poll the more urgent of the
others. -/
theorem mailbox_inOrder_urgent :
    let older : List (MailboxEvent Nat) :=
      [.sent 1 ⟨0x300, 4⟩, .sent 1 ⟨0x200, 5⟩, .taken 2 ⟨0x100, 9⟩, .sent 1 ⟨0x100, 9⟩]
    unread older = [⟨0x200, 5⟩, ⟨0x300, 4⟩] ∧ InOrder 0x400 older (.taken 3 ⟨0x300, 4⟩) := by
  obtain ⟨-, -, horder⟩ := mailbox_inOrder (T := Nat) 0x400
    [.receive 2 true .forever, .send 1 0x100 (some 9), .wake 2, .send 1 0x200 (some 5),
      .send 1 0x300 (some 4), .poll 3 true] _ rfl
  exact ⟨rfl, horder [] _ _ rfl⟩

end Psprism
