import Psprism.GeMemory
import Psprism.Lib.Transducer

/-!
# Utility dialogs (`sceUtilitySavedata*.cpp`, `sceUtilityMsgDialog*.cpp`, `sceUtilityOsk*.cpp`)

A dialog is started, polled for its status, updated and shut down; one marker names the dialog that is active.
What the dialogs show, what the user enters and what the calls write into the guest's memory is left out: between
two calls the guest writes there what it likes, so every call comes with the guest state it happens in, and every
update with the host's answers.

A shutdown makes a dialog wait for the status call that gives the marker back, also one that was never started. A
run keeps one active dialog, the one that is marked, exactly when it shuts down started dialogs only
(`dialogs_exclusive_iff`).
-/

namespace Psprism

inductive Utility
  | savedata | message | osk
deriving DecidableEq, Repr

/-- What `active_utility` has for a dialog. -/
def Utility.marker : Utility → Word
  | .savedata => 1
  | .message => 2
  | .osk => 3

structure UtilityDialog where
  status : Word := 0
  parameters : Word := 0
  dialogId : BitVec 64 := 0

/-- The fields of `Implementation` that the dialogs use. -/
structure Utilities where
  dialogs : Utility → UtilityDialog := fun _ => {}
  savedataOperationComplete : Bool := false
  savedataDialogPresented : Bool := false
  activeUtility : Word := 0
  nextDialogId : BitVec 64 := 1

def utilityBusy : Word := 0x80110001

namespace Utilities

def status (d : Utilities) (u : Utility) : Word := (d.dialogs u).status

def setStatus (d : Utilities) (u : Utility) (status : Word) : Utilities :=
  { d with dialogs := Function.update d.dialogs u { d.dialogs u with status } }

/-- The marker goes from none to the dialog, or stays. -/
def acquire (d : Utilities) (u : Utility) : Option Utilities :=
  if d.activeUtility = 0 then some { d with activeUtility := u.marker } else none

def release (d : Utilities) : Utilities := { d with activeUtility := 0 }

/-- A dialog with an id of its own. -/
def opened (d : Utilities) (u : Utility) (parameters : Word) : Utilities :=
  { d with
    dialogs := Function.update d.dialogs u { status := 1, parameters, dialogId := d.nextDialogId }
    nextDialogId := d.nextDialogId + 1 }

end Utilities

/-! ### The calls, with what they return -/

section
variable (d : Utilities) (s : State)

def sceUtilitySavedataInitStart : Word × Utilities :=
  match s.mem.mappedAddress (s.gpr 4) 128 with
  | none => (0x80110388, d)
  | some parameters =>
    match d.acquire .savedata with
    | none => (utilityBusy, d)
    | some d =>
      let mode := readU32 (s.mem.byteAt parameters) 48
      let interactive := decide (2 ≤ mode ∧ mode ≤ 7)
      (0, { d.opened .savedata (s.gpr 4) with
        savedataOperationComplete := false, savedataDialogPresented := interactive })

def sceUtilityMsgDialogInitStart : Word × Utilities :=
  match s.mem.mappedAddress (s.gpr 4) 572 with
  | none => (0x80110002, d)
  | some _ =>
    match d.acquire .message with
    | none => (utilityBusy, d)
    | some d => (0, d.opened .message (s.gpr 4))

def sceUtilityOskInitStart : Word × Utilities :=
  match s.mem.mappedAddress (s.gpr 4) 64 with
  | none => (0x80110002, d)
  | some parameters =>
    match d.acquire .osk with
    | none => (utilityBusy, d)
    | some d =>
      let count := readU32 (s.mem.byteAt parameters) 48
      let dataAddress := readU32 (s.mem.byteAt parameters) 52
      if count = 0 ∨ 16 < count ∨ (s.mem.mappedAddress dataAddress (count.toNat * 52)).isNone then
        (0x80110002, d.release)
      else (0, d.opened .osk (s.gpr 4))

end

/-- The status calls: a started dialog runs from the first of them on, one that is shut down ends with the next. -/
def utilityGetStatus (u : Utility) (d : Utilities) : Word × Utilities :=
  let status := d.status u
  (status,
    if status = 1 then d.setStatus u 2
    else if status = 4 then (d.setStatus u 0).release
    else d)

def sceUtilitySavedataGetStatus : Utilities → Word × Utilities := utilityGetStatus .savedata
def sceUtilityMsgDialogGetStatus : Utilities → Word × Utilities := utilityGetStatus .message
def sceUtilityOskGetStatus : Utilities → Word × Utilities := utilityGetStatus .osk

section
variable (answered : BitVec 64 → Bool)

/-- A savedata operation is carried out once, after the user's choice where there is one to make. -/
def sceUtilitySavedataUpdate (d : Utilities) : Word × Utilities :=
  if d.status .savedata = 2 ∧ ¬ d.savedataOperationComplete then
    if d.savedataDialogPresented ∧ ¬ answered (d.dialogs .savedata).dialogId then (0, d)
    else (0, { d.setStatus .savedata 3 with savedataOperationComplete := true })
  else (0, d)

/-- The updates of the dialogs that wait for the user. -/
def utilityUpdate (u : Utility) (d : Utilities) : Word × Utilities :=
  if d.status u = 2 ∧ answered (d.dialogs u).dialogId then (0, d.setStatus u 3) else (0, d)

def sceUtilityMsgDialogUpdate : Utilities → Word × Utilities := utilityUpdate answered .message
def sceUtilityOskUpdate : Utilities → Word × Utilities := utilityUpdate answered .osk

end

/-- The shutdown calls ask neither for the status nor for the marker. -/
def utilityShutdownStart (u : Utility) (d : Utilities) : Word × Utilities := (0, d.setStatus u 4)

def sceUtilitySavedataShutdownStart : Utilities → Word × Utilities := utilityShutdownStart .savedata
def sceUtilityMsgDialogShutdownStart : Utilities → Word × Utilities := utilityShutdownStart .message
def sceUtilityOskShutdownStart : Utilities → Word × Utilities := utilityShutdownStart .osk

inductive UtilityCall
  | initStart (u : Utility) (s : State)
  | getStatus (u : Utility)
  | update (u : Utility) (answered : BitVec 64 → Bool)
  | shutdownStart (u : Utility)

def utilityCall (d : Utilities) : UtilityCall → Word × Utilities
  | .initStart .savedata s => sceUtilitySavedataInitStart d s
  | .initStart .message s => sceUtilityMsgDialogInitStart d s
  | .initStart .osk s => sceUtilityOskInitStart d s
  | .getStatus .savedata => sceUtilitySavedataGetStatus d
  | .getStatus .message => sceUtilityMsgDialogGetStatus d
  | .getStatus .osk => sceUtilityOskGetStatus d
  | .update .savedata answered => sceUtilitySavedataUpdate answered d
  | .update .message answered => sceUtilityMsgDialogUpdate answered d
  | .update .osk answered => sceUtilityOskUpdate answered d
  | .shutdownStart .savedata => sceUtilitySavedataShutdownStart d
  | .shutdownStart .message => sceUtilityMsgDialogShutdownStart d
  | .shutdownStart .osk => sceUtilityOskShutdownStart d

/-- The dialogs after some calls, from the start of the program. -/
def utilitiesAfter (calls : List UtilityCall) : Utilities := Transducer.after utilityCall {} calls

/-! ### One active dialog -/

namespace Utilities

def Idle (d : Utilities) : Prop := ∀ u, d.status u = 0

/-- All dialogs are idle and none is marked, or one is not and is marked. -/
def Exclusive (d : Utilities) : Prop :=
  d.Idle ∧ d.activeUtility = 0 ∨
    ∃ u, d.status u ≠ 0 ∧ d.activeUtility = u.marker ∧ ∀ v, v ≠ u → d.status v = 0

/-- A dialog starts only while all are idle. -/
def StartsAlone (d : Utilities) : Prop := ∀ u s, (utilityCall d (.initStart u s)).1 = 0 → d.Idle

/-- What is shut down has been started. -/
def ShutsStarted (d : Utilities) : UtilityCall → Prop
  | .shutdownStart u => d.status u ≠ 0
  | _ => True

variable {d : Utilities} {u v : Utility} {w : Word}

@[simp] theorem status_setStatus : (d.setStatus u w).status u = w := by
  simp [status, setStatus]

@[simp] theorem status_setStatus_of_ne (h : v ≠ u) : (d.setStatus u w).status v = d.status v := by
  simp [status, setStatus, h]

@[simp] theorem activeUtility_setStatus : (d.setStatus u w).activeUtility = d.activeUtility := rfl

@[simp] theorem activeUtility_release : d.release.activeUtility = 0 := rfl

@[simp] theorem status_release : d.release.status = d.status := rfl

theorem marker_ne_zero (u : Utility) : u.marker ≠ 0 := by cases u <;> decide

theorem marker_inj (h : u.marker = v.marker) : u = v := by
  cases u <;> cases v <;> first | rfl | exact absurd h (by decide)

/-- The dialogs that are not idle are the one that is marked. -/
theorem Exclusive.status_ne_zero_iff (h : d.Exclusive) : d.status u ≠ 0 ↔ d.activeUtility = u.marker := by
  rcases h with ⟨hidle, hnone⟩ | ⟨v, hv, hmark, hothers⟩
  · rw [hnone]
    exact ⟨fun hu => absurd (hidle u) hu, fun hu => absurd hu.symm (marker_ne_zero u)⟩
  · rw [hmark]
    constructor
    · intro hu
      rw [Classical.not_not.1 fun hne => hu (hothers u hne)]
    · intro hu
      rwa [← marker_inj hu]

theorem Exclusive.idle (h : d.Exclusive) (hnone : d.activeUtility = 0) : d.Idle := by
  intro u
  by_contra hu
  exact marker_ne_zero u ((h.status_ne_zero_iff.1 hu).symm.trans hnone)

/-- A dialog that is started goes on. -/
theorem Exclusive.setStatus (h : d.Exclusive) (hu : d.status u ≠ 0) (hw : w ≠ 0) : (d.setStatus u w).Exclusive := by
  have hmark := h.status_ne_zero_iff.1 hu
  refine .inr ⟨u, by simpa using hw, hmark, fun v hv => ?_⟩
  rw [status_setStatus_of_ne hv]
  by_contra hother
  exact hv (marker_inj ((h.status_ne_zero_iff.1 hother).symm.trans hmark))

/-- A dialog that ends was the only one. -/
theorem Exclusive.ended (h : d.Exclusive) (hu : d.status u ≠ 0) : (d.setStatus u 0).release.Exclusive := by
  have hmark := h.status_ne_zero_iff.1 hu
  refine .inl ⟨fun v => ?_, rfl⟩
  by_cases hv : v = u
  · simp [hv]
  · rw [status_release, status_setStatus_of_ne hv]
    by_contra hother
    exact hv (marker_inj ((h.status_ne_zero_iff.1 hother).symm.trans hmark))

/-- What a start leaves of the statuses and the marker. -/
inductive Started (d d' : Utilities) (u : Utility) : Prop
  | refused (hstatus : d'.status = d.status) (hmark : d'.activeUtility = d.activeUtility)
  | opened (hnone : d.activeUtility = 0) (hstatus : d'.status u = 1) (hothers : ∀ v, v ≠ u → d'.status v = d.status v)
      (hmark : d'.activeUtility = u.marker)

theorem acquire_eq_some {d' : Utilities} (h : d.acquire u = some d') :
    d.activeUtility = 0 ∧ d' = { d with activeUtility := u.marker } := by
  rw [acquire] at h
  split at h
  · next hnone => exact ⟨hnone, (Option.some.inj h).symm⟩
  · cases h

theorem started_opened (hnone : d.activeUtility = 0) (parameters : Word) :
    Started d (({ d with activeUtility := u.marker } : Utilities).opened u parameters) u := by
  refine .opened hnone (by simp [status, opened]) (fun v hv => ?_) rfl
  simp [status, opened, hv]

theorem started (u : Utility) (s : State) : Started d (utilityCall d (.initStart u s)).2 u := by
  cases u with
  | savedata =>
    rw [utilityCall, sceUtilitySavedataInitStart]
    split
    · exact .refused rfl rfl
    split
    · exact .refused rfl rfl
    · next d' hd' =>
      obtain ⟨hnone, rfl⟩ := acquire_eq_some hd'
      obtain ⟨hstatus, hmark⟩ | ⟨hnone, hstatus, hothers, hmark⟩ := started_opened (u := .savedata) hnone (s.gpr 4)
      · exact .refused hstatus hmark
      · exact .opened hnone hstatus hothers hmark
  | message =>
    rw [utilityCall, sceUtilityMsgDialogInitStart]
    split
    · exact .refused rfl rfl
    split
    · exact .refused rfl rfl
    · next d' hd' =>
      obtain ⟨hnone, rfl⟩ := acquire_eq_some hd'
      exact started_opened hnone _
  | osk =>
    rw [utilityCall, sceUtilityOskInitStart]
    split
    · exact .refused rfl rfl
    split
    · exact .refused rfl rfl
    · next d' hd' =>
      obtain ⟨hnone, rfl⟩ := acquire_eq_some hd'
      dsimp only
      split
      · exact .refused rfl hnone.symm
      · exact started_opened hnone _

theorem Exclusive.started {d' : Utilities} (h : d.Exclusive) (hstart : Started d d' u) : d'.Exclusive := by
  cases hstart with
  | refused hstatus hmark => rwa [Exclusive, Idle, hstatus, hmark]
  | opened hnone hstatus hothers hmark =>
    refine .inr ⟨u, by rw [hstatus]; decide, hmark, fun v hv => ?_⟩
    rw [hothers v hv, h.idle hnone]

theorem Exclusive.getStatus (h : d.Exclusive) (u : Utility) : (utilityGetStatus u d).2.Exclusive := by
  rw [utilityGetStatus]
  dsimp only
  split
  · next hone => exact h.setStatus (by rw [hone]; decide) (by decide)
  split
  · next hfour => exact h.ended (by rw [hfour]; decide)
  · exact h

theorem Exclusive.update (h : d.Exclusive) (answered : BitVec 64 → Bool) (u : Utility) :
    (utilityUpdate answered u d).2.Exclusive := by
  rw [utilityUpdate]
  split
  · next hrun => exact h.setStatus (by rw [hrun.1]; decide) (by decide)
  · exact h

theorem Exclusive.savedataUpdate (h : d.Exclusive) (answered : BitVec 64 → Bool) :
    (sceUtilitySavedataUpdate answered d).2.Exclusive := by
  rw [sceUtilitySavedataUpdate]
  split
  · next hrun =>
    split
    · exact h
    · exact h.setStatus (u := .savedata) (w := 3) (by rw [hrun.1]; decide) (by decide)
  · exact h

theorem Exclusive.shutdownStart_iff (h : d.Exclusive) : (utilityShutdownStart u d).2.Exclusive ↔ d.status u ≠ 0 := by
  refine ⟨fun h' => ?_, fun hu => h.setStatus hu (by decide)⟩
  have hmark := h'.status_ne_zero_iff (u := u).1 (by rw [utilityShutdownStart, status_setStatus]; decide)
  exact h.status_ne_zero_iff.2 hmark

/-- Of all calls only the shutdown of an idle dialog breaks the rule. -/
theorem exclusive_step (d : Utilities) (c : UtilityCall) (h : d.Exclusive) :
    (utilityCall d c).2.Exclusive ↔ d.ShutsStarted c := by
  cases c with
  | initStart u s => exact iff_of_true (h.started (started u s)) trivial
  | getStatus u => cases u <;> exact iff_of_true (h.getStatus _) trivial
  | update u answered =>
    cases u with
    | savedata => exact iff_of_true (h.savedataUpdate answered) trivial
    | message | osk => exact iff_of_true (h.update answered _) trivial
  | shutdownStart u => cases u <;> exact h.shutdownStart_iff

theorem exclusive_new : Exclusive {} := .inl ⟨fun _ => rfl, rfl⟩

/-- A start that succeeds takes the marker. -/
theorem activeUtility_of_initStart (s : State) (h : (utilityCall d (.initStart u s)).1 = 0) :
    d.activeUtility = 0 := by
  have hacquire : ∀ {e}, d.acquire u = some e → d.activeUtility = 0 := fun he => (acquire_eq_some he).1
  cases u with
  | savedata =>
    rw [utilityCall, sceUtilitySavedataInitStart] at h
    split at h
    · cases h
    split at h
    · cases h
    · next he => exact hacquire he
  | message =>
    rw [utilityCall, sceUtilityMsgDialogInitStart] at h
    split at h
    · cases h
    split at h
    · cases h
    · next he => exact hacquire he
  | osk =>
    rw [utilityCall, sceUtilityOskInitStart] at h
    split at h
    · cases h
    split at h
    · cases h
    · next he => exact hacquire he

theorem Exclusive.startsAlone (h : d.Exclusive) : d.StartsAlone :=
  fun _ s hstart => h.idle (activeUtility_of_initStart s hstart)

end Utilities

/-- In every state of a run at most one dialog is not idle, that one is marked, and a dialog starts only while all are
idle, exactly when the run shuts down started dialogs only. -/
theorem dialogs_exclusive_iff (calls : List UtilityCall) :
    (∀ before rest, calls = before ++ rest →
      (utilitiesAfter before).Exclusive ∧ (utilitiesAfter before).StartsAlone) ↔
      ∀ before call rest, calls = before ++ call :: rest → (utilitiesAfter before).ShutsStarted call := by
  refine Iff.trans ?_ (Transducer.after_guarded_iff Utilities.exclusive_step Utilities.exclusive_new calls)
  exact forall₃_congr fun before rest _ => ⟨And.left, fun h => ⟨h, h.startsAlone⟩⟩

/-- A guest whose parameter block is mapped. -/
def dialogGuest : State where
  gpr _ := 0x08800000
  mem := { memory := ⟨some fun _ => 0, 1024⟩, memoryBase := 0x08800000 }

/-- The savedata dialog was never started. Its shutdown and its status give away the marker of the message dialog,
and a savedata dialog starts beside that one. -/
theorem dialogs_both_open :
    let calls : List UtilityCall := [.shutdownStart .savedata, .initStart .message dialogGuest, .getStatus .savedata]
    ¬ (utilitiesAfter calls).Exclusive ∧ ¬ (utilitiesAfter calls).StartsAlone ∧
      let d := utilitiesAfter (calls ++ [.initStart .savedata dialogGuest])
      d.status .message = 1 ∧ d.status .savedata = 1 := by
  have hmessage : (utilitiesAfter
      [.shutdownStart .savedata, .initStart .message dialogGuest, .getStatus .savedata]).status .message = 1 := by decide
  refine ⟨fun h => ?_, fun h => ?_, by decide, by decide⟩
  · exact absurd (h.idle rfl .message) (by rw [hmessage]; decide)
  · exact absurd (h .savedata dialogGuest (by decide) .message) (by rw [hmessage]; decide)

end Psprism
