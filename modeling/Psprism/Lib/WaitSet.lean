import Psprism.Lib.Interleaving

/-!
# Condition variables

Calls share a state under a mutex. A call that finds nothing to take sleeps on the condition variable, and one
that puts something there gives the mutex up and then notifies one sleeper. Before it does, and before the call
that it wakes has the mutex again, other calls can take what was put there, and a sleeper can wake for no reason.

No wake-up is lost if each notification comes after one thing at most and each call that wakes takes one or finds
none: then what is left while a call sleeps is at most what notifications are on their way for (`Covered`).
-/

/-- The calls on a condition variable. -/
structure WaitSet (ω : Type*) where
  sleeping : List ω := []
  /-- Calls that were woken and wait for the mutex. -/
  notified : List ω := []
  /-- Calls of `notify_one` still to come. -/
  posting : Nat := 0

namespace WaitSet

variable {ω : Type*} {s s' : WaitSet ω} {w : ω} {n m : Nat}

def sleep (s : WaitSet ω) (w : ω) : WaitSet ω := { s with sleeping := w :: s.sleeping }

def post (s : WaitSet ω) : WaitSet ω := { s with posting := s.posting + 1 }

def calls (s : WaitSet ω) : List ω := s.sleeping ++ s.notified

/-- `notify_all`. -/
def notifyAll (s : WaitSet ω) : WaitSet ω := { s with sleeping := [], notified := s.sleeping ++ s.notified }

section
variable [DecidableEq ω]

/-- `notify_one`, with the call that it wakes. -/
def notifyOne (s : WaitSet ω) (woken : Option ω) : Option (WaitSet ω) :=
  match s.posting, woken with
  | 0, _ => none
  | n + 1, none => if s.sleeping = [] then some { s with posting := n } else none
  | n + 1, some w =>
    if w ∈ s.sleeping then
      some { sleeping := s.sleeping.erase w, notified := w :: s.notified, posting := n }
    else none

/-- The call gets the mutex, notified or not. -/
def awaken (s : WaitSet ω) (w : ω) : Option (WaitSet ω) :=
  if w ∈ s.notified then some { s with notified := s.notified.erase w }
  else if w ∈ s.sleeping then some { s with sleeping := s.sleeping.erase w }
  else none

end

/-- Of `n` things no more than are notified of, as long as a call sleeps. -/
def Covered (s : WaitSet ω) (n : Nat) : Prop := s.sleeping ≠ [] → n ≤ s.notified.length + s.posting

/-- Nothing is on its way. -/
structure Quiet (s : WaitSet ω) : Prop where
  notified : s.notified = []
  posting : s.posting = 0

/-- Notifications and woken calls still to come. -/
def pending (s : WaitSet ω) : Nat := s.notified.length + 2 * s.posting

theorem covered_zero : s.Covered 0 := fun _ => Nat.zero_le _

theorem covered_of_awake (h : s.sleeping = []) : s.Covered n := fun hne => absurd h hne

theorem Covered.mono (h : s.Covered n) (hle : m ≤ n) : s.Covered m := fun hne => Nat.le_trans hle (h hne)

theorem Covered.post (h : s.Covered n) : s.post.Covered (n + 1) := by
  intro hne
  have hle := h hne
  show n + 1 ≤ s.notified.length + (s.posting + 1)
  omega

theorem Covered.eq_zero (h : s.Covered n) (hq : s.Quiet) : s.sleeping = [] ∨ n = 0 := by
  by_cases hne : s.sleeping = []
  · exact .inl hne
  · have hle := h hne
    rw [hq.notified, hq.posting] at hle
    exact .inr (Nat.le_zero.1 hle)

theorem pending_notifyAll : s.notifyAll.pending = s.pending + s.sleeping.length := by
  unfold pending notifyAll
  dsimp only
  rw [List.length_append]
  omega

variable [DecidableEq ω]

theorem notifyOne_cases {woken : Option ω} (h : s.notifyOne woken = some s') :
    s.posting = s'.posting + 1 ∧
      ((s.sleeping = [] ∧ s'.sleeping = [] ∧ s'.notified = s.notified) ∨
        ∃ w ∈ s.sleeping, s'.sleeping = s.sleeping.erase w ∧ s'.notified = w :: s.notified) := by
  unfold notifyOne at h
  cases hposting : s.posting with
  | zero => simp [hposting] at h
  | succ n =>
    cases woken with
    | none =>
      simp only [hposting] at h
      obtain ⟨hnil, ⟨⟩⟩ := Option.ite_none_right_eq_some.1 h
      exact ⟨rfl, .inl ⟨hnil, hnil, rfl⟩⟩
    | some w =>
      simp only [hposting] at h
      obtain ⟨hmem, ⟨⟩⟩ := Option.ite_none_right_eq_some.1 h
      exact ⟨rfl, .inr ⟨w, hmem, rfl, rfl⟩⟩

theorem awaken_cases (h : s.awaken w = some s') :
    (w ∈ s.notified ∧ s' = { s with notified := s.notified.erase w }) ∨
      w ∈ s.sleeping ∧ s' = { s with sleeping := s.sleeping.erase w } := by
  unfold awaken at h
  split_ifs at h with hn hs
  · exact .inl ⟨hn, (Option.some.inj h).symm⟩
  · exact .inr ⟨hs, (Option.some.inj h).symm⟩

theorem awake_of_notifyOne {woken : Option ω} (h : s.notifyOne woken = some s') (hnil : s.sleeping = []) :
    s'.sleeping = [] := by
  obtain ⟨-, ⟨-, hnil', -⟩ | ⟨w, hmem, -⟩⟩ := notifyOne_cases h
  · exact hnil'
  · rw [hnil] at hmem
    cases hmem

theorem awake_of_awaken (h : s.awaken w = some s') (hnil : s.sleeping = []) : s'.sleeping = [] := by
  rcases awaken_cases h with ⟨-, rfl⟩ | ⟨hmem, -⟩
  · exact hnil
  · rw [hnil] at hmem
    cases hmem

theorem calls_notifyOne {woken : Option ω} (h : s.notifyOne woken = some s') : s'.calls.Perm s.calls := by
  unfold calls
  obtain ⟨-, ⟨hnil, hnil', hnotified⟩ | ⟨w, hmem, hsleeping, hnotified⟩⟩ := notifyOne_cases h
  · rw [hnil, hnil', hnotified]
  · rw [hsleeping, hnotified]
    exact List.perm_middle.trans ((List.perm_cons_erase hmem).symm.append_right s.notified)

theorem calls_awaken (h : s.awaken w = some s') : s.calls.Perm (w :: s'.calls) := by
  rcases awaken_cases h with ⟨hmem, rfl⟩ | ⟨hmem, rfl⟩
  · exact ((List.perm_cons_erase hmem).append_left s.sleeping).trans List.perm_middle
  · exact (List.perm_cons_erase hmem).append_right s.notified

theorem Covered.notifyOne (h : s.Covered n) {woken : Option ω} (hs : s.notifyOne woken = some s') :
    s'.Covered n := by
  obtain ⟨hposting, ⟨-, hnil, -⟩ | ⟨w, hmem, -, hnotified⟩⟩ := notifyOne_cases hs
  · exact covered_of_awake hnil
  · intro _
    have hle := h (List.ne_nil_of_mem hmem)
    rw [hnotified, List.length_cons]
    omega

/-- The call that has the mutex takes a thing. -/
theorem Covered.awaken (h : s.Covered n) (hs : s.awaken w = some s') : s'.Covered (n - 1) := by
  rcases awaken_cases hs with ⟨hmem, rfl⟩ | ⟨hmem, rfl⟩
  · intro hne
    have hle := h hne
    have hlength := List.length_erase_of_mem hmem
    show n - 1 ≤ (s.notified.erase w).length + s.posting
    omega
  · intro _
    have hle := h (List.ne_nil_of_mem hmem)
    show n - 1 ≤ s.notified.length + s.posting
    omega

theorem sleeping_notifyOne {woken : Option ω} (hs : s.notifyOne woken = some s') :
    s'.sleeping.length ≤ s.sleeping.length := by
  obtain ⟨-, ⟨-, hnil, -⟩ | ⟨w, -, hsleeping, -⟩⟩ := notifyOne_cases hs
  · rw [hnil]
    exact Nat.zero_le _
  · rw [hsleeping]
    exact List.length_erase_le

theorem pending_notifyOne {woken : Option ω} (hs : s.notifyOne woken = some s') : s'.pending < s.pending := by
  unfold pending
  obtain ⟨hposting, ⟨-, -, hnotified⟩ | ⟨w, -, -, hnotified⟩⟩ := notifyOne_cases hs
  · rw [hnotified]
    omega
  · rw [hnotified, List.length_cons]
    omega

theorem awaken_notified (hs : s.awaken w = some s') (hmem : w ∈ s.notified) :
    s'.sleeping = s.sleeping ∧ s'.pending < s.pending := by
  rw [awaken, if_pos hmem] at hs
  obtain rfl := Option.some.inj hs
  have hlength := List.length_erase_of_mem hmem
  have hpos := List.length_pos_of_mem hmem
  refine ⟨rfl, ?_⟩
  unfold pending
  dsimp only
  omega

/-- Where nothing can go on, nothing is on its way. -/
theorem quiet_of_none (hn : ∀ woken, s.notifyOne woken = none) (ha : ∀ w ∈ s.notified, s.awaken w = none) :
    s.Quiet := by
  constructor
  · refine List.eq_nil_iff_forall_not_mem.2 fun w hmem => ?_
    have hnone := ha w hmem
    rw [awaken, if_pos hmem] at hnone
    cases hnone
  · by_contra hne
    obtain ⟨n, hposting⟩ := Nat.exists_eq_succ_of_ne_zero hne
    cases hsleeping : s.sleeping with
    | nil =>
      have hnone := hn none
      simp [notifyOne, hposting, hsleeping] at hnone
    | cons w rest =>
      have hnone := hn (some w)
      simp [notifyOne, hposting, hsleeping] at hnone

end WaitSet
