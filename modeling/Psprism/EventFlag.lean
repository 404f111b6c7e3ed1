import Psprism.Wait
import Psprism.Lib.Interleaving

/-!
# Event flags (`sceKernelWaitEventFlag.cpp`, `sceKernelPollEventFlag.cpp`, `sceKernelSetEventFlag.cpp`,
`sceKernelClearEventFlag.cpp`)

A wait returns at once when its condition holds and sleeps otherwise; a sleeper tests the condition again
when it gets to run after a set or a clear. Nothing is kept for a sleeper whose condition a set has made
true: whoever runs before it can take the bits. `Keeps` says when a step leaves them to it, and it does
exactly when the bits it takes spare the sleeper (`eventFlag_keeps_iff`). No exit is requested.
-/

namespace Psprism
open Interleaving

/-- A thread asleep in `sceKernelWaitEventFlag`. Calls are counted: `call` is the number of this one, and
`since` how many there had been when a set last made its condition true. -/
structure FlagWait (T : Type) where
  thread : T
  pattern : Word
  mode : Word
  call : Nat
  since : Nat := 0

inductive FlagEvent (T : Type)
  /-- A wait or poll that succeeded, with the bits it writes to its output. -/
  | returned (t : T) (pattern mode observed : Word)
  | failed (t : T) (observed result : Word)

inductive FlagAction (T : Type)
  | wait (t : T) (pattern mode : Word)
  | poll (t : T) (pattern mode : Word)
  | set (t : T) (bits : Word)
  | clear (t : T) (bits : Word)
  /-- A sleeper tests its condition. -/
  | wake (t : T)

/-- `Implementation::EventFlag` with the calls on it. -/
structure FlagRun (T : Type) where
  bits : Word
  asleep : List (FlagWait T) := []
  calls : Nat := 0
  log : List (FlagEvent T) := []

def eventFlagCondition : Word := 0x800201af

/-- The condition of a wait or poll. -/
def Matched (bits pattern mode : Word) : Prop :=
  if mode &&& 1 ≠ 0 then bits &&& pattern ≠ 0 else bits &&& pattern = pattern

instance (bits pattern mode : Word) : Decidable (Matched bits pattern mode) :=
  inferInstanceAs (Decidable (if mode &&& 1 ≠ 0 then bits &&& pattern ≠ 0 else bits &&& pattern = pattern))

/-- What a wait or poll that succeeds leaves. -/
def remaining (bits pattern mode : Word) : Word :=
  if mode &&& 0x20 ≠ 0 then 0 else if mode &&& 0x10 ≠ 0 then bits &&& ~~~pattern else bits

namespace FlagRun
variable {T : Type}

/-- `sceKernelCreateEventFlag`. -/
def create (bits : Word) : FlagRun T := { bits }

def succeed (s : FlagRun T) (t : T) (pattern mode : Word) : FlagRun T :=
  { s with bits := remaining s.bits pattern mode, log := .returned t pattern mode s.bits :: s.log }

/-- `sceKernelWaitEventFlag` up to its sleep. -/
def wait (s : FlagRun T) (t : T) (pattern mode : Word) : FlagRun T :=
  let begun := { s with calls := s.calls + 1 }
  if Matched s.bits pattern mode then begun.succeed t pattern mode
  else { begun with asleep := s.asleep ++ [{ thread := t, pattern, mode, call := s.calls }] }

/-- `sceKernelPollEventFlag`. -/
def poll (s : FlagRun T) (t : T) (pattern mode : Word) : FlagRun T :=
  if Matched s.bits pattern mode then s.succeed t pattern mode
  else { s with log := .failed t s.bits eventFlagCondition :: s.log }

def Ready (s : FlagRun T) (w : FlagWait T) : Prop := Matched s.bits w.pattern w.mode

instance (s : FlagRun T) (w : FlagWait T) : Decidable (s.Ready w) :=
  inferInstanceAs (Decidable (Matched _ _ _))

/-- `sceKernelSetEventFlag`. -/
def set (s : FlagRun T) (bits : Word) : FlagRun T :=
  let after := { s with bits := s.bits ||| bits }
  { after with
    asleep := s.asleep.map fun w => if ¬ s.Ready w ∧ after.Ready w then { w with since := s.calls } else w }

/-- `sceKernelClearEventFlag`. -/
def clear (s : FlagRun T) (bits : Word) : FlagRun T := { s with bits := s.bits &&& bits }

section
variable [DecidableEq T]

def Blocked (s : FlagRun T) (t : T) : Prop := t ∈ s.asleep.map FlagWait.thread

instance (s : FlagRun T) (t : T) : Decidable (s.Blocked t) := inferInstanceAs (Decidable (t ∈ _))

/-- A sleeper tests its condition, and returns when it holds. -/
def resume (s : FlagRun T) (w : FlagWait T) : FlagRun T :=
  if s.Ready w then
    { s with asleep := s.asleep.eraseP (·.thread = w.thread) }.succeed w.thread w.pattern w.mode
  else s

def step (s : FlagRun T) : FlagAction T → Option (FlagRun T)
  | .wait t pattern mode => if s.Blocked t then none else some (s.wait t pattern mode)
  | .poll t pattern mode => if s.Blocked t then none else some (s.poll t pattern mode)
  | .set t bits => if s.Blocked t then none else some (s.set bits)
  | .clear t bits => if s.Blocked t then none else some (s.clear bits)
  | .wake t => (s.asleep.find? (·.thread = t)).map s.resume

/-- A step from `s` to `s'` withdraws the condition of a sleeper only when another sleeper returns, whose
call was there when a set made the condition true. -/
def Keeps (s : FlagRun T) (a : FlagAction T) (s' : FlagRun T) : Prop :=
  ∀ w ∈ s.asleep, w ∈ s'.asleep → s.Ready w → s'.Ready w ∨
    ∃ t u, a = .wake t ∧ s.asleep.find? (·.thread = t) = some u ∧ u.call < w.since

/-- A wait or poll that succeeds in a step from `s` to `s'` has observed the bits of `s`, among which its
condition holds, and leaves those of them that it does not clear. -/
def TakesOwn (s s' : FlagRun T) : Prop :=
  ∀ t pattern mode observed, s'.log = .returned t pattern mode observed :: s.log →
    observed = s.bits ∧ Matched observed pattern mode ∧
    ∀ i < 32, s'.bits.getLsbD i =
      (observed.getLsbD i && !(mode.getLsbD 5 || (mode.getLsbD 4 && pattern.getLsbD i)))

def untouched (pattern mode : Word) : Word :=
  if mode &&& 0x20 ≠ 0 then 0 else if mode &&& 0x10 ≠ 0 then ~~~pattern else BitVec.allOnes 32

/-- When only `kept` is kept of the bits, one that the sleeper waits for is left (in or mode), or none that
it waits for is missing (in and mode). -/
def Spared (s : FlagRun T) (kept : Word) (w : FlagWait T) : Prop :=
  if w.mode &&& 1 ≠ 0 then s.bits &&& w.pattern &&& kept ≠ 0 else w.pattern &&& ~~~kept = 0

instance (s : FlagRun T) (kept : Word) (w : FlagWait T) : Decidable (s.Spared kept w) :=
  inferInstanceAs (Decidable (if w.mode &&& 1 ≠ 0 then s.bits &&& w.pattern &&& kept ≠ 0
    else w.pattern &&& ~~~kept = 0))

def SparesAll (s : FlagRun T) (kept : Word) (sleepers : List (FlagWait T)) : Prop :=
  ∀ w ∈ sleepers, s.Ready w → s.Spared kept w

instance (s : FlagRun T) (kept : Word) (sleepers : List (FlagWait T)) : Decidable (s.SparesAll kept sleepers) :=
  List.decidableBAll _ _

/-- What a step takes spares the sleepers whose condition holds, apart from those that the returning sleeper
was queued with when a set made the condition true. -/
def Spares (s : FlagRun T) : FlagAction T → Prop
  | .wait _ pattern mode | .poll _ pattern mode =>
    Matched s.bits pattern mode → s.SparesAll (untouched pattern mode) s.asleep
  | .set _ _ => True
  | .clear _ bits => s.SparesAll bits s.asleep
  | .wake t => ∀ u ∈ s.asleep.find? (·.thread = t), s.Ready u →
      s.SparesAll (untouched u.pattern u.mode)
        ((s.asleep.eraseP (·.thread = t)).filter (·.since ≤ u.call))

instance (s : FlagRun T) : ∀ a, Decidable (s.Spares a)
  | .wait _ _ _ | .poll _ _ _ => inferInstanceAs (Decidable (Matched _ _ _ → SparesAll _ _ _))
  | .set _ _ => .isTrue trivial
  | .clear _ _ => inferInstanceAs (Decidable (SparesAll _ _ _))
  | .wake t => inferInstanceAs (Decidable (∀ u ∈ s.asleep.find? (·.thread = t), s.Ready u →
      s.SparesAll (untouched u.pattern u.mode)
        ((s.asleep.eraseP (·.thread = t)).filter (·.since ≤ u.call))))

end

variable {s s' : FlagRun T}

theorem remaining_eq (bits pattern mode : Word) : remaining bits pattern mode = bits &&& untouched pattern mode := by
  unfold remaining untouched
  split_ifs
  · exact (BitVec.and_zero).symm
  · rfl
  · exact (BitVec.and_allOnes).symm

theorem and_eq_self_iff {x y : Word} : x &&& y = y ↔ ∀ i < 32, y.getLsbD i = true → x.getLsbD i = true := by
  rw [BitVec.eq_of_getLsbD_eq_iff]
  refine forall₂_congr fun i hi => ?_
  rw [BitVec.getLsbD_and]
  cases x.getLsbD i <;> cases y.getLsbD i <;> simp

theorem and_not_eq_zero_iff {x y : Word} :
    y &&& ~~~x = 0 ↔ ∀ i < 32, y.getLsbD i = true → x.getLsbD i = true := by
  rw [BitVec.eq_of_getLsbD_eq_iff]
  refine forall₂_congr fun i hi => ?_
  rw [BitVec.getLsbD_and, BitVec.getLsbD_not]
  cases x.getLsbD i <;> cases y.getLsbD i <;> simp [hi]

/-- A condition that holds goes on to hold of the bits that are kept exactly when its sleeper is spared. -/
theorem matched_and_iff {kept : Word} {w : FlagWait T} (h : s.Ready w) :
    Matched (s.bits &&& kept) w.pattern w.mode ↔ s.Spared kept w := by
  unfold Ready Matched at h
  unfold Matched Spared
  split_ifs at h ⊢
  · rw [BitVec.and_assoc, BitVec.and_comm kept, ← BitVec.and_assoc]
  · rw [and_eq_self_iff] at h
    rw [and_eq_self_iff, and_not_eq_zero_iff]
    refine forall₂_congr fun i hi => imp_congr_right fun hpattern => ?_
    rw [BitVec.getLsbD_and, h i hi hpattern, Bool.true_and]

theorem or_and_self (x y : Word) : x ||| (x &&& y) = x := by
  refine BitVec.eq_of_getLsbD_eq fun i _ => ?_
  rw [BitVec.getLsbD_or, BitVec.getLsbD_and]
  cases x.getLsbD i <;> rfl

theorem Matched.or {bits pattern mode : Word} (h : Matched bits pattern mode) (more : Word) :
    Matched (bits ||| more) pattern mode := by
  unfold Matched at h ⊢
  split_ifs at h ⊢
  · intro hzero
    refine h (BitVec.eq_of_getLsbD_eq fun i hi => ?_)
    have hi := congrArg (·.getLsbD i) hzero
    simp only [BitVec.getLsbD_and, BitVec.getLsbD_or] at hi ⊢
    revert hi
    cases bits.getLsbD i <;> simp
  · rw [and_eq_self_iff] at h ⊢
    intro i hi hpattern
    rw [BitVec.getLsbD_or, h i hi hpattern, Bool.true_or]

theorem and_ne_zero_iff (mode : Word) (i : Nat) (hi : i < 32) :
    mode &&& BitVec.twoPow 32 i ≠ 0 ↔ mode.getLsbD i = true := by
  rw [BitVec.and_twoPow]
  split_ifs with h
  · refine iff_of_true (fun hzero => ?_) h
    have hbit := congrArg (·.getLsbD i) hzero
    simp [hi] at hbit
  · exact iff_of_false (fun hne => hne rfl) h

theorem getLsbD_remaining (bits pattern mode : Word) {i : Nat} (hi : i < 32) :
    (remaining bits pattern mode).getLsbD i =
      (bits.getLsbD i && !(mode.getLsbD 5 || (mode.getLsbD 4 && pattern.getLsbD i))) := by
  have hall := and_ne_zero_iff mode 5 (by decide)
  have hclear := and_ne_zero_iff mode 4 (by decide)
  unfold remaining
  split_ifs with h5 h4
  · rw [hall.1 h5]
    simp
  · rw [hclear.1 h4, Bool.eq_false_iff.2 (mt hall.2 h5)]
    simp [hi]
  · rw [Bool.eq_false_iff.2 (mt hclear.2 h4), Bool.eq_false_iff.2 (mt hall.2 h5)]
    simp

theorem takesOwn_succeed {t : T} {pattern mode : Word} (h : Matched s.bits pattern mode)
    (hbits : s'.bits = remaining s.bits pattern mode) (hlog : s'.log = .returned t pattern mode s.bits :: s.log) :
    TakesOwn s s' := by
  intro t' pattern' mode' observed heq
  rw [hlog] at heq
  injection heq with hhead
  injection hhead with _ hpattern hmode hobserved
  subst hpattern hmode hobserved
  refine ⟨rfl, h, fun i hi => ?_⟩
  rw [hbits]
  exact getLsbD_remaining _ _ _ hi

theorem TakesOwn.of_log (h : s'.log = s.log) : TakesOwn s s' := by
  intro t pattern mode observed heq
  rw [h] at heq
  exact absurd heq.symm (List.cons_ne_self _ _)

variable [DecidableEq T]

/-- A step that keeps only `kept` of the bits, and no sleeper that was not there. -/
theorem keeps_iff_of_and (s' : FlagRun T) {a : FlagAction T} {kept : Word} {excused : FlagWait T → Prop}
    (hbits : s'.bits = s.bits &&& kept) (hsub : ∀ w ∈ s'.asleep, w ∈ s.asleep)
    (hexcused : ∀ w, excused w ↔
      ∃ t u, a = .wake t ∧ s.asleep.find? (·.thread = t) = some u ∧ u.call < w.since) :
    Keeps s a s' ↔ ∀ w ∈ s'.asleep, s.Ready w → excused w ∨ s.Spared kept w := by
  have hready : ∀ w, s.Ready w → (s'.Ready w ↔ s.Spared kept w) := fun w hw => by
    rw [← matched_and_iff hw, ← hbits]
    rfl
  constructor
  · intro hkeeps w hw hws
    rcases hkeeps w (hsub w hw) hw hws with h | h
    · exact .inr ((hready w hws).1 h)
    · exact .inl ((hexcused w).2 h)
  · intro hall w _ hw hws
    rcases hall w hw hws with h | h
    · exact .inr ((hexcused w).1 h)
    · exact .inl ((hready w hws).2 h)

theorem Keeps.of_bits {a : FlagAction T} (h : s'.bits = s.bits) : Keeps s a s' := by
  intro w _ _ hw
  unfold Ready at hw ⊢
  exact .inl (h ▸ hw)

theorem step_cases {a : FlagAction T} (hstep : s.step a = some s') :
    (∃ t pattern mode calls, (a = .wait t pattern mode ∨ a = .poll t pattern mode) ∧
      Matched s.bits pattern mode ∧ s.calls ≤ calls ∧ s' = succeed { s with calls } t pattern mode) ∨
    (∃ t pattern mode, a = .wait t pattern mode ∧ ¬ Matched s.bits pattern mode ∧ s' =
      { s with
        calls := s.calls + 1
        asleep := s.asleep ++ [{ thread := t, pattern, mode, call := s.calls }] }) ∨
    (∃ t pattern mode, a = .poll t pattern mode ∧ ¬ Matched s.bits pattern mode ∧
      s' = { s with log := .failed t s.bits eventFlagCondition :: s.log }) ∨
    (∃ t bits, a = .set t bits ∧ s' = s.set bits) ∨
    (∃ t bits, a = .clear t bits ∧ s' = s.clear bits) ∨
    ∃ u, a = .wake u.thread ∧ s.asleep.find? (·.thread = u.thread) = some u ∧ s' = s.resume u := by
  cases a with
  | wait t pattern mode =>
    obtain ⟨-, ⟨⟩⟩ := Option.ite_none_left_eq_some.1 hstep
    unfold FlagRun.wait
    dsimp only
    split_ifs with hmatched
    · exact .inl ⟨t, pattern, mode, _, .inl rfl, hmatched, Nat.le_succ _, rfl⟩
    · exact .inr (.inl ⟨t, pattern, mode, rfl, hmatched, rfl⟩)
  | poll t pattern mode =>
    obtain ⟨-, ⟨⟩⟩ := Option.ite_none_left_eq_some.1 hstep
    unfold FlagRun.poll
    split_ifs with hmatched
    · exact .inl ⟨t, pattern, mode, _, .inr rfl, hmatched, le_refl _, rfl⟩
    · exact .inr (.inr (.inl ⟨t, pattern, mode, rfl, hmatched, rfl⟩))
  | set t bits =>
    obtain ⟨-, ⟨⟩⟩ := Option.ite_none_left_eq_some.1 hstep
    exact .inr (.inr (.inr (.inl ⟨t, bits, rfl, rfl⟩)))
  | clear t bits =>
    obtain ⟨-, ⟨⟩⟩ := Option.ite_none_left_eq_some.1 hstep
    exact .inr (.inr (.inr (.inr (.inl ⟨t, bits, rfl, rfl⟩))))
  | wake t =>
    obtain ⟨u, hu, rfl⟩ := Option.map_eq_some_iff.1 hstep
    obtain ⟨rfl, -⟩ := split_of_find? hu
    exact .inr (.inr (.inr (.inr (.inr ⟨u, rfl, hu, rfl⟩))))

/-- A step keeps what the sleepers wait for exactly when it spares them. -/
theorem step_keeps_iff {a : FlagAction T} (hstep : s.step a = some s') :
    TakesOwn s s' ∧ (Keeps s a s' ↔ s.Spares a) := by
  have hnever : ∀ a : FlagAction T, (∀ t, a ≠ .wake t) → ∀ w : FlagWait T,
      False ↔ ∃ t u, a = .wake t ∧ s.asleep.find? (·.thread = t) = some u ∧ u.call < w.since := by
    intro a ha w
    refine ⟨False.elim, ?_⟩
    rintro ⟨t, -, h, -⟩
    exact ha t h
  rcases step_cases hstep with ⟨t, pattern, mode, calls, ha, hmatched, -, rfl⟩ |
    ⟨t, pattern, mode, rfl, hmatched, rfl⟩ | ⟨t, pattern, mode, rfl, hmatched, rfl⟩ | ⟨t, bits, rfl, rfl⟩ |
    ⟨t, bits, rfl, rfl⟩ | ⟨u, rfl, hu, rfl⟩
  · have hwake : ∀ t, a ≠ .wake t := by rcases ha with rfl | rfl <;> simp
    have hspares : s.Spares a ↔ s.SparesAll (untouched pattern mode) s.asleep := by
      rcases ha with rfl | rfl <;> simp only [Spares, hmatched, true_imp_iff]
    refine ⟨takesOwn_succeed hmatched rfl rfl, ?_⟩
    rw [keeps_iff_of_and (succeed { s with calls } t pattern mode) (remaining_eq s.bits pattern mode)
      (fun _ hw => hw) (hnever a hwake), hspares]
    simp only [false_or]
    rfl
  · exact ⟨.of_log rfl, iff_of_true (.of_bits rfl) fun h => absurd h hmatched⟩
  · refine ⟨fun _ _ _ _ heq => ?_, iff_of_true (.of_bits rfl) fun h => absurd h hmatched⟩
    cases (List.cons_eq_cons.1 heq).1
  · refine ⟨.of_log rfl, iff_of_true (fun w _ _ hw => .inl ?_) trivial⟩
    exact Matched.or hw bits
  · refine ⟨.of_log rfl, ?_⟩
    rw [keeps_iff_of_and (s.clear bits) rfl (fun _ hw => hw) (hnever (.clear t bits) (by simp))]
    simp only [false_or, Spares]
    rfl
  · unfold FlagRun.resume
    split_ifs with hready
    · refine ⟨takesOwn_succeed (s := s) hready rfl rfl, ?_⟩
      have hexcused : ∀ w : FlagWait T, u.call < w.since ↔ ∃ t v, FlagAction.wake u.thread = .wake t ∧
          s.asleep.find? (·.thread = t) = some v ∧ v.call < w.since := by
        intro w
        constructor
        · intro h
          exact ⟨u.thread, u, rfl, hu, h⟩
        · rintro ⟨t, v, ht, hv, h⟩
          injection ht with ht
          subst ht
          obtain rfl := Option.some.inj (hu.symm.trans hv)
          exact h
      rw [keeps_iff_of_and _ (remaining_eq _ _ _) (fun _ hw => List.mem_of_mem_eraseP hw) hexcused]
      constructor
      · intro hall v hv hvready w hw hwready
        obtain rfl := Option.some.inj (hu.symm.trans hv)
        obtain ⟨hw, hsince⟩ := List.mem_filter.1 hw
        exact (hall w hw hwready).resolve_left (not_lt.2 (by simpa using hsince))
      · intro hspares w hw hwready
        by_cases hlt : u.call < w.since
        · exact .inl hlt
        · exact .inr (hspares u hu hready w (List.mem_filter.2 ⟨hw, by simpa using hlt⟩) hwready)
    · refine ⟨.of_log rfl, iff_of_true (.of_bits rfl) fun v hv hvready => ?_⟩
      obtain rfl := Option.some.inj (hu.symm.trans hv)
      exact absurd hvready hready

/-- A sleeper whose condition holds was asleep when a set made it true. -/
def Promised (s : FlagRun T) : Prop :=
  ∀ w ∈ s.asleep, w.call < s.calls ∧ (s.Ready w → w.call < w.since)

omit [DecidableEq T] in
theorem Promised.of_and (h : s.Promised) {kept : Word} (hbits : s'.bits = s.bits &&& kept)
    (hcalls : s.calls ≤ s'.calls) (hsub : ∀ w ∈ s'.asleep, w ∈ s.asleep) : s'.Promised := by
  intro w hw
  obtain ⟨hcall, hsince⟩ := h w (hsub w hw)
  refine ⟨hcall.trans_le hcalls, fun hready => hsince ?_⟩
  unfold Ready at hready ⊢
  rw [hbits] at hready
  have hor := Matched.or hready s.bits
  rwa [BitVec.or_comm, or_and_self] at hor

theorem Promised.step (h : s.Promised) {a : FlagAction T} (hstep : s.step a = some s') : s'.Promised := by
  rcases step_cases hstep with ⟨t, pattern, mode, calls, -, -, hcalls, rfl⟩ | ⟨t, pattern, mode, -, hmatched, rfl⟩ |
    ⟨t, pattern, mode, -, -, rfl⟩ | ⟨t, bits, -, rfl⟩ | ⟨t, bits, -, rfl⟩ | ⟨u, -, -, rfl⟩
  · exact h.of_and (remaining_eq s.bits pattern mode) hcalls fun _ hw => hw
  · intro w hw
    rcases List.mem_append.1 hw with hw | hw
    · exact ⟨Nat.lt_succ_of_lt (h w hw).1, (h w hw).2⟩
    · obtain rfl := List.mem_singleton.1 hw
      exact ⟨Nat.lt_succ_self _, fun hready => absurd hready hmatched⟩
  · exact h
  · intro w hw
    obtain ⟨v, hv, rfl⟩ := List.mem_map.1 hw
    obtain ⟨hcall, hsince⟩ := h v hv
    split_ifs with hnew
    · exact ⟨hcall, fun _ => hcall⟩
    · refine ⟨hcall, fun hready => hsince ?_⟩
      by_contra hold
      exact hnew ⟨hold, hready⟩
  · have hbits : (s.clear bits).bits = s.bits &&& bits := rfl
    exact h.of_and hbits (le_refl _) fun _ hw => hw
  · unfold FlagRun.resume
    split_ifs
    · exact h.of_and (remaining_eq s.bits u.pattern u.mode) (le_refl _) fun _ hw => List.mem_of_mem_eraseP hw
    · exact h

end FlagRun

/-- In a run, no step loses a set for a sleeper exactly when every step spares the sleepers. Every wait
and poll takes what it may, and a sleeper's condition that holds was made true by a set while it slept. -/
theorem eventFlag_keeps_iff {T : Type} [DecidableEq T] (bits : Word) (actions : List (FlagAction T))
    (s : FlagRun T) (hrun : run FlagRun.step (FlagRun.create bits) actions = some s) :
    (∀ pre a t t', pre ++ [a] <+: actions → run FlagRun.step (FlagRun.create bits) pre = some t →
      t.step a = some t' → t.Promised ∧ t.TakesOwn t' ∧ t.Keeps a t') ↔
      Guarded FlagRun.step FlagRun.Spares (FlagRun.create bits) actions := by
  rw [guarded_iff hrun]
  have hpromised : ∀ pre t, run FlagRun.step (FlagRun.create bits) pre = some t → t.Promised :=
    fun pre t ht => run_invariant (fun _ _ _ h hstep => h.step hstep)
      (show (FlagRun.create bits : FlagRun T).Promised by simp [FlagRun.Promised, FlagRun.create]) ht
  constructor
  · intro hall pre a t hpre ht
    obtain ⟨t', hstep⟩ : ∃ t', t.step a = some t' := by
      obtain ⟨rest, rfl⟩ := hpre
      rw [List.append_assoc] at hrun
      obtain ⟨u, hu, hrest⟩ := run_append_eq_some.1 hrun
      obtain rfl := Option.some.inj (ht.symm.trans hu)
      obtain ⟨t', ht', -⟩ := run_cons_eq_some.1 hrest
      exact ⟨t', ht'⟩
    exact (FlagRun.step_keeps_iff hstep).2.1 (hall pre a t t' hpre ht hstep).2.2
  · intro hall pre a t t' hpre ht hstep
    obtain ⟨htakes, hkeeps⟩ := FlagRun.step_keeps_iff hstep
    exact ⟨hpromised pre t ht, htakes, hkeeps.2 (hall pre a t hpre ht)⟩

/-- Two sleepers for one bit, the first of which takes it: the second was queued with it. -/
theorem eventFlag_keeps_iff_rivals :
    ∃ s, run FlagRun.step (FlagRun.create (T := Nat) 0)
        [.wait 2 1 0x11, .wait 3 1 1, .set 1 3, .clear 1 1, .wake 2] = some s ∧
      ∀ pre a (t t' : FlagRun Nat),
        pre ++ [a] <+: [.wait 2 1 0x11, .wait 3 1 1, .set 1 3, .clear 1 1, .wake 2] →
        run FlagRun.step (FlagRun.create 0) pre = some t → t.step a = some t' →
          t.Promised ∧ t.TakesOwn t' ∧ t.Keeps a t' := by
  have hspares : Guarded FlagRun.step FlagRun.Spares (FlagRun.create (T := Nat) 0)
      [.wait 2 1 0x11, .wait 3 1 1, .set 1 3, .clear 1 1, .wake 2] := by decide
  exact ⟨_, rfl, (eventFlag_keeps_iff 0 _ _ rfl).2 hspares⟩

/-- Thread 1 sets the bit that thread 2 waits for, and clears it before thread 2 gets to run. -/
theorem eventFlag_lost :
    ∃ s s', run FlagRun.step (FlagRun.create (T := Nat) 0) [.wait 2 1 1, .set 1 1] = some s ∧
      s.step (.clear 1 0) = some s' ∧ ¬ s.Keeps (.clear 1 0) s' := by
  refine ⟨_, _, rfl, rfl, fun hkeeps => ?_⟩
  rcases hkeeps { thread := 2, pattern := 1, mode := 1, call := 0, since := 1 } (List.mem_singleton.2 rfl)
    (List.mem_singleton.2 rfl) (by decide) with h | ⟨t, u, h, -⟩
  · exact absurd h (by decide)
  · cases h

end Psprism
