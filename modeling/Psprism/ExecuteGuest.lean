import Psprism.DispatcherSim

/-!
# Slices of guest execution (`execute_guest` of `runtime.cpp`)

The executor is `run` with a finite number of iterations, and `execute_guest` calls it again as long as
it comes back with `step_limit`. In between the execution lock changes hands: another thread may change
what this one reads, and once an exit is requested the lock is not given any more. For a thread that no
other interferes with the slices make no difference: however small they are, it ends as one uninterrupted
run ends, or where an exit request finds it (`executeGuest_slices`).
-/

namespace Psprism

namespace Phase

def withRemaining (remaining : Nat) : Phase → Phase
  | .loop _ cache s => .loop remaining cache s
  | .runner _ cache currentPc c => .runner remaining cache currentPc c
  | .done s => .done s

/-- The same point with more iterations left. -/
def addRemaining (extra : Nat) : Phase → Phase
  | .loop remaining cache s => .loop (remaining + extra) cache s
  | .runner remaining cache currentPc c => .runner (remaining + extra) cache currentPc c
  | .done s => .done s

/-- The cache as the last look at it has left it. -/
def cache? : Phase → Option DispatchCache
  | .loop _ cache _ => some cache
  | .runner _ cache _ _ => some cache
  | .done _ => none

/-- The state of an executor that has used up its iterations. -/
def sliceEnd? : Phase → Option State
  | .loop 0 _ s => some s
  | _ => none

theorem eq_of_sliceEnd {p : Phase} {s : State} (h : p.sliceEnd? = some s) : ∃ cache, p = .loop 0 cache s := by
  cases p with
  | loop remaining cache v =>
    cases remaining with
    | zero => exact ⟨cache, by rw [Option.some.inj h]⟩
    | succ remaining => cases h
  | _ => cases h

/-- Only a running CPU goes on. -/
def LoopRuns : Phase → Prop
  | .loop _ _ s => s.stopReason = .running
  | _ => True

end Phase

/-- What `execute_guest` meets at each of its turns: whether the execution lock is given, which it is not
once an exit is requested, and what the other threads have made of the state while they had it. -/
structure Turns where
  given : Nat → Bool
  others : Nat → State → State

/-- A point of `execute_guest`, with the `dispatch_cache` of its thread and the turns it has had. -/
structure Slice where
  phase : Phase
  cache : DispatchCache
  turn : Nat

/-- The `GuestExecutionLock` and the call of the executor. -/
def Slice.acquire (turns : Turns) (slice turn : Nat) (cache : DispatchCache) (s : State) : Slice :=
  let s := turns.others turn s
  if turns.given turn then ⟨.loop slice cache s, cache, turn + 1⟩
  else ⟨.done { s with stopReason := .returned }, cache, turn⟩

namespace Program
variable (X : Program)

/-- One step of `execute_guest` with an executor of `slice` iterations. -/
def sliceStep (exit : LoopExit) (turns : Turns) (slice : Nat) (g : Slice) : Option Slice :=
  match g.phase with
  -- the executor returns with `step_limit`; the lock is given back and asked for again
  | .loop 0 cache s => some (.acquire turns slice g.turn cache { s with stopReason := .running })
  | .loop (remaining + 1) cache s =>
    (X.step exit (.loop (remaining + 1) cache s)).map fun p => ⟨p, p.cache?.getD g.cache, g.turn⟩
  | .runner remaining cache currentPc c =>
    (X.step exit (.runner remaining cache currentPc c)).map fun p => ⟨p, p.cache?.getD g.cache, g.turn⟩
  | .done s =>
    if s.stopReason = .stepLimit then
      some (.acquire turns slice g.turn g.cache { s with stopReason := .running })
    else none

variable {X} {exit : LoopExit}

/-! ### The steps do not look at what remains -/

theorem afterDispatch_withRemaining (remaining remaining' : Nat) (cache : DispatchCache) (currentPc : Word)
    (result : Bool × State) : (X.afterDispatch remaining cache currentPc result).withRemaining remaining' =
      X.afterDispatch remaining' cache currentPc result := by
  unfold afterDispatch
  dsimp only
  split
  · split <;> rfl
  · split
    · rfl
    · split <;> rfl

theorem dispatchBlock_withRemaining (remaining remaining' : Nat) (cache : DispatchCache) (s : State)
    (currentPc : Word) : (X.dispatchBlock remaining cache s currentPc).withRemaining remaining' =
      X.dispatchBlock remaining' cache s currentPc := by
  unfold dispatchBlock
  split
  · exact afterDispatch_withRemaining ..
  split
  · exact afterDispatch_withRemaining ..
  dsimp only
  split
  · rfl
  split
  · rfl
  · exact afterDispatch_withRemaining ..

theorem step_loop_withRemaining (remaining remaining' : Nat) (cache : DispatchCache) (s : State) :
    (X.step exit (.loop (remaining + 1) cache s)).map (·.withRemaining remaining') =
      X.step exit (.loop (remaining' + 1) cache s) := by
  simp only [step]
  split
  · rfl
  · exact congrArg some (dispatchBlock_withRemaining ..)

theorem step_runner_withRemaining (remaining remaining' : Nat) (cache : DispatchCache) (currentPc : Word)
    (c : Config) : (X.step exit (.runner remaining cache currentPc c)).map (·.withRemaining remaining') =
      X.step exit (.runner remaining' cache currentPc c) := by
  simp only [step]
  split
  · rfl
  · rw [Option.map_map]
    congr 1
    funext result
    exact afterDispatch_withRemaining ..

theorem addRemaining_withRemaining (p : Phase) (remaining extra : Nat) :
    (p.withRemaining remaining).addRemaining extra = p.withRemaining (remaining + extra) := by
  cases p <;> rfl

/-- With more iterations left a step does the same. -/
theorem step_addRemaining {p : Phase} (extra : Nat) (hp : ∀ cache s, p ≠ .loop 0 cache s) :
    X.step exit (p.addRemaining extra) = (X.step exit p).map (·.addRemaining extra) := by
  cases p with
  | done s => rfl
  | loop remaining cache s =>
    cases remaining with
    | zero => exact absurd rfl (hp cache s)
    | succ remaining =>
      have hmore : (Phase.loop (remaining + 1) cache s).addRemaining extra =
          .loop (remaining + extra + 1) cache s := by
        rw [Phase.addRemaining, Nat.add_right_comm]
      rw [hmore, ← step_loop_withRemaining 0, ← step_loop_withRemaining 0 remaining, Option.map_map]
      congr 1
      funext p
      exact (addRemaining_withRemaining p remaining extra).symm
  | runner remaining cache currentPc c =>
    rw [Phase.addRemaining, ← step_runner_withRemaining 0, ← step_runner_withRemaining 0 remaining,
      Option.map_map]
    congr 1
    funext p
    exact (addRemaining_withRemaining p remaining extra).symm

/-! ### A running CPU -/

theorem afterDispatch_loopRuns (remaining : Nat) (cache : DispatchCache) (currentPc : Word)
    (result : Bool × State) : (X.afterDispatch remaining cache currentPc result).LoopRuns := by
  unfold afterDispatch
  dsimp only
  split
  · split
    · rename_i hrun
      exact hrun
    · trivial
  · split
    · trivial
    · split
      · rename_i hrun
        exact hrun
      · trivial

theorem step_loopRuns {p p' : Phase} (h : p.LoopRuns) (hstep : X.step exit p = some p') : p'.LoopRuns := by
  cases p with
  | done s => cases hstep
  | loop remaining cache s =>
    cases remaining with
    | zero => obtain rfl := Option.some.inj hstep; trivial
    | succ remaining =>
      simp only [step] at hstep
      split at hstep
      · obtain rfl := Option.some.inj hstep; trivial
      · obtain rfl := Option.some.inj hstep
        unfold dispatchBlock
        split
        · exact afterDispatch_loopRuns ..
        split
        · exact afterDispatch_loopRuns ..
        dsimp only
        split
        · trivial
        split
        · trivial
        · exact afterDispatch_loopRuns ..
  | runner remaining cache currentPc c =>
    simp only [step] at hstep
    split at hstep
    · obtain rfl := Option.some.inj hstep; trivial
    · obtain ⟨result, -, rfl⟩ := Option.map_eq_some_iff.1 hstep
      exact afterDispatch_loopRuns ..

/-- Putting a running CPU to running changes nothing. -/
theorem resume_eq {s : State} (h : s.stopReason = .running) : { s with stopReason := .running } = s := by
  rw [← h]

theorem acquire_loopRuns {turns : Turns} (hothers : ∀ turn v, turns.others turn v = v) (slice turn : Nat)
    (cache : DispatchCache) {s : State} (h : s.stopReason = .running) :
    (Slice.acquire turns slice turn cache s).phase.LoopRuns := by
  unfold Slice.acquire
  rw [hothers]
  split
  · exact h
  · trivial

/-! ### Slices and one run -/

open Machine

variable {turns : Turns} {slice turn : Nat}

/-- At the end of a slice the lock is asked for again. -/
theorem sliceStep_of_end {g : Slice} {cache : DispatchCache} {s : State} (hp : g.phase = .loop 0 cache s)
    (h : s.stopReason = .running) :
    X.sliceStep exit turns slice g = some (.acquire turns slice g.turn cache s) := by
  unfold sliceStep
  rw [hp]
  simp only [resume_eq h]

/-- Away from the ends of the slices the step is the executor's. -/
theorem sliceStep_eq {g : Slice} (hp : ∀ cache s, g.phase ≠ .loop 0 cache s) (hnone : g.phase.result? = none) :
    X.sliceStep exit turns slice g =
      (X.step exit g.phase).map fun p => ⟨p, p.cache?.getD g.cache, g.turn⟩ := by
  unfold sliceStep
  split <;> rename_i h
  · exact absurd h (hp _ _)
  · rw [h]
  · rw [h]
  · rw [h] at hnone
    cases hnone

/-- With the iterations of the turns that are given from `turn` on, the executor's loop goes from `p` to its
end in `t`, or to where the lock is not given and `t` is returned. -/
def EndsWithin (X : Program) (exit : LoopExit) (turns : Turns) (slice turn : Nat) (p : Phase) (t : State) :
    Prop :=
  ∃ k, (∀ i < k, turns.given (turn + i) = true) ∧
    ((∃ n, run (X.step exit) n (p.addRemaining (k * slice)) = .done t) ∨
      turns.given (turn + k) = false ∧ ∃ n v,
        (run (X.step exit) n (p.addRemaining (k * slice))).sliceEnd? = some v ∧
          t = { v with stopReason := .returned })

namespace EndsWithin

variable {p p' : Phase} {t : State}

theorem of_done (t : State) : EndsWithin X exit turns slice turn (.done t) t :=
  ⟨0, fun i hi => absurd hi (Nat.not_lt_zero i), Or.inl ⟨0, rfl⟩⟩

theorem eq_of_done {s : State} (h : EndsWithin X exit turns slice turn (.done s) t) : t = s := by
  have hnone : X.step exit (.done s) = none := rfl
  have hstays : ∀ n k, run (X.step exit) n ((Phase.done s).addRemaining k) = .done s :=
    fun n k => by rw [Phase.addRemaining]; exact run_of_none hnone n
  obtain ⟨k, -, ⟨n, hn⟩ | ⟨-, n, v, hn, -⟩⟩ := h
  · rw [hstays] at hn
    cases hn
    rfl
  · rw [hstays] at hn
    cases hn

theorem step (hp : ∀ cache s, p ≠ .loop 0 cache s) (hstep : X.step exit p = some p')
    (h : EndsWithin X exit turns slice turn p' t) : EndsWithin X exit turns slice turn p t := by
  obtain ⟨k, hgiven, hend⟩ := h
  have hmore : X.step exit (p.addRemaining (k * slice)) = some (p'.addRemaining (k * slice)) := by
    rw [step_addRemaining _ hp, hstep]
    rfl
  refine ⟨k, hgiven, ?_⟩
  rcases hend with ⟨n, hn⟩ | ⟨hrefused, n, v, hn, ht⟩
  · exact Or.inl ⟨n + 1, by rw [run_succ hmore]; exact hn⟩
  · exact Or.inr ⟨hrefused, n + 1, v, by rw [run_succ hmore]; exact hn, ht⟩

/-- The end of a slice: the lock is given for the next one, or it is not and this is the end. -/
theorem acquire (hothers : ∀ turn v, turns.others turn v = v) {cache : DispatchCache} {s : State}
    (h : EndsWithin X exit turns slice (Slice.acquire turns slice turn cache s).turn
      (Slice.acquire turns slice turn cache s).phase t) :
    EndsWithin X exit turns slice turn (.loop 0 cache s) t := by
  simp only [Slice.acquire, hothers] at h
  split at h
  · rename_i hturn
    obtain ⟨k, hgiven, hend⟩ := h
    have hphase : (Phase.loop 0 cache s).addRemaining ((k + 1) * slice) =
        (Phase.loop slice cache s).addRemaining (k * slice) := by
      rw [Phase.addRemaining, Phase.addRemaining, Nat.zero_add, Nat.succ_mul, Nat.add_comm]
    refine ⟨k + 1, fun i hi => ?_, ?_⟩
    · cases i with
      | zero => exact hturn
      | succ i => rw [← Nat.add_assoc, Nat.add_right_comm]; exact hgiven i (by omega)
    · rw [hphase, ← Nat.add_assoc, Nat.add_right_comm]
      exact hend
  · rename_i hturn
    obtain rfl := eq_of_done h
    exact ⟨0, fun i hi => absurd hi (Nat.not_lt_zero i),
      Or.inr ⟨by simpa using hturn, 0, s, by rw [Nat.zero_mul]; rfl, rfl⟩⟩

end EndsWithin

/-- What slices end with, one run ends with or has come to. -/
theorem endsWithin_of_slices (hothers : ∀ turn v, turns.others turn v = v) {t : State} (n : Nat) {g : Slice}
    (hg : g.phase.LoopRuns) (hrun : (run (X.sliceStep exit turns slice) n g).phase = .done t)
    (htrace : ∀ h ∈ trace (X.sliceStep exit turns slice) n g, h.phase.result? = none) :
    EndsWithin X exit turns slice g.turn g.phase t := by
  induction n generalizing g with
  | zero =>
    rw [show g.phase = .done t from hrun]
    exact .of_done t
  | succ n ih =>
    cases hstep : X.sliceStep exit turns slice g with
    | none =>
      rw [run_of_none hstep] at hrun
      rw [hrun]
      exact .of_done t
    | some g' =>
      rw [run_succ hstep] at hrun
      rw [trace_succ hstep] at htrace
      have ih := fun hg' => ih hg' hrun fun h hh => htrace h (List.mem_cons_of_mem g hh)
      by_cases hend : ∃ cache s, g.phase = .loop 0 cache s
      · obtain ⟨cache, s, hp⟩ := hend
        rw [hp] at hg ⊢
        obtain rfl := Option.some.inj ((sliceStep_of_end hp hg).symm.trans hstep)
        exact .acquire hothers (ih (acquire_loopRuns hothers slice g.turn cache hg))
      · have hp : ∀ cache s, g.phase ≠ .loop 0 cache s := fun cache s h => hend ⟨cache, s, h⟩
        rw [sliceStep_eq hp (htrace g List.mem_cons_self)] at hstep
        obtain ⟨p', hp', rfl⟩ := Option.map_eq_some_iff.1 hstep
        exact .step hp hp' (ih (step_loopRuns hg hp'))

/-- The run with the iterations of `last` turns is where the slices are, with those of the turns to come. -/
def Follows (slice last : Nat) (p : Phase) (g : Slice) : Prop :=
  p = g.phase.addRemaining ((last - g.turn) * slice) ∧ g.turn ≤ last ∧ g.phase.LoopRuns

namespace Follows

variable {last : Nat} {p p' : Phase} {g : Slice}

theorem phase_eq_done {t : State} (h : Follows slice last (.done t) g) : g.phase = .done t := by
  cases hp : g.phase with
  | done s =>
    have h := h.1
    rw [hp] at h
    exact h.symm
  | loop remaining cache s => have h := h.1; rw [hp] at h; cases h
  | runner remaining cache currentPc c => have h := h.1; rw [hp] at h; cases h

/-- The run has used up its iterations when the slices have used up theirs and had all turns. -/
theorem phase_eq_loop (hslice : 0 < slice) {cache : DispatchCache} {s : State}
    (h : Follows slice last (.loop 0 cache s) g) :
    g.phase = .loop 0 cache s ∧ g.turn = last ∧ s.stopReason = .running := by
  obtain ⟨hphase, hlast, hruns⟩ := h
  cases hp : g.phase with
  | done => rw [hp] at hphase; cases hphase
  | runner => rw [hp] at hphase; cases hphase
  | loop remaining cache' s' =>
    rw [hp, Phase.addRemaining] at hphase
    rw [hp] at hruns
    injection hphase with hremaining hcache hs
    subst hcache hs
    have hturns : (last - g.turn) * slice = 0 := by omega
    have hturn : last - g.turn = 0 := (Nat.mul_eq_zero.1 hturns).resolve_right (by omega)
    exact ⟨by rw [show remaining = 0 by omega], by omega, hruns⟩

/-- Within a slice. -/
theorem step_inside (turns : Turns) (h : Follows slice last p g) (hg : ∀ cache s, g.phase ≠ .loop 0 cache s)
    (hstep : X.step exit p = some p') : ∃ g', X.sliceStep exit turns slice g = some g' ∧
      g.phase.result? = none ∧ Follows slice last p' g' := by
  obtain ⟨rfl, hlast, hruns⟩ := h
  rw [step_addRemaining _ hg] at hstep
  obtain ⟨q, hq, rfl⟩ := Option.map_eq_some_iff.1 hstep
  have hnone : g.phase.result? = none := by
    cases hp : g.phase with
    | done s => rw [hp] at hq; cases hq
    | _ => rfl
  refine ⟨⟨q, q.cache?.getD g.cache, g.turn⟩, ?_, hnone, rfl, hlast, step_loopRuns hruns hq⟩
  rw [sliceStep_eq hg hnone, hq]
  rfl

theorem step (hothers : ∀ turn v, turns.others turn v = v) (hgiven : ∀ turn < last, turns.given turn = true)
    (hslice : 0 < slice) (h : Follows slice last p g) (hp : ∀ cache s, p ≠ .loop 0 cache s)
    (hstep : X.step exit p = some p') : ∃ m, Follows slice last p' (run (X.sliceStep exit turns slice) m g) ∧
      ∀ h ∈ trace (X.sliceStep exit turns slice) m g, h.phase.result? = none := by
  by_cases hend : ∃ cache s, g.phase = .loop 0 cache s
  · obtain ⟨cache, s, hg⟩ := hend
    obtain ⟨rfl, hlast, hruns⟩ := h
    rw [hg] at hp hstep hruns
    have hturn : g.turn < last := by
      refine lt_of_le_of_ne hlast fun heq => hp cache s ?_
      rw [heq, Nat.sub_self, Nat.zero_mul]
      rfl
    -- the lock is given for the next slice
    have hcall : X.sliceStep exit turns slice g = some ⟨.loop slice cache s, cache, g.turn + 1⟩ := by
      rw [sliceStep_of_end hg hruns]
      simp only [Slice.acquire, hothers, hgiven g.turn hturn, if_true]
    have hnext : Follows slice last ((Phase.loop 0 cache s).addRemaining ((last - g.turn) * slice))
        ⟨.loop slice cache s, cache, g.turn + 1⟩ := by
      refine ⟨?_, hturn, hruns⟩
      obtain ⟨k, hk⟩ : ∃ k, last - g.turn = k + 1 := ⟨last - g.turn - 1, by omega⟩
      rw [show last - (g.turn + 1) = k by omega, hk, Phase.addRemaining, Phase.addRemaining, Nat.zero_add,
        Nat.succ_mul, Nat.add_comm]
    obtain ⟨g', hg', hnone, hfollows⟩ := step_inside turns hnext (by rintro _ _ ⟨⟩; omega) hstep
    refine ⟨2, by rw [run_succ hcall, run_succ hg']; exact hfollows, fun h hh => ?_⟩
    rw [trace_succ hcall, trace_succ hg', trace_zero] at hh
    rcases List.mem_cons.1 hh with rfl | hh
    · rw [hg]
      rfl
    · obtain rfl := List.mem_singleton.1 hh
      exact hnone
  · obtain ⟨g', hg', hnone, hfollows⟩ := step_inside turns h
      (fun cache s hg => hend ⟨cache, s, hg⟩) hstep
    refine ⟨1, by rw [run_succ hg']; exact hfollows, fun h hh => ?_⟩
    rw [trace_succ hg', trace_zero] at hh
    obtain rfl := List.mem_singleton.1 hh
    exact hnone

/-- The slices go on as the run does, until it has used up its iterations. -/
theorem run (hothers : ∀ turn v, turns.others turn v = v) (hgiven : ∀ turn < last, turns.given turn = true)
    (hslice : 0 < slice) (n : Nat) (h : Follows slice last p g) :
    ∃ m, (Follows slice last (run (X.step exit) n p) (run (X.sliceStep exit turns slice) m g) ∨
        ∃ s, run (X.step exit) n p = .done s ∧ s.stopReason = .stepLimit) ∧
      ∀ h ∈ trace (X.sliceStep exit turns slice) m g, h.phase.result? = none := by
  refine run_matched (R := fun p g => Follows slice last p g ∨ ∃ s, p = .done s ∧ s.stopReason = .stepLimit)
    ?_ n (Or.inl h)
  rintro p p' g (h | ⟨s, rfl, -⟩) hstep
  · by_cases hp : ∃ cache s, p = .loop 0 cache s
    · obtain ⟨cache, s, rfl⟩ := hp
      obtain rfl := Option.some.inj hstep
      exact ⟨0, Or.inr ⟨_, rfl, rfl⟩, fun h hh => absurd hh List.not_mem_nil⟩
    · obtain ⟨m, hm, htrace⟩ := step hothers hgiven hslice h (fun cache s hp' => hp ⟨cache, s, hp'⟩) hstep
      exact ⟨m, Or.inl hm, htrace⟩
  · cases hstep

end Follows

/-- What one run ends with before its iterations are used up, slices end with. -/
theorem slices_of_run (hothers : ∀ turn v, turns.others turn v = v) {last : Nat}
    (hgiven : ∀ turn < last, turns.given turn = true) (hslice : 0 < slice) {t : State}
    (ht : t.stopReason ≠ .stepLimit) {p : Phase} {g : Slice} (h : Follows slice last p g) {n : Nat}
    (hn : run (X.step exit) n p = .done t) : ∃ m, (run (X.sliceStep exit turns slice) m g).phase = .done t ∧
      ∀ h ∈ trace (X.sliceStep exit turns slice) m g, h.phase.result? = none := by
  obtain ⟨m, hm, htrace⟩ := h.run hothers hgiven hslice n
  rw [hn] at hm
  rcases hm with hm | ⟨s, hs, hlimit⟩
  · exact ⟨m, hm.phase_eq_done, htrace⟩
  · cases hs
    exact absurd hlimit ht

/-- Where one run has used up the iterations of its turns, the slices return when the next is not given. -/
theorem slices_of_refused (hothers : ∀ turn v, turns.others turn v = v) {last : Nat}
    (hgiven : ∀ turn < last, turns.given turn = true) (hrefused : turns.given last = false)
    (hslice : 0 < slice) {v : State} {p : Phase} {g : Slice} (h : Follows slice last p g) {n : Nat}
    (hn : (run (X.step exit) n p).sliceEnd? = some v) :
    ∃ m, (run (X.sliceStep exit turns slice) m g).phase = .done { v with stopReason := .returned } ∧
      ∀ h ∈ trace (X.sliceStep exit turns slice) m g, h.phase.result? = none := by
  obtain ⟨cache, hn⟩ := Phase.eq_of_sliceEnd hn
  obtain ⟨m, hm, htrace⟩ := h.run hothers hgiven hslice n
  rw [hn] at hm
  rcases hm with hm | ⟨s, hs, -⟩
  · obtain ⟨hphase, hturn, hruns⟩ := hm.phase_eq_loop hslice
    have hcall : X.sliceStep exit turns slice (run (X.sliceStep exit turns slice) m g) =
        some ⟨.done { v with stopReason := .returned }, cache, last⟩ := by
      rw [sliceStep_of_end hphase hruns]
      simp only [Slice.acquire, hothers, hturn, hrefused, Bool.false_eq_true, if_false]
    refine ⟨m + 1, by rw [run_add, run_succ hcall]; rfl, fun h hh => ?_⟩
    rcases mem_trace_add hh with hh | hh
    · exact htrace h hh
    · rw [trace_succ hcall, trace_zero] at hh
      obtain rfl := List.mem_singleton.1 hh
      rw [hphase]
      rfl
  · cases hs

end Program

open Machine in
/-- `execute_guest` ends with what one uninterrupted run of the executor's loop ends with, whatever the size
of the slices, unless an exit request comes first: then it ends where that run is after the slices so far.
That no slice is ended by a hook or the platform with `step_limit` is asked of the slices, since one run
would end there. -/
theorem executeGuest_slices (X : Program) (exit : LoopExit) (turns : Turns) (slice : Nat)
    (cache : DispatchCache) (s t : State) (hslice : 0 < slice) (hrun : s.stopReason = .running)
    (hothers : ∀ turn v, turns.others turn v = v) (ht : t.stopReason ≠ .stepLimit) :
    (∃ n, (run (X.sliceStep exit turns slice) n (.acquire turns slice 0 cache s)).phase = .done t ∧
        ∀ g ∈ trace (X.sliceStep exit turns slice) n (.acquire turns slice 0 cache s),
          g.phase.result? = none) ↔
      ∃ k, (∀ turn < k, turns.given turn = true) ∧
        ((∃ n, run (X.step exit) n (.loop (k * slice) cache s) = .done t) ∨
          turns.given k = false ∧ ∃ n v,
            (run (X.step exit) n (.loop (k * slice) cache s)).sliceEnd? = some v ∧
              t = { v with stopReason := .returned }) := by
  -- the point before the first turn
  have hcall : X.sliceStep exit turns slice ⟨.loop 0 cache s, cache, 0⟩ =
      some (.acquire turns slice 0 cache s) := Program.sliceStep_of_end rfl hrun
  constructor
  · rintro ⟨n, hn, htrace⟩
    have h := Program.endsWithin_of_slices hothers (n + 1) (g := ⟨.loop 0 cache s, cache, 0⟩) hrun
      (by rw [run_succ hcall]; exact hn) fun g hg => by
        rw [trace_succ hcall] at hg
        rcases List.mem_cons.1 hg with rfl | hg
        · rfl
        · exact htrace g hg
    simpa only [Program.EndsWithin, Nat.zero_add, Phase.addRemaining] using h
  · rintro ⟨k, hgiven, hend⟩
    have hfollows : Program.Follows slice k (.loop (k * slice) cache s) ⟨.loop 0 cache s, cache, 0⟩ :=
      ⟨by rw [Phase.addRemaining, Nat.zero_add, Nat.sub_zero], Nat.zero_le k, hrun⟩
    obtain ⟨m, hm, htrace⟩ : ∃ m,
        (run (X.sliceStep exit turns slice) m ⟨.loop 0 cache s, cache, 0⟩).phase = .done t ∧
          ∀ g ∈ trace (X.sliceStep exit turns slice) m ⟨.loop 0 cache s, cache, 0⟩,
            g.phase.result? = none := by
      rcases hend with ⟨n, hn⟩ | ⟨hrefused, n, v, hn, rfl⟩
      · exact Program.slices_of_run hothers hgiven hslice ht hfollows hn
      · exact Program.slices_of_refused hothers hgiven hrefused hslice hfollows hn
    cases m with
    | zero => cases hm
    | succ m =>
      rw [run_succ hcall] at hm
      rw [trace_succ hcall] at htrace
      exact ⟨m, hm, fun g hg => htrace g (List.mem_cons_of_mem _ hg)⟩

open Machine in
/-- One iteration at a time, the caller of the import still comes back with its result, when the exit request
comes after its three turns; one that comes after the first finds it at the import. -/
theorem executeGuest_slices_callerProgram :
    let exit := LoopExit.run 0x08800000
    let turns := fun last => Turns.mk (fun turn => decide (turn < last)) fun _ v => v
    let s := (callerImage.start 0x08804000).setGpr 31 0x08804008
    (∃ n t, (run (callerProgram.sliceStep exit (turns 3) 1) n
        (.acquire (turns 3) 1 0 (fun _ => none) s)).phase = .done t ∧
      t.pc = 0x08800000 ∧ t.gpr 2 = 42) ∧
    ∃ n t, (run (callerProgram.sliceStep exit (turns 1) 1) n
        (.acquire (turns 1) 1 0 (fun _ => none) s)).phase = .done t ∧
      t.pc = 0x08804008 ∧ t.gpr 2 = 0 := by
  intro exit turns s
  have hresult : (run (callerProgram.step exit) 7 (.loop (3 * 1) (fun _ => none) s)).result?.map
      (fun t => (t.pc, t.gpr 2, t.stopReason)) = some (0x08800000, 42, .returned) := by
    decide
  have hend : (run (callerProgram.step exit) 5 (.loop (1 * 1) (fun _ => none) s)).sliceEnd?.map
      (fun v => (v.pc, v.gpr 2)) = some (0x08804008, 0) := by
    decide
  have hgiven : ∀ last, ∀ turn < last, (turns last).given turn = true := fun last turn h => decide_eq_true h
  constructor
  · obtain ⟨t, ht, hfinal⟩ := Option.map_eq_some_iff.1 hresult
    injection hfinal with hpc hfinal
    injection hfinal with hv0 hstop
    obtain ⟨n, hn, -⟩ := (executeGuest_slices callerProgram exit (turns 3) 1 (fun _ => none) s t Nat.one_pos rfl
      (fun _ _ => rfl) (by rw [hstop]; decide)).2 ⟨3, hgiven 3, Or.inl ⟨7, Phase.eq_of_result ht⟩⟩
    exact ⟨n, t, hn, hpc, hv0⟩
  · obtain ⟨v, hv, hfinal⟩ := Option.map_eq_some_iff.1 hend
    injection hfinal with hpc hv0
    obtain ⟨n, hn, -⟩ := (executeGuest_slices callerProgram exit (turns 1) 1 (fun _ => none) s
      { v with stopReason := .returned } Nat.one_pos rfl (fun _ _ => rfl) nofun).2
      ⟨1, hgiven 1, Or.inr ⟨rfl, 5, v, hv, rfl⟩⟩
    exact ⟨n, _, hn, hpc, hv0⟩

end Psprism
