import Mathlib.Data.List.Nodup
import Psprism.GeExecutor

/-!
# The scheduler of display lists (`ge/ge_scheduler.hpp`)

`Scheduler` keeps every list that was ever enqueued and the queue of those that are not done. Identifiers
are counted without overflow.
-/

namespace Psprism

inductive ListState
  | queued | running | stalled | paused | completed | cancelled | error
deriving DecidableEq

structure DisplayList where
  id : Int
  startAddress : Word
  programCounter : Word
  stallAddress : Word
  callbackId : Word
  callStack : List CallFrame := []
  state : ListState := .queued
  boundingBoxVisible : Bool := false

/-- The list is completed, cancelled or failed. -/
def ListState.Finished (s : ListState) : Prop := s = .completed ∨ s = .cancelled ∨ s = .error

instance (s : ListState) : Decidable s.Finished := inferInstanceAs (Decidable (_ ∨ _ ∨ _))

structure Scheduler where
  nextId : Int := 1
  lists : Int → Option DisplayList := fun _ => none
  queue : List Int := []

namespace Scheduler

/-- What a method does to the list with the identifier, if there is one. -/
def modify (s : Scheduler) (id : Int) (f : DisplayList → DisplayList) : Scheduler :=
  { s with lists := Function.update s.lists id ((s.lists id).map f) }

def setState (s : Scheduler) (id : Int) (state : ListState) : Scheduler :=
  s.modify id fun list => { list with state }

/-- `emplace` does not replace a list. -/
def enqueue (s : Scheduler) (startAddress stallAddress callbackId : Word) (atHead : Bool) : Int × Scheduler :=
  let id := s.nextId
  let list : DisplayList := { id, startAddress, programCounter := startAddress, stallAddress, callbackId }
  (id, { nextId := s.nextId + 1
         lists := Function.update s.lists id (some ((s.lists id).getD list))
         queue := if atHead then id :: s.queue else s.queue ++ [id] })

def find (s : Scheduler) (id : Int) : Option DisplayList := s.lists id

def begin (s : Scheduler) (id : Int) : Scheduler := s.setState id .running

def stall (s : Scheduler) (id : Int) (programCounter stallAddress : Word) : Scheduler :=
  s.modify id fun list => { list with programCounter, stallAddress, state := .stalled }

def finish (s : Scheduler) (id : Int) (programCounter : Word) (state : ListState) : Scheduler :=
  { s.modify id fun list => { list with programCounter, state } with queue := s.queue.filter (· ≠ id) }

/-- What `update_stall` makes of a list that is not finished. -/
def restalled (address : Word) (list : DisplayList) : DisplayList :=
  { list with
    stallAddress := address
    state := if list.state = .stalled ∧ list.programCounter ≠ address then .queued else list.state }

/-- `update_stall`; `none` is the result `false`. -/
def updateStall (s : Scheduler) (id : Int) (address : Word) : Option Scheduler :=
  match s.find id with
  | none => none
  | some list =>
    if list.state = .completed ∨ list.state = .cancelled ∨ list.state = .error then none
    else some (s.modify id (restalled address))

/-- The loop of `break_lists` over the rest of the queue. -/
def breakLoop (mode : Word) : List Int → Int → Scheduler → Int × Scheduler
  | [], current, s => (current, s)
  | id :: rest, current, s =>
    match s.find id with
    | none => breakLoop mode rest current s
    | some list =>
      let current :=
        if current < 0 ∧ (list.state = .running ∨ list.state = .stalled ∨ list.state = .queued) then id else current
      if mode = 0 ∧ id ≠ current then breakLoop mode rest current s
      else
        let s := if list.state ≠ .completed ∧ list.state ≠ .cancelled then s.setState id .paused else s
        if mode = 0 then (current, s) else breakLoop mode rest current s

def breakLists (s : Scheduler) (mode : Word) : Int × Scheduler := breakLoop mode s.queue (-1) s

/-- The list is there and in the state. -/
def Has (s : Scheduler) (id : Int) (state : ListState) : Prop := ∃ list ∈ s.find id, list.state = state

instance (s : Scheduler) (id : Int) (state : ListState) : Decidable (s.Has id state) :=
  match h : s.find id with
  | none => .isFalse fun ⟨_, hl, _⟩ => by simp [h] at hl
  | some list => decidable_of_iff (list.state = state) (by simp [Has, h])

/-- `continue_lists`; `none` is the result -1. -/
def continueLists (s : Scheduler) : Option (Int × Scheduler) :=
  (s.queue.find? fun id => s.Has id .paused).map fun id => (id, s.setState id .queued)

/-! ### What the methods keep -/

variable {s s' : Scheduler} {id j : Int}

/-- The queue has no duplicates and holds the lists that are not finished; identifiers are not used twice. -/
structure Inv (s : Scheduler) : Prop where
  nodup : s.queue.Nodup
  mem_iff : ∀ id, id ∈ s.queue ↔ ∃ list ∈ s.find id, ¬ list.state.Finished
  fresh : ∀ id, s.nextId ≤ id → s.find id = none

theorem inv_start : ({} : Scheduler).Inv where
  nodup := List.nodup_nil
  mem_iff id := by simp [find]
  fresh _ _ := rfl

/-- Lists that are not finished stay so, and no others change. -/
structure Moves (s s' : Scheduler) : Prop where
  nextId : s'.nextId = s.nextId
  queue : s'.queue = s.queue
  lists : ∀ id, s'.find id = s.find id ∨
    ∃ list ∈ s.find id, ∃ list' ∈ s'.find id, ¬ list.state.Finished ∧ ¬ list'.state.Finished

theorem Moves.refl : Moves s s := ⟨rfl, rfl, fun _ => .inl rfl⟩

theorem Moves.trans {s'' : Scheduler} (h : Moves s s') (h' : Moves s' s'') : Moves s s'' where
  nextId := h'.nextId.trans h.nextId
  queue := h'.queue.trans h.queue
  lists id := by
    rcases h.lists id with heq | ⟨list, hlist, list', hlist', hf, hf'⟩
    · rw [← heq]
      exact h'.lists id
    · rcases h'.lists id with heq' | ⟨_, -, list'', hlist'', -, hf''⟩
      · exact .inr ⟨list, hlist, list', heq' ▸ hlist', hf, hf'⟩
      · exact .inr ⟨list, hlist, list'', hlist'', hf, hf''⟩

theorem Moves.finished (h : Moves s s') {list : DisplayList} (hlist : s.find id = some list)
    (hf : list.state.Finished) : s'.find id = some list := by
  rcases h.lists id with heq | ⟨l, hl, -, -, hnot, -⟩
  · rw [heq, hlist]
  · rw [Option.some.inj (hl.symm.trans hlist)] at hnot
    exact absurd hf hnot

theorem Inv.moves (h : s.Inv) (hmoves : Moves s s') : s'.Inv where
  nodup := hmoves.queue ▸ h.nodup
  mem_iff id := by
    rw [hmoves.queue, h.mem_iff]
    rcases hmoves.lists id with heq | ⟨list, hlist, list', hlist', hf, hf'⟩
    · rw [heq]
    · exact iff_of_true ⟨list, hlist, hf⟩ ⟨list', hlist', hf'⟩
  fresh id hid := by
    rw [hmoves.nextId] at hid
    rcases hmoves.lists id with heq | ⟨list, hlist, -⟩
    · rw [heq, h.fresh id hid]
    · rw [h.fresh id hid] at hlist
      cases hlist

@[simp] theorem find_modify_self (f : DisplayList → DisplayList) :
    (s.modify id f).find id = (s.find id).map f := Function.update_self ..

theorem find_modify_of_ne (f : DisplayList → DisplayList) (hj : j ≠ id) :
    (s.modify id f).find j = s.find j := Function.update_of_ne hj ..

theorem moves_modify {f : DisplayList → DisplayList}
    (hf : ∀ list ∈ s.find id, ¬ list.state.Finished ∧ ¬ (f list).state.Finished) : Moves s (s.modify id f) where
  nextId := rfl
  queue := rfl
  lists j := by
    by_cases hj : j = id
    · subst hj
      cases hlist : s.find j with
      | none => exact .inl (by rw [find_modify_self, hlist, Option.map_none])
      | some list =>
        exact .inr ⟨list, rfl, f list, by rw [find_modify_self, hlist]; rfl, hf list hlist⟩
    · exact .inl (find_modify_of_ne f hj)

/-- What pausing a list of the queue keeps, the loop of `break_lists` keeps. -/
theorem breakLoop_keeps {P : Scheduler → Prop} {mode : Word} {ids : List Int} {current : Int}
    (hpause : ∀ s, ∀ id ∈ ids, P s → P (s.setState id .paused)) (h : P s) :
    P (breakLoop mode ids current s).2 := by
  induction ids generalizing s current with
  | nil => exact h
  | cons id rest ih =>
    have ih := fun {s current} => @ih s current fun s j hj => hpause s j (List.mem_cons_of_mem _ hj)
    unfold breakLoop
    split
    · exact ih h
    · next list hlist =>
      have hpaused : P (if list.state ≠ .completed ∧ list.state ≠ .cancelled then s.setState id .paused else s) := by
        split
        · exact hpause s id List.mem_cons_self h
        · exact h
      dsimp only
      generalize (if current < 0 ∧ (list.state = .running ∨ list.state = .stalled ∨ list.state = .queued) then id
        else current) = current'
      split
      · exact ih h
      · split
        · exact hpaused
        · exact ih hpaused

theorem breakLists_keeps {P : Scheduler → Prop} (mode : Word)
    (hpause : ∀ t, ∀ id ∈ s.queue, P t → P (t.setState id .paused)) (h : P s) : P (s.breakLists mode).2 :=
  breakLoop_keeps hpause h

theorem Inv.breakLists_moves (h : s.Inv) (mode : Word) : Moves s (s.breakLists mode).2 := by
  refine breakLists_keeps mode (fun t id hid hmoves => hmoves.trans (moves_modify fun list hlist => ?_)) .refl
  obtain ⟨old, hold, hf⟩ := (h.mem_iff id).1 hid
  refine ⟨?_, by simp [ListState.Finished]⟩
  rcases hmoves.lists id with heq | ⟨-, -, list', hlist', -, hf'⟩
  · rwa [Option.some.inj (hlist.symm.trans (heq.trans hold))]
  · rwa [Option.some.inj (hlist.symm.trans hlist')]

theorem has_setState_of_has {state : ListState} (h : s.Has j state) : (s.setState id state).Has j state := by
  obtain ⟨list, hlist, hstate⟩ := h
  by_cases hj : j = id
  · subst hj
    exact ⟨_, by rw [setState, find_modify_self, hlist]; rfl, rfl⟩
  · exact ⟨list, by rwa [setState, find_modify_of_ne _ hj], hstate⟩

theorem continueLists_moves (h : s.continueLists = some (id, s')) : Moves s s' ∧ s.Has id .paused ∧ id ∈ s.queue ∧
    s' = s.setState id .queued := by
  obtain ⟨j, hj, hs'⟩ := Option.map_eq_some_iff.1 h
  obtain ⟨rfl, rfl⟩ := Prod.mk.inj hs'
  have hpaused : s.Has j .paused := by simpa using List.find?_some hj
  refine ⟨moves_modify fun list hlist => ?_, hpaused, List.mem_of_find?_eq_some hj, rfl⟩
  obtain ⟨l, hl, hstate⟩ := hpaused
  rw [Option.some.inj (hl.symm.trans hlist)] at hstate
  simp [hstate, ListState.Finished]

theorem updateStall_eq_some {address : Word} : s.updateStall id address = some s' ↔
    ∃ list, s.find id = some list ∧ ¬ list.state.Finished ∧ s' = s.modify id (restalled address) := by
  unfold updateStall
  cases hlist : s.find id with
  | none => simp
  | some list => simp [ListState.Finished, eq_comm]

theorem restalled_finished {list : DisplayList} {address : Word} (h : ¬ list.state.Finished) :
    ¬ (restalled address list).state.Finished := by
  unfold restalled
  dsimp only
  split
  · simp [ListState.Finished]
  · exact h

theorem updateStall_moves {address : Word} (h : s.updateStall id address = some s') : Moves s s' := by
  obtain ⟨list, hlist, hf, rfl⟩ := updateStall_eq_some.1 h
  refine moves_modify fun l hl => ?_
  obtain rfl := Option.some.inj (hlist.symm.trans hl)
  exact ⟨hf, restalled_finished hf⟩

theorem enqueue_find {startAddress stallAddress callbackId : Word} {atHead : Bool} (hj : j ≠ s.nextId) :
    (s.enqueue startAddress stallAddress callbackId atHead).2.find j = s.find j := Function.update_of_ne hj _ _

theorem enqueue_find_self (h : s.find s.nextId = none) (startAddress stallAddress callbackId : Word)
    (atHead : Bool) : (s.enqueue startAddress stallAddress callbackId atHead).2.find s.nextId =
      some { id := s.nextId, startAddress, programCounter := startAddress, stallAddress, callbackId } := by
  simp [enqueue, find, show s.lists s.nextId = none from h]

/-- A new list, which is in the queue once. -/
theorem Inv.enqueue (h : s.Inv) (startAddress stallAddress callbackId : Word) (atHead : Bool) :
    (s.enqueue startAddress stallAddress callbackId atHead).2.Inv := by
  have hfresh : s.find s.nextId = none := h.fresh _ le_rfl
  have hnew : s.nextId ∉ s.queue := fun hmem => by
    obtain ⟨list, hlist, -⟩ := (h.mem_iff _).1 hmem
    rw [hfresh] at hlist
    cases hlist
  have hqueue : ∀ id, id ∈ (s.enqueue startAddress stallAddress callbackId atHead).2.queue ↔
      id = s.nextId ∨ id ∈ s.queue := by
    intro id
    cases atHead <;> simp [Scheduler.enqueue, or_comm]
  have hlist := enqueue_find_self hfresh startAddress stallAddress callbackId atHead
  refine ⟨?_, fun id => ?_, fun id hid => ?_⟩
  · cases atHead
    · exact List.nodup_append.2 ⟨h.nodup, List.nodup_singleton _, fun a ha b hb =>
        fun hab => hnew (List.mem_singleton.1 hb ▸ hab ▸ ha)⟩
    · exact List.nodup_cons.2 ⟨hnew, h.nodup⟩
  · rw [hqueue]
    by_cases hid : id = s.nextId
    · subst hid
      rw [hlist]
      exact iff_of_true (.inl rfl) ⟨_, rfl, by simp [ListState.Finished]⟩
    · rw [enqueue_find hid, ← h.mem_iff, or_iff_right hid]
  · have hid : s.nextId + 1 ≤ id := hid
    rw [enqueue_find (by omega), h.fresh id (by omega)]

/-- What a run of the executor leaves of the scheduler: the list that ran is stalled, or finished and out of
the queue. -/
structure Ran (s s' : Scheduler) (id : Int) : Prop where
  nextId : s'.nextId = s.nextId
  others : ∀ j, j ≠ id → s'.find j = s.find j
  ended : ∃ list ∈ s'.find id, (list.state = .stalled ∧ s'.queue = s.queue) ∨
    (list.state.Finished ∧ s'.queue = s.queue.filter (· ≠ id))

theorem Inv.ran (h : s.Inv) (hmem : id ∈ s.queue) (hran : Ran s s' id) : s'.Inv := by
  obtain ⟨list, hlist, hended⟩ := hran.ended
  have hothers : ∀ j, j ≠ id → (j ∈ s.queue ↔ ∃ list ∈ s'.find j, ¬ list.state.Finished) := fun j hj => by
    rw [h.mem_iff, hran.others j hj]
  have hfresh : ∀ j, s'.nextId ≤ j → s'.find j = none := fun j hj => by
    rw [hran.nextId] at hj
    have hne : j ≠ id := by
      rintro rfl
      obtain ⟨l, hl, -⟩ := (h.mem_iff j).1 hmem
      rw [h.fresh j hj] at hl
      cases hl
    rw [hran.others j hne, h.fresh j hj]
  have hlist' : ∀ list' ∈ s'.find id, list' = list := fun _ hl => Option.some.inj (hl.symm.trans hlist)
  rcases hended with ⟨hstate, hqueue⟩ | ⟨hf, hqueue⟩
  · refine ⟨hqueue ▸ h.nodup, fun j => ?_, hfresh⟩
    by_cases hj : j = id
    · subst hj
      rw [hqueue]
      exact iff_of_true hmem ⟨list, hlist, by simp [hstate, ListState.Finished]⟩
    · rw [hqueue, hothers j hj]
  · refine ⟨hqueue ▸ h.nodup.filter _, fun j => ?_, hfresh⟩
    rw [hqueue, List.mem_filter]
    by_cases hj : j = id
    · subst hj
      refine iff_of_false (by simp) ?_
      rintro ⟨l, hl, hl'⟩
      exact hl' (hlist' l hl ▸ hf)
    · rw [hothers j hj]
      simp [hj]

end Scheduler

end Psprism
