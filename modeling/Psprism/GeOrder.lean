import Psprism.GeLists

/-!
# Display lists in their turn

A list that `sceGeBreak` paused is not to run before `sceGeContinue` resumes it, and no list while one ahead
of it in the queue is unfinished. The stubs that run a list look at neither.
-/

namespace Psprism
open History Interleaving

namespace GeMachine

/-- The lists that `sceGeBreak` paused and `sceGeContinue` has not resumed since. -/
def broken : List GeEvent → List Int
  | [] => []
  | .broke ids :: older => ids ++ broken older
  | .continued id :: older => (broken older).filter (· ≠ id)
  | .executed .. :: older => broken older

/-- A run of the executor accepts no word, or its list is not paused and next in the queue. -/
def InTurn (older : List GeEvent) : GeEvent → Prop
  | .executed id words ahead => words = 0 ∨ (id ∉ broken older ∧ ahead = [])
  | _ => True

/-- A run from the address stops before the first word. -/
def Idle (m : GeMachine) (programCounter stallAddress : Word) : Prop :=
  (stallAddress ≠ 0 ∧ canonicalAddress programCounter = canonicalAddress stallAddress) ∨
    m.memory.mappedAddress programCounter 4 = none

/-- The list that the call runs is at the head of the queue, if it accepts any word; it is paused only when
`sceGeContinue` resumes it. -/
def Orderly (m : GeMachine) : GeAction → Prop
  | .enqueue startAddress stallAddress _ atHead =>
    atHead = true ∨ m.scheduler.queue = [] ∨ m.Idle startAddress stallAddress
  | .updateStall listId stallAddress =>
    ∀ list ∈ m.scheduler.find listId.toInt, ¬ list.state.Finished → list.state ≠ .paused ∧
      (m.scheduler.queue.head? = some listId.toInt ∨ m.Idle list.programCounter stallAddress)
  | .continue =>
    ∀ id ∈ m.scheduler.queue.find? fun id => m.scheduler.Has id .paused,
      m.scheduler.queue.head? = some id ∨
        ∀ list ∈ m.scheduler.find id, m.Idle list.programCounter list.stallAddress
  | _ => True

instance (m : GeMachine) (programCounter stallAddress : Word) : Decidable (m.Idle programCounter stallAddress) :=
  inferInstanceAs (Decidable (_ ∨ _))

instance (m : GeMachine) : ∀ a, Decidable (m.Orderly a)
  | .enqueue .. => inferInstanceAs (Decidable (_ ∨ _))
  | .updateStall listId _ => inferInstanceAs (Decidable (∀ list ∈ m.scheduler.find listId.toInt, _))
  | .continue => inferInstanceAs (Decidable (∀ id ∈ m.scheduler.queue.find? _, _))
  | .dequeue _ | .break _ | .guest .. => .isTrue trivial

variable {m m₁ : GeMachine} {id : Int} {list : DisplayList} {a : GeAction}
  {startAddress stallAddress callbackId : Word}

theorem ranOf_words_of_idle (h : m.Idle startAddress stallAddress) :
    (m.ranOf list id startAddress stallAddress callbackId).2.words = 0 := by
  have hfetch : m.memory.mappedAddress startAddress 4 = none → (m.startOf list startAddress).fetch = none := by
    intro h
    rw [GeExecution.fetch, startOf, h, Option.map_none]
  unfold ranOf GeExecution.maxGeCommandWords
  rw [show 2 ^ 20 = (2 ^ 20 - 1) + 1 from rfl, GeExecution.loop]
  split
  · rfl
  · next hstalls =>
    rcases h with h | h
    · exact absurd (decide_eq_true h) hstalls
    · rw [hfetch h]
      rfl

theorem ahead_of_head (h : m.scheduler.queue.head? = some id) : m.ahead id = [] := by
  obtain ⟨rest, hqueue⟩ := List.head?_eq_some_iff.1 h
  simp [ahead, hqueue]

/-- Where every call is orderly, the lists that are broken are paused or finished. -/
structure Kept (m : GeMachine) : Prop where
  inv : m.scheduler.Inv
  paused : ∀ id ∈ broken m.log, ∃ list ∈ m.scheduler.find id, list.state.Finished ∨ list.state = .paused
  inTurn : Entries InTurn m.log

theorem Kept.start (hscheduler : m.scheduler = {}) (hlog : m.log = []) : m.Kept where
  inv := hscheduler ▸ Scheduler.inv_start
  paused := by simp [hlog, broken]
  inTurn := hlog ▸ entries_nil

theorem Kept.not_broken (h : m.Kept) (hlist : m.scheduler.find id = some list) (hf : ¬ list.state.Finished)
    (hpaused : list.state ≠ .paused) : id ∉ broken m.log := by
  intro hmem
  obtain ⟨list', hlist', hstate⟩ := h.paused id hmem
  rw [Option.some.inj (hlist'.symm.trans hlist)] at hstate
  exact hstate.elim hf hpaused

theorem Begins.not_broken (h : Begins m a m₁ id startAddress stallAddress) (hkept : m.Kept)
    (horderly : m.Orderly a) : id ∉ broken m₁.log := by
  cases h with
  | enqueue =>
    intro hmem
    obtain ⟨list, hlist, -⟩ := hkept.paused _ hmem
    rw [hkept.inv.fresh _ le_rfl] at hlist
    cases hlist
  | updateStall hupdate hold =>
    obtain ⟨list, hlist, hf, -⟩ := Scheduler.updateStall_eq_some.1 hupdate
    exact hkept.not_broken hlist hf (horderly list hlist hf).1
  | «continue» => simp [say, broken]

theorem Begins.ahead_or_idle (h : Begins m a m₁ id startAddress stallAddress) (horderly : m.Orderly a) :
    m₁.ahead id = [] ∨ m₁.Idle startAddress stallAddress := by
  cases h with
  | enqueue _ _ callbackId atHead =>
    rcases horderly with rfl | hempty | hidle
    · exact .inl (ahead_of_head rfl)
    · refine .inl (ahead_of_head ?_)
      cases atHead <;> simp [Scheduler.enqueue, hempty]
    · exact .inr hidle
  | updateStall hupdate hold =>
    obtain ⟨list, hlist, hf, rfl⟩ := Scheduler.updateStall_eq_some.1 hupdate
    obtain rfl := Option.some.inj (hold.symm.trans hlist)
    exact (horderly _ hlist hf).2.imp_left ahead_of_head
  | «continue» hcontinue hold =>
    obtain ⟨j, hj, hpair⟩ := Option.map_eq_some_iff.1 hcontinue
    obtain ⟨rfl, rfl⟩ := Prod.mk.inj hpair
    exact (horderly j hj).imp ahead_of_head fun h => h _ hold

/-- A run of the executor that is in its turn. -/
theorem Begins.inTurn (h : Begins m a m₁ id startAddress stallAddress) (hkept : m.Kept)
    (horderly : m.Orderly a) :
    InTurn m₁.log (.executed id (m₁.ranOf list id startAddress stallAddress callbackId).2.words (m₁.ahead id)) := by
  rcases h.ahead_or_idle horderly with hahead | hidle
  · exact .inr ⟨h.not_broken hkept horderly, hahead⟩
  · exact .inl (ranOf_words_of_idle hidle)

theorem Begins.entries (h : Begins m a m₁ id startAddress stallAddress) (hkept : m.Kept) :
    Entries InTurn m₁.log ∧ ∀ j ∈ broken m₁.log, j ∈ broken m.log := by
  cases h with
  | enqueue | updateStall => exact ⟨hkept.inTurn, fun _ h => h⟩
  | «continue» => exact ⟨entries_cons.2 ⟨trivial, hkept.inTurn⟩, fun _ h => List.mem_of_mem_filter h⟩

theorem Kept.broke (h : m.Kept) (mode : Word) :
    ∀ id ∈ broken (.broke (pausedIds (m.scheduler.breakLists mode).2) :: m.log),
      ∃ list ∈ (m.scheduler.breakLists mode).2.find id, list.state.Finished ∨ list.state = .paused := by
  intro id hid
  rcases List.mem_append.1 hid with hid | hid
  · obtain ⟨list, hlist, hpaused⟩ : Scheduler.Has _ id .paused := by simpa using (List.mem_filter.1 hid).2
    exact ⟨list, hlist, .inr hpaused⟩
  · obtain ⟨list, hlist, hf | hpaused⟩ := h.paused id hid
    · exact ⟨list, (h.inv.breakLists_moves mode).finished hlist hf, .inl hf⟩
    · obtain ⟨list', hlist', hpaused'⟩ := Scheduler.breakLists_keeps (P := fun s => s.Has id .paused) mode
        (fun _ _ _ h => Scheduler.has_setState_of_has h) ⟨list, hlist, hpaused⟩
      exact ⟨list', hlist', .inr hpaused'⟩

/-- What one orderly call keeps. -/
theorem Kept.call (h : m.Kept) (horderly : m.Orderly a) : (m.call a).2.Kept := by
  have hinv := call_inv h.inv a
  rcases call_cases (m := m) a with ⟨hscheduler, hlog⟩ | ⟨mode, hscheduler, hlog⟩ |
    ⟨m₁, id, startAddress, stallAddress, callbackId, hbegins, heq⟩
  · refine ⟨hinv, ?_, ?_⟩
    · rw [hscheduler, hlog]
      exact h.paused
    · rw [hlog]
      exact h.inTurn
  · refine ⟨hinv, ?_, ?_⟩
    · rw [hscheduler, hlog]
      exact h.broke mode
    · rw [hlog]
      exact entries_cons.2 ⟨trivial, h.inTurn⟩
  · obtain ⟨list, hlist⟩ := hbegins.find h.inv
    obtain ⟨hentries, hbroken⟩ := hbegins.entries h
    have hlog : (m₁.executeGeList id startAddress stallAddress callbackId).log =
        .executed id (m₁.ranOf list id startAddress stallAddress callbackId).2.words (m₁.ahead id) :: m₁.log :=
      executeGeList_log hlist
    rw [heq] at hinv ⊢
    refine ⟨hinv, fun j hj => ?_, ?_⟩
    · rw [hlog] at hj
      have hne : j ≠ id := by
        rintro rfl
        exact hbegins.not_broken h horderly hj
      rw [(executeGeList_ran hlist).others j hne, hbegins.others hne]
      exact h.paused j (hbroken j hj)
    · rw [hlog]
      exact entries_cons.2 ⟨hbegins.inTurn h horderly, hentries⟩

end GeMachine

/-- In a run of orderly calls every word that the executor accepts is of a list that is not paused and that
has no unfinished list ahead of it. -/
theorem lists_in_turn (m s : GeMachine) (actions : List GeAction) (hscheduler : m.scheduler = {})
    (hlog : m.log = []) (horderly : Guarded GeMachine.step GeMachine.Orderly m actions)
    (hrun : run GeMachine.step m actions = some s) : Entries GeMachine.InTurn s.log := by
  refine (run_guarded (P := GeMachine.Kept) ?_ (.start hscheduler hlog) horderly hrun).inTurn
  rintro m a _ h ha ⟨⟩
  exact h.call ha

/-- A list that stalls is broken, continued and let go on to its end, and one that stalls at once is put
behind it and runs when it has ended. -/
theorem lists_in_turn_broken :
    let actions : List GeAction := [.enqueue 0 4 0 false, .enqueue 0 0x20000000 0 false, .break 0, .continue,
      .updateStall 1 0, .updateStall 2 4]
    ∃ s, run GeMachine.step nopList actions = some s ∧
      s.log = [.executed 2 1 [], .executed 1 1 [], .executed 1 0 [], .continued 1, .broke [1], .executed 2 0 [1],
        .executed 1 1 []] ∧ Entries GeMachine.InTurn s.log := by
  intro actions
  have horderly : Guarded GeMachine.step GeMachine.Orderly nopList actions := by decide
  exact ⟨_, rfl, by decide, lists_in_turn nopList _ actions rfl rfl horderly rfl⟩

/-- A list that is broken goes on when its stall address is moved, and a list is run when it is enqueued
behind one that is stalled. -/
theorem lists_out_of_turn :
    (∃ s, run GeMachine.step nopList [.enqueue 0 4 0 false, .break 0, .updateStall 1 0] = some s ∧
      s.log = [.executed 1 1 [], .broke [1], .executed 1 1 []] ∧ ¬ Entries GeMachine.InTurn s.log) ∧
    ∃ s, run GeMachine.step nopList [.enqueue 0 4 0 false, .enqueue 0 0 0 false] = some s ∧
      s.log = [.executed 2 2 [1], .executed 1 1 []] ∧ ¬ Entries GeMachine.InTurn s.log := by
  have hbroken : ¬ Entries GeMachine.InTurn [.executed 1 1 [], .broke [1], .executed 1 1 []] := by
    simp [Entries, GeMachine.InTurn, GeMachine.broken]
  have hbehind : ¬ Entries GeMachine.InTurn [.executed 2 2 [1], .executed 1 1 []] := by
    simp [Entries, GeMachine.InTurn, GeMachine.broken]
  have hlog : ∀ s : GeMachine, ∀ log, s.log = log → ¬ Entries GeMachine.InTurn log →
      s.log = log ∧ ¬ Entries GeMachine.InTurn s.log := fun s log h hnot => ⟨h, h ▸ hnot⟩
  exact ⟨⟨_, rfl, hlog _ _ (by decide) hbroken⟩, ⟨_, rfl, hlog _ _ (by decide) hbehind⟩⟩

end Psprism
