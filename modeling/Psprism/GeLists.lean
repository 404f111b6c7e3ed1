import Psprism.GeScheduler
import Psprism.Lib.History
import Psprism.Lib.Interleaving

/-!
# Display lists and the guest (`stubs/ge/`)

The stubs that enqueue display lists, move their stall addresses, break and continue them, on the state they
share: the graphics state, guest memory and the scheduler. Guest threads run one at a time and these stubs
never give the guest execution lock up, so each is one step. The callbacks of a run are dispatched when all
its results are stored, and what they call is a step of its own.
-/

namespace Psprism
open History Interleaving

/-- What a history of the display lists records. -/
inductive GeEvent
  /-- The executor accepted so many words of a list, behind the unfinished ones in the queue. -/
  | executed (id : Int) (words : Nat) (ahead : List Int)
  /-- `sceGeBreak` left the lists paused. -/
  | broke (ids : List Int)
  /-- `sceGeContinue` resumed the list. -/
  | continued (id : Int)
deriving DecidableEq

structure GeMachine where
  graphics : Graphics := {}
  memory : GuestMemory := {}
  geCallbacks : Int → Option GeCallback := fun _ => none
  scheduler : Scheduler := {}
  draws : List Draw := []
  transfers : List (List MovedRow) := []
  /-- The callbacks in the order in which they were dispatched. -/
  callbacks : List PendingCallback := []
  log : List GeEvent := []

namespace GeMachine

/-- The lists ahead of one in the queue that are not finished. -/
def ahead (m : GeMachine) (id : Int) : List Int :=
  (m.scheduler.queue.takeWhile (· ≠ id)).filter fun j => ∃ list ∈ m.scheduler.find j, ¬ list.state.Finished

def say (m : GeMachine) (e : GeEvent) : GeMachine := { m with log := e :: m.log }

/-- What the executor starts a run with. -/
def startOf (m : GeMachine) (list : DisplayList) (startAddress : Word) : GeExecution where
  graphics := m.graphics
  memory := m.memory
  programCounter := startAddress
  callStack := list.callStack
  boundingBoxVisible := list.boundingBoxVisible
  draws := m.draws
  transfers := m.transfers

/-- The scheduler after a run: the list is stored, and finished or stalled. -/
def settle (scheduler : Scheduler) (id : Int) (stallAddress : Word) (ran : GeExecution.Stop × GeExecution) :
    Scheduler :=
  let stored := scheduler.modify id fun list =>
    { list with
      programCounter := ran.2.programCounter
      stallAddress
      callStack := ran.2.callStack
      boundingBoxVisible := ran.2.boundingBoxVisible }
  match ran.1 with
  | .ended => stored.finish id ran.2.programCounter .completed
  | .failed => stored.finish id ran.2.programCounter .error
  | .stalled => stored.stall id ran.2.programCounter stallAddress

def contextOf (m : GeMachine) (listId : Int) (stallAddress callbackId : Word) : GeContext :=
  { listId, stallAddress, callbackId, callbacks := m.geCallbacks }

/-- The loop of the executor over the list. -/
def ranOf (m : GeMachine) (list : DisplayList) (id : Int) (startAddress stallAddress callbackId : Word) :
    GeExecution.Stop × GeExecution :=
  GeExecution.loop (m.contextOf id stallAddress callbackId) GeExecution.maxGeCommandWords
    (m.startOf list startAddress)

/-- `execute_ge_list`. -/
def executeGeList (m : GeMachine) (id : Int) (startAddress stallAddress callbackId : Word) : GeMachine :=
  match m.scheduler.find id with
  | none => m
  | some list =>
    let ran := m.ranOf list id startAddress stallAddress callbackId
    { m with
      graphics := ran.2.graphics
      memory := ran.2.memory
      scheduler := settle (m.scheduler.begin id) id stallAddress ran
      draws := ran.2.draws
      transfers := ran.2.transfers
      callbacks := m.callbacks ++ ran.2.pendingCallbacks }.say (.executed id ran.2.words (m.ahead id))

/-- `sceGeListEnQueue` and `sceGeListEnQueueHead`. -/
def sceGeListEnQueue (m : GeMachine) (startAddress stallAddress callbackId : Word) (atHead : Bool) :
    Word × GeMachine :=
  let (id, scheduler) := m.scheduler.enqueue startAddress stallAddress callbackId atHead
  (BitVec.ofInt 32 id, { m with scheduler }.executeGeList id startAddress stallAddress callbackId)

def sceGeListUpdateStallAddr (m : GeMachine) (listId stallAddress : Word) : Word × GeMachine :=
  let id := listId.toInt
  match m.scheduler.updateStall id stallAddress with
  | none => (0x80000100, m)
  | some scheduler =>
    match scheduler.find id with
    | none => (0x80000100, m)
    | some list =>
      (0, { m with scheduler }.executeGeList id list.programCounter stallAddress list.callbackId)

/-- The lists that are paused in the queue. -/
def pausedIds (s : Scheduler) : List Int := s.queue.filter fun id => s.Has id .paused

def sceGeBreak (m : GeMachine) (mode : Word) : Word × GeMachine :=
  if 1 < mode then (0x80000107, m)
  else
    let (listId, scheduler) := m.scheduler.breakLists mode
    (if mode = 0 ∧ 0 ≤ listId then BitVec.ofInt 32 listId else 0,
      { m with scheduler }.say (.broke (pausedIds scheduler)))

def sceGeContinue (m : GeMachine) : Word × GeMachine :=
  match m.scheduler.continueLists with
  | none => (0, m)
  | some (id, scheduler) =>
    match scheduler.find id with
    | none => (0, m)
    | some list =>
      (0, ({ m with scheduler }.say (.continued id)).executeGeList id list.programCounter list.stallAddress
        list.callbackId)

end GeMachine

inductive GeAction
  | enqueue (startAddress stallAddress callbackId : Word) (atHead : Bool)
  | updateStall (listId stallAddress : Word)
  /-- `sceGeListDeQueue`, which has no stub. -/
  | dequeue (listId : Word)
  | «break» (mode : Word)
  | «continue»
  /-- Whatever else the guest does: it writes memory, restores a context, registers callbacks. -/
  | guest (memory : GuestMemory) (graphics : Graphics) (geCallbacks : Int → Option GeCallback)

namespace GeMachine

/-- The result of the stub and the state after it. -/
def call (m : GeMachine) : GeAction → Word × GeMachine
  | .enqueue startAddress stallAddress callbackId atHead =>
    m.sceGeListEnQueue startAddress stallAddress callbackId atHead
  | .updateStall listId stallAddress => m.sceGeListUpdateStallAddr listId stallAddress
  | .dequeue _ => (0, m)
  | .break mode => m.sceGeBreak mode
  | .continue => m.sceGeContinue
  | .guest memory graphics geCallbacks => (0, { m with memory, graphics, geCallbacks })

def step (m : GeMachine) (a : GeAction) : Option GeMachine := some (m.call a).2

/-! ### What a call does to the scheduler -/

variable {m m' : GeMachine} {id : Int} {list : DisplayList} {a : GeAction}
  {startAddress stallAddress callbackId : Word}

/-- A list after a run over it. -/
def settled (list : DisplayList) (stallAddress : Word) (ran : GeExecution.Stop × GeExecution) : DisplayList :=
  { list with
    programCounter := ran.2.programCounter
    stallAddress
    callStack := ran.2.callStack
    boundingBoxVisible := ran.2.boundingBoxVisible
    state :=
      match ran.1 with
      | .ended => .completed
      | .failed => .error
      | .stalled => .stalled }

theorem settle_find {s : Scheduler} {ran : GeExecution.Stop × GeExecution} (h : s.find id = some list) :
    (settle (s.begin id) id stallAddress ran).find id = some (settled list stallAddress ran) := by
  have hlist : s.lists id = some list := h
  obtain ⟨stop, t⟩ := ran
  cases stop <;>
    simp [settle, settled, Scheduler.finish, Scheduler.stall, Scheduler.modify, Scheduler.begin, Scheduler.setState,
      Scheduler.find, hlist]

theorem settle_ran {s : Scheduler} {ran : GeExecution.Stop × GeExecution} (h : s.find id = some list) :
    Scheduler.Ran s (settle (s.begin id) id stallAddress ran) id := by
  refine ⟨?_, fun j hj => ?_, _, settle_find h, ?_⟩
  all_goals obtain ⟨stop, t⟩ := ran
  · cases stop <;> rfl
  · cases stop <;>
      simp [settle, Scheduler.finish, Scheduler.stall, Scheduler.modify, Scheduler.begin, Scheduler.setState,
        Scheduler.find, hj]
  · cases stop with
    | stalled => exact .inl ⟨rfl, rfl⟩
    | ended => exact .inr ⟨.inl rfl, rfl⟩
    | failed => exact .inr ⟨.inr (.inr rfl), rfl⟩

theorem executeGeList_ran (h : m.scheduler.find id = some list) :
    Scheduler.Ran m.scheduler (m.executeGeList id startAddress stallAddress callbackId).scheduler id := by
  unfold executeGeList
  rw [h]
  exact settle_ran h

theorem executeGeList_log (h : m.scheduler.find id = some list) :
    (m.executeGeList id startAddress stallAddress callbackId).log =
      .executed id (m.ranOf list id startAddress stallAddress callbackId).2.words (m.ahead id) :: m.log := by
  unfold executeGeList
  rw [h]
  rfl

/-- How a call comes to run a list from an address to a stall address. -/
inductive Begins (m : GeMachine) : GeAction → GeMachine → Int → Word → Word → Prop
  | enqueue (startAddress stallAddress callbackId : Word) (atHead : Bool) :
    Begins m (.enqueue startAddress stallAddress callbackId atHead)
      { m with scheduler := (m.scheduler.enqueue startAddress stallAddress callbackId atHead).2 }
      m.scheduler.nextId startAddress stallAddress
  | updateStall {listId stallAddress : Word} {scheduler : Scheduler} {list : DisplayList}
      (hupdate : m.scheduler.updateStall listId.toInt stallAddress = some scheduler)
      (hlist : m.scheduler.find listId.toInt = some list) :
    Begins m (.updateStall listId stallAddress) { m with scheduler } listId.toInt list.programCounter stallAddress
  | continue {id : Int} {scheduler : Scheduler} {list : DisplayList}
      (hcontinue : m.scheduler.continueLists = some (id, scheduler)) (hlist : m.scheduler.find id = some list) :
    Begins m .continue ({ m with scheduler }.say (.continued id)) id list.programCounter list.stallAddress

theorem Begins.inv {m₁ : GeMachine} (h : Begins m a m₁ id startAddress stallAddress) (hinv : m.scheduler.Inv) :
    m₁.scheduler.Inv ∧ id ∈ m₁.scheduler.queue := by
  cases h with
  | enqueue _ _ callbackId atHead =>
    refine ⟨hinv.enqueue .., ?_⟩
    cases atHead
    · exact List.mem_append_right _ (List.mem_singleton_self _)
    · exact List.mem_cons_self
  | updateStall hupdate hlist =>
    obtain ⟨old, hold, hf, -⟩ := Scheduler.updateStall_eq_some.1 hupdate
    have hmoves := Scheduler.updateStall_moves hupdate
    exact ⟨hinv.moves hmoves, hmoves.queue ▸ (hinv.mem_iff _).2 ⟨old, hold, hf⟩⟩
  | «continue» hcontinue hlist =>
    obtain ⟨hmoves, -, hmem, -⟩ := Scheduler.continueLists_moves hcontinue
    exact ⟨hinv.moves hmoves, hmoves.queue ▸ hmem⟩

theorem Begins.find {m₁ : GeMachine} (h : Begins m a m₁ id startAddress stallAddress) (hinv : m.scheduler.Inv) :
    ∃ list, m₁.scheduler.find id = some list := by
  obtain ⟨hinv₁, hmem⟩ := h.inv hinv
  obtain ⟨list, hlist, -⟩ := (hinv₁.mem_iff id).1 hmem
  exact ⟨list, hlist⟩

theorem updateStall_cases (listId address : Word) :
    m.sceGeListUpdateStallAddr listId address = (0x80000100, m) ∨
      ∃ scheduler list, m.scheduler.updateStall listId.toInt address = some scheduler ∧
        m.scheduler.find listId.toInt = some list ∧
        m.sceGeListUpdateStallAddr listId address =
          (0, { m with scheduler }.executeGeList listId.toInt list.programCounter address list.callbackId) := by
  unfold sceGeListUpdateStallAddr
  dsimp only
  cases hupdate : m.scheduler.updateStall listId.toInt address with
  | none => exact .inl rfl
  | some scheduler =>
    obtain ⟨list, hlist, -, rfl⟩ := Scheduler.updateStall_eq_some.1 hupdate
    refine .inr ⟨_, list, rfl, hlist, ?_⟩
    simp [Scheduler.find_modify_self, hlist, Scheduler.restalled]

theorem continue_cases : m.sceGeContinue = (0, m) ∨
    ∃ id scheduler list, m.scheduler.continueLists = some (id, scheduler) ∧ m.scheduler.find id = some list ∧
      m.sceGeContinue = (0, ({ m with scheduler }.say (.continued id)).executeGeList id list.programCounter
        list.stallAddress list.callbackId) := by
  unfold sceGeContinue
  cases hcontinue : m.scheduler.continueLists with
  | none => exact .inl rfl
  | some p =>
    obtain ⟨id, scheduler⟩ := p
    obtain ⟨-, ⟨list, hlist, -⟩, -, rfl⟩ := Scheduler.continueLists_moves hcontinue
    have hlist : m.scheduler.find id = some list := hlist
    refine .inr ⟨id, _, list, rfl, hlist, ?_⟩
    simp [Scheduler.setState, Scheduler.find_modify_self, hlist]

/-- A call leaves the scheduler as it is, breaks its lists or runs one of them. -/
theorem call_cases (a : GeAction) :
    ((m.call a).2.scheduler = m.scheduler ∧ (m.call a).2.log = m.log) ∨
    (∃ mode, (m.call a).2.scheduler = (m.scheduler.breakLists mode).2 ∧
      (m.call a).2.log = .broke (pausedIds (m.scheduler.breakLists mode).2) :: m.log) ∨
    ∃ m₁ id startAddress stallAddress callbackId, Begins m a m₁ id startAddress stallAddress ∧
      (m.call a).2 = m₁.executeGeList id startAddress stallAddress callbackId := by
  cases a with
  | enqueue startAddress stallAddress callbackId atHead => exact .inr (.inr ⟨_, _, _, _, _, .enqueue .., rfl⟩)
  | updateStall listId stallAddress =>
    rcases m.updateStall_cases listId stallAddress with h | ⟨scheduler, list, hupdate, hlist, h⟩
    · exact .inl (by rw [call, h]; exact ⟨rfl, rfl⟩)
    · exact .inr (.inr ⟨_, _, _, _, _, .updateStall hupdate hlist, by rw [call, h]⟩)
  | dequeue listId => exact .inl ⟨rfl, rfl⟩
  | «break» mode =>
    rw [call, sceGeBreak]
    split
    · exact .inl ⟨rfl, rfl⟩
    · exact .inr (.inl ⟨mode, rfl, rfl⟩)
  | «continue» =>
    rcases m.continue_cases with h | ⟨id, scheduler, list, hcontinue, hlist, h⟩
    · exact .inl (by rw [call, h]; exact ⟨rfl, rfl⟩)
    · exact .inr (.inr ⟨_, _, _, _, _, .continue hcontinue hlist, by rw [call, h]⟩)
  | guest memory graphics geCallbacks => exact .inl ⟨rfl, rfl⟩

/-! ### The queue over a whole run -/

theorem call_inv (hinv : m.scheduler.Inv) (a : GeAction) : (m.call a).2.scheduler.Inv := by
  rcases call_cases (m := m) a with ⟨heq, -⟩ | ⟨mode, heq, -⟩ | ⟨m₁, id, _, _, _, hbegins, heq⟩
  · rwa [heq]
  · exact heq ▸ hinv.moves (hinv.breakLists_moves mode)
  · obtain ⟨list, hlist⟩ := hbegins.find hinv
    obtain ⟨hinv₁, hmem⟩ := hbegins.inv hinv
    rw [heq]
    exact hinv₁.ran hmem (executeGeList_ran hlist)

/-- The guest's calls lead here from a fresh scheduler. -/
def Reachable (m : GeMachine) : Prop := ∃ start actions, start.scheduler = {} ∧ run step start actions = some m

theorem Reachable.inv (h : m.Reachable) : m.scheduler.Inv := by
  obtain ⟨start, actions, hstart, hrun⟩ := h
  refine run_invariant (P := fun m => m.scheduler.Inv) ?_ (hstart ▸ Scheduler.inv_start) hrun
  rintro m a _ h ⟨⟩
  exact call_inv h a

theorem Begins.others {m₁ : GeMachine} (h : Begins m a m₁ id startAddress stallAddress) {j : Int} (hj : j ≠ id) :
    m₁.scheduler.find j = m.scheduler.find j := by
  cases h with
  | enqueue => exact Scheduler.enqueue_find hj
  | updateStall hupdate _ =>
    obtain ⟨-, -, -, rfl⟩ := Scheduler.updateStall_eq_some.1 hupdate
    exact Scheduler.find_modify_of_ne _ hj
  | «continue» hcontinue _ =>
    obtain ⟨-, -, -, rfl⟩ := Scheduler.continueLists_moves hcontinue
    exact Scheduler.find_modify_of_ne _ hj

theorem Begins.unfinished {m₁ : GeMachine} (h : Begins m a m₁ id startAddress stallAddress)
    (hinv : m.scheduler.Inv) (hlist : m.scheduler.find id = some list) : ¬ list.state.Finished := by
  cases h with
  | enqueue =>
    rw [hinv.fresh _ le_rfl] at hlist
    cases hlist
  | updateStall hupdate _ =>
    obtain ⟨old, hold, hf, -⟩ := Scheduler.updateStall_eq_some.1 hupdate
    rwa [Option.some.inj (hlist.symm.trans hold)]
  | «continue» hcontinue _ =>
    obtain ⟨-, ⟨old, hold, hpaused⟩, -, -⟩ := Scheduler.continueLists_moves hcontinue
    rw [Option.some.inj (hlist.symm.trans hold), hpaused]
    simp [ListState.Finished]

/-- A finished list is not touched. -/
theorem call_finished (hinv : m.scheduler.Inv) (a : GeAction) {j : Int} (hlist : m.scheduler.find j = some list)
    (hf : list.state.Finished) : (m.call a).2.scheduler.find j = some list := by
  rcases call_cases (m := m) a with ⟨heq, -⟩ | ⟨mode, heq, -⟩ | ⟨m₁, id, _, _, _, hbegins, heq⟩
  · rwa [heq]
  · exact heq ▸ (hinv.breakLists_moves mode).finished hlist hf
  · have hj : j ≠ id := by
      rintro rfl
      exact hbegins.unfinished hinv hlist hf
    obtain ⟨running, hrunning⟩ := hbegins.find hinv
    rw [heq, (executeGeList_ran hrunning).others j hj, hbegins.others hj, hlist]

end GeMachine

/-- From a fresh scheduler on, whatever the guest calls in whatever order: the queue has no duplicates and
holds the lists that are not completed, cancelled or failed, and those that are never change again. -/
theorem scheduler_queue_exact (m m₁ m₂ : GeMachine) (actions later : List GeAction) (hstart : m.scheduler = {})
    (hrun : run GeMachine.step m actions = some m₁) (hlater : run GeMachine.step m₁ later = some m₂) :
    m₁.scheduler.queue.Nodup ∧
      (∀ id, id ∈ m₁.scheduler.queue ↔ ∃ list ∈ m₁.scheduler.find id, ¬ list.state.Finished) ∧
      ∀ id list, m₁.scheduler.find id = some list → list.state.Finished → m₂.scheduler.find id = some list := by
  have hinv : m₁.scheduler.Inv := GeMachine.Reachable.inv ⟨m, actions, hstart, hrun⟩
  refine ⟨hinv.nodup, hinv.mem_iff, fun id list hlist hf => ?_⟩
  refine (run_invariant (P := fun m => m.scheduler.Inv ∧ m.scheduler.find id = some list) ?_ ⟨hinv, hlist⟩ hlater).2
  rintro m a _ ⟨h, hlist⟩ ⟨⟩
  exact ⟨GeMachine.call_inv h a, GeMachine.call_finished h a hlist hf⟩

/-- Memory that holds a NOP and the END of a list. -/
def nopList : GeMachine := { memory := { memory := ⟨some (wordBytes [0, 0x0c000000]), 8⟩ } }

/-- A list that fails and one that runs to its end behind one that is stalled. -/
theorem scheduler_queue_exact_mixed :
    let actions : List GeAction := [.enqueue 0 4 0 false, .enqueue 8 0 0 false, .enqueue 0 0 0 true]
    let later : List GeAction := [.break 1, .updateStall 3 0, .continue]
    ∃ m₁ m₂, run GeMachine.step nopList actions = some m₁ ∧ run GeMachine.step m₁ later = some m₂ ∧
      m₁.scheduler.queue = [1] ∧
      m₁.scheduler.queue.Nodup ∧
      (∀ id, id ∈ m₁.scheduler.queue ↔ ∃ list ∈ m₁.scheduler.find id, ¬ list.state.Finished) ∧
      ∀ id list, m₁.scheduler.find id = some list → list.state.Finished → m₂.scheduler.find id = some list := by
  intro actions later
  exact ⟨_, _, rfl, rfl, by decide, scheduler_queue_exact nopList _ _ actions later rfl rfl rfl⟩

end Psprism
