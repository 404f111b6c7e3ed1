import Psprism.Vpl

/-!
# Waiting for a variable pool (`sceKernelAllocateVpl.cpp`, `sceKernelFreeVpl.cpp`)

A thread whose `sceKernelAllocateVpl` finds no block sleeps on the pool's condition variable;
`sceKernelFreeVpl` wakes one sleeper, which tries again when it gets to run and may go back to sleep. A
stub holds the guest execution lock, so an attempt, or a free with its `notify_one`, is one action.

The woken thread does not pass the notification on. A sleeper that its attempt leaves room for is then
forgotten, and this is the only way to forget one.
-/

namespace Psprism
open Interleaving

/-- A pool with the threads that are inside `sceKernelAllocateVpl`, and what each of them asks for. -/
structure VplWait (T : Type) where
  pool : VariablePool
  sleeping : List (T × Word) := []
  notified : List (T × Word) := []

inductive VplWaitAction (T : Type)
  | tryAllocate (t : T) (size : Word)
  | allocate (t : T) (size : Word)
  /-- With the thread that `notify_one` wakes. -/
  | free (t : T) (address : Word) (woken : Option T)
  /-- A notified thread runs. -/
  | resume (t : T)

namespace VplWait
variable {T : Type} [DecidableEq T]

def Blocked (s : VplWait T) (t : T) : Prop := t ∈ (s.sleeping ++ s.notified).map Prod.fst

instance (s : VplWait T) (t : T) : Decidable (s.Blocked t) := inferInstanceAs (Decidable (t ∈ _))

/-- An attempt of `t`, which sleeps when it fails. -/
def attempt (s : VplWait T) (t : T) (requested : Word) : VplWait T :=
  let (address, pool) := s.pool.allocate requested
  if address = 0 then { s with pool, sleeping := (t, requested) :: s.sleeping } else { s with pool }

def notifyOne (s : VplWait T) : Option T → Option (VplWait T)
  | none => if s.sleeping = [] then some s else none
  | some w => (s.sleeping.find? (·.1 = w)).map fun entry =>
      { s with sleeping := s.sleeping.eraseP (·.1 = w), notified := entry :: s.notified }

def step (s : VplWait T) : VplWaitAction T → Option (VplWait T)
  | .tryAllocate t size =>
    if s.Blocked t then none else some { s with pool := (s.pool.allocate (alignUp size 8)).2 }
  | .allocate t size => if s.Blocked t then none else some (s.attempt t (alignUp size 8))
  | .free t address woken =>
    if s.Blocked t then none
    else
      match s.pool.free address with
      | none => if woken = none then some s else none
      | some pool => notifyOne { s with pool } woken
  | .resume t =>
    match s.notified.find? (·.1 = t) with
    | none => none
    | some (_, requested) => some (attempt { s with notified := s.notified.eraseP (·.1 = t) } t requested)

def Unserved (available : List MemoryBlock) (entry : T × Word) : Prop := ∀ b ∈ available, b.size < entry.2

/-- No wake-up is lost: with no notified thread still to run, no sleeper could be served. -/
def Quiet (s : VplWait T) : Prop := s.notified = [] → ∀ entry ∈ s.sleeping, Unserved s.pool.available entry

/-- Once `requested` is cut from the first block that is large enough, no block has `other`. -/
def Exhausts (requested other : Word) : List MemoryBlock → Prop
  | [] => True
  | block :: rest =>
    if block.size < requested then block.size < other ∧ Exhausts requested other rest
    else (block.size = requested ∨ block.size - requested < other) ∧ ∀ b ∈ rest, b.size < other

instance (requested other : Word) : ∀ blocks, Decidable (Exhausts requested other blocks)
  | [] => .isTrue trivial
  | block :: rest =>
    have := instDecidableExhausts requested other rest
    inferInstanceAs (Decidable (if block.size < requested then _ else _))

/-- The last notified thread to run leaves no room for a sleeper. -/
def LeavesNone (s : VplWait T) : VplWaitAction T → Prop
  | .resume _ => ∀ last ∈ s.notified.head?, s.notified.tail = [] →
      ∀ entry ∈ s.sleeping, Exhausts last.2 entry.2 s.pool.available
  | _ => True

instance (s : VplWait T) : ∀ a, Decidable (s.LeavesNone a)
  | .tryAllocate _ _ | .allocate _ _ | .free _ _ _ => .isTrue trivial
  | .resume _ =>
    have (last : T × Word) : Decidable (∀ entry ∈ s.sleeping, Exhausts last.2 entry.2 s.pool.available) :=
      List.decidableBAll _ _
    have := decidable_of_iff (s.notified.tail.isEmpty = true) List.isEmpty_iff
    inferInstanceAs (Decidable (∀ last ∈ s.notified.head?, s.notified.tail = [] → _))

end VplWait

/-! ### Attempts -/

theorem takeFront_le {requested address : Word} {blocks blocks' : List MemoryBlock}
    (h : takeFront requested blocks = some (address, blocks')) {b : MemoryBlock} (hb : b ∈ blocks') :
    ∃ c ∈ blocks, b.size ≤ c.size := by
  obtain ⟨pre, i, post, rfl, -, hi, rfl, rfl⟩ := takeFront_cases h
  rcases List.mem_append.1 hb with hb | hb
  · exact ⟨b, by simp [hb], BitVec.le_refl _⟩
  rcases List.mem_append.1 hb with hb | hb
  · refine ⟨i, by simp, ?_⟩
    unfold MemoryBlock.dropFront at hb
    split_ifs at hb
    · simp at hb
    · rw [List.mem_singleton.1 hb]
      rw [BitVec.lt_def, not_lt] at hi
      rw [BitVec.le_def, BitVec.toNat_sub]
      omega
  · exact ⟨b, by simp [hb], BitVec.le_refl _⟩

namespace VplWait

theorem exhausts_iff {requested other : Word} {blocks : List MemoryBlock} :
    Exhausts requested other blocks ↔
      ∀ b ∈ ((takeFront requested blocks).map Prod.snd).getD blocks, b.size < other := by
  induction blocks with
  | nil => simp [Exhausts, takeFront]
  | cons block rest ih =>
    rw [Exhausts, takeFront]
    split_ifs with hlt
    · rw [ih]
      cases takeFront requested rest <;> simp
    · have hzero : block.size - requested = 0 ↔ block.size = requested := sub_eq_zero
      dsimp only
      split_ifs with hsize
      · simp [hzero.1 hsize]
      · simp [mt hzero.2 hsize]

theorem unserved_of_none {requested : Word} {blocks : List MemoryBlock} (t : T)
    (h : takeFront requested blocks = none) : Unserved blocks (t, requested) := takeFront_eq_none.1 h

end VplWait

/-! ### Where blocks lie -/

/-- The blocks lie in the region, also those of no size. -/
structure VariablePool.Inside (pool : VariablePool) : Prop where
  address : pool.backing.address ≠ 0
  bounded : pool.backing.Bounded
  blocks : ∀ b ∈ pool.available ++ pool.allocated, pool.backing.address.toNat ≤ b.address.toNat ∧
    b.address.toNat + b.size.toNat ≤ pool.backing.address.toNat + pool.backing.size.toNat

namespace VariablePool.Inside
variable {pool : VariablePool}

theorem address_ne_zero (h : pool.Inside) {b : MemoryBlock} (hb : b ∈ pool.available) : b.address ≠ 0 := by
  intro hzero
  have hlo := (h.blocks b (List.mem_append_left _ hb)).1
  rw [hzero] at hlo
  exact h.address (BitVec.eq_of_toNat_eq (Nat.le_zero.1 hlo))

theorem allocate (h : pool.Inside) (requested : Word) : (pool.allocate requested).2.Inside := by
  have hbounded : pool.backing.address.toNat + pool.backing.size.toNat < 2 ^ 32 := h.bounded
  unfold VariablePool.allocate
  cases htake : takeFront requested pool.available with
  | none => exact h
  | some taken =>
    obtain ⟨address, available'⟩ := taken
    obtain ⟨pre, i, post, hblocks, -, hi, rfl, rfl⟩ := takeFront_cases htake
    rw [BitVec.lt_def, not_lt] at hi
    have hmem : ∀ b, b ∈ pre ∨ b ∈ post ∨ b ∈ pool.allocated → b ∈ pool.available ++ pool.allocated := by
      intro b hb
      rw [hblocks]
      simp only [List.mem_append, List.mem_cons]
      tauto
    have hiin := h.blocks i (by rw [hblocks]; simp)
    refine ⟨h.address, h.bounded, fun b hb => ?_⟩
    rcases List.mem_append.1 hb with hb | hb
    · rcases List.mem_append.1 hb with hb | hb
      · exact h.blocks b (hmem b (.inl hb))
      rcases List.mem_append.1 hb with hb | hb
      · obtain ⟨-, haddress, hsize⟩ := MemoryBlock.dropFront_mem (by show _ < _; omega) hi hb
        dsimp only
        omega
      · exact h.blocks b (hmem b (.inr (.inl hb)))
    · dsimp only at hb
      split_ifs at hb
      · exact h.blocks b (hmem b (.inr (.inr hb)))
      rcases List.mem_cons.1 hb with rfl | hb
      · dsimp only
        omega
      · exact h.blocks b (hmem b (.inr (.inr hb)))

theorem free (h : pool.Inside) {address : Word} {pool' : VariablePool} (hfree : pool.free address = some pool') :
    pool'.Inside := by
  have hbounded : pool.backing.address.toNat + pool.backing.size.toNat < 2 ^ 32 := h.bounded
  obtain ⟨block, hfind, rfl⟩ := Option.map_eq_some_iff.1 hfree
  have hmem := List.mem_of_find?_eq_some hfind
  refine ⟨h.address, h.bounded, fun b hb => ?_⟩
  rcases List.mem_append.1 hb with hb | hb
  · refine putBack_forall (Q := fun b => pool.backing.address.toNat ≤ b.address.toNat ∧
      b.address.toNat + b.size.toNat ≤ pool.backing.address.toNat + pool.backing.size.toNat) ?_ ?_ b hb
    · intro previous current hp hc hadjacent
      have haddress := congrArg BitVec.toNat hadjacent
      rw [BitVec.toNat_add] at haddress
      have hsize := BitVec.toNat_add previous.size current.size
      dsimp only
      omega
    · exact List.forall_mem_cons.2 ⟨h.blocks block (List.mem_append_right _ hmem),
        fun b hb => h.blocks b (List.mem_append_left _ hb)⟩
  · exact h.blocks b (List.mem_append_right _ (List.mem_of_mem_eraseP hb))

theorem allocate_cases (h : pool.Inside) (requested : Word) :
    (takeFront requested pool.available = none ∧ pool.allocate requested = (0, pool)) ∨
      ∃ address available', takeFront requested pool.available = some (address, available') ∧
        (pool.allocate requested).1 ≠ 0 ∧ (pool.allocate requested).2.available = available' := by
  unfold VariablePool.allocate
  cases htake : takeFront requested pool.available with
  | none => exact .inl ⟨rfl, rfl⟩
  | some taken =>
    obtain ⟨address, available'⟩ := taken
    obtain ⟨pre, i, post, hblocks, -, -, rfl, -⟩ := takeFront_cases htake
    exact .inr ⟨i.address, available', rfl, h.address_ne_zero (by rw [hblocks]; simp), rfl⟩

end VariablePool.Inside

/-! ### Runs -/

namespace VplWait
variable {T : Type} {s s' : VplWait T}

theorem Unserved.allocate (h : s.pool.Inside) {entry : T × Word} (hentry : Unserved s.pool.available entry)
    (requested : Word) : Unserved (s.pool.allocate requested).2.available entry := by
  rcases h.allocate_cases requested with ⟨-, heq⟩ | ⟨address, available', htake, -, heq⟩
  · rw [heq]
    exact hentry
  · intro b hb
    rw [heq] at hb
    obtain ⟨c, hc, hle⟩ := takeFront_le htake hb
    have hlt := hentry c hc
    rw [BitVec.lt_def] at hlt ⊢
    rw [BitVec.le_def] at hle
    omega

theorem attempt_cases (h : s.pool.Inside) (t : T) (requested : Word) :
    (takeFront requested s.pool.available = none ∧
      s.attempt t requested = { s with sleeping := (t, requested) :: s.sleeping }) ∨
    (∃ address available', takeFront requested s.pool.available = some (address, available') ∧
      (s.pool.allocate requested).2.available = available' ∧
      s.attempt t requested = { s with pool := (s.pool.allocate requested).2 }) := by
  unfold attempt
  rcases h.allocate_cases requested with ⟨htake, heq⟩ | ⟨address, available', htake, hne, heq⟩
  · rw [heq]
    exact .inl ⟨htake, if_pos rfl⟩
  · exact .inr ⟨address, available', htake, heq, if_neg hne⟩

theorem attempt_inside (h : s.pool.Inside) (t : T) (requested : Word) : (s.attempt t requested).pool.Inside := by
  rcases attempt_cases h t requested with ⟨-, heq⟩ | ⟨address, available', -, -, heq⟩
  · rw [heq]
    exact h
  · rw [heq]
    exact h.allocate requested

/-- A resumed thread that leaves no notified one: quiet then, exactly when it leaves no room. -/
theorem resume_quiet_iff (h : s.pool.Inside) {t : T} {requested : Word}
    (hs' : s' = attempt { s with notified := [] } t requested) :
    Quiet s' ↔ ∀ entry ∈ s.sleeping, Exhausts requested entry.2 s.pool.available := by
  have hentry : ∀ entry : T × Word, Exhausts requested entry.2 s.pool.available ↔
      Unserved (((takeFront requested s.pool.available).map Prod.snd).getD s.pool.available) entry :=
    fun entry => exhausts_iff
  rcases attempt_cases (s := { s with notified := [] }) h t requested with
    ⟨htake, heq⟩ | ⟨address, available', htake, havailable, heq⟩
  · rw [heq] at hs'
    subst hs'
    have hself : Unserved s.pool.available (t, requested) := unserved_of_none t htake
    simp only [hentry, show takeFront requested s.pool.available = none from htake, Option.map_none,
      Option.getD_none]
    constructor
    · intro hquiet entry hmem
      exact hquiet rfl entry (List.mem_cons_of_mem _ hmem)
    · intro hall _
      exact List.forall_mem_cons.2 ⟨hself, hall⟩
  · rw [heq] at hs'
    subst hs'
    simp only [hentry, show takeFront requested s.pool.available = _ from htake, Option.map_some,
      Option.getD_some]
    unfold Quiet
    rw [show (s.pool.allocate requested).2.available = available' from havailable]
    exact ⟨fun hquiet => hquiet rfl, fun hall _ => hall⟩

variable [DecidableEq T]

theorem step_cases {a : VplWaitAction T} (hstep : s.step a = some s') :
    (∃ t size, a = .tryAllocate t size ∧ s' = { s with pool := (s.pool.allocate (alignUp size 8)).2 }) ∨
    (∃ t size, a = .allocate t size ∧ s' = s.attempt t (alignUp size 8)) ∨
    (∃ t address woken, a = .free t address woken ∧
      (s' = s ∨ ∃ pool, s.pool.free address = some pool ∧
        ((s.sleeping = [] ∧ s' = { s with pool }) ∨
          ∃ entry sleeping, s' = { pool, sleeping, notified := entry :: s.notified }))) ∨
    (∃ t requested, a = .resume t ∧ s.notified.find? (·.1 = t) = some (t, requested) ∧
      s' = attempt { s with notified := s.notified.eraseP (·.1 = t) } t requested) := by
  cases a with
  | tryAllocate t size =>
    obtain ⟨-, ⟨⟩⟩ := Option.ite_none_left_eq_some.1 hstep
    exact .inl ⟨t, size, rfl, rfl⟩
  | allocate t size =>
    obtain ⟨-, ⟨⟩⟩ := Option.ite_none_left_eq_some.1 hstep
    exact .inr (.inl ⟨t, size, rfl, rfl⟩)
  | free t address woken =>
    refine .inr (.inr (.inl ⟨t, address, woken, rfl, ?_⟩))
    obtain ⟨-, hstep⟩ := Option.ite_none_left_eq_some.1 hstep
    cases hfree : s.pool.free address with
    | none =>
      simp only [hfree] at hstep
      obtain ⟨-, ⟨⟩⟩ := Option.ite_none_right_eq_some.1 hstep
      exact .inl rfl
    | some pool =>
      simp only [hfree] at hstep
      refine .inr ⟨pool, rfl, ?_⟩
      cases woken with
      | none =>
        obtain ⟨hnil, ⟨⟩⟩ := Option.ite_none_right_eq_some.1 hstep
        exact .inl ⟨hnil, rfl⟩
      | some w =>
        obtain ⟨entry, -, rfl⟩ := Option.map_eq_some_iff.1 hstep
        exact .inr ⟨entry, _, rfl⟩
  | resume t =>
    refine .inr (.inr (.inr ⟨t, ?_⟩))
    simp only [step] at hstep
    cases hfind : s.notified.find? (·.1 = t) with
    | none =>
      rw [hfind] at hstep
      cases hstep
    | some entry =>
      have ht : entry.1 = t := by simpa using List.find?_some hfind
      obtain ⟨u, requested⟩ := entry
      obtain rfl : u = t := ht
      rw [hfind] at hstep
      exact ⟨requested, rfl, rfl, (Option.some.inj hstep).symm⟩

theorem step_inside (h : s.pool.Inside) {a : VplWaitAction T} (hstep : s.step a = some s') :
    s'.pool.Inside := by
  rcases step_cases hstep with ⟨t, size, -, rfl⟩ | ⟨t, size, -, rfl⟩ | ⟨t, address, woken, -, hfree⟩ |
    ⟨t, requested, -, -, rfl⟩
  · exact h.allocate _
  · exact attempt_inside h t _
  · rcases hfree with rfl | ⟨pool, hpool, ⟨-, rfl⟩ | ⟨entry, sleeping, rfl⟩⟩
    · exact h
    · exact h.free hpool
    · exact h.free hpool
  · exact attempt_inside (s := { s with notified := s.notified.eraseP (·.1 = t) }) h t requested

theorem eraseP_eq_nil {t : T} {requested : Word} (hfind : s.notified.find? (·.1 = t) = some (t, requested)) :
    s.notified.eraseP (·.1 = t) = [] ↔ s.notified = [(t, requested)] := by
  have hperm := perm_of_find? hfind
  constructor
  · intro hnil
    rw [hnil] at hperm
    exact List.perm_singleton.1 hperm
  · intro hsingle
    rw [hsingle, List.eraseP_cons_of_pos (by simp)]

theorem step_quiet (h : s.pool.Inside) (hquiet : s.Quiet) {a : VplWaitAction T} (ha : s.LeavesNone a)
    (hstep : s.step a = some s') : s'.Quiet := by
  rcases step_cases hstep with ⟨t, size, -, rfl⟩ | ⟨t, size, -, rfl⟩ | ⟨t, address, woken, -, hfree⟩ |
    ⟨t, requested, rfl, hfind, rfl⟩
  · intro hnil entry hmem
    exact Unserved.allocate h (hquiet hnil entry hmem) _
  · rcases attempt_cases h t (alignUp size 8) with ⟨htake, heq⟩ | ⟨address, available', -, -, heq⟩
    · rw [heq]
      intro hnil
      exact List.forall_mem_cons.2 ⟨unserved_of_none t htake, hquiet hnil⟩
    · rw [heq]
      intro hnil entry hmem
      exact Unserved.allocate h (hquiet hnil entry hmem) _
  · rcases hfree with rfl | ⟨pool, -, ⟨hnil, rfl⟩ | ⟨entry, sleeping, rfl⟩⟩
    · exact hquiet
    · intro _ entry hmem
      rw [show s.sleeping = [] from hnil] at hmem
      cases hmem
    · intro hnil
      cases hnil
  · by_cases hlast : s.notified = [(t, requested)]
    · rw [(eraseP_eq_nil hfind).2 hlast]
      exact (resume_quiet_iff h rfl).2 (ha (t, requested) (by rw [hlast]; rfl) (by rw [hlast]; rfl))
    · intro hnil
      refine absurd ((eraseP_eq_nil hfind).1 ?_) hlast
      rcases attempt_cases (s := { s with notified := s.notified.eraseP (·.1 = t) }) h t requested with
        ⟨-, heq⟩ | ⟨address, available', -, -, heq⟩
      · rwa [heq] at hnil
      · rwa [heq] at hnil

theorem leavesNone_of_quiet (h : s.pool.Inside) {a : VplWaitAction T} (hstep : s.step a = some s')
    (hquiet : s'.Quiet) : s.LeavesNone a := by
  rcases step_cases hstep with ⟨t, size, rfl, -⟩ | ⟨t, size, rfl, -⟩ | ⟨t, address, woken, rfl, -⟩ |
    ⟨t, requested, rfl, hfind, rfl⟩
  · trivial
  · trivial
  · trivial
  · intro last hhead htail
    have hlast : s.notified = [last] := by rw [← List.cons_head?_tail hhead, htail]
    have hmem := List.mem_of_find?_eq_some hfind
    obtain rfl : (t, requested) = last := by simpa [hlast] using hmem
    exact (resume_quiet_iff h (by rw [(eraseP_eq_nil hfind).2 hlast])).1 hquiet

end VplWait

/-- A pool fresh from `sceKernelCreateVpl`. -/
theorem createVpl_inside {m : ConfiguredMemory} {memory : HeapRun} (h : memory.Inv m) {size : Word} {uid : Int}
    {p : PoolRun} (hcreate : (VplRun.sceKernelCreateVpl { memory } size).1.pools = [(uid, p)]) :
    p.pool.Inside := by
  have hstart : VplRun.Inv m { memory } := ⟨h, ⟨memory.live, rfl⟩, .nil, by simp, by simp⟩
  have hp : p.Inv := (hstart.create size).pools (uid, p) (by rw [hcreate]; simp)
  refine ⟨hp.address, hp.bounded, fun b hb => ?_⟩
  obtain ⟨hlo, hhi, -, -⟩ := hp.within hb
  exact ⟨hlo, hhi⟩

/-- Every state of a run on a created pool is quiet exactly when, in each of its steps, the last notified
thread leaves no room for a sleeper. -/
theorem vplWait_quiet_iff {T : Type} [DecidableEq T] (m : ConfiguredMemory) (heapCalls : List HeapCall)
    (memory : HeapRun) (hmemory : run HeapRun.step { heap := m.heap } heapCalls = some memory) (size : Word)
    (uid : Int) (p : PoolRun) (hcreate : (VplRun.sceKernelCreateVpl { memory } size).1.pools = [(uid, p)])
    (actions : List (VplWaitAction T)) (s : VplWait T)
    (hrun : run VplWait.step { pool := p.pool } actions = some s) :
    (∀ pre t, pre <+: actions → run VplWait.step { pool := p.pool } pre = some t → VplWait.Quiet t) ↔
      Guarded VplWait.step VplWait.LeavesNone { pool := p.pool } actions := by
  have hinv : memory.Inv m := run_invariant (fun _ _ _ h hstep => h.step hstep) m.heap_inv hmemory
  have hinside : p.pool.Inside := createVpl_inside hinv hcreate
  refine run_prefixes_iff (I := fun s => s.pool.Inside) (fun _ _ _ h hstep => VplWait.step_inside h hstep)
    (fun s a s' h hquiet hstep => ?_) hinside (by simp [VplWait.Quiet]) hrun
  exact ⟨VplWait.leavesNone_of_quiet h hstep, fun ha => VplWait.step_quiet h hquiet ha hstep⟩

/-- The pool of 32 bytes that the runs below begin with. -/
def VplWait.start : VplWait Nat :=
  { pool := { backing := ⟨0x08800000, 32⟩, available := [⟨0x08800000, 32⟩] } }

theorem VplWait.start_created :
    ∃ uid p, (VplRun.sceKernelCreateVpl { memory := { heap := userMemory.heap } } 32).1.pools = [(uid, p)] ∧
      VplWait.start = { pool := p.pool } := ⟨_, _, rfl, rfl⟩

/-- One sleeper, who takes the freed block when it runs. -/
theorem vplWait_quiet_iff_start :
    let actions : List (VplWaitAction Nat) :=
      [.tryAllocate 1 32, .allocate 2 8, .free 1 0x08800000 (some 2), .resume 2]
    ∀ pre t, pre <+: actions → run VplWait.step VplWait.start pre = some t → VplWait.Quiet t := by
  intro actions
  obtain ⟨uid, p, hcreate, hstart⟩ := VplWait.start_created
  obtain ⟨s, hrun⟩ : ∃ s, run VplWait.step VplWait.start actions = some s := ⟨_, rfl⟩
  have hguarded : Guarded VplWait.step VplWait.LeavesNone VplWait.start actions := by decide
  rw [hstart] at hrun hguarded ⊢
  exact (vplWait_quiet_iff userMemory [] _ rfl 32 uid p hcreate actions s hrun).2 hguarded

/-- Of a sleeper for 16 and one for 8 the first is woken when 8 are freed: it sleeps again, and the other
one stays asleep beside a block of 8. -/
theorem vplWait_lost :
    ∃ s, run VplWait.step VplWait.start [.tryAllocate 1 8, .tryAllocate 1 24, .allocate 2 16, .allocate 3 8,
        .free 1 0x08800000 (some 2), .resume 2] = some s ∧ ¬ s.Quiet := by
  refine ⟨_, rfl, fun hquiet => ?_⟩
  exact absurd (hquiet rfl (3, 8) (by decide) ⟨0x08800000, 8⟩ (by decide)) (by decide)

end Psprism
