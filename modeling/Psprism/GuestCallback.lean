import Psprism.ThreadStart

/-!
# Callbacks into the guest (`dispatch_guest_callback` of `runtime.cpp`)

A callback runs from a copy of the state that it interrupts, on a stack of its own from the heap, which it gives back
when it stops, whatever the reason. Interrupts, alarms and display lists of several threads call back at the same
time and within callbacks, and between its slices a callback lets other threads run; all of these use the kernel.

However callbacks, threads and heap calls interleave, the stack of a callback is apart from the image, from all
other blocks and from the stack and the thread-local storage of every thread (`callback_apart`).
-/

namespace Psprism
open Interleaving

def callbackStackSize : Word := 0x4000

/-- The state that a callback runs from; `s` is the interrupted one. -/
def callbackState (s : State) (entry first second third : Word) (gpOverride : Option Word) (stack : Word) : State :=
  { s with
    pc := entry
    gpr r :=
      if r = 4 then first else if r = 5 then second else if r = 6 then third
      else if r = 28 then gpOverride.getD (s.gpr 28)
      else if r = 29 then stack + callbackStackSize - 64
      else if r = 31 then 0xfffffff0 else 0
    branchPending := false
    stopReason := .running
    faultAddress := 0
    faultInstruction := 0
    faultPc := 0 }

/-- The stack for a callback; zero when there is no room. -/
def HeapRun.takeCallbackStack (r : HeapRun) : Word × HeapRun :=
  let (stack, heap) := r.heap.allocateHeap callbackStackSize 64
  (stack, { r with heap, live := if stack = 0 then r.live else ⟨stack, callbackStackSize⟩ :: r.live })

/-- The threads, and the stacks of the callbacks under way. -/
structure DispatchRun where
  threads : ThreadRun
  callbacks : List MemoryBlock := []

inductive DispatchCall
  /-- `dispatch_guest_callback` up to the guest executor. -/
  | dispatch (entry : Word)
  /-- The rest of it, for the callback on this stack. -/
  | finish (stack : MemoryBlock)
  /-- Everything else. -/
  | other (call : ThreadCall)

namespace DispatchRun

/-- Nothing happens when there is nothing to call. -/
def dispatch (r : DispatchRun) (entry : Word) : DispatchRun :=
  if entry = 0 ∨ ¬ r.threads.guestExecutor then r
  else
    let (stack, memory) := r.threads.memory.takeCallbackStack
    { threads := { r.threads with memory }
      callbacks := if stack = 0 then r.callbacks else ⟨stack, callbackStackSize⟩ :: r.callbacks }

def FreesCallback (r : DispatchRun) : ThreadCall → Prop
  | .heap (.freeHeap block) => block ∈ r.callbacks
  | _ => False

instance (r : DispatchRun) : DecidablePred r.FreesCallback
  | .heap (.freeHeap block) => inferInstanceAs (Decidable (block ∈ r.callbacks))
  | .heap (.allocateHeap _ _) | .heap (.allocateStack _) => .isFalse id
  | .createThread _ | .deleteThread _ | .startThread _ | .joinThread _ => .isFalse id

/-- A callback gives back its own stack, and nobody else does. -/
def step (r : DispatchRun) : DispatchCall → Option DispatchRun
  | .dispatch entry => some (r.dispatch entry)
  | .finish stack =>
    if stack ∈ r.callbacks then
      (r.threads.step (.heap (.freeHeap stack))).map fun threads => ⟨threads, r.callbacks.erase stack⟩
    else none
  | .other call =>
    if r.FreesCallback call then none else (r.threads.step call).map fun threads => { r with threads }

/-- No thread is made with a stack size that wraps. -/
def NoWrap (r : DispatchRun) : DispatchCall → Prop
  | .other call => r.threads.NoWrap call
  | .dispatch _ | .finish _ => True

instance (r : DispatchRun) : DecidablePred r.NoWrap
  | .other call => inferInstanceAs (Decidable (r.threads.NoWrap call))
  | .dispatch _ | .finish _ => .isTrue trivial

/-- The stack of a callback shares no byte with what `r` holds besides it; `others` are those of the other
callbacks. -/
structure StackApart (m : PlacedMemory) (r : DispatchRun) (stack : MemoryBlock) (others : List MemoryBlock) :
    Prop where
  inside : stack.range ⊆ m.range
  image : Disjoint stack.range m.image
  callbacks : ∀ block ∈ others, Disjoint stack.range block.range
  live : ∀ block ∈ r.threads.memory.live.erase stack, Disjoint stack.range block.range
  free : ∀ block ∈ r.threads.memory.heap.freeHeapBlocks, Disjoint stack.range block.range
  threads : ∀ t ∈ r.threads.threads, Disjoint stack.range t.stack ∧ Disjoint stack.range t.tls.range

/-- Where the stack pointer of a callback is on its stack. -/
def Fits (stack : MemoryBlock) (s : State) : Prop :=
  stack.address.toNat ≤ (s.gpr 29).toNat ∧ (s.gpr 29).toNat + 64 = stack.address.toNat + stack.size.toNat

end DispatchRun

theorem HeapRun.step_takeCallbackStack (r : HeapRun) :
    r.step (.allocateHeap callbackStackSize 64) = some r.takeCallbackStack.2 := by
  unfold HeapRun.step
  dsimp only
  rw [if_pos isAlignment_sixtyFour]
  rfl

/-- What is live is apart from everything else. -/
theorem HeapRun.Inv.held {m : ConfiguredMemory} {r : HeapRun} (h : r.Inv m) {block : MemoryBlock}
    (hmem : block ∈ r.live) :
    block.range ⊆ m.range ∧ Disjoint block.range m.image ∧
      (∀ b ∈ r.live.erase block, Disjoint block.range b.range) ∧
      (∀ b ∈ r.heap.freeHeapBlocks, Disjoint block.range b.range) ∧
      ∀ b ∈ r.reserved, Disjoint block.range b.range := by
  have hperm : (r.regions m).Perm (block.range :: m.image :: r.heap.middle ::
      (r.live.erase block ++ r.heap.freeHeapBlocks ++ r.reserved).map MemoryBlock.range) := by
    refine perm_of_count fun a => ?_
    have herase := ((List.perm_cons_erase hmem).map MemoryBlock.range).count_eq a
    simp only [HeapRun.regions, List.map_append, List.map_cons, List.count_cons, List.count_append] at herase ⊢
    omega
  obtain ⟨hinside, hdisjoint, -⟩ := Packed.cons_iff.1 (h.packed.perm hperm)
  have hblock : ∀ b ∈ r.live.erase block ++ r.heap.freeHeapBlocks ++ r.reserved, Disjoint block.range b.range :=
    fun b hb => hdisjoint _ (List.mem_cons_of_mem _ (List.mem_cons_of_mem _ (List.mem_map_of_mem hb)))
  exact ⟨hinside, hdisjoint _ List.mem_cons_self, fun b hb => hblock b (by simp [hb]),
    fun b hb => hblock b (by simp [hb]), fun b hb => hblock b (by simp [hb])⟩

namespace DispatchRun
variable {m : PlacedMemory} {r r' : DispatchRun}

structure Inv (m : PlacedMemory) (r : DispatchRun) : Prop where
  threads : r.threads.StacksInv m
  live : r.callbacks.Subperm r.threads.memory.live
  sized : ∀ stack ∈ r.callbacks, stack.size = callbackStackSize

theorem Inv.apart (h : r.Inv m) {stack : MemoryBlock} {others : List MemoryBlock}
    (hcallbacks : r.callbacks.Perm (stack :: others)) : r.StackApart m stack others := by
  have hsub : (stack :: others).Subperm r.threads.memory.live := hcallbacks.symm.subperm.trans h.live
  have hmem : stack ∈ r.threads.memory.live := hsub.subset List.mem_cons_self
  obtain ⟨hinside, himage, hlive, hfree, hreserved⟩ := h.threads.memory.held hmem
  have hothers : others.Subperm (r.threads.memory.live.erase stack) := by
    have herase := hsub.erase stack
    rwa [List.erase_cons_head] at herase
  refine ⟨hinside, himage, fun block hblock => hlive block (hothers.subset hblock), hlive, hfree, fun t ht => ?_⟩
  exact ⟨(hreserved _ (h.threads.cut t ht)).mono_right (h.threads.within t ht), hreserved _ (h.threads.tls t ht)⟩

/-- What a call does to the live blocks. -/
theorem live_step {threads threads' : ThreadRun} {call : ThreadCall} (hstep : threads.step call = some threads') :
    threads.memory.live.Sublist threads'.memory.live ∨
      ∃ block, call = .heap (.freeHeap block) ∧ threads'.memory.live = threads.memory.live.erase block := by
  cases call with
  | createThread stackSize =>
    obtain rfl := Option.some.inj hstep
    rcases threads.create_cases stackSize with ⟨-, heq⟩ | ⟨-, heq⟩
    · rw [heq]
      exact .inl (.refl _)
    · rw [heq]
      exact .inl (.refl _)
  | deleteThread uid =>
    obtain rfl := Option.some.inj hstep
    rw [(threads.deleteThread_spec uid).1]
    exact .inl (.refl _)
  | startThread uid | joinThread uid =>
    obtain rfl := Option.some.inj hstep
    exact .inl (.refl _)
  | heap call =>
    obtain ⟨memory, hcall, rfl⟩ := Option.map_eq_some_iff.1 hstep
    cases call with
    | allocateHeap size alignment =>
      obtain ⟨-, hsome⟩ := Option.ite_none_right_eq_some.1 hcall
      obtain rfl := Option.some.inj hsome
      left
      show threads.memory.live.Sublist (if (threads.memory.heap.allocateHeap size alignment).1 = 0 then _ else _ :: _)
      split_ifs
      · exact .refl _
      · exact List.sublist_cons_self _ _
    | freeHeap block =>
      obtain ⟨-, ⟨⟩⟩ := Option.ite_none_right_eq_some.1 hcall
      exact .inr ⟨block, rfl, rfl⟩
    | allocateStack size =>
      obtain rfl := Option.some.inj hcall
      exact .inl (.refl _)

theorem Inv.dispatch (h : r.Inv m) (entry : Word) : (r.dispatch entry).Inv m := by
  unfold DispatchRun.dispatch
  split_ifs with hnone
  · exact h
  set memory := r.threads.memory.takeCallbackStack.2
  have htake : r.threads.memory.step (.allocateHeap callbackStackSize 64) = some memory :=
    r.threads.memory.step_takeCallbackStack
  have hnoWrap : r.threads.NoWrap (.heap (.allocateHeap callbackStackSize 64)) := trivial
  have hstep : r.threads.step (.heap (.allocateHeap callbackStackSize 64)) = some { r.threads with memory } := by
    unfold ThreadRun.step
    dsimp only
    rw [htake]
    rfl
  have hthreads : ThreadRun.StacksInv m { r.threads with memory } := h.threads.step hnoWrap hstep
  refine ⟨hthreads, ?_, ?_⟩
  · show List.Subperm (if r.threads.memory.takeCallbackStack.1 = 0 then _ else _ :: _)
      (if r.threads.memory.takeCallbackStack.1 = 0 then _ else _ :: _)
    split_ifs
    · exact h.live
    · exact (List.subperm_cons _).2 h.live
  · show ∀ stack ∈ (if r.threads.memory.takeCallbackStack.1 = 0 then _ else _ :: _), _
    split_ifs
    · exact h.sized
    · exact List.forall_mem_cons.2 ⟨rfl, h.sized⟩

theorem Inv.step (h : r.Inv m) {call : DispatchCall} (hcall : r.NoWrap call) (hstep : r.step call = some r') :
    r'.Inv m := by
  cases call with
  | dispatch entry =>
    obtain rfl := Option.some.inj hstep
    exact h.dispatch entry
  | finish stack =>
    obtain ⟨hmem, hstep⟩ := Option.ite_none_right_eq_some.1 hstep
    obtain ⟨threads, hthreads, rfl⟩ := Option.map_eq_some_iff.1 hstep
    have hnoWrap : r.threads.NoWrap (.heap (.freeHeap stack)) := trivial
    refine ⟨h.threads.step hnoWrap hthreads, ?_, fun block hblock => h.sized block (List.mem_of_mem_erase hblock)⟩
    obtain ⟨memory, hfree, rfl⟩ := Option.map_eq_some_iff.1 hthreads
    obtain ⟨-, ⟨⟩⟩ := Option.ite_none_right_eq_some.1 hfree
    exact h.live.erase stack
  | other call =>
    obtain ⟨hothers, hstep⟩ := Option.ite_none_left_eq_some.1 hstep
    obtain ⟨threads, hthreads, rfl⟩ := Option.map_eq_some_iff.1 hstep
    refine ⟨h.threads.step hcall hthreads, ?_, h.sized⟩
    rcases live_step hthreads with hlive | ⟨block, rfl, hlive⟩
    · exact h.live.trans hlive.subperm
    · have herase := h.live.erase block
      rw [List.erase_of_not_mem hothers] at herase
      rwa [hlive]

/-- Memory ends below 2^32, so the top of a stack does not wrap. -/
theorem fits_callbackState {stack : MemoryBlock} (hsize : stack.size = callbackStackSize)
    (hinside : stack.range ⊆ m.range) (s : State) (entry first second third : Word) (gpOverride : Option Word) :
    Fits stack (callbackState s entry first second third gpOverride stack.address) := by
  have hfits := m.fits
  have htoNat : stack.size.toNat = 0x4000 := by rw [hsize]; rfl
  obtain ⟨-, hend⟩ := (Set.Ico_subset_Ico_iff (by omega)).1 hinside
  have hsp : (stack.address + callbackStackSize - 64).toNat = stack.address.toNat + 0x4000 - 64 := by
    rw [BitVec.toNat_sub, BitVec.toNat_add, ← hsize, htoNat]
    simp
    omega
  unfold Fits
  show _ ≤ (stack.address + callbackStackSize - 64).toNat ∧ (stack.address + callbackStackSize - 64).toNat + 64 = _
  omega

end DispatchRun

/-- In every state of a run without wrapping stack sizes: the stack of a callback under way is apart from all that
others hold, and its callback, whatever it interrupts, begins at the top of it. -/
theorem callback_apart (m : PlacedMemory) (guestExecutor : Bool) (calls : List DispatchCall) (r : DispatchRun)
    (hrun : run DispatchRun.step ⟨{ memory := { heap := m.heap }, guestExecutor }, []⟩ calls = some r)
    (hcalls : Guarded DispatchRun.step DispatchRun.NoWrap ⟨{ memory := { heap := m.heap }, guestExecutor }, []⟩ calls)
    (stack : MemoryBlock) (others : List MemoryBlock) (hcallbacks : r.callbacks.Perm (stack :: others)) :
    r.StackApart m stack others ∧ ∀ s entry first second third gpOverride,
      DispatchRun.Fits stack (callbackState s entry first second third gpOverride stack.address) := by
  have h : r.Inv m := by
    refine run_guarded (fun _ _ _ h hcall hstep => DispatchRun.Inv.step h hcall hstep) ?_ hcalls hrun
    refine ⟨?_, .refl _, by simp⟩
    exact ⟨⟨m.heap_inv, le_rfl, by simp, by simp⟩, by simp, by simp, by simp, by simp, by simp, .nil⟩
  have hapart := h.apart hcallbacks
  exact ⟨hapart, DispatchRun.fits_callbackState (h.sized stack (hcallbacks.mem_iff.2 List.mem_cons_self)) hapart.inside⟩

/-- A callback within a callback, and a thread made in between. -/
theorem callback_apart_nested :
    let calls : List DispatchCall := [.dispatch 0x08804000, .other (.createThread 0x4000), .dispatch 0x08804100]
    ∃ r inner outer,
      run DispatchRun.step ⟨{ memory := { heap := placedUserMemory.heap }, guestExecutor := true }, []⟩ calls = some r ∧
      r.callbacks = [inner, outer] ∧
      r.StackApart placedUserMemory inner [outer] ∧ r.StackApart placedUserMemory outer [inner] := by
  intro calls
  obtain ⟨r, hrun⟩ : ∃ r, run DispatchRun.step
      ⟨{ memory := { heap := placedUserMemory.heap }, guestExecutor := true }, []⟩ calls = some r :=
    Option.isSome_iff_exists.1 (by decide)
  have hguarded : Guarded DispatchRun.step DispatchRun.NoWrap
      ⟨{ memory := { heap := placedUserMemory.heap }, guestExecutor := true }, []⟩ calls := by decide
  have hlength : (run DispatchRun.step ⟨{ memory := { heap := placedUserMemory.heap }, guestExecutor := true }, []⟩
      calls).map (·.callbacks.length) = some 2 := by decide
  rw [hrun] at hlength
  obtain ⟨inner, outer, hcallbacks⟩ := List.length_eq_two.1 (Option.some.inj hlength)
  refine ⟨r, inner, outer, hrun, hcallbacks, ?_, ?_⟩
  · exact (callback_apart placedUserMemory true calls r hrun hguarded inner [outer] (hcallbacks ▸ .refl _)).1
  · exact (callback_apart placedUserMemory true calls r hrun hguarded outer [inner] (hcallbacks ▸ .swap _ _ _)).1

end Psprism
