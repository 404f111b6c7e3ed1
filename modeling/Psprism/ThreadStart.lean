import Psprism.FileIo
import Psprism.PatchArguments
import Psprism.ThreadStack

/-!
# Starting a thread (`sceKernelStartThread.cpp`)

The arguments of a thread are copied to the top of its stack, where the thread finds them above its stack
pointer. Their size is rounded up to 16 and can wrap; such arguments are not mapped anywhere.

Whatever was made, deleted, started and allocated before, the copy changes no byte that anything but the stack of
the thread owns, as long as no thread was created with a stack size that wraps.
-/

namespace Psprism
open Interleaving

/-- `copied_size`. -/
def copiedSize (argumentSize : Word) : Word := (argumentSize + 15) &&& ~~~15

namespace KernelThread

/-- The state of a thread before its arguments are copied; `s` is the state of the caller. -/
def initialState (t : KernelThread) (entry : Word) (s : State) : State where
  mem := { s.mem with directMemoryAccess := false }
  pc := entry
  gpr r :=
    if r = 4 then s.gpr 5 else if r = 5 then s.gpr 6
    else if r = 26 then t.tlsAddress else if r = 27 then t.tlsAddress + 0x80
    else if r = 28 then s.gpr 28
    else if r = 29 then t.stackAddress + t.stackSize - 64
    else if r = 31 then 0xfffffff0 else 0

/-- The state with the bytes at `source` copied to its own `destination`. -/
def withArguments (thread : State) (bytes : Nat → Byte) (size : Nat) (copied : Word) (destination : Region × Nat) :
    State :=
  ({ thread with mem := Io.copyTo thread.mem destination size bytes }.setGpr 5 copied).setGpr 29 (copied - 64)

/-- The state that the thread runs from; `none` when its arguments are too large or not mapped. -/
def start (t : KernelThread) (entry : Word) (s : State) : Option State :=
  let argumentSize := s.gpr 5
  let thread := t.initialState entry s
  if argumentSize = 0 then some thread
  else if copiedSize argumentSize > t.stackSize - 64 then none
  else
    let copied := t.stackAddress + t.stackSize - copiedSize argumentSize
    (s.mem.mappedAddress (s.gpr 6) argumentSize.toNat).bind fun source =>
      (thread.mem.mappedAddress copied argumentSize.toNat).map
        (withArguments thread (fun i => s.mem.bytes source.1 (source.2 + i)) argumentSize.toNat copied)

end KernelThread

/-- The threads, the caller, and the state of the thread that is started. `entry` is that of the thread. -/
def ThreadRun.sceKernelStartThread (r : ThreadRun) (entry : Word) (s : State) : ThreadRun × State × Option State :=
  match r.threads.find? (·.uid = (s.gpr 4).toInt) with
  | none => (r, s, none)
  | some t =>
    if t.joinable then (r, s, none)
    else
      match t.start entry s with
      | none => (r, s.setGpr 2 0x8002013a, none)
      | some thread =>
        let mem := { thread.mem with directMemoryAccess := s.mem.directMemoryAccess }
        (r.setJoinable t.uid true, { s with mem }.setGpr 2 0, some thread)

/-- Guest memory as `configure` and `prepare_state_for_thread` set it up; the image ends below the alias bits. -/
structure PlacedMemory.Prepared (m : PlacedMemory) (mem : GuestMemory) : Prop where
  host : mem.memory.host.isSome = true
  base : mem.memoryBase = m.base
  size : mem.memory.size = m.size
  scratchpad : mem.scratchpad.size = 0x4000
  videoMemory : mem.videoMemory.size = 0x200000
  volatileMemory : mem.volatileMemory.size = 0x400000
  below : m.base.toNat + m.size ≤ 2 ^ 29

/-- No thread is made with a stack size that wraps. -/
def ThreadRun.NoWrap (_ : ThreadRun) : ThreadCall → Prop
  | .createThread stackSize => stackSize ≤ (0xffffffc0 : Word)
  | _ => True

instance (r : ThreadRun) : DecidablePred r.NoWrap
  | .createThread _ => inferInstanceAs (Decidable (_ ≤ _))
  | .deleteThread _ | .startThread _ | .joinThread _ | .heap _ => .isTrue trivial

/-! ### The copy -/

theorem toNat_copiedSize {n : Word} (h : n.toNat + 15 < 2 ^ 32) :
    (copiedSize n).toNat = (n.toNat + 15) / 16 * 16 := by
  have hsum := congrArg BitVec.toNat (and_not_add_and (n + 15) 15)
  have hadd : (n + 15).toNat = n.toNat + 15 := by
    rw [BitVec.toNat_add]
    exact Nat.mod_eq_of_lt h
  have hlow : ((n + 15) &&& 15).toNat = (n.toNat + 15) % 16 := by
    rw [BitVec.toNat_and, hadd]
    exact Nat.and_two_pow_sub_one_eq_mod (n.toNat + 15) 4
  have hlt : ((n + 15) &&& ~~~15).toNat ≤ (n + 15).toNat := by
    rw [BitVec.toNat_and]
    exact Nat.and_le_left
  rw [BitVec.toNat_add, hlow, hadd] at hsum
  rw [hadd] at hlt
  unfold copiedSize
  omega

namespace PlacedMemory.Prepared
variable {m : PlacedMemory} {mem : GuestMemory} {address : Word} {width : Nat} {p : Region × Nat}

/-- Nothing is larger than the image can be. -/
theorem width_le (h : m.Prepared mem) (hmap : mem.mappedAddress address width = some p) : width ≤ 2 ^ 29 := by
  obtain ⟨r, offset⟩ := p
  have hsize := (GuestMemory.mappedAddress_within hmap).size
  have hbelow := h.below
  cases r with
  | memory =>
    have := h.size
    change _ ≤ mem.memory.size at hsize
    omega
  | scratchpad =>
    have := h.scratchpad
    change _ ≤ mem.scratchpad.size at hsize
    omega
  | videoMemory =>
    have := h.videoMemory
    change _ ≤ mem.videoMemory.size at hsize
    omega
  | volatileMemory =>
    have := h.volatileMemory
    change _ ≤ mem.volatileMemory.size at hsize
    omega
  | direct =>
    rcases GuestMemory.mappedAddress_cases hmap with ⟨-, hdirect, -⟩ | ⟨-, htag, -⟩
    · cases hdirect
    · exact absurd rfl (GuestMemory.regionOfTag_ne_direct htag)

theorem mapped (h : m.Prepared mem) (hpos : 0 < width) (hlo : m.base.toNat ≤ address.toNat)
    (hhi : address.toNat + width ≤ m.base.toNat + m.size) :
    mem.mappedAddress address width = some (.memory, address.toNat - m.base.toNat) := by
  have hbelow := h.below
  have hcanon : (canonicalAddress address).toNat = address.toNat := by
    rw [Patch.toNat_canonicalAddress]
    exact Nat.mod_eq_of_lt (by omega)
  have hoffset : mem.imageOffset address = address.toNat - m.base.toNat := by
    unfold GuestMemory.imageOffset
    rw [BitVec.toNat_sub, hcanon, h.base]
    omega
  rw [GuestMemory.mappedAddress_of_inImage ⟨h.host, ?_, ?_⟩, hoffset]
  · rw [hoffset, h.size]
    omega
  · rw [hoffset, h.size]
    omega

end PlacedMemory.Prepared

/-- What a thread finds when it starts with a stack of its own: the argument block of the caller at the top of the
stack, up to the end of it in rounded size, the stack pointer 64 bytes below the block, and no byte changed outside the
stack. -/
structure KernelThread.Started (m : PlacedMemory) (t : KernelThread) (entry : Word) (s thread : State) : Prop where
  pc : thread.pc = entry
  argumentSize : thread.gpr 4 = s.gpr 5
  stackPointer : t.stackAddress.toNat ≤ (thread.gpr 29).toNat ∧
    (thread.gpr 29).toNat + 64 + (copiedSize (s.gpr 5)).toNat = t.stackAddress.toNat + t.stackSize.toNat
  top : s.gpr 5 ≠ 0 → (thread.gpr 5).toNat = (thread.gpr 29).toNat + 64 ∧
    (thread.gpr 5).toNat + (copiedSize (s.gpr 5)).toNat = t.stackAddress.toNat + t.stackSize.toNat ∧
    (copiedSize (s.gpr 5)).toNat = ((s.gpr 5).toNat + 15) / 16 * 16
  arguments : s.gpr 5 ≠ 0 → ∃ source, s.mem.mappedAddress (s.gpr 6) (s.gpr 5).toNat = some source ∧
    ∀ i < (s.gpr 5).toNat, thread.mem.bytes .memory ((thread.gpr 5).toNat - m.base.toNat + i) =
      s.mem.bytes source.1 (source.2 + i)
  frame : ∀ r i, (r = .memory → m.base.toNat + i ∉ t.stack) → thread.mem.bytes r i = s.mem.bytes r i

namespace KernelThread
variable {m : PlacedMemory} {t : KernelThread} {entry : Word} {s thread : State}

theorem start_cases (h : t.start entry s = some thread) :
    let copied := t.stackAddress + t.stackSize - copiedSize (s.gpr 5)
    (s.gpr 5 = 0 ∧ thread = t.initialState entry s) ∨
      ∃ source destination, s.gpr 5 ≠ 0 ∧ (copiedSize (s.gpr 5)).toNat ≤ (t.stackSize - 64).toNat ∧
        s.mem.mappedAddress (s.gpr 6) (s.gpr 5).toNat = some source ∧
        s.mem.mappedAddress copied (s.gpr 5).toNat = some destination ∧
        thread = withArguments (t.initialState entry s) (fun i => s.mem.bytes source.1 (source.2 + i))
          (s.gpr 5).toNat copied destination := by
  intro copied
  unfold start at h
  dsimp only at h
  split_ifs at h with hzero hlarge
  · exact .inl ⟨hzero, (Option.some.inj h).symm⟩
  · rw [gt_iff_lt, BitVec.lt_def, not_lt] at hlarge
    obtain ⟨source, hsource, hmap⟩ := Option.bind_eq_some_iff.1 h
    obtain ⟨destination, hdestination, rfl⟩ := Option.map_eq_some_iff.1 hmap
    exact .inr ⟨source, destination, hzero, hlarge, hsource, hdestination, rfl⟩

theorem bytes_initialState (r : Region) : (t.initialState entry s).mem.bytes r = s.mem.bytes r := by
  cases r <;> rfl

theorem bytes_withArguments (thread : State) (bytes : Nat → Byte) (size : Nat) (copied : Word) (offset : Nat)
    (hhost : thread.mem.memory.host.isSome = true) (r : Region) (i : Nat) :
    (withArguments thread bytes size copied (.memory, offset)).mem.bytes r i =
      if r = .memory ∧ offset ≤ i ∧ i < offset + size then bytes (i - offset) else thread.mem.bytes r i := by
  obtain ⟨host, hhost⟩ := Option.isSome_iff_exists.1 hhost
  show (Io.copyTo thread.mem (.memory, offset) size bytes).bytes r i = _
  cases r <;> simp [Io.copyTo, GuestMemory.setBytes, GuestMemory.bytes, hhost]

/-- The copy of the arguments lies in the stack, at the top of it. -/
theorem copied_bounds (hm : m.Prepared s.mem) (hstack : t.stack ⊆ m.range) (hsize : 64 ≤ t.stackSize.toNat)
    (hne : s.gpr 5 ≠ 0) (hle : (copiedSize (s.gpr 5)).toNat ≤ (t.stackSize - 64).toNat) {p : Region × Nat}
    (hmap : s.mem.mappedAddress (s.gpr 6) (s.gpr 5).toNat = some p) :
    let copied := t.stackAddress + t.stackSize - copiedSize (s.gpr 5)
    t.stackAddress.toNat + 64 ≤ copied.toNat ∧
      copied.toNat + (copiedSize (s.gpr 5)).toNat = t.stackAddress.toNat + t.stackSize.toNat ∧
      (copiedSize (s.gpr 5)).toNat = ((s.gpr 5).toNat + 15) / 16 * 16 ∧ 0 < (s.gpr 5).toNat ∧
      m.base.toNat ≤ t.stackAddress.toNat ∧
      t.stackAddress.toNat + t.stackSize.toNat ≤ m.base.toNat + m.size := by
  intro copied
  have hwidth := hm.width_le hmap
  have hbelow := hm.below
  have hpos : 0 < (s.gpr 5).toNat := Nat.pos_of_ne_zero fun hzero => hne (BitVec.eq_of_toNat_eq hzero)
  have hrounded := toNat_copiedSize (n := s.gpr 5) (by omega)
  obtain ⟨hlo, hhi⟩ := (Set.Ico_subset_Ico_iff (by omega)).1 hstack
  have hsub : (t.stackSize - 64).toNat = t.stackSize.toNat - 64 := by
    rw [BitVec.toNat_sub]
    simp
    omega
  have hcopied : copied.toNat = t.stackAddress.toNat + t.stackSize.toNat - (copiedSize (s.gpr 5)).toNat := by
    rw [BitVec.toNat_sub, BitVec.toNat_add]
    omega
  omega

theorem started (hm : m.Prepared s.mem) (hstack : t.stack ⊆ m.range) (hsize : 64 ≤ t.stackSize.toNat)
    (h : t.start entry s = some thread) : t.Started m entry s thread := by
  have hbelow := hm.below
  rcases start_cases h with ⟨hzero, rfl⟩ | ⟨source, destination, hne, hle, hsource, hdestination, rfl⟩
  · obtain ⟨hlo, hhi⟩ := (Set.Ico_subset_Ico_iff (by omega)).1 hstack
    have hsp : (t.stackAddress + t.stackSize - 64).toNat = t.stackAddress.toNat + t.stackSize.toNat - 64 := by
      rw [BitVec.toNat_sub, BitVec.toNat_add]
      simp
      omega
    have hcopied : (copiedSize (s.gpr 5)).toNat = 0 := by
      rw [hzero]
      rfl
    refine ⟨rfl, rfl, ?_, fun hne => absurd hzero hne, fun hne => absurd hzero hne,
      fun r i _ => congrFun (bytes_initialState r) i⟩
    show _ ≤ (t.stackAddress + t.stackSize - 64).toNat ∧ (t.stackAddress + t.stackSize - 64).toNat + 64 + _ = _
    omega
  · obtain ⟨hlo, hhi, hrounded, hpos, hbase, hend⟩ := copied_bounds hm hstack hsize hne hle hsource
    set copied := t.stackAddress + t.stackSize - copiedSize (s.gpr 5)
    rw [hm.mapped hpos (by omega) (by omega)] at hdestination
    obtain rfl := Option.some.inj hdestination
    have hsp : (copied - 64).toNat = copied.toNat - 64 := by
      rw [BitVec.toNat_sub]
      simp
      omega
    set offset := copied.toNat - m.base.toNat with hoffset
    set bytes : Nat → Byte := fun i => s.mem.bytes source.1 (source.2 + i) with hbytesEq
    have hbytes := bytes_withArguments (t.initialState entry s) bytes (s.gpr 5).toNat copied offset hm.host
    refine ⟨rfl, rfl, ?_, fun _ => ⟨?_, hhi, hrounded⟩, fun _ => ⟨source, hsource, fun i hi => ?_⟩, fun r i hout => ?_⟩
    · show _ ≤ (copied - 64).toNat ∧ (copied - 64).toNat + 64 + _ = _
      omega
    · show copied.toNat = (copied - 64).toNat + 64
      omega
    · show (withArguments _ _ _ _ _).mem.bytes .memory (offset + i) = bytes i
      rw [hbytes, if_pos ⟨rfl, Nat.le_add_right _ _, Nat.add_lt_add_left hi _⟩, Nat.add_sub_cancel_left]
    · rw [hbytes, bytes_initialState, if_neg]
      rintro ⟨hr, hfrom, hto⟩
      exact hout hr ⟨by omega, by omega⟩

end KernelThread

/-! ### Stacks over a run -/

/-- What was cut off for the stack. -/
def KernelThread.cut (t : KernelThread) : MemoryBlock := ⟨t.stackAddress, alignUp t.stackSize 64⟩

/-- The stacks of all threads are cut off the heap and apart, also from all thread-local storage. -/
structure ThreadRun.StacksInv (m : PlacedMemory) (r : ThreadRun) : Prop extends r.Inv m where
  cut : ∀ t ∈ r.threads, t.cut ∈ r.memory.reserved
  within : ∀ t ∈ r.threads, t.stack ⊆ t.cut.range
  sized : ∀ t ∈ r.threads, 0x4000 ≤ t.stackSize.toNat
  initial : ∀ t ∈ r.threads, Disjoint t.stack m.initialStack
  locals : ∀ t ∈ r.threads, ∀ u ∈ r.threads, Disjoint t.stack u.tls.range
  pairwise : r.threads.Pairwise fun t u => Disjoint t.stack u.stack

namespace HeapRun.Inv
variable {m : ConfiguredMemory} {r : HeapRun} {block : MemoryBlock}

/-- What is reserved is apart from the image and from what is allocated. -/
theorem reserved (h : r.Inv m) (hmem : block ∈ r.reserved) :
    block.range ⊆ m.range ∧ Disjoint block.range m.image ∧ ∀ b ∈ r.live, Disjoint block.range b.range := by
  have hperm : (r.regions m).Perm (block.range :: m.image :: (r.live.map MemoryBlock.range ++
      (r.heap.middle :: (r.heap.freeHeapBlocks ++ r.reserved.erase block).map MemoryBlock.range))) := by
    refine perm_of_count fun a => ?_
    have herase := ((List.perm_cons_erase hmem).map MemoryBlock.range).count_eq a
    simp only [HeapRun.regions, List.map_append, List.map_cons, List.count_cons, List.count_append] at herase ⊢
    omega
  obtain ⟨hinside, hdisjoint, -⟩ := Packed.cons_iff.1 (h.packed.perm hperm)
  refine ⟨hinside, hdisjoint _ (by simp), fun b hb => hdisjoint _ ?_⟩
  exact List.mem_cons_of_mem _ (List.mem_append_left _ (List.mem_map_of_mem hb))

theorem reserved_cons (h : r.Inv m) {blocks : List MemoryBlock} (hreserved : r.reserved = block :: blocks)
    {b : MemoryBlock} (hb : b ∈ blocks) : Disjoint b.range block.range := by
  have hsub : ((block :: blocks).map MemoryBlock.range).Sublist (r.regions m) := by
    rw [← hreserved]
    refine List.Sublist.cons _ (List.Sublist.cons _ (List.Sublist.map _ ?_))
    exact List.sublist_append_right _ _
  exact ((List.pairwise_cons.1 (h.packed.sublist hsub).disjoint).1 _ (List.mem_map_of_mem hb)).symm

end HeapRun.Inv

namespace ThreadRun
variable {m : PlacedMemory} {r r' : ThreadRun}

theorem StacksInv.apart (h : r.StacksInv m) {t : KernelThread} {others : List KernelThread}
    (hthreads : r.threads.Perm (t :: others)) : r.StackApart m t others := by
  have hmem {u : KernelThread} : u ∈ r.threads ↔ u ∈ t :: others := hthreads.mem_iff
  have ht : t ∈ r.threads := hmem.2 List.mem_cons_self
  obtain ⟨hinside, himage, hlive⟩ := h.memory.reserved (h.cut t ht)
  have hwithin := h.within t ht
  have hpairwise := h.pairwise.perm hthreads fun hdisjoint => hdisjoint.symm
  exact {
    inside := hwithin.trans hinside
    image := himage.mono_left hwithin
    live := fun block hblock => (hlive block hblock).mono_left hwithin
    tls := fun u hu => h.locals t ht u (hmem.2 hu)
    threads := (List.pairwise_cons.1 hpairwise).1
    initial := h.initial t ht }

/-- Fewer threads, of which others may run. -/
theorem StacksInv.of_threads (h : r.StacksInv m) (hinv : r'.Inv m)
    (hmemory : ∀ block ∈ r.memory.reserved, block ∈ r'.memory.reserved) (joinable : KernelThread → Bool)
    (hthreads : r'.threads.Sublist (r.threads.map fun t => { t with joinable := joinable t })) :
    r'.StacksInv m := by
  have hmem {u : KernelThread} (hu : u ∈ r'.threads) : ∃ t ∈ r.threads, { t with joinable := joinable t } = u :=
    List.mem_map.1 (hthreads.subset hu)
  have hpairwise : (r.threads.map fun t => { t with joinable := joinable t }).Pairwise
      fun t u => Disjoint t.stack u.stack := List.pairwise_map.2 h.pairwise
  refine ⟨hinv, ?_, ?_, ?_, ?_, ?_, hpairwise.sublist hthreads⟩
  · intro u hu
    obtain ⟨t, ht, rfl⟩ := hmem hu
    exact hmemory _ (h.cut t ht)
  · intro u hu
    obtain ⟨t, ht, rfl⟩ := hmem hu
    exact h.within t ht
  · intro u hu
    obtain ⟨t, ht, rfl⟩ := hmem hu
    exact h.sized t ht
  · intro u hu
    obtain ⟨t, ht, rfl⟩ := hmem hu
    exact h.initial t ht
  · intro u hu v hv
    obtain ⟨t, ht, rfl⟩ := hmem hu
    obtain ⟨w, hw, rfl⟩ := hmem hv
    exact h.locals t ht w hw

theorem StacksInv.of_memory (h : r.StacksInv m) {memory : HeapRun} (hinv : Inv m { r with memory })
    (hmemory : ∀ block ∈ r.memory.reserved, block ∈ memory.reserved) : StacksInv m { r with memory } :=
  h.of_threads hinv hmemory KernelThread.joinable (List.map_id _ ▸ .refl _)

theorem sized_requestedStack (stackSize : Word) : 0x4000 ≤ (requestedStack stackSize).toNat := by
  unfold requestedStack
  split_ifs with hlt
  · exact le_rfl
  · rw [BitVec.lt_def, not_lt] at hlt
    exact hlt

theorem StacksInv.create (h : r.StacksInv m) {stackSize : Word} (hsize : stackSize ≤ (0xffffffc0 : Word)) :
    (r.sceKernelCreateThread stackSize).1.StacksInv m := by
  have hinv := h.toInv.create stackSize
  have hreserved : ∀ block ∈ r.memory.reserved, block ∈ (r.taken stackSize).reserved := fun block hmem =>
    HeapRun.mem_takeTls (List.mem_cons_of_mem _ hmem)
  rcases r.create_cases stackSize with ⟨-, heq⟩ | ⟨⟨hstack, htls, -⟩, heq⟩
  · rw [heq] at hinv ⊢
    exact h.of_memory hinv hreserved
  obtain ⟨-, -, -, -, hcut⟩ := stack_spec h.memory hstack
  have hbefore := h.of_memory (h.toInv.taken stackSize) hreserved
  set t : KernelThread := ⟨r.nextUid, (r.memory.takeStack (requestedStack stackSize)).1, requestedStack stackSize,
    (r.memory.takeStack (requestedStack stackSize)).2.takeTls.1, false⟩
  have hapart : (r.sceKernelCreateThread stackSize).1.StackApart m t r.threads :=
    h.toInv.apart hstack htls hsize (by rw [heq]) rfl rfl rfl
  rw [heq] at hinv hapart ⊢
  have hall : (r.taken stackSize).reserved = t.tls :: t.cut :: r.memory.reserved := by
    rw [taken, HeapRun.takeTls_reserved, if_neg htls, hcut]
    rfl
  refine ⟨hinv, ?_, ?_, ?_, ?_, ?_, ?_⟩
  · refine List.forall_mem_cons.2 ⟨?_, hbefore.cut⟩
    show t.cut ∈ (r.taken stackSize).reserved
    rw [hall]
    exact List.mem_cons_of_mem _ List.mem_cons_self
  · refine List.forall_mem_cons.2 ⟨?_, hbefore.within⟩
    exact Set.Ico_subset_Ico_right (Nat.add_le_add_left (le_alignUp (requestedStack_le hsize)) _)
  · exact List.forall_mem_cons.2 ⟨sized_requestedStack stackSize, hbefore.sized⟩
  · exact List.forall_mem_cons.2 ⟨hapart.initial, hbefore.initial⟩
  · refine List.forall_mem_cons.2 ⟨hapart.tls, fun u hu => List.forall_mem_cons.2 ⟨?_, h.locals u hu⟩⟩
    refine (hbefore.memory.reserved_cons hall ?_).mono_left (h.within u hu)
    exact List.mem_cons_of_mem _ (h.cut u hu)
  · exact List.pairwise_cons.2 ⟨hapart.threads, hbefore.pairwise⟩

theorem deleteThread_spec (r : ThreadRun) (uid : Int) :
    (r.sceKernelDeleteThread uid).1.memory = r.memory ∧
      (r.sceKernelDeleteThread uid).1.threads.Sublist r.threads := by
  unfold sceKernelDeleteThread
  split
  · exact ⟨rfl, .refl _⟩
  split_ifs
  · exact ⟨rfl, .refl _⟩
  · exact ⟨rfl, List.eraseP_sublist⟩

theorem StacksInv.setJoinable (h : r.StacksInv m) (uid : Int) (joinable : Bool) :
    (r.setJoinable uid joinable).StacksInv m := by
  have hthreads : (r.setJoinable uid joinable).threads =
      r.threads.map fun t => { t with joinable := if t.uid = uid then joinable else t.joinable } := by
    refine List.map_congr_left fun t _ => ?_
    split_ifs <;> rfl
  refine h.of_threads ?_ (fun _ hmem => hmem) (fun t => if t.uid = uid then joinable else t.joinable)
    (by rw [hthreads])
  cases joinable
  · exact h.toInv.step (show r.step (.joinThread uid) = some _ from rfl)
  · exact h.toInv.step (show r.step (.startThread uid) = some _ from rfl)

theorem StacksInv.step (h : r.StacksInv m) {call : ThreadCall} (hcall : r.NoWrap call)
    (hstep : r.step call = some r') : r'.StacksInv m := by
  have hinv := h.toInv.step hstep
  cases call with
  | createThread stackSize =>
    obtain rfl := Option.some.inj hstep
    exact h.create hcall
  | deleteThread uid =>
    obtain rfl := Option.some.inj hstep
    obtain ⟨hmemory, hthreads⟩ := r.deleteThread_spec uid
    exact h.of_threads hinv (fun block hmem => hmemory ▸ hmem) KernelThread.joinable (List.map_id _ ▸ hthreads)
  | startThread uid =>
    obtain rfl := Option.some.inj hstep
    exact h.setJoinable uid true
  | joinThread uid =>
    obtain rfl := Option.some.inj hstep
    exact h.setJoinable uid false
  | heap call =>
    obtain ⟨memory, hcall, rfl⟩ := Option.map_eq_some_iff.1 hstep
    exact h.of_memory hinv fun block hmem => HeapRun.mem_reserved_of_step hcall hmem

theorem StacksInv.start (h : r.StacksInv m) {entry : Word} {s s' : State} {thread? : Option State}
    (hm : m.Prepared s.mem) (hstart : r.sceKernelStartThread entry s = (r', s', thread?)) :
    (thread? = none ∧ r' = r ∧ s'.mem = s.mem) ∨
      ∃ t others thread, r.threads.Perm (t :: others) ∧ t.uid = (s.gpr 4).toInt ∧ t.joinable = false ∧
        thread? = some thread ∧ r.StackApart m t others ∧ t.Started m entry s thread ∧
        s'.mem.bytes = thread.mem.bytes := by
  unfold sceKernelStartThread at hstart
  cases hfind : r.threads.find? (·.uid = (s.gpr 4).toInt) with
  | none =>
    simp only [hfind, Prod.mk.injEq] at hstart
    obtain ⟨rfl, rfl, rfl⟩ := hstart
    exact .inl ⟨rfl, rfl, rfl⟩
  | some t =>
    simp only [hfind] at hstart
    split_ifs at hstart with hjoinable
    · obtain ⟨rfl, rfl, rfl⟩ := hstart
      exact .inl ⟨rfl, rfl, rfl⟩
    have hmem : t ∈ r.threads := List.mem_of_find?_eq_some hfind
    have huid : t.uid = (s.gpr 4).toInt := by simpa using List.find?_some hfind
    cases hthread : t.start entry s with
    | none =>
      simp only [hthread, Prod.mk.injEq] at hstart
      obtain ⟨rfl, rfl, rfl⟩ := hstart
      exact .inl ⟨rfl, rfl, rfl⟩
    | some thread =>
      simp only [hthread, Prod.mk.injEq] at hstart
      obtain ⟨rfl, rfl, rfl⟩ := hstart
      have hapart := h.apart (List.perm_cons_erase hmem)
      have hsized := h.sized t hmem
      exact .inr ⟨t, _, thread, List.perm_cons_erase hmem, huid, Bool.eq_false_iff.2 hjoinable, rfl, hapart,
        t.started hm hapart.inside (by omega) hthread, funext fun region => by cases region <;> rfl⟩

end ThreadRun

/-- After every run of the calls in which no stack size wraps: a thread that starts finds its arguments on a stack
that is apart from all else, and no byte has changed but on that stack; one that does not start changes none. -/
theorem startThread_apart (m : PlacedMemory) (guestExecutor : Bool) (calls : List ThreadCall) (r : ThreadRun)
    (hrun : run ThreadRun.step { memory := { heap := m.heap }, guestExecutor } calls = some r)
    (hcalls : Guarded ThreadRun.step ThreadRun.NoWrap { memory := { heap := m.heap }, guestExecutor } calls)
    (entry : Word) (s s' : State) (hm : m.Prepared s.mem) (r' : ThreadRun) (thread? : Option State)
    (hstart : r.sceKernelStartThread entry s = (r', s', thread?)) :
    (thread? = none ∧ r' = r ∧ s'.mem = s.mem) ∨
      ∃ t others thread, r.threads.Perm (t :: others) ∧ t.uid = (s.gpr 4).toInt ∧ t.joinable = false ∧
        thread? = some thread ∧ r.StackApart m t others ∧ t.Started m entry s thread ∧
        s'.mem.bytes = thread.mem.bytes := by
  have h : r.StacksInv m := by
    refine run_guarded (fun _ _ _ h hcall hstep => ThreadRun.StacksInv.step h hcall hstep) ?_ hcalls hrun
    exact ⟨⟨m.heap_inv, le_rfl, by simp, by simp⟩, by simp, by simp, by simp, by simp, by simp, .nil⟩
  exact h.start hm hstart

/-- A caller with five bytes of arguments at 0x08900000 for the thread 0x100. -/
def placedCaller : State where
  mem := {
    memory := ⟨some fun i => BitVec.ofNat 8 i, placedUserMemory.size⟩
    memoryBase := placedUserMemory.base
    scratchpad := ⟨some fun _ => 0, 0x4000⟩
    videoMemory := ⟨some fun _ => 0, 0x200000⟩
    volatileMemory := ⟨some fun _ => 0, 0x400000⟩ }
  gpr r := if r = 4 then 0x100 else if r = 5 then 5 else if r = 6 then 0x08900001 else 0

/-- The first thread, with its arguments. -/
theorem startThread_apart_placed :
    let r : ThreadRun := { memory := { heap := placedUserMemory.heap }, guestExecutor := true }
    ∃ t thread, (r.sceKernelCreateThread 0x4000).1.threads = [t] ∧
      t.Started placedUserMemory 0x08804000 placedCaller thread := by
  intro r
  have hprepared : placedUserMemory.Prepared placedCaller.mem := ⟨rfl, rfl, rfl, rfl, rfl, rfl, by decide⟩
  obtain ⟨r', s', thread?, hstart⟩ : ∃ r' s' thread?,
      (r.sceKernelCreateThread 0x4000).1.sceKernelStartThread 0x08804000 placedCaller = (r', s', thread?) :=
    ⟨_, _, _, rfl⟩
  have hsome : ((r.sceKernelCreateThread 0x4000).1.sceKernelStartThread 0x08804000 placedCaller).2.2.isSome = true := by
    decide
  rw [hstart] at hsome
  rcases startThread_apart placedUserMemory true [.createThread 0x4000] (r.sceKernelCreateThread 0x4000).1 rfl
      (by decide) 0x08804000 placedCaller s' hprepared r' thread? hstart with
    ⟨rfl, -⟩ | ⟨t, others, thread, hperm, -, -, -, -, hstarted, -⟩
  · cases hsome
  · have hlength : (r.sceKernelCreateThread 0x4000).1.threads.length = 1 := by decide
    obtain ⟨u, hu⟩ := List.length_eq_one_iff.1 hlength
    rw [hu] at hperm
    obtain rfl := (List.cons.inj (List.singleton_perm.1 hperm)).1
    exact ⟨_, thread, hu, hstarted⟩

end Psprism
