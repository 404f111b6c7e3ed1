import Psprism.Access
import Psprism.GeMemory
import Psprism.PatchRegistry
import Psprism.RelocRun

/-!
# Host pointers of patches (`include/psprecomp/patch.hpp`)

Patches are host code: they see guest memory through host pointers, `guest_to_host` and `host_to_guest`. Which
addresses are mapped where does not depend on the bytes (`GuestMemory.layout`), so stores change none of it. A
pointer into mapped memory that has a guest address is found again behind that address (`Mapped.accessPart`).
-/

namespace Psprism

/-! ### The map of the guest memory -/

namespace GuestMemory

/-- What is mapped where, without the bytes. -/
def layout (m : GuestMemory) : GuestMemory :=
  let empty (b : Buffer) : Buffer := { b with host := b.host.map fun _ _ => 0 }
  { m with
    memory := empty m.memory
    scratchpad := empty m.scratchpad
    videoMemory := empty m.videoMemory
    volatileMemory := empty m.volatileMemory
    direct := fun _ => 0 }

variable {m m' : GuestMemory} {address : Word} {width : Nat} {r : Region} {b : Bytes}

@[simp] theorem layout_setBytes : (m.setBytes r b).layout = m.layout := by
  cases r <;> simp [layout, setBytes, Function.comp_def]

@[simp] theorem mappedAddress_layout : m.layout.mappedAddress address width = m.mappedAddress address width := by
  apply mappedAddress_congr <;> simp [layout]

@[simp] theorem accessPart_layout : m.layout.accessPart address width = m.accessPart address width := by
  rw [accessPart, mappedAddress_layout]; rfl

@[simp] theorem access32_layout : m.layout.access32 address = m.access32 address := by
  have hhost : m.layout.memory.host.isSome = m.memory.host.isSome := Option.isSome_map
  simp only [access32, access, mappedAddress_layout, hhost]
  rfl

theorem access32_of_layout (h : m'.layout = m.layout) : m'.access32 address = m.access32 address := by
  rw [← access32_layout, h, access32_layout]

theorem accessPart_of_layout (h : m'.layout = m.layout) :
    m'.accessPart address width = m.accessPart address width := by
  rw [← accessPart_layout, h, accessPart_layout]

/-- An access finds a region with bytes of its own. -/
theorem access32_hosted {p : Pointer} (h : m.access32 address = some p) : m.Hosted p.1 := by
  have hmapped {p : Pointer} (h : m.mappedAddress address 4 = some p) : m.Hosted p.1 := by
    obtain ⟨r, o⟩ := p
    have hhost := (mappedAddress_within h).host
    cases r with
    | direct => exact trivial
    | _ => exact hhost
  rw [access32, access] at h
  split at h
  next hfast => obtain rfl := Option.some.inj h; exact hfast.1
  split at h
  · cases h
  rcases Option.or_eq_some_iff.1 h with h | ⟨-, h⟩
  · exact hmapped h
  · rw [directAccess] at h
    split at h
    · obtain rfl := Option.some.inj h; exact trivial
    · cases h

theorem bytes_setBytes (h : m.Hosted r) : (m.setBytes r b).bytes r = b := by
  cases r with
  | direct => rfl
  | _ =>
    obtain ⟨f, hf⟩ := Option.isSome_iff_exists.1 h
    simp [setBytes, bytes, hf]

theorem bytes_setBytes_of_ne {r' : Region} (h : r' ≠ r) : (m.setBytes r b).bytes r' = m.bytes r' := by
  cases r <;> cases r' <;> first | rfl | exact absurd rfl h

end GuestMemory

/-! ### Words that are read back -/

/-- Two words that share no byte. -/
def Pointer.Apart (p q : Pointer) : Prop := p.1 ≠ q.1 ∨ p.2 + 4 ≤ q.2 ∨ q.2 + 4 ≤ p.2

/-- The word at an address can be accessed, and is `w`. -/
def ReadsWord (m : GuestMemory) (address w : Word) : Prop :=
  ∃ p : Pointer, m.access32 address = some p ∧ readU32 (m.bytes p.1) p.2 = w

section
variable {s : State} {address address' v w : Word}

theorem ReadsWord.load32 (h : ReadsWord s.mem address w) : load32 s address = (w, s) := by
  obtain ⟨p, hp, hw⟩ := h
  simp only [Psprism.load32, hp, loadWith, hw]

theorem store32_layout : (store32 s address v).mem.layout = s.mem.layout := by
  simp only [store32, storeWith]
  split
  · simp
  · rfl

theorem store32_gpr : (store32 s address v).gpr = s.gpr := by
  simp only [store32, storeWith]
  split <;> rfl

theorem store32_fpr : (store32 s address v).fpr = s.fpr := by
  simp only [store32, storeWith]
  split <;> rfl

/-- A store that did not fault had nothing to clear. -/
theorem running_of_store32 (h : (store32 s address v).stopReason = .running) : s.stopReason = .running := by
  simp only [store32, storeWith] at h
  split at h
  · exact h
  · cases h

theorem readsWord_store32 (h : (store32 s address v).stopReason = .running) :
    ReadsWord (store32 s address v).mem address v := by
  cases hp : s.mem.access32 address with
  | none => rw [store32, hp] at h; cases h
  | some p =>
    refine ⟨p, by rw [GuestMemory.access32_of_layout store32_layout, hp], ?_⟩
    simp only [store32, hp, storeWith, GuestMemory.bytes_setBytes (GuestMemory.access32_hosted hp),
      readU32_writeU32]

/-- A store elsewhere. -/
theorem ReadsWord.store32 (h : ReadsWord s.mem address w)
    (hapart : ∀ p q, s.mem.access32 address = some p → s.mem.access32 address' = some q → Pointer.Apart p q) :
    ReadsWord (store32 s address' v).mem address w := by
  obtain ⟨p, hp, hw⟩ := h
  refine ⟨p, by rw [GuestMemory.access32_of_layout store32_layout, hp], ?_⟩
  cases hq : s.mem.access32 address' with
  | none => rw [Psprism.store32, hq]; exact hw
  | some q =>
    simp only [Psprism.store32, hq, storeWith]
    by_cases hregion : p.1 = q.1
    · have hbytes := hapart p q hp hq
      rw [hregion, GuestMemory.bytes_setBytes (GuestMemory.access32_hosted hq), ← hw, hregion]
      refine readU32_congr fun j hj => writeU32_of_not_mem _ _ _ fun i hi => ?_
      rcases hbytes with hne | hle | hle
      · exact absurd hregion hne
      · omega
      · omega
    · rw [GuestMemory.bytes_setBytes_of_ne hregion, hw]

end

namespace Patch

/-! ### Host pointers -/

/-- `host_region_to_guest`, of a pointer into the region. -/
def hostRegionToGuest (buffer : Buffer) (offset : Nat) (guestBase : Word) (width : Nat) : Option Word :=
  if buffer.host.isNone ∨ offset > buffer.size ∨ width > buffer.size - offset then none
  else addAddress guestBase (BitVec.ofNat 32 offset)

/-- A host pointer as a number; `hostAddress` tells where the host keeps each region. -/
def rawPointer (hostAddress : Region → Nat) (p : Pointer) : Nat :=
  if p.1 = .direct then p.2 else hostAddress p.1 + p.2

/-- `host_to_guest`. A pointer into one region is in none of the others. -/
def hostToGuest (hostAddress : Region → Nat) (m : GuestMemory) (pointer : Option Pointer) (width : Nat) : Word :=
  match pointer with
  | none => 0
  | some p =>
    let result :=
      match p.1 with
      | .memory => hostRegionToGuest m.memory p.2 m.memoryBase width
      | .scratchpad => hostRegionToGuest m.scratchpad p.2 0x00010000 width
      | .videoMemory => hostRegionToGuest m.videoMemory p.2 0x04000000 width
      | .volatileMemory => hostRegionToGuest m.volatileMemory p.2 0x08400000 width
      | .direct => none
    let raw := rawPointer hostAddress p
    result.getD
      (if m.directMemoryAccess ∧ width ≠ 0 ∧ raw ≤ 0xffffffff ∧ width - 1 ≤ 0xffffffff - raw then
        BitVec.ofNat 32 raw
      else 0)

/-- `guest_to_host`; the test of a direct access records a fault. -/
def guestToHost (s : State) (address : Word) (width : Nat) : Option Pointer × State :=
  match s.mem.mappedAddress address width with
  | some p => (some p, s)
  | none =>
    if s.mem.directMemoryAccess then
      if directAddressOk address width then (some (.direct, address.toNat), s) else (none, noteMemoryFault s address)
    else (none, s)

/-- A pointer that the guest has an address for, in an image that does not wrap around the address space. -/
def Mapped (m : GuestMemory) (width : Nat) (p : Pointer) : Prop :=
  ∃ address, m.accessPart address width = some p ∧ (p.1 = .memory → m.memoryBase.toNat + p.2 < 2 ^ 32)

section
variable {hostAddress : Region → Nat} {m m' : GuestMemory} {address : Word} {width : Nat} {p : Pointer}

theorem guestToHost_eq {s : State} (h : s.mem.accessPart address width = some p) :
    guestToHost s address width = (some p, s) := by
  rw [guestToHost]
  rw [GuestMemory.accessPart] at h
  rcases Option.or_eq_some_iff.1 h with h | ⟨hnone, h⟩
  · rw [h]
  · rw [GuestMemory.directAccess] at h
    split at h
    next hok =>
      obtain rfl := Option.some.inj h
      rw [hnone, if_pos hok.1, if_pos hok.2]
    · cases h

theorem hostToGuest_layout (pointer : Option Pointer) :
    hostToGuest hostAddress m.layout pointer width = hostToGuest hostAddress m pointer width := by
  have hregion (b : Buffer) (o : Nat) (base : Word) :
      hostRegionToGuest { b with host := b.host.map fun _ _ => 0 } o base width =
        hostRegionToGuest b o base width := by
    simp [hostRegionToGuest]
  cases pointer with
  | none => rfl
  | some p =>
    obtain ⟨r, o⟩ := p
    cases r with
    | direct => rfl
    | _ => simp only [hostToGuest, GuestMemory.layout, hregion]; rfl

theorem addAddress_eq {left right : Word} (h : left.toNat + right.toNat < 2 ^ 32) :
    addAddress left right = some (left + right) := by
  rw [addAddress, if_neg]
  have hmax : (0xffffffff : Word).toNat = 2 ^ 32 - 1 := rfl
  rw [gt_iff_lt, BitVec.lt_def, BitVec.toNat_sub, hmax]
  omega

/-- A pointer into a region goes to the address it came from. -/
theorem hostRegionToGuest_eq {b : Buffer} {offset : Nat} {base canon : Word} (hhost : b.host.isSome = true)
    (hsize : offset ≤ b.size ∧ width ≤ b.size - offset) (hoffset : offset = (canon - base).toNat)
    (hwrap : base.toNat + offset < 2 ^ 32) : hostRegionToGuest b offset base width = some canon := by
  have hword : BitVec.ofNat 32 offset = canon - base := by rw [hoffset, BitVec.ofNat_toNat, BitVec.setWidth_eq]
  rw [hostRegionToGuest, if_neg, hword, addAddress_eq (by rw [← hoffset]; exact hwrap)]
  · rw [BitVec.add_comm, BitVec.sub_add_cancel]
  · rw [← Option.not_isSome, hhost]
    simp
    omega

theorem canonicalAddress_lt (address : Word) : (canonicalAddress address).toNat < 2 ^ 29 := by
  rw [canonicalAddress, BitVec.toNat_and]
  exact Nat.and_lt_two_pow _ (by decide)

theorem canonicalAddress_canonical (address : Word) :
    canonicalAddress (canonicalAddress address) = canonicalAddress address := by
  rw [canonicalAddress, canonicalAddress, BitVec.and_assoc, BitVec.and_self]

theorem mappedAddress_canonical :
    m.mappedAddress (canonicalAddress address) width = m.mappedAddress address width := by
  simp only [GuestMemory.mappedAddress, GuestMemory.imageOffset, canonicalAddress_canonical]
  rfl

theorem mappedAddress_hostToGuest (h : m.mappedAddress address width = some p)
    (hwrap : p.1 = .memory → m.memoryBase.toNat + p.2 < 2 ^ 32) :
    hostToGuest hostAddress m (some p) width = canonicalAddress address := by
  have hcanon := canonicalAddress_lt address
  obtain ⟨r, o⟩ := p
  rcases GuestMemory.mappedAddress_cases h with ⟨⟨hhost, hle, hwide⟩, rfl, rfl⟩ | ⟨-, htag, ho⟩
  · have hguest := hostRegionToGuest_eq hhost ⟨hle, hwide⟩ rfl (hwrap rfl)
    simp only [hostToGuest, hguest, Option.getD_some]
  · have hdirect := GuestMemory.regionOfTag_ne_direct htag
    obtain ⟨hhost, hsize, hoffset, hsum⟩ := GuestMemory.regionAddress_spec ho
    have hguest := hostRegionToGuest_eq hhost hsize hoffset (by omega)
    cases r with
    | direct => exact absurd rfl hdirect
    | _ => exact congrArg (Option.getD · _) hguest

/-- A mapped pointer that has an address is found again behind it. -/
theorem Mapped.accessPart (h : Mapped m width p) (hguest : hostToGuest hostAddress m (some p) width ≠ 0) :
    m.accessPart (hostToGuest hostAddress m (some p) width) width = some p := by
  obtain ⟨address, hp, hwrap⟩ := h
  rw [GuestMemory.accessPart] at hp
  rcases Option.or_eq_some_iff.1 hp with hmapped | ⟨hnone, hdirect⟩
  · rw [mappedAddress_hostToGuest hmapped hwrap, GuestMemory.accessPart, mappedAddress_canonical, hmapped,
      Option.some_or]
  · rw [GuestMemory.directAccess] at hdirect
    split at hdirect
    next hok =>
      obtain rfl := Option.some.inj hdirect
      have hpointer : rawPointer hostAddress (.direct, address.toNat) = address.toNat := if_pos rfl
      have hraw : hostToGuest hostAddress m (some (.direct, address.toNat)) width = address := by
        simp only [hostToGuest, Option.getD_none, hpointer] at hguest ⊢
        split at hguest
        next hif => rw [if_pos hif, BitVec.ofNat_toNat, BitVec.setWidth_eq]
        · exact absurd rfl hguest
      rw [hraw, GuestMemory.accessPart, hnone, GuestMemory.directAccess, if_pos hok, Option.none_or]
    · cases hdirect

end

end Patch

end Psprism
