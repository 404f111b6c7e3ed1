import Psprism.Lib.Overlay
import Psprism.State

/-!
# Guest memory as the graphics executor sees it

The executor takes host pointers with `mapped_address` and reads and moves bytes behind them. A guest write
is an `Edit` of some bytes; it maps and unmaps nothing.
-/

namespace Psprism
open Overlay

/-- Where a host pointer into guest memory points. -/
abbrev Pointer := Region × Nat

/-- The bytes a guest writes, by region and offset. -/
abbrev Edit := Region → Nat → Option Byte

def Edit.andThen (first second : Edit) : Edit := fun r => Overlay.andThen (first r) (second r)

/-- The edit leaves the `n` bytes from `p` on as they are. -/
def Edit.Spares (e : Edit) (p : Pointer) (n : Nat) : Prop := ∀ i < n, e p.1 (p.2 + i) = none

def Buffer.overlay (b : Buffer) (e : Nat → Option Byte) : Buffer :=
  { b with host := b.host.map (Overlay.overlay e) }

namespace GuestMemory

/-- The byte `i` after the one that `p` points at. -/
def byteAt (m : GuestMemory) (p : Pointer) (i : Nat) : Byte := m.bytes p.1 (p.2 + i)

/-- `memmove` of `n` bytes. -/
def moveBytes (m : GuestMemory) (source destination : Pointer) (n : Nat) : GuestMemory :=
  m.setBytes destination.1 fun i =>
    if destination.2 ≤ i ∧ i < destination.2 + n then m.byteAt source (i - destination.2)
    else m.bytes destination.1 i

/-- The memory after the guest's writes. -/
def overlay (m : GuestMemory) (e : Edit) : GuestMemory where
  memory := m.memory.overlay (e .memory)
  memoryBase := m.memoryBase
  scratchpad := m.scratchpad.overlay (e .scratchpad)
  videoMemory := m.videoMemory.overlay (e .videoMemory)
  volatileMemory := m.volatileMemory.overlay (e .volatileMemory)
  directMemoryAccess := m.directMemoryAccess
  direct := Overlay.overlay (e .direct) m.direct

variable {m : GuestMemory} {e e₁ e₂ : Edit} {p : Pointer} {r : Region} {i n : Nat}

theorem buffer_overlay_none (b : Buffer) : b.overlay (fun _ => none) = b := by
  rcases b with ⟨_ | _, _⟩ <;> rfl

@[simp] theorem overlay_none : m.overlay (fun _ _ => none) = m := by
  simp only [overlay, buffer_overlay_none, Overlay.overlay_none]

theorem buffer_overlay_andThen (b : Buffer) (e₁ e₂ : Nat → Option Byte) :
    b.overlay (Overlay.andThen e₁ e₂) = (b.overlay e₁).overlay e₂ := by
  rcases b with ⟨_ | _, _⟩
  · rfl
  · simp only [Buffer.overlay, Option.map_some, Overlay.overlay_andThen]

theorem overlay_andThen : m.overlay (e₁.andThen e₂) = (m.overlay e₁).overlay e₂ := by
  simp only [overlay, Edit.andThen, buffer_overlay_andThen, Overlay.overlay_andThen]

/-! ### Nothing is mapped or unmapped -/

@[simp] theorem isSome_host_overlay (b : Buffer) (e : Nat → Option Byte) :
    (b.overlay e).host.isSome = b.host.isSome := Option.isSome_map

@[simp] theorem size_overlay (b : Buffer) (e : Nat → Option Byte) : (b.overlay e).size = b.size := rfl

theorem mappedAddress_congr {m' : GuestMemory} (hbase : m'.memoryBase = m.memoryBase)
    (hhost : ∀ buffer ∈ [GuestMemory.memory, scratchpad, videoMemory, volatileMemory],
      (buffer m').host.isSome = (buffer m).host.isSome ∧ (buffer m').size = (buffer m).size)
    (address : Word) (width : Nat) : m'.mappedAddress address width = m.mappedAddress address width := by
  simp only [List.mem_cons, List.not_mem_nil, or_false, forall_eq_or_imp, forall_eq] at hhost
  obtain ⟨⟨h₁, h₁'⟩, ⟨h₂, h₂'⟩, ⟨h₃, h₃'⟩, ⟨h₄, h₄'⟩⟩ := hhost
  simp only [mappedAddress, imageOffset, regionAddress, ← Option.not_isSome, h₁, h₁', h₂, h₂', h₃, h₃', h₄, h₄',
    hbase]

@[simp] theorem mappedAddress_overlay (address : Word) (width : Nat) :
    (m.overlay e).mappedAddress address width = m.mappedAddress address width := by
  apply mappedAddress_congr
  · rfl
  · simp [overlay]

@[simp] theorem mappedAddress_setBytes (b : Bytes) (address : Word) (width : Nat) :
    (m.setBytes r b).mappedAddress address width = m.mappedAddress address width := by
  apply mappedAddress_congr <;> cases r <;> simp [setBytes]

@[simp] theorem mappedAddress_moveBytes (source destination : Pointer) (address : Word) (width : Nat) :
    (m.moveBytes source destination n).mappedAddress address width = m.mappedAddress address width :=
  mappedAddress_setBytes _ address width

/-! ### Bytes that an edit spares -/

theorem bytes_overlay_of_none (h : e r i = none) : (m.overlay e).bytes r i = m.bytes r i := by
  have hbuffer : ∀ b : Buffer, (b.overlay (e r)).host.getD (fun _ => 0) i = b.host.getD (fun _ => 0) i := by
    rintro ⟨_ | f, size⟩
    · rfl
    · exact overlay_of_none h
  cases r with
  | memory | scratchpad | videoMemory | volatileMemory => exact hbuffer _
  | direct => exact overlay_of_none h

theorem byteAt_overlay (h : e.Spares p n) (hi : i < n) : (m.overlay e).byteAt p i = m.byteAt p i :=
  bytes_overlay_of_none (h i hi)

/-- A region with bytes of its own; those of others are never looked at. -/
def Hosted (m : GuestMemory) : Region → Prop
  | .memory => m.memory.host.isSome
  | .scratchpad => m.scratchpad.host.isSome
  | .videoMemory => m.videoMemory.host.isSome
  | .volatileMemory => m.volatileMemory.host.isSome
  | .direct => True

theorem bytes_overlay (h : m.Hosted r) : (m.overlay e).bytes r = Overlay.overlay (e r) (m.bytes r) := by
  have hbuffer : ∀ b : Buffer, b.host.isSome → (b.overlay (e r)).host.getD (fun _ => 0) =
      Overlay.overlay (e r) (b.host.getD fun _ => 0) := by
    rintro ⟨_ | f, size⟩ h
    · cases h
    · rfl
  cases r with
  | memory | scratchpad | videoMemory | volatileMemory => exact hbuffer _ h
  | direct => rfl

theorem setBytes_overlay {b c : Bytes} (h : m.Hosted r → c = Overlay.overlay (e r) b) :
    (m.overlay e).setBytes r c = (m.setBytes r b).overlay e := by
  have hbuffer : ∀ a : Buffer, (a.host.isSome → c = Overlay.overlay (e r) b) →
      (⟨(a.overlay (e r)).host.map fun _ => c, a.size⟩ : Buffer) =
        (⟨a.host.map fun _ => b, a.size⟩ : Buffer).overlay (e r) := by
    rintro ⟨_ | f, size⟩ h
    · rfl
    · rw [h rfl]
      rfl
  cases r with
  | memory | scratchpad | videoMemory | volatileMemory =>
    simp only [setBytes, overlay, size_overlay, hbuffer _ h]
  | direct => rw [h trivial]; rfl

/-- Bytes moved between places that an edit spares are moved alike before and after it. -/
theorem moveBytes_overlay {source destination : Pointer} (hsource : e.Spares source n)
    (hdestination : e.Spares destination n) :
    (m.overlay e).moveBytes source destination n = (m.moveBytes source destination n).overlay e := by
  refine setBytes_overlay fun hhosted => funext fun i => ?_
  by_cases hi : destination.2 ≤ i ∧ i < destination.2 + n
  · have hnone : e destination.1 i = none := by
      have := hdestination (i - destination.2) (by omega)
      rwa [Nat.add_sub_cancel' hi.1] at this
    rw [if_pos hi, overlay_of_none hnone, if_pos hi, byteAt_overlay hsource (by omega)]
  · rw [if_neg hi, bytes_overlay hhosted, Overlay.overlay, Overlay.overlay, if_neg hi]

end GuestMemory

end Psprism
