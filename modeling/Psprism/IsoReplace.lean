import Psprism.IsoPatch

/-!
# Replacements in a laid-out image (`src/iso_patch.cpp`)

An image whose settled areas are apart and inside it stays one under a replacement that is stored apart from everything
but the file it replaces, and the replaced file is settled from then on (`Ready.store`). The replacement fits in the
sectors of that file or goes after the end; the one way for it to miss whole sectors is a file that records the sector
after the end (`StoredAt`). A run of replacements of different files leaves the contents at the replaced records and
every other record and settled file as it was (`Outcome`, `Ready.replaceAll_spec`).
-/

namespace Psprism.Iso

/-! ### An image that can be patched -/

/-- The image ends with a sector, and every settled entry lies inside it. -/
structure Ready (settled : Nat → Prop) (file : Block) (visits : List Visit) (append : Nat) : Prop
    extends Laid settled file visits where
  size_eq : file.size = append * sectorSize
  inside : ∀ r ∈ recordsOf visits, settled r.offset → r.area.Within append

theorem rootArea_congr {file file' : Block}
    (h : ∀ i, descriptorArea.Holds i → ¬ InVolumeSize i → file'.bytes i = file.bytes i) :
    rootArea file' = rootArea file := by
  have hfield : ∀ k, 88 ≤ k → k < 256 → file'.bytes (descriptorOffset + k) = file.bytes (descriptorOffset + k) := by
    intro k hlow hk
    refine h _ ⟨?_, ?_⟩ ?_
    · exact Nat.le_add_right _ _
    · unfold descriptorArea descriptorOffset sectorSize
      dsimp only
      omega
    · unfold InVolumeSize
      omega
  have hextent : readU32 file'.bytes (descriptorOffset + 158) = readU32 file.bytes (descriptorOffset + 158) :=
    readU32_congr fun j _ => by rw [Nat.add_assoc, hfield _ (by omega) (by omega)]
  have hsize : readU32 file'.bytes (descriptorOffset + 166) = readU32 file.bytes (descriptorOffset + 166) :=
    readU32_congr fun j _ => by rw [Nat.add_assoc, hfield _ (by omega) (by omega)]
  unfold rootArea
  rw [hextent, hsize]

theorem Area.Apart.shrink {a : Area} {first count count' : Nat} (h : a.Apart ⟨first, count⟩) (hle : count' ≤ count) :
    a.Apart ⟨first, count'⟩ := by
  unfold Area.Apart at h ⊢
  dsimp only at h ⊢
  omega

theorem Walker.Walk.exists_root {w : Walker} {file : Block} {root : PendingDirectory} {visits : List Visit}
    (h : Walk w file [root] ∅ visits) : ∃ v ∈ visits, v.directory = root := by
  cases h with
  | again hvisited => exact absurd hvisited (Finset.notMem_empty _)
  | visit => exact ⟨_, List.mem_cons_self, rfl⟩

/-- The directories of an image that ends with a sector lie inside it. -/
theorem directory_within {file : Block} {visits : List Visit} {append : Nat} {x : DirectoryRecord}
    (haccepted : imageWalker.visits file = .ok visits) (hsize : file.size = append * sectorSize)
    (hx : x ∈ recordsOf visits) (hdirectory : x.directory = true) : x.area.Within append := by
  obtain ⟨descriptor, root, hread, hroot, hwalk⟩ := Walker.visits_eq_ok_iff.1 haccepted
  obtain ⟨v, hv, hkey⟩ := (hwalk.visited_or.2 x hx hdirectory).resolve_left (Finset.notMem_empty _)
  have hle := (hwalk.visit_spec v hv).1
  rw [x.area_eq hkey.symm]
  unfold PendingDirectory.base at hle
  unfold PendingDirectory.area Area.Within sectors
  unfold sectorSize at hle hsize ⊢
  dsimp only
  omega

namespace Ready
variable {settled : Nat → Prop} {file : Block} {visits : List Visit} {append : Nat} {v : Visit} {x r : DirectoryRecord}

theorem descriptor_within (h : Ready settled file visits append) : descriptorArea.Within append := by
  obtain ⟨descriptor, root, hread, -, -⟩ := Walker.visits_eq_ok_iff.1 h.accepted
  have hle := (readRange_spec hread).1
  have hsize := h.size_eq
  unfold descriptorOffset sectorSize at hle
  unfold sectorSize at hsize
  refine .inr ?_
  unfold descriptorArea
  dsimp only
  omega

theorem root_within (h : Ready settled file visits append) : (rootArea file).Within append := by
  obtain ⟨descriptor, root, hread, hroot, hwalk⟩ := Walker.visits_eq_ok_iff.1 h.accepted
  obtain ⟨-, rfl⟩ := readRange_spec hread
  obtain ⟨v, hv, rfl⟩ := hwalk.exists_root
  have hle := (h.visit_spec hv).1
  have hsize := h.size_eq
  rw [← rootDirectory_spec hroot]
  unfold PendingDirectory.base at hle
  unfold PendingDirectory.area Area.Within sectors
  unfold sectorSize at hle hsize ⊢
  dsimp only
  omega

theorem visit_lt (h : Ready settled file visits append) (hv : v ∈ visits) {i : Nat} (hi : i < v.directory.size.toNat) :
    v.directory.base + i < file.size :=
  Nat.lt_of_lt_of_le (Nat.add_lt_add_left hi _) (h.visit_spec hv).1

theorem record_lt (h : Ready settled file visits append) (hx : x ∈ recordsOf visits) : x.offset + 34 ≤ file.size := by
  obtain ⟨v, hv, hx⟩ := mem_recordsOf.1 hx
  exact Nat.le_trans (h.offset_spec hv hx).2 (h.visit_spec hv).1

end Ready

/-! ### One replacement -/

/-- Where the sectors of a replacement go: apart from everything but the file it replaces. -/
structure Placed (settled : Nat → Prop) (file : Block) (visits : List Visit) (r : DirectoryRecord) (place : Area) :
    Prop where
  descriptor : descriptorArea.Apart place
  root : (rootArea file).Apart place
  records : ∀ x ∈ recordsOf visits, settled x.offset → x ≠ r → x.area.Apart place

/-- The three writes of a replacement: its data from a sector on, and the location in its record. -/
def store (file : Block) (r : DirectoryRecord) (sector : Nat) (data : List Byte) (length : Nat) : Block :=
  writeBothEndianU32
    (writeBothEndianU32 (file.put (sector * sectorSize) data) (r.offset + 2) (BitVec.ofNat 32 sector))
    (r.offset + 10) (BitVec.ofNat 32 length)

section store
variable {settled : Nat → Prop} {file : Block} {visits : List Visit} {append sector count length : Nat}
  {data : List Byte} {v : Visit} {x r : DirectoryRecord} {i : Nat}

theorem store_size (hr : r.offset + 34 ≤ file.size) :
    (store file r sector data length).size = (file.put (sector * sectorSize) data).size := by
  have hle : file.size ≤ (file.put (sector * sectorSize) data).size := Block.le_put_size
  unfold store
  rw [writeBothEndianU32.size_eq, writeBothEndianU32.size_eq]
  · omega
  · rw [writeBothEndianU32.size_eq] <;> omega

theorem le_store_size (hr : r.offset + 34 ≤ file.size) : file.size ≤ (store file r sector data length).size := by
  rw [store_size hr]
  exact Block.le_put_size

/-- Outside the location of the record only the data is written. -/
theorem store_bytes (hr : r.offset + 34 ≤ file.size) (hi : i < (file.put (sector * sectorSize) data).size)
    (hlocation : ¬ InLocation r.offset i) :
    (store file r sector data length).bytes i = (file.put (sector * sectorSize) data).bytes i := by
  have hle : file.size ≤ (file.put (sector * sectorSize) data).size := Block.le_put_size
  unfold InLocation at hlocation
  unfold store
  rw [writeBothEndianU32.bytes_of_not_mem, writeBothEndianU32.bytes_of_not_mem hi]
  · omega
  · rwa [writeBothEndianU32.size_eq (by omega)]
  · omega

theorem store_bytes_of_not_holds (hr : r.offset + 34 ≤ file.size) (hdata : data.length = count * sectorSize)
    (hi : i < file.size) (hplace : ¬ (⟨sector, count⟩ : Area).Holds i) (hlocation : ¬ InLocation r.offset i) :
    (store file r sector data length).bytes i = file.bytes i := by
  rw [store_bytes hr (Nat.lt_of_lt_of_le hi Block.le_put_size) hlocation, Block.put_bytes_of_not_mem hi]
  unfold Area.Holds at hplace
  rwa [hdata, ← Nat.add_mul]

theorem store_extent (hr : r.offset + 34 ≤ file.size) :
    readU32 (store file r sector data length).bytes (r.offset + 2) = BitVec.ofNat 32 sector ∧
      BothEndian (store file r sector data length) (r.offset + 2) := by
  have hle : file.size ≤ (file.put (sector * sectorSize) data).size := Block.le_put_size
  have hfirst : (writeBothEndianU32 (file.put (sector * sectorSize) data) (r.offset + 2) (BitVec.ofNat 32 sector)).size =
      (file.put (sector * sectorSize) data).size := writeBothEndianU32.size_eq (by omega)
  -- the second field does not touch the first one
  have hsame : ∀ k < 8, (store file r sector data length).bytes (r.offset + 2 + k) =
      (writeBothEndianU32 (file.put (sector * sectorSize) data) (r.offset + 2) (BitVec.ofNat 32 sector)).bytes
        (r.offset + 2 + k) := fun k hk => writeBothEndianU32.bytes_of_not_mem (by omega) (by omega)
  constructor
  · rw [readU32_congr fun j hj => hsame j (by omega)]
    exact writeBothEndianU32.readU32_eq (by omega)
  · intro j hj
    have hbe : BothEndian
        (writeBothEndianU32 (file.put (sector * sectorSize) data) (r.offset + 2) (BitVec.ofNat 32 sector)) (r.offset + 2) :=
      writeBothEndianU32.bothEndian (by omega)
    have hhigh := hsame (7 - j) (by omega)
    rw [show r.offset + 2 + (7 - j) = r.offset + 2 + 7 - j by omega] at hhigh
    rw [hhigh, hbe j hj, hsame j (by omega)]

theorem store_length (hr : r.offset + 34 ≤ file.size) :
    readU32 (store file r sector data length).bytes (r.offset + 10) = BitVec.ofNat 32 length ∧
      BothEndian (store file r sector data length) (r.offset + 10) := by
  have hle : file.size ≤ (file.put (sector * sectorSize) data).size := Block.le_put_size
  have hsize : r.offset + 10 + 8 ≤
      (writeBothEndianU32 (file.put (sector * sectorSize) data) (r.offset + 2) (BitVec.ofNat 32 sector)).size := by
    rw [writeBothEndianU32.size_eq] <;> omega
  exact ⟨writeBothEndianU32.readU32_eq hsize, writeBothEndianU32.bothEndian hsize⟩

namespace Placed
variable {place : Area}

theorem directory (hplace : Placed settled file visits r place) (h : Laid settled file visits) (hfile : r.directory = false)
    (hv : v ∈ visits) : v.directory.area.Apart place := by
  rcases h.directory_cases hv with hroot | ⟨x, hx, hdirectory, harea⟩
  · rw [hroot]
    exact hplace.root
  · rw [← harea]
    refine hplace.records x hx (h.directories x hx hdirectory) ?_
    rintro rfl
    rw [hfile] at hdirectory
    cases hdirectory

/-- No directory record has a byte in the place. -/
theorem not_holds_record (hplace : Placed settled file visits r place) (h : Laid settled file visits)
    (hfile : r.directory = false) (hx : x ∈ recordsOf visits) (hi : x.offset ≤ i) (hlt : i < x.offset + 34) :
    ¬ place.Holds i := by
  obtain ⟨v, hv, hx⟩ := mem_recordsOf.1 hx
  exact (hplace.directory h hfile hv).not_holds (h.record_holds hv hx hi hlt)

end Placed

/-- The data is read back from the place. -/
theorem store_data (h : Ready settled file visits append) (hr : r ∈ recordsOf visits) (hfile : r.directory = false)
    (hdata : data.length = count * sectorSize) (hplace : Placed settled file visits r ⟨sector, count⟩)
    (hi : i < data.length) :
    (store file r sector data length).bytes (sector * sectorSize + i) = data.getD i 0 := by
  have hholds : (⟨sector, count⟩ : Area).Holds (sector * sectorSize + i) := by
    refine ⟨Nat.le_add_right _ _, ?_⟩
    rw [Nat.add_mul, ← hdata]
    exact Nat.add_lt_add_left hi _
  have hlocation : ¬ InLocation r.offset (sector * sectorSize + i) := by
    intro hin
    unfold InLocation at hin
    exact hplace.not_holds_record h.toLaid hfile hr (by omega) (by omega) hholds
  have hsize : sector * sectorSize + i < (file.put (sector * sectorSize) data).size := by
    unfold Block.put
    dsimp only
    rw [if_neg (List.ne_nil_of_length_pos (Nat.zero_lt_of_lt hi))]
    omega
  rw [store_bytes (h.record_lt hr) hsize hlocation, Block.put_bytes_of_mem (by omega), Nat.add_sub_cancel_left]

theorem DirectoryRecord.relocate_self (r : DirectoryRecord) (extent size : Word) :
    r.relocate r.offset extent size = { r with extent := extent, size := size } := if_pos rfl

theorem DirectoryRecord.relocate_path (offset : Nat) (extent size : Word) (x : DirectoryRecord) :
    (x.relocate offset extent size).path = x.path := by
  unfold DirectoryRecord.relocate
  split_ifs <;> rfl

theorem DirectoryRecord.relocate_offset (offset : Nat) (extent size : Word) (x : DirectoryRecord) :
    (x.relocate offset extent size).offset = x.offset := by
  unfold DirectoryRecord.relocate
  split_ifs <;> rfl

theorem DirectoryRecord.relocate_directory (offset : Nat) (extent size : Word) (x : DirectoryRecord) :
    (x.relocate offset extent size).directory = x.directory := by
  unfold DirectoryRecord.relocate
  split_ifs <;> rfl

theorem recordsOf_relocate (visits : List Visit) (offset : Nat) (extent size : Word) :
    recordsOf (visits.map (·.relocate offset extent size)) = (recordsOf visits).map (·.relocate offset extent size) := by
  unfold recordsOf Visit.relocate
  rw [List.flatMap_map, List.map_flatMap]

namespace Laid

/-- Every record but one is another one's, with another place. -/
theorem relocate_of_ne (h : Laid settled file visits) (hx : x ∈ recordsOf visits) (hr : r ∈ recordsOf visits) (hne : x ≠ r)
    (extent size : Word) : x.relocate r.offset extent size = x :=
  DirectoryRecord.relocate_of_ne fun heq => hne (h.offset_inj hx hr heq)

theorem records_nodup (h : Laid settled file visits) : (recordsOf visits).Nodup := by
  obtain ⟨_, _, _, _, hwalk⟩ := Walker.visits_eq_ok_iff.1 h.accepted
  refine List.pairwise_flatMap.2 ⟨fun v hv => ?_, ?_⟩
  · refine (h.visit_spec hv).2.offsets.2.imp fun hlt heq => ?_
    rw [heq] at hlt
    omega
  · refine hwalk.keys.2.imp_of_mem fun hv hv' hkey x hx y hy heq => ?_
    subst heq
    have hspec := h.offset_spec hv hx
    exact h.visit_spares hv hv' (fun heq => hkey (heq ▸ rfl)) hy hspec.1 (by omega) ⟨Nat.le_refl _, by omega⟩

/-- Two records lie apart. -/
theorem not_inLocation (h : Laid settled file visits) (hx : x ∈ recordsOf visits) (hr : r ∈ recordsOf visits) (hne : x ≠ r)
    (hi : InLocation x.offset i) : ¬ InLocation r.offset i := by
  unfold InLocation at hi ⊢
  obtain ⟨v, hv, hx⟩ := mem_recordsOf.1 hx
  obtain ⟨v', hv', hr⟩ := mem_recordsOf.1 hr
  by_cases hvisit : v = v'
  · subst hvisit
    have hfar : v.records.Pairwise fun x y => x.offset + 34 ≤ y.offset ∨ y.offset + 34 ≤ x.offset :=
      (h.visit_spec hv).2.offsets.2.imp Or.inl
    have := pairwise_of_ne (R := fun x y : DirectoryRecord => x.offset + 34 ≤ y.offset ∨ y.offset + 34 ≤ x.offset) hfar
      (fun _ _ => Or.symm) hx hr hne
    omega
  · have hspec := h.offset_spec hv hx
    have := h.visit_spares hv hv' hvisit hr (i := i) (by omega) (by omega)
    omega

end Laid

section relocate
variable (hlength : sectors length ≤ count) (hlt : length < 2 ^ 32) (hsector : sector < 2 ^ 32)
include hlt hsector

theorem DirectoryRecord.relocate_area (r : DirectoryRecord) :
    (r.relocate r.offset (BitVec.ofNat 32 sector) (BitVec.ofNat 32 length)).area = ⟨sector, sectors length⟩ := by
  rw [r.relocate_self]
  unfold DirectoryRecord.area
  dsimp only
  rw [BitVec.toNat_ofNat, BitVec.toNat_ofNat, Nat.mod_eq_of_lt hsector, Nat.mod_eq_of_lt hlt]

include hlength

/-- What is apart from a settled record and from the place is apart from the record after the replacement. -/
theorem Laid.apart_relocate (h : Laid settled file visits) (hr : r ∈ recordsOf visits) {a : Area}
    (ha : a.Apart ⟨sector, count⟩) (hx : x ∈ recordsOf visits) (hxa : settled x.offset → x ≠ r → a.Apart x.area)
    (hsettled : settled x.offset ∨ x.offset = r.offset) :
    a.Apart (x.relocate r.offset (BitVec.ofNat 32 sector) (BitVec.ofNat 32 length)).area := by
  by_cases hne : x = r
  · subst hne
    rw [x.relocate_area hlt hsector]
    exact ha.shrink hlength
  · rw [h.relocate_of_ne hx hr hne]
    exact hxa (hsettled.resolve_right fun heq => hne (h.offset_inj hx hr heq)) hne

/-- The areas are apart again, the one of the replaced file with them. -/
theorem Placed.laid_relocate (hplace : Placed settled file visits r ⟨sector, count⟩) (h : Laid settled file visits)
    (hr : r ∈ recordsOf visits) {file' : Block} (hroot : rootArea file' = rootArea file)
    (haccepted : imageWalker.visits file' =
      .ok (visits.map (·.relocate r.offset (BitVec.ofNat 32 sector) (BitVec.ofNat 32 length)))) :
    Laid (fun offset => settled offset ∨ offset = r.offset) file'
      (visits.map (·.relocate r.offset (BitVec.ofNat 32 sector) (BitVec.ofNat 32 length))) := by
  have hmem {x'} (hx' : x' ∈ recordsOf
      (visits.map (·.relocate r.offset (BitVec.ofNat 32 sector) (BitVec.ofNat 32 length)))) :
      ∃ x ∈ recordsOf visits, x.relocate r.offset (BitVec.ofNat 32 sector) (BitVec.ofNat 32 length) = x' :=
    List.mem_map.1 (recordsOf_relocate visits .. ▸ hx')
  constructor
  · exact haccepted
  · intro x' hx' hdirectory
    obtain ⟨x, hx, rfl⟩ := hmem hx'
    rw [x.relocate_directory] at hdirectory
    rw [x.relocate_offset]
    exact .inl (h.directories x hx hdirectory)
  · rw [hroot]
    exact h.descriptor_root
  · intro x' hx' hsettled
    obtain ⟨x, hx, rfl⟩ := hmem hx'
    rw [x.relocate_offset] at hsettled
    exact h.apart_relocate hlength hlt hsector hr hplace.descriptor hx (fun hxs _ => h.descriptor x hx hxs) hsettled
  · intro x' hx' hsettled
    obtain ⟨x, hx, rfl⟩ := hmem hx'
    rw [x.relocate_offset] at hsettled
    rw [hroot]
    exact h.apart_relocate hlength hlt hsector hr hplace.root hx (fun hxs _ => h.root x hx hxs) hsettled
  · rw [recordsOf_relocate]
    refine List.pairwise_map.2 ((h.records.and h.records_nodup).imp_of_mem fun {x y} hx hy hxy hxs hys => ?_)
    rw [DirectoryRecord.relocate_offset] at hxs hys
    by_cases hxr : x = r
    · subst hxr
      have hyx : y.area.Apart ⟨sector, count⟩ :=
        hplace.records y hy (hys.resolve_right fun heq => hxy.2 (h.offset_inj hx hy heq.symm)) (Ne.symm hxy.2)
      rw [h.relocate_of_ne hy hr (Ne.symm hxy.2), x.relocate_area hlt hsector]
      exact (hyx.shrink hlength).symm
    · have hxs := hxs.resolve_right fun heq => hxr (h.offset_inj hx hr heq)
      rw [h.relocate_of_ne hx hr hxr]
      exact h.apart_relocate hlength hlt hsector hr (hplace.records x hx hxs hxr) hy (fun hys _ => hxy.1 hxs hys) hys

/-- Every settled entry is inside the image, which ends after the place. -/
theorem Ready.inside_relocate {append' : Nat} (h : Ready settled file visits append) (hr : r ∈ recordsOf visits)
    (happend : append' = if count = 0 then append else max append (sector + count)) :
    ∀ x ∈ recordsOf (visits.map (·.relocate r.offset (BitVec.ofNat 32 sector) (BitVec.ofNat 32 length))),
      settled x.offset ∨ x.offset = r.offset → x.area.Within append' := by
  rw [recordsOf_relocate]
  intro x' hx' hsettled
  obtain ⟨x, hx, rfl⟩ := List.mem_map.1 hx'
  rw [x.relocate_offset] at hsettled
  by_cases hne : x = r
  · subst hne
    rw [x.relocate_area hlt hsector, happend]
    unfold Area.Within
    dsimp only
    split_ifs <;> omega
  · rw [h.relocate_of_ne hx hr hne]
    refine (h.inside x hx (hsettled.resolve_right fun heq => hne (h.offset_inj hx hr heq))).mono ?_
    rw [happend]
    split_ifs <;> omega

end relocate

/-- The image ends after the place, or where it ended before. -/
theorem Ready.store_size_eq {append' : Nat} (h : Ready settled file visits append) (hr : r ∈ recordsOf visits)
    (hdata : data.length = count * sectorSize)
    (happend : append' = if count = 0 then append else max append (sector + count)) :
    (Iso.store file r sector data length).size = append' * sectorSize := by
  rw [store_size (h.record_lt hr), happend]
  unfold Block.put
  dsimp only
  rw [hdata, h.size_eq, ← Nat.add_mul, Nat.mul_max_mul_right]
  have hempty : data = [] ↔ count = 0 := by
    rw [← List.length_eq_zero_iff, hdata]
    unfold sectorSize
    omega
  by_cases hzero : count = 0
  · rw [if_pos (hempty.2 hzero), if_pos hzero]
  · rw [if_neg (mt hempty.1 hzero), if_neg hzero]

/-- The descriptor is not written. -/
theorem Ready.store_descriptor (h : Ready settled file visits append) (hr : r ∈ recordsOf visits)
    (hdata : data.length = count * sectorSize) (hplace : Placed settled file visits r ⟨sector, count⟩)
    (hi : descriptorArea.Holds i) : (Iso.store file r sector data length).bytes i = file.bytes i := by
  refine store_bytes_of_not_holds (h.record_lt hr) hdata ?_ (hplace.descriptor.not_holds hi) fun hlocation => ?_
  · rw [h.size_eq]
    exact h.descriptor_within.lt hi
  · obtain ⟨v, hv, hr⟩ := mem_recordsOf.1 hr
    unfold InLocation at hlocation
    exact (h.directory_apart_descriptor hv).not_holds hi (h.record_holds hv hr (by omega) (by omega))

/-- A replacement that is placed apart from everything else leaves an image that can be patched again, with the
same records but for the location of the one, which is settled. -/
theorem Ready.store {append' : Nat} (h : Ready settled file visits append) (hr : r ∈ recordsOf visits)
    (hfile : r.directory = false) (hdata : data.length = count * sectorSize) (hlength : length ≤ data.length)
    (hlt : length < 2 ^ 32) (hsector : sector < 2 ^ 32) (hplace : Placed settled file visits r ⟨sector, count⟩)
    (happend : append' = if count = 0 then append else max append (sector + count)) :
    Ready (fun offset => settled offset ∨ offset = r.offset) (Iso.store file r sector data length)
      (visits.map (·.relocate r.offset (BitVec.ofNat 32 sector) (BitVec.ofNat 32 length))) append' := by
  have hrecord := h.record_lt hr
  have hcount : sectors length ≤ count := by
    rw [hdata] at hlength
    unfold sectors sectorSize at *
    omega
  have hdescriptor : ∀ i, descriptorArea.Holds i → ¬ InVolumeSize i →
      (Iso.store file r sector data length).bytes i = file.bytes i :=
    fun i hi _ => h.store_descriptor hr hdata hplace hi
  have haccepted := Walker.visits_edited h.accepted (le_store_size hrecord) hdescriptor ?_ ?_ ?_
    (store_extent hrecord).1 (store_length hrecord).1
  · exact ⟨hplace.laid_relocate hcount hlt hsector h.toLaid hr (rootArea_congr hdescriptor) haccepted,
      h.store_size_eq hr hdata happend, h.inside_relocate hcount hlt hsector hr happend⟩
  · intro v hv i hi hlocation
    refine store_bytes_of_not_holds hrecord hdata (h.visit_lt hv hi) ?_ hlocation
    exact (hplace.directory h.toLaid hfile hv).not_holds (PendingDirectory.holds (Nat.le_add_right _ _) (by omega))
  · intro v hv
    obtain ⟨v', hv', hr'⟩ := mem_recordsOf.1 hr
    by_cases hvisit : v = v'
    · subst hvisit
      exact .inr ⟨r, hr', rfl⟩
    · refine .inl fun i hi hend hlocation => h.visit_spares hv hv' hvisit hr' hi hend ?_
      unfold InLocation at hlocation
      omega
  · intro v hv x hx hoffset
    rw [h.offset_inj (mem_recordsOf.2 ⟨v, hv, hx⟩) hr hoffset]
    exact hfile

end store

/-- The sectors that a replacement adds to the image. -/
def appended (info : DirectoryRecordInfo) (content : List Byte) : Nat :=
  if Fits info content then 0 else sectors content.length

/-- A replacement as it is stored: its sectors, what is written there, and that they are apart from the rest. -/
structure StoredAt (settled : Nat → Prop) (file : Block) (visits : List Visit) (append : Nat) (r : DirectoryRecord)
    (content : List Byte) (sector count padding : Nat) : Prop where
  placed : Placed settled file visits r ⟨sector, count⟩
  sector_lt : sector < 2 ^ 32
  sector_le : sector ≤ append
  length_eq : (content ++ List.replicate padding (0 : Byte)).length = count * sectorSize
  append_eq : append + appended r.info content = if count = 0 then append else max append (sector + count)
  result : replaceRecord r.info content ⟨file, append⟩ =
    ⟨store file r sector (content ++ List.replicate padding 0) content.length, append + appended r.info content⟩

section
variable {settled : Nat → Prop} {file : Block} {visits : List Visit} {append : Nat} {r : DirectoryRecord}
  {content : List Byte}

theorem DirectoryRecord.area_count (r : DirectoryRecord) : r.area.count = sectors r.info.size.toNat := rfl

/-- A replacement that fits goes over the file, padded to all of its sectors. -/
theorem Ready.storedAt_of_fits (h : Ready settled file visits append) (hr : r ∈ recordsOf visits)
    (hsettled : settled r.offset) (hfits : Fits r.info content) :
    ∃ padding, StoredAt settled file visits append r content r.area.first r.area.count padding := by
  have hinside := h.inside r hr hsettled
  have hle := le_sectors content.length
  have hcount : content.length ≤ sectors r.info.size.toNat * sectorSize :=
    Nat.le_trans hle (Nat.mul_le_mul_right _ hfits.2)
  refine ⟨sectors r.info.size.toNat * sectorSize - content.length, ?_, r.extent.isLt, ?_, ?_, ?_, ?_⟩
  · exact ⟨h.descriptor r hr hsettled, h.root r hr hsettled, fun x hx hxs hne => h.record_apart hx hr hne hxs hsettled⟩
  · unfold Area.Within at hinside
    have hne := hfits.1
    rw [← DirectoryRecord.area_count] at hne
    omega
  · rw [List.length_append, List.length_replicate, DirectoryRecord.area_count]
    omega
  · unfold appended
    unfold Area.Within at hinside
    have hne := hfits.1
    rw [← DirectoryRecord.area_count] at hne
    rw [if_pos hfits, if_neg hne]
    omega
  · unfold replaceRecord appended
    simp only [if_pos hfits, if_true]
    rfl

theorem Block.put_nil (file : Block) (offset offset' : Nat) : file.put offset [] = file.put offset' [] := by
  have houtside (offset i : Nat) : ¬ (offset ≤ i ∧ i < offset + ([] : List Byte).length) := by
    rw [List.length_nil]
    omega
  unfold put
  simp only [if_neg (houtside _ _), if_true]

/-- A replacement that does not fit goes to the end, and adds whole sectors there. -/
theorem Ready.storedAt_of_not_fits (h : Ready settled file visits append) (happend : append < 2 ^ 32)
    (hspaced : r.extent.toNat = append → content.length % sectorSize = 0) (hfits : ¬ Fits r.info content) :
    ∃ padding, StoredAt settled file visits append r content append (sectors content.length) padding := by
  have hle := le_sectors content.length
  refine ⟨(if append = r.info.extent.toNat then sectors r.info.size.toNat else sectors content.length) * sectorSize -
    content.length, ?_, happend, Nat.le_refl _, ?_, ?_, ?_⟩
  · exact ⟨h.descriptor_within.apart, h.root_within.apart, fun x hx hxs _ => (h.inside x hx hxs).apart⟩
  · rw [List.length_append, List.length_replicate]
    split_ifs with hcoincide
    · -- the sectors are counted as those of the old file, which are fewer
      have hwhole := hspaced hcoincide.symm
      unfold Fits at hfits
      generalize sectors r.info.size.toNat = original at hfits ⊢
      have hsectors : sectors content.length * sectorSize = content.length := by
        unfold sectors sectorSize at *
        omega
      have hfewer : original * sectorSize ≤ content.length := by
        rw [← hsectors]
        exact Nat.mul_le_mul_right _ (by omega)
      omega
    · omega
  · unfold appended
    rw [if_neg hfits]
    split_ifs <;> omega
  · unfold replaceRecord appended
    simp only [if_neg hfits]
    rfl

/-- An empty replacement of an empty file writes nothing but the location, of any sector. -/
theorem Ready.storedAt_of_empty (hfits : ¬ Fits r.info []) :
    StoredAt settled file visits append r [] (append % 2 ^ 32) 0 0 := by
  have hempty : sectors r.info.size.toNat = 0 := by
    by_contra hne
    exact hfits ⟨hne, Nat.zero_le _⟩
  have happended : appended r.info [] = 0 := if_neg hfits
  refine ⟨?_, Nat.mod_lt _ (by decide), Nat.mod_le _ _, rfl, ?_, ?_⟩
  · exact ⟨.inr (.inl rfl), .inr (.inl rfl), fun x _ _ _ => .inr (.inl rfl)⟩
  · rw [happended]
    rfl
  · have hsectors : sectors ([] : List Byte).length = 0 := rfl
    have hword : BitVec.ofNat 32 append = BitVec.ofNat 32 (append % 2 ^ 32) :=
      BitVec.eq_of_toNat_eq (by simp)
    rw [happended]
    unfold replaceRecord Iso.store
    simp only [if_neg hfits, hsectors, hempty, ite_self, Nat.zero_mul, Nat.zero_sub, List.replicate_zero,
      List.append_nil, Nat.add_zero, hword]
    rw [file.put_nil (append * sectorSize) (append % 2 ^ 32 * sectorSize)]
    rfl

/-- The record names a file with the content, and both copies of its location say so. -/
structure ContentAt (file : Block) (r : DirectoryRecord) (content : List Byte) : Prop where
  isFile : r.directory = false
  size_eq : r.size.toNat = content.length
  inside : r.extent.toNat * sectorSize + content.length ≤ file.size
  bytes : ∀ i < content.length, file.bytes (r.extent.toNat * sectorSize + i) = content.getD i 0
  extent : BothEndian file (r.offset + 2)
  length : BothEndian file (r.offset + 10)

/-- The record is found in the second file as in the first, and so are its bytes and those of its file, if it is
settled. -/
structure Kept (settled : Nat → Prop) (file file' : Block) (visits' : List Visit) (x : DirectoryRecord) : Prop where
  mem : x ∈ recordsOf visits'
  location : ∀ i, InLocation x.offset i → file'.bytes i = file.bytes i
  content : x.directory = false → settled x.offset → ∀ i, x.area.Holds i → file'.bytes i = file.bytes i

theorem ContentAt.of_kept {file' : Block} {visits' : List Visit} (h : ContentAt file r content)
    (hkept : Kept settled file file' visits' r) (hsettled : settled r.offset) (hle : file.size ≤ file'.size) :
    ContentAt file' r content where
  isFile := h.isFile
  size_eq := h.size_eq
  inside := Nat.le_trans h.inside hle
  bytes i hi := by
    rw [hkept.content h.isFile hsettled, h.bytes i hi]
    exact DirectoryRecord.holds (Nat.le_add_right _ _) (by rw [h.size_eq]; omega)
  extent j hj := by
    rw [hkept.location _ ⟨by omega, by omega⟩, hkept.location _ ⟨by omega, by omega⟩]
    exact h.extent j hj
  length j hj := by
    rw [hkept.location _ ⟨by omega, by omega⟩, hkept.location _ ⟨by omega, by omega⟩]
    exact h.length j hj

/-- What some replacements leave of an image. -/
structure Outcome (settled : Nat → Prop) (file : Block) (visits : List Visit)
    (targets : List (DirectoryRecord × List Byte)) (file' : Block) (visits' : List Visit) : Prop where
  size_le : file.size ≤ file'.size
  visited : visits'.map (·.directory) = visits.map (·.directory)
  replaced : ∀ t ∈ targets, ∃ r ∈ recordsOf visits', r.path = t.1.path ∧ r.offset = t.1.offset ∧ ContentAt file' r t.2
  kept : ∀ x ∈ recordsOf visits, (∀ t ∈ targets, t.1 ≠ x) → Kept settled file file' visits' x
  paths : (recordsOf visits').map (·.path) = (recordsOf visits).map (·.path)
  origin : ∀ y ∈ recordsOf visits', ∃ x ∈ recordsOf visits, x.offset = y.offset ∧ x.path = y.path
  directories : ∀ v ∈ visits, ∀ i < v.directory.size.toNat,
    (∀ t ∈ targets, ¬ InLocation t.1.offset (v.directory.base + i)) →
      file'.bytes (v.directory.base + i) = file.bytes (v.directory.base + i)

section
variable {sector count padding : Nat} (hstored : StoredAt settled file visits append r content sector count padding)
  (h : Ready settled file visits append) (hr : r ∈ recordsOf visits) (hfile : r.directory = false)
include hstored h hr

/-- A stored replacement changes its sectors and the location fields of its record. -/
theorem StoredAt.bytes_eq {i : Nat} (hi : i < file.size) (hout : ¬ (⟨sector, count⟩ : Area).Holds i)
    (hlocation : ¬ InLocation r.offset i) :
    (store file r sector (content ++ List.replicate padding 0) content.length).bytes i = file.bytes i :=
  store_bytes_of_not_holds (h.record_lt hr) hstored.length_eq hi hout hlocation

include hfile

/-- The record then says where the content is. -/
theorem StoredAt.contentAt (hlength : content.length < 2 ^ 32) :
    ContentAt (store file r sector (content ++ List.replicate padding 0) content.length)
      (r.relocate r.offset (BitVec.ofNat 32 sector) (BitVec.ofNat 32 content.length)) content := by
  have hrecord := h.record_lt hr
  have hprefix : content.length ≤ (content ++ List.replicate padding (0 : Byte)).length := by
    rw [List.length_append]
    omega
  have hsector : (BitVec.ofNat 32 sector).toNat = sector :=
    (BitVec.toNat_ofNat ..).trans (Nat.mod_eq_of_lt hstored.sector_lt)
  rw [r.relocate_self]
  refine ⟨hfile, ?_, ?_, fun i hi => ?_, (store_extent hrecord).2, (store_length hrecord).2⟩
  · exact (BitVec.toNat_ofNat ..).trans (Nat.mod_eq_of_lt hlength)
  · have hle := Nat.mul_le_mul_right sectorSize hstored.sector_le
    rw [← h.size_eq] at hle
    dsimp only
    rw [hsector, store_size hrecord]
    unfold Block.put
    dsimp only
    split_ifs with hempty
    · rw [hempty] at hprefix
      have := Nat.le_zero.1 hprefix
      omega
    · omega
  · dsimp only
    rw [hsector, store_data h hr hfile hstored.length_eq hstored.placed (Nat.lt_of_lt_of_le hi hprefix)]
    rw [List.getD_eq_getElem?_getD, List.getElem?_append_left hi, List.getD_eq_getElem?_getD]

/-- Every other record stays, with its location and its file. -/
theorem StoredAt.kept {x : DirectoryRecord} (hx : x ∈ recordsOf visits) (hne : x ≠ r) :
    Kept settled file (store file r sector (content ++ List.replicate padding 0) content.length)
      (visits.map (·.relocate r.offset (BitVec.ofNat 32 sector) (BitVec.ofNat 32 content.length))) x := by
  have hlt := h.record_lt hx
  refine ⟨?_, fun i hi => ?_, fun hxfile hxs i hi => ?_⟩
  · rw [recordsOf_relocate]
    exact List.mem_map.2 ⟨x, hx, h.relocate_of_ne hx hr hne _ _⟩
  · have hin := hi
    unfold InLocation at hin
    refine hstored.bytes_eq h hr (by omega) ?_ (h.not_inLocation hx hr hne hi)
    exact hstored.placed.not_holds_record h.toLaid hfile hx (by omega) (by omega)
  · refine hstored.bytes_eq h hr ?_ ((hstored.placed.records x hx hxs hne).not_holds hi) fun hlocation => ?_
    · rw [h.size_eq]
      exact (h.inside x hx hxs).lt hi
    · obtain ⟨v, hv, hr⟩ := mem_recordsOf.1 hr
      unfold InLocation at hlocation
      exact (h.directory_apart_file hv hx hxfile hxs).not_holds (h.record_holds hv hr (by omega) (by omega)) hi

/-- What one stored replacement leaves of the image. -/
theorem StoredAt.outcome (hlength : content.length < 2 ^ 32) :
    Outcome settled file visits [(r, content)] (store file r sector (content ++ List.replicate padding 0) content.length)
      (visits.map (·.relocate r.offset (BitVec.ofNat 32 sector) (BitVec.ofNat 32 content.length))) := by
  constructor
  · exact le_store_size (h.record_lt hr)
  · rw [List.map_map]
    rfl
  · intro t ht
    obtain rfl := List.mem_singleton.1 ht
    refine ⟨r.relocate r.offset (BitVec.ofNat 32 sector) (BitVec.ofNat 32 content.length), ?_, r.relocate_path _ _ _,
      r.relocate_offset _ _ _, hstored.contentAt h hr hfile hlength⟩
    rw [recordsOf_relocate]
    exact List.mem_map_of_mem hr
  · intro x hx hne
    exact hstored.kept h hr hfile hx (Ne.symm (hne _ (List.mem_singleton_self _)))
  · rw [recordsOf_relocate, List.map_map]
    exact List.map_congr_left fun x _ => x.relocate_path _ _ _
  · intro y hy
    rw [recordsOf_relocate] at hy
    obtain ⟨x, hx, rfl⟩ := List.mem_map.1 hy
    exact ⟨x, hx, (x.relocate_offset _ _ _).symm, (x.relocate_path _ _ _).symm⟩
  · intro v hv i hi hlocation
    refine hstored.bytes_eq h hr (h.visit_lt hv hi) ?_ (hlocation _ (List.mem_singleton_self _))
    exact (hstored.placed.directory h.toLaid hfile hv).not_holds (PendingDirectory.holds (Nat.le_add_right _ _) (by omega))

end

end

/-! ### A run of replacements -/

theorem Kept.trans {settled settled' : Nat → Prop} {file₁ file₂ file₃ : Block} {visits₂ visits₃ : List Visit}
    {x : DirectoryRecord} (h : Kept settled file₁ file₂ visits₂ x) (h' : Kept settled' file₂ file₃ visits₃ x)
    (hle : ∀ offset, settled offset → settled' offset) : Kept settled file₁ file₃ visits₃ x where
  mem := h'.mem
  location i hi := (h'.location i hi).trans (h.location i hi)
  content hfile hx i hi := (h'.content hfile (hle _ hx) i hi).trans (h.content hfile hx i hi)

theorem Outcome.refl (settled : Nat → Prop) (file : Block) (visits : List Visit) :
    Outcome settled file visits [] file visits where
  size_le := Nat.le_refl _
  visited := rfl
  replaced _ ht := absurd ht List.not_mem_nil
  kept _ hx _ := ⟨hx, fun _ _ => rfl, fun _ _ _ _ => rfl⟩
  paths := rfl
  origin y hy := ⟨y, hy, rfl, rfl⟩
  directories _ _ _ _ _ := rfl

/-- Some replacements and others after them, which are of other records. What the first ones replaced is settled then. -/
theorem Outcome.append {settled settled' : Nat → Prop} {file file₁ file' : Block} {visits visits₁ visits' : List Visit}
    {targets rest : List (DirectoryRecord × List Byte)} (hfirst : Outcome settled file visits targets file₁ visits₁)
    (hnext : Outcome settled' file₁ visits₁ rest file' visits') (hle : ∀ offset, settled offset → settled' offset)
    (hsettled : ∀ t ∈ targets, settled' t.1.offset) (hne : ∀ t ∈ targets, ∀ u ∈ rest, u.1.offset ≠ t.1.offset) :
    Outcome settled file visits (targets ++ rest) file' visits' where
  size_le := Nat.le_trans hfirst.size_le hnext.size_le
  visited := hnext.visited.trans hfirst.visited
  replaced := by
    intro t ht
    rcases List.mem_append.1 ht with ht | ht
    · obtain ⟨x, hx, hpath, hoffset, hcontent⟩ := hfirst.replaced t ht
      have hkept : Kept settled' file₁ file' visits' x := by
        refine hnext.kept x hx fun u hu => ?_
        rintro rfl
        exact hne t ht u hu hoffset
      exact ⟨x, hkept.mem, hpath, hoffset, hcontent.of_kept hkept (hoffset ▸ hsettled t ht) hnext.size_le⟩
    · exact hnext.replaced t ht
  kept := by
    intro x hx hother
    have hone := hfirst.kept x hx fun t ht => hother t (List.mem_append_left _ ht)
    exact hone.trans (hnext.kept x hone.mem fun t ht => hother t (List.mem_append_right _ ht)) hle
  paths := hnext.paths.trans hfirst.paths
  origin y hy := by
    obtain ⟨x, hx, hoffset, hpath⟩ := hnext.origin y hy
    obtain ⟨z, hz, hoffset', hpath'⟩ := hfirst.origin x hx
    exact ⟨z, hz, hoffset'.trans hoffset, hpath'.trans hpath⟩
  directories := by
    intro v hv i hi hlocation
    obtain ⟨v₁, hv₁, hdirectory⟩ := List.mem_map.1 (hfirst.visited ▸ List.mem_map_of_mem hv)
    rw [← hdirectory] at hi hlocation ⊢
    rw [hnext.directories v₁ hv₁ i hi fun t ht => hlocation t (List.mem_append_right _ ht)]
    rw [hdirectory] at hi hlocation ⊢
    exact hfirst.directories v hv i hi fun t ht => hlocation t (List.mem_append_left _ ht)

/-- A file that does not fit and records the sector after the end, as it is before the replacement, gets whole sectors
only. -/
def Spaced : Nat → List (DirectoryRecordInfo × List Byte) → Prop
  | _, [] => True
  | append, (info, content) :: rest =>
    (¬ Fits info content → info.extent.toNat = append → content.length % sectorSize = 0) ∧
      Spaced (append + appended info content) rest

/-- The sectors that replacements add. -/
def grown (assigned : List (DirectoryRecordInfo × List Byte)) : Nat := (assigned.map fun t => appended t.1 t.2).sum

def infosOf (targets : List (DirectoryRecord × List Byte)) : List (DirectoryRecordInfo × List Byte) :=
  targets.map fun t => (t.1.info, t.2)

def replaceAll (assigned : List (DirectoryRecordInfo × List Byte)) (p : Patching) : Patching :=
  assigned.foldl (fun p t => replaceRecord t.1 t.2 p) p

/-- A replacement of a file that is settled if it fits has its place. -/
theorem Ready.exists_storedAt {settled : Nat → Prop} {file : Block} {visits : List Visit} {append : Nat}
    {r : DirectoryRecord} {content : List Byte} (h : Ready settled file visits append) (hr : r ∈ recordsOf visits)
    (hsettled : Fits r.info content → settled r.offset)
    (hspaced : ¬ Fits r.info content → r.extent.toNat = append → content.length % sectorSize = 0)
    (hsum : appended r.info content = 0 ∨ append < 2 ^ 32) :
    ∃ sector count padding, StoredAt settled file visits append r content sector count padding := by
  by_cases hfits : Fits r.info content
  · exact ⟨_, _, h.storedAt_of_fits hr (hsettled hfits) hfits⟩
  rcases hsum with hnone | happend
  · rw [appended, if_neg hfits, sectors_eq_zero_iff, List.length_eq_zero_iff] at hnone
    subst hnone
    exact ⟨_, _, _, Ready.storedAt_of_empty hfits⟩
  · exact ⟨_, _, h.storedAt_of_not_fits happend (hspaced hfits) hfits⟩

/-- Replacements of different files that meet the conditions leave an image that can be patched again, and of the
image what they should. -/
theorem Ready.replaceAll_spec {targets : List (DirectoryRecord × List Byte)} : ∀ {settled : Nat → Prop} {file : Block}
    {visits : List Visit} {append : Nat}, Ready settled file visits append →
      (∀ t ∈ targets, t.1 ∈ recordsOf visits ∧ t.1.directory = false ∧ t.2.length < 2 ^ 32) →
      (∀ t ∈ targets, Fits t.1.info t.2 → settled t.1.offset) →
      (targets.map (·.1)).Nodup → Spaced append (infosOf targets) →
      grown (infosOf targets) = 0 ∨ append + grown (infosOf targets) < 2 ^ 32 →
      ∃ settled' visits', (∀ offset, settled offset → settled' offset) ∧ (∀ t ∈ targets, settled' t.1.offset) ∧
        Ready settled' (replaceAll (infosOf targets) ⟨file, append⟩).target visits'
          (replaceAll (infosOf targets) ⟨file, append⟩).appendSector ∧
        (replaceAll (infosOf targets) ⟨file, append⟩).appendSector = append + grown (infosOf targets) ∧
        Outcome settled file visits targets (replaceAll (infosOf targets) ⟨file, append⟩).target visits' := by
  induction targets with
  | nil =>
    intro settled file visits append h _ _ _ _ _
    exact ⟨settled, visits, fun _ h => h, nofun, h, rfl, .refl settled file visits⟩
  | cons t rest ih =>
    intro settled file visits append h htargets hsettled hnodup hspaced hsum
    obtain ⟨r, content⟩ := t
    obtain ⟨hr, hfile, hlength⟩ := htargets _ List.mem_cons_self
    obtain ⟨hnotin, hnodup⟩ := List.nodup_cons.1 hnodup
    have hne : ∀ t ∈ rest, t.1 ≠ r := fun t ht heq => hnotin (List.mem_map.2 ⟨t, ht, heq⟩)
    have hgrown : grown (infosOf ((r, content) :: rest)) = appended r.info content + grown (infosOf rest) := rfl
    rw [hgrown] at hsum
    have hfirstSum : appended r.info content = 0 ∨ append < 2 ^ 32 := by omega
    have hrestSum : grown (infosOf rest) = 0 ∨
        append + appended r.info content + grown (infosOf rest) < 2 ^ 32 := by omega
    obtain ⟨sector, count, padding, hstored⟩ : ∃ sector count padding,
        StoredAt settled file visits append r content sector count padding :=
      h.exists_storedAt hr (hsettled _ List.mem_cons_self) hspaced.1 hfirstSum
    have hlen : content.length ≤ (content ++ List.replicate padding (0 : Byte)).length := by
      rw [List.length_append]
      omega
    have hready := h.store hr hfile hstored.length_eq hlen hlength hstored.sector_lt hstored.placed hstored.append_eq
    have hfirst := hstored.outcome h hr hfile hlength
    have hkept : ∀ t ∈ rest, t.1 ∈ recordsOf
        (visits.map (·.relocate r.offset (BitVec.ofNat 32 sector) (BitVec.ofNat 32 content.length))) := by
      intro t ht
      refine (hfirst.kept t.1 (htargets t (List.mem_cons_of_mem _ ht)).1 fun u hu => ?_).mem
      obtain rfl := List.mem_singleton.1 hu
      exact Ne.symm (hne t ht)
    obtain ⟨settled', visits', hle, htaken, hready', hsector, houtcome⟩ := ih hready
      (fun t ht => ⟨hkept t ht, (htargets t (List.mem_cons_of_mem _ ht)).2⟩)
      (fun t ht hfits => .inl (hsettled t (List.mem_cons_of_mem _ ht) hfits)) hnodup hspaced.2 hrestSum
    have hstep : replaceAll (infosOf ((r, content) :: rest)) ⟨file, append⟩ = replaceAll (infosOf rest)
        ⟨Iso.store file r sector (content ++ List.replicate padding 0) content.length, append + appended r.info content⟩ :=
      congrArg (replaceAll (infosOf rest)) hstored.result
    rw [hstep]
    refine ⟨settled', visits', fun _ hoffset => hle _ (.inl hoffset), List.forall_mem_cons.2 ⟨hle _ (.inr rfl), htaken⟩,
      hready', by rw [hsector, hgrown, Nat.add_assoc], ?_⟩
    refine hfirst.append houtcome (fun _ hoffset => .inl hoffset) ?_ ?_
    · intro t ht
      obtain rfl := List.mem_singleton.1 ht
      exact .inr rfl
    · intro t ht u hu heq
      obtain rfl := List.mem_singleton.1 ht
      exact hne u hu (h.offset_inj (htargets u (List.mem_cons_of_mem _ hu)).1 hr heq)

theorem map_relocate_of_ne {visits : List Visit} {offset : Nat} (extent size : Word)
    (h : ∀ x ∈ recordsOf visits, x.offset ≠ offset) : visits.map (·.relocate offset extent size) = visits := by
  have hvisit : ∀ v ∈ visits, v.relocate offset extent size = v := by
    intro v hv
    have hrecords : v.records.map (·.relocate offset extent size) = v.records.map fun x => x :=
      List.map_congr_left fun x hx => DirectoryRecord.relocate_of_ne (h x (mem_recordsOf.2 ⟨v, hv, hx⟩))
    unfold Visit.relocate
    rw [hrecords, List.map_id']
  exact (List.map_congr_left hvisit).trans (List.map_id' visits)

theorem InVolumeSize.holds {i : Nat} (h : InVolumeSize i) : descriptorArea.Holds i := by
  unfold InVolumeSize descriptorOffset sectorSize at h
  unfold Area.Holds descriptorArea sectorSize
  dsimp only
  omega

/-! ### The volume size -/

section VolumeSize
variable {settled : Nat → Prop} {file : Block} {visits : List Visit} {append : Nat}

theorem bytes_writeVolumeSize (value : Word) {i : Nat} (hi : i < file.size) (hout : ¬ InVolumeSize i) :
    (writeBothEndianU32 file (descriptorOffset + 80) value).bytes i = file.bytes i := by
  refine writeBothEndianU32.bytes_of_not_mem hi ?_
  unfold InVolumeSize at hout
  omega

variable (h : Ready settled file visits append) (value : Word)
include h

theorem Ready.volumeSize_inside : descriptorOffset + 88 ≤ file.size := by
  have hwithin := h.descriptor_within
  have hsize := h.size_eq
  unfold Area.Within descriptorArea at hwithin
  unfold descriptorOffset sectorSize
  unfold sectorSize at hsize
  dsimp only at hwithin
  omega

theorem Ready.size_writeVolumeSize : (writeBothEndianU32 file (descriptorOffset + 80) value).size = file.size := by
  have hend := h.volumeSize_inside
  exact writeBothEndianU32.size_eq (by omega)

theorem Ready.directory_writeVolumeSize {v : Visit} (hv : v ∈ visits) {i : Nat} (hi : i < v.directory.size.toNat) :
    (writeBothEndianU32 file (descriptorOffset + 80) value).bytes (v.directory.base + i) =
      file.bytes (v.directory.base + i) := by
  refine bytes_writeVolumeSize value (h.visit_lt hv hi) fun hin => ?_
  exact (h.directory_apart_descriptor hv).not_holds hin.holds (PendingDirectory.holds (Nat.le_add_right _ _) (by omega))

theorem Ready.descriptor_writeVolumeSize {i : Nat} (hi : descriptorArea.Holds i) (hout : ¬ InVolumeSize i) :
    (writeBothEndianU32 file (descriptorOffset + 80) value).bytes i = file.bytes i := by
  refine bytes_writeVolumeSize value ?_ hout
  rw [h.size_eq]
  exact h.descriptor_within.lt hi

/-- No record is at the end of the file, so the walk is the same. -/
theorem Ready.visits_writeVolumeSize :
    imageWalker.visits (writeBothEndianU32 file (descriptorOffset + 80) value) = .ok visits := by
  have hoffset : ∀ x ∈ recordsOf visits, x.offset ≠ file.size := by
    intro x hx heq
    have := h.record_lt hx
    omega
  have hplace : ∀ v ∈ visits, (∀ i, v.directory.base ≤ i → i < v.directory.base + v.directory.size.toNat →
      ¬ InLocation file.size i) ∨ ∃ x ∈ v.records, x.offset = file.size := by
    intro v hv
    refine .inl fun i _ hi => ?_
    have := (h.visit_spec hv).1
    unfold InLocation
    omega
  have hfile : ∀ v ∈ visits, ∀ x ∈ v.records, x.offset = file.size → x.directory = false :=
    fun v hv x hx heq => absurd heq (hoffset x (mem_recordsOf.2 ⟨v, hv, hx⟩))
  have hedited := Walker.visits_edited h.accepted (h.size_writeVolumeSize value).ge
    (fun i hi hout => h.descriptor_writeVolumeSize value hi hout)
    (fun v hv i hi _ => h.directory_writeVolumeSize value hv hi) hplace hfile rfl rfl
  exact hedited.trans (congrArg Except.ok (map_relocate_of_ne _ _ hoffset))

/-- The volume size is no part of what the walk reads. -/
theorem Ready.writeVolumeSize : Ready settled (writeBothEndianU32 file (descriptorOffset + 80) value) visits append ∧
    Outcome settled file visits [] (writeBothEndianU32 file (descriptorOffset + 80) value) visits := by
  have hsize := h.size_writeVolumeSize value
  have hroot : rootArea (writeBothEndianU32 file (descriptorOffset + 80) value) = rootArea file :=
    rootArea_congr fun i hi hout => h.descriptor_writeVolumeSize value hi hout
  have hlaid : Laid settled (writeBothEndianU32 file (descriptorOffset + 80) value) visits :=
    { h.toLaid with
      accepted := h.visits_writeVolumeSize value
      descriptor_root := hroot ▸ h.descriptor_root
      root := hroot ▸ h.root }
  refine ⟨⟨hlaid, hsize.trans h.size_eq, h.inside⟩, hsize.ge, rfl, nofun, ?_, rfl, fun y hy => ⟨y, hy, rfl, rfl⟩, ?_⟩
  · intro x hx _
    refine ⟨hx, fun i hi => ?_, fun hxfile hxs i hi => ?_⟩
    · obtain ⟨v, hv, hrecord⟩ := mem_recordsOf.1 hx
      have hlt := h.record_lt hx
      unfold InLocation at hi
      refine bytes_writeVolumeSize value (by omega) fun hin => ?_
      exact (h.directory_apart_descriptor hv).not_holds hin.holds (h.record_holds hv hrecord (by omega) (by omega))
    · refine bytes_writeVolumeSize value ?_ fun hin => (h.descriptor x hx hxs).not_holds hin.holds hi
      rw [h.size_eq]
      exact (h.inside x hx hxs).lt hi
  · exact fun v hv i hi _ => h.directory_writeVolumeSize value hv hi

end VolumeSize

end Psprism.Iso
