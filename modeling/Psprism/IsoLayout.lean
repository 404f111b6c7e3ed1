import Psprism.IsoLookup
import Psprism.RelocRun

/-!
# The layout of a disc image (`src/iso.cpp`, `src/iso_patch.cpp`)

The areas of an image are the sectors of its descriptor, of its root directory and of every entry. When they are
pairwise apart, directory records lie apart as well, and the walk through an image whose directories differ only in
the two location fields of one file's record finds the same records with the new location in that one
(`Walker.visits_edited`).
-/

namespace Psprism.Iso

/-! ### Areas -/

/-- The sectors that so many bytes take. -/
def sectors (size : Nat) : Nat := (size + sectorSize - 1) / sectorSize

theorem le_sectors (size : Nat) : size ≤ sectors size * sectorSize := by
  unfold sectors sectorSize
  omega

theorem sectors_lt (size : Nat) : sectors size * sectorSize < size + sectorSize := by
  unfold sectors sectorSize
  omega

theorem sectors_eq_zero_iff {size : Nat} : sectors size = 0 ↔ size = 0 := by
  unfold sectors sectorSize
  omega

/-- Sectors that lie together: the first and how many. -/
structure Area where
  first : Nat
  count : Nat
deriving DecidableEq

namespace Area

/-- No sector is in both. -/
def Apart (a b : Area) : Prop := a.count = 0 ∨ b.count = 0 ∨ a.first + a.count ≤ b.first ∨ b.first + b.count ≤ a.first

instance (a b : Area) : Decidable (Apart a b) := inferInstanceAs (Decidable (_ ∨ _))

/-- The area lies within the first sectors of an image. -/
def Within (a : Area) (count : Nat) : Prop := a.count = 0 ∨ a.first + a.count ≤ count

instance (a : Area) (count : Nat) : Decidable (a.Within count) := inferInstanceAs (Decidable (_ ∨ _))

/-- The byte of the image lies in the area. -/
def Holds (a : Area) (i : Nat) : Prop := a.first * sectorSize ≤ i ∧ i < (a.first + a.count) * sectorSize

variable {a b : Area} {i count : Nat}

theorem Apart.symm (h : Apart a b) : Apart b a := by
  unfold Apart at h ⊢
  omega

theorem Apart.not_holds (h : Apart a b) (ha : a.Holds i) : ¬ b.Holds i := by
  unfold Apart at h
  unfold Holds sectorSize at ha ⊢
  omega

theorem Within.apart (h : a.Within b.first) : Apart a b := by
  unfold Within at h
  unfold Apart
  omega

theorem Within.lt (h : a.Within count) (ha : a.Holds i) : i < count * sectorSize := by
  unfold Within at h
  unfold Holds sectorSize at ha
  unfold sectorSize
  omega

theorem Within.mono {count' : Nat} (h : a.Within count) (hle : count ≤ count') : a.Within count' := by
  unfold Within at h ⊢
  omega

end Area

def DirectoryRecord.area (r : DirectoryRecord) : Area := ⟨r.extent.toNat, sectors r.size.toNat⟩

def PendingDirectory.area (directory : PendingDirectory) : Area := ⟨directory.extent.toNat, sectors directory.size.toNat⟩

theorem PendingDirectory.holds {directory : PendingDirectory} {i : Nat} (hi : directory.base ≤ i)
    (hlt : i < directory.base + directory.size.toNat) : directory.area.Holds i := by
  have hle := le_sectors directory.size.toNat
  unfold PendingDirectory.base at hi hlt
  refine ⟨hi, ?_⟩
  unfold PendingDirectory.area
  rw [Nat.add_mul]
  dsimp only
  omega

theorem DirectoryRecord.holds {r : DirectoryRecord} {i : Nat} (hi : r.extent.toNat * sectorSize ≤ i)
    (hlt : i < r.extent.toNat * sectorSize + r.size.toNat) : r.area.Holds i := by
  have hle := le_sectors r.size.toNat
  refine ⟨hi, ?_⟩
  unfold DirectoryRecord.area
  rw [Nat.add_mul]
  dsimp only
  omega

/-- The sector of the primary volume descriptor. -/
def descriptorArea : Area := ⟨16, 1⟩

/-- The area of the root directory as the descriptor records it. -/
def rootArea (file : Block) : Area :=
  ⟨(readU32 file.bytes (descriptorOffset + 158)).toNat, sectors (readU32 file.bytes (descriptorOffset + 166)).toNat⟩

def areas (file : Block) (visits : List Visit) : List Area :=
  descriptorArea :: rootArea file :: (recordsOf visits).map (·.area)

/-! ### What a walk has found -/

theorem readU32_slice (file : Block) (base size offset : Nat) :
    readU32 (file.slice base size).bytes offset = readU32 file.bytes (base + offset) := by
  simp only [readU32, Block.slice, Nat.add_assoc]

namespace Walker
variable {w : Walker}

/-- The records found lie one after the other between the cursor and the end. -/
theorem Scan.offsets {directory : PendingDirectory} {bytes : Block} {cursor : Nat} {found : List DirectoryRecord}
    (h : Scan w directory bytes cursor found) :
    (∀ x ∈ found, directory.base + cursor ≤ x.offset ∧ x.offset + 34 ≤ directory.base + bytes.size) ∧
      found.Pairwise fun x y => x.offset + 34 ≤ y.offset := by
  induction h with
  | done => simp
  | gap hcursor _ _ ih =>
    refine ⟨fun x hx => ⟨?_, (ih.1 x hx).2⟩, ih.2⟩
    have := (ih.1 x hx).1
    unfold sectorSize at this
    omega
  | unnamed _ hmin _ _ _ ih =>
    refine ⟨fun x hx => ⟨?_, (ih.1 x hx).2⟩, ih.2⟩
    have := (ih.1 x hx).1
    omega
  | named _ hmin hend _ _ _ ih =>
    refine ⟨fun x hx => ?_, List.pairwise_cons.2 ⟨fun y hy => ?_, ih.2⟩⟩
    · rcases List.mem_cons.1 hx with rfl | hx
      · unfold recordAt
        dsimp only
        omega
      · have := ih.1 x hx
        omega
    · have := (ih.1 y hy).1
      unfold recordAt
      dsimp only
      omega

/-- Each visit has read its directory and scanned it. -/
theorem Walk.visit_spec {file : Block} {pending : List PendingDirectory} {visited : Finset (Word × Word)}
    {visits : List Visit} (h : Walk imageWalker file pending visited visits) : ∀ v ∈ visits,
      v.directory.base + v.directory.size.toNat ≤ file.size ∧
        Scan imageWalker v.directory (file.slice v.directory.base v.directory.size.toNat) 0 v.records := by
  induction h with
  | done => simp
  | again _ _ ih => exact ih
  | visit _ hread scan _ ih =>
    intro v hv
    obtain ⟨hle, rfl⟩ := readRange_spec hread
    rcases List.mem_cons.1 hv with rfl | hv
    · exact ⟨hle, scan⟩
    · exact ih v hv

/-- No directory is visited twice. -/
theorem Walk.keys {file : Block} {pending : List PendingDirectory} {visited : Finset (Word × Word)}
    {visits : List Visit} (h : Walk w file pending visited visits) :
    (∀ v ∈ visits, v.directory.key ∉ visited) ∧ visits.Pairwise fun v v' => v.directory.key ≠ v'.directory.key := by
  induction h with
  | done => simp
  | again _ _ ih => exact ih
  | visit hvisited _ _ _ ih =>
    have hne : ∀ v ∈ _, _ := fun v hv => not_or.1 (mt Finset.mem_insert.2 (ih.1 v hv))
    refine ⟨fun v hv => ?_, List.pairwise_cons.2 ⟨fun v hv => Ne.symm (hne v hv).1, ih.2⟩⟩
    rcases List.mem_cons.1 hv with rfl | hv
    · exact hvisited
    · exact (hne v hv).2

theorem mem_subdirectories {records : List DirectoryRecord} {directory : PendingDirectory} :
    directory ∈ subdirectories records ↔ ∃ r ∈ records, r.directory = true ∧ ⟨r.path, r.extent, r.size⟩ = directory := by
  simp only [subdirectories, List.mem_reverse, List.mem_map, List.mem_filter, and_assoc]

/-- A directory is visited because it was pending or because a record of a directory was found. -/
theorem Walk.directory_spec {file : Block} {pending : List PendingDirectory} {visited : Finset (Word × Word)}
    {visits : List Visit} (h : Walk w file pending visited visits) : ∀ v ∈ visits,
      v.directory ∈ pending ∨
        ∃ r ∈ recordsOf visits, r.directory = true ∧ (r.extent, r.size) = v.directory.key := by
  induction h with
  | done => simp
  | again _ _ ih =>
    intro v hv
    exact (ih v hv).imp_left (List.mem_cons_of_mem _)
  | visit _ _ _ _ ih =>
    intro v hv
    rcases List.mem_cons.1 hv with rfl | hv
    · exact .inl List.mem_cons_self
    rw [recordsOf, List.flatMap_cons]
    rcases ih v hv with hpending | ⟨r, hr, hdirectory, hkey⟩
    · rcases List.mem_append.1 hpending with hsub | hpending
      · obtain ⟨r, hr, hdirectory, heq⟩ := mem_subdirectories.1 hsub
        exact .inr ⟨r, List.mem_append_left _ hr, hdirectory, heq ▸ rfl⟩
      · exact .inl (List.mem_cons_of_mem _ hpending)
    · exact .inr ⟨r, List.mem_append_right _ hr, hdirectory, hkey⟩

/-- What was pending is visited, and so is every directory that a record names, but where its sectors were before. -/
theorem Walk.visited_or {file : Block} {pending : List PendingDirectory} {visited : Finset (Word × Word)}
    {visits : List Visit} (h : Walk w file pending visited visits) :
    (∀ d ∈ pending, d.key ∈ visited ∨ ∃ v ∈ visits, v.directory.key = d.key) ∧
      ∀ r ∈ recordsOf visits, r.directory = true →
        (r.extent, r.size) ∈ visited ∨ ∃ v ∈ visits, v.directory.key = (r.extent, r.size) := by
  induction h with
  | done => simp [recordsOf]
  | again hvisited _ ih => exact ⟨List.forall_mem_cons.2 ⟨.inl hvisited, ih.1⟩, ih.2⟩
  | @visit directory pending visited bytes records visits hvisited hread scan _ ih =>
    have hearlier {key : Word × Word}
        (hkey : key ∈ insert directory.key visited ∨ ∃ v ∈ visits, v.directory.key = key) :
        key ∈ visited ∨ ∃ v ∈ ⟨directory, records⟩ :: visits, v.directory.key = key := by
      rcases hkey with hkey | ⟨v, hv, hkey⟩
      · rcases Finset.mem_insert.1 hkey with rfl | hkey
        · exact .inr ⟨_, List.mem_cons_self, rfl⟩
        · exact .inl hkey
      · exact .inr ⟨v, List.mem_cons_of_mem _ hv, hkey⟩
    refine ⟨List.forall_mem_cons.2 ⟨.inr ⟨_, List.mem_cons_self, rfl⟩, fun d hd => ?_⟩, fun r hr hdirectory => ?_⟩
    · exact hearlier (ih.1 d (List.mem_append_right _ hd))
    · rw [recordsOf, List.flatMap_cons] at hr
      rcases List.mem_append.1 hr with hr | hr
      · exact hearlier (ih.1 ⟨r.path, r.extent, r.size⟩
          (List.mem_append_left _ (mem_subdirectories.2 ⟨r, hr, hdirectory, rfl⟩)))
      · exact hearlier (ih.2 r hr hdirectory)

end Walker

theorem DirectoryRecord.area_eq {r : DirectoryRecord} {directory : PendingDirectory}
    (h : (r.extent, r.size) = directory.key) : r.area = directory.area := by
  obtain ⟨hextent, hsize⟩ := Prod.mk.inj h
  unfold DirectoryRecord.area PendingDirectory.area
  rw [hextent, hsize]

theorem rootDirectory_spec {file : Block} {size : Nat} {root : PendingDirectory}
    (h : rootDirectory (file.slice descriptorOffset size) = .ok root) : root.area = rootArea file := by
  unfold rootDirectory at h
  split_ifs at h
  cases h
  unfold PendingDirectory.area rootArea
  simp only [readU32_slice]

/-! ### Images whose areas are apart -/

/-- The reader accepts the image, and the areas of its settled entries, known by the places of their records, are
apart. A directory is always settled; a file that is recorded past the end need not be. -/
structure Laid (settled : Nat → Prop) (file : Block) (visits : List Visit) : Prop where
  accepted : imageWalker.visits file = .ok visits
  directories : ∀ x ∈ recordsOf visits, x.directory = true → settled x.offset
  descriptor_root : Area.Apart descriptorArea (rootArea file)
  descriptor : ∀ x ∈ recordsOf visits, settled x.offset → Area.Apart descriptorArea x.area
  root : ∀ x ∈ recordsOf visits, settled x.offset → Area.Apart (rootArea file) x.area
  records : (recordsOf visits).Pairwise fun x y => settled x.offset → settled y.offset → Area.Apart x.area y.area

theorem pairwise_of_ne {α : Type} {R : α → α → Prop} {l : List α} {a b : α} (h : l.Pairwise R)
    (hsymm : ∀ a b, R a b → R b a) (ha : a ∈ l) (hb : b ∈ l) (hne : a ≠ b) : R a b := by
  have : Std.Symm R := ⟨hsymm⟩
  exact h.forall ha hb hne

theorem mem_recordsOf {visits : List Visit} {r : DirectoryRecord} :
    r ∈ recordsOf visits ↔ ∃ v ∈ visits, r ∈ v.records := List.mem_flatMap

namespace Laid
variable {settled : Nat → Prop} {file : Block} {visits : List Visit} {v v' : Visit} {x y : DirectoryRecord}

/-- An image all of whose areas are apart. -/
theorem of_areas (haccepted : imageWalker.visits file = .ok visits) (hapart : (areas file visits).Pairwise Area.Apart)
    (hdirectories : ∀ x ∈ recordsOf visits, x.directory = true → settled x.offset) : Laid settled file visits := by
  obtain ⟨hdescriptor, hapart⟩ := List.pairwise_cons.1 hapart
  obtain ⟨hroot, hrecords⟩ := List.pairwise_cons.1 hapart
  exact {
    accepted := haccepted
    directories := hdirectories
    descriptor_root := hdescriptor _ List.mem_cons_self
    descriptor := fun x hx _ => hdescriptor _ (List.mem_cons_of_mem _ (List.mem_map_of_mem hx))
    root := fun x hx _ => hroot _ (List.mem_map_of_mem hx)
    records := (List.pairwise_map.1 hrecords).imp fun h _ _ => h }

theorem record_apart (h : Laid settled file visits) (hx : x ∈ recordsOf visits) (hy : y ∈ recordsOf visits) (hne : x ≠ y)
    (hxs : settled x.offset) (hys : settled y.offset) : Area.Apart x.area y.area :=
  pairwise_of_ne (R := fun x y : DirectoryRecord => settled x.offset → settled y.offset → x.area.Apart y.area) h.records
    (fun _ _ hxy hys hxs => (hxy hxs hys).symm) hx hy hne hxs hys

/-- The directory is the root, or a record found names it. -/
theorem directory_cases (h : Laid settled file visits) (hv : v ∈ visits) :
    v.directory.area = rootArea file ∨
      ∃ r ∈ recordsOf visits, r.directory = true ∧ r.area = v.directory.area := by
  obtain ⟨descriptor, root, hread, hroot, hwalk⟩ := Walker.visits_eq_ok_iff.1 h.accepted
  obtain ⟨-, rfl⟩ := readRange_spec hread
  rcases hwalk.directory_spec v hv with hpending | ⟨r, hr, hdirectory, hkey⟩
  · rw [List.mem_singleton.1 hpending]
    exact .inl (rootDirectory_spec hroot)
  · exact .inr ⟨r, hr, hdirectory, r.area_eq hkey⟩

theorem directory_apart_descriptor (h : Laid settled file visits) (hv : v ∈ visits) :
    Area.Apart descriptorArea v.directory.area := by
  rcases h.directory_cases hv with hroot | ⟨r, hr, hdirectory, harea⟩
  · rw [hroot]
    exact h.descriptor_root
  · rw [← harea]
    exact h.descriptor r hr (h.directories r hr hdirectory)

/-- A file and a directory share no sector. -/
theorem directory_apart_file (h : Laid settled file visits) (hv : v ∈ visits) (hx : x ∈ recordsOf visits)
    (hfile : x.directory = false) (hsettled : settled x.offset) : Area.Apart v.directory.area x.area := by
  rcases h.directory_cases hv with hroot | ⟨r, hr, hdirectory, harea⟩
  · rw [hroot]
    exact h.root x hx hsettled
  · rw [← harea]
    refine h.record_apart hr hx (fun heq => ?_) (h.directories r hr hdirectory) hsettled
    rw [heq, hfile] at hdirectory
    cases hdirectory

theorem directory_apart (h : Laid settled file visits) (hv : v ∈ visits) (hv' : v' ∈ visits) (hne : v ≠ v') :
    Area.Apart v.directory.area v'.directory.area := by
  obtain ⟨descriptor, root, hread, hroot, hwalk⟩ := Walker.visits_eq_ok_iff.1 h.accepted
  obtain ⟨-, rfl⟩ := readRange_spec hread
  have hkey : v.directory.key ≠ v'.directory.key :=
    pairwise_of_ne (R := fun v v' : Visit => v.directory.key ≠ v'.directory.key) hwalk.keys.2 (fun _ _ => Ne.symm) hv hv' hne
  rcases hwalk.directory_spec v hv with hpending | ⟨r, hr, hr_directory, hr_key⟩
  · rcases hwalk.directory_spec v' hv' with hpending' | ⟨r', hr', hr_directory', hr_key'⟩
    · rw [List.mem_singleton.1 hpending, List.mem_singleton.1 hpending'] at hkey
      exact absurd rfl hkey
    · rw [List.mem_singleton.1 hpending, rootDirectory_spec hroot, ← r'.area_eq hr_key']
      exact h.root r' hr' (h.directories r' hr' hr_directory')
  · rcases hwalk.directory_spec v' hv' with hpending' | ⟨r', hr', hr_directory', hr_key'⟩
    · rw [List.mem_singleton.1 hpending', rootDirectory_spec hroot, ← r.area_eq hr_key]
      exact (h.root r hr (h.directories r hr hr_directory)).symm
    · rw [← r.area_eq hr_key, ← r'.area_eq hr_key']
      refine h.record_apart hr hr' (fun heq => hkey ?_) (h.directories r hr hr_directory)
        (h.directories r' hr' hr_directory')
      rw [← hr_key, ← hr_key', heq]

theorem visit_spec (h : Laid settled file visits) (hv : v ∈ visits) :
    v.directory.base + v.directory.size.toNat ≤ file.size ∧
      Walker.Scan imageWalker v.directory (file.slice v.directory.base v.directory.size.toNat) 0 v.records := by
  obtain ⟨_, _, _, _, hwalk⟩ := Walker.visits_eq_ok_iff.1 h.accepted
  exact hwalk.visit_spec v hv

/-- A record lies inside the directory it was found in. -/
theorem offset_spec (h : Laid settled file visits) (hv : v ∈ visits) (hx : x ∈ v.records) :
    v.directory.base ≤ x.offset ∧ x.offset + 34 ≤ v.directory.base + v.directory.size.toNat := by
  have hspec := (h.visit_spec hv).2.offsets.1 x hx
  rwa [Nat.add_zero] at hspec

theorem record_holds (h : Laid settled file visits) (hv : v ∈ visits) (hx : x ∈ v.records) {i : Nat} (hi : x.offset ≤ i)
    (hlt : i < x.offset + 34) : v.directory.area.Holds i := by
  have hspec := h.offset_spec hv hx
  exact PendingDirectory.holds (by omega) (by omega)

/-- A record found in one directory has no byte in another. -/
theorem visit_spares (h : Laid settled file visits) (hv : v ∈ visits) (hv' : v' ∈ visits) (hne : v ≠ v')
    (hx : x ∈ v'.records) {i : Nat} (hi : v.directory.base ≤ i) (hlt : i < v.directory.base + v.directory.size.toNat) :
    ¬ (x.offset ≤ i ∧ i < x.offset + 34) := fun hin =>
  (h.directory_apart hv hv' hne).not_holds (PendingDirectory.holds hi hlt) (h.record_holds hv' hx hin.1 hin.2)

theorem offset_inj (h : Laid settled file visits) (hx : x ∈ recordsOf visits) (hy : y ∈ recordsOf visits)
    (heq : x.offset = y.offset) : x = y := by
  obtain ⟨v, hv, hx⟩ := mem_recordsOf.1 hx
  obtain ⟨v', hv', hy⟩ := mem_recordsOf.1 hy
  by_cases hne : v = v'
  · subst hne
    by_contra hxy
    have hlt := (h.visit_spec hv).2.offsets.2.imp fun hlt =>
      Nat.ne_of_lt (Nat.lt_of_lt_of_le (Nat.lt_add_of_pos_right (by decide)) hlt)
    exact pairwise_of_ne hlt (fun _ _ => Ne.symm) hx hy hxy heq
  · have hspec := h.offset_spec hv hx
    exact absurd ⟨heq.symm.le, by omega⟩ (h.visit_spares hv hv' hne hy hspec.1 (by omega))

end Laid

/-! ### One record edited -/

/-- The byte lies in the location fields of the record at the place: extent and size in both byte orders. -/
def InLocation (offset i : Nat) : Prop := offset + 2 ≤ i ∧ i < offset + 18

/-- The record, with another location if it is the one at the place. -/
def DirectoryRecord.relocate (offset : Nat) (extent size : Word) (r : DirectoryRecord) : DirectoryRecord :=
  if r.offset = offset then { r with extent := extent, size := size } else r

def Visit.relocate (offset : Nat) (extent size : Word) (v : Visit) : Visit :=
  { v with records := v.records.map (·.relocate offset extent size) }

theorem DirectoryRecord.relocate_of_ne {offset : Nat} {extent size : Word} {r : DirectoryRecord} (h : r.offset ≠ offset) :
    r.relocate offset extent size = r := if_neg h

theorem recordName_congr {f g : Bytes} {length : Nat} (h : ∀ i, 18 ≤ i → i < length → f i = g i) :
    recordName f length = recordName g length := by
  unfold recordName
  by_cases hlength : length < 34
  · rw [if_pos hlength, if_pos hlength]
  rw [if_neg hlength, if_neg hlength, h 32 (by omega) (by omega)]
  by_cases hname : 33 + (g 32).toNat > length
  · rw [if_pos hname, if_pos hname]
  have hfield : nameField f = nameField g := by
    unfold nameField
    rw [h 32 (by omega) (by omega)]
    refine List.map_congr_left fun i hi => h _ (by omega) ?_
    have := List.mem_range.1 hi
    omega
  have hself : IsSelfOrParent f ↔ IsSelfOrParent g := by
    unfold IsSelfOrParent
    rw [h 32 (by omega) (by omega)]
    refine and_congr_right fun hone => ?_
    rw [h 33 (by omega) (by omega)]
  rw [if_neg hname, if_neg hname, hfield]
  simp only [hself]

/-- The byte lies in the two copies of the volume size. -/
def InVolumeSize (i : Nat) : Prop := descriptorOffset + 80 ≤ i ∧ i < descriptorOffset + 88

theorem rootDirectory_congr {f g : Block} (hsize : f.size = g.size)
    (h : ∀ i < 256, i < 80 ∨ 88 ≤ i → f.bytes i = g.bytes i) : rootDirectory f = rootDirectory g := by
  have hid : (f.slice 1 5).toList = (g.slice 1 5).toList := by
    refine List.map_congr_left fun i hi => ?_
    have hlt : i < 5 := List.mem_range.1 hi
    exact h _ (by omega) (by omega)
  unfold rootDirectory
  rw [hsize, hid, h 0 (by omega) (by omega), h 6 (by omega) (by omega), h 156 (by omega) (by omega),
    readU32_congr fun j _ => h (158 + j) (by omega) (by omega),
    readU32_congr fun j _ => h (166 + j) (by omega) (by omega)]

theorem recordAt_congr {f g : Bytes} (path : Name) (base cursor : Nat) (h : ∀ i < 34, f i = g i) :
    recordAt path base cursor f = recordAt path base cursor g := by
  unfold recordAt
  rw [h 25 (by omega), readU32_congr fun j hj => h (2 + j) (by omega), readU32_congr fun j hj => h (10 + j) (by omega)]

namespace Walker

/-- What lies before the rest of a scan has no byte of a location that is found in the rest or spared. -/
theorem Scan.not_inLocation {directory : PendingDirectory} {bytes : Block} {cursor next offset : Nat}
    {found : List DirectoryRecord} (rest : Scan w directory bytes next found)
    (hplace : (∀ i, directory.base + cursor ≤ i → i < directory.base + bytes.size → ¬ InLocation offset i) ∨
      ∃ x ∈ found, x.offset = offset) {i : Nat} (hi : cursor ≤ i) (hnext : i < next) (hlt : i < bytes.size) :
    ¬ InLocation offset (directory.base + i) := by
  rcases hplace with hspared | ⟨x, hx, rfl⟩
  · exact hspared _ (by omega) (by omega)
  · have := (rest.offsets.1 x hx).1
    unfold InLocation
    omega

/-- A record before the rest of a scan has its old bytes, unless the location of this record is edited. -/
theorem Scan.same_bytes {file file' : Block} {directory : PendingDirectory} {cursor length offset : Nat}
    {found : List DirectoryRecord}
    (rest : Scan w directory (file.slice directory.base directory.size.toNat) (cursor + length) found)
    (hsame : ∀ i, i < directory.size.toNat → ¬ InLocation offset (directory.base + i) →
      file'.bytes (directory.base + i) = file.bytes (directory.base + i))
    (hplace : (∀ i, directory.base + cursor ≤ i → i < directory.base + directory.size.toNat → ¬ InLocation offset i) ∨
      ∃ x ∈ found, x.offset = offset)
    (hend : cursor + length ≤ directory.size.toNat) {i : Nat} (hi : i < length) :
    file'.bytes (directory.base + (cursor + i)) = file.bytes (directory.base + (cursor + i)) := by
  have hlt : cursor + i < directory.size.toNat := by omega
  exact hsame _ hlt (rest.not_inLocation hplace (by omega) (by omega) hlt)

/-- The record itself: its location is the new one, its flags stay. -/
theorem relocate_recordAt {file file' : Block} {base cursor offset : Nat} {extent size : Word} (path : Name)
    (n length : Nat) (hthis : base + cursor = offset)
    (hflag : file'.bytes (base + (cursor + 25)) = file.bytes (base + (cursor + 25)))
    (hextent : readU32 file'.bytes (offset + 2) = extent) (hsize : readU32 file'.bytes (offset + 10) = size) :
    (recordAt path base cursor ((file.slice base n).slice cursor length).bytes).relocate offset extent size =
      recordAt path base cursor ((file'.slice base n).slice cursor length).bytes := by
  have hflag' : ((file.slice base n).slice cursor length).bytes 25 =
      ((file'.slice base n).slice cursor length).bytes 25 := hflag.symm
  unfold DirectoryRecord.relocate recordAt
  rw [if_pos hthis, hflag']
  simp only [readU32_slice, ← hextent, ← hsize, ← hthis, Nat.add_assoc]

/-- A scan of a directory that differs in the location fields of one record at most, a record that it finds or one
of another place. -/
theorem Scan.edited {file file' : Block} {directory : PendingDirectory} {cursor offset : Nat} {extent size : Word}
    {found : List DirectoryRecord}
    (h : Scan imageWalker directory (file.slice directory.base directory.size.toNat) cursor found)
    (hsame : ∀ i, i < directory.size.toNat → ¬ InLocation offset (directory.base + i) →
      file'.bytes (directory.base + i) = file.bytes (directory.base + i))
    (hplace : (∀ i, directory.base + cursor ≤ i → i < directory.base + directory.size.toNat → ¬ InLocation offset i) ∨
      ∃ x ∈ found, x.offset = offset)
    (hextent : readU32 file'.bytes (offset + 2) = extent) (hsize : readU32 file'.bytes (offset + 10) = size) :
    Scan imageWalker directory (file'.slice directory.base directory.size.toNat) cursor
      (found.map (·.relocate offset extent size)) := by
  induction h with
  | done hend => exact .done hend
  | @gap cursor found hcursor hzero rest ih =>
    have hnext : cursor < (cursor / sectorSize + 1) * sectorSize := by
      unfold sectorSize
      omega
    refine .gap hcursor ?_ (ih (hplace.imp_left fun hspared i hi => hspared i (by omega)))
    rw [← hzero]
    exact congrArg _ (hsame _ hcursor (rest.not_inLocation hplace (Nat.le_refl _) hnext hcursor))
  | @unnamed cursor length found hlength hmin hend hname rest ih =>
    refine .unnamed ?_ hmin hend ?_ (ih (hplace.imp_left fun hspared i hi => hspared i (by omega)))
    · rw [← hlength]
      exact congrArg _ (rest.same_bytes hsame hplace hend (i := 0) (by omega))
    · rw [← hname]
      exact recordName_congr fun i _ hi => rest.same_bytes hsame hplace hend hi
  | @named cursor length name found hlength hmin hend hname hne rest ih =>
    rw [List.map_cons]
    by_cases hthis : directory.base + cursor = offset
    · have hbytes : ∀ i, i < length → i < 2 ∨ 18 ≤ i →
          file'.bytes (directory.base + (cursor + i)) = file.bytes (directory.base + (cursor + i)) := by
        intro i hi hout
        refine hsame _ (Nat.lt_of_lt_of_le (by omega) hend) ?_
        unfold InLocation
        omega
      have hspared : ∀ i, directory.base + (cursor + length) ≤ i → ¬ InLocation offset i := by
        intro i hi
        unfold InLocation
        omega
      rw [relocate_recordAt _ _ _ hthis (hbytes 25 (by omega) (by omega)) hextent hsize]
      refine .named ?_ hmin hend ?_ hne (ih (.inl fun i hi _ => hspared i hi))
      · rw [← hlength]
        exact congrArg _ (hbytes 0 (by omega) (by omega))
      · rw [← hname]
        exact recordName_congr fun i hi hlt => hbytes i hlt (.inr hi)
    · have hplace' : (∀ i, directory.base + cursor ≤ i → i < directory.base + directory.size.toNat →
          ¬ InLocation offset i) ∨ ∃ x ∈ found, x.offset = offset := by
        refine hplace.imp_right fun ⟨x, hx, heq⟩ => ⟨x, (List.mem_cons.1 hx).resolve_left ?_, heq⟩
        rintro rfl
        exact hthis heq
      have hrecord : recordAt (imageWalker.join directory.path name) directory.base cursor
          ((file'.slice directory.base directory.size.toNat).slice cursor length).bytes =
          recordAt (imageWalker.join directory.path name) directory.base cursor
            ((file.slice directory.base directory.size.toNat).slice cursor length).bytes :=
        recordAt_congr _ _ _ fun i hi => rest.same_bytes hsame hplace' hend (by omega)
      rw [DirectoryRecord.relocate_of_ne hthis, ← hrecord]
      refine .named ?_ hmin hend ?_ hne (ih (hplace'.imp_left fun hspared i hi => hspared i (by omega)))
      · rw [← hlength]
        exact congrArg _ (rest.same_bytes hsame hplace' hend (i := 0) (by omega))
      · rw [← hname]
        exact recordName_congr fun i _ hi => rest.same_bytes hsame hplace' hend hi

theorem subdirectories_relocate {offset : Nat} {extent size : Word} {records : List DirectoryRecord}
    (hfile : ∀ x ∈ records, x.offset = offset → x.directory = false) :
    subdirectories (records.map (·.relocate offset extent size)) = subdirectories records := by
  unfold subdirectories
  congr 1
  induction records with
  | nil => rfl
  | cons x records ih =>
    have ih := ih fun y hy => hfile y (List.mem_cons_of_mem _ hy)
    by_cases hx : x.offset = offset
    · have hdirectory := hfile x List.mem_cons_self hx
      have hrelocated : (x.relocate offset extent size).directory = false := by
        unfold DirectoryRecord.relocate
        rw [if_pos hx]
        exact hdirectory
      rw [List.map_cons, List.filter_cons_of_neg (by simp [hrelocated]), List.filter_cons_of_neg (by simp [hdirectory])]
      exact ih
    · rw [List.map_cons, DirectoryRecord.relocate_of_ne hx, List.filter_cons, List.filter_cons]
      split_ifs
      · rw [List.map_cons, List.map_cons, ih]
      · exact ih

/-- The walk through the edited image visits the same directories. -/
theorem Walk.edited {file file' : Block} {pending : List PendingDirectory} {visited : Finset (Word × Word)}
    {visits : List Visit} {offset : Nat} {extent size : Word} (h : Walk imageWalker file pending visited visits)
    (hle : file.size ≤ file'.size)
    (hsame : ∀ v ∈ visits, ∀ i, i < v.directory.size.toNat → ¬ InLocation offset (v.directory.base + i) →
      file'.bytes (v.directory.base + i) = file.bytes (v.directory.base + i))
    (hplace : ∀ v ∈ visits, (∀ i, v.directory.base ≤ i → i < v.directory.base + v.directory.size.toNat →
      ¬ InLocation offset i) ∨ ∃ x ∈ v.records, x.offset = offset)
    (hfile : ∀ v ∈ visits, ∀ x ∈ v.records, x.offset = offset → x.directory = false)
    (hextent : readU32 file'.bytes (offset + 2) = extent) (hsize : readU32 file'.bytes (offset + 10) = size) :
    Walk imageWalker file' pending visited (visits.map (·.relocate offset extent size)) := by
  induction h with
  | done => exact .done
  | again hvisited _ ih => exact .again hvisited (ih hsame hplace hfile)
  | @visit directory pending visited bytes records visits hvisited hread scan _ ih =>
    obtain ⟨hend, rfl⟩ := readRange_spec hread
    have hrest := ih (fun v hv => hsame v (List.mem_cons_of_mem _ hv)) (fun v hv => hplace v (List.mem_cons_of_mem _ hv))
      fun v hv => hfile v (List.mem_cons_of_mem _ hv)
    rw [← subdirectories_relocate (hfile _ List.mem_cons_self)] at hrest
    have hfirst := (hplace _ List.mem_cons_self).imp_left
      fun hspared i (hi : directory.base + 0 ≤ i) => hspared i (Nat.le_trans (Nat.le_add_right _ 0) hi)
    refine .visit hvisited (readRange_of_le (Nat.le_trans hend hle)) ?_ hrest
    exact scan.edited (hsame _ List.mem_cons_self) hfirst hextent hsize

/-- The walk through an image whose directories differ in the location fields of one file's record at most finds the
new location in that record and every other record as it was. -/
theorem visits_edited {file file' : Block} {visits : List Visit} {offset : Nat} {extent size : Word}
    (h : imageWalker.visits file = .ok visits) (hle : file.size ≤ file'.size)
    (hdescriptor : ∀ i, descriptorArea.Holds i → ¬ InVolumeSize i → file'.bytes i = file.bytes i)
    (hsame : ∀ v ∈ visits, ∀ i, i < v.directory.size.toNat → ¬ InLocation offset (v.directory.base + i) →
      file'.bytes (v.directory.base + i) = file.bytes (v.directory.base + i))
    (hplace : ∀ v ∈ visits, (∀ i, v.directory.base ≤ i → i < v.directory.base + v.directory.size.toNat →
      ¬ InLocation offset i) ∨ ∃ x ∈ v.records, x.offset = offset)
    (hfile : ∀ v ∈ visits, ∀ x ∈ v.records, x.offset = offset → x.directory = false)
    (hextent : readU32 file'.bytes (offset + 2) = extent) (hsize : readU32 file'.bytes (offset + 10) = size) :
    imageWalker.visits file' = .ok (visits.map (·.relocate offset extent size)) := by
  obtain ⟨descriptor, root, hread, hroot, hwalk⟩ := visits_eq_ok_iff.1 h
  obtain ⟨hend, rfl⟩ := readRange_spec hread
  refine visits_eq_ok_iff.2 ⟨file'.slice descriptorOffset sectorSize, root, readRange_of_le (Nat.le_trans hend hle), ?_,
    hwalk.edited hle hsame hplace hfile hextent hsize⟩
  rw [← hroot]
  refine rootDirectory_congr rfl fun i hi hout => hdescriptor _ ?_ ?_
  · unfold Area.Holds descriptorArea descriptorOffset sectorSize
    dsimp only
    omega
  · unfold InVolumeSize
    omega

end Walker

end Psprism.Iso
