import Psprism.IsoReplace

/-!
# Reading a patched image back (`src/iso_patch.cpp`, `src/iso.cpp`)

A patched image gives each replacement at its path, every other entry as it was, and whole sectors up to the volume
size, as long as the patcher's assumptions hold (`Patchable`, `patched_image_reads_back`). It checks none of them: it
takes the record of a directory for that of a file, keeps 32 bits of a size, writes into a file that is recorded past
the end, appends to where such a file is recorded, and takes the padding of a file for that of its larger replacement
when the file records the sector after the end (`empty_file_unpadded`).
-/

namespace Psprism.Iso

/-! ### The replacements of a run -/

/-- The records that the paths of the replacements name, with the contents. -/
def assigned (index : Name → Option DirectoryRecordInfo) (replacements : List IsoPatchReplacement) :
    List (DirectoryRecordInfo × List Byte) :=
  replacements.filterMap fun r => (index (normalizedPath r.isoPath)).map fun info => (info, r.content)

section
variable {index : Name → Option DirectoryRecordInfo} {replacements : List IsoPatchReplacement} {p : Patching}

theorem patchOne_eq_ok {replacement : IsoPatchReplacement} {info : DirectoryRecordInfo}
    (h : index (normalizedPath replacement.isoPath) = some info) :
    patchOne index p replacement = .ok (replaceRecord info replacement.content p) := by
  unfold patchOne
  rw [h]

theorem patchOne_eq_error {replacement : IsoPatchReplacement} (h : index (normalizedPath replacement.isoPath) = none) :
    patchOne index p replacement = .error ("ISO image has no file at: " ++ text replacement.isoPath) := by
  unfold patchOne
  rw [h]

/-- When every path names a record, all replacements are made. -/
theorem foldlM_patchOne (h : ∀ r ∈ replacements, index (normalizedPath r.isoPath) ≠ none) :
    replacements.foldlM (patchOne index) p = .ok (replaceAll (assigned index replacements) p) := by
  induction replacements generalizing p with
  | nil => rfl
  | cons r rest ih =>
    obtain ⟨info, hinfo⟩ := Option.ne_none_iff_exists'.1 (h r List.mem_cons_self)
    have hassigned : assigned index (r :: rest) = (info, r.content) :: assigned index rest := by
      unfold assigned
      rw [List.filterMap_cons, hinfo]
      rfl
    rw [List.foldlM_cons, patchOne_eq_ok hinfo, hassigned]
    exact ih fun r' hr' => h r' (List.mem_cons_of_mem _ hr')

/-- A path that names no record is reported, the first one of the list. -/
theorem foldlM_patchOne_error (h : ∃ r ∈ replacements, index (normalizedPath r.isoPath) = none) :
    ∃ r ∈ replacements, index (normalizedPath r.isoPath) = none ∧
      replacements.foldlM (patchOne index) p = .error ("ISO image has no file at: " ++ text r.isoPath) := by
  induction replacements generalizing p with
  | nil =>
    obtain ⟨r, hr, -⟩ := h
    cases hr
  | cons r rest ih =>
    rw [List.foldlM_cons]
    cases hinfo : index (normalizedPath r.isoPath) with
    | none =>
      rw [patchOne_eq_error hinfo]
      exact ⟨r, List.mem_cons_self, hinfo, rfl⟩
    | some info =>
      rw [patchOne_eq_ok hinfo]
      obtain ⟨r', hr', hnone⟩ := h
      have hrest : ∃ r ∈ rest, index (normalizedPath r.isoPath) = none := by
        refine ⟨r', (List.mem_cons.1 hr').resolve_left ?_, hnone⟩
        rintro rfl
        rw [hinfo] at hnone
        cases hnone
      obtain ⟨x, hx, hxnone, herror⟩ := ih (p := replaceRecord info r.content p) hrest
      exact ⟨x, List.mem_cons_of_mem _ hx, hxnone, herror⟩

/-- The directory records of the replacements. -/
theorem exists_targets {records : List DirectoryRecord}
    (h : ∀ r ∈ replacements, ∃ x ∈ records, x.key = normalizedPath r.isoPath ∧ index (normalizedPath r.isoPath) = some x.info) :
    ∃ targets : List (DirectoryRecord × List Byte), infosOf targets = assigned index replacements ∧
      targets.map (fun t => (t.1.key, t.2)) = replacements.map (fun r => (normalizedPath r.isoPath, r.content)) ∧
      ∀ t ∈ targets, t.1 ∈ records := by
  induction replacements with
  | nil => exact ⟨[], rfl, rfl, nofun⟩
  | cons r rest ih =>
    obtain ⟨targets, hinfos, hkeys, hmem⟩ := ih fun r' hr' => h r' (List.mem_cons_of_mem _ hr')
    obtain ⟨x, hx, hkey, hindex⟩ := h r List.mem_cons_self
    refine ⟨(x, r.content) :: targets, ?_, ?_, ?_⟩
    · unfold assigned infosOf at hinfos ⊢
      rw [List.filterMap_cons, hindex, List.map_cons, hinfos]
      rfl
    · rw [List.map_cons, List.map_cons, hkeys, hkey]
    · intro t ht
      rcases List.mem_cons.1 ht with rfl | ht
      · exact hx
      · exact hmem t ht

end

/-! ### Reading an entry -/

theorem Block.toList_slice_eq {file : Block} {offset : Nat} {content : List Byte}
    (h : ∀ i < content.length, file.bytes (offset + i) = content.getD i 0) :
    (file.slice offset content.length).toList = content := by
  unfold Block.toList Block.slice
  refine List.ext_getElem (by simp) fun i hi hcontent => ?_
  rw [List.getElem_map, List.getElem_range, h i hcontent, List.getD_eq_getElem?_getD, List.getElem?_eq_getElem hcontent,
    Option.getD_some]

theorem readEntry_eq_ok_iff {iso : IsoImage} {entry : IsoEntry} {content : List Byte} :
    iso.readEntry entry = .ok content ↔ entry.directory = false ∧
      entry.extent.toNat * sectorSize + entry.size.toNat ≤ iso.file.size ∧
      (iso.file.slice (entry.extent.toNat * sectorSize) entry.size.toNat).toList = content := by
  unfold IsoImage.readEntry
  cases entry.directory with
  | true => simp
  | false =>
    rw [if_neg Bool.false_ne_true]
    constructor
    · intro h
      cases hread : readRange iso.file (entry.extent.toNat * sectorSize) entry.size.toNat with
      | error e =>
        rw [hread] at h
        cases h
      | ok bytes =>
        rw [hread] at h
        obtain ⟨hle, rfl⟩ := readRange_spec hread
        exact ⟨rfl, hle, Except.ok.inj h⟩
    · rintro ⟨-, hle, rfl⟩
      rw [readRange_of_le hle]

theorem ContentAt.readEntry {iso : IsoImage} {r : DirectoryRecord} {content : List Byte}
    (h : ContentAt iso.file r content) : iso.readEntry r.entry = .ok content := by
  refine readEntry_eq_ok_iff.2 ⟨h.isFile, ?_, ?_⟩
  · unfold DirectoryRecord.entry
    dsimp only
    rw [h.size_eq]
    exact h.inside
  · unfold DirectoryRecord.entry
    dsimp only
    rw [h.size_eq]
    exact Block.toList_slice_eq h.bytes

section
variable {settled : Nat → Prop} {iso iso' : IsoImage} {visits' : List Visit} {x : DirectoryRecord} {content : List Byte}

/-- A settled file that is kept has the same bytes. -/
theorem Kept.slice_eq (h : Kept settled iso.file iso'.file visits' x) (hfile : x.directory = false)
    (hsettled : settled x.offset) :
    (iso'.file.slice (x.extent.toNat * sectorSize) x.size.toNat).toList =
      (iso.file.slice (x.extent.toNat * sectorSize) x.size.toNat).toList := by
  refine List.map_congr_left fun i hi => h.content hfile hsettled _ ?_
  exact DirectoryRecord.holds (Nat.le_add_right _ _) (Nat.add_lt_add_left (List.mem_range.1 hi) _)

/-- The files that could be read are settled, so they are read as before. -/
theorem Kept.readEntry (h : Kept settled iso.file iso'.file visits' x) (hle : iso.file.size ≤ iso'.file.size)
    (hsettled : x.extent.toNat * sectorSize + x.size.toNat ≤ iso.file.size → settled x.offset)
    (hread : iso.readEntry x.entry = .ok content) : iso'.readEntry x.entry = .ok content := by
  obtain ⟨hfile, hinside, hcontent⟩ := readEntry_eq_ok_iff.1 hread
  refine readEntry_eq_ok_iff.2 ⟨hfile, Nat.le_trans hinside hle, ?_⟩
  rw [← hcontent]
  exact h.slice_eq hfile (hsettled hinside)

/-- A file that could not be read and has bytes still cannot be read, if the image ends before it does. -/
theorem Kept.of_readEntry (h : Kept settled iso.file iso'.file visits' x)
    (hsettled : x.extent.toNat * sectorSize + x.size.toNat ≤ iso.file.size → settled x.offset)
    (hunread : x.directory = false → x.size ≠ 0 → x.extent.toNat * sectorSize + x.size.toNat ≤ iso.file.size ∨
      iso'.file.size < x.extent.toNat * sectorSize + x.size.toNat)
    (hread : iso'.readEntry x.entry = .ok content) : content = [] ∨ iso.readEntry x.entry = .ok content := by
  obtain ⟨hfile, hinside', hcontent⟩ := readEntry_eq_ok_iff.1 hread
  by_cases hempty : x.size = 0
  · refine .inl (hcontent.symm.trans ?_)
    unfold DirectoryRecord.entry
    rw [hempty]
    rfl
  · have hinside := (hunread hfile hempty).resolve_right (Nat.not_lt.2 hinside')
    refine .inr (readEntry_eq_ok_iff.2 ⟨hfile, hinside, ?_⟩)
    rw [← hcontent]
    exact (h.slice_eq hfile (hsettled hinside)).symm

end

/-! ### Reading the patched image back -/

/-- What the patched image gives: the replacements at their paths, every other entry as it was, with no bytes but those
that it had, the same paths, the bytes of the directories but for the replaced locations, and the sizes and copies that
the patcher has to keep. -/
structure ReadsBack (iso iso' : IsoImage) (visits : List Visit) (replacements : List IsoPatchReplacement) : Prop where
  replaced : ∀ r ∈ replacements, iso'.read r.isoPath = .ok r.content
  kept : ∀ entry ∈ iso.entries, (∀ r ∈ replacements, normalizedPath r.isoPath ≠ normalizedPath entry.path) →
    entry ∈ iso'.entries ∧ (∀ content, iso.readEntry entry = .ok content → iso'.readEntry entry = .ok content) ∧
      ∀ content, iso'.readEntry entry = .ok content → content = [] ∨ iso.readEntry entry = .ok content
  listed : (iso'.entries.map (·.path)).Perm (iso.entries.map (·.path))
  directories : ∀ v ∈ visits, ∀ i < v.directory.size.toNat,
    (∀ x ∈ recordsOf visits, (∃ r ∈ replacements, normalizedPath r.isoPath = x.key) →
      ¬ InLocation x.offset (v.directory.base + i)) →
      iso'.file.bytes (v.directory.base + i) = iso.file.bytes (v.directory.base + i)
  bothEndian : ∀ x ∈ recordsOf visits, (∃ r ∈ replacements, normalizedPath r.isoPath = x.key) →
    BothEndian iso'.file (x.offset + 2) ∧ BothEndian iso'.file (x.offset + 10)
  grew : iso.file.size < iso'.file.size → iso'.file.size % sectorSize = 0 ∧
    (readU32 iso'.file.bytes (descriptorOffset + 80)).toNat * sectorSize = iso'.file.size ∧
    BothEndian iso'.file (descriptorOffset + 80)

/-- The path names a file of the image. -/
def NamesFile (visits : List Visit) (path : Name) : Prop :=
  ∃ x ∈ recordsOf visits, x.directory = false ∧ x.key = normalizedPath path

/-- What the patcher does not check: a replaced path is recorded once and in upper case and names no directory; a file
that is replaced in its place lies inside the image, and what is appended does not reach the end of another file that is
recorded past the end; the sizes fit in their fields; and a replacement that does not fit in a file that records the
sector after the end is of whole sectors. -/
structure Patchable (file : Block) (visits : List Visit) (replacements : List IsoPatchReplacement) : Prop where
  named : ∀ r ∈ replacements, ∀ x ∈ recordsOf visits, x.key = normalizedPath r.isoPath →
    upper x.path = x.path ∧ x.directory = false ∧ ∀ y ∈ recordsOf visits, y.key = x.key → y = x
  inside : ∀ t ∈ assigned (indexOf (recordsOf visits)) replacements, Fits t.1 t.2 →
    t.1.extent.toNat + Iso.sectors t.1.size.toNat ≤ file.size / sectorSize
  unread : ∀ x ∈ recordsOf visits, (∀ r ∈ replacements, normalizedPath r.isoPath ≠ x.key) →
    x.directory = false → x.size ≠ 0 → x.extent.toNat * sectorSize + x.size.toNat ≤ file.size ∨
      (file.size / sectorSize + grown (assigned (indexOf (recordsOf visits)) replacements)) * sectorSize <
        x.extent.toNat * sectorSize + x.size.toNat
  lengths : ∀ r ∈ replacements, r.content.length < 2 ^ 32
  sectors : grown (assigned (indexOf (recordsOf visits)) replacements) = 0 ∨
    file.size / sectorSize + grown (assigned (indexOf (recordsOf visits)) replacements) < 2 ^ 32
  spaced : Spaced (file.size / sectorSize) (assigned (indexOf (recordsOf visits)) replacements)

/-- The entry of the record at the place lies inside the image. -/
def RecordedInside (file : Block) (visits : List Visit) (offset : Nat) : Prop :=
  ∃ x ∈ recordsOf visits, x.offset = offset ∧ x.area.Within (file.size / sectorSize)

theorem recordedInside_of_le {file : Block} {visits : List Visit} {x : DirectoryRecord} (hx : x ∈ recordsOf visits)
    (haligned : file.size % sectorSize = 0) (hle : x.extent.toNat * sectorSize + x.size.toNat ≤ file.size) :
    RecordedInside file visits x.offset := by
  refine ⟨x, hx, rfl, ?_⟩
  unfold Area.Within DirectoryRecord.area Iso.sectors
  unfold sectorSize at hle haligned ⊢
  dsimp only
  omega

/-- A path recorded once is found by every spelling of it. -/
theorem Accepted.find_eq {file : Block} {iso : IsoImage} {index : Name → Option DirectoryRecordInfo} {visits : List Visit}
    (h : Accepted file iso index visits) {x : DirectoryRecord} (hx : x ∈ recordsOf visits) {path : Name}
    (hpath : x.path = normalized path) (hunique : ∀ y ∈ recordsOf visits, y.path = x.path → y = x) :
    iso.find path = some x.entry := by
  cases hfind : iso.find path with
  | none => exact absurd hfind (IsoImage.find_ne_none h.sorted (h.entry_mem hx) hpath)
  | some entry =>
    obtain ⟨hentry, hentry_path⟩ := IsoImage.mem_of_find hfind
    obtain ⟨y, hy, rfl⟩ := (h.mem_entries entry).1 hentry
    rw [hunique y hy (hentry_path.trans hpath.symm)]

section
variable {sorting : EntrySort} {file : Block} {iso : IsoImage} {index : Name → Option DirectoryRecordInfo}
  {visits : List Visit} {replacements : List IsoPatchReplacement}

/-- When every path names a record, the patch makes all replacements, and then writes the size of an image that grew. -/
theorem patchIsoPreservingLayout_eq (hindex : indexDirectoryRecords file = .ok index)
    (haligned : file.size % sectorSize = 0) (hnamed : ∀ r ∈ replacements, index (normalizedPath r.isoPath) ≠ none) :
    patchIsoPreservingLayout file replacements =
      let p := replaceAll (assigned index replacements) ⟨file, file.size / sectorSize⟩
      if p.appendSector > file.size / sectorSize then
        .ok (writeBothEndianU32 p.target (descriptorOffset + 80) (BitVec.ofNat 32 p.appendSector))
      else .ok p.target := by
  unfold patchIsoPreservingLayout
  rw [hindex]
  dsimp only
  rw [if_neg (not_not.2 haligned), foldlM_patchOne hnamed]

/-- The records of a patch: they are files, and no two replacements are of one record. -/
theorem exists_targets_of_patchable
    (hdistinct : (replacements.map fun r => normalizedPath r.isoPath).Nodup) (h : Patchable file visits replacements)
    (hnamed : ∀ r ∈ replacements, ∃ x ∈ recordsOf visits, x.key = normalizedPath r.isoPath ∧
      indexOf (recordsOf visits) (normalizedPath r.isoPath) = some x.info) :
    ∃ targets : List (DirectoryRecord × List Byte),
      infosOf targets = assigned (indexOf (recordsOf visits)) replacements ∧
        targets.map (fun t => (t.1.key, t.2)) = replacements.map (fun r => (normalizedPath r.isoPath, r.content)) ∧
        (∀ t ∈ targets, t.1 ∈ recordsOf visits ∧ t.1.directory = false ∧ t.2.length < 2 ^ 32) ∧
        (targets.map (·.1)).Nodup := by
  obtain ⟨targets, hinfos, hkeys, hmem⟩ := exists_targets hnamed
  refine ⟨targets, hinfos, hkeys, fun t ht => ?_, ?_⟩
  · obtain ⟨r, hr, heq⟩ := List.mem_map.1 (hkeys ▸ List.mem_map_of_mem ht)
    obtain ⟨hkey, hcontent⟩ := Prod.mk.inj heq
    exact ⟨hmem t ht, (h.named r hr t.1 (hmem t ht) hkey.symm).2.1, hcontent ▸ h.lengths r hr⟩
  · have hkeys' : targets.map (fun t => t.1.key) = replacements.map fun r => normalizedPath r.isoPath := by
      have := congrArg (List.map Prod.fst) hkeys
      rwa [List.map_map, List.map_map] at this
    refine List.Nodup.of_map DirectoryRecord.key ?_
    rw [List.map_map]
    exact hkeys' ▸ hdistinct

/-- The image is ready for its replacements: the directories lie inside it, and the files that do are settled. -/
theorem Ready.of_areas (hvisits : imageWalker.visits file = .ok visits) (haligned : file.size % sectorSize = 0)
    (hapart : (areas file visits).Pairwise Area.Apart) :
    Ready (RecordedInside file visits) file visits (file.size / sectorSize) := by
  have hsize : file.size = file.size / sectorSize * sectorSize :=
    (Nat.div_mul_cancel (Nat.dvd_of_mod_eq_zero haligned)).symm
  have hdirectories : ∀ x ∈ recordsOf visits, x.directory = true → RecordedInside file visits x.offset :=
    fun x hx hdirectory => ⟨x, hx, rfl, directory_within hvisits hsize hx hdirectory⟩
  have hlaid : Laid (RecordedInside file visits) file visits := .of_areas hvisits hapart hdirectories
  refine ⟨hlaid, hsize, ?_⟩
  rintro r hr ⟨x, hx, hoffset, hwithin⟩
  rwa [hlaid.offset_inj hr hx hoffset.symm]

/-- When every path names a file, the patch succeeds and leaves the outcome of its replacements. -/
theorem exists_patched (hindex : indexDirectoryRecords file = .ok (indexOf (recordsOf visits)))
    (hvisits : imageWalker.visits file = .ok visits) (haligned : file.size % sectorSize = 0)
    (hapart : (areas file visits).Pairwise Area.Apart)
    (hdistinct : (replacements.map fun r => normalizedPath r.isoPath).Nodup) (h : Patchable file visits replacements)
    (hfiles : ∀ r ∈ replacements, NamesFile visits r.isoPath) :
    ∃ settled file' visits' targets, patchIsoPreservingLayout file replacements = .ok file' ∧
      Laid settled file' visits' ∧ Outcome (RecordedInside file visits) file visits targets file' visits' ∧
      targets.map (fun t => (t.1.key, t.2)) = replacements.map (fun r => (normalizedPath r.isoPath, r.content)) ∧
      (∀ t ∈ targets, t.1 ∈ recordsOf visits) ∧
      file'.size = (file.size / sectorSize + grown (assigned (indexOf (recordsOf visits)) replacements)) * sectorSize ∧
      (file.size < file'.size → file'.size % sectorSize = 0 ∧
        (readU32 file'.bytes (descriptorOffset + 80)).toNat * sectorSize = file'.size ∧
        BothEndian file' (descriptorOffset + 80)) := by
  have hready := Ready.of_areas hvisits haligned hapart
  have hnamed : ∀ r ∈ replacements, ∃ x ∈ recordsOf visits, x.key = normalizedPath r.isoPath ∧
      indexOf (recordsOf visits) (normalizedPath r.isoPath) = some x.info := by
    intro r hr
    obtain ⟨x, hx, -, hkey⟩ := hfiles r hr
    obtain ⟨info, hinfo⟩ := Option.ne_none_iff_exists'.1 fun hnone => indexOf_eq_none_iff.1 hnone x hx hkey
    obtain ⟨y, hy, hykey, rfl⟩ := exists_of_indexOf hinfo
    exact ⟨y, hy, hykey, hinfo⟩
  obtain ⟨targets, hinfos, hkeys, htargets, hnodup⟩ := exists_targets_of_patchable hdistinct h hnamed
  have hspaced := h.spaced
  have hsectors := h.sectors
  have hinside := h.inside
  rw [← hinfos] at hspaced hsectors hinside ⊢
  have hsettled : ∀ t ∈ targets, Fits t.1.info t.2 → RecordedInside file visits t.1.offset := fun t ht hfits =>
    ⟨t.1, (htargets t ht).1, rfl, .inr (hinside _ (List.mem_map_of_mem ht) hfits)⟩
  obtain ⟨settled, visits₁, hle, htaken, hready₁, hsector, houtcome⟩ :=
    hready.replaceAll_spec htargets hsettled hnodup hspaced hsectors
  have hfound : ∀ r ∈ replacements, indexOf (recordsOf visits) (normalizedPath r.isoPath) ≠ none := by
    intro r hr hnone
    obtain ⟨x, -, -, hsome⟩ := hnamed r hr
    rw [hsome] at hnone
    cases hnone
  rw [patchIsoPreservingLayout_eq hindex haligned hfound, ← hinfos]
  dsimp only
  generalize replaceAll (infosOf targets) ⟨file, file.size / sectorSize⟩ = p at hready₁ hsector houtcome
  have hsize := hready₁.size_eq
  rw [hsector] at hsize
  by_cases hgrown : p.appendSector > file.size / sectorSize
  · rw [if_pos hgrown]
    obtain ⟨hready', houtcome'⟩ := hready₁.writeVolumeSize (BitVec.ofNat 32 p.appendSector)
    have hend : descriptorOffset + 80 + 8 ≤ p.target.size := hready₁.volumeSize_inside
    have hafter := houtcome.append houtcome' hle htaken nofun
    rw [List.append_nil] at hafter
    refine ⟨settled, _, visits₁, targets, rfl, hready'.toLaid, hafter, hkeys, fun t ht => (htargets t ht).1,
      (hready₁.size_writeVolumeSize _).trans hsize, fun _ => ⟨?_, ?_, ?_⟩⟩
    · rw [hready'.size_eq]
      exact Nat.mul_mod_left _ _
    · have hlt : p.appendSector < 2 ^ 32 := by omega
      rw [writeBothEndianU32.readU32_eq hend, hready'.size_eq, BitVec.toNat_ofNat, Nat.mod_eq_of_lt hlt]
    · exact writeBothEndianU32.bothEndian hend
  · rw [if_neg hgrown]
    refine ⟨settled, _, visits₁, targets, rfl, hready₁.toLaid, houtcome, hkeys, fun t ht => (htargets t ht).1, hsize,
      fun hlt => ?_⟩
    rw [hready₁.size_eq, hready.size_eq] at hlt
    exact absurd (Nat.lt_of_mul_lt_mul_right hlt) hgrown

/-- The outcome of the replacements as the reader sees it. -/
theorem Outcome.readsBack {settled : Nat → Prop} {file' : Block} {iso' : IsoImage}
    {index' : Name → Option DirectoryRecordInfo} {visits' : List Visit} {targets : List (DirectoryRecord × List Byte)}
    (houtcome : Outcome (RecordedInside file visits) file visits targets file' visits') (hlaid : Laid settled file' visits')
    (haligned : file.size % sectorSize = 0) (hiso : Accepted file iso index visits)
    (hiso' : Accepted file' iso' index' visits')
    (hkeys : targets.map (fun t => (t.1.key, t.2)) = replacements.map fun r => (normalizedPath r.isoPath, r.content))
    (hmem : ∀ t ∈ targets, t.1 ∈ recordsOf visits) (h : Patchable file visits replacements)
    (hsize : file'.size = (file.size / sectorSize + grown (assigned (indexOf (recordsOf visits)) replacements)) * sectorSize)
    (hgrew : file.size < file'.size → file'.size % sectorSize = 0 ∧
      (readU32 file'.bytes (descriptorOffset + 80)).toNat * sectorSize = file'.size ∧
      BothEndian file' (descriptorOffset + 80)) : ReadsBack iso iso' visits replacements := by
  have hreplaces : ∀ t ∈ targets, ∃ r ∈ replacements, normalizedPath r.isoPath = t.1.key ∧ r.content = t.2 := by
    intro t ht
    obtain ⟨r, hr, heq⟩ := List.mem_map.1 (hkeys ▸ List.mem_map_of_mem ht)
    exact ⟨r, hr, Prod.mk.inj heq⟩
  have htarget : ∀ r ∈ replacements, ∃ t ∈ targets, t.1.key = normalizedPath r.isoPath ∧ t.2 = r.content := by
    intro r hr
    obtain ⟨t, ht, heq⟩ := List.mem_map.1 (hkeys ▸ List.mem_map_of_mem hr)
    exact ⟨t, ht, Prod.mk.inj heq⟩
  have hle : iso.file.size ≤ iso'.file.size := by
    rw [hiso.file_eq, hiso'.file_eq]
    exact houtcome.size_le
  constructor
  · intro r hr
    obtain ⟨t, ht, htkey, htcontent⟩ := htarget r hr
    obtain ⟨hupper, -, hunique⟩ := h.named r hr t.1 (hmem t ht) htkey
    obtain ⟨x, hx, hpath, hoffset, hcontent⟩ := houtcome.replaced t ht
    have hfind : iso'.find r.isoPath = some x.entry := by
      refine hiso'.find_eq hx ?_ fun y hy hypath => ?_
      · rw [hpath, ← hupper, ← hiso.key_eq (hmem t ht)]
        exact htkey
      · -- a second record of the path would come from a second record of the original
        obtain ⟨z, hz, hzoffset, hzpath⟩ := houtcome.origin y hy
        have hzkey : z.key = t.1.key := by
          rw [hiso.key_eq hz, hiso.key_eq (hmem t ht), hzpath, hypath, hpath]
        refine hlaid.offset_inj hy hx ?_
        rw [← hzoffset, hunique z hz hzkey, hoffset]
    unfold IsoImage.read
    rw [hfind, ← htcontent]
    rw [← hiso'.file_eq] at hcontent
    exact hcontent.readEntry
  · intro entry hentry hother
    obtain ⟨x, hx, rfl⟩ := (hiso.mem_entries entry).1 hentry
    have hkept : Kept (RecordedInside file visits) file file' visits' x := by
      refine houtcome.kept x hx fun t ht heq => ?_
      obtain ⟨r, hr, hrkey, -⟩ := hreplaces t ht
      rw [heq] at hrkey
      exact hother r hr hrkey
    have hsettled := recordedInside_of_le hx haligned
    have hunread := h.unread x hx hother
    rw [← hsize] at hunread
    rw [← hiso.file_eq] at hsettled hunread hkept
    rw [← hiso'.file_eq] at hunread hkept
    exact ⟨hiso'.entry_mem hkept.mem, fun content hread => hkept.readEntry hle hsettled hread,
      fun content hread => hkept.of_readEntry hsettled hunread hread⟩
  · have hpaths' := hiso'.perm.map (·.path)
    have hpaths := hiso.perm.map (·.path)
    rw [List.map_map] at hpaths hpaths'
    exact (hpaths'.trans (.of_eq houtcome.paths)).trans hpaths.symm
  · intro v hv i hi hlocation
    rw [hiso.file_eq, hiso'.file_eq]
    refine houtcome.directories v hv i hi fun t ht => hlocation t.1 (hmem t ht) ?_
    obtain ⟨r, hr, hrkey, -⟩ := hreplaces t ht
    exact ⟨r, hr, hrkey⟩
  · rintro x hx ⟨r, hr, hrkey⟩
    obtain ⟨t, ht, htkey, -⟩ := htarget r hr
    obtain ⟨y, -, -, hoffset, hcontent⟩ := houtcome.replaced t ht
    obtain ⟨-, -, hunique⟩ := h.named r hr t.1 (hmem t ht) htkey
    rw [← hunique x hx (hrkey.symm.trans htkey.symm)] at hoffset
    rw [hiso'.file_eq, ← hoffset]
    exact ⟨hcontent.extent, hcontent.length⟩
  · rw [hiso.file_eq, hiso'.file_eq]
    exact hgrew

/-! ### The image with one empty file -/

def emptyFileVisits (letter : Byte) : List Visit := [⟨emptyFileRoot, [emptyFileRecord letter]⟩]

theorem areas_emptyFileImage : (areas (emptyFileImage 0x41) (emptyFileVisits 0x41)).Pairwise Area.Apart := by
  decide

theorem aligned_emptyFileImage (letter : Byte) : (emptyFileImage letter).size % sectorSize = 0 :=
  Nat.mul_mod_left 18 sectorSize

theorem indexOf_emptyFileVisits : indexOf (recordsOf (emptyFileVisits 0x41)) (normalizedPath [0x41]) =
    some (emptyFileRecord 0x41).info := by decide

theorem assigned_emptyFileVisits (content : List Byte) :
    assigned (indexOf (recordsOf (emptyFileVisits 0x41))) [⟨[0x41], content⟩] =
      [((emptyFileRecord 0x41).info, content)] := by
  unfold assigned
  rw [List.filterMap_cons, indexOf_emptyFileVisits]
  rfl

theorem patchable_emptyFileImage {content : List Byte} (hlength : content.length < 2 ^ 20)
    (hwhole : content.length % sectorSize = 0) :
    Patchable (emptyFileImage 0x41) (emptyFileVisits 0x41) [⟨[0x41], content⟩] := by
  have hassigned := assigned_emptyFileVisits content
  constructor
  · intro r _ x hx _
    obtain rfl := List.mem_singleton.1 hx
    exact ⟨by decide, rfl, fun y hy _ => List.mem_singleton.1 hy⟩
  · intro t ht hfits
    rw [hassigned] at ht
    obtain rfl := List.mem_singleton.1 ht
    exact absurd (sectors_eq_zero_iff.2 rfl) hfits.1
  · intro x hx hother
    obtain rfl := List.mem_singleton.1 hx
    exact absurd rfl (hother _ (List.mem_singleton_self _))
  · intro r hr
    obtain rfl := List.mem_singleton.1 hr
    exact Nat.lt_trans hlength (by decide)
  · rw [hassigned]
    refine .inr ?_
    have happended : appended (emptyFileRecord 0x41).info content ≤ sectors content.length := by
      unfold appended
      split_ifs <;> omega
    have hsectors := sectors_lt content.length
    have hgrown : grown [((emptyFileRecord 0x41).info, content)] = appended (emptyFileRecord 0x41).info content := by
      unfold grown
      rw [List.map_singleton, List.sum_singleton]
    have hsize : (emptyFileImage 0x41).size / sectorSize = 18 := Nat.mul_div_cancel 18 (by decide)
    rw [hgrown, hsize]
    unfold sectorSize at hsectors
    omega
  · rw [hassigned]
    exact ⟨fun _ _ => hwhole, trivial⟩

/-! ### The result -/

/-- On an image that both accept, whose areas are apart, and replacements of different paths: a path that names no
file is rejected, and otherwise the patched image is accepted and reads back as it should, provided the image and the
replacements are as the patcher assumes if every path names an entry. -/
theorem patched_image_reads_back (hopen : IsoImage.ofFile sorting file = .ok iso)
    (hindex : indexDirectoryRecords file = .ok index) (hvisits : imageWalker.visits file = .ok visits)
    (haligned : file.size % sectorSize = 0) (hapart : (areas file visits).Pairwise Area.Apart)
    (hdistinct : (replacements.map fun r => normalizedPath r.isoPath).Nodup)
    (h : (∀ r ∈ replacements, ∃ x ∈ recordsOf visits, x.key = normalizedPath r.isoPath) →
      Patchable file visits replacements) :
    ((∃ r ∈ replacements, ¬ NamesFile visits r.isoPath) →
      ∃ message, patchIsoPreservingLayout file replacements = .error message) ∧
    ((∀ r ∈ replacements, NamesFile visits r.isoPath) → ∃ file' iso',
      patchIsoPreservingLayout file replacements = .ok file' ∧ IsoImage.ofFile sorting file' = .ok iso' ∧
        ReadsBack iso iso' visits replacements) := by
  obtain ⟨visits', haccepted⟩ := Accepted.of_ok hopen hindex
  obtain rfl : visits = visits' := Except.ok.inj (hvisits.symm.trans haccepted.image)
  have hindex' : indexDirectoryRecords file = .ok (indexOf (recordsOf visits)) :=
    indexDirectoryRecords_eq_ok_iff.2 ⟨visits, haccepted.patch, rfl⟩
  constructor
  · rintro ⟨r, hr, hnames⟩
    have hnone : ∃ r ∈ replacements, indexOf (recordsOf visits) (normalizedPath r.isoPath) = none := by
      by_contra hall
      have hentries : ∀ r ∈ replacements, ∃ x ∈ recordsOf visits, x.key = normalizedPath r.isoPath := by
        intro r hr
        by_contra hmissing
        exact hall ⟨r, hr, indexOf_eq_none_iff.2 fun x hx hkey => hmissing ⟨x, hx, hkey⟩⟩
      obtain ⟨x, hx, hkey⟩ := hentries r hr
      exact hnames ⟨x, hx, ((h hentries).named r hr x hx hkey).2.1, hkey⟩
    obtain ⟨x, -, -, herror⟩ := foldlM_patchOne_error (p := ⟨file, file.size / sectorSize⟩) hnone
    unfold patchIsoPreservingLayout
    rw [hindex']
    dsimp only
    rw [if_neg (not_not.2 haligned), herror]
    exact ⟨_, rfl⟩
  · intro hfiles
    have h := h fun r hr => (hfiles r hr).imp fun x hx => ⟨hx.1, hx.2.2⟩
    obtain ⟨settled, file', visits', targets, hpatch, hlaid, houtcome, hkeys, hmem, hsize, hgrew⟩ :=
      exists_patched hindex' hvisits haligned hapart hdistinct h hfiles
    have hopen' : IsoImage.ofFile sorting file' = .ok ⟨file', sorting.sort ((recordsOf visits').map (·.entry))⟩ :=
      IsoImage.ofFile_eq_ok_iff.2 ⟨visits', hlaid.accepted, rfl⟩
    have hpatcher : indexDirectoryRecords file' = .ok (indexOf (recordsOf visits')) :=
      indexDirectoryRecords_eq_ok_iff.2 ⟨visits', (Walker.visits_patchWalker hlaid.accepted).1, rfl⟩
    obtain ⟨visits₂, haccepted'⟩ := Accepted.of_ok hopen' hpatcher
    obtain rfl : visits' = visits₂ := Except.ok.inj (hlaid.accepted.symm.trans haccepted'.image)
    exact ⟨file', _, hpatch, hopen', houtcome.readsBack hlaid haligned haccepted haccepted' hkeys hmem h hsize hgrew⟩

end

/-- The empty file at the end of the image is replaced by one of a whole sector. -/
theorem empty_file_reads_back : ∃ file' iso',
    patchIsoPreservingLayout (emptyFileImage 0x41) [⟨[0x41], List.replicate sectorSize 7⟩] = .ok file' ∧
      IsoImage.ofFile pathSort file' = .ok iso' ∧
      ReadsBack (emptyFileIso 0x41) iso' (emptyFileVisits 0x41) [⟨[0x41], List.replicate sectorSize 7⟩] := by
  refine (patched_image_reads_back (ofFile_emptyFileImage (by decide)) (indexDirectoryRecords_emptyFileImage (by decide))
    (visits_emptyFileImage (by decide)) (aligned_emptyFileImage _) areas_emptyFileImage
    (by rw [List.map_singleton]; exact List.nodup_singleton _) ?_).2 ?_
  · refine fun _ => patchable_emptyFileImage ?_ ?_
    · rw [List.length_replicate]
      decide
    · rw [List.length_replicate]
      exact Nat.mod_self _
  · intro r hr
    obtain rfl := List.mem_singleton.1 hr
    exact ⟨emptyFileRecord 0x41, List.mem_singleton_self _, rfl, rfl⟩

/-- One byte for the empty file that records the sector after the end: nothing pads it, and the image ends inside a
sector. -/
theorem empty_file_unpadded : IsoImage.ofFile pathSort (emptyFileImage 0x41) = .ok (emptyFileIso 0x41) ∧
    indexDirectoryRecords (emptyFileImage 0x41) = .ok (emptyFileIndex 0x41) ∧
    (emptyFileImage 0x41).size % sectorSize = 0 ∧
    (areas (emptyFileImage 0x41) (emptyFileVisits 0x41)).Pairwise Area.Apart ∧ NamesFile (emptyFileVisits 0x41) [0x41] ∧
    (∃ file', patchIsoPreservingLayout (emptyFileImage 0x41) [⟨[0x41], [7]⟩] = .ok file' ∧
      file'.size = 18 * sectorSize + 1) ∧
    ¬ ∃ file' iso', patchIsoPreservingLayout (emptyFileImage 0x41) [⟨[0x41], [7]⟩] = .ok file' ∧
      IsoImage.ofFile pathSort file' = .ok iso' ∧
      ReadsBack (emptyFileIso 0x41) iso' (emptyFileVisits 0x41) [⟨[0x41], [7]⟩] := by
  have hindex : indexDirectoryRecords (emptyFileImage 0x41) = .ok (emptyFileIndex 0x41) :=
    indexDirectoryRecords_emptyFileImage (by decide)
  have hpatch : ∃ file', patchIsoPreservingLayout (emptyFileImage 0x41) [⟨[0x41], [7]⟩] = .ok file' ∧
      file'.size = 18 * sectorSize + 1 := by
    unfold patchIsoPreservingLayout
    rw [hindex]
    have hnamed : ∀ r ∈ [(⟨[0x41], [7]⟩ : IsoPatchReplacement)], emptyFileIndex 0x41 (normalizedPath r.isoPath) ≠ none := by
      intro r hr
      obtain rfl := List.mem_singleton.1 hr
      exact fun hnone => Option.some_ne_none _ (indexOf_emptyFileVisits.symm.trans hnone)
    have hassigned : assigned (emptyFileIndex 0x41) [⟨[0x41], [7]⟩] = [((emptyFileRecord 0x41).info, [7])] :=
      assigned_emptyFileVisits [7]
    dsimp only
    rw [if_neg (not_not.2 (aligned_emptyFileImage _)), foldlM_patchOne hnamed, hassigned]
    dsimp only
    rw [if_pos (by decide)]
    exact ⟨_, rfl, by decide⟩
  refine ⟨ofFile_emptyFileImage (by decide), hindex, aligned_emptyFileImage _, areas_emptyFileImage,
    ⟨emptyFileRecord 0x41, List.mem_singleton_self _, rfl, rfl⟩, hpatch, ?_⟩
  rintro ⟨file', iso', hfile', hopen', hreads⟩
  obtain ⟨file₁, hfile₁, hsize⟩ := hpatch
  obtain rfl : file' = file₁ := Except.ok.inj (hfile'.symm.trans hfile₁)
  obtain ⟨visits', -, rfl⟩ := IsoImage.ofFile_eq_ok_iff.1 hopen'
  have hwhole := (hreads.grew (by rw [hsize]; exact Nat.lt_succ_self _)).1
  rw [hsize] at hwhole
  exact absurd hwhole (by decide)

end Psprism.Iso
