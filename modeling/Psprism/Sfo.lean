import Psprism.BufferReads

/-!
# `PARAM.SFO` (`refract/src/utility_data.cpp`, `src/iso.cpp`)

The file is a header, a table of entries, a table of keys and a table of values. `make_savedata_sfo` writes one with
three entries into a vector of zeros; the runtime and the disc tool each have a `sfo_string` that finds the value of
a key. The runtime ends a value at its first zero, the disc tool takes the zeros off the end of the entry's length.

The writer stays inside its vector and so do both readers in any, and they read back what was written, without
what is beyond the capacity of a field (`sfo_round_trip`).
-/

namespace Psprism
open CheckedReads

namespace Sfo

def byteOf (c : Char) : Byte := BitVec.ofNat 8 c.toNat

def titleKey : List Byte := ['T', 'I', 'T', 'L', 'E'].map byteOf
def savedataTitleKey : List Byte :=
  ['S', 'A', 'V', 'E', 'D', 'A', 'T', 'A', '_', 'T', 'I', 'T', 'L', 'E'].map byteOf
def savedataDetailKey : List Byte :=
  ['S', 'A', 'V', 'E', 'D', 'A', 'T', 'A', '_', 'D', 'E', 'T', 'A', 'I', 'L'].map byteOf

def magic : Word := 0x46535000

/-! ### The writer -/

structure Field where
  key : List Byte
  capacity : Nat
  value : List Byte

def fields (title savedataTitle detail : List Byte) : List Field :=
  [⟨titleKey, 128, title⟩, ⟨savedataTitleKey, 128, savedataTitle⟩, ⟨savedataDetailKey, 1024, detail⟩]

/-- `align_up`, on a `size_t`. -/
def alignUp (value alignment : Nat) : Nat := (value + alignment - 1) &&& (2 ^ 64 - alignment)

def entryTable : Nat := 20
def keyTable : Nat := entryTable + 3 * 16
def dataTable (fields : List Field) : Nat :=
  alignUp (keyTable + (fields.map fun field => field.key.length + 1).sum) 4
def valueBytes (fields : List Field) : Nat := (fields.map Field.capacity).sum

/-- The length of the value without what does not fit, and without its zero. -/
def Field.length (field : Field) : Nat := min field.value.length (field.capacity - 1)

def writeEntry (dataTable : Nat) (result : List Byte) (index keyOffset valueOffset : Nat) (field : Field) :
    Checked Empty (List Byte) := do
  let entry := entryTable + index * 16
  let result ← store result entry (bytesOfHalf (BitVec.ofNat 16 keyOffset))
  let result ← store result (entry + 2) (bytesOfHalf 0x0204)
  let result ← store result (entry + 4) (bytesOfWord (BitVec.ofNat 32 (field.length + 1)))
  let result ← store result (entry + 8) (bytesOfWord (BitVec.ofNat 32 field.capacity))
  let result ← store result (entry + 12) (bytesOfWord (BitVec.ofNat 32 valueOffset))
  let result ← store result (keyTable + keyOffset) field.key
  store result (dataTable + valueOffset) (field.value.take field.length)

/-- The entries from an index on. -/
def writeEntries (dataTable : Nat) (index keyOffset valueOffset : Nat) :
    List Field → List Byte → Checked Empty (List Byte)
  | [], result => return result
  | field :: rest, result => do
    let result ← writeEntry dataTable result index keyOffset valueOffset field
    writeEntries dataTable (index + 1) (keyOffset + (field.key.length + 1)) (valueOffset + field.capacity) rest result

def makeSavedataSfo (title savedataTitle detail : List Byte) : Checked Empty (List Byte) := do
  let fields := fields title savedataTitle detail
  let dataTable := dataTable fields
  let result := List.replicate (dataTable + valueBytes fields) 0
  let result ← store result 0 (bytesOfWord magic)
  let result ← store result 4 (bytesOfWord 0x00000101)
  let result ← store result 8 (bytesOfWord (BitVec.ofNat 32 keyTable))
  let result ← store result 12 (bytesOfWord (BitVec.ofNat 32 dataTable))
  let result ← store result 16 (bytesOfWord (BitVec.ofNat 32 fields.length))
  writeEntries dataTable 0 0 0 fields result

/-! ### The readers -/

/-- The bytes up to a zero, or all of so many. -/
def fixedString {ε : Type} (data : List Byte) (offset : Nat) : Nat → Checked ε (List Byte)
  | 0 => return []
  | size + 1 => do
    let byte ← cell data offset
    if byte = 0 then return [] else return byte :: (← fixedString data (offset + 1) size)

namespace Runtime

def read16 (data : List Byte) (offset : Nat) : Checked Empty (BitVec 16) :=
  if offset + 2 ≤ data.length then fetchHalf data offset else return 0

def read32 (data : List Byte) (offset : Nat) : Checked Empty Word :=
  if offset + 4 ≤ data.length then fetchWord data offset else return 0

/-- The entries from an index on, as many as are left. The place of an entry is computed in 32 bits. -/
def find (data wantedKey : List Byte) (keys values : Word) (index : Word) : Nat → Checked Empty (List Byte)
  | 0 => return []
  | left + 1 => do
    let entry := 20 + index * 16
    let keyOffset := keys.toNat + (← read16 data entry.toNat).toNat
    let length := (← read32 data (entry + 4).toNat).toNat
    let valueOffset := values.toNat + (← read32 data (entry + 12).toNat).toNat
    if keyOffset ≥ data.length ∨ valueOffset > data.length ∨ length > data.length - valueOffset then
      find data wantedKey keys values (index + 1) left
    else
      let key ← fixedString data keyOffset (data.length - keyOffset)
      if key = wantedKey then fixedString data valueOffset length
      else find data wantedKey keys values (index + 1) left

def sfoString (data wantedKey : List Byte) : Checked Empty (List Byte) := do
  if data.length < 20 then return []
  else if (← read32 data 0) ≠ magic then return []
  else
    let keys ← read32 data 8
    let values ← read32 data 12
    let count ← read32 data 16
    if count.toNat > (data.length - 20) / 16 then return []
    else find data wantedKey keys values 0 count.toNat

end Runtime

namespace Disc

def u16 (data : List Byte) (offset : Nat) : Checked String (BitVec 16) :=
  if offset > data.length ∨ data.length - offset < 2 then raise "truncated PSP metadata" else fetchHalf data offset

def u32 (data : List Byte) (offset : Nat) : Checked String Word :=
  if offset > data.length ∨ data.length - offset < 4 then raise "truncated ISO/PSP metadata" else fetchWord data offset

/-- The length without the zeros at the end. -/
def trimmed (data : List Byte) (offset : Nat) : Nat → Checked String Nat
  | 0 => return 0
  | length + 1 => do
    let byte ← cell data (offset + length)
    if byte = 0 then trimmed data offset length else return length + 1

def find (data wantedKey : List Byte) (keyTable dataTable : Word) (i : Nat) : Nat → Checked String (List Byte)
  | 0 => return []
  | left + 1 => do
    let entry := 20 + i * 16
    let keyOffset := keyTable.toNat + (← u16 data entry).toNat
    let valueLength := (← u32 data (entry + 4)).toNat
    let valueOffset := dataTable.toNat + (← u32 data (entry + 12)).toNat
    if keyOffset ≥ data.length ∨ valueOffset > data.length ∨ valueLength > data.length - valueOffset then
      find data wantedKey keyTable dataTable (i + 1) left
    else
      let key ← fixedString data keyOffset (data.length - keyOffset)
      if key ≠ wantedKey then find data wantedKey keyTable dataTable (i + 1) left
      else
        let length ← trimmed data valueOffset valueLength
        slice data valueOffset length

def sfoString (data wantedKey : List Byte) : Checked String (List Byte) := do
  if data.length < 20 then return []
  else if (← u32 data 0) ≠ magic then return []
  else
    let keyTable ← u32 data 8
    let dataTable ← u32 data 12
    let count ← u32 data 16
    if count.toNat > (data.length - 20) / 16 then return []
    else find data wantedKey keyTable dataTable 0 count.toNat

end Disc

/-! ### The readers stay inside -/

section
variable {ε : Type} {data wantedKey : List Byte} {offset n : Nat}

theorem fixedString_eq (h : offset + n ≤ data.length) :
    (fixedString data offset n : Checked ε _) = .ok (((data.drop offset).take n).takeWhile (· ≠ 0)) := by
  induction n generalizing offset with
  | zero => rfl
  | succ n ih =>
    have hlt : offset < data.length := by omega
    rw [fixedString, cell_eq hlt, ok_bind, ih (by omega), List.drop_eq_getElem_cons hlt, List.take_succ_cons]
    split
    · next hzero =>
      rw [List.takeWhile_cons_of_neg (by simpa using hzero)]
      rfl
    · next hzero =>
      rw [List.takeWhile_cons_of_pos (by simpa using hzero)]
      rfl

theorem inside_fixedString (h : offset + n ≤ data.length) : Inside (fixedString data offset n : Checked ε _) := by
  rw [fixedString_eq h]
  exact inside_ok

namespace Runtime

theorem inside_read16 (data : List Byte) (offset : Nat) : Inside (read16 data offset) :=
  Inside.ite inside_fetchHalf fun _ => inside_pure

theorem inside_read32 (data : List Byte) (offset : Nat) : Inside (read32 data offset) :=
  Inside.ite inside_fetchWord fun _ => inside_pure

theorem inside_find (keys values : Word) (left : Nat) (index : Word) :
    Inside (find data wantedKey keys values index left) := by
  induction left generalizing index with
  | zero => exact inside_pure
  | succ left ih =>
    refine (inside_read16 data _).bind fun keyOffset _ => (inside_read32 data _).bind fun length _ =>
      (inside_read32 data _).bind fun valueOffset _ => Inside.ite (fun _ => ih _) fun hroom => ?_
    simp only [not_or, Nat.not_le, gt_iff_lt, ge_iff_le, Nat.not_lt] at hroom
    refine (inside_fixedString (by omega)).bind fun key _ => Inside.ite (fun _ => ?_) fun _ => ih _
    exact inside_fixedString (by omega)

theorem inside_sfoString (data wantedKey : List Byte) : Inside (sfoString data wantedKey) := by
  refine Inside.ite (fun _ => inside_pure) fun _ => (inside_read32 data 0).bind fun _ _ =>
    Inside.ite (fun _ => inside_pure) fun _ => ?_
  refine (inside_read32 data 8).bind fun _ _ => (inside_read32 data 12).bind fun _ _ =>
    (inside_read32 data 16).bind fun _ _ => Inside.ite (fun _ => inside_pure) fun _ => inside_find _ _ _ _

end Runtime

namespace Disc

theorem inside_u16 (data : List Byte) (offset : Nat) : Inside (u16 data offset) :=
  Inside.ite (fun _ => inside_raise) fun h => inside_fetchHalf (by omega)

theorem inside_u32 (data : List Byte) (offset : Nat) : Inside (u32 data offset) :=
  Inside.ite (fun _ => inside_raise) fun h => inside_fetchWord (by omega)

/-- What is left of a length fits where the length did. -/
theorem trimmed_spec (n : Nat) (h : offset + n ≤ data.length) : ∃ length ≤ n, trimmed data offset n = .ok length := by
  induction n with
  | zero => exact ⟨0, Nat.le_refl 0, rfl⟩
  | succ n ih =>
    rw [trimmed, cell_eq (by omega), ok_bind]
    split
    · obtain ⟨length, hle, heq⟩ := ih (by omega)
      exact ⟨length, Nat.le_succ_of_le hle, heq⟩
    · exact ⟨n + 1, Nat.le_refl _, rfl⟩

theorem inside_find (keyTable dataTable : Word) (left i : Nat) :
    Inside (find data wantedKey keyTable dataTable i left) := by
  induction left generalizing i with
  | zero => exact inside_pure
  | succ left ih =>
    refine (inside_u16 data _).bind fun keyOffset _ => (inside_u32 data _).bind fun length _ =>
      (inside_u32 data _).bind fun valueOffset _ => Inside.ite (fun _ => ih _) fun hroom => ?_
    simp only [not_or, Nat.not_le, gt_iff_lt, ge_iff_le, Nat.not_lt] at hroom
    refine (inside_fixedString (by omega)).bind fun key _ => Inside.ite (fun _ => ih _) fun _ => ?_
    have hvalue : dataTable.toNat + valueOffset.toNat + length.toNat ≤ data.length := by omega
    obtain ⟨trim, hle, heq⟩ := trimmed_spec length.toNat hvalue
    rw [heq, ok_bind]
    exact inside_slice (by omega)

theorem inside_sfoString (data wantedKey : List Byte) : Inside (sfoString data wantedKey) := by
  refine Inside.ite (fun _ => inside_pure) fun _ => (inside_u32 data 0).bind fun _ _ =>
    Inside.ite (fun _ => inside_pure) fun _ => ?_
  refine (inside_u32 data 8).bind fun _ _ => (inside_u32 data 12).bind fun _ _ =>
    (inside_u32 data 16).bind fun _ _ => Inside.ite (fun _ => inside_pure) fun _ => inside_find _ _ _ _

end Disc

end

/-! ### What the writer leaves -/

/-- The vector with so much written in each of its areas. -/
def laid (header entries keys values : List Byte) : List Byte :=
  area 0 20 header ++ (area 0 48 entries ++ (area 0 40 keys ++ (area 0 1280 values ++ [])))

section
variable {header entries keys values xs : List Byte} {offset : Nat}

theorem store_header (hoffset : offset = header.length) (hroom : header.length + xs.length ≤ 20) :
    (store (laid header entries keys values) offset xs : Checked Empty _) =
      .ok (laid (header ++ xs) entries keys values) :=
  store_area [] _ (by rw [hoffset, List.length_nil, Nat.zero_add]) hroom

theorem store_entries (hheader : header.length ≤ 20) (hoffset : offset = 20 + entries.length)
    (hroom : entries.length + xs.length ≤ 48) :
    (store (laid header entries keys values) offset xs : Checked Empty _) =
      .ok (laid header (entries ++ xs) keys values) :=
  store_area (area 0 20 header) _ (by rw [hoffset, length_area hheader]) hroom

theorem store_keys (hheader : header.length ≤ 20) (hentries : entries.length ≤ 48)
    (hoffset : offset = 68 + keys.length) (hroom : keys.length + xs.length ≤ 40) :
    (store (laid header entries keys values) offset xs : Checked Empty _) =
      .ok (laid header entries (keys ++ xs) values) := by
  rw [laid, ← List.append_assoc, store_area _ _ _ hroom, laid, List.append_assoc]
  rw [List.length_append, length_area hheader, length_area hentries, hoffset]

theorem store_values (hheader : header.length ≤ 20) (hentries : entries.length ≤ 48) (hkeys : keys.length ≤ 40)
    (hoffset : offset = 108 + values.length) (hroom : values.length + xs.length ≤ 1280) :
    (store (laid header entries keys values) offset xs : Checked Empty _) =
      .ok (laid header entries keys (values ++ xs)) := by
  rw [laid, ← List.append_assoc, ← List.append_assoc, store_area _ _ _ hroom, laid, List.append_assoc,
    List.append_assoc]
  rw [List.length_append, List.length_append, length_area hheader, length_area hentries, length_area hkeys, hoffset]

end

/-- The bytes of an entry. -/
def entryBytes (keyOffset valueOffset : Nat) (field : Field) : List Byte :=
  bytesOfHalf (BitVec.ofNat 16 keyOffset) ++ bytesOfHalf 0x0204 ++ bytesOfWord (BitVec.ofNat 32 (field.length + 1)) ++
    bytesOfWord (BitVec.ofNat 32 field.capacity) ++ bytesOfWord (BitVec.ofNat 32 valueOffset)

/-- The text that is written, and zeros up to the capacity. -/
def Field.text (field : Field) : List Byte := field.value.take field.length

def Field.padded (field : Field) : List Byte := field.text ++ List.replicate (field.capacity - field.length) 0

variable {field : Field}

@[simp] theorem Field.length_text : field.text.length = field.length := by
  rw [text, List.length_take]
  exact Nat.min_eq_left (Nat.min_le_left _ _)

theorem Field.length_lt (h : 0 < field.capacity) : field.length < field.capacity :=
  Nat.lt_of_le_of_lt (Nat.min_le_right _ _) (Nat.sub_lt h Nat.one_pos)

@[simp] theorem Field.length_padded (h : 0 < field.capacity) : field.padded.length = field.capacity := by
  rw [padded, List.length_append, length_text, List.length_replicate]
  have hlt := Field.length_lt h
  omega

section
variable {header entries keys values : List Byte} {index keyOffset valueOffset : Nat}

theorem writeEntry_eq (hheader : header.length ≤ 20) (hentries : entries.length = 16 * index) (hindex : index < 3)
    (hkeyOffset : keyOffset = keys.length) (hkeys : keys.length + (field.key.length + 1) ≤ 40)
    (hcapacity : 0 < field.capacity) (hvalueOffset : valueOffset = values.length)
    (hvalues : values.length + field.capacity ≤ 1280) :
    writeEntry 108 (laid header entries keys values) index keyOffset valueOffset field =
      .ok (laid header (entries ++ entryBytes keyOffset valueOffset field) (keys ++ (field.key ++ [0]))
        (values ++ field.padded)) := by
  have hlength := Field.length_lt hcapacity
  have htext := field.length_text
  rw [writeEntry, entryTable, keyTable, entryTable, ← Field.text]
  have hhalf : ∀ v, (bytesOfHalf v).length = 2 := fun _ => rfl
  have hword : ∀ v, (bytesOfWord v).length = 4 := fun _ => rfl
  rw [store_entries hheader, ok_bind, store_entries hheader, ok_bind, store_entries hheader, ok_bind,
    store_entries hheader, ok_bind, store_entries hheader, ok_bind, store_keys hheader, ok_bind, store_values hheader]
  · have hkey : area 0 40 (keys ++ (field.key ++ [0])) = area (0 : Byte) 40 (keys ++ field.key) := by
      rw [← List.append_assoc]
      exact area_append_fill (k := 1) (by rw [List.length_append]; omega)
    have hvalue : area 0 1280 (values ++ field.padded) = area (0 : Byte) 1280 (values ++ field.text) := by
      rw [Field.padded, ← List.append_assoc]
      exact area_append_fill (by rw [List.length_append]; omega)
    rw [laid, laid, hkey, hvalue, entryBytes]
    simp only [List.append_assoc]
  all_goals try simp only [List.length_append, hhalf, hword, htext]
  all_goals omega

/-- The entries of the fields, from the offsets of the first on. -/
def entriesBytes (keyOffset valueOffset : Nat) : List Field → List Byte
  | [] => []
  | field :: rest => entryBytes keyOffset valueOffset field ++
      entriesBytes (keyOffset + (field.key.length + 1)) (valueOffset + field.capacity) rest

theorem writeEntries_eq (hheader : header.length ≤ 20) (fields : List Field) (hentries : entries.length = 16 * index)
    (hindex : index + fields.length ≤ 3) (hkeyOffset : keyOffset = keys.length)
    (hkeys : keys.length + (fields.map fun field => field.key.length + 1).sum ≤ 40)
    (hcapacity : ∀ field ∈ fields, 0 < field.capacity) (hvalueOffset : valueOffset = values.length)
    (hvalues : values.length + valueBytes fields ≤ 1280) :
    writeEntries 108 index keyOffset valueOffset fields (laid header entries keys values) =
      .ok (laid header (entries ++ entriesBytes keyOffset valueOffset fields)
        (keys ++ fields.flatMap fun field => field.key ++ [0]) (values ++ fields.flatMap Field.padded)) := by
  induction fields generalizing entries keys values index keyOffset valueOffset with
  | nil =>
    simp only [writeEntries, entriesBytes, List.flatMap_nil, List.append_nil]
    rfl
  | cons field rest ih =>
    obtain ⟨hfield, hrest⟩ := List.forall_mem_cons.1 hcapacity
    rw [List.length_cons] at hindex
    rw [List.map_cons, List.sum_cons] at hkeys
    rw [valueBytes, List.map_cons, List.sum_cons, ← valueBytes] at hvalues
    rw [writeEntries, writeEntry_eq hheader hentries (by omega) hkeyOffset (by omega) hfield hvalueOffset (by omega),
      ok_bind, ih _ (by omega) _ _ hrest]
    · simp only [entriesBytes, List.flatMap_cons, List.append_assoc]
    · rw [List.length_append, field.length_padded hfield, hvalueOffset]
    · rw [List.length_append, field.length_padded hfield]
      omega
    · rw [List.length_append, hentries]
      exact (Nat.mul_succ 16 index).symm
    · rw [List.length_append, List.length_append, List.length_singleton, hkeyOffset]
    · rw [List.length_append, List.length_append, List.length_singleton]
      omega

end

/-- The bytes of the header. -/
def headerBytes : List Byte :=
  bytesOfWord magic ++ bytesOfWord 0x00000101 ++ bytesOfWord 68 ++ bytesOfWord 108 ++ bytesOfWord 3

/-- The vector after the writer has gone through the fields. -/
def sfoBytes (fields : List Field) : List Byte :=
  laid headerBytes (entriesBytes 0 0 fields) (fields.flatMap fun field => field.key ++ [0]) (fields.flatMap Field.padded)

section
variable (title savedataTitle detail : List Byte)

theorem dataTable_fields : dataTable (fields title savedataTitle detail) = 108 := by
  have hkeys : ((fields title savedataTitle detail).map fun field => field.key.length + 1).sum = 37 := rfl
  rw [dataTable, hkeys]
  decide

theorem valueBytes_fields : valueBytes (fields title savedataTitle detail) = 1280 := by
  simp [valueBytes, fields]

theorem makeSavedataSfo_eq :
    makeSavedataSfo title savedataTitle detail = .ok (sfoBytes (fields title savedataTitle detail)) := by
  have hzeros : List.replicate (108 + 1280) (0 : Byte) = laid [] [] [] [] := by
    simp only [laid, area_nil, List.append_nil, List.replicate_append_replicate]
  have hcount : (fields title savedataTitle detail).length = 3 := rfl
  have hkeys : ((fields title savedataTitle detail).map fun field => field.key.length + 1).sum = 37 := rfl
  rw [makeSavedataSfo, dataTable_fields, valueBytes_fields, hzeros, hcount]
  rw [store_header, ok_bind, store_header, ok_bind, store_header, ok_bind, store_header, ok_bind, store_header, ok_bind,
    writeEntries_eq]
  · rfl
  · decide
  · rfl
  · rw [hcount]
  · rfl
  · rw [hkeys]
    decide
  · simp [fields]
  · rfl
  · rw [valueBytes_fields]
    decide
  all_goals decide

end

/-! ### What the readers find -/

/-- The entry of an index has the key and the value, which ends at its first zero. -/
structure HasEntry (data : List Byte) (keys values : Word) (index : Nat) (key value : List Byte) : Prop where
  room : 20 + index * 16 + 16 ≤ data.length
  key_lt : keys.toNat + (halfOf (data.getD · 0) (20 + index * 16)).toNat < data.length
  key_eq : (data.drop (keys.toNat + (halfOf (data.getD · 0) (20 + index * 16)).toNat)).takeWhile (· ≠ 0) = key
  length_eq : (readU32 (data.getD · 0) (20 + index * 16 + 4)).toNat = value.length + 1
  value_eq : (data.drop (values.toNat + (readU32 (data.getD · 0) (20 + index * 16 + 12)).toNat)).take (value.length + 1) =
    value ++ [0]
  no_zero : 0 ∉ value

theorem takeWhile_append_zero {value : List Byte} (h : 0 ∉ value) : (value ++ [0]).takeWhile (· ≠ 0) = value := by
  rw [List.takeWhile_append_of_pos]
  · simp
  · intro byte hbyte
    exact decide_eq_true fun hzero => h (hzero ▸ hbyte)

namespace HasEntry
variable {data key value wantedKey : List Byte} {keys values : Word} {index : Nat}

theorem fits (h : HasEntry data keys values index key value) :
    values.toNat + (readU32 (data.getD · 0) (20 + index * 16 + 12)).toNat + (value.length + 1) ≤ data.length := by
  have hlength := congrArg List.length h.value_eq
  rw [List.length_take, List.length_drop, List.length_append, List.length_singleton] at hlength
  omega

/-- Neither reader passes over the entry. -/
theorem kept (h : HasEntry data keys values index key value) :
    ¬ (keys.toNat + (halfOf (data.getD · 0) (20 + index * 16)).toNat ≥ data.length ∨
      values.toNat + (readU32 (data.getD · 0) (20 + index * 16 + 12)).toNat > data.length ∨
      (readU32 (data.getD · 0) (20 + index * 16 + 4)).toNat >
        data.length - (values.toNat + (readU32 (data.getD · 0) (20 + index * 16 + 12)).toNat)) := by
  have hfits := h.fits
  have hkey := h.key_lt
  rw [h.length_eq]
  omega

theorem fixedString_key {ε : Type} (h : HasEntry data keys values index key value) :
    (fixedString data (keys.toNat + (halfOf (data.getD · 0) (20 + index * 16)).toNat)
      (data.length - (keys.toNat + (halfOf (data.getD · 0) (20 + index * 16)).toNat)) : Checked ε _) = .ok key := by
  have hkey := h.key_lt
  rw [fixedString_eq (by omega), ← List.length_drop, List.take_length, h.key_eq]

theorem getElem?_value (h : HasEntry data keys values index key value) {j : Nat} (hj : j < value.length + 1) :
    data[values.toNat + (readU32 (data.getD · 0) (20 + index * 16 + 12)).toNat + j]? = (value ++ [0])[j]? := by
  rw [← h.value_eq, List.getElem?_take_of_lt hj, List.getElem?_drop]

end HasEntry

namespace Runtime
variable {data key value wantedKey : List Byte} {keys values : Word} {offset index : Nat}

theorem read16_eq (h : offset + 2 ≤ data.length) : read16 data offset = .ok (halfOf (data.getD · 0) offset) := by
  rw [read16, if_pos h, fetchHalf_eq h]

theorem read32_eq (h : offset + 4 ≤ data.length) : read32 data offset = .ok (readU32 (data.getD · 0) offset) := by
  rw [read32, if_pos h, fetchWord_eq h]

theorem find_entry (h : HasEntry data keys values index key value) (hindex : index < 2 ^ 27) (left : Nat) :
    find data wantedKey keys values (BitVec.ofNat 32 index) (left + 1) =
      if key = wantedKey then .ok value else find data wantedKey keys values (BitVec.ofNat 32 (index + 1)) left := by
  have hroom := h.room
  have hentry : (20 + BitVec.ofNat 32 index * 16).toNat = 20 + index * 16 := by bv_omega
  have hentry4 : (20 + BitVec.ofNat 32 index * 16 + 4).toNat = 20 + index * 16 + 4 := by bv_omega
  have hentry12 : (20 + BitVec.ofNat 32 index * 16 + 12).toNat = 20 + index * 16 + 12 := by bv_omega
  rw [find]
  dsimp only
  rw [hentry, hentry4, hentry12, read16_eq (by omega), ok_bind, read32_eq (by omega), ok_bind, read32_eq (by omega),
    ok_bind, if_neg h.kept, h.fixedString_key, ok_bind, h.length_eq, fixedString_eq h.fits, h.value_eq,
    takeWhile_append_zero h.no_zero, BitVec.ofNat_add]
  rfl

end Runtime

namespace Disc
variable {data key value wantedKey : List Byte} {keys values : Word} {offset index : Nat}

theorem u16_eq (h : offset + 2 ≤ data.length) : u16 data offset = .ok (halfOf (data.getD · 0) offset) := by
  rw [u16, if_neg (by omega), fetchHalf_eq h]

theorem u32_eq (h : offset + 4 ≤ data.length) : u32 data offset = .ok (readU32 (data.getD · 0) offset) := by
  rw [u32, if_neg (by omega), fetchWord_eq h]

/-- Only the zero at the end is taken off. -/
theorem trimmed_value (hzero : 0 ∉ value) (hvalue : ∀ j < value.length + 1, data[offset + j]? = (value ++ [0])[j]?) :
    trimmed data offset (value.length + 1) = .ok value.length := by
  have hlast : data[offset + value.length]? = some 0 := by
    rw [hvalue _ (Nat.lt_succ_self _)]
    simp
  rw [trimmed, cell_of_getElem? hlast, ok_bind, if_pos rfl]
  cases hlength : value.length with
  | zero => rfl
  | succ k =>
    have hk : k < value.length := by omega
    have hbyte : data[offset + k]? = some value[k] := by
      rw [hvalue k (by omega), List.getElem?_append_left hk, List.getElem?_eq_getElem hk]
    rw [trimmed, cell_of_getElem? hbyte, ok_bind, if_neg fun heq => hzero (by rw [← heq]; exact List.getElem_mem hk)]
    rfl

theorem find_entry (h : HasEntry data keys values index key value) (left : Nat) :
    find data wantedKey keys values index (left + 1) =
      if key = wantedKey then .ok value else find data wantedKey keys values (index + 1) left := by
  have hroom := h.room
  have hfits := h.fits
  rw [find]
  dsimp only
  rw [u16_eq (by omega), ok_bind, u32_eq (by omega), ok_bind, u32_eq (by omega), ok_bind, if_neg h.kept,
    h.fixedString_key, ok_bind, ite_not, h.length_eq, trimmed_value h.no_zero fun j hj => h.getElem?_value hj, ok_bind,
    slice_eq (by omega)]
  have htake := congrArg (List.take value.length) h.value_eq
  rw [List.take_take, Nat.min_eq_left (Nat.le_succ _), List.take_left] at htake
  rw [htake]

end Disc

/-! ### The round trip -/

theorem Field.text_eq : field.text = field.value.take (field.capacity - 1) := by
  rw [text, List.take_eq_take_iff, length]
  omega

theorem Field.take_padded (h : 0 < field.capacity) (rest : List Byte) :
    (field.padded ++ rest).take (field.text.length + 1) = field.text ++ [0] := by
  have hlt := Field.length_lt h
  obtain ⟨k, hk⟩ : ∃ k, field.capacity - field.length = k + 1 := ⟨field.capacity - field.length - 1, by omega⟩
  rw [padded, hk, List.replicate_succ, List.append_assoc, List.cons_append, List.take_length_add_append]
  rfl

section
variable {title savedataTitle detail : List Byte}

theorem length_values : ((fields title savedataTitle detail).flatMap Field.padded).length = 1280 := by
  simp [fields]

theorem length_entriesBytes : (entriesBytes 0 0 (fields title savedataTitle detail)).length = 48 := rfl

theorem length_keys_le : ((fields title savedataTitle detail).flatMap fun field => field.key ++ [0]).length ≤ 40 := by
  simp [fields, titleKey, savedataTitleKey, savedataDetailKey]

/-- The tables before the values take 108 bytes. -/
theorem sfoBytes_eq (title savedataTitle detail : List Byte) : ∃ tables, tables.length = 108 ∧
    sfoBytes (fields title savedataTitle detail) = tables ++ (fields title savedataTitle detail).flatMap Field.padded := by
  refine ⟨area 0 20 headerBytes ++ (area 0 48 (entriesBytes 0 0 (fields title savedataTitle detail)) ++
    area 0 40 ((fields title savedataTitle detail).flatMap fun field => field.key ++ [0])), ?_, ?_⟩
  · rw [List.length_append, List.length_append, length_area (by decide), length_area length_entriesBytes.le,
      length_area length_keys_le]
  · rw [sfoBytes, laid, area_full length_values, List.append_nil, List.append_assoc, List.append_assoc]

theorem drop_sfoBytes (n : Nat) : (sfoBytes (fields title savedataTitle detail)).drop (108 + n) =
    ((fields title savedataTitle detail).flatMap Field.padded).drop n := by
  obtain ⟨tables, htables, heq⟩ := sfoBytes_eq title savedataTitle detail
  rw [heq, ← List.drop_drop, List.drop_left' htables]

theorem length_sfoBytes : (sfoBytes (fields title savedataTitle detail)).length = 1388 := by
  obtain ⟨tables, htables, heq⟩ := sfoBytes_eq title savedataTitle detail
  rw [heq, List.length_append, htables, length_values]

end

/-- An entry that the readers find, from what its fields say. -/
theorem hasEntry_of_fields {data rest : List Byte} (field : Field) (index keyOffset valueOffset : Nat)
    (hindex : index < 3) (hsize : data.length = 1388)
    (hkeyOffset : halfOf (data.getD · 0) (20 + index * 16) = BitVec.ofNat 16 keyOffset)
    (hlength : readU32 (data.getD · 0) (20 + index * 16 + 4) = BitVec.ofNat 32 (field.length + 1))
    (hvalueOffset : readU32 (data.getD · 0) (20 + index * 16 + 12) = BitVec.ofNat 32 valueOffset)
    (hkeys : keyOffset < 40) (hkey : (data.drop (68 + keyOffset)).takeWhile (· ≠ 0) = field.key)
    (hvalues : valueOffset < 1280) (hvalue : data.drop (108 + valueOffset) = field.padded ++ rest)
    (hcapacity : 0 < field.capacity) (hlarge : field.capacity ≤ 1024) (hzero : 0 ∉ field.value) :
    HasEntry data 68 108 index field.key (field.value.take (field.capacity - 1)) := by
  have hlt := Field.length_lt hcapacity
  have hhalf : (BitVec.ofNat 16 keyOffset).toNat = keyOffset := Nat.mod_eq_of_lt (by omega)
  have hword : (BitVec.ofNat 32 valueOffset).toNat = valueOffset := Nat.mod_eq_of_lt (by omega)
  have hkeyTable : (68 : Word).toNat = 68 := rfl
  have hdataTable : (108 : Word).toNat = 108 := rfl
  rw [← Field.text_eq]
  refine ⟨by omega, ?_, ?_, ?_, ?_, fun h => hzero (List.mem_of_mem_take h)⟩
  · rw [hkeyOffset, hhalf, hkeyTable]
    omega
  · rw [hkeyOffset, hhalf, hkeyTable, hkey]
  · rw [hlength, Field.length_text]
    exact Nat.mod_eq_of_lt (by omega)
  · rw [hvalueOffset, hword, hdataTable, hvalue, Field.take_padded hcapacity]

section
variable {title savedataTitle detail : List Byte}

theorem hasEntry_title (h : 0 ∉ title) :
    HasEntry (sfoBytes (fields title savedataTitle detail)) 68 108 0 titleKey (title.take 127) := by
  refine hasEntry_of_fields ⟨titleKey, 128, title⟩ 0 0 0 (by decide) length_sfoBytes (halfOf_of_bytes _ rfl rfl)
    (readU32_of_bytes _ fun j hj => ?_) (readU32_of_bytes _ fun j hj => ?_) (by decide) rfl (by decide) (drop_sfoBytes 0)
    (Nat.succ_pos _) (Nat.le_of_ble_eq_true rfl) h
  · interval_cases j <;> rfl
  · interval_cases j <;> rfl

theorem hasEntry_savedataTitle (h : 0 ∉ savedataTitle) :
    HasEntry (sfoBytes (fields title savedataTitle detail)) 68 108 1 savedataTitleKey (savedataTitle.take 127) := by
  refine hasEntry_of_fields ⟨savedataTitleKey, 128, savedataTitle⟩ 1 6 128 (by decide) length_sfoBytes
    (halfOf_of_bytes _ rfl rfl) (readU32_of_bytes _ fun j hj => ?_) (readU32_of_bytes _ fun j hj => ?_) (by decide) rfl
    (by decide) ((drop_sfoBytes 128).trans (List.drop_left' (Field.length_padded (Nat.succ_pos _)))) (Nat.succ_pos _)
    (Nat.le_of_ble_eq_true rfl) h
  · interval_cases j <;> rfl
  · interval_cases j <;> rfl

theorem hasEntry_detail (h : 0 ∉ detail) :
    HasEntry (sfoBytes (fields title savedataTitle detail)) 68 108 2 savedataDetailKey (detail.take 1023) := by
  have hvalue : (sfoBytes (fields title savedataTitle detail)).drop (108 + (128 + 128)) =
      Field.padded ⟨savedataDetailKey, 1024, detail⟩ ++ [] := by
    have hlength : ∀ key value, (Field.padded ⟨key, 128, value⟩).length = 128 :=
      fun _ _ => Field.length_padded (Nat.succ_pos _)
    rw [drop_sfoBytes, ← List.drop_drop, fields, List.flatMap_cons, List.drop_left' (hlength _ _), List.flatMap_cons,
      List.drop_left' (hlength _ _)]
    rfl
  refine hasEntry_of_fields ⟨savedataDetailKey, 1024, detail⟩ 2 21 256 (by decide) length_sfoBytes
    (halfOf_of_bytes _ rfl rfl) (readU32_of_bytes _ fun j hj => ?_) (readU32_of_bytes _ fun j hj => ?_) (by decide) rfl
    (by decide) hvalue (Nat.succ_pos _) (Nat.le_refl _) h
  · interval_cases j <;> rfl
  · interval_cases j <;> rfl

/-- The header that the readers test. -/
theorem header_sfoBytes (title savedataTitle detail : List Byte) :
    readU32 ((sfoBytes (fields title savedataTitle detail)).getD · 0) 0 = magic ∧
    readU32 ((sfoBytes (fields title savedataTitle detail)).getD · 0) 8 = 68 ∧
    readU32 ((sfoBytes (fields title savedataTitle detail)).getD · 0) 12 = 108 ∧
    readU32 ((sfoBytes (fields title savedataTitle detail)).getD · 0) 16 = 3 := by
  refine ⟨readU32_of_bytes _ fun j hj => ?_, readU32_of_bytes _ fun j hj => ?_, readU32_of_bytes _ fun j hj => ?_,
    readU32_of_bytes _ fun j hj => ?_⟩ <;> interval_cases j <;> rfl

/-- The value that is written for a key. -/
def written (title savedataTitle detail wantedKey : List Byte) : List Byte :=
  if titleKey = wantedKey then title.take 127
  else if savedataTitleKey = wantedKey then savedataTitle.take 127
  else if savedataDetailKey = wantedKey then detail.take 1023
  else []

variable (htitle : 0 ∉ title) (hsavedataTitle : 0 ∉ savedataTitle) (hdetail : 0 ∉ detail)
include htitle hsavedataTitle hdetail

theorem Runtime.sfoString_sfoBytes (wantedKey : List Byte) :
    sfoString (sfoBytes (fields title savedataTitle detail)) wantedKey =
      .ok (written title savedataTitle detail wantedKey) := by
  obtain ⟨hmagic, hkeys, hvalues, hcount⟩ := header_sfoBytes title savedataTitle detail
  have hread : ∀ offset ≤ 16, read32 (sfoBytes (fields title savedataTitle detail)) offset =
      .ok (readU32 ((sfoBytes (fields title savedataTitle detail)).getD · 0) offset) :=
    fun offset hoffset => read32_eq (by rw [length_sfoBytes]; omega)
  rw [sfoString, length_sfoBytes, if_neg (by decide), hread 0 (by decide), ok_bind, hmagic, if_neg (not_not_intro rfl),
    hread 8 (by decide), ok_bind, hkeys, hread 12 (by decide), ok_bind, hvalues, hread 16 (by decide), ok_bind, hcount,
    if_neg (by decide)]
  change find _ wantedKey 68 108 (BitVec.ofNat 32 0) (2 + 1) = _
  rw [find_entry (hasEntry_title htitle) (by decide), find_entry (hasEntry_savedataTitle hsavedataTitle) (by decide),
    find_entry (hasEntry_detail hdetail) (by decide), find, written]
  split_ifs <;> rfl

theorem Disc.sfoString_sfoBytes (wantedKey : List Byte) :
    sfoString (sfoBytes (fields title savedataTitle detail)) wantedKey =
      .ok (written title savedataTitle detail wantedKey) := by
  obtain ⟨hmagic, hkeys, hvalues, hcount⟩ := header_sfoBytes title savedataTitle detail
  have hread : ∀ offset ≤ 16, u32 (sfoBytes (fields title savedataTitle detail)) offset =
      .ok (readU32 ((sfoBytes (fields title savedataTitle detail)).getD · 0) offset) :=
    fun offset hoffset => u32_eq (by rw [length_sfoBytes]; omega)
  rw [sfoString, length_sfoBytes, if_neg (by decide), hread 0 (by decide), ok_bind, hmagic, if_neg (not_not_intro rfl),
    hread 8 (by decide), ok_bind, hkeys, hread 12 (by decide), ok_bind, hvalues, hread 16 (by decide), ok_bind, hcount,
    if_neg (by decide)]
  change find _ wantedKey 68 108 0 (2 + 1) = _
  rw [find_entry (hasEntry_title htitle), find_entry (hasEntry_savedataTitle hsavedataTitle),
    find_entry (hasEntry_detail hdetail), find, written]
  split_ifs <;> rfl

end

/-- Both readers find what was written for each key, without what is beyond its capacity, and read inside any
vector only. -/
theorem sfo_round_trip (title savedataTitle detail : List Byte) (htitle : 0 ∉ title) (hsavedataTitle : 0 ∉ savedataTitle)
    (hdetail : 0 ∉ detail) :
    (∃ data, makeSavedataSfo title savedataTitle detail = .ok data ∧
      (Runtime.sfoString data titleKey = .ok (title.take (128 - 1)) ∧
        Runtime.sfoString data savedataTitleKey = .ok (savedataTitle.take (128 - 1)) ∧
        Runtime.sfoString data savedataDetailKey = .ok (detail.take (1024 - 1))) ∧
      Disc.sfoString data titleKey = .ok (title.take (128 - 1)) ∧
        Disc.sfoString data savedataTitleKey = .ok (savedataTitle.take (128 - 1)) ∧
        Disc.sfoString data savedataDetailKey = .ok (detail.take (1024 - 1))) ∧
      ∀ data key, Inside (Runtime.sfoString data key) ∧ Inside (Disc.sfoString data key) := by
  refine ⟨⟨_, makeSavedataSfo_eq title savedataTitle detail, ?_, ?_⟩, fun data key => ?_⟩
  · simp only [Runtime.sfoString_sfoBytes htitle hsavedataTitle hdetail]
    exact ⟨rfl, rfl, rfl⟩
  · simp only [Disc.sfoString_sfoBytes htitle hsavedataTitle hdetail]
    exact ⟨rfl, rfl, rfl⟩
  · exact ⟨Runtime.inside_sfoString data key, Disc.inside_sfoString data key⟩

/-- A title of 130 bytes loses three, and the byte behind it is that of no other text. -/
theorem sfo_round_trip_long :
    let data := sfoBytes (fields (List.replicate 130 0x41) [0x42] [0x43, 0x44])
    Runtime.sfoString data titleKey = .ok (List.replicate 127 0x41) ∧
      Disc.sfoString data titleKey = .ok (List.replicate 127 0x41) ∧
      Runtime.sfoString data savedataTitleKey = .ok [0x42] ∧ Disc.sfoString data savedataDetailKey = .ok [0x43, 0x44] := by
  intro data
  obtain ⟨⟨written, hwritten, ⟨hruntime, hsaved, -⟩, hdisc, -, hdetail⟩, -⟩ :=
    sfo_round_trip (List.replicate 130 0x41) [0x42] [0x43, 0x44] (by decide) (by decide) (by decide)
  rw [makeSavedataSfo_eq] at hwritten
  obtain rfl := Except.ok.inj hwritten
  exact ⟨hruntime, hdisc, hsaved, hdetail⟩

end Sfo

end Psprism
