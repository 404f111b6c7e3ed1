import Psprism.IsoDirectory

/-!
# Looking up a path on a disc image (`src/iso.cpp`, `src/iso_patch.cpp`)

`IsoImage` sorts its entries by the paths as recorded and looks up the normalised path, which is in upper case.
`index_directory_records` stores the normalised paths and looks up the same. `std::sort` leaves the order of equal
paths open, so the reader is stated for any sort (`EntrySort`).

The two agree on every spelling of every path, and every listed entry is found by its own path in any letter case,
exactly when no path is recorded with a lower-case letter and no path is recorded with two entries
(`lookups_agree_iff`).
-/

namespace Psprism.Iso

/-- The characters of an error message. -/
def text (name : Name) : String := String.ofList (name.map fun b => Char.ofNat b.toNat)

structure IsoEntry where
  path : Name
  directory : Bool
  extent : Word
  size : Word
deriving DecidableEq

def DirectoryRecord.entry (r : DirectoryRecord) : IsoEntry := ⟨r.path, r.directory, r.extent, r.size⟩

/-- `std::sort` by path: a permutation in which no entry goes after a greater one. -/
structure EntrySort where
  sort : List IsoEntry → List IsoEntry
  perm : ∀ entries, (sort entries).Perm entries
  sorted : ∀ entries, (sort entries).Pairwise fun left right => ¬ right.path < left.path

/-- An open image: the file and its listed entries. -/
structure IsoImage where
  file : Block
  entries : List IsoEntry

namespace IsoImage

/-- The constructor, which opens a file as an image. -/
def ofFile (sorting : EntrySort) (file : Block) : Except String IsoImage :=
  match imageWalker.visits file with
  | .error e => .error e
  | .ok visits => .ok ⟨file, sorting.sort ((recordsOf visits).map (·.entry))⟩

/-- `std::lower_bound` and the comparison with the entry found. -/
def find (iso : IsoImage) (path : Name) : Option IsoEntry :=
  match iso.entries.dropWhile fun entry => entry.path < normalized path with
  | entry :: _ => if entry.path = normalized path then some entry else none
  | [] => none

def readEntry (iso : IsoImage) (entry : IsoEntry) : Except String (List Byte) :=
  if entry.directory then .error "cannot read an ISO directory as a file"
  else
    match readRange iso.file (entry.extent.toNat * sectorSize) entry.size.toNat with
    | .error e => .error e
    | .ok bytes => .ok bytes.toList

def read (iso : IsoImage) (path : Name) : Except String (List Byte) :=
  match iso.find path with
  | none => .error ("file not found in ISO: " ++ text path)
  | some entry => iso.readEntry entry

end IsoImage

structure DirectoryRecordInfo where
  recordOffset : Nat
  extent : Word
  size : Word
deriving DecidableEq

def DirectoryRecord.info (r : DirectoryRecord) : DirectoryRecordInfo := ⟨r.offset, r.extent, r.size⟩

/-- The key under which the patcher stores a record. -/
def DirectoryRecord.key (r : DirectoryRecord) : Name := normalizedPath r.path

/-- The map of the patcher after some records: the last one of a key stays. -/
def indexOf (records : List DirectoryRecord) : Name → Option DirectoryRecordInfo :=
  records.foldl (fun index r => Function.update index r.key (some r.info)) fun _ => none

def indexDirectoryRecords (file : Block) : Except String (Name → Option DirectoryRecordInfo) :=
  match patchWalker.visits file with
  | .error e => .error e
  | .ok visits => .ok (indexOf (recordsOf visits))

/-! ### The two walks -/

/-- A name that can stand between separators. -/
structure IsComponent (name : Name) : Prop where
  ne_nil : name ≠ []
  slash : slash ∉ name
  backslash : backslash ∉ name

/-- Components with a separator between any two. -/
inductive IsPath : Name → Prop
  | component {name} (hname : IsComponent name) : IsPath name
  | join {directory name} (hdirectory : IsPath directory) (hname : IsComponent name) :
      IsPath (directory ++ slash :: name)

theorem IsComponent.head?_ne {name : Name} (h : IsComponent name) : name.head? ≠ some Iso.slash :=
  fun hhead => h.slash (List.mem_of_head? hhead)

theorem IsComponent.getLast?_ne {name : Name} (h : IsComponent name) : name.getLast? ≠ some Iso.slash :=
  fun hlast => h.slash (List.mem_of_getLast? hlast)

namespace IsPath
variable {path : Name}

theorem ne_nil (h : IsPath path) : path ≠ [] := by
  cases h with
  | component hname => exact hname.ne_nil
  | join => simp

theorem head?_ne (h : IsPath path) : path.head? ≠ some slash := by
  induction h with
  | component hname => exact hname.head?_ne
  | join hdirectory _ ih => rwa [List.head?_append_of_ne_nil _ hdirectory.ne_nil]

theorem getLast?_ne (h : IsPath path) : path.getLast? ≠ some slash := by
  cases h with
  | component hname => exact hname.getLast?_ne
  | join _ hname =>
    rw [List.getLast?_append_of_ne_nil _ (List.cons_ne_nil _ _), List.getLast?_cons_of_ne_nil hname.ne_nil]
    exact hname.getLast?_ne

end IsPath

/-- The path of the root or one below it. -/
def IsDirectoryPath (path : Name) : Prop := path = [] ∨ IsPath path

theorem IsDirectoryPath.joinPath {directory name : Name} (h : IsDirectoryPath directory) (hname : IsComponent name) :
    IsPath (joinPath directory name) := by
  unfold Iso.joinPath
  rcases h with rfl | h
  · exact .component hname
  · rw [if_neg h.ne_nil]
    exact .join h hname

theorem appendPath_eq {directory name : Name} (h : IsDirectoryPath directory) (hname : IsComponent name) :
    appendPath directory name = joinPath directory name := by
  unfold appendPath joinPath
  rw [if_neg hname.head?_ne]
  rcases h with rfl | h
  · rfl
  · rw [if_neg h.ne_nil, if_neg]
    exact not_or.2 ⟨h.ne_nil, h.getLast?_ne⟩

theorem recordName_spec {record : Bytes} {length : Nat} {name : Name} (h : recordName record length = .ok name) :
    patchRecordName record length = .ok name ∧ (name ≠ [] → IsComponent name) := by
  unfold recordName at h
  unfold patchRecordName
  split_ifs at h ⊢ with hlength hname hself
  · exact ⟨h, fun hne => absurd (Except.ok.inj h).symm hne⟩
  · dsimp only at h
    split_ifs at h with hunsafe
    cases h
    unfold IsUnsafe at hunsafe
    push Not at hunsafe
    exact ⟨rfl, fun hne => ⟨hne, hunsafe.2.2.2.1, hunsafe.2.2.2.2⟩⟩

theorem readRange_spec {image : Block} {offset size : Nat} {bytes : Block} (h : readRange image offset size = .ok bytes) :
    offset + size ≤ image.size ∧ bytes = image.slice offset size := by
  unfold readRange at h
  split_ifs at h with hrange
  cases h
  push Not at hrange
  exact ⟨by omega, rfl⟩

theorem readRange_of_le {image : Block} {offset size : Nat} (h : offset + size ≤ image.size) :
    readRange image offset size = .ok (image.slice offset size) := by
  refine if_neg ?_
  push Not
  omega

theorem readStream_of_le {image : Block} {offset size : Nat} (h : offset + size ≤ image.size) :
    readStream image offset size = .ok (image.slice offset size) :=
  if_neg fun hpast => absurd h (Nat.not_le.2 hpast.2)

namespace Walker

theorem exists_of_mem_subdirectories {records : List DirectoryRecord} {directory : PendingDirectory}
    (h : directory ∈ subdirectories records) : ∃ r ∈ records, directory.path = r.path := by
  simp only [subdirectories, List.mem_reverse, List.mem_map, List.mem_filter] at h
  obtain ⟨r, ⟨hr, -⟩, rfl⟩ := h
  exact ⟨r, hr, rfl⟩

section
variable {w : Walker} {P : Name → Prop}

/-- What the names joined to the path of a directory have, all the paths found in it have. -/
theorem Scan.paths {directory : PendingDirectory} {bytes : Block} {cursor : Nat} {found : List DirectoryRecord}
    (h : Scan w directory bytes cursor found)
    (hjoin : ∀ record length name, w.recordName record length = .ok name → name ≠ [] → P (w.join directory.path name)) :
    ∀ r ∈ found, P r.path := by
  induction h with
  | done => simp
  | gap _ _ _ ih => exact ih
  | unnamed _ _ _ _ _ ih => exact ih
  | named _ _ _ hname hne _ ih =>
    intro r hr
    rcases List.mem_cons.1 hr with rfl | hr
    · exact hjoin _ _ _ hname hne
    · exact ih r hr

/-- The directories that a scan adds to the stack are as those that wait there. -/
theorem pending_paths {records : List DirectoryRecord} {pending : List PendingDirectory}
    (hfound : ∀ r ∈ records, P r.path) (hpending : ∀ directory ∈ pending, directory.path = [] ∨ P directory.path) :
    ∀ directory ∈ subdirectories records ++ pending, directory.path = [] ∨ P directory.path := by
  intro directory hdirectory
  rcases List.mem_append.1 hdirectory with hdirectory | hdirectory
  · obtain ⟨r, hr, hpath⟩ := exists_of_mem_subdirectories hdirectory
    exact .inr (hpath ▸ hfound r hr)
  · exact hpending directory hdirectory

theorem Walk.paths {image : Block} {pending : List PendingDirectory} {visited : Finset (Word × Word)}
    {visits : List Visit} (h : Walk w image pending visited visits)
    (hjoin : ∀ path record length name, path = [] ∨ P path → w.recordName record length = .ok name → name ≠ [] →
      P (w.join path name))
    (hpending : ∀ directory ∈ pending, directory.path = [] ∨ P directory.path) : ∀ r ∈ recordsOf visits, P r.path := by
  induction h with
  | done => simp [recordsOf]
  | again _ _ ih => exact ih fun d hd => hpending d (List.mem_cons_of_mem _ hd)
  | visit _ _ scan _ ih =>
    have hfound := scan.paths fun _ _ _ => hjoin _ _ _ _ (hpending _ List.mem_cons_self)
    intro r hr
    rw [recordsOf, List.flatMap_cons, List.mem_append] at hr
    rcases hr with hr | hr
    · exact hfound r hr
    · exact ih (pending_paths hfound fun d hd => hpending d (List.mem_cons_of_mem _ hd)) r hr

end

/-- A path found by the reader is one of components. -/
theorem isPath_join {path : Name} {record : Bytes} {length : Nat} {name : Name} (hpath : IsDirectoryPath path)
    (hname : imageWalker.recordName record length = .ok name) (hne : name ≠ []) :
    imageWalker.join path name = patchWalker.join path name ∧ IsPath (imageWalker.join path name) := by
  have hcomponent := (recordName_spec hname).2 hne
  have hjoin : imageWalker.join path name = patchWalker.join path name := appendPath_eq hpath hcomponent
  exact ⟨hjoin, hjoin ▸ hpath.joinPath hcomponent⟩

/-- The patcher finds in a directory what the reader finds. -/
theorem Scan.toPatch {directory : PendingDirectory} {bytes : Block} {cursor : Nat} {found : List DirectoryRecord}
    (h : Scan imageWalker directory bytes cursor found) (hpath : IsDirectoryPath directory.path) :
    Scan patchWalker directory bytes cursor found := by
  induction h with
  | done hend => exact .done hend
  | gap hcursor hzero _ ih => exact .gap hcursor hzero ih
  | unnamed hlength hmin hend hname _ ih => exact .unnamed hlength hmin hend (recordName_spec hname).1 ih
  | named hlength hmin hend hname hne _ ih =>
    rw [(isPath_join hpath hname hne).1]
    exact .named hlength hmin hend (recordName_spec hname).1 hne ih

theorem Walk.toPatch {image : Block} {pending : List PendingDirectory} {visited : Finset (Word × Word)}
    {visits : List Visit} (h : Walk imageWalker image pending visited visits)
    (hpath : ∀ directory ∈ pending, IsDirectoryPath directory.path) : Walk patchWalker image pending visited visits := by
  induction h with
  | done => exact .done
  | again hvisited _ ih => exact .again hvisited (ih fun d hd => hpath d (List.mem_cons_of_mem _ hd))
  | visit hvisited hread scan _ ih =>
    obtain ⟨hle, rfl⟩ := readRange_spec hread
    have hdirectory := hpath _ List.mem_cons_self
    have hfound := scan.paths fun _ _ _ hname hne => (isPath_join hdirectory hname hne).2
    exact .visit hvisited (readStream_of_le hle) (scan.toPatch hdirectory)
      (ih (pending_paths hfound fun d hd => hpath d (List.mem_cons_of_mem _ hd)))

/-- What the reader accepts the patcher walks through with the same records in the same order. -/
theorem visits_patchWalker {image : Block} {visits : List Visit} (h : imageWalker.visits image = .ok visits) :
    patchWalker.visits image = .ok visits ∧ ∀ r ∈ recordsOf visits, IsPath r.path := by
  obtain ⟨descriptor, root, hread, hroot, hwalk⟩ := visits_eq_ok_iff.1 h
  obtain ⟨hle, rfl⟩ := readRange_spec hread
  have hpath : root.path = [] := by
    unfold rootDirectory at hroot
    split_ifs at hroot
    cases hroot
    rfl
  have hpending : ∀ directory ∈ [root], IsDirectoryPath directory.path := by simp [IsDirectoryPath, hpath]
  exact ⟨visits_eq_ok_iff.2 ⟨_, root, readStream_of_le hle, hroot, hwalk.toPatch hpending⟩,
    hwalk.paths (fun _ _ _ _ hdirectory hname hne => (isPath_join hdirectory hname hne).2) hpending⟩

end Walker

/-! ### Normalised paths -/

def upper (path : Name) : Name := path.map toUpper

theorem toUpper_spec (c : Byte) :
    toUpper (toUpper c) = toUpper c ∧ (toUpper c = slash ↔ c = slash) ∧ (toUpper c = backslash ↔ c = backslash) := by
  revert c
  decide

theorem toUpper_idem (c : Byte) : toUpper (toUpper c) = toUpper c := (toUpper_spec c).1

theorem toUpper_eq_slash {c : Byte} : toUpper c = slash ↔ c = slash := (toUpper_spec c).2.1

theorem toUpper_eq_backslash {c : Byte} : toUpper c = backslash ↔ c = backslash := (toUpper_spec c).2.2

theorem pushNormalized_toUpper (result : Name) (c : Byte) :
    pushNormalized result (toUpper c) = pushNormalized result c := by
  unfold pushNormalized
  simp only [toUpper_eq_slash, toUpper_eq_backslash, toUpper_idem, ne_eq]

/-- The case of the letters does not matter. -/
theorem normalized_upper (path : Name) : normalized (upper path) = normalized path := by
  unfold normalized upper
  rw [List.foldl_map]
  simp only [pushNormalized_toUpper]

theorem foldl_pushNormalized_component {name : Name} (h : IsComponent name) (result : Name) :
    name.foldl pushNormalized result = result ++ upper name := by
  have key : ∀ (rest : Name) (result : Name), slash ∉ rest → backslash ∉ rest →
      rest.foldl pushNormalized result = result ++ upper rest := by
    intro rest
    induction rest with
    | nil => simp [upper]
    | cons c rest ih =>
      intro result hslash hbackslash
      rw [List.mem_cons, not_or] at hslash hbackslash
      have hpush : pushNormalized result c = result ++ [toUpper c] := by
        unfold pushNormalized
        rw [if_neg (Ne.symm hbackslash.1), if_pos (Ne.symm hslash.1)]
      rw [List.foldl_cons, ih _ hslash.2 hbackslash.2, hpush, List.append_assoc]
      rfl
  exact key name result h.slash h.backslash

theorem head?_upper_ne {path : Name} (h : path.head? ≠ some slash) : (upper path).head? ≠ some slash := by
  cases path with
  | nil => simp [upper]
  | cons c path =>
    intro heq
    exact h (congrArg some (toUpper_eq_slash.1 (Option.some.inj heq)))

theorem getLast?_upper_ne {path : Name} (h : path.getLast? ≠ some slash) : (upper path).getLast? ≠ some slash := by
  unfold upper
  rw [List.getLast?_map]
  cases hlast : path.getLast? with
  | none => simp
  | some c =>
    rw [hlast] at h
    intro heq
    exact h (congrArg some (toUpper_eq_slash.1 (Option.some.inj heq)))

namespace IsPath
variable {path : Name}

theorem foldl_pushNormalized (h : IsPath path) : path.foldl pushNormalized [] = upper path := by
  induction h with
  | component hname => exact foldl_pushNormalized_component hname []
  | join hdirectory hname ih =>
    rename_i directory name
    have hne : upper directory ≠ [] := by simpa [upper] using hdirectory.ne_nil
    have hpush : pushNormalized (upper directory) slash = upper directory ++ [slash] := by
      unfold pushNormalized
      rw [if_neg (by decide), if_neg (by simp), if_pos ⟨hne, getLast?_upper_ne hdirectory.getLast?_ne⟩]
    rw [List.foldl_append, ih, List.foldl_cons, hpush, foldl_pushNormalized_component hname, List.append_assoc]
    simp only [upper, List.map_append, List.map_cons]
    rfl

/-- A recorded path is only put into upper case. -/
theorem normalized_eq (h : IsPath path) : normalized path = upper path := by
  unfold normalized
  rw [h.foldl_pushNormalized]
  have hhead := head?_upper_ne h.head?_ne
  have hlast := getLast?_upper_ne h.getLast?_ne
  have hfront : (upper path).dropWhile (· = slash) = upper path := by
    cases hpath : upper path with
    | nil => rfl
    | cons c rest =>
      rw [hpath] at hhead
      exact List.dropWhile_cons_of_neg (by simpa using hhead)
  rw [hfront, List.rdropWhile_eq_self_iff]
  intro hne heq
  exact hlast (by rw [List.getLast?_eq_some_getLast hne]; simpa using heq)

end IsPath

/-! ### The two lookups -/

/-- The record of the patcher for a key: the last one found. -/
theorem indexOf_concat (records : List DirectoryRecord) (r : DirectoryRecord) (key : Name) :
    indexOf (records ++ [r]) key = if key = r.key then some r.info else indexOf records key := by
  unfold indexOf
  rw [List.foldl_append, List.foldl_cons, List.foldl_nil, Function.update_apply]

theorem exists_of_indexOf {records : List DirectoryRecord} {key : Name} {info : DirectoryRecordInfo}
    (h : indexOf records key = some info) : ∃ r ∈ records, r.key = key ∧ r.info = info := by
  induction records using List.reverseRecOn with
  | nil => cases h
  | append_singleton records r ih =>
    rw [indexOf_concat] at h
    split_ifs at h with hkey
    · exact ⟨r, by simp, hkey.symm, Option.some.inj h⟩
    · obtain ⟨r', hr', hkey', hinfo⟩ := ih h
      exact ⟨r', by simp [hr'], hkey', hinfo⟩

theorem indexOf_eq_none_iff {records : List DirectoryRecord} {key : Name} :
    indexOf records key = none ↔ ∀ r ∈ records, r.key ≠ key := by
  induction records using List.reverseRecOn with
  | nil => simp [indexOf]
  | append_singleton records r ih =>
    rw [indexOf_concat]
    split_ifs with hkey
    · simp [hkey]
    · rw [ih]
      simp [or_imp, forall_and, Ne.symm hkey]

theorem Name.eq_of_not_lt {a b : Name} (hab : ¬ a < b) (hba : ¬ b < a) : a = b := by
  have : Std.Antisymm (¬ · < · : Byte → Byte → Prop) := ⟨fun a b h h' => by
    rw [BitVec.not_lt] at h h'
    exact BitVec.le_antisymm h' h⟩
  exact List.le_antisymm hba hab

namespace IsoImage
variable {iso : IsoImage} {path : Name} {entry : IsoEntry}

theorem mem_of_find (h : iso.find path = some entry) : entry ∈ iso.entries ∧ entry.path = normalized path := by
  unfold find at h
  cases hdrop : iso.entries.dropWhile fun entry => entry.path < normalized path with
  | nil => rw [hdrop] at h; cases h
  | cons first rest =>
    rw [hdrop] at h
    dsimp only at h
    split_ifs at h with hpath
    cases h
    have hsub := List.dropWhile_sublist (l := iso.entries) fun entry => decide (entry.path < normalized path)
    rw [hdrop] at hsub
    exact ⟨hsub.subset List.mem_cons_self, hpath⟩

/-- Among sorted entries a recorded path is found. -/
theorem find_ne_none (hsorted : iso.entries.Pairwise fun left right => ¬ right.path < left.path)
    (hentry : entry ∈ iso.entries) (hpath : entry.path = normalized path) : iso.find path ≠ none := by
  have hlt : ¬ entry.path < normalized path := hpath ▸ List.lt_irrefl _
  have hmem : entry ∈ iso.entries.dropWhile fun entry => entry.path < normalized path := by
    rw [← List.takeWhile_append_dropWhile (p := fun e => decide (e.path < normalized path)) (l := iso.entries)] at hentry
    refine (List.mem_append.1 hentry).resolve_left fun hbefore => hlt ?_
    have htrue := List.mem_takeWhile_imp hbefore
    simpa using htrue
  have hfirst := List.head?_dropWhile_not (fun e : IsoEntry => decide (e.path < normalized path)) iso.entries
  have hsub := List.dropWhile_sublist (l := iso.entries) fun e => decide (e.path < normalized path)
  unfold find
  cases hdrop : iso.entries.dropWhile fun entry => entry.path < normalized path with
  | nil => simp [hdrop] at hmem
  | cons first rest =>
    rw [hdrop] at hmem hfirst hsub
    -- the entry is the first that is left or goes after it, so the first one has the same path
    have hle : ¬ entry.path < first.path := by
      rcases List.mem_cons.1 hmem with rfl | hrest
      · exact List.lt_irrefl _
      · exact List.rel_of_pairwise_cons (hsorted.sublist hsub) hrest
    have heq : first.path = normalized path :=
      Name.eq_of_not_lt (of_decide_eq_false hfirst) (hpath ▸ hle)
    dsimp only
    rw [if_pos heq]
    exact Option.some_ne_none _

theorem ofFile_eq_ok_iff {sorting : EntrySort} {file : Block} :
    ofFile sorting file = .ok iso ↔ ∃ visits, imageWalker.visits file = .ok visits ∧
      iso = ⟨file, sorting.sort ((recordsOf visits).map (·.entry))⟩ := by
  unfold ofFile
  cases imageWalker.visits file with
  | error e => simp
  | ok visits => simp [eq_comm]

end IsoImage

theorem indexDirectoryRecords_eq_ok_iff {file : Block} {index : Name → Option DirectoryRecordInfo} :
    indexDirectoryRecords file = .ok index ↔ ∃ visits, patchWalker.visits file = .ok visits ∧
      index = indexOf (recordsOf visits) := by
  unfold indexDirectoryRecords
  cases patchWalker.visits file with
  | error e => simp
  | ok visits => simp [eq_comm]

/-! ### An image with one empty file -/

/-- The bytes other than zero of an image whose root directory records an empty file at the end, sector 18. -/
def emptyFileTable (letter : Byte) : List (Nat × Byte) :=
  [(32768, 1), (32769, 0x43), (32770, 0x44), (32771, 0x30), (32772, 0x30), (32773, 0x31), (32774, 1),
    (32848, 18), (32855, 18),
    (32924, 34), (32926, 17), (32933, 17), (32935, 8), (32940, 8), (32949, 2), (32956, 1),
    (34816, 34), (34818, 18), (34825, 18), (34848, 1), (34849, letter)]

def emptyFileImage (letter : Byte) : Block := ⟨18 * sectorSize, fun i => ((emptyFileTable letter).lookup i).getD 0⟩

def emptyFileRoot : PendingDirectory := ⟨[], 17, 2048⟩

def emptyFileRecord (letter : Byte) : DirectoryRecord := ⟨[letter], false, 17 * sectorSize, 18, 0⟩

theorem visits_emptyFileImage {letter : Byte} (h : letter ∈ [0x41, 0x61]) :
    imageWalker.visits (emptyFileImage letter) = .ok [⟨emptyFileRoot, [emptyFileRecord letter]⟩] := by
  let root := (emptyFileImage letter).slice emptyFileRoot.base 2048
  have hroot : rootDirectory ((emptyFileImage letter).slice descriptorOffset sectorSize) = .ok emptyFileRoot := by
    revert letter
    decide
  have hlength : (root.bytes 0).toNat = 34 ∧ (root.bytes 34).toNat = 0 := by
    revert letter
    decide
  have hname : recordName (root.slice 0 34).bytes 34 = .ok [letter] := by
    revert letter
    decide +kernel
  have hrecord : emptyFileRecord letter =
      recordAt (imageWalker.join [] [letter]) emptyFileRoot.base 0 (root.slice 0 34).bytes := by
    revert letter
    decide +kernel
  have hscan : imageWalker.Scan emptyFileRoot root 0 [emptyFileRecord letter] := by
    rw [hrecord]
    refine .named hlength.1 (Nat.le_refl _) ?_ hname (List.cons_ne_nil _ _) (.gap ?_ hlength.2 (.done ?_))
    · show 0 + 34 ≤ 2048
      decide
    · show 0 + 34 < 2048
      decide
    · show 2048 ≤ ((0 + 34) / sectorSize + 1) * sectorSize
      decide
  have hread : ∀ offset size, offset + size ≤ 18 * sectorSize →
      imageWalker.readRange (emptyFileImage letter) offset size = .ok ((emptyFileImage letter).slice offset size) := by
    intro offset size hle
    show readRange _ _ _ = _
    exact readRange_of_le hle
  refine Walker.visits_eq_ok_iff.2 ⟨_, emptyFileRoot, hread _ _ (by decide), hroot, ?_⟩
  exact .visit (Finset.notMem_empty _) (hread _ _ (by decide)) hscan .done

/-- A merge sort by path. -/
def pathSort : EntrySort where
  sort entries := entries.mergeSort fun left right => left.path ≤ right.path
  perm entries := List.mergeSort_perm entries _
  sorted entries := by
    have hpairwise : (entries.mergeSort fun left right => decide (left.path ≤ right.path)).Pairwise
        fun left right => decide (left.path ≤ right.path) = true := by
      refine List.pairwise_mergeSort (fun a b c hab hbc => ?_) (fun a b => ?_) entries
      · exact decide_eq_true (List.le_trans (of_decide_eq_true hab) (of_decide_eq_true hbc))
      · simpa using List.le_total a.path b.path
    exact hpairwise.imp fun hle => List.not_lt.2 (of_decide_eq_true hle)

def emptyFileIso (letter : Byte) : IsoImage := ⟨emptyFileImage letter, [(emptyFileRecord letter).entry]⟩

def emptyFileIndex (letter : Byte) : Name → Option DirectoryRecordInfo := indexOf [emptyFileRecord letter]

theorem ofFile_emptyFileImage {letter : Byte} (h : letter ∈ [0x41, 0x61]) :
    IsoImage.ofFile pathSort (emptyFileImage letter) = .ok (emptyFileIso letter) := by
  refine IsoImage.ofFile_eq_ok_iff.2 ⟨_, visits_emptyFileImage h, ?_⟩
  simp [emptyFileIso, pathSort, recordsOf]

theorem indexDirectoryRecords_emptyFileImage {letter : Byte} (h : letter ∈ [0x41, 0x61]) :
    indexDirectoryRecords (emptyFileImage letter) = .ok (emptyFileIndex letter) :=
  indexDirectoryRecords_eq_ok_iff.2 ⟨_, (Walker.visits_patchWalker (visits_emptyFileImage h)).1, rfl⟩

/-! ### Agreement -/

/-- A directory record that the walk finds in the file. -/
def Walker.Finds (w : Walker) (file : Block) (r : DirectoryRecord) : Prop :=
  ∃ visits, w.visits file = .ok visits ∧ r ∈ recordsOf visits

/-- Nothing is found on either side, or one directory record of the file on both. -/
def SameRecord (file : Block) : Option IsoEntry → Option DirectoryRecordInfo → Prop
  | none, none => True
  | some entry, some info =>
    ∃ r, imageWalker.Finds file r ∧ patchWalker.Finds file r ∧ r.entry = entry ∧ r.info = info
  | _, _ => False

/-- The two lookups agree on every spelling of a path. -/
def LookupsAgree (iso : IsoImage) (index : Name → Option DirectoryRecordInfo) : Prop :=
  ∀ path, SameRecord iso.file (iso.find path) (index (normalizedPath path))

/-- Every listed entry is found by its own path in any letter case. -/
def ListedFound (iso : IsoImage) : Prop :=
  ∀ entry ∈ iso.entries, ∀ path, upper path = upper entry.path → iso.find path = some entry

/-- No path is recorded with a lower-case letter, and none is recorded with two entries. -/
def PlainPaths (iso : IsoImage) : Prop :=
  (∀ entry ∈ iso.entries, upper entry.path = entry.path) ∧
    ∀ entry ∈ iso.entries, ∀ entry' ∈ iso.entries, entry.path = entry'.path → entry = entry'

/-- An image that both accept, as the two lookups see it. -/
structure Accepted (file : Block) (iso : IsoImage) (index : Name → Option DirectoryRecordInfo) (visits : List Visit) :
    Prop where
  file_eq : iso.file = file
  perm : iso.entries.Perm ((recordsOf visits).map (·.entry))
  sorted : iso.entries.Pairwise fun left right => ¬ right.path < left.path
  index_eq : index = indexOf (recordsOf visits)
  image : imageWalker.visits file = .ok visits
  patch : patchWalker.visits file = .ok visits
  isPath : ∀ r ∈ recordsOf visits, IsPath r.path

namespace Accepted
variable {file : Block} {iso : IsoImage} {index : Name → Option DirectoryRecordInfo} {visits : List Visit}

theorem of_ok {sorting : EntrySort} (hopen : IsoImage.ofFile sorting file = .ok iso)
    (hindex : indexDirectoryRecords file = .ok index) :
    ∃ visits, Accepted file iso index visits := by
  obtain ⟨visits, himage, rfl⟩ := IsoImage.ofFile_eq_ok_iff.1 hopen
  obtain ⟨hpatch, hpaths⟩ := Walker.visits_patchWalker himage
  obtain ⟨visits', hpatch', rfl⟩ := indexDirectoryRecords_eq_ok_iff.1 hindex
  obtain rfl : visits = visits' := Except.ok.inj (hpatch.symm.trans hpatch')
  exact ⟨visits, rfl, sorting.perm _, sorting.sorted _, rfl, himage, hpatch, hpaths⟩

theorem mem_entries (h : Accepted file iso index visits) (entry : IsoEntry) :
    entry ∈ iso.entries ↔ ∃ r ∈ recordsOf visits, r.entry = entry := by
  rw [h.perm.mem_iff, List.mem_map]

theorem key_eq (h : Accepted file iso index visits) {r : DirectoryRecord} (hr : r ∈ recordsOf visits) :
    r.key = upper r.path := (h.isPath r hr).normalized_eq

theorem entry_mem (h : Accepted file iso index visits) {r : DirectoryRecord} (hr : r ∈ recordsOf visits) :
    r.entry ∈ iso.entries := (h.mem_entries _).2 ⟨r, hr, rfl⟩

theorem normalized_eq (h : Accepted file iso index visits) {entry : IsoEntry} (hentry : entry ∈ iso.entries) :
    normalized entry.path = upper entry.path := by
  obtain ⟨r, hr, rfl⟩ := (h.mem_entries entry).1 hentry
  exact (h.isPath r hr).normalized_eq

/-- On plain paths both lookups find the one record of the path. -/
theorem lookupsAgree (h : Accepted file iso index visits) (hplain : PlainPaths iso) : LookupsAgree iso index := by
  intro path
  rw [h.index_eq, h.file_eq]
  cases hindex : indexOf (recordsOf visits) (normalizedPath path) with
  | none =>
    have hnone : iso.find path = none := by
      cases hfind : iso.find path with
      | none => rfl
      | some entry =>
        obtain ⟨hentry, hpath⟩ := IsoImage.mem_of_find hfind
        obtain ⟨r, hr, rfl⟩ := (h.mem_entries entry).1 hentry
        refine absurd ?_ (indexOf_eq_none_iff.1 hindex r hr)
        rw [h.key_eq hr]
        exact (hplain.1 _ hentry).trans hpath
    rw [hnone]
    trivial
  | some info =>
    obtain ⟨r, hr, hkey, rfl⟩ := exists_of_indexOf hindex
    have hmem := h.entry_mem hr
    have hpath : r.entry.path = normalized path := by
      rw [← hplain.1 _ hmem]
      exact (h.key_eq hr).symm.trans hkey
    cases hfind : iso.find path with
    | none => exact absurd hfind (IsoImage.find_ne_none h.sorted hmem hpath)
    | some entry =>
      obtain ⟨hentry, hpath'⟩ := IsoImage.mem_of_find hfind
      exact ⟨r, ⟨visits, h.image, hr⟩, ⟨visits, h.patch, hr⟩,
        hplain.2 _ hmem _ hentry (hpath.trans hpath'.symm), rfl⟩

theorem listedFound (h : Accepted file iso index visits) (hplain : PlainPaths iso) : ListedFound iso := by
  intro entry hentry path hpath
  have hnormalized : entry.path = normalized path := by
    rw [← normalized_upper path, hpath, normalized_upper, h.normalized_eq hentry, hplain.1 _ hentry]
  cases hfind : iso.find path with
  | none => exact absurd hfind (IsoImage.find_ne_none h.sorted hentry hnormalized)
  | some entry' =>
    obtain ⟨hentry', hpath'⟩ := IsoImage.mem_of_find hfind
    exact congrArg some (hplain.2 _ hentry' _ hentry (hpath'.trans hnormalized.symm))

/-- An entry found by its own path is recorded in upper case and alone. -/
theorem plainPaths (h : Accepted file iso index visits) (hfound : ListedFound iso) : PlainPaths iso := by
  constructor
  · intro entry hentry
    have hpath := (IsoImage.mem_of_find (hfound entry hentry entry.path rfl)).2
    rw [← h.normalized_eq hentry]
    exact hpath.symm
  · intro entry hentry entry' hentry' heq
    have hfind := hfound entry hentry entry.path rfl
    have hfind' := hfound entry' hentry' entry.path (by rw [heq])
    exact Option.some.inj (hfind.symm.trans hfind')

end Accepted

/-- The lookups of the reader and of the patcher agree on every spelling of every path, and every listed entry is
found by its own path in any letter case, exactly when the recorded paths are plain. -/
theorem lookups_agree_iff {sorting : EntrySort} {file : Block} {iso : IsoImage}
    {index : Name → Option DirectoryRecordInfo} (hopen : IsoImage.ofFile sorting file = .ok iso)
    (hindex : indexDirectoryRecords file = .ok index) : LookupsAgree iso index ∧ ListedFound iso ↔ PlainPaths iso := by
  obtain ⟨visits, h⟩ := Accepted.of_ok hopen hindex
  exact ⟨fun hlookups => h.plainPaths hlookups.2, fun hplain => ⟨h.lookupsAgree hplain, h.listedFound hplain⟩⟩

/-- On the image whose file is recorded as "A" the lookups agree. -/
theorem lookups_agree_upper : LookupsAgree (emptyFileIso 0x41) (emptyFileIndex 0x41) ∧ ListedFound (emptyFileIso 0x41) := by
  refine (lookups_agree_iff (ofFile_emptyFileImage (by decide)) (indexDirectoryRecords_emptyFileImage (by decide))).2 ?_
  constructor
  · intro entry hentry
    obtain rfl := List.mem_singleton.1 hentry
    decide
  · intro entry hentry entry' hentry' _
    exact (List.mem_singleton.1 hentry).trans (List.mem_singleton.1 hentry').symm

/-- A file recorded as "a" is listed under this path. The reader does not find it, the patcher does. -/
theorem lookups_differ : IsoImage.ofFile pathSort (emptyFileImage 0x61) = .ok (emptyFileIso 0x61) ∧
    indexDirectoryRecords (emptyFileImage 0x61) = .ok (emptyFileIndex 0x61) ∧
    (∃ entry ∈ (emptyFileIso 0x61).entries, entry.path = [0x61]) ∧ (emptyFileIso 0x61).find [0x61] = none ∧
    (emptyFileIndex 0x61 (normalizedPath [0x61])).isSome ∧
    ¬ (LookupsAgree (emptyFileIso 0x61) (emptyFileIndex 0x61) ∧ ListedFound (emptyFileIso 0x61)) := by
  have hfind : (emptyFileIso 0x61).find [0x61] = none := by decide
  refine ⟨ofFile_emptyFileImage (by decide), indexDirectoryRecords_emptyFileImage (by decide),
    ⟨_, List.mem_singleton_self _, rfl⟩, hfind, by decide, fun h => ?_⟩
  have hfound := h.2 _ (List.mem_singleton_self _) [0x61] rfl
  rw [hfind] at hfound
  cases hfound

end Psprism.Iso
