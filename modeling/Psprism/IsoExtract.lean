import Mathlib.Data.Prod.Lex
import Mathlib.Order.OrderIsoNat
import Psprism.IsoLookup
import Psprism.Lib.FileTree
import Psprism.Lib.PathText

/-!
# Extracting a disc image (`IsoImage::extract_all` in `src/iso.cpp`)

The paths of the entries come from the image. No accepted one has an empty component, a `.`, a `..` or a separator in
a name (`IsSafe`), but a NUL may stand anywhere, and a host reads a path up to the first one: the last component that
it sees may be any text at all. Extraction changes nothing but below the chosen directory and the directories on the
way to it (`Confined`). The loops over directories and over the records of a directory end for every image.
-/

namespace Psprism.Iso

open FileTree (Node Tree)

/-- A relative path of components that are safe names. -/
structure IsSafe (path : Name) : Prop where
  relative : path.head? ≠ some slash
  components : ∀ c ∈ path.splitOn slash, ¬ IsUnsafe c

/-! ### The host -/

/-- A directory of the host, by the names from the root. -/
abbrev Place := List PathText.Name

def chars (name : Name) : List Char := name.map fun b => Char.ofNat b.toNat

/-- What a host reads of a path. -/
def hostText (path : Name) : List Char := chars (path.takeWhile (· ≠ 0))

/-- `parent_path` of `std::filesystem::path`. -/
def parentPath (path : Name) : Name :=
  let directory := path.rdropWhile (· ≠ slash)
  let parent := directory.rdropWhile (· = slash)
  if parent = [] then directory else parent

/-- The files, the current directory, and which of the operations to come the host fails. -/
structure Host where
  files : Tree PathText.Name (List Byte)
  current : Place
  faults : List Bool

inductive Failure
  /-- An exception of `std::filesystem`. -/
  | filesystem
  | runtime (what : String)
deriving DecidableEq

namespace Host
variable (h : Host)

def fault : Bool := h.faults.head?.getD false

/-- The host after an operation. -/
def after (files : Tree PathText.Name (List Byte)) : Host := { h with files := files, faults := h.faults.tail }

/-- The directories of a path, made one after the other. -/
def makeDirectories (h : Host) (place : Place) : List PathText.Name → Host × Bool
  | [] => (h, true)
  | c :: rest =>
    if PathText.IsEntry c then
      match h.files.node (place ++ [c]) with
      | some .directory => makeDirectories h (place ++ [c]) rest
      | some (.file _) => (h, false)
      | none =>
        if h.fault then (h.after h.files, false)
        else makeDirectories (h.after (h.files.makeDirectory (place ++ [c]))) (place ++ [c]) rest
    else makeDirectories h (PathText.enter place c) rest

/-- `create_directories`, and whether it returns. -/
def createDirectories (path : Name) : Host × Bool :=
  if hostText path = [] then (h, false)
  else h.makeDirectories (PathText.base h.current (hostText path)) (PathText.components (hostText path))

/-- `std::ofstream` with `trunc`: the place of the file. What ends in a separator, `.` or `..` is a directory. -/
def openFile (path : Name) : Host × Option Place :=
  let text := hostText path
  let place := PathText.resolve h.current text
  if PathText.IsEntry ((PathText.components text).getLast (PathText.components_ne_nil text)) ∧
      h.files.node place.dropLast = some .directory ∧ h.files.node place ≠ some .directory ∧ h.fault = false then
    (h.after (h.files.writeFile place []), some place)
  else (h.after h.files, none)

end Host

def bufferSize : Nat := 1024 * 1024

/-- The loop that copies a file, to its end or a read that fails, and whether the output is still good then; `written`
is in the file already. -/
def copyFile (h : Host) (source : Block) (place : Place) (written : List Byte) (good : Bool)
    (offset remaining : Nat) : Host × Option Bool :=
  if _hremaining : remaining = 0 then (h, some good)
  else if h.fault then (h.after h.files, none)
  else
    let amount := min remaining bufferSize
    let written' := written ++ (source.slice offset amount).toList
    let h := h.after h.files
    if ¬ good then copyFile h source place written false (offset + amount) (remaining - amount)
    else if h.fault then copyFile (h.after h.files) source place written false (offset + amount) (remaining - amount)
    else copyFile (h.after (h.files.writeFile place written')) source place written' true (offset + amount)
      (remaining - amount)
termination_by remaining
decreasing_by
  all_goals
    have : 0 < bufferSize := by decide
    omega

/-- One pass of the loop of `extract_all`. -/
def extractEntry (h : Host) (source : Block) (directory : Name) (entry : IsoEntry) : Host × Except Failure Unit :=
  let destination := appendPath directory entry.path
  if entry.directory then
    match h.createDirectories destination with
    | (h, false) => (h, .error .filesystem)
    | (h, true) => (h, .ok ())
  else
    match h.createDirectories (parentPath destination) with
    | (h, false) => (h, .error .filesystem)
    | (h, true) =>
      match h.openFile destination with
      | (h, none) => (h, .error (.runtime ("cannot extract ISO file: " ++ text destination)))
      | (h, some place) =>
        let offset := entry.extent.toNat * sectorSize
        if offset > source.size ∨ entry.size.toNat > source.size - offset then
          (h, .error (.runtime "ISO file extent is outside the image"))
        else if h.fault then (h.after h.files, .error (.runtime ("cannot seek to ISO file: " ++ text entry.path)))
        else
          match copyFile (h.after h.files) source place [] true offset entry.size.toNat with
          | (h, none) => (h, .error (.runtime ("failed while reading ISO file: " ++ text entry.path)))
          | (h, some false) => (h, .error (.runtime ("failed while extracting ISO file: " ++ text destination)))
          | (h, some true) => (h, .ok ())

/-- `extract_all` over the entries of an image. -/
def extractAll (h : Host) (source : Block) (directory : Name) : List IsoEntry → Host × Except Failure Unit
  | [] => (h, .ok ())
  | entry :: rest =>
    match extractEntry h source directory entry with
    | (h, .error e) => (h, .error e)
    | (h, .ok ()) => extractAll h source directory rest

/-! ### What is changed -/

/-- Where a path leads to. -/
def Host.place (h : Host) (path : Name) : Place := PathText.resolve h.current (hostText path)

/-- The directories on the way to a path, itself among them. -/
def Host.way (h : Host) (path : Name) : List Place := PathText.way h.current (hostText path)

/-- Nothing is changed but below the directory, and directories made on the way to it. -/
structure Confined (directory : Name) (h h' : Host) : Prop where
  current : h'.current = h.current
  files : ∀ q, h'.files.node q = h.files.node q ∨ PathText.Below (h.place directory) q ∨
    q ∈ h.way directory ∧ h.files.node q = none ∧ h'.files.node q = some .directory

/-! ### Names that are accepted -/

theorem recordName_safe {record : Bytes} {length : Nat} {name : Name} (h : recordName record length = .ok name)
    (hne : name ≠ []) : ¬ IsUnsafe name := by
  unfold recordName at h
  split_ifs at h
  · exact absurd (Except.ok.inj h).symm hne
  · dsimp only at h
    split_ifs at h with hunsafe
    rwa [← Except.ok.inj h]

namespace IsSafe
variable {path directory name : Name}

theorem slash_not_mem (h : ¬ IsUnsafe name) : slash ∉ name := fun hmem => h (.inr (.inr (.inr (.inl hmem))))

theorem ne_nil (h : IsSafe path) : path ≠ [] := by
  rintro rfl
  exact h.components [] (by rw [List.splitOn_nil]; exact List.mem_singleton_self _) (.inl rfl)

theorem getLast?_ne (h : IsSafe path) : path.getLast? ≠ some slash := by
  intro hlast
  obtain ⟨front, rfl⟩ := List.getLast?_eq_some_iff.1 hlast
  refine h.components [] ?_ (.inl rfl)
  rw [List.splitOn_append_cons_self, List.splitOn_nil]
  exact List.mem_append_right _ (List.mem_singleton_self _)

theorem of_name (h : ¬ IsUnsafe name) : IsSafe name := by
  have hslash := slash_not_mem h
  refine ⟨fun hhead => hslash (List.mem_of_head? hhead), fun c hc => ?_⟩
  rw [List.splitOn_eq_singleton hslash, List.mem_singleton] at hc
  rwa [hc]

/-- A safe name goes onto the root or a safe path. -/
theorem child (hdirectory : directory = [] ∨ IsSafe directory) (hname : ¬ IsUnsafe name) :
    IsSafe (appendPath directory name) := by
  have hhead := (IsSafe.of_name hname).relative
  rcases hdirectory with rfl | hdirectory
  · rw [appendPath, if_neg hhead, if_pos (.inl rfl)]
    exact .of_name hname
  · rw [appendPath, if_neg hhead, if_neg (not_or.2 ⟨hdirectory.ne_nil, hdirectory.getLast?_ne⟩)]
    refine ⟨?_, fun c hc => ?_⟩
    · rw [List.head?_append_of_ne_nil _ hdirectory.ne_nil]
      exact hdirectory.relative
    · rw [List.splitOn_append_cons_self, List.mem_append] at hc
      rcases hc with hc | hc
      · exact hdirectory.components c hc
      · exact (IsSafe.of_name hname).components c hc

end IsSafe

/-- Every path of an image that opens is safe. -/
theorem IsoImage.safe_of_ofFile {sorting : EntrySort} {file : Block} {iso : IsoImage}
    (h : ofFile sorting file = .ok iso) : ∀ entry ∈ iso.entries, IsSafe entry.path := by
  unfold ofFile at h
  split at h
  · cases h
  next visits hvisits =>
    cases h
    obtain ⟨descriptor, root, hread, hroot, hwalk⟩ := Walker.visits_eq_ok_iff.1 hvisits
    have hpath : root.path = [] := by
      unfold rootDirectory at hroot
      split_ifs at hroot
      cases hroot
      rfl
    intro entry hentry
    rw [(sorting.perm _).mem_iff, List.mem_map] at hentry
    obtain ⟨r, hr, rfl⟩ := hentry
    exact hwalk.paths (fun _ _ _ _ hdirectory hname hne => .child hdirectory (recordName_safe hname hne))
      (by simp [hpath]) r hr

/-! ### What a host reads of them -/

section
variable {path directory : Name}

theorem ofNat_toNat (b : Byte) : (Char.ofNat b.toNat).toNat = b.toNat := by
  revert b
  decide

theorem chars_injective : Function.Injective chars := by
  refine List.map_injective_iff.2 fun a b hab => BitVec.eq_of_toNat_eq ?_
  rw [← ofNat_toNat a, ← ofNat_toNat b, hab]

theorem ofNat_eq_slash {b : Byte} : Char.ofNat b.toNat = '/' ↔ b = slash := by
  revert b
  decide

theorem components_chars (path : Name) : PathText.components (chars path) = (path.splitOn slash).map chars := by
  induction path with
  | nil => rfl
  | cons b path ih =>
    have hcons : chars (b :: path) = Char.ofNat b.toNat :: chars path := rfl
    rw [hcons, PathText.components_cons, ih, List.splitOn_cons_eq_if_modifyHead]
    simp only [ofNat_eq_slash, beq_iff_eq]
    split_ifs
    · rfl
    · cases path.splitOn slash with
      | nil => rfl
      | cons first rest => rfl

theorem isEntry_chars {name : Name} (h : ¬ IsUnsafe name) : PathText.IsEntry (chars name) := by
  unfold IsUnsafe at h
  push Not at h
  obtain ⟨hne, hdot, hdots, hslash, -⟩ := h
  refine ⟨fun heq => hne (List.map_eq_nil_iff.1 heq), fun heq => hdot (chars_injective heq),
    fun heq => hdots (chars_injective heq), fun hmem => ?_⟩
  obtain ⟨b, hb, heq⟩ := List.mem_map.1 hmem
  rw [ofNat_eq_slash.1 heq] at hb
  exact hslash hb

/-- Every component but the last one is an entry; the last one may be cut off anywhere. -/
theorem IsSafe.components_hostText (h : IsSafe path) :
    ∀ c ∈ (PathText.components (hostText path)).dropLast, PathText.IsEntry c := by
  intro c hc
  have hprefix : hostText path <+: chars path := (List.takeWhile_prefix _).map _
  have hmem := (PathText.dropLast_components_prefix hprefix).subset hc
  rw [components_chars] at hmem
  obtain ⟨name, hname, rfl⟩ := List.mem_map.1 hmem
  exact isEntry_chars (h.components name hname)

theorem IsSafe.hostText_relative (h : IsSafe path) : ¬ PathText.Absolute (hostText path) := by
  intro habsolute
  cases path with
  | nil => cases habsolute
  | cons b path =>
    rw [PathText.Absolute, hostText, List.takeWhile_cons] at habsolute
    split_ifs at habsolute
    · exact h.relative (congrArg some (ofNat_eq_slash.1 (Option.some.inj habsolute)))
    · cases habsolute

theorem hostText_append (h : (0 : Byte) ∉ directory) (path : Name) :
    hostText (directory ++ path) = chars directory ++ hostText path := by
  have hall : ∀ b ∈ directory, decide (b ≠ 0) = true := fun b hb => by
    rw [decide_eq_true_iff]
    rintro rfl
    exact h hb
  rw [hostText, List.takeWhile_append_of_pos hall, chars, List.map_append]
  rfl

theorem hostText_eq (h : (0 : Byte) ∉ directory) : hostText directory = chars directory := by
  simpa [hostText, chars] using hostText_append h []

theorem hostText_cons (path : Name) : hostText (slash :: path) = '/' :: hostText path := by
  rw [hostText, List.takeWhile_cons_of_pos (by decide)]
  rfl

/-- A directory that is not the empty path, with the separator that it may end in put aside. -/
theorem appendPath_split (hdirectory : directory ≠ []) (hpath : IsSafe path) :
    ∃ front n, front ++ List.replicate n slash = directory ∧ appendPath directory path = front ++ slash :: path ∧
      (front = [] → n = 1) := by
  rw [appendPath, if_neg hpath.relative]
  by_cases hlast : directory.getLast? = some slash
  · obtain ⟨front, rfl⟩ := List.getLast?_eq_some_iff.1 hlast
    rw [if_pos (.inr hlast)]
    exact ⟨front, 1, rfl, List.append_assoc _ _ _, fun _ => rfl⟩
  · rw [if_neg (not_or.2 ⟨hdirectory, hlast⟩)]
    exact ⟨directory, 0, List.append_nil _, rfl, fun h => absurd h hdirectory⟩

/-- The last name of a path. -/
theorem exists_last (path : Name) : ∃ name, slash ∉ name ∧ (path = name ∨ ∃ front, path = front ++ slash :: name) := by
  induction path using List.reverseRecOn with
  | nil => exact ⟨[], List.not_mem_nil, .inl rfl⟩
  | append_singleton path b ih =>
    rcases eq_or_ne b slash with rfl | hb
    · exact ⟨[], List.not_mem_nil, .inr ⟨path, rfl⟩⟩
    · obtain ⟨name, hname, rfl | ⟨front, rfl⟩⟩ := ih
      · exact ⟨path ++ [b], by simp [hname, Ne.symm hb], .inl rfl⟩
      · exact ⟨name ++ [b], by simp [hname, Ne.symm hb], .inr ⟨front, by simp⟩⟩

theorem rdropWhile_name {name : Name} (hname : slash ∉ name) (front : Name) :
    (front ++ name).rdropWhile (· ≠ slash) = front.rdropWhile (· ≠ slash) := by
  induction name using List.reverseRecOn with
  | nil => rw [List.append_nil]
  | append_singleton name b ih =>
    rw [List.mem_append, not_or, List.mem_singleton] at hname
    rw [← List.append_assoc, List.rdropWhile_concat_pos _ _ _ (by simpa using Ne.symm hname.2), ih hname.1]

theorem parentPath_name {name : Name} (hname : slash ∉ name) : parentPath name = [] := by
  have hempty := rdropWhile_name hname []
  rw [List.nil_append, List.rdropWhile_nil] at hempty
  rw [parentPath, hempty]
  rfl

theorem parentPath_append {name : Name} (hname : slash ∉ name) (front : Name) :
    parentPath (front ++ slash :: name) =
      if front.rdropWhile (· = slash) = [] then front ++ [slash] else front.rdropWhile (· = slash) := by
  have hfront : (front ++ slash :: name).rdropWhile (· ≠ slash) = front ++ [slash] := by
    rw [List.append_cons, rdropWhile_name hname, List.rdropWhile_concat_neg _ _ _ (by simp)]
  have hparent : (front ++ [slash]).rdropWhile (· = slash) = front.rdropWhile (· = slash) :=
    List.rdropWhile_concat_pos _ _ _ (by simp)
  simp only [parentPath, hfront, hparent]

/-- The separators at the end of a path. -/
theorem exists_separators (path : Name) :
    ∃ bare n, path = bare ++ List.replicate n slash ∧ path.rdropWhile (· = slash) = bare := by
  have hsplit := List.rdropWhile_append_rtakeWhile (p := fun b => decide (b = slash)) (l := path)
  have hall : path.rtakeWhile (· = slash) = List.replicate (path.rtakeWhile (· = slash)).length slash :=
    List.eq_replicate_of_mem fun b hb => by simpa using List.mem_rtakeWhile_imp hb
  rw [hall] at hsplit
  exact ⟨_, _, hsplit.symm, rfl⟩

theorem IsSafe.front {front name : Name} (h : IsSafe (front ++ slash :: name)) (directory : Name) :
    IsSafe front ∧ appendPath directory (front ++ slash :: name) = appendPath directory front ++ slash :: name := by
  have hne : front ≠ [] := by
    rintro rfl
    exact h.relative rfl
  have hhead : front.head? ≠ some slash := by
    have hrelative := h.relative
    rwa [List.head?_append_of_ne_nil _ hne] at hrelative
  refine ⟨⟨hhead, fun c hc => h.components c ?_⟩, ?_⟩
  · rw [List.splitOn_append_cons_self]
    exact List.mem_append_left _ hc
  · rw [appendPath, appendPath, if_neg h.relative, if_neg hhead]
    split_ifs
    · rw [List.append_assoc]
    · rw [List.append_assoc, List.cons_append]

theorem appendPath_getLast?_ne {path : Name} (h : IsSafe path) (directory : Name) :
    (appendPath directory path).getLast? ≠ some slash := by
  rw [appendPath, if_neg h.relative]
  split_ifs
  · rw [List.getLast?_append_of_ne_nil _ h.ne_nil]
    exact h.getLast?_ne
  · rw [List.getLast?_append_of_ne_nil _ (List.cons_ne_nil _ _), List.getLast?_cons_of_ne_nil h.ne_nil]
    exact h.getLast?_ne

theorem appendPath_ne_nil {path : Name} (h : path ≠ []) (directory : Name) : appendPath directory path ≠ [] := by
  rw [appendPath]
  split_ifs
  · exact h
  · exact fun heq => h (List.append_eq_nil_iff.1 heq).2
  · simp

end

namespace Host
variable {h h' : Host} {path directory : Name}

/-- The way of a path in a directory goes through the directory. -/
theorem way_appendPath (hnul : (0 : Byte) ∉ directory) (hpath : IsSafe path) :
    h.place (appendPath directory path) = (PathText.components (hostText path)).foldl PathText.enter (h.place directory) ∧
      h.way (appendPath directory path) =
        h.way directory ++ PathText.passed (h.place directory) (PathText.components (hostText path)) := by
  rcases eq_or_ne directory [] with rfl | hdirectory
  · have hbase : PathText.base h.current (hostText path) = h.current := if_neg hpath.hostText_relative
    rw [appendPath, if_neg hpath.relative, if_pos (.inl rfl)]
    refine ⟨?_, ?_⟩
    · exact congrArg (List.foldl _ · _) hbase
    · exact congrArg (PathText.passed · _) hbase
  · obtain ⟨front, n, rfl, happend, hroot⟩ := appendPath_split hdirectory hpath
    rw [List.mem_append, not_or] at hnul
    have hpathText : hostText (front ++ slash :: path) = chars front ++ '/' :: hostText path := by
      rw [hostText_append hnul.1, hostText_cons]
    have hdirectoryText : hostText (front ++ List.replicate n slash) = chars front ++ List.replicate n '/' := by
      rw [hostText_append hnul.1, hostText_eq hnul.2, chars, chars, List.map_replicate]
      rfl
    rw [happend, place, way, place, way, hpathText, hdirectoryText]
    rcases eq_or_ne front [] with rfl | hfront
    · rw [hroot rfl]
      exact PathText.join_root _ _
    · have hne : chars front ≠ [] := fun h => hfront (List.map_eq_nil_iff.1 h)
      obtain ⟨hresolve, hway⟩ := PathText.separators hne n h.current
      rw [hresolve, hway]
      exact PathText.join hne _ _

/-- Below the directory, or on the way to it. -/
def Allowed (h : Host) (directory : Name) (q : Place) : Prop :=
  PathText.Below (h.place directory) q ∨ q ∈ h.way directory

theorem allowed_appendPath (hnul : (0 : Byte) ∉ directory) (hpath : IsSafe path) :
    ∀ q ∈ h.way (appendPath directory path), h.Allowed directory q := by
  intro q hq
  rw [(way_appendPath hnul hpath).2, List.mem_append] at hq
  rcases hq with hq | hq
  · exact .inr hq
  · rw [← List.dropLast_append_getLast (PathText.components_ne_nil (hostText path))] at hq
    exact .inl (PathText.below_of_mem_passed hpath.components_hostText hq)

theorem way_separators {bare : Name} (hbare : bare ≠ []) (n : Nat)
    (hnul : (0 : Byte) ∉ bare ++ List.replicate n slash) : h.way (bare ++ List.replicate n slash) = h.way bare := by
  have hne : chars bare ≠ [] := fun h => hbare (List.map_eq_nil_iff.1 h)
  have hnul' : (0 : Byte) ∉ bare := fun hmem => hnul (List.mem_append_left _ hmem)
  have htext : hostText (bare ++ List.replicate n slash) = chars bare ++ List.replicate n '/' := by
    rw [hostText_eq hnul, chars, chars, List.map_append, List.map_replicate]
    rfl
  rw [way, way, htext, hostText_eq hnul']
  exact (PathText.separators hne n h.current).2

theorem way_root (n : Nat) : h.way (List.replicate (n + 1) slash) = [] := by
  have htext : hostText (List.replicate (n + 1) slash) = ['/'] ++ List.replicate n '/' := by
    have hnul : (0 : Byte) ∉ List.replicate (n + 1) slash := fun hmem => by
      have heq := List.eq_of_mem_replicate hmem
      cases heq
    rw [hostText_eq hnul, chars, List.map_replicate]
    rfl
  rw [way, htext, (PathText.separators (by simp) n h.current).2, (PathText.join_root h.current []).2]
  rfl

/-- The directory above an entry is the chosen one, or it is the path of a directory in it. -/
theorem allowed_parentPath (hnul : (0 : Byte) ∉ directory) (hpath : IsSafe path) :
    ∀ q ∈ h.way (parentPath (appendPath directory path)), h.Allowed directory q := by
  obtain ⟨name, hname, rfl | ⟨front, rfl⟩⟩ := exists_last path
  · rcases eq_or_ne directory [] with rfl | hdirectory
    · rw [appendPath, if_neg hpath.relative, if_pos (.inl rfl), List.nil_append, parentPath_name hname]
      exact fun q hq => absurd hq List.not_mem_nil
    obtain ⟨front, n, rfl, happend, hroot⟩ := appendPath_split hdirectory hpath
    obtain ⟨bare, m, rfl, hbare⟩ := exists_separators front
    rw [happend, parentPath_append hname, hbare]
    rcases eq_or_ne bare [] with rfl | hne
    · -- the root of the host
      rw [if_pos rfl, List.nil_append, ← List.replicate_succ', way_root]
      exact fun q hq => absurd hq List.not_mem_nil
    · rw [if_neg hne]
      rw [List.append_assoc, List.replicate_append_replicate] at hnul ⊢
      intro q hq
      rw [Allowed, way_separators hne _ hnul]
      exact .inr hq
  · obtain ⟨hfront, happend⟩ := hpath.front directory
    have hself : (appendPath directory front).rdropWhile (· = slash) = appendPath directory front := by
      rw [List.rdropWhile_eq_self_iff]
      intro hne heq
      refine appendPath_getLast?_ne hfront directory ?_
      rw [List.getLast?_eq_some_getLast hne]
      simpa using heq
    rw [happend, parentPath_append hname, hself, if_neg (appendPath_ne_nil hfront.ne_nil directory)]
    exact allowed_appendPath hnul hfront

end Host

/-! ### What is done to the files -/

/-- Directories have been made at some of the places, where there was nothing. -/
structure Made (places : List Place) (h h' : Host) : Prop where
  current : h'.current = h.current
  files : ∀ q, h'.files.node q = h.files.node q ∨
    q ∈ places ∧ h.files.node q = none ∧ h'.files.node q = some .directory

namespace Made
variable {a b : List Place} {h h' h'' : Host}

theorem refl : Made a h h := ⟨rfl, fun _ => .inl rfl⟩

theorem after : Made a h (h.after h.files) := ⟨rfl, fun _ => .inl rfl⟩

theorem trans (h₁ : Made a h h') (h₂ : Made b h' h'') : Made (a ++ b) h h'' := by
  refine ⟨h₂.current.trans h₁.current, fun q => ?_⟩
  rcases h₁.files q with hsame | ⟨hq, hnone, hdir⟩
  · rcases h₂.files q with hsame' | ⟨hq, hnone, hdir⟩
    · exact .inl (hsame'.trans hsame)
    · exact .inr ⟨List.mem_append_right a hq, hsame ▸ hnone, hdir⟩
  · rcases h₂.files q with hsame' | ⟨-, hnone', -⟩
    · exact .inr ⟨List.mem_append_left b hq, hnone, hsame'.trans hdir⟩
    · rw [hdir] at hnone'
      cases hnone'

theorem makeDirectory {place : Place} (hnone : h.files.node place = none) :
    Made [place] h (h.after (h.files.makeDirectory place)) := by
  refine ⟨rfl, fun q => ?_⟩
  rw [Host.after, FileTree.Tree.node_makeDirectory]
  split_ifs with hq
  · exact .inr ⟨List.mem_singleton.2 hq, hq ▸ hnone, rfl⟩
  · exact .inl rfl

end Made

namespace Confined
variable {directory : Name} {h h' h'' : Host}

theorem refl : Confined directory h h := ⟨rfl, fun _ => .inl rfl⟩

theorem trans (h₁ : Confined directory h h') (h₂ : Confined directory h' h'') : Confined directory h h'' := by
  have hplace : h'.place directory = h.place directory := by rw [Host.place, h₁.current, Host.place]
  have hway : h'.way directory = h.way directory := by rw [Host.way, h₁.current, Host.way]
  refine ⟨h₂.current.trans h₁.current, fun q => ?_⟩
  rcases h₁.files q with hsame | hbelow | ⟨hq, hnone, hdir⟩
  · rcases h₂.files q with hsame' | hbelow | ⟨hq, hnone, hdir⟩
    · exact .inl (hsame'.trans hsame)
    · exact .inr (.inl (hplace ▸ hbelow))
    · exact .inr (.inr ⟨hway ▸ hq, hsame ▸ hnone, hdir⟩)
  · exact .inr (.inl hbelow)
  · rcases h₂.files q with hsame' | hbelow | ⟨-, hnone', -⟩
    · exact .inr (.inr ⟨hq, hnone, hsame'.trans hdir⟩)
    · exact .inr (.inl (hplace ▸ hbelow))
    · rw [hdir] at hnone'
      cases hnone'

theorem of_made {places : List Place} (hmade : Made places h h') (hplaces : ∀ q ∈ places, h.Allowed directory q) :
    Confined directory h h' := by
  refine ⟨hmade.current, fun q => ?_⟩
  rcases hmade.files q with hsame | ⟨hq, hnone, hdir⟩
  · exact .inl hsame
  · rcases hplaces q hq with hbelow | hway
    · exact .inr (.inl hbelow)
    · exact .inr (.inr ⟨hway, hnone, hdir⟩)

/-- Something happens to a file below the directory. -/
theorem writeFile {place : Place} {content : List Byte} (hbelow : PathText.Below (h.place directory) place) :
    Confined directory h (h.after (h.files.writeFile place content)) := by
  refine ⟨rfl, fun q => ?_⟩
  rcases eq_or_ne q place with rfl | hne
  · exact .inr (.inl hbelow)
  · refine .inl ?_
    rw [Host.after, FileTree.Tree.node_writeFile, if_neg hne]

theorem after : Confined directory h (h.after h.files) := ⟨rfl, fun _ => .inl rfl⟩

end Confined

section
variable {h : Host} {directory path : Name}

theorem Host.makeDirectories_made (h : Host) (place : Place) (cs : List PathText.Name) :
    Made (PathText.passed place cs) h (h.makeDirectories place cs).1 := by
  induction cs generalizing h place with
  | nil => exact .refl
  | cons c cs ih =>
    rw [makeDirectories, PathText.passed]
    by_cases hentry : PathText.IsEntry c
    · rw [if_pos hentry, if_pos hentry]
      split
      · exact Made.refl.trans (a := [place ++ [c]]) (ih h _)
      · exact .refl
      next hnone =>
        split_ifs with hfault
        · exact .after
        · exact (Made.makeDirectory hnone).trans (ih _ _)
    · rw [if_neg hentry, if_neg hentry]
      exact ih h _

theorem Host.createDirectories_made (h : Host) (path : Name) :
    Made (h.way path) h (h.createDirectories path).1 := by
  rw [createDirectories]
  split_ifs
  · exact ⟨rfl, fun _ => .inl rfl⟩
  · exact h.makeDirectories_made _ _

/-- The last component is that of the entry. -/
theorem components_appendPath (hnul : (0 : Byte) ∉ directory) (hpath : IsSafe path) :
    ∃ front, PathText.components (hostText (appendPath directory path)) =
      front ++ PathText.components (hostText path) := by
  rcases eq_or_ne directory [] with rfl | hdirectory
  · rw [appendPath, if_neg hpath.relative, if_pos (.inl rfl), List.nil_append]
    exact ⟨[], rfl⟩
  · obtain ⟨front, n, rfl, happend, -⟩ := appendPath_split hdirectory hpath
    rw [List.mem_append, not_or] at hnul
    rw [happend, hostText_append hnul.1, hostText_cons, PathText.components_append]
    exact ⟨_, rfl⟩

/-- What is opened is a file below the directory. -/
theorem Host.openFile_below (hnul : (0 : Byte) ∉ directory) (hpath : IsSafe path) {h' : Host} {place : Place}
    (hopen : h.openFile (appendPath directory path) = (h', some place)) :
    PathText.Below (h.place directory) place ∧ Confined directory h h' := by
  rw [openFile] at hopen
  split_ifs at hopen with hok
  · obtain ⟨hhost, hplace⟩ := Prod.mk.inj hopen
    obtain ⟨hlast, -⟩ := hok
    have hbelow : PathText.Below (h.place directory) place := by
      obtain ⟨front, hfront⟩ := components_appendPath hnul hpath
      have hne := PathText.components_ne_nil (hostText path)
      have hentries : ∀ c ∈ PathText.components (hostText path), PathText.IsEntry c := by
        intro c hc
        rw [← List.dropLast_append_getLast hne, List.mem_append, List.mem_singleton] at hc
        rcases hc with hc | rfl
        · exact hpath.components_hostText c hc
        · simpa only [hfront, List.getLast_append_of_ne_nil _ hne] using hlast
      have hlead := (way_appendPath (h := h) hnul hpath).1
      rw [PathText.foldl_enter_entries hentries] at hlead
      obtain ⟨c, rest, hcomponents⟩ := List.exists_cons_of_ne_nil hne
      rw [hcomponents] at hlead
      exact ⟨c, rest, (Option.some.inj hplace).symm.trans hlead⟩
    rw [← hhost]
    exact ⟨hbelow, .writeFile (Option.some.inj hplace ▸ hbelow)⟩
  · cases (Prod.mk.inj hopen).2

theorem Host.openFile_failed {h' : Host} (hopen : h.openFile path = (h', none)) : Confined directory h h' := by
  rw [openFile] at hopen
  split_ifs at hopen
  · cases (Prod.mk.inj hopen).2
  · rw [← (Prod.mk.inj hopen).1]
    exact .after

theorem copyFile_confined (h : Host) (source : Block) {place : Place} (written : List Byte) (good : Bool)
    (offset remaining : Nat) (hbelow : PathText.Below (h.place directory) place) :
    Confined directory h (copyFile h source place written good offset remaining).1 := by
  induction remaining using Nat.strongRecOn generalizing h written good offset with
  | ind remaining ih =>
    rw [copyFile]
    split
    · exact .refl
    next hremaining =>
      have hsmaller : remaining - min remaining bufferSize < remaining := by
        have hbuffer : 0 < bufferSize := by decide
        omega
      have hread : Confined directory h (h.after h.files) := .after
      dsimp only
      split_ifs
      · exact hread
      · refine hread.trans (Confined.after.trans (ih _ hsmaller _ _ _ _ ?_))
        exact hbelow
      · have hwritten (content : List Byte) : Confined directory (h.after h.files)
            ((h.after h.files).after (h.files.writeFile place content)) := .writeFile hbelow
        refine hread.trans ((hwritten _).trans (ih _ hsmaller _ _ _ _ ?_))
        exact hbelow
      · refine hread.trans (ih _ hsmaller _ _ _ _ ?_)
        exact hbelow

theorem extractEntry_confined (h : Host) (source : Block) (hnul : (0 : Byte) ∉ directory) {entry : IsoEntry}
    (hentry : IsSafe entry.path) : Confined directory h (extractEntry h source directory entry).1 := by
  have hmade : Confined directory h (h.createDirectories (appendPath directory entry.path)).1 :=
    .of_made (h.createDirectories_made _) (Host.allowed_appendPath hnul hentry)
  have hparent : Confined directory h (h.createDirectories (parentPath (appendPath directory entry.path))).1 :=
    .of_made (h.createDirectories_made _) (Host.allowed_parentPath hnul hentry)
  rw [extractEntry]
  dsimp only
  by_cases hdirectory : entry.directory
  · rw [if_pos hdirectory]
    rcases hcreate : h.createDirectories (appendPath directory entry.path) with ⟨h₁, _ | _⟩
    · rwa [hcreate] at hmade
    · rwa [hcreate] at hmade
  · rw [if_neg hdirectory]
    rcases hcreate : h.createDirectories (parentPath (appendPath directory entry.path)) with ⟨h₁, _ | _⟩
    · rwa [hcreate] at hparent
    rw [hcreate] at hparent
    rcases hopen : h₁.openFile (appendPath directory entry.path) with ⟨h₂, _ | place⟩
    · simp only [hopen]
      exact hparent.trans (Host.openFile_failed hopen)
    simp only [hopen]
    obtain ⟨hbelow, hopened⟩ := Host.openFile_below hnul hentry hopen
    have hbefore := hparent.trans hopened
    have hbelow' : PathText.Below (h₂.place directory) place := by
      rw [Host.place, hopened.current]
      exact hbelow
    split_ifs
    · exact hbefore
    · exact hbefore.trans .after
    · have hcopied := copyFile_confined (h₂.after h₂.files) source [] true (entry.extent.toNat * sectorSize)
        entry.size.toNat hbelow'
      have hdone := hbefore.trans (Confined.after.trans hcopied)
      split
      next heq => rwa [heq] at hdone
      next heq => rwa [heq] at hdone
      next heq => rwa [heq] at hdone

theorem extractAll_confined (source : Block) (hnul : (0 : Byte) ∉ directory) {entries : List IsoEntry}
    (hentries : ∀ entry ∈ entries, IsSafe entry.path) :
    Confined directory h (extractAll h source directory entries).1 := by
  induction entries generalizing h with
  | nil => exact .refl
  | cons entry entries ih =>
    obtain ⟨hentry, hrest⟩ := List.forall_mem_cons.1 hentries
    have hone := extractEntry_confined h source hnul hentry
    rw [extractAll]
    split
    next h' e heq => rwa [heq] at hone
    next h' heq =>
      rw [heq] at hone
      exact hone.trans (ih hrest)

end

/-! ### The loops end -/

structure WalkState where
  pending : List PendingDirectory
  visited : Finset (Word × Word)

/-- A pair that is visited stays visited; where nothing is visited the stack gets shorter. -/
def WalkState.rank (s : WalkState) : ℕ ×ₗ ℕ := toLex (s.visitedᶜ.card, s.pending.length)

namespace Walker
variable (w : Walker)

/-- One pass of the loop over the stack: the directory that is visited, if any, and the state after it. -/
def turn (image : Block) (s : WalkState) : Except String (Option (List Visit × WalkState)) :=
  match s.pending with
  | [] => .ok none
  | directory :: pending =>
    if directory.key ∈ s.visited then .ok (some ([], ⟨pending, s.visited⟩))
    else
      match w.readRange image directory.base directory.size.toNat with
      | .error e => .error e
      | .ok bytes =>
        match w.records directory bytes 0 with
        | .error e => .error e
        | .ok records =>
          .ok (some ([⟨directory, records⟩], ⟨subdirectories records ++ pending, insert directory.key s.visited⟩))

/-- One pass of the loop over the records of a directory. -/
def advance (bytes : Block) (cursor : Nat) : Except String (Option Nat) :=
  if cursor < bytes.size then
    let length := (bytes.bytes cursor).toNat
    if length = 0 then .ok (some ((cursor / sectorSize + 1) * sectorSize))
    else if cursor + length > bytes.size ∨ length < 34 then .error "invalid ISO directory record"
    else
      match w.recordName (bytes.slice cursor length).bytes length with
      | .error e => .error e
      | .ok _ => .ok (some (cursor + length))
  else .ok none

variable {w : Walker} {image bytes : Block}

/-- The walk takes turns until there is none. -/
theorem walk_eq_turn (s : WalkState) :
    w.walk image s.pending s.visited =
      match w.turn image s with
      | .error e => .error e
      | .ok none => .ok []
      | .ok (some (visits, s')) => (w.walk image s'.pending s'.visited).map (visits ++ ·) := by
  obtain ⟨pending, visited⟩ := s
  cases pending with
  | nil => rw [walk, turn]
  | cons directory pending =>
    rw [walk, turn]
    by_cases hvisited : directory.key ∈ visited
    · simp only [hvisited, dif_pos, if_pos, List.nil_append]
      cases w.walk image pending visited <;> rfl
    · simp only [hvisited, dif_neg, not_false_eq_true, if_neg]
      cases w.readRange image directory.base directory.size.toNat with
      | error e => rfl
      | ok bytes =>
        dsimp only
        cases w.records directory bytes 0 with
        | error e => rfl
        | ok records =>
          dsimp only
          cases w.walk image (subdirectories records ++ pending) (insert directory.key visited) <;> rfl

/-- The scan of a directory moves the cursor on until it is at the end. -/
theorem records_eq_advance (directory : PendingDirectory) (cursor : Nat) :
    match w.advance bytes cursor with
    | .error e => w.records directory bytes cursor = .error e
    | .ok none => w.records directory bytes cursor = .ok []
    | .ok (some cursor') =>
      ∃ found, w.records directory bytes cursor = (w.records directory bytes cursor').map (found ++ ·) := by
  rw [advance, records]
  dsimp only
  by_cases hcursor : cursor < bytes.size
  · rw [if_pos hcursor, dif_pos hcursor]
    by_cases hzero : (bytes.bytes cursor).toNat = 0
    · rw [if_pos hzero, if_pos hzero]
      refine ⟨[], ?_⟩
      cases w.records directory bytes ((cursor / sectorSize + 1) * sectorSize) <;> rfl
    · rw [if_neg hzero, if_neg hzero]
      by_cases hlength : cursor + (bytes.bytes cursor).toNat > bytes.size ∨ (bytes.bytes cursor).toNat < 34
      · rw [if_pos hlength, dif_pos hlength]
      · rw [if_neg hlength, dif_neg hlength]
        cases w.recordName (bytes.slice cursor (bytes.bytes cursor).toNat).bytes (bytes.bytes cursor).toNat with
        | error e => rfl
        | ok name =>
          dsimp only
          rcases eq_or_ne name [] with rfl | hname
          · refine ⟨[], ?_⟩
            cases w.records directory bytes (cursor + (bytes.bytes cursor).toNat) <;> rfl
          · refine ⟨[recordAt (w.join directory.path name) directory.base cursor
              (bytes.slice cursor (bytes.bytes cursor).toNat).bytes], ?_⟩
            cases w.records directory bytes (cursor + (bytes.bytes cursor).toNat) with
            | error e => rfl
            | ok rest => simp only [if_neg hname, Except.map, List.singleton_append]
  · rw [if_neg hcursor, dif_neg hcursor]

theorem turn_lt {s s' : WalkState} {visits : List Visit} (h : w.turn image s = .ok (some (visits, s'))) :
    s'.rank < s.rank := by
  obtain ⟨pending, visited⟩ := s
  cases pending with
  | nil => cases h
  | cons directory pending =>
    rw [turn] at h
    dsimp only at h
    split_ifs at h with hvisited
    · cases h
      exact Prod.Lex.toLex_lt_toLex.2 (.inr ⟨rfl, Nat.lt_succ_self _⟩)
    · split at h
      · cases h
      split at h
      · cases h
      cases h
      have hcard : (insert directory.key visited)ᶜ.card < visitedᶜ.card :=
        Finset.card_lt_card (Finset.compl_ssubset_compl.2 (Finset.ssubset_insert hvisited))
      rw [WalkState.rank, WalkState.rank, Prod.Lex.toLex_lt_toLex]
      dsimp only
      exact .inl hcard

/-- No run of the loop over the stack is endless, whatever the directories say. -/
theorem turns_end : ¬ ∃ run : ℕ → WalkState, ∀ n, ∃ visits, w.turn image (run n) = .ok (some (visits, run (n + 1))) := by
  rintro ⟨run, hrun⟩
  refine not_strictAnti_of_wellFoundedLT (fun n => (run n).rank) (strictAnti_nat_of_succ_lt fun n => ?_)
  obtain ⟨visits, hturn⟩ := hrun n
  exact turn_lt hturn

theorem advance_lt {cursor cursor' : Nat} (h : w.advance bytes cursor = .ok (some cursor')) :
    bytes.size - cursor' < bytes.size - cursor := by
  rw [advance] at h
  dsimp only at h
  split_ifs at h with hcursor hzero hlength
  · cases h
    have hnext := Nat.lt_div_mul_add (b := sectorSize) (a := cursor) (by decide)
    rw [Nat.add_mul]
    omega
  · split at h
    · cases h
    · cases h
      omega
  · cases h

theorem advances_end : ¬ ∃ run : ℕ → ℕ, ∀ n, w.advance bytes (run n) = .ok (some (run (n + 1))) := by
  rintro ⟨run, hrun⟩
  refine not_strictAnti_of_wellFoundedLT (fun n => bytes.size - run n) (strictAnti_nat_of_succ_lt fun n => ?_)
  exact advance_lt (hrun n)

end Walker

/-- The loops of the constructor end for every image; every path that it accepts is safe, and extraction changes
nothing outside the chosen directory. The image file may have changed since it was opened. -/
theorem extractAll_safe (sorting : EntrySort) (file : Block) :
    (¬ ∃ run : ℕ → WalkState, ∀ n, ∃ visits, imageWalker.turn file (run n) = .ok (some (visits, run (n + 1)))) ∧
    (∀ bytes : Block, ¬ ∃ run : ℕ → ℕ, ∀ n, imageWalker.advance bytes (run n) = .ok (some (run (n + 1)))) ∧
    ∀ iso, IsoImage.ofFile sorting file = .ok iso →
      (∀ entry ∈ iso.entries, IsSafe entry.path) ∧
      ∀ (h : Host) (source : Block) (directory : Name), (0 : Byte) ∉ directory →
        Confined directory h (extractAll h source directory iso.entries).1 := by
  refine ⟨Walker.turns_end, fun _ => Walker.advances_end, fun iso hopen => ?_⟩
  have hsafe := IsoImage.safe_of_ofFile hopen
  exact ⟨hsafe, fun h source directory hnul => extractAll_confined source hnul hsafe⟩

/-- The image with the file `A`, extracted to the directory `/d` of a host that has a file `/b`. -/
theorem extractAll_safe_upper :
    let h : Host := ⟨⟨[([], .directory), ([['d']], .directory), ([['b']], .file [])]⟩, [], []⟩
    IsSafe [0x41] ∧
      Confined [slash, 0x64] h (extractAll h (emptyFileImage 0x41) [slash, 0x64] (emptyFileIso 0x41).entries).1 := by
  obtain ⟨-, -, hsafe⟩ := extractAll_safe pathSort (emptyFileImage 0x41)
  obtain ⟨hentries, hconfined⟩ := hsafe _ (ofFile_emptyFileImage (by simp))
  exact ⟨hentries _ (List.mem_singleton_self _), hconfined _ _ _ (by decide)⟩

end Psprism.Iso
