import Mathlib.Data.List.Induction
import Mathlib.Data.List.TakeWhile
import Psprism.ProjectManifest

/-!
# The text of a manifest (`project/templates.cpp`, `project/export.cpp`)

`export_codebase` writes `project.toml`, with strings that `toml_string` has quoted, and `load_project_manifest` reads
it. The writer escapes what is special inside quotes, but the reader cuts each line at its first `#` before it looks
for quotes. So a manifest is read as it was written exactly if none of its strings has a `#` (`load_manifest_iff`);
with one, it is not read at all.
-/

namespace Psprism.Hydrate

/-! ### The writer -/

/-- What `toml_string` writes for a character. -/
def escape (c : Char) : Text :=
  if c = '\\' then ['\\', '\\']
  else if c = '"' then ['\\', '"']
  else if c = '\n' then ['\\', 'n']
  else if c = '\r' then []
  else [c]

def tomlString (value : Text) : Text := '"' :: value.flatMap escape ++ ['"']

/-- `hex_digest`. -/
def hexDigest (digest : List (BitVec 8)) : Text :=
  digest.flatMap fun byte => [Nat.digitChar (byte.toNat / 16), Nat.digitChar (byte.toNat % 16)]

/-- What an export puts into the manifest. -/
structure ExportedProject where
  displayName : Text
  projectName : Text
  discId : Text := []
  inputKind : InputKind
  executablePath : Text
  sfoPath : Text := []
  decryptionBackend : Text := []
  hasCodeMap : Bool := false
  overlays : Bool := false
  hasDisc : Bool := false
  inputDigest : List (BitVec 8) := []
  executableDigest : List (BitVec 8) := []
deriving DecidableEq

namespace ExportedProject
variable (x : ExportedProject)

def kindText : Text := if x.inputKind = .iso then "iso".toList else "executable".toList

def codeMapText : Text := if x.hasCodeMap then "config/code.map".toList else []

def modeText : Text := if x.overlays then "overlays".toList else "full".toList

/-- A line that sets a key. -/
def assignment (key value : Text) : Text := key ++ " = ".toList ++ value

def lines : List Text :=
  [assignment "format_version".toList "1".toList,
    assignment "display_name".toList (tomlString x.displayName),
    assignment "project_name".toList (tomlString x.projectName),
    assignment "disc_id".toList (tomlString x.discId),
    assignment "input_kind".toList (tomlString x.kindText),
    assignment "executable".toList (tomlString x.executablePath),
    assignment "sfo".toList (tomlString x.sfoPath),
    assignment "decryption_backend".toList (tomlString x.decryptionBackend),
    assignment "code_map".toList (tomlString x.codeMapText),
    assignment "psp_recompile_mode".toList (tomlString x.modeText),
    assignment "disc_extracted".toList (if x.hasDisc then "true".toList else "false".toList),
    assignment "input_sha256".toList (tomlString (hexDigest x.inputDigest)),
    assignment "executable_sha256".toList (tomlString (hexDigest x.executableDigest))]

/-- `project.toml`. -/
def manifestText : Text := x.lines.flatMap (· ++ ['\n'])

/-- What a reader should find in it. -/
def manifest : ProjectManifest where
  formatVersion := 1
  displayName := x.displayName
  projectName := x.projectName
  discId := x.discId
  inputKind := x.inputKind
  executablePath := x.executablePath
  sfoPath := x.sfoPath
  codeMap := x.codeMapText
  pspRecompileMode := x.modeText
  discExtracted := x.hasDisc
  inputSha256 := hexDigest x.inputDigest
  executableSha256 := hexDigest x.executableDigest

/-- The strings that come from outside. -/
def strings : List Text := [x.displayName, x.projectName, x.discId, x.executablePath, x.sfoPath]

/-- Names and an executable, and no carriage return. -/
structure Writable : Prop where
  displayName : x.displayName ≠ []
  projectName : x.projectName ≠ []
  executablePath : x.executablePath ≠ []
  noReturn : ∀ s ∈ x.strings, '\r' ∉ s

end ExportedProject

/-! ### Quoted strings -/

section
variable {c : Char} {v w s : Text} {n : Nat}

theorem escape_cases (c : Char) : (∃ d, escape c = ['\\', d] ∧ (d = '\\' ∨ d = '"' ∨ d = 'n')) ∨
    (c = '\r' ∧ escape c = []) ∨ (escape c = [c] ∧ c ≠ '\\' ∧ c ≠ '"' ∧ c ≠ '\n') := by
  rw [escape]
  split_ifs with h₁ h₂ h₃ h₄
  · exact .inl ⟨_, rfl, .inl rfl⟩
  · exact .inl ⟨_, rfl, .inr (.inl rfl)⟩
  · exact .inl ⟨_, rfl, .inr (.inr rfl)⟩
  · exact .inr (.inl ⟨h₄, rfl⟩)
  · exact .inr (.inr ⟨rfl, h₁, h₂, h₃⟩)

theorem unescape_cons (h : c ≠ '\\') (rest : Text) : unescape n (c :: rest) = (unescape n rest).map (c :: ·) := by
  rw [unescape]
  · rintro rfl; exact absurd rfl h
  · rintro rest rfl; exact absurd rfl h
  · rintro d rest rfl; exact absurd rfl h

/-- The reader undoes what the writer escaped, in front of whatever follows. -/
theorem unescape_escape (hreturn : '\r' ∉ v) (rest : Text) :
    unescape n (v.flatMap escape ++ rest) = (unescape n rest).map (v ++ ·) := by
  induction v with
  | nil => cases h : unescape n rest <;> simp [h, Except.map]
  | cons c v ih =>
    obtain ⟨hc, hv⟩ := not_or.1 (mt List.mem_cons.2 hreturn)
    have hstep : unescape n (escape c ++ (v.flatMap escape ++ rest)) =
        (unescape n (v.flatMap escape ++ rest)).map (c :: ·) := by
      rw [escape]
      split_ifs with h₁ h₂ h₃ h₄
      · subst h₁; rfl
      · subst h₂; rfl
      · subst h₃; rfl
      · exact absurd h₄.symm hc
      · exact unescape_cons h₁ _
    rw [List.flatMap_cons, List.append_assoc, hstep, ih hv]
    cases unescape n rest <;> rfl

theorem parseString_tomlString (hreturn : '\r' ∉ v) : parseString (tomlString v) n = .ok v := by
  have hbody : ((tomlString v).drop 1).dropLast = v.flatMap escape ++ [] := by
    simp [tomlString]
  rw [parseString, if_neg, hbody, unescape_escape hreturn]
  · simp [unescape, Except.map]
  · simp [tomlString, List.getLast?_cons]

/-! ### Cut strings -/

theorem hash_not_mem_escape (h : c ≠ '#') : '#' ∉ escape c := by
  rcases escape_cases c with ⟨d, heq, rfl | rfl | rfl⟩ | ⟨-, heq⟩ | ⟨heq, -⟩
  all_goals simp [heq, Ne.symm h]

theorem hash_mem_escaped : '#' ∈ v.flatMap escape ↔ '#' ∈ v := by
  rw [List.mem_flatMap]
  constructor
  · rintro ⟨c, hc, hmem⟩
    by_cases h : c = '#'
    · exact h ▸ hc
    · exact absurd hmem (hash_not_mem_escape h)
  · exact fun h => ⟨'#', h, by decide⟩

/-- A cut at the first `#` does not divide an escape. -/
theorem takeWhile_escaped (h : '#' ∈ v) (rest : Text) : (v.flatMap escape ++ rest).takeWhile (· ≠ '#') =
    (v.takeWhile (· ≠ '#')).flatMap escape := by
  induction v with
  | nil => cases h
  | cons c v ih =>
    rw [List.flatMap_cons, List.append_assoc]
    by_cases hc : c = '#'
    · subst hc
      simp [escape]
    · have hv : '#' ∈ v := (List.mem_cons.1 h).resolve_left (Ne.symm hc)
      have hall : ∀ d ∈ escape c, decide (d ≠ '#') = true := fun d hd => by
        rw [decide_eq_true_iff]
        exact fun heq => hash_not_mem_escape hc (heq ▸ hd)
      rw [List.takeWhile_append_of_pos hall, ih hv, List.takeWhile_cons_of_pos (by simp [hc]), List.flatMap_cons]

/-- `trim` at the end. -/
def trimEnd (value : Text) : Text := (value.reverse.dropWhile isSpace).reverse

theorem trim_quoted (s : Text) : trim (' ' :: '"' :: s) = '"' :: trimEnd s := by
  have hdrop : (' ' :: '"' :: s).dropWhile isSpace = '"' :: s := by simp [isSpace]
  rw [trim, hdrop, trimEnd, List.reverse_cons, List.dropWhile_append]
  split
  next h => simp [List.isEmpty_iff.1 h, isSpace]
  · simp

/-- Trimming takes whole characters away. -/
theorem trimEnd_escaped (hreturn : '\r' ∉ v) : ∃ w : Text, '\r' ∉ w ∧ trimEnd (v.flatMap escape) = w.flatMap escape := by
  induction v using List.reverseRecOn with
  | nil => exact ⟨[], by simp, rfl⟩
  | append_singleton v c ih =>
    have hv : '\r' ∉ v := fun h => hreturn (List.mem_append_left _ h)
    obtain ⟨w, hw, hih⟩ := ih hv
    rw [trimEnd] at hih
    rw [trimEnd, List.flatMap_append, List.flatMap_cons, List.flatMap_nil, List.append_nil]
    rcases escape_cases c with ⟨d, heq, hd⟩ | ⟨rfl, heq⟩ | ⟨heq, -⟩
    · refine ⟨v ++ [c], hreturn, ?_⟩
      have hspace : isSpace d = false := by rcases hd with rfl | rfl | rfl <;> rfl
      simp [heq, hspace]
    · exact absurd (List.mem_append_right _ (List.mem_singleton_self _)) hreturn
    · by_cases hspace : isSpace c = true
      · exact ⟨w, hw, by simpa [heq, hspace] using hih⟩
      · exact ⟨v ++ [c], hreturn, by simp [heq, hspace]⟩

/-- A string that lost its closing quote is rejected: a quote that ends it belongs to an escape. -/
theorem parseString_open (hreturn : '\r' ∉ w) : ∃ e, parseString ('"' :: w.flatMap escape) n = .error e := by
  rw [parseString]
  split
  · exact ⟨_, rfl⟩
  next hquoted =>
  rcases List.eq_nil_or_concat w with rfl | ⟨u, c, rfl⟩
  · exact absurd (.inl (by simp)) hquoted
  · have hu : '\r' ∉ u := fun h => hreturn (by simp [h])
    rcases escape_cases c with ⟨d, heq, hd⟩ | ⟨rfl, heq⟩ | ⟨heq, -, hc, -⟩
    · have hbody : (('"' :: (u.concat c).flatMap escape).drop 1).dropLast = u.flatMap escape ++ ['\\'] := by
        simp [heq]
      rw [hbody, unescape_escape hu]
      exact ⟨_, rfl⟩
    · exact absurd (by simp) hreturn
    · refine absurd (.inr (.inr ?_)) hquoted
      simp [heq, hc, List.getLast?_cons]

end

/-! ### Lines -/

section
variable {key value v : Text} {m : ProjectManifest} {n : Nat}

open ExportedProject (assignment)

theorem getLines_flatMap {lines : List Text} (h : ∀ line ∈ lines, '\n' ∉ line) :
    getLines (lines.flatMap (· ++ ['\n'])) = lines := by
  have hsplit : (lines.flatMap (· ++ ['\n'])).splitOn '\n' = lines ++ [[]] := by
    induction lines with
    | nil => rfl
    | cons line lines ih =>
      obtain ⟨hline, hlines⟩ := List.forall_mem_cons.1 h
      rw [List.flatMap_cons, List.append_assoc, List.singleton_append,
        List.splitOn_append_cons_self_of_not_mem hline, ih hlines, List.cons_append]
  rw [getLines, hsplit]
  simp

/-- A key that a line can set. -/
structure IsKey (key : Text) : Prop where
  comment : '#' ∉ key
  separator : '=' ∉ key
  trimmed : trim (key ++ [' ']) = key

theorem readLine_assignment (h : IsKey key) (value : Text) : readLine m (assignment key value) n =
    setKey m key (trim (' ' :: value.takeWhile (· ≠ '#'))) n := by
  have hcut : (assignment key value).takeWhile (· ≠ '#') = key ++ " = ".toList ++ value.takeWhile (· ≠ '#') := by
    rw [assignment, List.takeWhile_append_of_pos]
    simp only [List.mem_append, decide_eq_true_iff]
    rintro c (hc | hc) rfl
    · exact h.comment hc
    · exact absurd hc (by decide)
  have hall : ∀ c ∈ key ++ [' '], decide (c ≠ '=') = true := by
    simp only [List.mem_append, decide_eq_true_iff]
    rintro c (hc | hc) rfl
    · exact h.separator hc
    · exact absurd hc (by decide)
  have hline : key ++ " = ".toList ++ value.takeWhile (· ≠ '#') =
      (key ++ [' ']) ++ ('=' :: ' ' :: value.takeWhile (· ≠ '#')) := by simp
  rw [readLine, hcut, hline, if_pos (by simp), List.takeWhile_append_of_pos hall, List.dropWhile_append_of_pos hall]
  simp [h.trimmed]

/-- The value that is read of a string without `#`. -/
theorem trim_tomlString (h : '#' ∉ v) : trim (' ' :: (tomlString v).takeWhile (· ≠ '#')) = tomlString v := by
  have hall : ∀ c ∈ tomlString v, decide (c ≠ '#') = true := by
    intro c hc
    rw [decide_eq_true_iff]
    rintro rfl
    rw [tomlString, List.cons_append, List.mem_cons, List.mem_append, hash_mem_escaped] at hc
    simp [h] at hc
  rw [List.takeWhile_eq_self_iff.2 hall, tomlString, List.cons_append, trim_quoted]
  simp [trimEnd, isSpace]

/-- With a `#` none is read. -/
theorem trim_tomlString_cut (h : '#' ∈ v) (hreturn : '\r' ∉ v) :
    ∃ e, parseString (trim (' ' :: (tomlString v).takeWhile (· ≠ '#'))) n = .error e := by
  have hcut : (tomlString v).takeWhile (· ≠ '#') = '"' :: (v.takeWhile (· ≠ '#')).flatMap escape := by
    rw [tomlString, List.cons_append, List.takeWhile_cons_of_pos (by simp), takeWhile_escaped h]
  have hprefix : '\r' ∉ v.takeWhile (· ≠ '#') := fun hmem => hreturn ((List.takeWhile_prefix _).subset hmem)
  obtain ⟨w, hw, htrim⟩ := trimEnd_escaped hprefix
  rw [hcut, trim_quoted, htrim]
  exact parseString_open hw

end

/-! ### Reading the lines -/

section
variable {key line v : Text} {lines : List Text} {m m' : ProjectManifest} {n : Nat}

open ExportedProject (assignment)

theorem readLines_ok (h : readLine m line n = .ok m') : readLines m n (line :: lines) = readLines m' (n + 1) lines := by
  rw [readLines, h]
  rfl

theorem readLines_error (hline : line ∈ lines) (hbad : ∀ m n, ∃ e, readLine m line n = .error e) :
    ∃ e, readLines m n lines = .error e := by
  induction lines generalizing m n with
  | nil => cases hline
  | cons first lines ih =>
    rw [readLines]
    rcases List.mem_cons.1 hline with rfl | hrest
    · obtain ⟨e, he⟩ := hbad m n
      exact ⟨e, by rw [he]; rfl⟩
    · cases readLine m first n with
      | error e => exact ⟨e, rfl⟩
      | ok m' => exact ih hrest

/-- A key whose string goes into a field. -/
structure IsStringKey (key : Text) (set : ProjectManifest → Text → ProjectManifest) : Prop extends IsKey key where
  setKey : ∀ m value n, setKey m key value n = (parseString value n).map (set m)

variable {set : ProjectManifest → Text → ProjectManifest}

theorem IsStringKey.readLine (h : IsStringKey key set) (hhash : '#' ∉ v) (hreturn : '\r' ∉ v) :
    readLine m (assignment key (tomlString v)) n = .ok (set m v) := by
  rw [readLine_assignment h.toIsKey, trim_tomlString hhash, h.setKey, parseString_tomlString hreturn]
  rfl

theorem IsStringKey.readLine_error (h : IsStringKey key set) (hhash : '#' ∈ v) (hreturn : '\r' ∉ v) :
    ∃ e, Hydrate.readLine m (assignment key (tomlString v)) n = .error e := by
  obtain ⟨e, he⟩ := trim_tomlString_cut (n := n) hhash hreturn
  exact ⟨e, by rw [readLine_assignment h.toIsKey, h.setKey, he]; rfl⟩

theorem newline_tomlString : '\n' ∉ tomlString v := by
  rw [tomlString, List.cons_append, List.mem_cons, List.mem_append, List.mem_flatMap]
  rintro (h | ⟨c, -, hc⟩ | h)
  · exact absurd h (by decide)
  · rcases escape_cases c with ⟨d, heq, rfl | rfl | rfl⟩ | ⟨-, heq⟩ | ⟨heq, -, -, hnewline⟩
    · simp [heq] at hc
    · simp [heq] at hc
    · simp [heq] at hc
    · simp [heq] at hc
    · simp [heq, Ne.symm hnewline] at hc
  · exact absurd h (by decide)

theorem newline_assignment {value : Text} (hkey : '\n' ∉ key) (hvalue : '\n' ∉ value) :
    '\n' ∉ assignment key value := by
  simp [assignment, hkey, hvalue]

/-- What `hex_digest` writes. -/
theorem mem_hexDigest {digest : List (BitVec 8)} {c : Char} (h : c ∈ hexDigest digest) :
    c ≠ '#' ∧ c ≠ '\r' ∧ c ≠ '\n' := by
  have hdigit : ∀ d < 16, Nat.digitChar d ≠ '#' ∧ Nat.digitChar d ≠ '\r' ∧ Nat.digitChar d ≠ '\n' := by decide
  obtain ⟨byte, -, hbyte⟩ := List.mem_flatMap.1 h
  have hlt := byte.isLt
  simp only [List.mem_cons, List.not_mem_nil, or_false] at hbyte
  rcases hbyte with rfl | rfl
  · exact hdigit _ (by omega)
  · exact hdigit _ (by omega)

end

namespace ExportedProject
variable {x : ExportedProject}

theorem newline_lines : ∀ line ∈ x.lines, '\n' ∉ line := by
  have hdisc : '\n' ∉ (if x.hasDisc then "true".toList else "false".toList) := by cases x.hasDisc <;> decide
  have hstring {key v : Text} (hkey : '\n' ∉ key) : '\n' ∉ assignment key (tomlString v) :=
    newline_assignment hkey newline_tomlString
  simp only [lines, List.forall_mem_cons, List.not_mem_nil, false_imp_iff, implies_true, and_true]
  refine ⟨by decide, hstring ?_, hstring ?_, hstring ?_, hstring ?_, hstring ?_, hstring ?_, hstring ?_, hstring ?_,
    hstring ?_, newline_assignment ?_ hdisc, hstring ?_, hstring ?_⟩
  all_goals decide

theorem isStringKey_displayName :
    IsStringKey "display_name".toList fun m v => { m with displayName := v } :=
  ⟨⟨by decide, by decide, by decide⟩, fun _ _ _ => rfl⟩

theorem isStringKey_projectName :
    IsStringKey "project_name".toList fun m v => { m with projectName := v } :=
  ⟨⟨by decide, by decide, by decide⟩, fun _ _ _ => rfl⟩

theorem isStringKey_discId : IsStringKey "disc_id".toList fun m v => { m with discId := v } :=
  ⟨⟨by decide, by decide, by decide⟩, fun _ _ _ => rfl⟩

theorem isStringKey_executable : IsStringKey "executable".toList fun m v => { m with executablePath := v } :=
  ⟨⟨by decide, by decide, by decide⟩, fun _ _ _ => rfl⟩

theorem isStringKey_sfo : IsStringKey "sfo".toList fun m v => { m with sfoPath := v } :=
  ⟨⟨by decide, by decide, by decide⟩, fun _ _ _ => rfl⟩

theorem isStringKey_codeMap : IsStringKey "code_map".toList fun m v => { m with codeMap := v } :=
  ⟨⟨by decide, by decide, by decide⟩, fun _ _ _ => rfl⟩

theorem isStringKey_mode :
    IsStringKey "psp_recompile_mode".toList fun m v => { m with pspRecompileMode := v } :=
  ⟨⟨by decide, by decide, by decide⟩, fun _ _ _ => rfl⟩

theorem isStringKey_inputSha256 :
    IsStringKey "input_sha256".toList fun m v => { m with inputSha256 := v } :=
  ⟨⟨by decide, by decide, by decide⟩, fun _ _ _ => rfl⟩

theorem isStringKey_executableSha256 :
    IsStringKey "executable_sha256".toList fun m v => { m with executableSha256 := v } :=
  ⟨⟨by decide, by decide, by decide⟩, fun _ _ _ => rfl⟩

section
variable {m : ProjectManifest} {n : Nat}

theorem readLine_version :
    readLine m (assignment "format_version".toList "1".toList) n = .ok { m with formatVersion := 1 } := rfl

theorem readLine_inputKind : readLine m (assignment "input_kind".toList (tomlString x.kindText)) n =
    .ok { m with inputKind := x.inputKind } := by
  rw [kindText]
  cases x.inputKind <;> rfl

/-- The reader does not know this key, whatever its value. -/
theorem readLine_decryptionBackend :
    readLine m (assignment "decryption_backend".toList (tomlString x.decryptionBackend)) n = .ok m := by
  rw [readLine_assignment ⟨by decide, by decide, by decide⟩]
  rfl

theorem readLine_discExtracted :
    readLine m (assignment "disc_extracted".toList (if x.hasDisc then "true".toList else "false".toList)) n =
      .ok { m with discExtracted := x.hasDisc } := by
  cases x.hasDisc <;> rfl

end

theorem plain_codeMapText : '#' ∉ x.codeMapText ∧ '\r' ∉ x.codeMapText := by
  rw [codeMapText]
  cases x.hasCodeMap <;> decide

theorem plain_modeText : '#' ∉ x.modeText ∧ '\r' ∉ x.modeText := by
  rw [modeText]
  cases x.overlays <;> decide

theorem plain_hexDigest {digest : List (BitVec 8)} : '#' ∉ hexDigest digest ∧ '\r' ∉ hexDigest digest :=
  ⟨fun h => (mem_hexDigest h).1 rfl, fun h => (mem_hexDigest h).2.1 rfl⟩

theorem readLines_lines (hreturn : ∀ s ∈ x.strings, '\r' ∉ s) (hhash : ∀ s ∈ x.strings, '#' ∉ s) :
    readLines {} 1 x.lines = .ok x.manifest := by
  simp only [strings, List.forall_mem_cons, List.not_mem_nil, false_imp_iff, implies_true, and_true] at hreturn hhash
  obtain ⟨hdisplay, hproject, hdisc, hexecutable, hsfo⟩ := hreturn
  obtain ⟨hdisplay', hproject', hdisc', hexecutable', hsfo'⟩ := hhash
  rw [lines, readLines_ok readLine_version,
    readLines_ok (isStringKey_displayName.readLine hdisplay' hdisplay),
    readLines_ok (isStringKey_projectName.readLine hproject' hproject),
    readLines_ok (isStringKey_discId.readLine hdisc' hdisc),
    readLines_ok readLine_inputKind,
    readLines_ok (isStringKey_executable.readLine hexecutable' hexecutable),
    readLines_ok (isStringKey_sfo.readLine hsfo' hsfo),
    readLines_ok readLine_decryptionBackend,
    readLines_ok (isStringKey_codeMap.readLine plain_codeMapText.1 plain_codeMapText.2),
    readLines_ok (isStringKey_mode.readLine plain_modeText.1 plain_modeText.2),
    readLines_ok readLine_discExtracted,
    readLines_ok (isStringKey_inputSha256.readLine plain_hexDigest.1 plain_hexDigest.2),
    readLines_ok (isStringKey_executableSha256.readLine plain_hexDigest.1 plain_hexDigest.2)]
  rfl

/-- One string with a `#` is enough for the text to be rejected. -/
theorem readLines_cut {m : ProjectManifest} {n : Nat} (hreturn : ∀ s ∈ x.strings, '\r' ∉ s) {s : Text}
    (hs : s ∈ x.strings) (hhash : '#' ∈ s) : ∃ e, readLines m n x.lines = .error e := by
  have hkey : ∃ key set, IsStringKey key set ∧ assignment key (tomlString s) ∈ x.lines := by
    simp only [strings, List.mem_cons, List.not_mem_nil, or_false] at hs
    rcases hs with rfl | rfl | rfl | rfl | rfl
    · exact ⟨_, _, isStringKey_displayName, by simp [lines]⟩
    · exact ⟨_, _, isStringKey_projectName, by simp [lines]⟩
    · exact ⟨_, _, isStringKey_discId, by simp [lines]⟩
    · exact ⟨_, _, isStringKey_executable, by simp [lines]⟩
    · exact ⟨_, _, isStringKey_sfo, by simp [lines]⟩
  obtain ⟨key, set, hkey, hline⟩ := hkey
  exact readLines_error hline fun m n => hkey.readLine_error hhash (hreturn s hs)

end ExportedProject

/-- A manifest is read as it was written exactly if none of the strings from outside has a `#`. -/
theorem load_manifest_iff (x : ExportedProject) (h : x.Writable) :
    loadProjectManifest x.manifestText = .ok x.manifest ↔ ∀ s ∈ x.strings, '#' ∉ s := by
  rw [loadProjectManifest, ExportedProject.manifestText, getLines_flatMap ExportedProject.newline_lines]
  constructor
  · intro hload s hs hhash
    obtain ⟨e, he⟩ := ExportedProject.readLines_cut (m := {}) (n := 1) h.noReturn hs hhash
    rw [he] at hload
    cases hload
  · intro hhash
    have hversion : x.manifest.formatVersion = 1 := rfl
    rw [ExportedProject.readLines_lines h.noReturn hhash, Except.bind, if_neg (not_not.2 hversion), if_neg]
    rintro (hempty | hempty | hempty)
    · exact h.displayName hempty
    · exact h.projectName hempty
    · exact h.executablePath hempty

/-- A project with quotes, a backslash and a newline in its names. -/
def quotedProject : ExportedProject where
  displayName := "a \"b\" \\ = c\n".toList
  projectName := "p".toList
  inputKind := .iso
  executablePath := "PSP_GAME/SYSDIR/EBOOT.BIN".toList

theorem load_manifest_iff_quoted : loadProjectManifest quotedProject.manifestText = .ok quotedProject.manifest :=
  (load_manifest_iff quotedProject ⟨by decide, by decide, by decide, by decide⟩).2 (by decide)

/-- The first in a series. -/
def numberedProject : ExportedProject := { quotedProject with displayName := "Game #1".toList }

/-- A name with a `#` is cut, and the project cannot be loaded. -/
theorem load_manifest_fails : numberedProject.Writable ∧ loadProjectManifest numberedProject.manifestText =
    .error "expected quoted string in project.toml line 2".toList :=
  ⟨⟨by decide, by decide, by decide, by decide⟩, by decide +kernel⟩

end Psprism.Hydrate
