import Mathlib.Data.List.Basic
import Mathlib.Data.List.Infix

/-!
# Paths as text

The paths of a POSIX host, where the separator is `/` and there are no root names (`Psprism.Lib.HostPath` puts those of
other hosts on top). A path is followed component by component from a directory, which is the list of names from the
root of the file system: an empty component and `.` stay, `..` goes up, a name goes down. A path that starts with the
separator is followed from the root. Followed as text, a path goes up a number of times and then down through names;
from any directory it ends where that leads.
-/

namespace PathText

abbrev Name := List Char

/-- The directory after one component. -/
def enter (dir : List Name) (c : Name) : List Name :=
  if c = [] ∨ c = ['.'] then dir else if c = ['.', '.'] then dir.dropLast else dir ++ [c]

def components (text : List Char) : List Name := text.splitOn '/'

def Absolute (text : List Char) : Prop := text.head? = some '/'

instance (text : List Char) : Decidable (Absolute text) := inferInstanceAs (Decidable (_ = _))

/-- Where a path leads from a directory. -/
def resolve (dir : List Name) (text : List Char) : List Name :=
  (components text).foldl enter (if Absolute text then [] else dir)

/-! ### Going up, then down -/

/-- How often a path goes up, and the names it goes down through then. -/
structure Course where
  ups : Nat := 0
  names : List Name := []
deriving DecidableEq

def Course.enter (course : Course) (c : Name) : Course :=
  if c = [] ∨ c = ['.'] then course
  else if c = ['.', '.'] then
    if course.names = [] then { course with ups := course.ups + 1 }
    else { course with names := course.names.dropLast }
  else { course with names := course.names ++ [c] }

def course (text : List Char) : Course := (components text).foldl Course.enter {}

/-- Where a course leads from a directory. -/
def Course.lead (course : Course) (dir : List Name) : List Name :=
  dir.take (dir.length - course.ups) ++ course.names

theorem Course.lead_enter (course : Course) (dir : List Name) (c : Name) :
    (course.enter c).lead dir = PathText.enter (course.lead dir) c := by
  unfold Course.enter PathText.enter
  split_ifs with hstay hup hnames
  · rfl
  · simp only [lead, hnames, List.append_nil]
    rw [List.dropLast_eq_take, List.take_take, List.length_take]
    congr 1
    omega
  · simp only [lead]
    rw [List.dropLast_append_of_ne_nil hnames]
  · simp only [lead, List.append_assoc]

theorem foldl_enter (cs : List Name) :
    ∀ (course : Course) (dir : List Name),
      cs.foldl enter (course.lead dir) = (cs.foldl Course.enter course).lead dir := by
  induction cs with
  | nil => exact fun _ _ => rfl
  | cons c cs ih =>
    intro course dir
    rw [List.foldl_cons, List.foldl_cons, ← course.lead_enter, ih]

theorem resolve_eq (dir : List Name) (text : List Char) :
    resolve dir text = (course text).lead (if Absolute text then [] else dir) := by
  rw [resolve, course, ← foldl_enter]
  simp [Course.lead]

/-! ### Inside and below a directory -/

/-- Strictly inside a directory. -/
def Below (dir path : List Name) : Prop := ∃ c rest, path = dir ++ c :: rest

/-- The end of a directory that a path leaves when it is followed from `dir` inside it: all of it where the path starts
at the root. -/
def left (root dir : List Name) (text : List Char) : List Name :=
  if Absolute text then root else root.drop (dir.length - (course text).ups)

/-- What the path leaves of the root, it comes back through. -/
def ComesBack (root dir : List Name) (text : List Char) : Prop := left root dir text <+: (course text).names

instance (root dir : List Name) (text : List Char) : Decidable (ComesBack root dir text) :=
  inferInstanceAs (Decidable (_ <+: _))

/-- The path goes up less often than it is deep inside, or it comes back through what it left and then goes down. -/
def Descends (root dir : List Name) (text : List Char) : Prop :=
  ¬ Absolute text ∧ root.length + (course text).ups < dir.length ∨ Below (left root dir text) (course text).names

theorem below_append_left (a b c : List Name) : Below (a ++ b) (a ++ c) ↔ Below b c := by
  constructor
  · rintro ⟨x, rest, h⟩
    rw [List.append_assoc] at h
    exact ⟨x, rest, List.append_cancel_left h⟩
  · rintro ⟨x, rest, rfl⟩
    exact ⟨x, rest, (List.append_assoc ..).symm⟩

theorem below_nil (path : List Name) : Below [] path ↔ path ≠ [] := by
  cases path with
  | nil => simp [Below]
  | cons c rest => exact iff_of_true ⟨c, rest, rfl⟩ (List.cons_ne_nil _ _)

theorem Below.inside {dir path : List Name} (h : Below dir path) : dir <+: path := by
  obtain ⟨c, rest, rfl⟩ := h
  exact List.prefix_append _ _

/-- An entry is strictly inside where its directory is inside. -/
theorem below_entry_iff {root dir : List Name} (c : Name) : Below root (dir ++ [c]) ↔ root <+: dir := by
  constructor
  · rintro ⟨x, rest, h⟩
    refine List.prefix_of_prefix_length_le (h ▸ List.prefix_append _ _) (List.prefix_append dir [c]) ?_
    have hlength := congrArg List.length h
    simp only [List.length_append, List.length_cons, List.length_nil] at hlength
    omega
  · rintro ⟨rest, rfl⟩
    cases rest with
    | nil => exact ⟨c, [], by simp⟩
    | cons x rest => exact ⟨x, rest ++ [c], by simp⟩

/-- Where a relative path leads from inside a directory: behind what it keeps of the directory, or behind all of it. -/
theorem resolve_inside {root dir : List Name} (hdir : root <+: dir) {text : List Char} (h : ¬ Absolute text) :
    (root.length + (course text).ups ≤ dir.length ∧ root.drop (dir.length - (course text).ups) = [] ∧
        ∃ rest, resolve dir text = root ++ (rest ++ (course text).names) ∧
          (rest ≠ [] ↔ root.length + (course text).ups < dir.length)) ∨
      (dir.length < root.length + (course text).ups ∧ ∃ front, root = front ++ root.drop (dir.length - (course text).ups) ∧
        resolve dir text = front ++ (course text).names) := by
  rw [resolve_eq, if_neg h, Course.lead]
  obtain ⟨rest, rfl⟩ := hdir
  rw [List.length_append]
  rcases Nat.lt_or_ge (root.length + rest.length) (root.length + (course text).ups) with hk | hk
  · refine .inr ⟨hk, root.take (root.length + rest.length - (course text).ups), (List.take_append_drop ..).symm, ?_⟩
    rw [List.take_append_of_le_length (by omega)]
  · refine .inl ⟨hk, List.drop_of_length_le (by omega), rest.take (rest.length - (course text).ups), ?_, ?_⟩
    · rw [List.take_append, List.take_of_length_le (by omega), List.append_assoc]
      congr 3
      omega
    · rw [← List.length_pos_iff, List.length_take]
      omega

/-- From inside a directory a path leads inside it just when it comes back through what it leaves of it. -/
theorem prefix_resolve_iff {root dir : List Name} (hdir : root <+: dir) (text : List Char) :
    root <+: resolve dir text ↔ ComesBack root dir text := by
  rw [ComesBack, left]
  split_ifs with habsolute
  · rw [resolve_eq, if_pos habsolute, Course.lead, List.take_nil, List.nil_append]
  · rcases resolve_inside hdir habsolute with ⟨-, hdrop, rest, hresolve, -⟩ | ⟨-, front, hroot, hresolve⟩
    · rw [hdrop, hresolve]
      exact iff_of_true (List.prefix_append _ _) List.nil_prefix
    · rw [hresolve]
      nth_rewrite 1 [hroot]
      rw [List.prefix_append_right_inj]

theorem below_resolve_iff {root dir : List Name} (hdir : root <+: dir) (text : List Char) :
    Below root (resolve dir text) ↔ Descends root dir text := by
  rw [Descends, left]
  split_ifs with habsolute
  · rw [resolve_eq, if_pos habsolute, Course.lead, List.take_nil, List.nil_append]
    simp [habsolute]
  · rcases resolve_inside hdir habsolute with ⟨-, hdrop, rest, hresolve, hrest⟩ | ⟨hlt, front, hroot, hresolve⟩
    · have hwhole := below_append_left root [] (rest ++ (course text).names)
      rw [List.append_nil] at hwhole
      rw [hresolve, hwhole, below_nil, hdrop, below_nil, ← hrest]
      simp only [ne_eq, List.append_eq_nil_iff, not_and_or, habsolute, not_false_eq_true, true_and]
    · rw [hresolve]
      nth_rewrite 1 [hroot]
      rw [below_append_left, or_iff_right fun h => absurd h.2 (by omega)]

/-! ### Entries of a directory -/

/-- A name that an entry of a directory can have. -/
def IsEntry (text : List Char) : Prop := text ≠ [] ∧ text ≠ ['.'] ∧ text ≠ ['.', '.'] ∧ '/' ∉ text

instance (text : List Char) : Decidable (IsEntry text) := inferInstanceAs (Decidable (_ ∧ _))

theorem resolve_entry {text : List Char} (h : IsEntry text) (dir : List Name) : resolve dir text = dir ++ [text] := by
  obtain ⟨hempty, hdot, hdots, hslash⟩ := h
  have hrelative : ¬ Absolute text := fun habsolute => hslash (List.mem_of_mem_head? habsolute)
  have hsingle : components text = [text] := List.splitOn_eq_singleton hslash
  rw [resolve, if_neg hrelative, hsingle, List.foldl_cons, List.foldl_nil, enter, if_neg (by simp [hempty, hdot]),
    if_neg hdots]

theorem IsEntry.append {a b : List Char} (ha : IsEntry a) (hb : IsEntry b) : IsEntry (a ++ b) := by
  obtain ⟨ha, hdot, -, hslash⟩ := ha
  obtain ⟨hb, -, -, hslash'⟩ := hb
  have hpa := List.length_pos_iff.2 ha
  have hpb := List.length_pos_iff.2 hb
  refine ⟨by simp [ha], fun h => ?_, fun h => ?_, by simp [hslash, hslash']⟩
  · have hlength := congrArg List.length h
    simp only [List.length_append, List.length_cons, List.length_nil] at hlength
    omega
  · have hlength := congrArg List.length h
    have hsplit : a ++ b = ['.'] ++ ['.'] := h
    simp only [List.length_append, List.length_cons, List.length_nil] at hlength
    exact hdot (List.append_inj hsplit (by simp only [List.length_cons, List.length_nil]; omega)).1

/-! ### Making the directories of a path -/

/-- The entries that are passed on the way through components: an empty one, `.` and `..` name no entry. -/
def passed (dir : List Name) : List Name → List (List Name)
  | [] => []
  | c :: rest => if IsEntry c then (dir ++ [c]) :: passed (dir ++ [c]) rest else passed (enter dir c) rest

theorem enter_entry {c : Name} (h : IsEntry c) (dir : List Name) : enter dir c = dir ++ [c] := by
  obtain ⟨hempty, hdot, hdots, -⟩ := h
  rw [enter, if_neg (by simp [hempty, hdot]), if_neg hdots]

theorem enter_nil (dir : List Name) : enter dir [] = dir := if_pos (.inl rfl)

theorem passed_append (dir : List Name) (a b : List Name) :
    passed dir (a ++ b) = passed dir a ++ passed (a.foldl enter dir) b := by
  induction a generalizing dir with
  | nil => rfl
  | cons c a ih =>
    rw [List.cons_append, passed, passed, List.foldl_cons]
    split_ifs with hentry
    · rw [ih, List.cons_append, enter_entry hentry]
    · rw [ih]

theorem foldl_enter_entries {cs : List Name} (h : ∀ c ∈ cs, IsEntry c) (dir : List Name) :
    cs.foldl enter dir = dir ++ cs := by
  induction cs generalizing dir with
  | nil => simp
  | cons c cs ih =>
    obtain ⟨hc, hcs⟩ := List.forall_mem_cons.1 h
    rw [List.foldl_cons, enter_entry hc, ih hcs, List.append_assoc, List.singleton_append]

/-- Through entries alone the way stays below, whatever the last component is. -/
theorem below_of_mem_passed {cs : List Name} {last : Name} (h : ∀ c ∈ cs, IsEntry c) {dir q : List Name}
    (hq : q ∈ passed dir (cs ++ [last])) : Below dir q := by
  induction cs generalizing dir with
  | nil =>
    rw [List.nil_append, passed] at hq
    split_ifs at hq
    · exact ⟨last, [], List.mem_singleton.1 hq⟩
    · cases hq
  | cons c cs ih =>
    obtain ⟨hc, hcs⟩ := List.forall_mem_cons.1 h
    rw [List.cons_append, passed, if_pos hc] at hq
    rcases List.mem_cons.1 hq with rfl | hq
    · exact ⟨c, [], rfl⟩
    · obtain ⟨c', rest, rfl⟩ := ih hcs hq
      exact ⟨c, c' :: rest, by simp⟩

/-! ### Joining paths -/

theorem components_append (a b : List Char) : components (a ++ '/' :: b) = components a ++ components b :=
  List.splitOn_append_cons_self a b

theorem components_ne_nil (text : List Char) : components text ≠ [] := List.splitOn_ne_nil _ _

theorem components_cons (c : Char) (text : List Char) :
    components (c :: text) = if c = '/' then [] :: components text else (components text).modifyHead (List.cons c) := by
  simpa [components, Name] using List.splitOn_cons_eq_if_modifyHead (a := '/') c text

/-- A path cut off somewhere has the same components up to the last one. -/
theorem dropLast_components_prefix {a text : List Char} (h : a <+: text) :
    (components a).dropLast <+: components text := by
  induction a generalizing text with
  | nil => exact List.nil_prefix
  | cons c a ih =>
    obtain ⟨rest, rfl⟩ := h
    have hrest := ih (List.prefix_append a rest)
    rw [List.cons_append, components_cons, components_cons]
    split_ifs
    · rw [List.dropLast_cons_of_ne_nil (components_ne_nil a)]
      exact List.cons_prefix_cons.2 ⟨rfl, hrest⟩
    · obtain ⟨first, others, hcut⟩ := List.exists_cons_of_ne_nil (components_ne_nil a)
      obtain ⟨first', others', hwhole⟩ := List.exists_cons_of_ne_nil (components_ne_nil (a ++ rest))
      rw [hcut, hwhole] at hrest ⊢
      cases others with
      | nil => exact List.nil_prefix
      | cons second others =>
        obtain ⟨rfl, htail⟩ := List.cons_prefix_cons.1 hrest
        exact List.cons_prefix_cons.2 ⟨rfl, htail⟩

/-- Where a path is followed from. -/
def base (dir : List Name) (text : List Char) : List Name := if Absolute text then [] else dir

/-- The entries that are passed on the way of a path. -/
def way (dir : List Name) (text : List Char) : List (List Name) := passed (base dir text) (components text)

theorem base_append {a : List Char} (h : a ≠ []) (dir : List Name) (b : List Char) :
    base dir (a ++ b) = base dir a := by
  have hiff : Absolute (a ++ b) ↔ Absolute a := by
    rw [Absolute, Absolute, List.head?_append_of_ne_nil _ h]
  simp only [base, hiff]

/-- A path through another one. -/
theorem join {a : List Char} (h : a ≠ []) (dir : List Name) (b : List Char) :
    resolve dir (a ++ '/' :: b) = (components b).foldl enter (resolve dir a) ∧
      way dir (a ++ '/' :: b) = way dir a ++ passed (resolve dir a) (components b) := by
  refine ⟨?_, ?_⟩
  · rw [resolve, ← base, base_append h, components_append, List.foldl_append]
    rfl
  · rw [way, base_append h, components_append, passed_append]
    rfl

theorem join_root (dir : List Name) (b : List Char) :
    resolve dir ('/' :: b) = (components b).foldl enter [] ∧ way dir ('/' :: b) = passed [] (components b) := by
  have hbase : base dir ('/' :: b) = [] := if_pos rfl
  refine ⟨?_, ?_⟩
  · rw [resolve, ← base, hbase, components_cons, if_pos rfl, List.foldl_cons, enter_nil]
  · rw [way, hbase, components_cons, if_pos rfl, passed, if_neg (by simp [IsEntry]), enter_nil]

/-- `/` of two paths. -/
def append (a b : List Char) : List Char :=
  if Absolute b then b else if a = [] ∨ a.getLast? = some '/' then a ++ b else a ++ '/' :: b

/-- The second path is followed from where the first one leads. -/
theorem resolve_append {b : List Char} (h : ¬ Absolute b) (dir : List Name) (a : List Char) :
    resolve dir (append a b) = resolve (resolve dir a) b := by
  rw [append, if_neg h]
  have hb : ∀ d : List Name, resolve d b = (components b).foldl enter d := fun d => by rw [resolve, if_neg h]
  rw [hb]
  rcases eq_or_ne a [] with rfl | ha
  · rw [if_pos (.inl rfl), List.nil_append, hb]
    rfl
  by_cases hlast : a.getLast? = some '/'
  · rw [if_pos (.inr hlast)]
    obtain ⟨front, rfl⟩ := List.getLast?_eq_some_iff.1 hlast
    rw [List.append_assoc, List.singleton_append]
    rcases eq_or_ne front [] with rfl | hfront
    · rw [List.nil_append, List.nil_append, (join_root dir b).1, (join_root dir []).1]
      rfl
    · rw [(join hfront dir b).1, (join hfront dir []).1]
      rfl
  · rw [if_neg (not_or.2 ⟨ha, hlast⟩), (join ha dir b).1]

/-- Separators at the end lead nowhere. -/
theorem separators {a : List Char} (h : a ≠ []) (n : Nat) (dir : List Name) :
    resolve dir (a ++ List.replicate n '/') = resolve dir a ∧ way dir (a ++ List.replicate n '/') = way dir a := by
  induction n with
  | zero => simp
  | succ n ih =>
    have hempty : components [] = [[]] := List.splitOn_nil _
    obtain ⟨hresolve, hway⟩ := join (a := a ++ List.replicate n '/') (by simp [h]) dir []
    rw [hempty, List.foldl_cons, List.foldl_nil, enter_nil] at hresolve
    rw [hempty, passed, if_neg (by simp [IsEntry]), passed, List.append_nil] at hway
    rw [List.replicate_succ', ← List.append_assoc]
    exact ⟨hresolve.trans ih.1, hway.trans ih.2⟩

end PathText
