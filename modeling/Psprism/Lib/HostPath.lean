import Psprism.Lib.PathText

/-!
# Paths of a host

A path of a host is a root name and a rest. A POSIX host has no root names. On Windows a root name is a drive, a server
or a device, and both slashes separate. Joined to a path, one that is absolute or has another root name takes its place;
any other is put behind it without its root name (`append`). A process follows a path on the volume of its root name,
from the directory that is current there (`resolve`).

Paths are followed as text: no links, and no other meaning of a name to the host (case, dots at its end, streams).
-/

namespace HostPath
open PathText

inductive System
  | posix | windows
deriving DecidableEq

/-- In generic format: the separators are `/`. -/
structure Path where
  rootName : List Char
  rest : List Char
deriving DecidableEq

def genericFormat (text : List Char) : List Char := text.map fun c => if c = '\\' then '/' else c

/-- `//?`, `//.` and `/??` before one separator. -/
def IsDevice : List Char → Prop
  | '/' :: a :: b :: '/' :: rest => ((a = '/' ∧ (b = '?' ∨ b = '.')) ∨ (a = '?' ∧ b = '?')) ∧ rest.head? ≠ some '/'
  | _ => False

instance : DecidablePred IsDevice := fun text => by
  unfold IsDevice
  split <;> infer_instance

/-- How long the root name of a text is: that of a drive, a device or a server. -/
def rootNameLength : List Char → Nat
  | a :: b :: rest =>
    if a.isAlpha ∧ b = ':' then 2
    else if IsDevice (a :: b :: rest) then 3
    else if a = '/' ∧ b = '/' ∧ rest ≠ [] ∧ rest.head? ≠ some '/' then 2 + (rest.takeWhile (· ≠ '/')).length
    else 0
  | _ => 0

/-- The path of a text. -/
def parse : System → List Char → Path
  | .posix, text => ⟨[], text⟩
  | .windows, text =>
    let text := genericFormat text
    ⟨text.take (rootNameLength text), text.drop (rootNameLength text)⟩

/-- `is_absolute`. A drive alone makes no path absolute, a server or a device does. -/
def IsAbsolute : System → Path → Prop
  | .posix, path => Absolute path.rest
  | .windows, path => if path.rootName.length = 2 then Absolute path.rest else path.rootName ≠ []

instance (system : System) (path : Path) : Decidable (IsAbsolute system path) := by
  cases system <;> unfold IsAbsolute <;> infer_instance

/-- Joined to the first path, the second takes its place. -/
def Replaces (system : System) (a b : Path) : Prop :=
  IsAbsolute system b ∨ b.rootName ≠ [] ∧ b.rootName ≠ a.rootName

instance (system : System) (a b : Path) : Decidable (Replaces system a b) := inferInstanceAs (Decidable (_ ∨ _))

/-- `/` of two paths. -/
def append (system : System) (a b : Path) : Path :=
  if Replaces system a b then b
  else if a.rest = [] ∧ IsAbsolute system a ∧ ¬ Absolute b.rest then ⟨a.rootName, '/' :: b.rest⟩
  else ⟨a.rootName, PathText.append a.rest b.rest⟩

/-- What a path is followed in. Each volume has a current directory, and one volume is current. -/
structure Process where
  system : System := .posix
  volume : List Char := []
  directory : List Char → List Name := fun _ => []

/-- The directories and files of the host. -/
structure Place where
  volume : List Char
  directory : List Name
deriving DecidableEq

namespace Place

/-- The second place is the first or inside it. -/
def Contains (root place : Place) : Prop := root.volume = place.volume ∧ root.directory <+: place.directory

instance (root place : Place) : Decidable (Contains root place) := inferInstanceAs (Decidable (_ ∧ _))

/-- The second place is strictly inside the first. -/
def Encloses (root place : Place) : Prop := root.volume = place.volume ∧ Below root.directory place.directory

theorem Contains.refl (root : Place) : root.Contains root := ⟨rfl, List.prefix_rfl⟩

theorem Encloses.contains {root place : Place} (h : root.Encloses place) : root.Contains place := ⟨h.1, h.2.inside⟩

end Place

namespace Process
variable (p : Process)

/-- The volume of a path, in upper case. -/
def volumeOf (path : Path) : List Char := if path.rootName = [] then p.volume else path.rootName.map Char.toUpper

/-- Where a path leads. -/
def resolve (path : Path) : Place :=
  ⟨p.volumeOf path,
    PathText.resolve (if IsAbsolute p.system path then [] else p.directory (p.volumeOf path)) path.rest⟩

/-- Put behind the first path, the second leads inside a place that the first leads inside of. -/
def ComesBack (root : Place) (a b : Path) : Prop :=
  if Replaces p.system a b then root.Contains (p.resolve b)
  else PathText.ComesBack root.directory (p.resolve a).directory b.rest

instance (root : Place) (a b : Path) : Decidable (p.ComesBack root a b) := by
  unfold ComesBack
  infer_instance

/-- The second path leads strictly inside. -/
def Descends (root : Place) (a b : Path) : Prop :=
  if Replaces p.system a b then root.Encloses (p.resolve b)
  else PathText.Descends root.directory (p.resolve a).directory b.rest

end Process

/-! ### Joined paths -/

theorem isAbsolute_of_rest {system : System} {rest rest' : List Char} (rootName : List Char)
    (h : Absolute rest ↔ Absolute rest') : IsAbsolute system ⟨rootName, rest⟩ ↔ IsAbsolute system ⟨rootName, rest'⟩ := by
  cases system with
  | posix => exact h
  | windows =>
    unfold IsAbsolute
    dsimp only
    split_ifs
    · exact h
    · rfl

theorem absolute_append {a b : List Char} (ha : a ≠ []) (hb : ¬ Absolute b) :
    Absolute (PathText.append a b) ↔ Absolute a := by
  rw [PathText.append, if_neg hb]
  split_ifs
  · rw [Absolute, Absolute, List.head?_append_of_ne_nil _ ha]
  · rw [Absolute, Absolute, List.head?_append_of_ne_nil _ ha]

namespace Process
variable {p : Process} {root : Place} {a b : Path}

theorem resolve_of_absolute (h : Absolute b.rest) :
    p.resolve b = ⟨p.volumeOf b, PathText.resolve [] b.rest⟩ := by
  unfold resolve PathText.resolve
  simp only [if_pos h]

/-- The second path is followed from where the first one leads, if it does not take its place. -/
theorem resolve_append (h : ¬ Replaces p.system a b) :
    p.resolve (append p.system a b) = ⟨(p.resolve a).volume, PathText.resolve (p.resolve a).directory b.rest⟩ := by
  rw [append, if_neg h]
  by_cases habsolute : Absolute b.rest
  · have happend : PathText.append a.rest b.rest = b.rest := if_pos habsolute
    rw [if_neg fun hroot => hroot.2.2 habsolute, happend, resolve_of_absolute (b := ⟨a.rootName, b.rest⟩) habsolute]
    unfold PathText.resolve
    rw [if_pos habsolute, if_pos habsolute]
    rfl
  split_ifs with hroot
  · obtain ⟨hrest, ha, -⟩ := hroot
    rw [resolve_of_absolute (b := ⟨a.rootName, '/' :: b.rest⟩) rfl]
    unfold resolve
    rw [if_pos ha, hrest, (join_root [] b.rest).1]
    unfold PathText.resolve
    rw [if_neg habsolute]
    rfl
  · have hsame : IsAbsolute p.system ⟨a.rootName, PathText.append a.rest b.rest⟩ ↔ IsAbsolute p.system a := by
      by_cases hrest : a.rest = []
      · have ha : ¬ IsAbsolute p.system a := fun ha => hroot ⟨hrest, ha, habsolute⟩
        have hempty : PathText.append a.rest b.rest = b.rest := by
          rw [PathText.append, if_neg habsolute, if_pos (.inl hrest), hrest, List.nil_append]
        rw [hempty]
        refine isAbsolute_of_rest a.rootName (iff_of_false habsolute ?_)
        rw [hrest]
        intro h
        cases h
      · exact isAbsolute_of_rest a.rootName (absolute_append hrest habsolute)
    unfold resolve
    simp only [hsame]
    rw [PathText.resolve_append habsolute]
    rfl

theorem contains_append_iff (h : root.Contains (p.resolve a)) :
    root.Contains (p.resolve (append p.system a b)) ↔ p.ComesBack root a b := by
  unfold ComesBack
  split_ifs with hreplaces
  · rw [append, if_pos hreplaces]
  · rw [resolve_append hreplaces, ← prefix_resolve_iff h.2]
    exact and_iff_right h.1

theorem encloses_append_iff (h : root.Contains (p.resolve a)) :
    root.Encloses (p.resolve (append p.system a b)) ↔ p.Descends root a b := by
  unfold Descends
  split_ifs with hreplaces
  · rw [append, if_pos hreplaces]
  · rw [resolve_append hreplaces, ← below_resolve_iff h.2]
    exact and_iff_right h.1

end Process

/-! ### Entries of a directory -/

/-- A name that an entry of a directory of the host can have. -/
def IsEntry (system : System) (text : List Char) : Prop :=
  PathText.IsEntry text ∧ (system = .windows → '\\' ∉ text ∧ ':' ∉ text)

instance (system : System) (text : List Char) : Decidable (IsEntry system text) := inferInstanceAs (Decidable (_ ∧ _))

theorem rootNameLength_eq_zero {text : List Char} (hslash : '/' ∉ text) (hcolon : ':' ∉ text) :
    rootNameLength text = 0 := by
  match text with
  | [] => rfl
  | [_] => rfl
  | a :: b :: rest =>
    simp only [List.mem_cons, not_or] at hslash hcolon
    have hdevice : ¬ IsDevice (a :: b :: rest) := by
      unfold IsDevice
      split
      next heq => exact absurd (List.cons.inj heq).1.symm hslash.1
      · exact id
    rw [rootNameLength, if_neg fun h => hcolon.2.1 h.2.symm, if_neg hdevice, if_neg fun h => hslash.1 h.1.symm]

theorem genericFormat_eq_self {text : List Char} (h : '\\' ∉ text) : genericFormat text = text := by
  refine (List.map_congr_left fun c hc => ?_).trans (List.map_id text)
  have hne : c ≠ '\\' := fun heq => h (heq ▸ hc)
  exact if_neg hne

/-- An entry has no root name. -/
theorem IsEntry.parse {system : System} {text : List Char} (h : IsEntry system text) : parse system text = ⟨[], text⟩ := by
  cases system with
  | posix => rfl
  | windows =>
    obtain ⟨hbackslash, hcolon⟩ := h.2 rfl
    unfold HostPath.parse
    dsimp only
    rw [genericFormat_eq_self hbackslash, rootNameLength_eq_zero h.1.2.2.2 hcolon, List.take_zero, List.drop_zero]

theorem IsEntry.not_replaces {system : System} {text : List Char} (h : IsEntry system text) (a : Path) :
    ¬ Replaces system a (HostPath.parse system text) := by
  have hrelative : ¬ Absolute text := fun habsolute => h.1.2.2.2 (List.mem_of_mem_head? habsolute)
  rw [h.parse]
  rintro (habsolute | ⟨hname, -⟩)
  · cases system with
    | posix => exact hrelative habsolute
    | windows => exact habsolute rfl
  · exact hname rfl

theorem Process.resolve_append_entry {p : Process} {text : List Char} (h : IsEntry p.system text) (a : Path) :
    p.resolve (append p.system a (parse p.system text)) =
      ⟨(p.resolve a).volume, (p.resolve a).directory ++ [text]⟩ := by
  rw [resolve_append (h.not_replaces a), h.parse, resolve_entry h.1]

end HostPath
