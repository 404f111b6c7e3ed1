import Mathlib.Data.List.Sort
import Psprism.Lib.Intervals
import Psprism.Analysis
import Psprism.ProjectManifest

/-!
# Code maps (`src/elf/code_map.cpp`, `src/elf/image.cpp`)

`load_code_map` reads one item a line, sorts what it has read, rejects function ranges of which one starts before the
one in front of it ends, and merges the excluded ranges. The two queries look at the range before `std::upper_bound`.
What they answer is what the lines say one by one (`loadCodeMap_answers`), in whatever order these stand and the sorts
leave ranges that start together. A character is a byte of the file.
-/

namespace Psprism

open Intervals

/-- Addresses, in order. -/
local instance wordOrder : LinearOrder Word where
  le_refl := BitVec.le_refl
  le_trans := fun _ _ _ => BitVec.le_trans
  le_antisymm := fun _ _ => BitVec.le_antisymm
  le_total := BitVec.le_total
  lt_iff_le_not_ge := fun a b => by rw [BitVec.not_le]; exact ⟨fun h => ⟨BitVec.le_of_lt h, h⟩, fun h => h.2⟩
  toDecidableLE := inferInstance

/-- `AddressRange`, from `begin` to `end`. -/
abbrev AddressRange := Intervals.Interval Word

namespace CodeMapFile

open Hydrate (Text getLines)

/-- `FunctionRange`: a range and its name. -/
structure FunctionRange extends Intervals.Interval Word where
  name : Text := []
deriving DecidableEq, Repr

structure FunctionSymbol where
  address : Word
  name : Text
deriving DecidableEq, Repr

structure RegisterMetadata where
  address : Word
  value : Word
deriving DecidableEq, Repr

/-- `CodeMap`, with all that the file says. -/
structure CodeMap where
  version : Word := 1
  entry : Word := 0
  functionStarts : List Word := []
  functionRanges : List FunctionRange := []
  functionSymbols : List FunctionSymbol := []
  blockEntries : List Word := []
  gpValues : List RegisterMetadata := []
  t9Values : List RegisterMetadata := []
  overlayStarts : List Word := []
  excludedRanges : List AddressRange := []
deriving DecidableEq, Repr

/-! ### Lines -/

def isBlank (c : Char) : Bool := c ∈ [' ', '\t', '\r', '\n']

/-- A token and what follows it. -/
def nextToken (rest : Text) : Text × Text :=
  let rest := rest.dropWhile isBlank
  (rest.takeWhile (! isBlank ·), rest.dropWhile (! isBlank ·))

def digitValue (base : Nat) (c : Char) : Option Nat :=
  let value :=
    if '0' ≤ c ∧ c ≤ '9' then c.toNat - '0'.toNat
    else if 'a' ≤ c ∧ c ≤ 'z' then c.toNat - 'a'.toNat + 10
    else if 'A' ≤ c ∧ c ≤ 'Z' then c.toNat - 'A'.toNat + 10
    else base
  if value < base then some value else none

/-- `std::from_chars` of 32 bits: the number that the digits give, and what follows them. -/
def fromChars (value : Text) (base : Nat) : Option (Word × Text) :=
  let digits := value.takeWhile fun c => (digitValue base c).isSome
  let number := digits.foldl (fun number c => number * base + (digitValue base c).getD 0) 0
  if digits = [] ∨ number ≥ 2 ^ 32 then none
  else some (BitVec.ofNat 32 number, value.dropWhile fun c => (digitValue base c).isSome)

def parseU32 (value : Text) : Option Word :=
  let parsed :=
    match value with
    | '0' :: 'x' :: digits => fromChars digits 16
    | '0' :: 'X' :: digits => fromChars digits 16
    | _ => fromChars value 10
  match parsed with
  | some (number, []) => some number
  | _ => none

def parseAddress (value : Text) : Except Text Word :=
  match parseU32 value with
  | some parsed => .ok parsed
  | none => .error "invalid address in code map line ".toList

def invalidLine : Text := "invalid code map line ".toList

/-- A range of whole words that is not empty. -/
def parseRange (first second invalidRange : Text) : Except Text AddressRange :=
  if second = [] then .error invalidLine
  else
    (parseAddress first).bind fun lo =>
      (parseAddress second).bind fun hi =>
        if hi ≤ lo ∨ lo &&& 3 ≠ 0 ∨ hi &&& 3 ≠ 0 then .error invalidRange else .ok ⟨lo, hi⟩

def parseMetadata (first second : Text) : Except Text RegisterMetadata :=
  if second = [] then .error invalidLine
  else (parseAddress first).bind fun address => (parseAddress second).map fun value => ⟨address, value⟩

/-- What a line says. -/
inductive Item
  | blank
  | entry (address : Word)
  | version (version : Word)
  | function (address : Word) (name : Text)
  | functionRange (range : FunctionRange)
  | block (address : Word)
  | gp (metadata : RegisterMetadata)
  | t9 (metadata : RegisterMetadata)
  | overlay (address : Word)
  | exclude (range : AddressRange)
deriving DecidableEq, Repr

inductive Kind
  | entry | version | function | functionRange | block | gp | t9 | overlay | exclude
deriving DecidableEq, Repr

/-- What each kind of line starts with. -/
def Kind.names : List (String × Kind) :=
  [("entry", .entry), ("version", .version), ("function", .function), ("function_range", .functionRange),
    ("block", .block), ("gp", .gp), ("t9", .t9), ("overlay", .overlay), ("exclude", .exclude)]

def Kind.ofToken (token : Text) : Option Kind := (Kind.names.find? (·.1.toList = token)).map (·.2)

/-- The item of a kind, whose operands start with `first`. -/
def parseItem (kind : Kind) (first view : Text) : Except Text Item :=
  match kind with
  | .entry => (parseAddress first).map .entry
  | .version =>
    (parseAddress first).bind fun version =>
      if version ≠ 1 ∧ version ≠ 2 then .error "unsupported code map version in line ".toList
      else .ok (.version version)
  | .function => (parseAddress first).map fun address => .function address (nextToken view).1
  | .functionRange =>
    let (second, view) := nextToken view
    (parseRange first second "invalid function range in code map line ".toList).map fun range =>
      .functionRange ⟨range, (nextToken view).1⟩
  | .block => (parseAddress first).map .block
  | .gp => (parseMetadata first (nextToken view).1).map .gp
  | .t9 => (parseMetadata first (nextToken view).1).map .t9
  | .overlay => (parseAddress first).map .overlay
  | .exclude =>
    (parseRange first (nextToken view).1 "invalid excluded range in code map line ".toList).map .exclude

/-- A line, or the message that the line's number follows. -/
def parseLine (line : Text) : Except Text Item :=
  let view := line.dropWhile isBlank
  if view = [] ∨ view.head? = some '#' then .ok .blank
  else
    let (kind, view) := nextToken view
    let (first, view) := nextToken view
    match Kind.ofToken kind with
    | some kind => if first = [] then .error invalidLine else parseItem kind first view
    | none => .error invalidLine

namespace CodeMap

def addSymbol (map : CodeMap) (address : Word) (name : Text) : CodeMap :=
  if name = [] then map else { map with functionSymbols := map.functionSymbols ++ [⟨address, name⟩] }

def add (map : CodeMap) : Item → CodeMap
  | .blank => map
  | .entry address => { map with entry := address }
  | .version version => { map with version := version }
  | .function address name =>
    { map with functionStarts := map.functionStarts ++ [address] }.addSymbol address name
  | .functionRange range =>
    { map with
      functionRanges := map.functionRanges ++ [range]
      functionStarts := map.functionStarts ++ [range.lo] }.addSymbol range.lo range.name
  | .block address => { map with blockEntries := map.blockEntries ++ [address] }
  | .gp metadata => { map with gpValues := map.gpValues ++ [metadata] }
  | .t9 metadata => { map with t9Values := map.t9Values ++ [metadata] }
  | .overlay address => { map with overlayStarts := map.overlayStarts ++ [address] }
  | .exclude range => { map with excludedRanges := map.excludedRanges ++ [range] }

end CodeMap

def readLines (map : CodeMap) (lineNumber : Nat) : List Text → Except Text CodeMap
  | [] => .ok map
  | line :: rest =>
    match parseLine line with
    | .ok item => readLines (map.add item) (lineNumber + 1) rest
    | .error message => .error (message ++ Nat.toDigits 10 lineNumber)

/-! ### The finished map -/

/-- `std::sort` by a key: a permutation in order, whichever it is. -/
structure SortBy {α : Type} (key : α → Word) where
  sort : List α → List α
  perm : ∀ l, (sort l).Perm l
  sorted : ∀ l, (sort l).Pairwise fun a b => key a ≤ key b

def SortBy.insertion {α : Type} (key : α → Word) : SortBy key where
  sort := List.insertionSort fun a b => key a ≤ key b
  perm := List.perm_insertionSort _
  sorted := fun l => by
    have htotal : Std.Total fun a b : α => key a ≤ key b := ⟨fun a b => BitVec.le_total (key a) (key b)⟩
    have htrans : IsTrans α fun a b => key a ≤ key b := ⟨fun _ _ _ hab hbc => BitVec.le_trans hab hbc⟩
    exact List.pairwise_insertionSort _ l

/-- The sorts of entries that their keys do not tell apart. -/
structure Sorting where
  ranges : SortBy fun range : FunctionRange => range.lo
  symbols : SortBy fun symbol : FunctionSymbol => symbol.address
  exclusions : SortBy fun range : AddressRange => range.lo

/-- `std::sort` and `std::unique` of addresses. -/
def sortUnique (addresses : List Word) : List Word := addresses.dedup.insertionSort (· ≤ ·)

def CodeMap.finish (sorting : Sorting) (map : CodeMap) : Except Text CodeMap :=
  let functionRanges := sorting.ranges.sort map.functionRanges
  if overlapping FunctionRange.toInterval functionRanges then
    .error "overlapping function ranges in code map".toList
  else
    .ok { map with
      functionStarts := sortUnique map.functionStarts
      functionRanges := functionRanges
      blockEntries := sortUnique map.blockEntries
      overlayStarts := sortUnique map.overlayStarts
      functionSymbols := sorting.symbols.sort map.functionSymbols
      excludedRanges := merge (sorting.exclusions.sort map.excludedRanges) }

/-- `load_code_map`; a file that cannot be opened is `none`. -/
def loadCodeMap (sorting : Sorting) (path : Text) (file : Option Text) : Except Text CodeMap :=
  match file with
  | none => .error ("cannot open code map: ".toList ++ path)
  | some text => (readLines {} 1 (getLines text)).bind fun map => map.finish sorting

namespace CodeMap

def contains (map : CodeMap) (address : Word) : Bool :=
  match locate id map.excludedRanges address with
  | none => true
  | some candidate => address < candidate.lo ∨ candidate.hi ≤ address

def functionContaining (map : CodeMap) (address : Word) : Option FunctionRange :=
  match locate FunctionRange.toInterval map.functionRanges address with
  | none => none
  | some candidate => if address < candidate.hi then some candidate else none

/-- What the analysis reads of a code map. -/
def analyzed (map : CodeMap) : Psprism.CodeMap where
  entry := map.entry
  functionStarts := map.functionStarts
  functionRanges := map.functionRanges.map (·.lo)
  functionSymbols := map.functionSymbols.map (·.address)
  blockEntries := map.blockEntries

end CodeMap

/-! ### What the lines say -/

def Item.functionRange? : Item → Option FunctionRange
  | .functionRange range => some range
  | _ => none

def Item.exclude? : Item → Option AddressRange
  | .exclude range => some range
  | _ => none

def items (lines : List Text) : List Item := lines.filterMap fun line => (parseLine line).toOption

/-- The ranges of the `function_range` lines of a text, in their order. -/
def functionRangeLines (text : Text) : List FunctionRange := (items (getLines text)).filterMap Item.functionRange?

/-- The ranges of the `exclude` lines. -/
def excludeLines (text : Text) : List AddressRange := (items (getLines text)).filterMap Item.exclude?

section
variable {α β : Type} {x : Except Text α} {f : α → β} {b : β}

theorem map_eq_ok (h : x.map f = .ok b) : ∃ a, x = .ok a ∧ f a = b := by
  cases x with
  | error e => cases h
  | ok a => exact ⟨a, rfl, Except.ok.inj h⟩

theorem bind_ok {g : α → Except Text β} (h : x.bind g = .ok b) : ∃ a, x = .ok a ∧ g a = .ok b := by
  cases x with
  | error e => cases h
  | ok a => exact ⟨a, rfl, h⟩

end

section
variable {line first second message : Text} {range : AddressRange} {item : Item}

theorem parseRange_proper (h : parseRange first second message = .ok range) : range.Proper := by
  rw [parseRange] at h
  split_ifs at h
  obtain ⟨lo, -, h⟩ := bind_ok h
  obtain ⟨hi, -, h⟩ := bind_ok h
  split_ifs at h with hbad
  obtain rfl := Except.ok.inj h
  exact BitVec.not_le.1 fun hle => hbad (.inl hle)

/-- The range that an item is about, if any. -/
def Item.range? : Item → Option (Intervals.Interval Word)
  | .functionRange range => some range.toInterval
  | .exclude range => some range
  | _ => none

theorem parseItem_proper {kind : Kind} {view : Text} (h : parseItem kind first view = .ok item) :
    ∀ range ∈ item.range?, range.Proper := by
  cases kind with
  | version =>
    obtain ⟨a, -, h⟩ := bind_ok h
    split_ifs at h
    obtain rfl := Except.ok.inj h
    simp [Item.range?]
  | functionRange | exclude =>
    obtain ⟨a, ha, rfl⟩ := map_eq_ok h
    simpa [Item.range?] using parseRange_proper ha
  | entry | function | block | gp | t9 | overlay =>
    obtain ⟨a, -, rfl⟩ := map_eq_ok h
    simp [Item.range?]

theorem parseLine_proper (h : parseLine line = .ok item) : ∀ range ∈ item.range?, range.Proper := by
  simp only [parseLine] at h
  split at h
  · obtain rfl := Except.ok.inj h
    simp [Item.range?]
  split at h
  · split at h
    · cases h
    · exact parseItem_proper h
  · cases h

theorem mem_items {lines : List Text} : item ∈ items lines ↔ ∃ line ∈ lines, parseLine line = .ok item := by
  simp only [items, List.mem_filterMap]
  refine exists_congr fun line => and_congr_right fun _ => ?_
  cases parseLine line <;> simp [Except.toOption]

theorem functionRangeLines_proper {text : Text} : ∀ range ∈ functionRangeLines text, range.Proper := by
  intro range hrange
  obtain ⟨item, hitem, hsome⟩ := List.mem_filterMap.1 hrange
  obtain ⟨line, -, hline⟩ := mem_items.1 hitem
  cases item <;> cases hsome
  exact parseLine_proper hline _ rfl

theorem excludeLines_proper {text : Text} : ∀ range ∈ excludeLines text, range.Proper := by
  intro range hrange
  obtain ⟨item, hitem, hsome⟩ := List.mem_filterMap.1 hrange
  obtain ⟨line, -, hline⟩ := mem_items.1 hitem
  cases item <;> cases hsome
  exact parseLine_proper hline _ rfl

end

/-! ### Reading -/

section
variable {map map' : CodeMap} {lines : List Text} {n : Nat}

theorem readLines_eq_ok : readLines map n lines = .ok map' ↔
    (∀ line ∈ lines, ∃ item, parseLine line = .ok item) ∧ (items lines).foldl CodeMap.add map = map' := by
  induction lines generalizing map n with
  | nil => simp [readLines, items]
  | cons line lines ih =>
    rw [readLines]
    cases hline : parseLine line with
    | ok item =>
      have hitems : items (line :: lines) = item :: items lines := by simp [items, hline, Except.toOption]
      simp only [ih, List.forall_mem_cons, hline, hitems, List.foldl_cons]
      simp
    | error message => simp [hline]

@[simp] theorem functionRanges_addSymbol (address : Word) (name : Text) :
    (map.addSymbol address name).functionRanges = map.functionRanges := by
  rw [CodeMap.addSymbol]
  split_ifs <;> rfl

@[simp] theorem excludedRanges_addSymbol (address : Word) (name : Text) :
    (map.addSymbol address name).excludedRanges = map.excludedRanges := by
  rw [CodeMap.addSymbol]
  split_ifs <;> rfl

theorem functionRanges_foldl (l : List Item) :
    (l.foldl CodeMap.add map).functionRanges = map.functionRanges ++ l.filterMap Item.functionRange? := by
  induction l generalizing map with
  | nil => simp
  | cons item l ih =>
    rw [List.foldl_cons, ih]
    cases item <;> simp [CodeMap.add, Item.functionRange?, List.filterMap_cons]

theorem excludedRanges_foldl (l : List Item) :
    (l.foldl CodeMap.add map).excludedRanges = map.excludedRanges ++ l.filterMap Item.exclude? := by
  induction l generalizing map with
  | nil => simp
  | cons item l ih =>
    rw [List.foldl_cons, ih]
    cases item <;> simp [CodeMap.add, Item.exclude?, List.filterMap_cons]

/-- What is read before the sorts. -/
theorem read_ranges {text : Text} (h : readLines {} 1 (getLines text) = .ok map) :
    map.functionRanges = functionRangeLines text ∧ map.excludedRanges = excludeLines text := by
  obtain ⟨-, rfl⟩ := readLines_eq_ok.1 h
  exact ⟨functionRanges_foldl _, excludedRanges_foldl _⟩

end

/-! ### The answers -/

section
variable {sorting : Sorting} {path text : Text} {map : CodeMap}

/-- The function ranges are found to overlap when two lines do. -/
theorem overlapping_sorted_iff : overlapping FunctionRange.toInterval (sorting.ranges.sort (functionRangeLines text)) =
    false ↔ (functionRangeLines text).Pairwise fun r s => r.Apart s.toInterval := by
  have hperm := sorting.ranges.perm (functionRangeLines text)
  rw [overlapping_iff (sorting.ranges.sorted _) fun r hr => functionRangeLines_proper r (hperm.mem_iff.1 hr)]
  exact hperm.pairwise_iff fun hab => hab.symm

theorem loadCodeMap_eq_ok : loadCodeMap sorting path (some text) = .ok map ↔
    ∃ unsorted, readLines {} 1 (getLines text) = .ok unsorted ∧ unsorted.finish sorting = .ok map := by
  rw [loadCodeMap]
  constructor
  · exact bind_ok
  · rintro ⟨unsorted, hread, hfinish⟩
    rw [hread]
    exact hfinish

/-- A text is accepted when every line is and no two function ranges overlap. -/
theorem accepted_iff : (∃ map, loadCodeMap sorting path (some text) = .ok map) ↔
    (∀ line ∈ getLines text, ∃ item, parseLine line = .ok item) ∧
      (functionRangeLines text).Pairwise fun r s => r.Apart s.toInterval := by
  simp only [loadCodeMap_eq_ok]
  constructor
  · rintro ⟨map, unsorted, hread, hfinish⟩
    refine ⟨(readLines_eq_ok.1 hread).1, ?_⟩
    rw [CodeMap.finish, (read_ranges hread).1] at hfinish
    split_ifs at hfinish with hoverlapping
    exact overlapping_sorted_iff.1 (Bool.not_eq_true _ ▸ hoverlapping)
  · rintro ⟨hlines, hapart⟩
    obtain ⟨unsorted, hread⟩ : ∃ map, readLines {} 1 (getLines text) = .ok map :=
      ⟨_, readLines_eq_ok.2 ⟨hlines, rfl⟩⟩
    obtain ⟨map, hfinish⟩ : ∃ map, unsorted.finish sorting = .ok map := by
      rw [CodeMap.finish, (read_ranges hread).1, overlapping_sorted_iff.2 hapart]
      exact ⟨_, rfl⟩
    exact ⟨map, unsorted, hread, hfinish⟩

/-- The two lists of ranges of an accepted map, each in line. -/
theorem accepted_ranges (h : loadCodeMap sorting path (some text) = .ok map) :
    (map.functionRanges = sorting.ranges.sort (functionRangeLines text) ∧
      InLine FunctionRange.toInterval map.functionRanges) ∧
    map.excludedRanges = merge (sorting.exclusions.sort (excludeLines text)) ∧ InLine id map.excludedRanges := by
  have hapart := (accepted_iff.1 ⟨map, h⟩).2
  obtain ⟨unsorted, hread, hfinish⟩ := loadCodeMap_eq_ok.1 h
  obtain ⟨hranges, hexclusions⟩ := read_ranges hread
  rw [CodeMap.finish, hranges, hexclusions] at hfinish
  split_ifs at hfinish
  obtain rfl := Except.ok.inj hfinish
  have hperm := sorting.ranges.perm (functionRangeLines text)
  refine ⟨⟨rfl, ?_⟩, rfl, ?_⟩
  · refine InLine.of_apart (sorting.ranges.sorted _) (fun r hr => functionRangeLines_proper r (hperm.mem_iff.1 hr)) ?_
    exact (hperm.pairwise_iff fun hab => hab.symm).2 hapart
  · refine inLine_merge (sorting.exclusions.sorted _) fun r hr => ?_
    exact excludeLines_proper r ((sorting.exclusions.perm _).mem_iff.1 hr)

theorem contains_eq_false_iff (h : loadCodeMap sorting path (some text) = .ok map) (address : Word) :
    map.contains address = false ↔ ∃ range ∈ excludeLines text, range.Covers address := by
  obtain ⟨-, hmerge, hline⟩ := accepted_ranges h
  have hcovers : (∃ range ∈ map.excludedRanges, range.Covers address) ↔
      ∃ range ∈ excludeLines text, range.Covers address := by
    rw [hmerge, covers_merge (sorting.exclusions.sorted _)]
    exact exists_congr fun range => and_congr_left' (sorting.exclusions.perm _).mem_iff
  rw [← hcovers, CodeMap.contains]
  have hlocate (range : AddressRange) := locate_iff (x := address) (a := range) hline
  constructor
  · intro hfalse
    split at hfalse
    · cases hfalse
    next candidate hsome =>
      simp only [decide_eq_false_iff_not, not_or, not_le] at hfalse
      exact ⟨candidate, (hlocate candidate).1 ⟨hsome, hfalse.2⟩⟩
  · rintro ⟨range, hrange⟩
    obtain ⟨hsome, hhi⟩ := (hlocate range).2 hrange
    simp only [hsome, decide_eq_false_iff_not, not_or, not_lt, not_le]
    exact ⟨hrange.2.1, hhi⟩

theorem functionContaining_eq_some_iff (h : loadCodeMap sorting path (some text) = .ok map) (address : Word)
    (range : FunctionRange) : map.functionContaining address = some range ↔
      range ∈ functionRangeLines text ∧ range.Covers address := by
  obtain ⟨⟨hsort, hline⟩, -⟩ := accepted_ranges h
  rw [← (sorting.ranges.perm _).mem_iff, ← hsort, ← locate_iff hline, CodeMap.functionContaining]
  constructor
  · intro hsome
    split at hsome
    · cases hsome
    next candidate hcandidate =>
      split_ifs at hsome with hhi
      obtain rfl := Option.some.inj hsome
      exact ⟨hcandidate, hhi⟩
  · rintro ⟨hsome, hhi⟩
    have hhi : address < range.hi := hhi
    simp only [hsome, if_pos hhi]

end

section
variable {text text' : Text}

theorem items_perm (h : (getLines text').Perm (getLines text)) :
    (functionRangeLines text').Perm (functionRangeLines text) ∧ (excludeLines text').Perm (excludeLines text) :=
  ⟨(h.filterMap _).filterMap _, (h.filterMap _).filterMap _⟩

/-- Neither the order of the lines nor that of the sorts decides what is accepted. -/
theorem accepted_perm (h : (getLines text').Perm (getLines text)) (sorting sorting' : Sorting) (path path' : Text) :
    (∃ map, loadCodeMap sorting' path' (some text') = .ok map) ↔
      ∃ map, loadCodeMap sorting path (some text) = .ok map := by
  rw [accepted_iff, accepted_iff, (items_perm h).1.pairwise_iff fun hab => hab.symm]
  exact and_congr_left' (forall_congr' fun line => imp_congr_left h.mem_iff)

end

/-- A text is accepted exactly if every line is and no two `function_range` lines overlap. What an accepted map
excludes is what some `exclude` line covers, and the function it finds for an address is the `function_range` line
that covers it. Another order of the lines, or of what the sorts leave open, changes none of that. -/
theorem loadCodeMap_answers (sorting : Sorting) (path text : Text) :
    ((∃ map, loadCodeMap sorting path (some text) = .ok map) ↔
      (∀ line ∈ getLines text, ∃ item, parseLine line = .ok item) ∧
        (functionRangeLines text).Pairwise fun r s => r.Apart s.toInterval) ∧
    (∀ map, loadCodeMap sorting path (some text) = .ok map → ∀ address,
      (map.contains address = false ↔ ∃ range ∈ excludeLines text, range.Covers address) ∧
      ∀ range, map.functionContaining address = some range ↔
        range ∈ functionRangeLines text ∧ range.Covers address) ∧
    ∀ sorting' path' text', (getLines text').Perm (getLines text) →
      ((∃ map, loadCodeMap sorting' path' (some text') = .ok map) ↔
        ∃ map, loadCodeMap sorting path (some text) = .ok map) ∧
      ∀ map map', loadCodeMap sorting path (some text) = .ok map →
        loadCodeMap sorting' path' (some text') = .ok map' → ∀ address,
          map'.contains address = map.contains address ∧
            map'.functionContaining address = map.functionContaining address := by
  refine ⟨accepted_iff, fun map h address => ?_, fun sorting' path' text' hperm => ?_⟩
  · exact ⟨contains_eq_false_iff h address, functionContaining_eq_some_iff h address⟩
  · refine ⟨accepted_perm hperm sorting sorting' path path', fun map map' h h' address => ⟨?_, ?_⟩⟩
    · refine Bool.eq_iff_iff.2 (not_iff_not.1 ?_)
      simp only [Bool.not_eq_true, contains_eq_false_iff h, contains_eq_false_iff h', (items_perm hperm).2.mem_iff]
    · refine Option.ext fun range => ?_
      rw [functionContaining_eq_some_iff h, functionContaining_eq_some_iff h', (items_perm hperm).1.mem_iff]

/-- A text with two ranges that touch and one inside another. -/
example : (loadCodeMap ⟨.insertion _, .insertion _, .insertion _⟩ []
    (some "exclude 0x20 0x30\nexclude 16 0x20 # overlay\nexclude 0x14 0x18\nfunction_range 0 16 main\n".toList)).map
    (fun map => (map.excludedRanges, map.contains 0x2f, map.contains 0x30, map.functionContaining 15)) =
    .ok ([⟨0x10, 0x30⟩], false, true, some ⟨⟨0, 16⟩, "main".toList⟩) := by
  decide +kernel

end CodeMapFile

end Psprism
