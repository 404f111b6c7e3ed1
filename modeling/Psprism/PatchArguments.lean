import Psprism.Lib.Assignments
import Psprism.PatchPointers

/-!
# The arguments of a patched call (`include/psprecomp/patch.hpp`)

`inject_arguments` puts the arguments of a call into eight integer registers, eight float registers and the stack,
`extract_arguments` takes them out again, and `stack_words_for_arguments` counts the words they need on the stack.
The three walk over the types with a cursor of their own. They agree on the place of every argument, no place is
used twice, and what was put in comes out where the stack could be written (`arguments_round_trip`). A 64-bit value
starts at an even word: the word that is skipped for it is counted, but not written.
-/

namespace Psprism.Patch

open Assignments

/-- The supported types, less their signs; an enumeration is an integer, and a `double` is wide. -/
inductive Argument
  | integer (bits : Nat) (fits : bits ≤ 32)
  | float
  | pointer (width : Nat)
  | wide
deriving DecidableEq

/-- The values of a type, as their bits; a null pointer is `none`. -/
abbrev Argument.Value : Argument → Type
  | .integer bits _ => BitVec bits
  | .float => Word
  | .pointer _ => Option Pointer
  | .wide => BitVec 64

/-- An argument of a call. -/
abbrev Passed := Sigma Argument.Value

structure AbiCursor where
  gpr : Nat := 0
  fpr : Nat := 0
  stack : Nat := 0
  valid : Bool := true

/-- `(n + 1U) & ~std::size_t{1}`. -/
def evenUp (n : Nat) : Nat := (n + 1) / 2 * 2

def reg (n : Nat) : Reg := BitVec.ofNat 5 n

def stackAddress (s : State) (word : Nat) : Word := s.gpr 29 + BitVec.ofNat 32 (word * 4)

def loadStackWord (s : State) (word : Nat) : Word × State := load32 s (stackAddress s word)

def storeStackWord (s : State) (word : Nat) (value : Word) : State := store32 s (stackAddress s word) value

/-! ### Extraction -/

/-- The next word of an argument that goes to the integer registers. -/
def extractWord (s : State) (cursor : AbiCursor) : Word × State × AbiCursor :=
  if cursor.gpr < 8 then (s.gpr (reg (4 + cursor.gpr)), s, { cursor with gpr := cursor.gpr + 1 })
  else
    let (word, s) := loadStackWord s cursor.stack
    (word, s, { cursor with stack := cursor.stack + 1 })

def extractSingleArg (s : State) (cursor : AbiCursor) : (a : Argument) → a.Value × State × AbiCursor
  | .float =>
    if cursor.fpr < 8 then (s.fpr (reg (12 + cursor.fpr)), s, { cursor with fpr := cursor.fpr + 1 })
    else
      let (raw, s) := loadStackWord s cursor.stack
      (raw, s, { cursor with stack := cursor.stack + 1 })
  | .pointer width =>
    let (address, s, cursor) := extractWord s cursor
    if address = 0 then (none, s, cursor)
    else
      match guestToHost s address width with
      | (some p, s) => (some p, s, cursor)
      | (none, s) => (none, noteMemoryFault s address, { cursor with valid := false })
  | .wide =>
    let cursor := { cursor with gpr := evenUp cursor.gpr }
    if cursor.gpr + 2 ≤ 8 then
      let low := s.gpr (reg (4 + cursor.gpr))
      let high := s.gpr (reg (5 + cursor.gpr))
      (low.setWidth 64 ||| high.setWidth 64 <<< 32, s, { cursor with gpr := cursor.gpr + 2 })
    else
      let cursor := { cursor with stack := evenUp cursor.stack }
      let (low, s) := loadStackWord s cursor.stack
      let (high, s) := loadStackWord s (cursor.stack + 1)
      (low.setWidth 64 ||| high.setWidth 64 <<< 32, s,
        { cursor with stack := cursor.stack + 2, gpr := cursor.gpr + 2 })
  | .integer bits _ =>
    let (word, s, cursor) := extractWord s cursor
    (word.setWidth bits, s, cursor)

def extractFrom (s : State) (cursor : AbiCursor) : List Argument → List Passed × State
  | [] => ([], s)
  | a :: types =>
    let (value, s, cursor) := extractSingleArg s cursor a
    let (values, s) := extractFrom s cursor types
    (⟨a, value⟩ :: values, s)

def extractArguments (s : State) (types : List Argument) : List Passed × State := extractFrom s {} types

/-! ### Injection -/

def injectWord (s : State) (cursor : AbiCursor) (word : Word) : State × AbiCursor :=
  if cursor.gpr < 8 then (s.setGpr (reg (4 + cursor.gpr)) word, { cursor with gpr := cursor.gpr + 1 })
  else (storeStackWord s cursor.stack word, { cursor with stack := cursor.stack + 1 })

def injectSingleArg (hostAddress : Region → Nat) (s : State) (cursor : AbiCursor) :
    (a : Argument) → a.Value → State × AbiCursor
  | .float, raw =>
    if cursor.fpr < 8 then (s.setFpr (reg (12 + cursor.fpr)) raw, { cursor with fpr := cursor.fpr + 1 })
    else (storeStackWord s cursor.stack raw, { cursor with stack := cursor.stack + 1 })
  | .pointer width, value =>
    let address := hostToGuest hostAddress s.mem value width
    let cursor := if value ≠ none ∧ address = 0 then { cursor with valid := false } else cursor
    injectWord s cursor address
  | .wide, raw =>
    let cursor := { cursor with gpr := evenUp cursor.gpr }
    let low := raw.setWidth 32
    let high := (raw >>> (32 : Nat)).setWidth 32
    if cursor.gpr + 2 ≤ 8 then
      ((s.setGpr (reg (4 + cursor.gpr)) low).setGpr (reg (5 + cursor.gpr)) high,
        { cursor with gpr := cursor.gpr + 2 })
    else
      let cursor := { cursor with stack := evenUp cursor.stack }
      (storeStackWord (storeStackWord s cursor.stack low) (cursor.stack + 1) high,
        { cursor with stack := cursor.stack + 2, gpr := cursor.gpr + 2 })
  | .integer _ _, value => injectWord s cursor (value.setWidth 32)

def injectFrom (hostAddress : Region → Nat) (s : State) (cursor : AbiCursor) : List Passed → State × AbiCursor
  | [] => (s, cursor)
  | ⟨a, value⟩ :: args =>
    let (s, cursor) := injectSingleArg hostAddress s cursor a value
    injectFrom hostAddress s cursor args

/-- `inject_arguments`: the state it leaves, and whether every pointer had an address. -/
def injectArguments (hostAddress : Region → Nat) (s : State) (args : List Passed) : State × Bool :=
  let (s, cursor) := injectFrom hostAddress s {} args
  (s, cursor.valid)

/-! ### Counting -/

def countSingleArg (cursor : AbiCursor) : Argument → AbiCursor
  | .float =>
    { cursor with fpr := cursor.fpr + 1, stack := if cursor.fpr ≥ 8 then cursor.stack + 1 else cursor.stack }
  | .wide =>
    let cursor := { cursor with gpr := evenUp cursor.gpr }
    let cursor := if cursor.gpr + 2 > 8 then { cursor with stack := evenUp cursor.stack + 2 } else cursor
    { cursor with gpr := cursor.gpr + 2 }
  | .integer _ _ | .pointer _ =>
    { cursor with gpr := cursor.gpr + 1, stack := if cursor.gpr ≥ 8 then cursor.stack + 1 else cursor.stack }

def stackWordsForArguments (types : List Argument) : Nat := (types.foldl countSingleArg {}).stack

/-! ### Places -/

/-- Where a word of an argument goes. -/
inductive Slot
  | gpr (i : Fin 8)
  | fpr (i : Fin 8)
  | stack (word : Nat)
deriving DecidableEq

def putSlot (s : State) : Slot → Word → State
  | .gpr i, word => s.setGpr (reg (4 + i)) word
  | .fpr i, word => s.setFpr (reg (12 + i)) word
  | .stack i, word => storeStackWord s i word

/-- The slot is written and reads back as `word`. -/
def ReadsSlot (s : State) : Slot → Word → Prop
  | .gpr i, word => s.gpr (reg (4 + i)) = word
  | .fpr i, word => s.fpr (reg (12 + i)) = word
  | .stack i, word => ReadsWord s.mem (stackAddress s i) word

/-- The slots of an argument. -/
def place (cursor : AbiCursor) : Argument → List Slot
  | .float => [if h : cursor.fpr < 8 then .fpr ⟨cursor.fpr, h⟩ else .stack cursor.stack]
  | .wide =>
    if h : evenUp cursor.gpr + 2 ≤ 8 then
      [.gpr ⟨evenUp cursor.gpr, by omega⟩, .gpr ⟨evenUp cursor.gpr + 1, by omega⟩]
    else [.stack (evenUp cursor.stack), .stack (evenUp cursor.stack + 1)]
  | .integer _ _ | .pointer _ => [if h : cursor.gpr < 8 then .gpr ⟨cursor.gpr, h⟩ else .stack cursor.stack]

/-- The cursor after an argument. -/
def advance (cursor : AbiCursor) : Argument → AbiCursor
  | .float =>
    if cursor.fpr < 8 then { cursor with fpr := cursor.fpr + 1 } else { cursor with stack := cursor.stack + 1 }
  | .wide =>
    if evenUp cursor.gpr + 2 ≤ 8 then { cursor with gpr := evenUp cursor.gpr + 2 }
    else { cursor with gpr := evenUp cursor.gpr + 2, stack := evenUp cursor.stack + 2 }
  | .integer _ _ | .pointer _ =>
    if cursor.gpr < 8 then { cursor with gpr := cursor.gpr + 1 } else { cursor with stack := cursor.stack + 1 }

/-- The words of an argument, in the order of its slots. -/
def passedWords (hostAddress : Region → Nat) (m : GuestMemory) : (a : Argument) → a.Value → List Word
  | .float, raw => [raw]
  | .pointer width, value => [hostToGuest hostAddress m value width]
  | .wide, raw => [raw.setWidth 32, (raw >>> (32 : Nat)).setWidth 32]
  | .integer _ _, value => [value.setWidth 32]

/-- A pointer that is null or has an address; other arguments always do. -/
def addressed (hostAddress : Region → Nat) (m : GuestMemory) : (a : Argument) → a.Value → Bool
  | .pointer width, value => value = none ∨ hostToGuest hostAddress m value width ≠ 0
  | _, _ => true

/-- The slots of each argument of a list. -/
def places (cursor : AbiCursor) : List Argument → List (List Slot)
  | [] => []
  | a :: types => place cursor a :: places (advance cursor a) types

/-- The slots that the arguments of a call take, with their words. -/
def assignments (hostAddress : Region → Nat) (m : GuestMemory) (cursor : AbiCursor) :
    List Passed → List (Slot × Word)
  | [] => []
  | ⟨a, value⟩ :: args =>
    (place cursor a).zip (passedWords hostAddress m a value) ++
      assignments hostAddress m (advance cursor a) args

def types (args : List Passed) : List Argument := args.map Sigma.fst

section
variable {hostAddress : Region → Nat} {m : GuestMemory} {s : State} {cursor : AbiCursor} {a : Argument}
  {args : List Passed}

theorem length_place (cursor : AbiCursor) (a : Argument) (hostAddress : Region → Nat) (m : GuestMemory)
    (value : a.Value) : (place cursor a).length = (passedWords hostAddress m a value).length := by
  cases a <;> simp only [place, passedWords] <;> try rfl
  split <;> rfl

/-- The slots of the assignments are the places of the arguments. -/
theorem map_fst_assignments :
    (assignments hostAddress m cursor args).map Prod.fst = (places cursor (types args)).flatten := by
  induction args generalizing cursor with
  | nil => rfl
  | cons arg args ih =>
    obtain ⟨a, value⟩ := arg
    rw [assignments, List.map_append, ih, List.map_fst_zip (by rw [length_place cursor a hostAddress m value])]
    rfl

/-! ### Injection writes the assignments -/

theorem passedWords_layout (a : Argument) (value : a.Value) :
    passedWords hostAddress m.layout a value = passedWords hostAddress m a value := by
  cases a with
  | pointer width => simp only [passedWords, hostToGuest_layout]
  | integer bits fits => rfl
  | float => rfl
  | wide => rfl

theorem assignments_layout :
    assignments hostAddress m.layout cursor args = assignments hostAddress m cursor args := by
  induction args generalizing cursor with
  | nil => rfl
  | cons arg args ih => simp only [assignments, passedWords_layout, ih]

theorem addressed_layout (a : Argument) (value : a.Value) :
    addressed hostAddress m.layout a value = addressed hostAddress m a value := by
  cases a with
  | pointer width => simp only [addressed, hostToGuest_layout]
  | integer bits fits => rfl
  | float => rfl
  | wide => rfl

theorem putSlot_layout (s : State) (slot : Slot) (word : Word) :
    (putSlot s slot word).mem.layout = s.mem.layout := by
  cases slot with
  | gpr i => rfl
  | fpr i => rfl
  | stack i => exact store32_layout

theorem putAll_layout (l : List (Slot × Word)) : (putAll putSlot s l).mem.layout = s.mem.layout :=
  inv_putAll (fun t : State => t.mem.layout = s.mem.layout) (fun t x v h => (putSlot_layout t x v).trans h) rfl

/-! The places do not depend on whether the pointers were valid. -/

theorem place_valid (valid : Bool) : place { cursor with valid := valid } a = place cursor a := by cases a <;> rfl

theorem advance_valid (valid : Bool) :
    advance { cursor with valid := valid } a = { advance cursor a with valid := valid } := by
  cases a <;> simp only [advance] <;> split <;> rfl

theorem foldl_advance_valid (valid : Bool) (types : List Argument) :
    types.foldl advance { cursor with valid := valid } = { types.foldl advance cursor with valid := valid } := by
  induction types generalizing cursor with
  | nil => rfl
  | cons a types ih => rw [List.foldl_cons, List.foldl_cons, advance_valid, ih]

theorem assignments_valid (valid : Bool) :
    assignments hostAddress m { cursor with valid := valid } args = assignments hostAddress m cursor args := by
  induction args generalizing cursor with
  | nil => rfl
  | cons arg args ih => simp only [assignments, place_valid, advance_valid, ih]

theorem injectWord_eq (word : Word) :
    injectWord s cursor word =
      (putAll putSlot s [(if h : cursor.gpr < 8 then .gpr ⟨cursor.gpr, h⟩ else .stack cursor.stack, word)],
        if cursor.gpr < 8 then { cursor with gpr := cursor.gpr + 1 }
        else { cursor with stack := cursor.stack + 1 }) := by
  rw [injectWord]
  split <;> rfl

theorem injectSingleArg_eq (a : Argument) (value : a.Value) :
    injectSingleArg hostAddress s cursor a value =
      (putAll putSlot s ((place cursor a).zip (passedWords hostAddress s.mem a value)),
        { advance cursor a with valid := cursor.valid && addressed hostAddress s.mem a value }) := by
  cases a with
  | integer bits fits =>
    simp only [injectSingleArg, injectWord_eq, place, passedWords, advance, addressed, Bool.and_true]
    split <;> rfl
  | float =>
    simp only [injectSingleArg, place, passedWords, advance, addressed, Bool.and_true]
    split <;> rfl
  | pointer width =>
    simp only [injectSingleArg, injectWord_eq, place, passedWords, advance, addressed]
    by_cases hnull : value ≠ none ∧ hostToGuest hostAddress s.mem value width = 0
    · have hvalid : ¬ (value = none ∨ hostToGuest hostAddress s.mem value width ≠ 0) := by
        rintro (h | h)
        · exact hnull.1 h
        · exact h hnull.2
      simp only [if_pos hnull, decide_eq_false hvalid, Bool.and_false]
      split <;> rfl
    · have hvalid : value = none ∨ hostToGuest hostAddress s.mem value width ≠ 0 := by
        by_cases hnone : value = none
        · exact .inl hnone
        · exact .inr fun h => hnull ⟨hnone, h⟩
      simp only [if_neg hnull, decide_eq_true hvalid, Bool.and_true]
      split <;> rfl
  | wide =>
    have hnext (n : Nat) : reg (5 + n) = reg (4 + (n + 1)) := by rw [Nat.add_comm n, ← Nat.add_assoc]
    simp only [injectSingleArg, place, passedWords, advance, addressed, Bool.and_true, hnext]
    split <;> rfl

theorem injectFrom_eq :
    injectFrom hostAddress s cursor args =
      (putAll putSlot s (assignments hostAddress s.mem cursor args),
        { (types args).foldl advance cursor with
          valid := cursor.valid && args.all fun arg => addressed hostAddress s.mem arg.1 arg.2 }) := by
  induction args generalizing s cursor with
  | nil => simp [injectFrom, assignments, types]
  | cons arg args ih =>
    obtain ⟨a, value⟩ := arg
    have hlayout := putAll_layout (s := s) ((place cursor a).zip (passedWords hostAddress s.mem a value))
    have haddressed (b : Passed) : addressed hostAddress (putAll putSlot s
        ((place cursor a).zip (passedWords hostAddress s.mem a value))).mem b.1 b.2 =
        addressed hostAddress s.mem b.1 b.2 := by
      rw [← addressed_layout, hlayout, addressed_layout]
    simp only [injectFrom, injectSingleArg_eq, ih, assignments_valid, foldl_advance_valid, haddressed]
    rw [← assignments_layout, hlayout, assignments_layout, ← putAll_append, List.all_cons, ← Bool.and_assoc]
    rfl

/-! ### Extraction reads the assignments -/

/-- A pointer into guest memory, or null; other values always. -/
def MappedValue (m : GuestMemory) : (a : Argument) → a.Value → Prop
  | .pointer width, value => ∀ p, value = some p → Mapped m width p
  | _, _ => True

theorem MappedValue.layout {m' : GuestMemory} {value : a.Value} (h : MappedValue m a value)
    (hlayout : m'.layout = m.layout) : MappedValue m' a value := by
  cases a with
  | pointer width =>
    intro p hp
    obtain ⟨address, haddress, hwrap⟩ := h p hp
    have hbase : m'.layout.memoryBase = m.layout.memoryBase := congrArg GuestMemory.memoryBase hlayout
    exact ⟨address, (GuestMemory.accessPart_of_layout hlayout).trans haddress, fun hr => hbase.symm ▸ hwrap hr⟩
  | _ => exact trivial

theorem extractWord_eq {word : Word}
    (h : ReadsSlot s (if h : cursor.gpr < 8 then .gpr ⟨cursor.gpr, h⟩ else .stack cursor.stack) word) :
    extractWord s cursor =
      (word, s,
        if cursor.gpr < 8 then { cursor with gpr := cursor.gpr + 1 }
        else { cursor with stack := cursor.stack + 1 }) := by
  rw [extractWord]
  by_cases hgpr : cursor.gpr < 8
  · rw [dif_pos hgpr] at h
    rw [if_pos hgpr, if_pos hgpr]
    exact congrArg (·, _) h
  · rw [dif_neg hgpr] at h
    rw [if_neg hgpr, if_neg hgpr, loadStackWord, h.load32]

/-- The two halves of a wide value. -/
theorem wide_halves (raw : BitVec 64) :
    (raw.setWidth 32).setWidth 64 ||| ((raw >>> (32 : Nat)).setWidth 32).setWidth 64 <<< 32 = raw := by
  ext i hi
  simp
  grind

theorem extractSingleArg_eq {value : a.Value}
    (h : ∀ p ∈ (place cursor a).zip (passedWords hostAddress s.mem a value), ReadsSlot s p.1 p.2)
    (haddressed : addressed hostAddress s.mem a value = true) (hmapped : MappedValue s.mem a value) :
    extractSingleArg s cursor a = (value, s, advance cursor a) := by
  cases a with
  | integer bits fits =>
    have hword := h _ (List.mem_cons_self ..)
    rw [extractSingleArg, extractWord_eq hword, advance]
    simp only [BitVec.setWidth_setWidth_of_le value fits, BitVec.setWidth_eq]
  | float =>
    have hword := h _ (List.mem_cons_self ..)
    rw [extractSingleArg, advance]
    by_cases hfpr : cursor.fpr < 8
    · simp only [dif_pos hfpr] at hword
      rw [if_pos hfpr, if_pos hfpr]
      exact congrArg (·, _) hword
    · simp only [dif_neg hfpr] at hword
      rw [if_neg hfpr, if_neg hfpr, loadStackWord, hword.load32]
  | pointer width =>
    have hword := h _ (List.mem_cons_self ..)
    rw [extractSingleArg, extractWord_eq hword, advance]
    cases value with
    | none => simp only [hostToGuest, if_pos]
    | some p =>
      have hguest : hostToGuest hostAddress s.mem (some p) width ≠ 0 := by simpa [addressed] using haddressed
      have hpart := (hmapped p rfl).accessPart hguest
      simp only [if_neg hguest, guestToHost_eq hpart]
  | wide =>
    rw [extractSingleArg, advance]
    rw [place, passedWords] at h
    by_cases hgpr : evenUp cursor.gpr + 2 ≤ 8
    · rw [dif_pos hgpr] at h
      have hlow : s.gpr (reg (4 + evenUp cursor.gpr)) = value.setWidth 32 := h _ (List.mem_cons_self ..)
      have hhigh : s.gpr (reg (4 + (evenUp cursor.gpr + 1))) = (value >>> (32 : Nat)).setWidth 32 :=
        h _ (List.mem_cons_of_mem _ (List.mem_cons_self ..))
      have hnext : reg (5 + evenUp cursor.gpr) = reg (4 + (evenUp cursor.gpr + 1)) := by
        rw [Nat.add_comm _ 1, ← Nat.add_assoc]
      simp only [if_pos hgpr, hnext, hlow, hhigh, wide_halves]
    · rw [dif_neg hgpr] at h
      have hlow : ReadsWord s.mem (stackAddress s (evenUp cursor.stack)) (value.setWidth 32) :=
        h _ (List.mem_cons_self ..)
      have hhigh : ReadsWord s.mem (stackAddress s (evenUp cursor.stack + 1)) ((value >>> (32 : Nat)).setWidth 32) :=
        h _ (List.mem_cons_of_mem _ (List.mem_cons_self ..))
      simp only [if_neg hgpr, loadStackWord, hlow.load32, hhigh.load32, wide_halves]

theorem extractFrom_eq (h : ∀ p ∈ assignments hostAddress s.mem cursor args, ReadsSlot s p.1 p.2)
    (haddressed : ∀ arg ∈ args, addressed hostAddress s.mem arg.1 arg.2 = true)
    (hmapped : ∀ arg ∈ args, MappedValue s.mem arg.1 arg.2) : extractFrom s cursor (types args) = (args, s) := by
  induction args generalizing cursor with
  | nil => rfl
  | cons arg args ih =>
    obtain ⟨a, value⟩ := arg
    rw [assignments] at h
    have hfirst := extractSingleArg_eq (fun p hp => h p (List.mem_append_left _ hp))
      (haddressed _ List.mem_cons_self) (hmapped _ List.mem_cons_self)
    have hrest := ih (fun p hp => h p (List.mem_append_right _ hp))
      (fun b hb => haddressed b (List.mem_cons_of_mem _ hb)) (fun b hb => hmapped b (List.mem_cons_of_mem _ hb))
    rw [types, List.map_cons, extractFrom, hfirst]
    simp only
    rw [show args.map Sigma.fst = types args from rfl, hrest]

end

/-! ### The three walks keep step -/

/-- A slot that the arguments before the cursor may have taken. -/
def Taken (cursor : AbiCursor) : Slot → Prop
  | .gpr i => i < cursor.gpr
  | .fpr i => i < cursor.fpr
  | .stack i => i < cursor.stack

section
variable {cursor count : AbiCursor} {a : Argument} {slot : Slot} {ts : List Argument}

/-- The cursor only moves on. -/
theorem le_advance (cursor : AbiCursor) (a : Argument) :
    cursor.gpr ≤ (advance cursor a).gpr ∧ cursor.fpr ≤ (advance cursor a).fpr ∧
      cursor.stack ≤ (advance cursor a).stack := by
  cases a <;> grind [advance, evenUp]

theorem Taken.advance (h : Taken cursor slot) (a : Argument) : Taken (advance cursor a) slot := by
  obtain ⟨hgpr, hfpr, hstack⟩ := le_advance cursor a
  cases slot with
  | gpr i => exact Nat.lt_of_lt_of_le h hgpr
  | fpr i => exact Nat.lt_of_lt_of_le h hfpr
  | stack i => exact Nat.lt_of_lt_of_le h hstack

/-- An argument takes slots that were free. -/
theorem place_spec (h : slot ∈ place cursor a) :
    ¬ Taken cursor slot ∧ Taken (Patch.advance cursor a) slot := by
  cases a <;> grind [place, Taken, Patch.advance, evenUp]

theorem place_nodup (cursor : AbiCursor) (a : Argument) : (place cursor a).Nodup := by
  cases a with
  | wide => rw [place]; split <;> simp
  | _ => exact List.nodup_singleton _

theorem places_spec (h : slot ∈ (places cursor ts).flatten) : ¬ Taken cursor slot := by
  induction ts generalizing cursor with
  | nil => cases h
  | cons a ts ih =>
    rw [places, List.flatten_cons, List.mem_append] at h
    rcases h with h | h
    · exact (place_spec h).1
    · exact fun htaken => ih h (htaken.advance a)

/-- No slot is used twice. -/
theorem places_nodup (cursor : AbiCursor) (ts : List Argument) : (places cursor ts).flatten.Nodup := by
  induction ts generalizing cursor with
  | nil => exact List.nodup_nil
  | cons a ts ih =>
    rw [places, List.flatten_cons, List.nodup_append]
    refine ⟨place_nodup cursor a, ih _, ?_⟩
    rintro x hx y hy rfl
    exact places_spec hy (place_spec hx).2

/-- The words up to the stack cursor: those of the arguments, and a word skipped before a wide one. -/
theorem lt_stack_advance (cursor : AbiCursor) (a : Argument) (w : Nat) :
    w < (advance cursor a).stack ↔
      w < cursor.stack ∨ .stack w ∈ place cursor a ∨
        w % 2 = 1 ∧ [.stack (w + 1), .stack (w + 2)] = place cursor a := by
  cases a with
  | wide =>
    by_cases h : evenUp cursor.gpr + 2 ≤ 8
    · simp [advance, place, h]
    · simp only [advance, place, if_neg h, dif_neg h, List.mem_cons, List.not_mem_nil, or_false, Slot.stack.injEq,
        List.cons.injEq, and_true]
      unfold evenUp
      omega
  | _ => grind [advance, place]

theorem lt_stack (cursor : AbiCursor) (ts : List Argument) (w : Nat) :
    w < (ts.foldl advance cursor).stack ↔
      w < cursor.stack ∨ .stack w ∈ (places cursor ts).flatten ∨
        w % 2 = 1 ∧ [.stack (w + 1), .stack (w + 2)] ∈ places cursor ts := by
  induction ts generalizing cursor with
  | nil => simp [places]
  | cons a ts ih =>
    rw [List.foldl_cons, ih, lt_stack_advance, places, List.flatten_cons, List.mem_append, List.mem_cons]
    tauto

/-- The cursor of the count: it runs on when the registers are full. -/
structure Counted (cursor count : AbiCursor) : Prop where
  gpr : cursor.gpr = count.gpr ∨ 8 ≤ cursor.gpr ∧ 8 ≤ count.gpr
  fpr : cursor.fpr = count.fpr ∨ 8 ≤ cursor.fpr ∧ 8 ≤ count.fpr
  stack : cursor.stack = count.stack

theorem Counted.advance (h : Counted cursor count) (a : Argument) :
    Counted (Patch.advance cursor a) (countSingleArg count a) := by
  obtain ⟨hgpr, hfpr, hstack⟩ := h
  constructor <;> cases a <;> grind [Patch.advance, countSingleArg, evenUp]

theorem Counted.foldl (h : Counted cursor count) (ts : List Argument) :
    Counted (ts.foldl Patch.advance cursor) (ts.foldl countSingleArg count) := by
  induction ts generalizing cursor count with
  | nil => exact h
  | cons a ts ih => exact ih (h.advance a)

theorem stackWordsForArguments_eq (ts : List Argument) :
    stackWordsForArguments ts = (ts.foldl advance {}).stack :=
  have h : Counted {} {} := ⟨.inl rfl, .inl rfl, rfl⟩
  (h.foldl ts).stack.symm

/-- The words counted are those written, and those skipped before wide values. -/
theorem lt_stackWordsForArguments (ts : List Argument) (w : Nat) :
    w < stackWordsForArguments ts ↔
      .stack w ∈ (places {} ts).flatten ∨ w % 2 = 1 ∧ [.stack (w + 1), .stack (w + 2)] ∈ places {} ts := by
  rw [stackWordsForArguments_eq, lt_stack]
  simp

end

/-! ### The stack -/

/-- The first `n` words of the stack, where they can be accessed, share no byte. -/
def StackApart (s : State) (n : Nat) : Prop :=
  ∀ v < n, ∀ w < n, v ≠ w → ∀ p q, s.mem.access32 (stackAddress s v) = some p →
    s.mem.access32 (stackAddress s w) = some q → Pointer.Apart p q

/-- Where an access to a region goes. -/
def regionOffset (m : GuestMemory) (address : Word) : Region → Nat
  | .memory => m.imageOffset address
  | .scratchpad => (canonicalAddress address - 0x00010000).toNat
  | .videoMemory => (canonicalAddress address - 0x04000000).toNat
  | .volatileMemory => (canonicalAddress address - 0x08400000).toNat
  | .direct => address.toNat

theorem access32_spec {m : GuestMemory} {address : Word} {p : Pointer} (h : m.access32 address = some p) :
    address.toNat % 4 = 0 ∧ p.2 = regionOffset m address p.1 := by
  rw [GuestMemory.access32, GuestMemory.access] at h
  split at h
  next hfast => obtain rfl := Option.some.inj h; exact ⟨hfast.2.2, rfl⟩
  split at h
  · cases h
  next haligned =>
  refine ⟨not_not.1 haligned, ?_⟩
  rcases Option.or_eq_some_iff.1 h with h | ⟨-, h⟩
  · rw [GuestMemory.offset_of_mappedAddress h]
    obtain ⟨r, o⟩ := p
    rcases GuestMemory.mappedAddress_cases h with ⟨-, rfl, rfl⟩ | ⟨-, htag, -⟩
    · rfl
    · have hdirect := GuestMemory.regionOfTag_ne_direct htag
      cases r with
      | direct => exact absurd rfl hdirect
      | _ => rfl
  · rw [GuestMemory.directAccess] at h
    split at h
    · obtain rfl := Option.some.inj h; rfl
    · cases h

theorem toNat_canonicalAddress (address : Word) : (canonicalAddress address).toNat = address.toNat % 2 ^ 29 := by
  rw [canonicalAddress, BitVec.toNat_and]
  exact Nat.and_two_pow_sub_one_eq_mod _ 29

/-- Two aligned addresses that are not aliases are at least four bytes apart in their region. -/
theorem regionOffset_apart (m : GuestMemory) {a b : Word} (ha : a.toNat % 4 = 0) (hb : b.toNat % 4 = 0)
    (hne : a.toNat % 2 ^ 29 ≠ b.toNat % 2 ^ 29) (r : Region) :
    regionOffset m a r + 4 ≤ regionOffset m b r ∨ regionOffset m b r + 4 ≤ regionOffset m a r := by
  have hcanon (base : Word) : (canonicalAddress a - base).toNat + 4 ≤ (canonicalAddress b - base).toNat ∨
      (canonicalAddress b - base).toNat + 4 ≤ (canonicalAddress a - base).toNat := by
    rw [BitVec.toNat_sub, BitVec.toNat_sub, toNat_canonicalAddress, toNat_canonicalAddress]
    have := base.isLt
    omega
  cases r with
  | memory => exact hcanon m.memoryBase
  | scratchpad => exact hcanon 0x00010000
  | videoMemory => exact hcanon 0x04000000
  | volatileMemory => exact hcanon 0x08400000
  | direct => simp only [regionOffset]; omega

/-- So do as many as there are canonical addresses for. -/
theorem stackApart_of_le (s : State) {n : Nat} (h : n ≤ 2 ^ 27) : StackApart s n := by
  intro v hv w hw hne p q hp hq
  obtain ⟨ha, hpo⟩ := access32_spec hp
  obtain ⟨hb, hqo⟩ := access32_spec hq
  by_cases hregion : p.1 = q.1
  · refine .inr ?_
    rw [hpo, hqo, hregion]
    refine regionOffset_apart s.mem ha hb ?_ q.1
    simp only [stackAddress, BitVec.toNat_add, BitVec.toNat_ofNat]
    omega
  · exact .inl hregion

/-! ### The round trip -/

/-- Two slots that do not overlap; the `n` words of the stack do not. -/
def SlotApart (n : Nat) (x y : Slot) : Prop := x ≠ y ∧ ∀ w, x = .stack w ∨ y = .stack w → w < n

/-- The state has the memory map and the stack pointer of `s`. -/
def SameStack (s t : State) : Prop := t.mem.layout = s.mem.layout ∧ t.gpr 29 = s.gpr 29

section
variable {s t : State} {n : Nat} {x y : Slot} {v w : Word}

theorem SameStack.stackAddress (h : SameStack s t) (word : Nat) : stackAddress t word = stackAddress s word := by
  rw [Patch.stackAddress, h.2, Patch.stackAddress]

theorem SameStack.putSlot (h : SameStack s t) (x : Slot) (v : Word) : SameStack s (putSlot t x v) := by
  refine ⟨(putSlot_layout t x v).trans h.1, Eq.trans ?_ h.2⟩
  have hreg : ∀ i : Fin 8, (29 : Reg) ≠ reg (4 + i) := by decide
  cases x with
  | gpr i => exact Function.update_of_ne (hreg i) _ _
  | fpr i => rfl
  | stack i => exact congrFun store32_gpr _

theorem running_of_putSlot (h : (putSlot t x v).stopReason = .running) : t.stopReason = .running := by
  cases x with
  | gpr i => exact h
  | fpr i => exact h
  | stack i => exact running_of_store32 h

theorem readsSlot_putSlot (h : (putSlot t x v).stopReason = .running) : ReadsSlot (putSlot t x v) x v := by
  cases x with
  | gpr i => exact Function.update_self ..
  | fpr i => exact Function.update_self ..
  | stack i =>
    have haddress : stackAddress (putSlot t (.stack i) v) i = stackAddress t i :=
      congrArg (· + _) (congrFun store32_gpr _)
    rw [ReadsSlot, haddress]
    exact readsWord_store32 h

theorem ReadsSlot.putSlot (hapart : StackApart s n) (h : SameStack s t) (hxy : SlotApart n x y)
    (hreads : ReadsSlot t x v) : ReadsSlot (putSlot t y w) x v := by
  have hgpr : ∀ i j : Fin 8, i ≠ j → reg (4 + i) ≠ reg (4 + j) := by decide
  have hfpr : ∀ i j : Fin 8, i ≠ j → reg (12 + i) ≠ reg (12 + j) := by decide
  have hstack (i : Nat) : Patch.stackAddress (Patch.putSlot t y w) i = Patch.stackAddress t i := by
    rw [(h.putSlot y w).stackAddress, h.stackAddress]
  obtain ⟨hne, hlt⟩ := hxy
  cases x with
  | gpr i =>
    cases y with
    | gpr j => exact (Function.update_of_ne (hgpr i j fun heq => hne (congrArg _ heq)) _ _).trans hreads
    | fpr j => exact hreads
    | stack j => exact (congrFun store32_gpr _).trans hreads
  | fpr i =>
    cases y with
    | gpr j => exact hreads
    | fpr j => exact (Function.update_of_ne (hfpr i j fun heq => hne (congrArg _ heq)) _ _).trans hreads
    | stack j => exact (congrFun store32_fpr _).trans hreads
  | stack i =>
    rw [ReadsSlot, hstack]
    cases y with
    | gpr j => exact hreads
    | fpr j => exact hreads
    | stack j =>
      refine ReadsWord.store32 hreads fun p q hp hq => ?_
      rw [GuestMemory.access32_of_layout h.1, h.stackAddress] at hp hq
      exact hapart i (hlt i (.inl rfl)) j (hlt j (.inr rfl)) (fun heq => hne (congrArg _ heq)) p q hp hq

end

/-- The slots of the assignments are apart from each other. -/
theorem assignments_apart (hostAddress : Region → Nat) (m : GuestMemory) (args : List Passed) :
    (assignments hostAddress m {} args).Pairwise fun p q =>
      SlotApart (stackWordsForArguments (types args)) p.1 q.1 := by
  have hnodup := places_nodup {} (types args)
  have hslots : (assignments hostAddress m {} args).map Prod.fst = (places {} (types args)).flatten :=
    map_fst_assignments
  rw [← hslots, List.nodup_iff_pairwise_ne, List.pairwise_map] at hnodup
  refine hnodup.imp_of_mem fun {p q} hp hq hne => ⟨hne, fun w hw => ?_⟩
  rw [lt_stackWordsForArguments, ← hslots]
  rcases hw with hw | hw
  · exact .inl (hw ▸ List.mem_map_of_mem hp)
  · exact .inl (hw ▸ List.mem_map_of_mem hq)

/-- Arguments are written to places of their own, which the count covers but for skipped words; they are extracted
again where the injection succeeds. -/
theorem arguments_round_trip (hostAddress : Region → Nat) (s : State) (args : List Passed) :
    let injected := injectArguments hostAddress s args
    let slots := places {} (types args)
    injected.1 = putAll putSlot s (assignments hostAddress s.mem {} args) ∧
      (assignments hostAddress s.mem {} args).map Prod.fst = slots.flatten ∧
      slots.flatten.Nodup ∧
      (∀ w, w < stackWordsForArguments (types args) ↔
        .stack w ∈ slots.flatten ∨ w % 2 = 1 ∧ [.stack (w + 1), .stack (w + 2)] ∈ slots) ∧
      ((∀ arg ∈ args, MappedValue s.mem arg.1 arg.2) → StackApart s (stackWordsForArguments (types args)) →
        injected.2 = true → injected.1.stopReason = .running →
        extractArguments injected.1 (types args) = (args, injected.1)) := by
  have hinjected : injectArguments hostAddress s args = (putAll putSlot s (assignments hostAddress s.mem {} args),
      args.all fun arg => addressed hostAddress s.mem arg.1 arg.2) := by
    rw [injectArguments, injectFrom_eq]
    simp only [Bool.true_and]
  refine ⟨by rw [hinjected], map_fst_assignments, places_nodup _ _, lt_stackWordsForArguments _, ?_⟩
  intro hmapped hapart hvalid hrunning
  rw [hinjected] at hvalid hrunning ⊢
  simp only at hvalid hrunning ⊢
  have hlayout := putAll_layout (s := s) (assignments hostAddress s.mem {} args)
  have hreads : ∀ p ∈ assignments hostAddress s.mem {} args,
      ReadsSlot (putAll putSlot s (assignments hostAddress s.mem {} args)) p.1 p.2 :=
    reads_putAll (SameStack s) (fun t : State => t.stopReason = .running) (fun t x v h => h.putSlot x v)
      (fun t x v => running_of_putSlot) (fun t x v _ => readsSlot_putSlot)
      (fun t x y v w h hxy => ReadsSlot.putSlot hapart h hxy) ⟨rfl, rfl⟩ (assignments_apart _ _ _) hrunning
  generalize putAll putSlot s (assignments hostAddress s.mem {} args) = t at hlayout hreads
  rw [← assignments_layout, ← hlayout, assignments_layout] at hreads
  refine extractFrom_eq hreads (fun arg harg => ?_) fun arg harg => ?_
  · rw [← addressed_layout, hlayout, addressed_layout]
    exact List.all_eq_true.1 hvalid arg harg
  · exact (hmapped arg harg).layout hlayout

/-- Six arguments that take two words of the stack and skip one. -/
def sixArguments : List Passed :=
  [⟨.pointer 4, some (.memory, 8)⟩, ⟨.wide, 0x1111111122222222⟩, ⟨.wide, 3⟩, ⟨.wide, 4⟩,
    ⟨.integer 16 (by decide), 0xbeef⟩, ⟨.wide, 0x5555555566666666⟩]

/-- A CPU whose stack is a small image. -/
def smallStack : State :=
  (State.ofImage 0x08804000 [0x5a5a5a5a, 0x5a5a5a5a, 0x5a5a5a5a, 0x5a5a5a5a]).setGpr 29 0x08804000

/-- What six arguments put in comes out. -/
theorem arguments_round_trip_six :
    extractArguments (injectArguments (fun _ => 0) smallStack sixArguments).1 (types sixArguments) =
      (sixArguments, (injectArguments (fun _ => 0) smallStack sixArguments).1) := by
  refine (arguments_round_trip (fun _ => 0) smallStack sixArguments).2.2.2.2 ?_
    (stackApart_of_le _ (by decide)) (by decide) (by decide)
  have hpointer : Mapped smallStack.mem 4 (.memory, 8) := ⟨0x08804008, by decide, fun _ => by decide⟩
  simp only [sixArguments, List.forall_mem_cons, MappedValue, List.not_mem_nil, false_implies, implies_true, and_true]
  rintro p hp
  obtain rfl := Option.some.inj hp
  exact hpointer

/-- On a stack that is not mapped a word is lost, and the word skipped for the last of the six arguments is counted
but keeps what it was. -/
theorem arguments_differ :
    (extractArguments (injectArguments (fun _ => 0) (smallStack.setGpr 29 0) sixArguments).1
        (types sixArguments)).1 ≠ sixArguments ∧
      stackWordsForArguments (types sixArguments) = 4 ∧
      (loadStackWord (injectArguments (fun _ => 0) smallStack sixArguments).1 1).1 = 0x5a5a5a5a ∧
      .stack 1 ∉ (places {} (types sixArguments)).flatten := by
  refine ⟨fun h => ?_, by decide, by decide, by decide⟩
  have hwords := congrArg (List.map fun arg => passedWords (fun _ => 0) smallStack.mem arg.1 arg.2) h
  revert hwords
  decide

end Psprism.Patch
