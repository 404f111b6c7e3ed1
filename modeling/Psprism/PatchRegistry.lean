import Mathlib.Data.List.Pairwise
import Mathlib.Data.List.Perm.Basic
import Psprism.State

/-!
# The patch registry (`include/psprecomp/patch.hpp`)

A patch is registered for an address, or for the name of a function; a name `FUN_` with up to eight hexadecimal
digits stands for an address, too. `find_patch` takes the first patch of the list that matches a pc by its address,
and if there is none the first that matches by its name. `validate_registry` compares the patches in pairs, but
cannot know which symbol a function has: a patch for the symbol and one for the address may both be accepted
(`Patch.findPatch_order_iff`).
-/

namespace Psprism.Patch

inductive AddressKind
  | automatic | imageOffset | absolute
deriving DecidableEq

structure GuestAddress where
  value : Word := 0
  kind : AddressKind := .automatic
deriving DecidableEq

/-- A node of the list of patches; `address` is where it lies in the host's memory. -/
structure PatchNode (η : Type) where
  address : Nat
  target : GuestAddress := {}
  targetName : Option String := none
  hookName : String := ""
  hook : Option η := none

def addAddress (left right : Word) : Option Word := if right > 0xffffffff - left then none else some (left + right)

def resolveAddress (s : State) (a : GuestAddress) : Option Word :=
  match a.kind with
  | .absolute => some a.value
  | .imageOffset => addAddress s.memoryBase a.value
  | .automatic => if a.value ≥ 0x04000000 then some a.value else addAddress s.memoryBase a.value

def hexDigit (c : Char) : Option Word :=
  if '0' ≤ c ∧ c ≤ '9' then some (BitVec.ofNat 32 (c.toNat - '0'.toNat))
  else if 'a' ≤ c ∧ c ≤ 'f' then some (BitVec.ofNat 32 (c.toNat - 'a'.toNat + 10))
  else if 'A' ≤ c ∧ c ≤ 'F' then some (BitVec.ofNat 32 (c.toNat - 'A'.toNat + 10))
  else none

/-- The loop over at most `n` more digits. -/
def hexDigits (value : Word) : Nat → List Char → Option Word
  | _, [] => some value
  | 0, _ :: _ => none
  | n + 1, c :: rest =>
    match hexDigit c with
    | none => none
    | some digit => hexDigits (value <<< 4 ||| digit) n rest

def parseGhidraFunctionName (name : String) : Option Word :=
  match name.toList with
  | 'F' :: 'U' :: 'N' :: '_' :: c :: rest => hexDigits 0 8 (c :: rest)
  | _ => none

variable {η : Type}

/-- Both addresses are there, and the same one up to the aliases of the RAM. -/
def SameTarget (a : Option Word) (b : Word) : Prop := a.map canonicalAddress = some (canonicalAddress b)

instance (a : Option Word) (b : Word) : Decidable (SameTarget a b) := inferInstanceAs (Decidable (_ = _))

def addressMatches (s : State) (currentPc : Word) (p : PatchNode η) : Bool :=
  p.targetName = none ∧ SameTarget (resolveAddress s p.target) currentPc

/-- The address that a name stands for. -/
def ghidraAddress (s : State) (p : PatchNode η) : Option Word :=
  (p.targetName.bind parseGhidraFunctionName).bind fun value => resolveAddress s { value }

def nameMatches (s : State) (currentPc : Word) (functionName : Option String) (p : PatchNode η) : Bool :=
  p.targetName ≠ none ∧ (p.targetName = functionName ∨ SameTarget (ghidraAddress s p) currentPc)

/-- `find_patch`, of the patches in the order of the list. -/
def findPatch (patches : List (PatchNode η)) (bypassed : Option Nat) (s : State) (currentPc : Word)
    (functionName : Option String) : Option (PatchNode η) :=
  (patches.find? fun p => some p.address ≠ bypassed ∧ addressMatches s currentPc p).or
    (patches.find? fun p => some p.address ≠ bypassed ∧ nameMatches s currentPc functionName p)

/-! ### `validate_registry` -/

/-- The checks of two patches without a state. -/
def sameKey (left right : PatchNode η) : Bool :=
  (left.targetName ≠ none ∧ left.targetName = right.targetName) ∨
    (left.targetName = none ∧ right.targetName = none ∧ left.target = right.target)

def resolvedPatchTarget (s : State) (p : PatchNode η) : Option Word :=
  if p.targetName = none then resolveAddress s p.target else ghidraAddress s p

def sameResolvedTarget (s : State) (left right : PatchNode η) : Bool :=
  match resolvedPatchTarget s right with
  | none => false
  | some target => SameTarget (resolvedPatchTarget s left) target

/-- The loop over all pairs, each patch with those behind it. -/
def allPairs (clash : PatchNode η → PatchNode η → Bool) : List (PatchNode η) → Bool
  | [] => true
  | left :: rest => rest.all (fun right => !clash left right) && allPairs clash rest

def validateRegistry (s : State) (patches : List (PatchNode η)) : Bool :=
  patches.all (fun p => p.hook.isSome ∧ p.targetName ≠ some "") && allPairs sameKey patches &&
    allPairs (sameResolvedTarget s) patches

/-! ### Patches that match alone -/

theorem find?_eq_of_perm {α : Type} {l l' : List α} {p : α → Bool} (hperm : l'.Perm l)
    (h : ∀ a ∈ l, ∀ b ∈ l, p a = true → p b = true → a = b) : l'.find? p = l.find? p := by
  cases hl : l.find? p with
  | none =>
    rw [List.find?_eq_none] at hl ⊢
    exact fun a ha => hl a (hperm.mem_iff.1 ha)
  | some a =>
    have ha := List.mem_of_find?_eq_some hl
    have hpa := List.find?_some hl
    cases hl' : l'.find? p with
    | none =>
      rw [List.find?_eq_none] at hl'
      exact absurd hpa (hl' a (hperm.mem_iff.2 ha))
    | some b =>
      have hb := hperm.mem_iff.1 (List.mem_of_find?_eq_some hl')
      rw [h b hb a ha (List.find?_some hl') hpa]

theorem allPairs_pairwise {clash : PatchNode η → PatchNode η → Bool} {l : List (PatchNode η)}
    (h : allPairs clash l = true) : l.Pairwise fun p q => clash p q = false := by
  induction l with
  | nil => exact List.Pairwise.nil
  | cons p rest ih =>
    rw [allPairs, Bool.and_eq_true] at h
    refine List.pairwise_cons.2 ⟨fun q hq => ?_, ih h.2⟩
    simpa using List.all_eq_true.1 h.1 q hq

/-- Two patches that clash, in either order, are one. -/
theorem eq_of_allPairs {clash : PatchNode η → PatchNode η → Bool} {l : List (PatchNode η)}
    (h : allPairs clash l = true) {p q : PatchNode η} (hp : p ∈ l) (hq : q ∈ l) (hpq : clash p q = true)
    (hqp : clash q p = true) : p = q := by
  by_contra hne
  have hpairs : l.Pairwise fun p q => clash p q = false ∨ clash q p = false := (allPairs_pairwise h).imp Or.inl
  have hsymm : Std.Symm fun p q => clash p q = false ∨ clash q p = false := ⟨fun _ _ h => h.symm⟩
  rcases hpairs.forall hp hq hne with hclash | hclash
  · rw [hpq] at hclash
    cases hclash
  · rw [hqp] at hclash
    cases hclash

section
variable {s : State} {patches : List (PatchNode η)} {currentPc : Word} {p q : PatchNode η}

theorem sameResolvedTarget_of (hp : SameTarget (resolvedPatchTarget s p) currentPc)
    (hq : SameTarget (resolvedPatchTarget s q) currentPc) : sameResolvedTarget s p q = true := by
  rw [sameResolvedTarget]
  cases hright : resolvedPatchTarget s q with
  | none =>
    rw [SameTarget, hright] at hq
    cases hq
  | some target =>
    rw [SameTarget, hright] at hq
    exact decide_eq_true (hp.trans hq.symm)

theorem eq_of_target (hvalid : validateRegistry s patches = true) (hp : p ∈ patches) (hq : q ∈ patches)
    (hpt : SameTarget (resolvedPatchTarget s p) currentPc) (hqt : SameTarget (resolvedPatchTarget s q) currentPc) :
    p = q := by
  rw [validateRegistry, Bool.and_eq_true] at hvalid
  exact eq_of_allPairs hvalid.2 hp hq (sameResolvedTarget_of hpt hqt) (sameResolvedTarget_of hqt hpt)

theorem eq_of_name (hvalid : validateRegistry s patches = true) (hp : p ∈ patches) (hq : q ∈ patches)
    (hsome : p.targetName ≠ none) (hname : p.targetName = q.targetName) : p = q := by
  rw [validateRegistry, Bool.and_eq_true, Bool.and_eq_true] at hvalid
  refine eq_of_allPairs hvalid.1.2 hp hq (decide_eq_true (Or.inl ⟨hsome, hname⟩)) ?_
  exact decide_eq_true (Or.inl ⟨hname ▸ hsome, hname.symm⟩)

theorem addressMatches_target (h : addressMatches s currentPc p = true) :
    SameTarget (resolvedPatchTarget s p) currentPc := by
  obtain ⟨hname, htarget⟩ := of_decide_eq_true h
  rwa [resolvedPatchTarget, if_pos hname]

theorem ghidraAddress_target (hname : p.targetName ≠ none) (h : SameTarget (ghidraAddress s p) currentPc) :
    SameTarget (resolvedPatchTarget s p) currentPc := by
  rwa [resolvedPatchTarget, if_neg hname]

end

/-- No patch matches the pc by its address; one has the symbol as its name, and another one stands for the address
by its name. None of them is bypassed. -/
def Ambiguous (patches : List (PatchNode η)) (bypassed : Option Nat) (s : State) (currentPc : Word)
    (functionName : Option String) : Prop :=
  (∀ p ∈ patches, some p.address ≠ bypassed → addressMatches s currentPc p = false) ∧
    ∃ p ∈ patches, ∃ q ∈ patches, p ≠ q ∧ some p.address ≠ bypassed ∧ some q.address ≠ bypassed ∧
      p.targetName ≠ none ∧ p.targetName = functionName ∧ q.targetName ≠ none ∧
      SameTarget (ghidraAddress s q) currentPc

section
variable {s : State} {patches patches' : List (PatchNode η)} {bypassed : Option Nat} {currentPc : Word}
  {functionName : Option String} {p : PatchNode η}

/-- A patch that matches by its name comes first when it stands first. -/
theorem findPatch_cons (hnone : ∀ q ∈ p :: patches, some q.address ≠ bypassed → addressMatches s currentPc q = false)
    (hp : some p.address ≠ bypassed) (hname : nameMatches s currentPc functionName p = true) :
    findPatch (p :: patches) bypassed s currentPc functionName = some p := by
  have haddress : (p :: patches).find? (fun p => some p.address ≠ bypassed ∧ addressMatches s currentPc p) = none := by
    rw [List.find?_eq_none]
    intro q hq hmatch
    obtain ⟨hfree, hmatch⟩ := of_decide_eq_true hmatch
    rw [hnone q hq hfree] at hmatch
    cases hmatch
  rw [findPatch, haddress, Option.none_or, List.find?_cons_of_pos]
  exact decide_eq_true ⟨hp, hname⟩

theorem findPatch_perm (hvalid : validateRegistry s patches = true) (hperm : patches'.Perm patches)
    (h : ¬ Ambiguous patches bypassed s currentPc functionName) :
    findPatch patches' bypassed s currentPc functionName = findPatch patches bypassed s currentPc functionName := by
  have haddress : patches'.find? (fun p => some p.address ≠ bypassed ∧ addressMatches s currentPc p) =
      patches.find? fun p => some p.address ≠ bypassed ∧ addressMatches s currentPc p := by
    refine find?_eq_of_perm hperm fun p hp q hq hpm hqm => ?_
    exact eq_of_target hvalid hp hq (addressMatches_target (of_decide_eq_true hpm).2)
      (addressMatches_target (of_decide_eq_true hqm).2)
  rw [findPatch, findPatch, haddress]
  cases hfound : patches.find? fun p => some p.address ≠ bypassed ∧ addressMatches s currentPc p with
  | some p => rw [Option.some_or, Option.some_or]
  | none =>
    rw [Option.none_or, Option.none_or]
    have hnone : ∀ p ∈ patches, some p.address ≠ bypassed → addressMatches s currentPc p = false := by
      intro p hp hfree
      rw [List.find?_eq_none] at hfound
      exact Bool.eq_false_of_not_eq_true fun hmatch => hfound p hp (decide_eq_true ⟨hfree, hmatch⟩)
    refine find?_eq_of_perm hperm fun p hp q hq hpm hqm => ?_
    obtain ⟨hpfree, hpm⟩ := of_decide_eq_true hpm
    obtain ⟨hqfree, hqm⟩ := of_decide_eq_true hqm
    obtain ⟨hpsome, hpm⟩ := of_decide_eq_true hpm
    obtain ⟨hqsome, hqm⟩ := of_decide_eq_true hqm
    by_contra hne
    rcases hpm with hpname | hptarget
    · rcases hqm with hqname | hqtarget
      · exact hne (eq_of_name hvalid hp hq hpsome (hpname.trans hqname.symm))
      · exact h ⟨hnone, p, hp, q, hq, hne, hpfree, hqfree, hpsome, hpname, hqsome, hqtarget⟩
    · rcases hqm with hqname | hqtarget
      · exact h ⟨hnone, q, hq, p, hp, Ne.symm hne, hqfree, hpfree, hqsome, hqname, hpsome, hptarget⟩
      · exact hne (eq_of_target hvalid hp hq (ghidraAddress_target hpsome hptarget)
          (ghidraAddress_target hqsome hqtarget))

end

/-- In a registry that was accepted, the patch that is found does not depend on the order of the list, exactly if it
is not ambiguous. -/
theorem findPatch_order_iff (patches : List (PatchNode η)) (s : State) (currentPc : Word)
    (functionName : Option String) (bypassed : Option Nat) (hvalid : validateRegistry s patches = true) :
    (∀ patches', patches'.Perm patches →
      findPatch patches' bypassed s currentPc functionName = findPatch patches bypassed s currentPc functionName) ↔
      ¬ Ambiguous patches bypassed s currentPc functionName := by
  refine ⟨fun h => ?_, fun h patches' hperm => findPatch_perm hvalid hperm h⟩
  rintro ⟨hnone, p, hp, q, hq, hne, hpfree, hqfree, hpsome, hpname, hqsome, hqtarget⟩
  have hfirst : ∀ r ∈ patches, some r.address ≠ bypassed → nameMatches s currentPc functionName r = true →
      findPatch patches bypassed s currentPc functionName = some r := by
    intro r hr hfree hmatch
    obtain ⟨before, behind, rfl⟩ := List.append_of_mem hr
    rw [← h (r :: (before ++ behind)) List.perm_middle.symm]
    exact findPatch_cons (fun x hx => hnone x (List.perm_middle.mem_iff.2 hx)) hfree hmatch
  have hpq := (hfirst p hp hpfree (decide_eq_true ⟨hpsome, Or.inl hpname⟩)).symm.trans
    (hfirst q hq hqfree (decide_eq_true ⟨hqsome, Or.inr hqtarget⟩))
  exact hne (Option.some.inj hpq)

/-- The patch for a function by its symbol, and the one by its address. -/
def symbolPatch : PatchNode Unit := { address := 1, targetName := some "draw_frame", hook := some () }

def ghidraPatch : PatchNode Unit := { address := 2, targetName := some "FUN_08804000", hook := some () }

/-- Both are accepted together, and the one that was registered last is found. -/
theorem findPatch_order_differs :
    (validateRegistry {} [symbolPatch, ghidraPatch] = true ∧ validateRegistry {} [ghidraPatch, symbolPatch] = true) ∧
      (findPatch [symbolPatch, ghidraPatch] none {} 0x08804000 (some "draw_frame")).map (·.address) = some 1 ∧
      (findPatch [ghidraPatch, symbolPatch] none {} 0x08804000 (some "draw_frame")).map (·.address) = some 2 := by
  decide

/-- For a function without a symbol there is no choice. -/
theorem findPatch_order_unnamed :
    findPatch [ghidraPatch, symbolPatch] none {} 0x08804000 none =
      findPatch [symbolPatch, ghidraPatch] none {} 0x08804000 none := by
  refine (findPatch_order_iff [symbolPatch, ghidraPatch] {} 0x08804000 none none (by decide)).2 ?_ _
    (List.Perm.swap ..)
  rintro ⟨-, p, -, q, -, -, -, -, hsome, hnone, -⟩
  exact hsome hnone

end Psprism.Patch
