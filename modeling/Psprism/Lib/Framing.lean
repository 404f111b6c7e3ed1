import Mathlib.Data.List.Basic
import Mathlib.Data.List.Infix
import Mathlib.Algebra.GroupWithZero.Nat

/-!
# Framing

A stream of symbols is cut into units from the front. A unit is cut only when nothing that may follow can
change it, so the units of a buffer are the first units of every longer one, and it does not
matter at which points the symbols arrived. `Gives xs us ys` says that a buffer `xs` has been worked off as
far as `ys`, with the units `us`.
-/

namespace Framing

variable {α β : Type*}

/-! ### Patterns -/

/-- The first position from which on the symbols match. -/
def search (p : List α → Bool) : List α → Option Nat
  | [] => none
  | x :: xs => if p (x :: xs) then some 0 else (search p xs).map (· + 1)

/-- Matching is decided by the first `window` symbols, of which a match has all but one at least. -/
structure Local (p : List α → Bool) (window : Nat) : Prop where
  mono : ∀ {xs}, p xs = true → ∀ ys, p (xs ++ ys) = true
  long : ∀ {xs}, p xs = true → window ≤ xs.length + 1
  decided : ∀ {xs}, window ≤ xs.length → ∀ ys, p (xs ++ ys) = p xs

section
variable {p : List α → Bool} {window i : Nat} {xs : List α}

theorem search_cons_of_pos {x : α} (h : p (x :: xs) = true) : search p (x :: xs) = some 0 := if_pos h

theorem search_cons_of_neg {x : α} (h : ¬ p (x :: xs) = true) :
    search p (x :: xs) = (search p xs).map (· + 1) := if_neg h

theorem search_some (h : search p xs = some i) : i < xs.length ∧ p (xs.drop i) = true := by
  induction xs generalizing i with
  | nil => cases h
  | cons x xs ih =>
    by_cases hp : p (x :: xs) = true
    · rw [search_cons_of_pos hp] at h
      obtain rfl := Option.some.inj h
      exact ⟨Nat.zero_lt_succ _, hp⟩
    · rw [search_cons_of_neg hp, Option.map_eq_some_iff] at h
      obtain ⟨j, hj, rfl⟩ := h
      obtain ⟨hlt, hmatch⟩ := ih hj
      exact ⟨Nat.succ_lt_succ hlt, hmatch⟩

/-- A position found stays the first one when more symbols arrive. -/
theorem search_append (hp : Local p window) (h : search p xs = some i) (ys : List α) :
    search p (xs ++ ys) = some i := by
  induction xs generalizing i with
  | nil => cases h
  | cons x xs ih =>
    rw [List.cons_append]
    by_cases hx : p (x :: xs) = true
    · rw [search_cons_of_pos hx] at h
      have hpos : p (x :: (xs ++ ys)) = true := hp.mono hx ys
      rw [search_cons_of_pos hpos, h]
    · rw [search_cons_of_neg hx, Option.map_eq_some_iff] at h
      obtain ⟨j, hj, rfl⟩ := h
      obtain ⟨hlt, hmatch⟩ := search_some hj
      -- the match further on is long enough for this position to be decided already
      have hlong : window ≤ (x :: xs).length := by
        have := hp.long hmatch
        rw [List.length_drop] at this
        rw [List.length_cons]
        omega
      have hneg : ¬ p (x :: (xs ++ ys)) = true := by
        rw [← List.cons_append, hp.decided hlong]
        exact hx
      rw [search_cons_of_neg hneg, ih hj]
      rfl

/-- Where nothing matched among symbols that decide it, nothing matches later. -/
theorem search_skip (hp : Local p window) {ys : List α} (h : search p (xs ++ ys) = none)
    (hys : window ≤ ys.length + 1) (zs : List α) :
    search p (xs ++ (ys ++ zs)) = (search p (ys ++ zs)).map (· + xs.length) := by
  induction xs with
  | nil => exact Option.map_id'.symm
  | cons x xs ih =>
    rw [List.cons_append] at h ⊢
    have hx : ¬ p (x :: (xs ++ ys)) = true := by
      intro hx
      rw [search_cons_of_pos hx] at h
      cases h
    rw [search_cons_of_neg hx, Option.map_eq_none_iff] at h
    have hlong : window ≤ (x :: (xs ++ ys)).length := by
      rw [List.length_cons, List.length_append]
      omega
    have hneg : ¬ p (x :: (xs ++ (ys ++ zs))) = true := by
      rw [← List.append_assoc, ← List.cons_append, hp.decided hlong]
      exact hx
    rw [search_cons_of_neg hneg, ih h, Option.map_map]
    congr 1

theorem search_drop (h : search p xs = some i) : search p (xs.drop i) = some 0 := by
  obtain ⟨hlt, hmatch⟩ := search_some h
  rw [List.drop_eq_getElem_cons hlt] at hmatch ⊢
  exact search_cons_of_pos hmatch

/-- One turn of the loop over the positions. -/
theorem search_drop_eq (h : i < xs.length) : search p (xs.drop i) =
    if p (xs.drop i) then some 0 else (search p (xs.drop (i + 1))).map (· + 1) := by
  rw [List.drop_eq_getElem_cons h]
  rfl

/-- Nothing matches among symbols that are fewer than any match has. -/
theorem search_eq_none_of_short {n : Nat} (hp : ∀ ys, p ys = true → n ≤ ys.length) (h : xs.length < n) :
    search p xs = none := by
  cases hs : search p xs with
  | none => rfl
  | some i =>
    have hlong := hp _ (search_some hs).2
    rw [List.length_drop] at hlong
    omega

end

end Framing

/-! ### Units -/

/-- How the first unit is cut from a buffer, if it is complete, and what is left. -/
structure Framing (α β : Type*) where
  next : List α → Option (β × List α)
  shorter : ∀ {xs u rest}, next xs = some (u, rest) → rest.length < xs.length
  stable : ∀ {xs u rest}, next xs = some (u, rest) → ∀ ys, next (xs ++ ys) = some (u, rest ++ ys)

namespace Framing

variable {α β : Type*} (F : Framing α β)

/-- The units that are complete, and what is left after the last of them. -/
def split (xs : List α) : List β × List α :=
  match _h : F.next xs with
  | none => ([], xs)
  | some (u, rest) => (u :: (split rest).1, (split rest).2)
termination_by xs.length
decreasing_by all_goals exact F.shorter _h

def units (xs : List α) : List β := (F.split xs).1
def rest (xs : List α) : List α := (F.split xs).2

variable {F} {xs ys zs : List α} {u : β} {us vs : List β}

theorem split_of_none (h : F.next xs = none) : F.split xs = ([], xs) := by
  rw [split]
  split
  · rfl
  · next heq => rw [h] at heq; cases heq

theorem split_of_some (h : F.next xs = some (u, ys)) : F.split xs = (u :: F.units ys, F.rest ys) := by
  rw [split]
  split
  · next heq => rw [h] at heq; cases heq
  · next heq =>
    rw [h] at heq
    obtain ⟨rfl, rfl⟩ := Prod.mk.inj (Option.some.inj heq)
    rfl

theorem units_of_none (h : F.next xs = none) : F.units xs = [] := by rw [units, split_of_none h]
theorem rest_of_none (h : F.next xs = none) : F.rest xs = xs := by rw [rest, split_of_none h]

theorem units_of_some (h : F.next xs = some (u, ys)) : F.units xs = u :: F.units ys := by
  rw [units, split_of_some h]

theorem rest_of_some (h : F.next xs = some (u, ys)) : F.rest xs = F.rest ys := by
  rw [rest, split_of_some h]

theorem units_congr (h : F.next xs = F.next ys) : F.units xs = F.units ys := by
  cases hy : F.next ys with
  | none => rw [units_of_none hy, units_of_none (h.trans hy)]
  | some cut =>
    obtain ⟨u, zs⟩ := cut
    rw [units_of_some hy, units_of_some (h.trans hy)]

/-- Whatever follows, `us` are the first units of `xs`, and then come those of `ys`. -/
def Gives (F : Framing α β) (xs : List α) (us : List β) (ys : List α) : Prop :=
  ∀ zs, F.units (xs ++ zs) = us ++ F.units (ys ++ zs)

namespace Gives

theorem refl (F : Framing α β) (xs : List α) : F.Gives xs [] xs := fun _ => rfl

theorem trans (h : F.Gives xs us ys) (h' : F.Gives ys vs zs) : F.Gives xs (us ++ vs) zs := by
  intro ws
  rw [h ws, h' ws, List.append_assoc]

theorem append (h : F.Gives xs us ys) (ws : List α) : F.Gives (xs ++ ws) us (ys ++ ws) := by
  intro zs
  rw [List.append_assoc, List.append_assoc]
  exact h _

theorem of_next (h : F.next xs = some (u, ys)) : F.Gives xs [u] ys := by
  intro zs
  rw [units_of_some (F.stable h zs)]
  rfl

theorem cons (h : F.next xs = some (u, ys)) (h' : F.Gives ys us zs) : F.Gives xs (u :: us) zs :=
  (of_next h).trans h'

/-- Symbols that no unit can come to hold may be dropped. -/
theorem of_next_eq (h : ∀ zs, F.next (xs ++ zs) = F.next (ys ++ zs)) : F.Gives xs [] ys :=
  fun zs => units_congr (h zs)

theorem units_eq (h : F.Gives xs us ys) : F.units xs = us ++ F.units ys := by
  have := h []
  rwa [List.append_nil, List.append_nil] at this

end Gives

/-! ### A bounded number of units -/

/-- Cuts up to `n` units. -/
def take (F : Framing α β) : Nat → List α → List β × List α
  | 0, xs => ([], xs)
  | n + 1, xs =>
    match F.next xs with
    | none => ([], xs)
    | some (u, rest) => (u :: (F.take n rest).1, (F.take n rest).2)

variable {n : Nat}

theorem take_succ_of_none (h : F.next xs = none) : F.take (n + 1) xs = ([], xs) := by rw [take, h]

theorem take_succ_of_some (h : F.next xs = some (u, ys)) :
    F.take (n + 1) xs = (u :: (F.take n ys).1, (F.take n ys).2) := by rw [take, h]

theorem gives_take (F : Framing α β) (n : Nat) (xs : List α) :
    F.Gives xs (F.take n xs).1 (F.take n xs).2 := by
  induction n generalizing xs with
  | zero => exact Gives.refl F xs
  | succ n ih =>
    cases h : F.next xs with
    | none =>
      rw [take_succ_of_none h]
      exact Gives.refl F xs
    | some cut =>
      obtain ⟨u, ys⟩ := cut
      rw [take_succ_of_some h]
      exact (ih ys).cons h

theorem rest_take (F : Framing α β) (n : Nat) (xs : List α) : F.rest (F.take n xs).2 = F.rest xs := by
  induction n generalizing xs with
  | zero => rfl
  | succ n ih =>
    cases h : F.next xs with
    | none => rw [take_succ_of_none h]
    | some cut =>
      obtain ⟨u, ys⟩ := cut
      rw [take_succ_of_some h, rest_of_some h]
      exact ih ys

/-- Fewer units than asked for are cut only where no more are complete. -/
theorem next_take (F : Framing α β) (xs : List α) (h : (F.take n xs).1.length < n) :
    F.next (F.take n xs).2 = none := by
  induction n generalizing xs with
  | zero => cases h
  | succ n ih =>
    cases hn : F.next xs with
    | none =>
      rw [take_succ_of_none hn]
      exact hn
    | some cut =>
      obtain ⟨u, ys⟩ := cut
      rw [take_succ_of_some hn] at h ⊢
      exact ih ys (Nat.lt_of_succ_lt_succ h)

/-- Units that are no larger than the symbols they are cut from leave room for the rest. -/
theorem take_size (F : Framing α β) {size : β → Nat}
    (hsize : ∀ {xs u rest}, F.next xs = some (u, rest) → size u + rest.length ≤ xs.length) (n : Nat) (xs : List α) :
    ((F.take n xs).1.map size).sum + (F.take n xs).2.length ≤ xs.length := by
  induction n generalizing xs with
  | zero => exact Nat.le_of_eq (Nat.zero_add _)
  | succ n ih =>
    cases h : F.next xs with
    | none =>
      rw [take_succ_of_none h]
      exact Nat.le_of_eq (Nat.zero_add _)
    | some cut =>
      obtain ⟨u, ys⟩ := cut
      rw [take_succ_of_some h, List.map_cons, List.sum_cons, Nat.add_assoc]
      exact (Nat.add_le_add_left (ih ys) (size u)).trans (hsize h)

end Framing
