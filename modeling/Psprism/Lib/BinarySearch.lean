import Mathlib.Data.List.Induction
import Mathlib.Order.Lattice

/-!
# Binary search

A test that holds for a first part of a list and for nothing behind it splits the list, and halving a window finds
where (`loop_eq`). In a list sorted by a key the tests `key ≤ x` split it, and the entry before the split is the one
with the greatest key up to `x` (`lastWhere_eq_some_iff`), which is also what a scan of the whole list finds.
-/

namespace BinarySearch

variable {α β : Type*} {p : α → Bool} {l : List α} {k : Nat}

/-- The test holds for the first `k` entries and for no other. -/
structure Splits (p : α → Bool) (l : List α) (k : Nat) : Prop where
  le : k ≤ l.length
  iff : ∀ i (hi : i < l.length), p l[i] = true ↔ i < k

/-- The loop over the window from `first` to `last`. -/
def loop (p : α → Bool) (l : List α) (first last : Nat) : Nat :=
  if first < last then
    let middle := first + (last - first) / 2
    if (l[middle]?).any p then loop p l (middle + 1) last else loop p l first middle
  else first
termination_by last - first

/-- Where the test starts to fail. -/
def search (p : α → Bool) (l : List α) : Nat := loop p l 0 l.length

/-- A scan that keeps the last entry that passes. -/
def lastWhere (p : α → Bool) (l : List α) : Option α := l.foldl (fun last a => if p a then some a else last) none

theorem loop_eq (h : Splits p l k) {first last : Nat} (hfirst : first ≤ k) (hk : k ≤ last) (hlast : last ≤ l.length) :
    loop p l first last = k := by
  fun_induction loop p l first last with
  | case1 first last hlt middle hmiddle ih =>
    have hin : middle < l.length := by omega
    rw [List.getElem?_eq_getElem hin, Option.any_some, h.iff middle hin] at hmiddle
    exact ih hmiddle hk hlast
  | case2 first last hlt middle hmiddle ih =>
    have hin : middle < l.length := by omega
    rw [List.getElem?_eq_getElem hin, Option.any_some, h.iff middle hin] at hmiddle
    exact ih hfirst (by omega) (by omega)
  | case3 first last hlt => omega

theorem search_eq (h : Splits p l k) : search p l = k := loop_eq h (Nat.zero_le k) h.le (Nat.le_refl _)

namespace Splits

theorem nil : Splits p [] 0 := ⟨Nat.le_refl 0, fun _ hi => absurd hi (Nat.not_lt_zero _)⟩

theorem cons {a : α} (ha : p a = true) (h : Splits p l k) : Splits p (a :: l) (k + 1) := by
  refine ⟨Nat.succ_le_succ h.le, fun i hi => ?_⟩
  cases i with
  | zero => simp [ha]
  | succ i => simpa using h.iff i (Nat.lt_of_succ_lt_succ hi)

theorem none (h : ∀ a ∈ l, p a = false) : Splits p l 0 :=
  ⟨Nat.zero_le _, fun i hi => by simp [h l[i] (List.getElem_mem hi)]⟩

/-- A test that goes down along the list splits it. -/
theorem of_pairwise (h : l.Pairwise fun a b => p b = true → p a = true) : Splits p l (l.takeWhile p).length := by
  induction l with
  | nil => exact nil
  | cons a l ih =>
    obtain ⟨ha, hl⟩ := List.pairwise_cons.1 h
    by_cases hp : p a = true
    · rw [List.takeWhile_cons_of_pos hp]
      exact (ih hl).cons hp
    · rw [List.takeWhile_cons_of_neg hp]
      refine none fun b hb => ?_
      rcases List.mem_cons.1 hb with rfl | hb
      · exact Bool.eq_false_iff.2 hp
      · exact Bool.eq_false_iff.2 fun hpb => hp (ha b hb hpb)

/-- The entry before the split is the last one that passes. -/
theorem lastWhere_eq (h : Splits p l k) : lastWhere p l = if k = 0 then Option.none else l[k - 1]? := by
  induction l using List.reverseRecOn generalizing k with
  | nil =>
    have hk : k = 0 := Nat.le_zero.1 h.le
    simp [hk, lastWhere]
  | append_singleton l a ih =>
    have hlength := h.le
    rw [List.length_append, List.length_singleton] at hlength
    have hlast : p a = true ↔ l.length < k := by
      have hiff := h.iff l.length (by simp)
      simpa using hiff
    rw [lastWhere, List.foldl_append, List.foldl_cons, List.foldl_nil]
    by_cases hp : p a = true
    · have hk : k = l.length + 1 := by have := hlast.1 hp; omega
      subst hk
      simp [hp]
    · have hk : k ≤ l.length := Nat.not_lt.1 fun hlt => hp (hlast.2 hlt)
      have hsplit : Splits p l k := by
        refine ⟨hk, fun i hi => ?_⟩
        have hiff := h.iff i (by simp; omega)
        rwa [List.getElem_append_left hi] at hiff
      rw [if_neg hp]
      have hrest := ih hsplit
      rw [lastWhere] at hrest
      rw [hrest]
      split_ifs with hzero
      · rfl
      · rw [List.getElem?_append_left (by omega)]

end Splits

/-! ### Sorted keys -/

section
variable [LinearOrder β] {key : α → β} {x : β} {a : α}

theorem lastWhere_mem (h : lastWhere p l = some a) : a ∈ l ∧ p a = true := by
  induction l using List.reverseRecOn with
  | nil => cases h
  | append_singleton l b ih =>
    rw [lastWhere, List.foldl_append, List.foldl_cons, List.foldl_nil] at h
    split_ifs at h with hp
    · obtain rfl := Option.some.inj h
      exact ⟨by simp, hp⟩
    · obtain ⟨hmem, hpa⟩ := ih h
      exact ⟨List.mem_append_left _ hmem, hpa⟩

theorem lastWhere_eq_none_iff : lastWhere p l = none ↔ ∀ a ∈ l, p a = false := by
  induction l using List.reverseRecOn with
  | nil => simp [lastWhere]
  | append_singleton l b ih =>
    rw [lastWhere, List.foldl_append, List.foldl_cons, List.foldl_nil]
    rw [lastWhere] at ih
    by_cases hp : p b = true
    · simp [hp]
    · rw [if_neg hp, ih]
      simp only [List.mem_append, List.mem_singleton, or_imp, forall_and, forall_eq, Bool.eq_false_iff.2 hp, and_true]

/-- The tests of a key against a bound go down along a sorted list. -/
theorem pairwise_le (h : l.Pairwise fun a b => key a ≤ key b) (x : β) :
    l.Pairwise fun a b => decide (key b ≤ x) = true → decide (key a ≤ x) = true :=
  h.imp fun hab hb => decide_eq_true (le_trans hab (of_decide_eq_true hb))

theorem lastWhere_greatest (h : l.Pairwise fun a b => key a ≤ key b)
    (ha : lastWhere (fun a => decide (key a ≤ x)) l = some a) {b : α} (hb : b ∈ l) (hx : key b ≤ x) :
    key b ≤ key a := by
  induction l using List.reverseRecOn with
  | nil => cases hb
  | append_singleton l c ih =>
    obtain ⟨hl, -, hc⟩ := List.pairwise_append.1 h
    rw [lastWhere, List.foldl_append, List.foldl_cons, List.foldl_nil] at ha
    split_ifs at ha with hp
    · obtain rfl := Option.some.inj ha
      rcases List.mem_append.1 hb with hb | hb
      · exact hc b hb _ (List.mem_singleton_self _)
      · rw [List.mem_singleton.1 hb]
    · rcases List.mem_append.1 hb with hb | hb
      · exact ih hl ha hb
      · rw [List.mem_singleton.1 hb] at hx
        exact absurd (decide_eq_true hx) hp

/-- Entries of a strictly sorted list with one key are one entry. -/
theorem eq_of_key (h : l.Pairwise fun a b => key a < key b) {b : α} (ha : a ∈ l) (hb : b ∈ l) (hkey : key a = key b) :
    a = b := by
  refine List.Pairwise.forall_of_forall_of_flip (R := fun a b => key a = key b → a = b) (fun _ _ _ => rfl)
    (h.imp fun hlt heq => ?_) (h.imp fun hlt heq => ?_) ha hb hkey
  · exact absurd heq (ne_of_lt hlt)
  · exact absurd heq (ne_of_gt hlt)

/-- In a list of distinct sorted keys the scan finds the greatest key up to the bound. -/
theorem lastWhere_eq_some_iff (h : l.Pairwise fun a b => key a < key b) :
    lastWhere (fun a => decide (key a ≤ x)) l = some a ↔
      a ∈ l ∧ key a ≤ x ∧ ∀ b ∈ l, key b ≤ x → key b ≤ key a := by
  have hle : l.Pairwise fun a b => key a ≤ key b := h.imp fun hab => le_of_lt hab
  constructor
  · intro ha
    obtain ⟨hmem, hx⟩ := lastWhere_mem ha
    exact ⟨hmem, of_decide_eq_true hx, fun b => lastWhere_greatest hle ha⟩
  · rintro ⟨hmem, hx, hgreatest⟩
    cases hlast : lastWhere (fun a => decide (key a ≤ x)) l with
    | none =>
      have hfail := lastWhere_eq_none_iff.1 hlast a hmem
      exact absurd hx (of_decide_eq_false hfail)
    | some b =>
      obtain ⟨hb, hbx⟩ := lastWhere_mem hlast
      have hkey : key a = key b :=
        le_antisymm (lastWhere_greatest hle hlast hmem hx) (hgreatest b hb (of_decide_eq_true hbx))
      rw [eq_of_key h hmem hb hkey]

/-- Distinct numbers in order leave no room before them. -/
theorem index_le_key {key : α → Nat} (h : l.Pairwise fun a b => key a < key b) (i : Nat) (hi : i < l.length) :
    i ≤ key l[i] := by
  induction i with
  | zero => exact Nat.zero_le _
  | succ i ih =>
    have hlt := List.pairwise_iff_getElem.1 h i (i + 1) (by omega) hi (Nat.lt_succ_self i)
    have := ih (by omega)
    omega

end

end BinarySearch
