import Mathlib.Order.Lattice
import Mathlib.Order.MinMax
import Psprism.Lib.BinarySearch

/-!
# Half-open intervals

A sorted list of intervals `lo ≤ x < hi`: whether two of them overlap shows between neighbours (`overlapping_iff`), a
walk that widens the last one so far merges them without a change to what is covered (`covers_merge`), and where
they lie one behind the other, the only one that can cover a point is the last one that starts up to it
(`locate_iff`).
-/

namespace Intervals

structure Interval (β : Type*) where
  lo : β
  hi : β
deriving DecidableEq, Repr

variable {α β : Type*} [LinearOrder β] {r s : Interval β} {x : β}

namespace Interval

def Covers (r : Interval β) (x : β) : Prop := r.lo ≤ x ∧ x < r.hi

instance (r : Interval β) (x : β) : Decidable (r.Covers x) := inferInstanceAs (Decidable (_ ∧ _))

/-- There is something to cover. -/
def Proper (r : Interval β) : Prop := r.lo < r.hi

/-- No point is in both. -/
def Apart (r s : Interval β) : Prop := ∀ x, ¬ (r.Covers x ∧ s.Covers x)

theorem Apart.symm (h : r.Apart s) : s.Apart r := fun x hx => h x hx.symm

/-- The one that starts first ends before the other one starts. -/
theorem apart_iff (hs : s.Proper) (hle : r.lo ≤ s.lo) : r.Apart s ↔ r.hi ≤ s.lo := by
  constructor
  · intro h
    by_contra hlt
    exact h s.lo ⟨⟨hle, not_le.1 hlt⟩, le_refl _, hs⟩
  · rintro h x ⟨⟨-, hxr⟩, hxs, -⟩
    exact absurd (lt_of_lt_of_le hxr (le_trans h hxs)) (lt_irrefl x)

/-- Two intervals that touch, as one. -/
theorem covers_union (hle : r.lo ≤ s.lo) (htouch : s.lo ≤ r.hi) :
    Covers ⟨r.lo, max r.hi s.hi⟩ x ↔ r.Covers x ∨ s.Covers x := by
  constructor
  · rintro ⟨hlo, hhi⟩
    rcases lt_or_ge x r.hi with hlt | hge
    · exact .inl ⟨hlo, hlt⟩
    · exact .inr ⟨le_trans htouch hge, (lt_max_iff.1 hhi).resolve_left (not_lt.2 hge)⟩
  · rintro (⟨hlo, hhi⟩ | ⟨hlo, hhi⟩)
    · exact ⟨hlo, lt_of_lt_of_le hhi (le_max_left _ _)⟩
    · exact ⟨le_trans hle hlo, lt_of_lt_of_le hhi (le_max_right _ _)⟩

end Interval

open Intervals.Interval

/-! ### Neighbours -/

section
variable {iv : α → Interval β} {l : List α} {a b : α}

/-- Some entry starts before its predecessor ends. -/
def overlapping (iv : α → Interval β) : List α → Bool
  | a :: b :: rest => decide ((iv b).lo < (iv a).hi) || overlapping iv (b :: rest)
  | _ => false

theorem overlapping_iff (hsorted : l.Pairwise fun a b => (iv a).lo ≤ (iv b).lo) (hproper : ∀ a ∈ l, (iv a).Proper) :
    overlapping iv l = false ↔ l.Pairwise fun a b => (iv a).Apart (iv b) := by
  induction l with
  | nil => simp [overlapping]
  | cons a l ih =>
    obtain ⟨ha, hl⟩ := List.pairwise_cons.1 hsorted
    have ih := ih hl fun b hb => hproper b (List.mem_cons_of_mem a hb)
    cases l with
    | nil => simp [overlapping]
    | cons b rest =>
      have hapart {c : α} (hc : c ∈ b :: rest) : (iv a).Apart (iv c) ↔ (iv a).hi ≤ (iv c).lo :=
        apart_iff (hproper c (List.mem_cons_of_mem a hc)) (ha c hc)
      rw [overlapping, Bool.or_eq_false_iff, ih, @List.pairwise_cons _ _ a, decide_eq_false_iff_not, not_lt]
      refine and_congr_left fun _ => Iff.intro (fun hab c hc => ?_) fun h : ∀ c ∈ b :: rest, (iv a).Apart (iv c) =>
        (hapart List.mem_cons_self).1 (h b List.mem_cons_self)
      -- those behind `b` start no earlier than `b`
      rcases List.mem_cons.1 hc with rfl | hrest
      · exact (hapart hc).2 hab
      · exact (hapart hc).2 (le_trans hab ((List.pairwise_cons.1 hl).1 c hrest))

/-! ### One behind the other -/

/-- No entry starts before the one in front of it ends. -/
structure InLine (iv : α → Interval β) (l : List α) : Prop where
  proper : ∀ a ∈ l, (iv a).Proper
  pairwise : l.Pairwise fun a b => (iv a).hi ≤ (iv b).lo

theorem InLine.of_apart (hsorted : l.Pairwise fun a b => (iv a).lo ≤ (iv b).lo) (hproper : ∀ a ∈ l, (iv a).Proper)
    (hapart : l.Pairwise fun a b => (iv a).Apart (iv b)) : InLine iv l := by
  refine ⟨hproper, (hsorted.and hapart).imp_of_mem fun _ hb hab => ?_⟩
  exact (apart_iff (hproper _ hb) hab.1).1 hab.2

theorem InLine.sorted (h : InLine iv l) : l.Pairwise fun a b => (iv a).lo < (iv b).lo :=
  h.pairwise.imp_of_mem fun ha _ hab => lt_of_lt_of_le (h.proper _ ha) hab

/-- The entry before `std::upper_bound` by `lo`. -/
def locate (iv : α → Interval β) (l : List α) (x : β) : Option α :=
  match BinarySearch.search (fun a => decide ((iv a).lo ≤ x)) l with
  | 0 => none
  | k + 1 => l[k]?

theorem locate_eq (h : l.Pairwise fun a b => (iv a).lo ≤ (iv b).lo) :
    locate iv l x = BinarySearch.lastWhere (fun a => decide ((iv a).lo ≤ x)) l := by
  have hsplits := BinarySearch.Splits.of_pairwise (BinarySearch.pairwise_le h x)
  rw [locate, BinarySearch.search_eq hsplits, hsplits.lastWhere_eq]
  cases (l.takeWhile fun a => decide ((iv a).lo ≤ x)).length with
  | zero => rfl
  | succ k => rw [if_neg (Nat.succ_ne_zero k), Nat.add_sub_cancel]

/-- Who covers a point, starts last up to it. -/
theorem locate_iff (h : InLine iv l) : (locate iv l x = some a ∧ x < (iv a).hi) ↔ a ∈ l ∧ (iv a).Covers x := by
  rw [locate_eq (h.sorted.imp fun hab => le_of_lt hab), BinarySearch.lastWhere_eq_some_iff h.sorted]
  constructor
  · rintro ⟨⟨ha, hlo, -⟩, hhi⟩
    exact ⟨ha, hlo, hhi⟩
  · rintro ⟨ha, hlo, hhi⟩
    refine ⟨⟨ha, hlo, fun b hb hbx => ?_⟩, hhi⟩
    -- an entry that starts later starts behind the end of this one
    have hlater : (iv b).lo ≤ (iv a).lo ∨ (iv a).hi ≤ (iv b).lo := by
      refine List.Pairwise.forall_of_forall_of_flip
        (R := fun a b => (iv b).lo ≤ (iv a).lo ∨ (iv a).hi ≤ (iv b).lo) (fun _ _ => .inl (le_refl _))
        (h.pairwise.imp .inr) (h.sorted.imp fun hab => .inl (le_of_lt hab)) ha hb
    rcases hlater with hle | hge
    · exact hle
    · exact absurd (lt_of_lt_of_le hhi (le_trans hge hbx)) (lt_irrefl x)

end

/-! ### Merging -/

section
variable {back : Interval β} {l : List (Interval β)}

/-- The walk, with the last interval so far. -/
def mergeFrom (back : Interval β) : List (Interval β) → List (Interval β)
  | [] => [back]
  | r :: rest => if r.lo ≤ back.hi then mergeFrom ⟨back.lo, max back.hi r.hi⟩ rest else back :: mergeFrom r rest

def merge : List (Interval β) → List (Interval β)
  | [] => []
  | r :: rest => mergeFrom r rest

theorem mergeFrom_of_le {r : Interval β} (h : r.lo ≤ back.hi) (rest : List (Interval β)) :
    mergeFrom back (r :: rest) = mergeFrom ⟨back.lo, max back.hi r.hi⟩ rest := if_pos h

theorem mergeFrom_of_not_le {r : Interval β} (h : ¬ r.lo ≤ back.hi) (rest : List (Interval β)) :
    mergeFrom back (r :: rest) = back :: mergeFrom r rest := if_neg h

theorem covers_mergeFrom (h : (back :: l).Pairwise fun r s => r.lo ≤ s.lo) :
    (∃ r ∈ mergeFrom back l, r.Covers x) ↔ ∃ r ∈ back :: l, r.Covers x := by
  induction l generalizing back with
  | nil => rfl
  | cons s l ih =>
    obtain ⟨hback, hl⟩ := List.pairwise_cons.1 h
    by_cases htouch : s.lo ≤ back.hi
    · rw [mergeFrom_of_le htouch]
      have hwide : (⟨back.lo, max back.hi s.hi⟩ :: l).Pairwise fun r s : Interval β => r.lo ≤ s.lo :=
        List.pairwise_cons.2 ⟨fun t ht => hback t (List.mem_cons_of_mem s ht), (List.pairwise_cons.1 hl).2⟩
      rw [ih hwide]
      simp only [List.mem_cons, or_and_right, exists_or, exists_eq_left,
        covers_union (hback s List.mem_cons_self) htouch, or_assoc]
    · rw [mergeFrom_of_not_le htouch]
      simp only [List.mem_cons, or_and_right, exists_or, exists_eq_left, ih hl]

theorem lo_mergeFrom (h : (back :: l).Pairwise fun r s => r.lo ≤ s.lo) : ∀ r ∈ mergeFrom back l, back.lo ≤ r.lo := by
  induction l generalizing back with
  | nil =>
    intro r hr
    rw [List.mem_singleton.1 hr]
  | cons s l ih =>
    obtain ⟨hback, hl⟩ := List.pairwise_cons.1 h
    by_cases htouch : s.lo ≤ back.hi
    · rw [mergeFrom_of_le htouch]
      exact ih (List.pairwise_cons.2 ⟨fun t ht => hback t (List.mem_cons_of_mem s ht), (List.pairwise_cons.1 hl).2⟩)
    · rw [mergeFrom_of_not_le htouch]
      intro r hr
      rcases List.mem_cons.1 hr with rfl | hr
      · exact le_refl _
      · exact le_trans (hback s List.mem_cons_self) (ih hl r hr)

theorem inLine_mergeFrom (h : (back :: l).Pairwise fun r s => r.lo ≤ s.lo) (hproper : ∀ r ∈ back :: l, r.Proper) :
    InLine id (mergeFrom back l) := by
  induction l generalizing back with
  | nil => exact ⟨hproper, List.pairwise_singleton _ _⟩
  | cons s l ih =>
    obtain ⟨hback, hl⟩ := List.pairwise_cons.1 h
    have hpback := hproper back List.mem_cons_self
    by_cases htouch : s.lo ≤ back.hi
    · rw [mergeFrom_of_le htouch]
      refine ih (List.pairwise_cons.2 ⟨fun t ht => hback t (List.mem_cons_of_mem s ht), (List.pairwise_cons.1 hl).2⟩) ?_
      intro t ht
      rcases List.mem_cons.1 ht with rfl | ht
      · exact lt_of_lt_of_le hpback (le_max_left _ _)
      · exact hproper t (List.mem_cons_of_mem _ (List.mem_cons_of_mem _ ht))
    · rw [mergeFrom_of_not_le htouch]
      have hrest := ih hl fun t ht => hproper t (List.mem_cons_of_mem back ht)
      refine ⟨fun t ht => ?_, List.pairwise_cons.2 ⟨fun t ht => ?_, hrest.pairwise⟩⟩
      · rcases List.mem_cons.1 ht with rfl | ht
        · exact hpback
        · exact hrest.proper t ht
      · exact le_trans (le_of_lt (not_le.1 htouch)) (lo_mergeFrom hl t ht)

theorem covers_merge (h : l.Pairwise fun r s => r.lo ≤ s.lo) : (∃ r ∈ merge l, r.Covers x) ↔ ∃ r ∈ l, r.Covers x := by
  cases l with
  | nil => rfl
  | cons r l => exact covers_mergeFrom h

theorem inLine_merge (h : l.Pairwise fun r s => r.lo ≤ s.lo) (hproper : ∀ r ∈ l, r.Proper) : InLine id (merge l) := by
  cases l with
  | nil => exact ⟨hproper, List.Pairwise.nil⟩
  | cons r l => exact inLine_mergeFrom h hproper

end

end Intervals
