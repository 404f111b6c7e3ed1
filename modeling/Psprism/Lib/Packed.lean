import Mathlib.Data.List.Perm.Lattice
import Mathlib.Data.Set.Card
import Mathlib.Order.CompletePartialOrder
import Mathlib.Order.Interval.Set.Disjoint

/-!
# Packed sets

The parts of a list are packed in a whole when they are pairwise disjoint subsets of it, and they tile
it when they also cover it. Both survive reordering, cutting a part in two and joining two parts, which
is what an allocator does to its blocks.
-/

variable {α : Type*}

structure Packed (whole : Set α) (parts : List (Set α)) : Prop where
  disjoint : parts.Pairwise Disjoint
  inside : ∀ p ∈ parts, p ⊆ whole

structure Tiles (whole : Set α) (parts : List (Set α)) : Prop extends Packed whole parts where
  covers : ∀ x ∈ whole, ∃ p ∈ parts, x ∈ p

namespace Packed
variable {whole p q r : Set α} {parts parts' : List (Set α)}

theorem perm (h : Packed whole parts) (hp : parts.Perm parts') : Packed whole parts' :=
  ⟨h.disjoint.perm hp fun h => h.symm, fun p hp' => h.inside p (hp.mem_iff.2 hp')⟩

theorem cons_iff :
    Packed whole (p :: parts) ↔ p ⊆ whole ∧ (∀ q ∈ parts, Disjoint p q) ∧ Packed whole parts := by
  constructor
  · intro h
    have hd := List.pairwise_cons.1 h.disjoint
    exact ⟨h.inside p (by simp), hd.1, hd.2, fun q hq => h.inside q (by simp [hq])⟩
  · rintro ⟨hp, hd, h⟩
    refine ⟨List.pairwise_cons.2 ⟨hd, h.disjoint⟩, ?_⟩
    intro q hq
    rcases List.mem_cons.1 hq with rfl | hq
    · exact hp
    · exact h.inside q hq

theorem tail (h : Packed whole (p :: parts)) : Packed whole parts := (cons_iff.1 h).2.2

theorem empty_cons (h : Packed whole parts) : Packed whole (∅ :: parts) :=
  cons_iff.2 ⟨Set.empty_subset whole, fun q _ => Set.empty_disjoint q, h⟩

theorem shrink (h : Packed whole (p :: parts)) (hq : q ⊆ p) : Packed whole (q :: parts) := by
  obtain ⟨hp, hd, h⟩ := cons_iff.1 h
  exact cons_iff.2 ⟨hq.trans hp, fun r hr => (hd r hr).mono_left hq, h⟩

theorem split (h : Packed whole (p :: parts)) (hq : q ⊆ p) (hr : r ⊆ p) (hqr : Disjoint q r) :
    Packed whole (q :: r :: parts) := by
  obtain ⟨hp, hd, hparts⟩ := cons_iff.1 h
  refine cons_iff.2 ⟨hq.trans hp, ?_, h.shrink hr⟩
  intro t ht
  rcases List.mem_cons.1 ht with rfl | ht
  · exact hqr
  · exact (hd t ht).mono_left hq

theorem join (h : Packed whole (p :: q :: parts)) (hr : r ⊆ p ∪ q) : Packed whole (r :: parts) := by
  obtain ⟨hp, hdp, h⟩ := cons_iff.1 h
  obtain ⟨hq, hdq, h⟩ := cons_iff.1 h
  refine cons_iff.2 ⟨hr.trans (Set.union_subset hp hq), fun t ht => ?_, h⟩
  exact (Set.disjoint_union_left.2 ⟨hdp t (by simp [ht]), hdq t ht⟩).mono_left hr

/-- What is packed in a finite whole is not larger. -/
theorem sum_ncard_le (h : Packed whole parts) (hfinite : whole.Finite) :
    (parts.map Set.ncard).sum ≤ whole.ncard := by
  induction parts generalizing whole with
  | nil => exact Nat.zero_le _
  | cons p parts ih =>
    obtain ⟨hp, hdisjoint, htail⟩ := cons_iff.1 h
    have hrest : Packed (whole \ p) parts :=
      ⟨htail.disjoint, fun q hq => Set.subset_sdiff.2 ⟨htail.inside q hq, (hdisjoint q hq).symm⟩⟩
    have hle := ih hrest hfinite.sdiff
    have hcard := Set.ncard_sdiff_add_ncard_of_subset hp hfinite
    rw [List.map_cons, List.sum_cons]
    omega

theorem sublist (h : Packed whole parts) (hs : parts'.Sublist parts) : Packed whole parts' :=
  ⟨h.disjoint.sublist hs, fun p hp => h.inside p (hs.mem hp)⟩

end Packed

namespace Tiles
variable {whole p q r : Set α} {parts parts' : List (Set α)}

theorem perm (h : Tiles whole parts) (hp : parts.Perm parts') : Tiles whole parts' :=
  ⟨h.toPacked.perm hp, fun x hx => let ⟨p, hp', hxp⟩ := h.covers x hx; ⟨p, hp.mem_iff.1 hp', hxp⟩⟩

theorem single : Tiles whole [whole] :=
  ⟨⟨List.pairwise_singleton _ _, fun p hp => by rw [List.mem_singleton.1 hp]⟩,
    fun x hx => ⟨whole, List.mem_singleton_self _, hx⟩⟩

theorem split (h : Tiles whole (p :: parts)) (hqr : Disjoint q r) (hp : q ∪ r = p) :
    Tiles whole (q :: r :: parts) := by
  subst hp
  refine ⟨h.toPacked.split Set.subset_union_left Set.subset_union_right hqr, ?_⟩
  intro x hx
  obtain ⟨t, ht, hxt⟩ := h.covers x hx
  rcases List.mem_cons.1 ht with rfl | ht
  · rcases hxt with hxq | hxr
    · exact ⟨q, by simp, hxq⟩
    · exact ⟨r, by simp, hxr⟩
  · exact ⟨t, by simp [ht], hxt⟩

theorem join (h : Tiles whole (p :: q :: parts)) : Tiles whole ((p ∪ q) :: parts) := by
  refine ⟨h.toPacked.join subset_rfl, ?_⟩
  intro x hx
  obtain ⟨t, ht, hxt⟩ := h.covers x hx
  rcases List.mem_cons.1 ht with rfl | ht
  · exact ⟨t ∪ q, by simp, .inl hxt⟩
  rcases List.mem_cons.1 ht with rfl | ht
  · exact ⟨p ∪ t, by simp, .inr hxt⟩
  · exact ⟨t, by simp [ht], hxt⟩

theorem of_empty_cons (h : Tiles whole (∅ :: parts)) : Tiles whole parts := by
  refine ⟨h.toPacked.tail, fun x hx => ?_⟩
  obtain ⟨t, ht, hxt⟩ := h.covers x hx
  rcases List.mem_cons.1 ht with rfl | ht
  · exact absurd hxt (Set.notMem_empty x)
  · exact ⟨t, ht, hxt⟩

end Tiles

/-- A property of lists of sets that does not depend on the order and that joining two parts keeps. -/
structure JoinStable (motive : List (Set α) → Prop) : Prop where
  perm : ∀ {parts parts'}, motive parts → parts.Perm parts' → motive parts'
  join : ∀ {p q parts}, motive (p :: q :: parts) → motive ((p ∪ q) :: parts)

theorem Packed.joinStable (whole : Set α) : JoinStable (Packed whole) :=
  ⟨fun h => h.perm, fun h => h.join subset_rfl⟩

theorem Tiles.joinStable (whole : Set α) : JoinStable (Tiles whole) :=
  ⟨fun h => h.perm, fun h => h.join⟩
