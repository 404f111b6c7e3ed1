import Mathlib.Data.List.TakeWhile
import Mathlib.Order.Lattice

/-!
# Stable priority queues

A queue is ordered by a key and keeps elements of one key in the order in which they arrived: it is
sorted, and for each key it lists the same elements as the arrivals do. An arrival is placed before the
first element of a larger key (`Stable.place`); the front of the queue is the first arrival of the
least key (`Stable.pop`). With a constant key this is a plain queue.
-/

namespace StableQueue

variable {α κ : Type*} [LinearOrder κ] (key : α → κ)

/-- Before the first element of a larger key. -/
def place (x : α) (queue : List α) : List α :=
  queue.takeWhile (key · ≤ key x) ++ x :: queue.dropWhile (key · ≤ key x)

structure Stable (queue arrivals : List α) : Prop where
  sorted : queue.Pairwise (key · ≤ key ·)
  perm : queue.Perm arrivals
  classes : ∀ k, queue.filter (key · = k) = arrivals.filter (key · = k)

variable {key} {queue arrivals : List α} {x : α}

theorem Stable.nil : Stable key [] [] := ⟨.nil, .refl _, fun _ => rfl⟩

theorem place_of_forall_le (h : ∀ y ∈ queue, key y ≤ key x) : place key x queue = queue ++ [x] := by
  have h : ∀ y ∈ queue, decide (key y ≤ key x) = true := by simpa using h
  rw [place, List.takeWhile_eq_self_iff.2 h, List.dropWhile_eq_nil_iff.2 h]

theorem lt_of_mem_dropWhile (hsorted : queue.Pairwise (key · ≤ key ·)) {y : α}
    (hy : y ∈ queue.dropWhile (key · ≤ key x)) : key x < key y := by
  induction queue with
  | nil => cases hy
  | cons z queue ih =>
    obtain ⟨hz, hsorted⟩ := List.pairwise_cons.1 hsorted
    rw [List.dropWhile_cons] at hy
    split_ifs at hy with hle
    · exact ih hsorted hy
    · have hlt : key x < key z := by simpa using hle
      rcases List.mem_cons.1 hy with rfl | hy
      · exact hlt
      · exact hlt.trans_le (hz y hy)

theorem le_of_mem_takeWhile {y : α} (hy : y ∈ queue.takeWhile (key · ≤ key x)) : key y ≤ key x := by
  simpa using List.mem_takeWhile_imp hy

theorem Stable.place (h : Stable key queue arrivals) (x : α) :
    Stable key (place key x queue) (arrivals ++ [x]) := by
  have hsplit : queue.takeWhile (key · ≤ key x) ++ queue.dropWhile (key · ≤ key x) = queue :=
    List.takeWhile_append_dropWhile
  unfold StableQueue.place
  refine ⟨?_, ?_, fun k => ?_⟩
  · have hsorted := h.sorted
    rw [← hsplit, List.pairwise_append] at hsorted
    refine List.pairwise_append.2 ⟨hsorted.1, List.pairwise_cons.2 ⟨fun y hy => ?_, hsorted.2.1⟩, ?_⟩
    · exact (lt_of_mem_dropWhile h.sorted hy).le
    · intro y hy z hz
      rcases List.mem_cons.1 hz with rfl | hz
      · exact le_of_mem_takeWhile hy
      · exact hsorted.2.2 y hy z hz
  · refine List.perm_middle.trans (List.Perm.trans ?_ (List.perm_append_singleton x arrivals).symm)
    rw [hsplit]
    exact h.perm.cons x
  · rw [List.filter_append, List.filter_append, ← h.classes, ← congrArg (List.filter _) hsplit,
      List.filter_append, List.filter_cons, List.append_assoc]
    congr 1
    by_cases hk : key x = k
    · -- nothing after the place has the key
      have hnone : (queue.dropWhile (key · ≤ key x)).filter (key · = k) = [] := by
        refine List.filter_eq_nil_iff.2 fun y hy => ?_
        have hlt := lt_of_mem_dropWhile h.sorted hy
        rw [hk] at hlt
        simpa using hlt.ne'
      rw [hnone]
      simp [hk]
    · simp [hk]

/-- The front of the queue among the arrivals, and what is left without it. -/
theorem Stable.pop (h : Stable key (x :: queue) arrivals) :
    ∃ before after, arrivals = before ++ x :: after ∧ (∀ y ∈ before, key x < key y) ∧
      (∀ y ∈ after, key x ≤ key y) ∧ Stable key queue (before ++ after) := by
  obtain ⟨hx, hsorted⟩ := List.pairwise_cons.1 h.sorted
  have hclass := (h.classes (key x)).symm
  rw [List.filter_cons_of_pos (by simp)] at hclass
  obtain ⟨before, after, rfl, hbefore, -, -⟩ := List.filter_eq_cons_iff.1 hclass
  have hle : ∀ y ∈ before ++ x :: after, key x ≤ key y := fun y hy => by
    rcases List.mem_cons.1 (h.perm.mem_iff.2 hy) with rfl | hy
    · exact le_rfl
    · exact hx y hy
  refine ⟨before, after, rfl, fun y hy => ?_, fun y hy => hle y (by simp [hy]), hsorted, ?_, fun k => ?_⟩
  · exact lt_of_le_of_ne (hle y (by simp [hy])) (Ne.symm (by simpa using hbefore y hy))
  · exact (List.perm_cons x).1 (h.perm.trans List.perm_middle)
  · have hk := h.classes k
    rw [List.filter_append] at hk ⊢
    by_cases hxk : key x = k
    · have hnil : before.filter (key · = k) = [] := List.filter_eq_nil_iff.2 (hxk ▸ hbefore)
      rw [List.filter_cons_of_pos (by simpa using hxk), List.filter_cons_of_pos (by simpa using hxk), hnil] at hk
      rw [hnil]
      exact List.tail_eq_of_cons_eq hk
    · rwa [List.filter_cons_of_neg (by simpa using hxk), List.filter_cons_of_neg (by simpa using hxk)] at hk

end StableQueue
