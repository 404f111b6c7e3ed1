import Mathlib.Data.List.Basic

/-!
# Rings

A ring of `cap` slots holds a list from a position on: its elements are in consecutive slots, counted
modulo `cap`. A list is extended at its end by writing behind it, as long as the whole fits (`Holds.write`),
and cut at its front by moving the position (`Holds.drop`).
-/

namespace Ring

variable {α : Type*} {cap base base' k : Nat} {slots slots' : Nat → α} {l l' : List α}

def Holds (cap : Nat) (slots : Nat → α) (base : Nat) (l : List α) : Prop :=
  ∀ i (h : i < l.length), slots ((base + i) % cap) = l[i]

theorem Holds.nil : Holds cap slots base [] := fun _ h => absurd h (Nat.not_lt_zero _)

theorem Holds.congr (h : Holds cap slots base l) (hbase : base' % cap = base % cap) :
    Holds cap slots base' l := by
  intro i hi
  rw [Nat.add_mod, hbase, ← Nat.add_mod]
  exact h i hi

theorem Holds.append (h : Holds cap slots base l) (h' : Holds cap slots (base + l.length) l') :
    Holds cap slots base (l ++ l') := by
  intro i hi
  by_cases hlt : i < l.length
  · rw [List.getElem_append_left hlt]
    exact h i hlt
  · rw [List.length_append] at hi
    have hi' := h' (i - l.length) (by omega)
    rw [List.getElem_append_right (Nat.le_of_not_lt hlt), ← hi', Nat.add_assoc]
    congr 2
    omega

theorem Holds.drop (h : Holds cap slots base l) (k : Nat) : Holds cap slots (base + k) (l.drop k) := by
  intro i hi
  rw [List.length_drop] at hi
  rw [List.getElem_drop, Nat.add_assoc]
  exact h (k + i) (by omega)

theorem Holds.read (h : Holds cap slots base l) (hk : k ≤ l.length) :
    (List.range k).map (fun i => slots ((base + i) % cap)) = l.take k := by
  refine List.ext_getElem (by simp [hk]) fun i hi _ => ?_
  rw [List.length_map, List.length_range] at hi
  rw [List.getElem_map, List.getElem_range, List.getElem_take]
  exact h i (by omega)

/-- The list is written from `base` on, and nothing else. -/
structure Wrote (cap : Nat) (slots : Nat → α) (base : Nat) (l : List α) (slots' : Nat → α) : Prop where
  holds : Holds cap slots' base l
  kept : ∀ j, (∀ i < l.length, j ≠ (base + i) % cap) → slots' j = slots j

theorem Wrote.congr (h : Wrote cap slots base l slots') (hbase : base' % cap = base % cap) :
    Wrote cap slots base' l slots' := by
  refine ⟨h.holds.congr hbase, fun j hj => h.kept j fun i hi => ?_⟩
  rw [Nat.add_mod, ← hbase, ← Nat.add_mod]
  exact hj i hi

theorem mod_ne_of_lt {i j : Nat} (hij : i < j) (hj : j < i + cap) : (base + i) % cap ≠ (base + j) % cap := by
  intro heq
  have hdvd := Nat.dvd_of_mod_eq_zero (Nat.sub_mod_eq_zero_of_mod_eq heq.symm)
  have hle := Nat.le_of_dvd (by omega) hdvd
  omega

/-- A list written behind another leaves that one as it is. -/
theorem Holds.write (h : Holds cap slots base l) (hwrote : Wrote cap slots (base + l.length) l' slots')
    (hfits : l.length + l'.length ≤ cap) : Holds cap slots' base l := by
  intro i hi
  rw [hwrote.kept]
  · exact h i hi
  · intro j hj
    rw [Nat.add_assoc]
    exact mod_ne_of_lt (by omega) (by omega)

/-! ### Copying around the end -/

/-- The list is copied to the slots from `start` on. -/
def memcpy (slots : Nat → α) (start : Nat) (l : List α) : Nat → α := fun j =>
  if start ≤ j then (l[j - start]?).getD (slots j) else slots j

/-- A copy in two pieces: up to the last slot, and on from the first. -/
def copyAround (cap : Nat) (slots : Nat → α) (start : Nat) (l : List α) : Nat → α :=
  let first := min l.length (cap - start)
  memcpy (memcpy slots start (l.take first)) 0 (l.drop first)

theorem memcpy_of_lt {start j : Nat} (h : j < start) : memcpy slots start l j = slots j :=
  if_neg (Nat.not_le.2 h)

theorem memcpy_of_ge {start j : Nat} (h : start + l.length ≤ j) : memcpy slots start l j = slots j := by
  rw [memcpy, if_pos (by omega), List.getElem?_eq_none (by omega), Option.getD_none]

theorem memcpy_add {start i : Nat} (h : i < l.length) : memcpy slots start l (start + i) = l[i] := by
  rw [memcpy, if_pos (Nat.le_add_right _ _), Nat.add_sub_cancel_left, List.getElem?_eq_getElem h,
    Option.getD_some]

theorem wrote_copyAround {start : Nat} (hstart : start < cap) (hl : l.length ≤ cap) :
    Wrote cap slots start l (copyAround cap slots start l) := by
  unfold copyAround
  generalize hfirst : min l.length (cap - start) = first
  have htake : (l.take first).length = first := by rw [List.length_take]; omega
  have hdrop : (l.drop first).length = l.length - first := List.length_drop
  constructor
  · intro i hi
    by_cases hlt : i < first
    · rw [Nat.mod_eq_of_lt (by omega), memcpy_of_ge (by omega), memcpy_add (by omega), List.getElem_take]
    · have hmod : (start + i) % cap = 0 + (i - first) := by
        rw [show start + i = (i - first) + cap by omega, Nat.add_mod_right, Nat.mod_eq_of_lt (by omega),
          Nat.zero_add]
      rw [hmod, memcpy_add (by omega), List.getElem_drop]
      congr 1
      omega
  · intro j hj
    have hfront : l.length - first ≤ j := by
      by_contra hlt
      refine hj (first + j) (by omega) ?_
      rw [show start + (first + j) = j + cap by omega, Nat.add_mod_right, Nat.mod_eq_of_lt (by omega)]
    rw [memcpy_of_ge (by omega)]
    by_cases hlt : j < start
    · exact memcpy_of_lt hlt
    · refine memcpy_of_ge ?_
      rw [htake]
      by_contra hin
      refine hj (j - start) (by omega) ?_
      rw [Nat.add_sub_cancel' (by omega), Nat.mod_eq_of_lt (by omega)]

end Ring
