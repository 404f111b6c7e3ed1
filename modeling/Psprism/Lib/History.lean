import Mathlib.Data.List.Basic

/-!
# Histories

A history lists events with the newest first, so the events before one are what follows it in the list.
`Entries P` says of each event how it stands to those before it; a step that adds an event adds one
obligation (`entries_cons`), and in the end `P` holds wherever the history is cut (`entries_iff`).
-/

namespace History

variable {ε : Type*}

/-- Each event stands in `P` to the events before it. -/
def Entries (P : List ε → ε → Prop) : List ε → Prop
  | [] => True
  | e :: older => P older e ∧ Entries P older

variable {P : List ε → ε → Prop} {e : ε} {log newer older : List ε}

@[simp] theorem entries_nil : Entries P [] := trivial

theorem entries_cons : Entries P (e :: older) ↔ P older e ∧ Entries P older := Iff.rfl

theorem Entries.of_append (h : Entries P (newer ++ older)) : Entries P older := by
  induction newer with
  | nil => exact h
  | cons e newer ih => exact ih h.2

theorem entries_iff : Entries P log ↔ ∀ newer e older, log = newer ++ e :: older → P older e := by
  constructor
  · rintro h newer e older rfl
    exact h.of_append.1
  · intro h
    induction log with
    | nil => exact entries_nil
    | cons e older ih =>
      refine entries_cons.2 ⟨h [] e older rfl, ih fun newer e' older' heq => ?_⟩
      exact h (e :: newer) e' older' (by rw [heq, List.cons_append])

/-- Where a history that has grown by one event can be cut. -/
theorem cons_eq_append_cons {a : ε} :
    e :: log = newer ++ a :: older ↔
      (newer = [] ∧ e = a ∧ log = older) ∨ ∃ newer', newer = e :: newer' ∧ log = newer' ++ a :: older := by
  cases newer with
  | nil => simp
  | cons b newer => simp [eq_comm, and_assoc]

end History
