import Mathlib.Data.List.Basic
import Mathlib.Logic.Function.Basic

/-!
# Ticket locks

Who wants a lock takes the next ticket, and enters when the ticket is served; who leaves lets the next one
be served. `Orderly` relates the two counters and the tickets of those who wait to who has taken a ticket
and who has been served, in the order in which it happened: at most one is inside, and those served are
the first ones that took a ticket. The three operations keep it.
-/

namespace TicketLock

variable {T : Type*} [DecidableEq T] {next serving : Nat} {ticket : T → Option Nat}
  {inside taken served : List T} {t : T} {k : Nat}

structure Orderly (next serving : Nat) (ticket : T → Option Nat) (inside taken served : List T) : Prop where
  length : taken.length = next
  bound : serving + inside.length ≤ next
  exclusive : inside.length ≤ 1
  served : served = taken.take (serving + inside.length)
  place : ∀ t k, ticket t = some k → serving + inside.length ≤ k ∧ taken[k]? = some t

namespace Orderly

omit [DecidableEq T] in
theorem start : Orderly 0 0 (fun _ : T => none) [] [] [] :=
  ⟨rfl, Nat.le_refl _, Nat.zero_le _, rfl, by simp⟩

omit [DecidableEq T] in
theorem prefix_taken (h : Orderly next serving ticket inside taken served) : served <+: taken :=
  h.served ▸ List.take_prefix _ _

omit [DecidableEq T] in
/-- Nobody is inside when a ticket is served that somebody waits with. -/
theorem inside_eq_nil (h : Orderly next serving ticket inside taken served) (ht : ticket t = some serving) :
    inside = [] := by
  have hle := (h.place t serving ht).1
  exact List.length_eq_zero_iff.1 (by omega)

omit [DecidableEq T] in
theorem inside_eq_singleton (h : Orderly next serving ticket inside taken served) (ht : t ∈ inside) :
    inside = [t] := by
  obtain ⟨u, rfl⟩ := List.length_eq_one_iff.1 (Nat.le_antisymm h.exclusive (List.length_pos_of_mem ht))
  rw [List.mem_singleton.1 ht]

theorem take (h : Orderly next serving ticket inside taken served) (t : T) :
    Orderly (next + 1) serving (Function.update ticket t (some next)) inside (taken ++ [t]) served := by
  refine ⟨by simp [h.length], Nat.le_succ_of_le h.bound, h.exclusive, ?_, fun u k hk => ?_⟩
  · rw [h.served, List.take_append_of_le_length (by rw [h.length]; exact h.bound)]
  · by_cases hu : u = t
    · subst hu
      rw [Function.update_self] at hk
      obtain rfl := Option.some.inj hk
      refine ⟨h.bound, ?_⟩
      rw [← h.length, List.getElem?_append_right (Nat.le_refl _), Nat.sub_self]
      rfl
    · rw [Function.update_of_ne hu] at hk
      obtain ⟨hle, hget⟩ := h.place u k hk
      exact ⟨hle, List.getElem?_append_left (List.getElem?_eq_some_iff.1 hget).1 ▸ hget⟩

theorem enter (h : Orderly next serving ticket inside taken served) (ht : ticket t = some serving) :
    Orderly next serving (Function.update ticket t none) (inside ++ [t]) taken (served ++ [t]) := by
  have hnil := h.inside_eq_nil ht
  have hget := (h.place t serving ht).2
  subst hnil
  have hlt : serving < taken.length := (List.getElem?_eq_some_iff.1 hget).1
  refine ⟨h.length, h.length ▸ hlt, Nat.le_refl _, ?_, fun u k hk => ?_⟩
  · rw [h.served, List.nil_append, List.length_singleton, List.take_add_one, hget]
    rfl
  · have hu : u ≠ t := fun hu => by rw [hu, Function.update_self] at hk; cases hk
    rw [Function.update_of_ne hu] at hk
    obtain ⟨hle, hgetu⟩ := h.place u k hk
    refine ⟨?_, hgetu⟩
    have hne : k ≠ serving := fun hkey => hu (Option.some.inj ((hkey ▸ hgetu).symm.trans hget))
    rw [List.length_nil] at hle
    show serving + 1 ≤ k
    omega

theorem leave (h : Orderly next serving ticket inside taken served) (ht : t ∈ inside) :
    Orderly next (serving + 1) ticket (inside.erase t) taken served := by
  have hlength := List.length_erase_of_mem ht
  have hpos := List.length_pos_of_mem ht
  have hexclusive := h.exclusive
  have hbound := h.bound
  refine ⟨h.length, by omega, by omega, ?_, fun u k hk => ?_⟩
  · rw [h.served]
    congr 1
    omega
  · have := h.place u k hk
    exact ⟨by omega, this.2⟩

end Orderly

end TicketLock
