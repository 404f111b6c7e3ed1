import Mathlib.Data.List.Basic

/-!
# Assignments to places

`putAll put s l` writes the values of `l` to their places, one after the other. Where a place reads back what was
put there, and keeps it while places apart from it are written, all the values are read at the end (`reads_putAll`).
A write may fail: `Good` tells that none has.
-/

namespace Assignments

variable {σ ι α : Type*} {put : σ → ι → α → σ} {s : σ} {x : ι} {v : α} {l : List (ι × α)}

def putAll (put : σ → ι → α → σ) (s : σ) (l : List (ι × α)) : σ := l.foldl (fun s p => put s p.1 p.2) s

@[simp] theorem putAll_nil : putAll put s [] = s := rfl

@[simp] theorem putAll_cons : putAll put s ((x, v) :: l) = putAll put (put s x v) l := rfl

theorem putAll_append {l' : List (ι × α)} : putAll put s (l ++ l') = putAll put (putAll put s l) l' :=
  List.foldl_append

section
variable {Apart : ι → ι → Prop} {Reads : σ → ι → α → Prop}

theorem inv_putAll (Inv : σ → Prop) (hinv : ∀ s x v, Inv s → Inv (put s x v)) (h : Inv s) : Inv (putAll put s l) := by
  induction l generalizing s with
  | nil => exact h
  | cons p l ih => exact ih (hinv _ _ _ h)

theorem good_of_putAll (Good : σ → Prop) (hgood : ∀ s x v, Good (put s x v) → Good s) (h : Good (putAll put s l)) : Good s := by
  induction l generalizing s with
  | nil => exact h
  | cons p l ih => exact hgood _ _ _ (ih h)

theorem reads_of_apart (Inv : σ → Prop) (hinv : ∀ s x v, Inv s → Inv (put s x v))
    (hother : ∀ s x y v w, Inv s → Apart x y → Reads s x v → Reads (put s y w) x v)
    (h : Inv s) (hreads : Reads s x v) (hl : ∀ p ∈ l, Apart x p.1) : Reads (putAll put s l) x v := by
  induction l generalizing s with
  | nil => exact hreads
  | cons p l ih =>
    have hput := hother _ _ _ _ p.2 h (hl p List.mem_cons_self) hreads
    exact ih (hinv _ _ _ h) hput fun q hq => hl q (List.mem_cons_of_mem _ hq)

/-- Places apart from each other read back what was assigned to them. -/
theorem reads_putAll (Inv Good : σ → Prop) (hinv : ∀ s x v, Inv s → Inv (put s x v))
    (hgood : ∀ s x v, Good (put s x v) → Good s)
    (hself : ∀ s x v, Inv s → Good (put s x v) → Reads (put s x v) x v)
    (hother : ∀ s x y v w, Inv s → Apart x y → Reads s x v → Reads (put s y w) x v)
    (h : Inv s) (hl : l.Pairwise fun p q => Apart p.1 q.1) (hend : Good (putAll put s l)) :
    ∀ p ∈ l, Reads (putAll put s l) p.1 p.2 := by
  induction l generalizing s with
  | nil => intro p hp; cases hp
  | cons q l ih =>
    rw [List.pairwise_cons] at hl
    intro p hp
    rcases List.mem_cons.1 hp with rfl | hp
    · have hput := hself s p.1 p.2 h (good_of_putAll Good hgood hend)
      show Reads (putAll put (put s p.1 p.2) l) p.1 p.2
      exact reads_of_apart Inv hinv hother (hinv _ _ _ h) hput hl.1
    · exact ih (hinv _ _ _ h) hl.2 hend p hp

end

end Assignments
