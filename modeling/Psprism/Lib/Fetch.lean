import Mathlib.Data.List.Basic

/-!
# Fetches from a memory

A fetch computes a value from cells of a memory and lists the cells it reads. The value depends on no other
cells, which every fetch carries with it and the combinators keep: reading one cell, applying a function,
pairing, a list of fetches, and moving a fetch to another place. A fetch whose reads lie within a size gives
the same value in memories that agree up to there (`value_eq_of_within`).
-/

/-- Cells that lie together: the first and how many. -/
structure Span where
  offset : Nat
  length : Nat
deriving DecidableEq

namespace Span

def Within (s : Span) (size : Nat) : Prop := s.offset + s.length ≤ size

instance (s : Span) (size : Nat) : Decidable (s.Within size) := inferInstanceAs (Decidable (_ ≤ _))

def shift (s : Span) (n : Nat) : Span := ⟨n + s.offset, s.length⟩

theorem Within.mono {s : Span} {size size' : Nat} (h : s.Within size) (hle : size ≤ size') : s.Within size' :=
  Nat.le_trans h hle

theorem Within.shift {s : Span} {size : Nat} (h : s.Within size) (n : Nat) : (s.shift n).Within (n + size) := by
  unfold Within at h ⊢
  unfold Span.shift
  dsimp only
  omega

end Span

/-- The memories agree on the cells. -/
def AgreeOn {β : Type*} (reads : List Span) (f g : Nat → β) : Prop :=
  ∀ r ∈ reads, ∀ i < r.length, f (r.offset + i) = g (r.offset + i)

structure Fetch (β α : Type*) where
  reads : List Span
  value : (Nat → β) → α
  sound : ∀ f g, AgreeOn reads f g → value f = value g

namespace Fetch
variable {β α γ δ : Type*}

def pure (a : α) : Fetch β α where
  reads := []
  value _ := a
  sound _ _ _ := rfl

/-- The cell at an offset. -/
def cell (offset : Nat) : Fetch β β where
  reads := [⟨offset, 1⟩]
  value f := f offset
  sound _ _ h := h _ List.mem_cons_self 0 Nat.one_pos

def map (φ : α → γ) (x : Fetch β α) : Fetch β γ where
  reads := x.reads
  value f := φ (x.value f)
  sound f g h := congrArg φ (x.sound f g h)

def map₂ (φ : α → γ → δ) (x : Fetch β α) (y : Fetch β γ) : Fetch β δ where
  reads := x.reads ++ y.reads
  value f := φ (x.value f) (y.value f)
  sound f g h := by
    rw [x.sound f g fun r hr => h r (List.mem_append_left _ hr), y.sound f g fun r hr => h r (List.mem_append_right _ hr)]

def all (xs : List (Fetch β α)) : Fetch β (List α) where
  reads := xs.flatMap reads
  value f := xs.map fun x => x.value f
  sound f g h := List.map_congr_left fun x hx => x.sound f g fun r hr => h r (List.mem_flatMap.2 ⟨x, hx, hr⟩)

/-- The fetch behind the first `n` cells. -/
def shift (x : Fetch β α) (n : Nat) : Fetch β α where
  reads := x.reads.map fun r => r.shift n
  value f := x.value fun i => f (n + i)
  sound f g h := x.sound _ _ fun r hr i hi => by
    have hread := h _ (List.mem_map_of_mem hr) i hi
    unfold Span.shift at hread
    rwa [Nat.add_assoc] at hread

def Within (x : Fetch β α) (size : Nat) : Prop := ∀ r ∈ x.reads, r.Within size

variable {size n : Nat}

theorem value_eq_of_within {x : Fetch β α} (h : x.Within size) {f g : Nat → β} (hfg : ∀ i < size, f i = g i) :
    x.value f = x.value g := by
  refine x.sound f g fun r hr i hi => hfg _ ?_
  have hwithin : r.offset + r.length ≤ size := h r hr
  omega

@[simp] theorem within_pure (a : α) : (pure a : Fetch β α).Within size := fun _ hr => absurd hr List.not_mem_nil

@[simp] theorem within_map {φ : α → γ} {x : Fetch β α} : (x.map φ).Within size ↔ x.Within size := Iff.rfl

@[simp] theorem within_cell {offset : Nat} : (cell offset : Fetch β β).Within size ↔ offset < size := by
  simp only [Within, cell, List.forall_mem_singleton, Span.Within]
  omega

@[simp] theorem within_map₂ {φ : α → γ → δ} {x : Fetch β α} {y : Fetch β γ} :
    (map₂ φ x y).Within size ↔ x.Within size ∧ y.Within size := by
  simp only [Within, map₂, List.forall_mem_append]

@[simp] theorem within_all {xs : List (Fetch β α)} : (all xs).Within size ↔ ∀ x ∈ xs, x.Within size := by
  simp only [Within, all, List.mem_flatMap]
  constructor
  · intro h x hx r hr
    exact h r ⟨x, hx, hr⟩
  · rintro h r ⟨x, hx, hr⟩
    exact h x hx r hr

theorem Within.mono {x : Fetch β α} {size' : Nat} (h : x.Within size) (hle : size ≤ size') : x.Within size' :=
  fun r hr => (h r hr).mono hle

theorem Within.shift {x : Fetch β α} (h : x.Within size) (n : Nat) : (x.shift n).Within (n + size) := by
  intro r hr
  obtain ⟨span, hspan, rfl⟩ := List.mem_map.1 hr
  exact (h span hspan).shift n

end Fetch
