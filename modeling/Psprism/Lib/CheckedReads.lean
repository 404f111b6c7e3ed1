import Mathlib.Data.List.Basic

/-!
# Checked reads

A computation over a buffer ends with a value, with an error of its own, or by an access outside the buffer.
`Inside` says that it does not end by such an access: a sequence of computations stays inside when each of them
does after what the ones before it answered (`Inside.bind`), and a single read when it is in bounds
(`inside_cell`, `inside_slice`). A buffer may be laid out in areas that are written from the front and have a
filler behind what is written; a write at the end of what is written in one area leaves the others alone
(`store_area`).
-/

namespace CheckedReads

/-- How a computation fails. -/
inductive Fault (ε : Type)
  | raised (e : ε)
  | outside
deriving DecidableEq, Repr

abbrev Checked (ε α : Type) := Except (Fault ε) α

variable {ε α β : Type}

def raise (e : ε) : Checked ε α := .error (.raised e)

/-- What is missing is an error. -/
def demand (e : ε) : Option α → Checked ε α
  | some a => .ok a
  | none => raise e

/-- The element at an index. -/
def cell (b : List β) (i : Nat) : Checked ε β :=
  match b[i]? with
  | some x => .ok x
  | none => .error .outside

/-- So many elements from an offset on. -/
def slice (b : List β) (offset n : Nat) : Checked ε (List β) :=
  if offset + n ≤ b.length then .ok ((b.drop offset).take n) else .error .outside

/-- The buffer with the elements in the place of those from an offset on. -/
def store (b : List β) (offset : Nat) (xs : List β) : Checked ε (List β) :=
  if offset + xs.length ≤ b.length then .ok (b.take offset ++ xs ++ b.drop (offset + xs.length))
  else .error .outside

def Inside (c : Checked ε α) : Prop := c ≠ .error .outside

variable {b : List β} {c : Checked ε α} {f : α → Checked ε β} {e : ε} {a : α} {r : β} {i offset n : Nat}

@[simp] theorem inside_ok : Inside (.ok a : Checked ε α) := nofun

@[simp] theorem inside_pure : Inside (pure a : Checked ε α) := nofun

@[simp] theorem inside_raise : Inside (raise e : Checked ε α) := nofun

@[simp] theorem ok_bind : (Except.ok a : Checked ε α) >>= f = f a := rfl

@[simp] theorem raise_bind : (raise e : Checked ε α) >>= f = raise e := rfl

@[simp] theorem demand_some : demand e (some a) = .ok a := rfl

@[simp] theorem demand_none : (demand e none : Checked ε α) = raise e := rfl

@[simp] theorem inside_demand (o : Option α) : Inside (demand e o) := by cases o <;> simp

theorem bind_eq_ok : c >>= f = .ok r ↔ ∃ a, c = .ok a ∧ f a = .ok r := by
  cases c with
  | ok a =>
    refine ⟨fun h => ⟨a, rfl, h⟩, ?_⟩
    rintro ⟨_, ⟨⟩, h⟩
    exact h
  | error e =>
    refine ⟨nofun, ?_⟩
    rintro ⟨_, ⟨⟩, _⟩

theorem Inside.bind (hc : Inside c) (hf : ∀ a, c = .ok a → Inside (f a)) : Inside (c >>= f) := by
  cases c with
  | ok a => exact hf a rfl
  | error e => exact fun h => hc (congrArg Except.error (Except.error.inj h))

theorem Inside.ite {p : Prop} [Decidable p] {c' : Checked ε α} (hc : p → Inside c) (hc' : ¬ p → Inside c') :
    Inside (if p then c else c') := iteInduction hc hc'

/-! ### Reads -/

theorem cell_of_getElem? {x : β} (h : b[i]? = some x) : (cell b i : Checked ε β) = .ok x := by
  rw [cell, h]

theorem cell_eq (h : i < b.length) : (cell b i : Checked ε β) = .ok b[i] :=
  cell_of_getElem? (List.getElem?_eq_getElem h)

theorem inside_cell (h : i < b.length) : Inside (cell b i : Checked ε β) := by
  rw [cell_eq h]
  exact inside_ok

theorem inside_store {xs : List β} (h : offset + xs.length ≤ b.length) : Inside (store b offset xs : Checked ε _) := by
  rw [store, if_pos h]
  exact inside_ok

theorem length_store {xs b' : List β} (h : (store b offset xs : Checked ε _) = .ok b') : b'.length = b.length := by
  rw [store] at h
  split at h
  · obtain rfl := Except.ok.inj h
    simp only [List.length_append, List.length_take, List.length_drop]
    omega
  · cases h

theorem slice_eq (h : offset + n ≤ b.length) : (slice b offset n : Checked ε (List β)) = .ok ((b.drop offset).take n) :=
  if_pos h

theorem inside_slice (h : offset + n ≤ b.length) : Inside (slice b offset n : Checked ε (List β)) := by
  rw [slice_eq h]
  exact inside_ok

/-! ### Loops -/

theorem inside_mapM {f : α → Checked ε β} (l : List α) (h : ∀ a ∈ l, Inside (f a)) : Inside (l.mapM f) := by
  induction l with
  | nil => exact inside_pure
  | cons a l ih =>
    rw [List.mapM_cons]
    refine (h a List.mem_cons_self).bind fun _ _ => (ih fun a' ha' => h a' (List.mem_cons_of_mem a ha')).bind fun _ _ => ?_
    exact inside_pure

theorem inside_foldlM {γ : Type} {f : γ → β → Checked ε γ} (l : List β) (init : γ) (h : ∀ s, ∀ a ∈ l, Inside (f s a)) :
    Inside (l.foldlM f init) := by
  induction l generalizing init with
  | nil => exact inside_pure
  | cons a l ih =>
    rw [List.foldlM_cons]
    exact (h init a List.mem_cons_self).bind fun s _ => ih s fun s' a' ha' => h s' a' (List.mem_cons_of_mem a ha')

/-- A loop of which every turn succeeds. -/
theorem foldlM_eq_foldl {γ : Type} {f : γ → β → Checked ε γ} {g : γ → β → γ} (h : ∀ s a, f s a = .ok (g s a))
    (l : List β) (init : γ) : l.foldlM f init = .ok (l.foldl g init) := by
  induction l generalizing init with
  | nil => rfl
  | cons a l ih =>
    rw [List.foldlM_cons, h, ok_bind, List.foldl_cons]
    exact ih (g init a)

/-- What every turn keeps holds in the end. -/
theorem foldlM_invariant {γ : Type} {P : γ → Prop} {f : γ → β → Checked ε γ} {l : List β} {init s : γ}
    (hstep : ∀ s a s', P s → f s a = .ok s' → P s') (hinit : P init) (h : l.foldlM f init = .ok s) : P s := by
  induction l generalizing init with
  | nil =>
    obtain rfl := Except.ok.inj h
    exact hinit
  | cons a l ih =>
    rw [List.foldlM_cons] at h
    obtain ⟨next, hnext, h⟩ := bind_eq_ok.1 h
    exact ih (hstep _ _ _ hinit hnext) h

theorem length_mapM {f : α → Checked ε β} {l : List α} {bs : List β} (h : l.mapM f = .ok bs) : bs.length = l.length := by
  induction l generalizing bs with
  | nil =>
    obtain rfl := Except.ok.inj h
    rfl
  | cons a l ih =>
    rw [List.mapM_cons] at h
    obtain ⟨b, _, h⟩ := bind_eq_ok.1 h
    obtain ⟨bs', hbs, h⟩ := bind_eq_ok.1 h
    obtain rfl := Except.ok.inj h
    rw [List.length_cons, List.length_cons, ih hbs]

theorem exists_of_mem_mapM {f : α → Checked ε β} {l : List α} {bs : List β} (h : l.mapM f = .ok bs) {r : β}
    (hr : r ∈ bs) : ∃ a ∈ l, f a = .ok r := by
  induction l generalizing bs with
  | nil =>
    obtain rfl := Except.ok.inj h
    exact absurd hr List.not_mem_nil
  | cons a l ih =>
    rw [List.mapM_cons] at h
    obtain ⟨b, hb, h⟩ := bind_eq_ok.1 h
    obtain ⟨bs', hbs, h⟩ := bind_eq_ok.1 h
    obtain rfl := Except.ok.inj h
    rcases List.mem_cons.1 hr with rfl | hr
    · exact ⟨a, List.mem_cons_self, hb⟩
    · obtain ⟨a', ha', hf⟩ := ih hbs hr
      exact ⟨a', List.mem_cons_of_mem a ha', hf⟩

/-! ### Areas -/

/-- An area of so many elements, with the filler behind what is written. -/
def area (fill : β) (n : Nat) (written : List β) : List β := written ++ List.replicate (n - written.length) fill

variable {fill : β} {written xs : List β} {k : Nat}

@[simp] theorem length_area (h : written.length ≤ n) : (area fill n written).length = n := by
  simp [area, h]

theorem area_full (h : written.length = n) : area fill n written = written := by
  simp [area, h]

theorem area_nil : area fill n [] = List.replicate n fill := rfl

/-- The filler may count as written. -/
theorem area_append_fill (h : written.length + k ≤ n) :
    area fill n (written ++ List.replicate k fill) = area fill n written := by
  rw [area, area, List.append_assoc, List.replicate_append_replicate, List.length_append, List.length_replicate]
  congr 2
  omega

theorem store_area (pre post : List β) (hoffset : offset = pre.length + written.length) (hroom : written.length + xs.length ≤ n) :
    (store (pre ++ (area fill n written ++ post)) offset xs : Checked ε _) =
      .ok (pre ++ (area fill n (written ++ xs) ++ post)) := by
  subst hoffset
  have hleft : pre ++ (area fill n written ++ post) =
      (pre ++ written) ++ (List.replicate xs.length fill ++
        (List.replicate (n - (written ++ xs).length) fill ++ post)) := by
    have hfill : n - written.length = xs.length + (n - (written ++ xs).length) := by
      rw [List.length_append]
      omega
    rw [area, hfill, ← List.replicate_append_replicate]
    simp only [List.append_assoc]
  rw [store, hleft, if_pos (by simp only [List.length_append, List.length_replicate]; omega), ← List.length_append,
    List.take_left, ← List.drop_drop, List.drop_left, List.drop_left' List.length_replicate]
  simp only [area, List.append_assoc]

end CheckedReads
