import Mathlib.Data.List.Induction
import Mathlib.Data.List.Infix

/-!
# File trees

A file system as the list of its paths and what is there, with the operations that move things around: making the
directories of a path, `rename`, and removing a subtree. Every operation says which paths it spares (`Spares`): the
subtree at such a path and the directories above it are as before. Two paths are apart when neither lies in the other.
-/

namespace FileTree

/-- What is at a path. -/
inductive Node (C : Type)
  | directory
  | file (content : C)
deriving DecidableEq, Repr

abbrev Path (N : Type) := List N

/-- The first entry of a path counts. -/
structure Tree (N C : Type) where
  entries : List (Path N × Node C)

/-- Neither path is in the other's subtree. -/
def Apart {N : Type} (a b : Path N) : Prop := ¬ a <+: b ∧ ¬ b <+: a

section
variable {N : Type} {a b p q : Path N}

instance [DecidableEq N] : Decidable (Apart a b) := inferInstanceAs (Decidable (_ ∧ _))

theorem Apart.symm (h : Apart a b) : Apart b a := ⟨h.2, h.1⟩

theorem Apart.ne_nil (h : Apart a b) : b ≠ [] := by
  rintro rfl
  exact h.2 List.nil_prefix

/-- What is in one subtree is not in the other. -/
theorem Apart.not_prefix (h : Apart a b) (hb : b <+: q) : ¬ a <+: q := by
  intro ha
  rcases List.prefix_or_prefix_of_prefix ha hb with hab | hba
  · exact h.1 hab
  · exact h.2 hba

/-- Nor are the directories above the one in the other. -/
theorem Apart.not_prefix_above (h : Apart a p) (hq : q <+: p) : ¬ a <+: q := fun ha => h.1 (ha.trans hq)

theorem not_prefix_dropLast (h : p ≠ []) : ¬ p <+: p.dropLast := by
  intro hprefix
  have hlength := hprefix.length_le
  have hpos := List.length_pos_iff.2 h
  rw [List.length_dropLast] at hlength
  omega

theorem Apart.not_prefix_dropLast (h : Apart a b) : ¬ a <+: b.dropLast :=
  h.not_prefix_above (List.dropLast_prefix b)

end

namespace Tree
variable {N C : Type} [DecidableEq N]

def node (t : Tree N C) (p : Path N) : Option (Node C) := (t.entries.find? (·.1 = p)).map (·.2)

/-- Whatever has a parent, has a directory as its parent. -/
def IsTree (t : Tree N C) : Prop := ∀ p n, (t.node (p ++ [n])).isSome → t.node p = some .directory

/-! ### Operations -/

def makeDirectory (t : Tree N C) (p : Path N) : Tree N C := ⟨(p, .directory) :: t.entries⟩

def writeFile (t : Tree N C) (p : Path N) (content : C) : Tree N C := ⟨(p, .file content) :: t.entries⟩

def removeAll (t : Tree N C) (p : Path N) : Tree N C := ⟨t.entries.filter fun e => ¬ p <+: e.1⟩

/-- The subtree at `a` in the place of the one at `b`. -/
def move (t : Tree N C) (a b : Path N) : Tree N C :=
  ⟨((t.entries.filter fun e => a <+: e.1).map fun e => (b ++ e.1.drop a.length, e.2)) ++
    t.entries.filter fun e => ¬ a <+: e.1 ∧ ¬ b <+: e.1⟩

/-- There is nothing in a directory. -/
def isEmpty (t : Tree N C) (p : Path N) : Bool := t.entries.all fun e => ¬ p <+: e.1 ∨ e.1 = p

/-- `rename`: a file replaces a file, and a directory an empty one. -/
def rename (t : Tree N C) (a b : Path N) : Option (Tree N C) :=
  match t.node a with
  | none => none
  | some source =>
    if a = b then some t
    else if a <+: b ∨ b = [] ∨ ¬ (t.node b.dropLast matches some .directory) then none
    else
      match t.node b, source with
      | none, _ => some (t.move a b)
      | some (.file _), .file _ => some (t.move a b)
      | some .directory, .directory => if t.isEmpty b then some (t.move a b) else none
      | _, _ => none

/-- The directories of a path, made from the root on; with a number, the host stops after that many new ones. -/
def createDirectories (t : Tree N C) (done : Path N) : Path N → Option Nat → Tree N C × Bool
  | [], fault => (t, fault.isNone)
  | n :: rest, fault =>
    match t.node (done ++ [n]) with
    | some .directory => createDirectories t (done ++ [n]) rest fault
    | some (.file _) => (t, false)
    | none =>
      if fault = some 0 then (t, false)
      else createDirectories (t.makeDirectory (done ++ [n])) (done ++ [n]) rest (fault.map (· - 1))

/-! ### What is where -/

section
variable {t t' t'' : Tree N C} {a b p q x : Path N}

theorem node_cons {n : Node C} {entries : List (Path N × Node C)} :
    node ⟨(p, n) :: entries⟩ q = if q = p then some n else node ⟨entries⟩ q := by
  rw [node, List.find?_cons]
  by_cases h : p = q
  · simp [h]
  · simp [h, Ne.symm h, node]

theorem node_makeDirectory : (t.makeDirectory p).node q = if q = p then some .directory else t.node q := node_cons

theorem node_writeFile {content : C} :
    (t.writeFile p content).node q = if q = p then some (.file content) else t.node q := node_cons

theorem find?_keep (keep : Path N → Prop) [DecidablePred keep] {l : List (Path N × Node C)} :
    (l.filter fun e => keep e.1).find? (·.1 = q) = if keep q then l.find? (·.1 = q) else none := by
  rw [List.find?_filter]
  split_ifs with h
  · refine congrArg (fun test => List.find? test l) (funext fun e => ?_)
    by_cases he : e.1 = q
    · simp [he, h]
    · simp [he]
  · refine List.find?_eq_none.2 fun e _ => ?_
    simp only [decide_eq_true_eq, not_and]
    rintro hkeep rfl
    exact h hkeep

theorem node_removeAll : (t.removeAll p).node q = if p <+: q then none else t.node q := by
  rw [node, removeAll, find?_keep fun k => ¬ p <+: k]
  by_cases h : p <+: q
  · simp [h]
  · simp [h, node]

theorem node_move : (t.move a b).node q =
    if b <+: q then t.node (a ++ q.drop b.length) else if a <+: q then none else t.node q := by
  have hmoved : (((t.entries.filter fun e => a <+: e.1).map fun e => (b ++ e.1.drop a.length, e.2)).find?
      (·.1 = q)).map (·.2) = if b <+: q then t.node (a ++ q.drop b.length) else none := by
    rw [List.find?_map, List.find?_filter, Option.map_map]
    split_ifs with hb
    · obtain ⟨y, rfl⟩ := hb
      rw [node, List.drop_left]
      refine congrArg (fun test => (List.find? test t.entries).map (·.2)) (funext fun e => ?_)
      by_cases ha : a <+: e.1
      · obtain ⟨z, hz⟩ := ha
        simp [← hz]
      · have hne : e.1 ≠ a ++ y := fun h => ha ⟨y, h.symm⟩
        simp [ha, hne]
    · rw [Option.map_eq_none_iff, List.find?_eq_none]
      rintro e - htest
      simp only [Function.comp_apply, decide_eq_true_eq] at htest
      exact hb ⟨_, htest.2⟩
  have hkept := find?_keep (fun k => ¬ a <+: k ∧ ¬ b <+: k) (l := t.entries) (q := q)
  rw [node, move, List.find?_append, Option.map_or, hmoved, hkept]
  by_cases hb : b <+: q
  · simp [hb]
  · by_cases ha : a <+: q
    · simp [hb, ha]
    · simp [hb, ha, node]

/-- It is enough to look at the entries. -/
theorem isTree_of_entries (h : ∀ e ∈ t.entries, e.1 ≠ [] → t.node e.1.dropLast = some .directory) : t.IsTree := by
  intro p n hsome
  rw [node, Option.isSome_map, List.find?_isSome] at hsome
  obtain ⟨e, he, hpath⟩ := hsome
  have hpath := of_decide_eq_true hpath
  have hdir := h e he (by simp [hpath])
  rwa [hpath, List.dropLast_concat] at hdir

theorem IsTree.none_append (h : t.IsTree) (hnone : t.node p = none) (x : Path N) : t.node (p ++ x) = none := by
  induction x using List.reverseRecOn with
  | nil => rwa [List.append_nil]
  | append_singleton x n ih =>
    rw [← List.append_assoc]
    by_contra hsome
    rw [h _ n (Option.isSome_iff_ne_none.2 hsome)] at ih
    cases ih

theorem IsTree.above (h : t.IsTree) (hp : p ≠ []) (hsome : (t.node p).isSome) :
    t.node p.dropLast = some .directory := by
  rw [← List.dropLast_append_getLast hp] at hsome
  exact h _ _ hsome

/-! ### What an operation spares -/

/-- The subtree at `p` is as before, and so are the directories above it. -/
structure Spares (t t' : Tree N C) (p : Path N) : Prop where
  subtree : ∀ x, t'.node (p ++ x) = t.node (p ++ x)
  above : ∀ q, q <+: p → t.node q = some .directory → t'.node q = some .directory

namespace Spares

theorem refl : Spares t t p := ⟨fun _ => rfl, fun _ _ h => h⟩

theorem trans (h : Spares t t' p) (h' : Spares t' t'' p) : Spares t t'' p :=
  ⟨fun x => (h'.subtree x).trans (h.subtree x), fun q hq hdir => h'.above q hq (h.above q hq hdir)⟩

theorem self (h : Spares t t' p) : t'.node p = t.node p := by simpa using h.subtree []

theorem removeAll (h : Apart a p) : Spares t (t.removeAll a) p := by
  refine ⟨fun x => ?_, fun q hq hdir => ?_⟩
  · rw [node_removeAll, if_neg (h.not_prefix (List.prefix_append p x))]
  · rw [node_removeAll, if_neg (h.not_prefix_above hq), hdir]

theorem move (ha : Apart a p) (hb : Apart b p) : Spares t (t.move a b) p := by
  refine ⟨fun x => ?_, fun q hq hdir => ?_⟩
  · have hpx := List.prefix_append p x
    rw [node_move, if_neg (hb.not_prefix hpx), if_neg (ha.not_prefix hpx)]
  · rw [node_move, if_neg (hb.not_prefix_above hq), if_neg (ha.not_prefix_above hq), hdir]

theorem makeDirectory (hnone : t.node q = none) (h : ¬ p <+: q) : Spares t (t.makeDirectory q) p := by
  refine ⟨fun x => ?_, fun r hr hdir => ?_⟩
  · rw [node_makeDirectory, if_neg]
    rintro rfl
    exact h (List.prefix_append p x)
  · rw [node_makeDirectory, if_neg, hdir]
    rintro rfl
    rw [hnone] at hdir
    cases hdir

/-- Making directories only adds some, on the way to the last one. -/
theorem createDirectories {done rest : Path N} {fault : Option Nat} (h : ¬ p <+: done ++ rest) :
    Spares t (t.createDirectories done rest fault).1 p := by
  induction rest generalizing t done fault with
  | nil => exact refl
  | cons n rest ih =>
    have hrest : ¬ p <+: (done ++ [n]) ++ rest := by simpa using h
    have hhere : ¬ p <+: done ++ [n] := fun hp => hrest (hp.trans (List.prefix_append _ _))
    rw [Tree.createDirectories]
    split
    · exact ih hrest
    · exact refl
    next hnone =>
      split_ifs with hfault
      · exact refl
      · exact (makeDirectory hnone hhere).trans (ih hrest)

end Spares

/-! ### Renames between paths that are apart -/

theorem rename_eq_some (h : Apart a b) (hrename : t.rename a b = some t') :
    (t.node a).isSome ∧ t' = t.move a b := by
  rw [rename] at hrename
  have hne : a ≠ b := fun heq => h.1 (heq ▸ List.prefix_rfl)
  split at hrename
  · cases hrename
  next source hsource =>
    refine ⟨Option.isSome_of_eq_some hsource, ?_⟩
    by_cases hplace : a <+: b ∨ b = [] ∨ ¬ (t.node b.dropLast matches some .directory)
    · rw [if_neg hne, if_pos hplace] at hrename
      cases hrename
    rw [if_neg hne, if_neg hplace] at hrename
    split at hrename
    · exact (Option.some.inj hrename).symm
    · exact (Option.some.inj hrename).symm
    · split_ifs at hrename
      exact (Option.some.inj hrename).symm
    · cases hrename

/-- A rename to a free place. -/
theorem rename_of_free (h : Apart a b) (hsome : (t.node a).isSome) (hparent : t.node b.dropLast = some .directory)
    (hfree : t.node b = none) : t.rename a b = some (t.move a b) := by
  have hne : a ≠ b := fun heq => h.1 (heq ▸ List.prefix_rfl)
  obtain ⟨source, hsource⟩ := Option.isSome_iff_exists.1 hsome
  have hplace : ¬ (a <+: b ∨ b = [] ∨ ¬ (t.node b.dropLast matches some .directory)) := by
    simp [h.1, h.ne_nil, hparent]
  rw [rename, hsource]
  dsimp only
  rw [if_neg hne, if_neg hplace, hfree]

theorem node_move_source (h : Apart a b) (x : Path N) : (t.move a b).node (a ++ x) = none := by
  have hax := List.prefix_append a x
  rw [node_move, if_neg (h.symm.not_prefix hax), if_pos hax]

theorem node_move_target (x : Path N) : (t.move a b).node (b ++ x) = t.node (a ++ x) := by
  rw [node_move, if_pos (List.prefix_append b x), List.drop_left]

/-- What is above the source stays. -/
theorem node_move_dropLast (h : Apart a b) : (t.move a b).node a.dropLast = t.node a.dropLast := by
  rw [node_move, if_neg h.symm.not_prefix_dropLast, if_neg (not_prefix_dropLast h.symm.ne_nil)]

end

end Tree

end FileTree
