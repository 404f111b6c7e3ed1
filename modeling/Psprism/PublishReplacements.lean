import Mathlib.Data.List.Basic
import Mathlib.Logic.Relation

/-!
# Publishing replacements (`publish_replacements` in `project/hydrate.cpp`)

Each output is renamed to its backup and its staged replacement to its place. Where a rename fails, what has been done
is undone, from the last one on, and what fails in that is ignored; a process that is killed stops at any point. When
it comes to its end all the outputs are the staged ones (`outputs_of_published`); when nothing has failed in the undo
they are what they were (`outputs_of_undone`).
-/

namespace Psprism.Hydrate

/-- A step of the handler: `remove_all` of a destination, or the `rename` of its backup. -/
inductive Undo (ι : Type)
  | remove (c : ι)
  | restore (c : ι)

/-- The loop, or the handler with what it has left to do and whether all of it has succeeded so far. -/
inductive Progress (ι : Type)
  | publishing
  | undoing (todo : List (Undo ι)) (clean : Bool)

/-- `moved` is `had_previous` of the first one that is pending; `done` has those that are installed, the last one
first, with theirs. -/
structure Publication (ι C : Type) where
  outputs : ι → Option C
  backup : ι → Option C := fun _ => none
  pending : List ι
  moved : Bool := false
  done : List (ι × Bool) := []
  progress : Progress ι := .publishing

section
variable {ι C : Type} [DecidableEq ι]

namespace Undo

/-- What a step of the handler does when it succeeds. -/
def apply : Undo ι → (ι → Option C) × (ι → Option C) → (ι → Option C) × (ι → Option C)
  | remove c, (outputs, backup) => (Function.update outputs c none, backup)
  | restore c, (outputs, backup) => (Function.update outputs c (backup c), Function.update backup c none)

def applyAll (todo : List (Undo ι)) (files : (ι → Option C) × (ι → Option C)) :
    (ι → Option C) × (ι → Option C) := todo.foldl (fun files step => step.apply files) files

end Undo

/-- The handler's steps for an installed replacement. -/
def undoInstalled (r : ι × Bool) : List (Undo ι) := .remove r.1 :: if r.2 then [.restore r.1] else []

namespace Publication

/-- The handler's steps. -/
def undoList (p : Publication ι C) : List (Undo ι) :=
  (if p.moved then (p.pending.head?.map Undo.restore).toList else []) ++ p.done.flatMap undoInstalled

/-- One file operation; one that fails may have removed a part. -/
inductive Step (staged : ι → C) : Publication ι C → Publication ι C → Prop
  | moveAway {p c rest x} (hprogress : p.progress = .publishing) (hpending : p.pending = c :: rest)
      (hmoved : p.moved = false) (houtput : p.outputs c = some x) :
    Step staged p
      { p with
        outputs := Function.update p.outputs c none
        backup := Function.update p.backup c (some x)
        moved := true }
  | install {p c rest} (hprogress : p.progress = .publishing) (hpending : p.pending = c :: rest)
      (houtput : p.outputs c = none) :
    Step staged p
      { p with
        outputs := Function.update p.outputs c (some (staged c))
        pending := rest
        moved := false
        done := (c, p.moved) :: p.done }
  | fail {p c rest} (hprogress : p.progress = .publishing) (hpending : p.pending = c :: rest) :
    Step staged p { p with progress := .undoing p.undoList true }
  | removed {p c todo clean} (hprogress : p.progress = .undoing (.remove c :: todo) clean) :
    Step staged p { p with outputs := Function.update p.outputs c none, progress := .undoing todo clean }
  | notRemoved {p c todo clean} {left : Option C} (hprogress : p.progress = .undoing (.remove c :: todo) clean) :
    Step staged p { p with outputs := Function.update p.outputs c left, progress := .undoing todo false }
  | restored {p c todo clean} (hprogress : p.progress = .undoing (.restore c :: todo) clean)
      (houtput : p.outputs c = none) :
    Step staged p
      { p with
        outputs := Function.update p.outputs c (p.backup c)
        backup := Function.update p.backup c none
        progress := .undoing todo clean }
  | notRestored {p c todo clean} (hprogress : p.progress = .undoing (.restore c :: todo) clean) :
    Step staged p { p with progress := .undoing todo false }

/-- All the outputs are installed. -/
def Published (p : Publication ι C) : Prop := p.progress = .publishing ∧ p.pending = []

/-- The handler is done, and nothing has failed in it. -/
def Undone (p : Publication ι C) : Prop := p.progress = .undoing [] true

/-! ### What it leaves -/

/-- The loop has installed the staged outputs up to the pending ones, and the handler would bring back the rest. -/
structure Publishing (staged : ι → C) (outputs : ι → Option C) (components : List ι) (p : Publication ι C) : Prop where
  split : (p.done.map Prod.fst).reverse ++ p.pending = components
  installed : ∀ r ∈ p.done, p.outputs r.1 = some (staged r.1)
  untouched : ∀ c ∉ components, p.outputs c = outputs c
  moved : p.moved = true → ∃ c rest, p.pending = c :: rest ∧ p.outputs c = none
  fresh : ∀ c ∈ if p.moved then p.pending.tail else p.pending, p.backup c = none
  undo : (Undo.applyAll p.undoList (p.outputs, p.backup)).1 = outputs

/-- The invariant of the loop and of the handler. -/
def Inv (staged : ι → C) (outputs : ι → Option C) (components : List ι) (p : Publication ι C) : Prop :=
  match p.progress with
  | .publishing => p.Publishing staged outputs components
  | .undoing todo clean => clean = true → (Undo.applyAll todo (p.outputs, p.backup)).1 = outputs

variable {staged : ι → C} {outputs : ι → Option C} {components : List ι} {p p' : Publication ι C}

theorem inv_start (outputs : ι → Option C) (components : List ι) :
    Inv staged outputs components { outputs, pending := components } where
  split := rfl
  installed r hr := by cases hr
  untouched _ _ := rfl
  moved h := by cases h
  fresh _ _ := rfl
  undo := rfl

theorem inv_iff_publishing (h : p.progress = .publishing) :
    Inv staged outputs components p ↔ p.Publishing staged outputs components := by
  rw [Inv, h]

/-- What is installed is not pending any more. -/
theorem Publishing.ne_of_done {c : ι} {rest : List ι} (hnodup : components.Nodup)
    (h : p.Publishing staged outputs components) (hpending : p.pending = c :: rest) {r : ι × Bool} (hr : r ∈ p.done) :
    r.1 ≠ c := by
  rw [← h.split, hpending] at hnodup
  exact (List.nodup_append.1 hnodup).2.2 r.1 (List.mem_reverse.2 (List.mem_map_of_mem hr)) c List.mem_cons_self

theorem Publishing.mem_of_pending {c : ι} {rest : List ι} (h : p.Publishing staged outputs components)
    (hpending : p.pending = c :: rest) : c ∈ components := by
  rw [← h.split, hpending]
  simp

theorem Publishing.moveAway {c : ι} {rest : List ι} {x : C} (hnodup : components.Nodup)
    (h : p.Publishing staged outputs components) (hpending : p.pending = c :: rest) (hmoved : p.moved = false)
    (houtput : p.outputs c = some x) :
    Publishing staged outputs components
      { p with
        outputs := Function.update p.outputs c none
        backup := Function.update p.backup c (some x)
        moved := true } := by
  have hmem := h.mem_of_pending hpending
  have hdone {r : ι × Bool} (hr : r ∈ p.done) : r.1 ≠ c := h.ne_of_done hnodup hpending hr
  obtain ⟨hsplit, hinstalled, huntouched, -, hfresh, hundo⟩ := h
  rw [hmoved] at hfresh
  rw [undoList, hmoved] at hundo
  have hrest : c ∉ rest := by
    rw [← hsplit, hpending] at hnodup
    exact (List.nodup_cons.1 (List.nodup_append.1 hnodup).2.1).1
  refine ⟨hsplit, fun r hr => ?_, fun c' hc' => ?_, fun _ => ⟨c, rest, hpending, Function.update_self ..⟩,
    fun c' hc' => ?_, ?_⟩
  · exact (Function.update_of_ne (hdone hr) _ _).trans (hinstalled r hr)
  · have hne : c' ≠ c := by rintro rfl; exact hc' hmem
    exact (Function.update_of_ne hne _ _).trans (huntouched c' hc')
  · simp only [if_true, hpending, List.tail_cons] at hc'
    have hne : c' ≠ c := by
      rintro rfl
      exact hrest hc'
    refine (Function.update_of_ne hne _ _).trans (hfresh c' ?_)
    simp [hpending, hc']
  · have hbackup : p.backup c = none := hfresh c (by simp [hpending])
    have hback : Function.update (Function.update p.backup c (some x)) c none = p.backup := by
      rw [Function.update_idem, ← hbackup, Function.update_eq_self]
    have hout : Function.update (Function.update p.outputs c none) c (some x) = p.outputs := by
      rw [Function.update_idem, ← houtput, Function.update_eq_self]
    simp only [undoList, hpending, if_true, List.head?_cons, Option.map_some, Option.toList_some,
      List.singleton_append, Undo.applyAll, List.foldl_cons, Undo.apply, Function.update_self, hback, hout]
    exact hundo

theorem Publishing.install {c : ι} {rest : List ι} (hnodup : components.Nodup)
    (h : p.Publishing staged outputs components) (hpending : p.pending = c :: rest) (houtput : p.outputs c = none) :
    Publishing staged outputs components
      { p with
        outputs := Function.update p.outputs c (some (staged c))
        pending := rest
        moved := false
        done := (c, p.moved) :: p.done } := by
  have hmem := h.mem_of_pending hpending
  have hdone {r : ι × Bool} (hr : r ∈ p.done) : r.1 ≠ c := h.ne_of_done hnodup hpending hr
  obtain ⟨hsplit, hinstalled, huntouched, -, hfresh, hundo⟩ := h
  refine ⟨?_, fun r hr => ?_, fun c' hc' => ?_, fun hmoved => absurd hmoved Bool.false_ne_true, fun c' hc' => ?_, ?_⟩
  · simp [← hsplit, hpending]
  · rcases List.mem_cons.1 hr with rfl | hr
    · exact Function.update_self ..
    · exact (Function.update_of_ne (hdone hr) _ _).trans (hinstalled r hr)
  · have hne : c' ≠ c := by rintro rfl; exact hc' hmem
    exact (Function.update_of_ne hne _ _).trans (huntouched c' hc')
  · refine hfresh c' ?_
    simp only [Bool.false_eq_true, if_false] at hc'
    split
    · simp [hpending, hc']
    · simp [hpending, hc']
  · have hout : Function.update (Function.update p.outputs c (some (staged c))) c none = p.outputs := by
      rw [Function.update_idem, ← houtput, Function.update_eq_self]
    have hlist : (if p.moved then [Undo.restore c] else []) ++ p.done.flatMap undoInstalled = p.undoList := by
      rw [undoList, hpending]
      rfl
    simp only [undoList, Bool.false_eq_true, if_false, List.nil_append, List.flatMap_cons, undoInstalled,
      List.cons_append, Undo.applyAll, List.foldl_cons, Undo.apply, hout]
    have hundo' : (Undo.applyAll p.undoList (p.outputs, p.backup)).1 = outputs := hundo
    rw [← hlist] at hundo'
    exact hundo'

/-- One file operation keeps the invariant. -/
theorem Inv.step (hnodup : components.Nodup) (h : Inv staged outputs components p) (hstep : Step staged p p') :
    Inv staged outputs components p' := by
  cases hstep with
  | moveAway hprogress hpending hmoved houtput =>
    have h := (inv_iff_publishing hprogress).1 h
    refine (inv_iff_publishing ?_).2 (h.moveAway hnodup hpending hmoved houtput)
    exact hprogress
  | install hprogress hpending houtput =>
    have h := (inv_iff_publishing hprogress).1 h
    refine (inv_iff_publishing ?_).2 (h.install hnodup hpending houtput)
    exact hprogress
  | fail hprogress hpending => exact fun _ => ((inv_iff_publishing hprogress).1 h).undo
  | removed hprogress =>
    rw [Inv, hprogress] at h
    exact h
  | notRemoved hprogress => exact fun hclean => absurd hclean Bool.false_ne_true
  | restored hprogress houtput =>
    rw [Inv, hprogress] at h
    exact h
  | notRestored hprogress => exact fun hclean => absurd hclean Bool.false_ne_true

/-- What holds at any point, also where the process is killed. -/
theorem inv_of_steps (hnodup : components.Nodup)
    (h : Relation.ReflTransGen (Step staged) { outputs, pending := components } p) :
    Inv staged outputs components p := by
  induction h with
  | refl => exact inv_start outputs components
  | tail _ hstep ih => exact ih.step hnodup hstep

theorem outputs_of_published (hnodup : components.Nodup)
    (h : Relation.ReflTransGen (Step staged) { outputs, pending := components } p) (hp : p.Published) (c : ι) :
    p.outputs c = if c ∈ components then some (staged c) else outputs c := by
  obtain ⟨hprogress, hpending⟩ := hp
  have hinv := (inv_iff_publishing hprogress).1 (inv_of_steps hnodup h)
  split
  next hc =>
    rw [← hinv.split, hpending, List.append_nil, List.mem_reverse, List.mem_map] at hc
    obtain ⟨r, hr, rfl⟩ := hc
    exact hinv.installed r hr
  next hc => exact hinv.untouched c hc

theorem outputs_of_undone (hnodup : components.Nodup)
    (h : Relation.ReflTransGen (Step staged) { outputs, pending := components } p) (hp : p.Undone) :
    p.outputs = outputs := by
  have hinv := inv_of_steps hnodup h
  rw [Inv, hp] at hinv
  exact hinv rfl

end Publication
end

end Psprism.Hydrate
