import Psprism.Lib.FileTree

/-!
# Publishing replacements in a file tree (`publish_replacements` in `project/hydrate.cpp`)

The loop makes the directories above a destination, moves what is there to its backup, and the staged subtree to its
place. Any of these can fail; the handler then removes what is installed and moves the backups back, from the last
one on. Where no path of the list lies in another's subtree, every destination ends as it began
(`publish_failed_restores`). Destinations that are only distinct are not enough: the directories made above one
destination can be another destination that was absent (`publish_nested`).
-/

namespace Psprism.Hydrate

open FileTree

variable {N C : Type}

structure Replacement (N : Type) where
  staged : Path N
  destination : Path N
  backup : Path N
deriving DecidableEq, Repr

section
variable {r : Replacement N} {path : Path N}

def Replacement.paths (r : Replacement N) : List (Path N) := [r.staged, r.destination, r.backup]

/-- The path is apart from those of the replacement. -/
def Clear (r : Replacement N) (path : Path N) : Prop := ∀ q ∈ r.paths, Apart q path

theorem Clear.staged (hclear : Clear r path) : Apart r.staged path := hclear _ (by simp [Replacement.paths])

theorem Clear.destination (hclear : Clear r path) : Apart r.destination path :=
  hclear _ (by simp [Replacement.paths])

theorem Clear.backup (hclear : Clear r path) : Apart r.backup path := hclear _ (by simp [Replacement.paths])

end

variable [DecidableEq N]

/-- A replacement that the loop has looked at, with what it has done. -/
structure Processed (N : Type) extends Replacement N where
  hadPrevious : Bool
  installed : Bool
deriving DecidableEq, Repr

/-- The files, and what the host does to the operations to come: `none` lets one do what it can, a number fails it,
where directories are made after so many new ones. -/
structure Host (N C : Type) where
  files : Tree N C
  faults : List (Option Nat)

namespace Host
variable (h : Host N C)

def fault : Option Nat := h.faults.head?.join

/-- The host after an operation. -/
def after (files : Tree N C) : Host N C := ⟨files, h.faults.tail⟩

/-- `create_directories`, and whether it returns. -/
def createDirectories (p : Path N) : Host N C × Bool :=
  let (files, ok) := h.files.createDirectories [] p h.fault
  (h.after files, ok)

/-- `exists`; `none` is an exception. -/
def «exists» (p : Path N) : Host N C × Option Bool :=
  (h.after h.files, if h.fault.isSome then none else some (h.files.node p).isSome)

/-- `rename`, and whether it returns. -/
def rename (a b : Path N) : Host N C × Bool :=
  match if h.fault.isSome then none else h.files.rename a b with
  | some files => (h.after files, true)
  | none => (h.after h.files, false)

end Host

/-- One pass of the loop; an exception leaves the replacement without `installed`. -/
def publishOne (h : Host N C) (r : Replacement N) : Host N C × Processed N :=
  match h.createDirectories r.destination.dropLast with
  | (h, false) => (h, ⟨r, false, false⟩)
  | (h, true) =>
    match h.exists r.destination with
    | (h, none) => (h, ⟨r, false, false⟩)
    | (h, some false) =>
      let (h, ok) := h.rename r.staged r.destination
      (h, ⟨r, false, ok⟩)
    | (h, some true) =>
      match h.createDirectories r.backup.dropLast with
      | (h, false) => (h, ⟨r, false, false⟩)
      | (h, true) =>
        match h.rename r.destination r.backup with
        | (h, false) => (h, ⟨r, false, false⟩)
        | (h, true) =>
          let (h, ok) := h.rename r.staged r.destination
          (h, ⟨r, true, ok⟩)

/-- The loop, with what it has looked at, the last one first, and whether it comes to its end. -/
def publishLoop (h : Host N C) (processed : List (Processed N)) : List (Replacement N) →
    Host N C × List (Processed N) × Bool
  | [] => (h, processed, true)
  | r :: rest =>
    let (h, p) := publishOne h r
    if p.installed then publishLoop h (p :: processed) rest else (h, p :: processed, false)

/-- The handler's pass over one replacement, with operations that the host lets do what they can. -/
def undo (files : Tree N C) (p : Processed N) : Tree N C :=
  let files := if p.installed then files.removeAll p.destination else files
  if p.hadPrevious then (files.rename p.backup p.destination).getD files else files

/-- `publish_replacements`: the files, and whether it returns. The handler passes over what the loop has not looked
at. -/
def publishReplacements (h : Host N C) (replacements : List (Replacement N)) : Tree N C × Bool :=
  let (h, processed, ok) := publishLoop h [] replacements
  if ok then (h.files, true) else (processed.foldl undo h.files, false)

/-! ### One replacement -/

/-- No path of the list lies in another one's subtree. -/
structure Separate (replacements : List (Replacement N)) : Prop where
  each : ∀ r ∈ replacements, r.paths.Pairwise Apart
  pairwise : replacements.Pairwise fun r r' => ∀ p ∈ r.paths, ∀ q ∈ r'.paths, Apart p q

section
variable {start files files' : Tree N C} {h h' : Host N C} {r : Replacement N} {p : Processed N} {path : Path N}

/-- Only directories above the destination or the backup have been made. -/
def Grown (r : Replacement N) (files files' : Tree N C) : Prop :=
  ∀ path, ¬ path <+: r.destination.dropLast → ¬ path <+: r.backup.dropLast → Tree.Spares files files' path

/-- What a pass of the loop comes to. -/
inductive Pass (r : Replacement N) (files : Tree N C) : Tree N C → Processed N → Prop
  | stopped {files' : Tree N C} (hgrown : Grown r files files') : Pass r files files' ⟨r, false, false⟩
  | installed {files₁ files' : Tree N C} (hgrown : Grown r files files₁) (hfree : files₁.node r.destination = none)
      (hinstall : files₁.rename r.staged r.destination = some files') : Pass r files files' ⟨r, false, true⟩
  | movedAway {files₁ files' : Tree N C} (hgrown : Grown r files files₁)
      (hmove : files₁.rename r.destination r.backup = some files') : Pass r files files' ⟨r, true, false⟩
  | replaced {files₁ files₂ files' : Tree N C} (hgrown : Grown r files files₁)
      (hmove : files₁.rename r.destination r.backup = some files₂)
      (hinstall : files₂.rename r.staged r.destination = some files') : Pass r files files' ⟨r, true, true⟩

namespace Host
variable {h h' : Host N C} {a b : Path N}

theorem files_of_rename_false (hrename : h.rename a b = (h', false)) : h'.files = h.files := by
  rw [rename] at hrename
  split at hrename
  · exact absurd (Prod.mk.inj hrename).2 (by simp)
  · rw [← (Prod.mk.inj hrename).1]
    rfl

theorem rename_of_rename_true (hrename : h.rename a b = (h', true)) : h.files.rename a b = some h'.files := by
  rw [rename] at hrename
  split at hrename
  next files hsome =>
    split_ifs at hsome
    rw [hsome, ← (Prod.mk.inj hrename).1]
    rfl
  · exact absurd (Prod.mk.inj hrename).2 (by simp)

theorem node_of_exists {present : Bool} (hexists : h.exists a = (h', some present)) :
    h'.files = h.files ∧ (h.files.node a).isSome = present := by
  obtain ⟨rfl, hpresent⟩ := Prod.mk.inj hexists
  split_ifs at hpresent
  exact ⟨rfl, Option.some.inj hpresent⟩

theorem files_of_exists {present : Option Bool} (hexists : h.exists a = (h', present)) : h'.files = h.files := by
  rw [← (Prod.mk.inj hexists).1]
  rfl

theorem createDirectories_spares {q : Path N} {ok : Bool} (hcreate : h.createDirectories q = (h', ok))
    (hq : ¬ path <+: q) : Tree.Spares h.files h'.files path := by
  obtain ⟨rfl, -⟩ := Prod.mk.inj hcreate
  exact Tree.Spares.createDirectories (by simpa using hq)

end Host

theorem publishOne_pass (h : Host N C) (r : Replacement N) :
    Pass r h.files (publishOne h r).1.files (publishOne h r).2 := by
  rw [publishOne]
  split
  next h₁ hcreate => exact .stopped fun path hdestination _ => Host.createDirectories_spares hcreate hdestination
  next h₁ hcreate =>
  have hgrown : Grown r h.files h₁.files :=
    fun path hdestination _ => Host.createDirectories_spares hcreate hdestination
  split
  next h₂ hexists =>
    rw [← Host.files_of_exists hexists] at hgrown
    exact .stopped hgrown
  next h₂ hexists =>
    obtain ⟨hfiles, hfree⟩ := Host.node_of_exists hexists
    rw [← hfiles] at hgrown hfree
    rcases hinstall : h₂.rename r.staged r.destination with ⟨h₃, _ | _⟩
    · rw [← Host.files_of_rename_false hinstall] at hgrown
      exact .stopped hgrown
    · exact .installed hgrown (Option.isNone_iff_eq_none.1 (by simpa using hfree)) (Host.rename_of_rename_true hinstall)
  next h₂ hexists =>
    rw [← Host.files_of_exists hexists] at hgrown
    split
    next h₃ hcreate' =>
      exact .stopped fun path hdestination hbackup =>
        (hgrown path hdestination hbackup).trans (Host.createDirectories_spares hcreate' hbackup)
    next h₃ hcreate' =>
    have hgrown' : Grown r h.files h₃.files := fun path hdestination hbackup =>
      (hgrown path hdestination hbackup).trans (Host.createDirectories_spares hcreate' hbackup)
    split
    next h₄ hmove =>
      rw [← Host.files_of_rename_false hmove] at hgrown'
      exact .stopped hgrown'
    next h₄ hmove =>
      rcases hinstall : h₄.rename r.staged r.destination with ⟨h₅, _ | _⟩
      · have hmove := Host.rename_of_rename_true hmove
        rw [← Host.files_of_rename_false hinstall] at hmove
        exact .movedAway hgrown' hmove
      · exact .replaced hgrown' (Host.rename_of_rename_true hmove) (Host.rename_of_rename_true hinstall)

/-- What the handler needs of a replacement, to bring back the destination as it was at the start. -/
structure Restorable (start files : Tree N C) (p : Processed N) : Prop where
  backedUp : p.hadPrevious = true → (start.node p.destination).isSome ∧
    (∀ x, files.node (p.backup ++ x) = start.node (p.destination ++ x)) ∧
    files.node p.destination.dropLast = some .directory ∧
    (p.installed = false → ∀ x, files.node (p.destination ++ x) = none)
  absent : p.hadPrevious = false → p.installed = true → ∀ x, start.node (p.destination ++ x) = none
  untouched : p.hadPrevious = false → p.installed = false → ∀ x,
    files.node (p.destination ++ x) = start.node (p.destination ++ x)

/-- Operations elsewhere change none of that. -/
theorem Restorable.spared (hr : Restorable start files p) (hdestination : Tree.Spares files files' p.destination)
    (hbackup : Tree.Spares files files' p.backup) : Restorable start files' p where
  backedUp := by
    intro hhad
    obtain ⟨hsome, hsame, habove, hgone⟩ := hr.backedUp hhad
    refine ⟨hsome, fun x => (hbackup.subtree x).trans (hsame x), ?_, fun hinstalled x => ?_⟩
    · exact hdestination.above _ (List.dropLast_prefix _) habove
    · exact (hdestination.subtree x).trans (hgone hinstalled x)
  absent := hr.absent
  untouched := fun hhad hinstalled x => (hdestination.subtree x).trans (hr.untouched hhad hinstalled x)

/-- What is apart from the paths of a replacement is spared. -/
theorem Pass.spares (hpass : Pass r files files' p) (hown : r.paths.Pairwise Apart) (hclear : Clear r path) :
    Tree.Spares files files' path := by
  have hgrow {files₁ : Tree N C} (hgrown : Grown r files files₁) : Tree.Spares files files₁ path :=
    hgrown path hclear.destination.symm.not_prefix_dropLast hclear.backup.symm.not_prefix_dropLast
  simp only [Replacement.paths, List.pairwise_cons, List.mem_cons, List.not_mem_nil, or_false] at hown
  obtain ⟨hstaged, hdestination, -⟩ := hown
  have hrename {a b : Path N} {t t' : Tree N C} (hab : Apart a b) (ha : Apart a path) (hb : Apart b path)
      (hsome : t.rename a b = some t') : Tree.Spares t t' path := by
    rw [(Tree.rename_eq_some hab hsome).2]
    exact .move ha hb
  cases hpass with
  | stopped hgrown => exact hgrow hgrown
  | installed hgrown _ hinstall =>
    exact (hgrow hgrown).trans (hrename (hstaged _ (.inl rfl)) hclear.staged hclear.destination hinstall)
  | movedAway hgrown hmove =>
    exact (hgrow hgrown).trans (hrename (hdestination _ rfl) hclear.destination hclear.backup hmove)
  | replaced hgrown hmove hinstall =>
    exact ((hgrow hgrown).trans (hrename (hdestination _ rfl) hclear.destination hclear.backup hmove)).trans
      (hrename (hstaged _ (.inl rfl)) hclear.staged hclear.destination hinstall)

/-- A destination that nobody has touched can be brought back after its own pass. -/
theorem Pass.restorable (hpass : Pass r files files' p) (hown : r.paths.Pairwise Apart) (htree : start.IsTree)
    (hspared : Tree.Spares start files r.destination) : Restorable start files' p := by
  simp only [Replacement.paths, List.pairwise_cons, List.mem_cons, List.not_mem_nil, or_false, forall_eq_or_imp,
    forall_eq] at hown
  obtain ⟨⟨hstaged, hstaged'⟩, hdestination, -⟩ := hown
  have hlast := not_prefix_dropLast hstaged.ne_nil
  have hgrow {files₁ : Tree N C} (hgrown : Grown r files files₁) : Tree.Spares start files₁ r.destination :=
    hspared.trans (hgrown _ hlast hdestination.not_prefix_dropLast)
  -- what was there is in the backup, with the directories above it where they were
  have hmoved {files₁ files₂ : Tree N C} (hgrown : Grown r files files₁)
      (hmove : files₁.rename r.destination r.backup = some files₂) : (start.node r.destination).isSome ∧
        (∀ x, files₂.node (r.backup ++ x) = start.node (r.destination ++ x)) ∧
        files₂.node r.destination.dropLast = some .directory ∧ ∀ x, files₂.node (r.destination ++ x) = none := by
    obtain ⟨hsome, rfl⟩ := Tree.rename_eq_some hdestination hmove
    have hstart := hgrow hgrown
    rw [hstart.self] at hsome
    refine ⟨hsome, fun x => ?_, ?_, Tree.node_move_source hdestination⟩
    · rw [Tree.node_move_target, hstart.subtree]
    · rw [Tree.node_move_dropLast hdestination]
      exact hstart.above _ (List.dropLast_prefix _) (htree.above hstaged.ne_nil hsome)
  cases hpass with
  | stopped hgrown =>
    exact ⟨fun hhad => absurd hhad Bool.false_ne_true, fun _ hinstalled => absurd hinstalled Bool.false_ne_true,
      fun _ _ => (hgrow hgrown).subtree⟩
  | installed hgrown hfree hinstall =>
    refine ⟨fun hhad => absurd hhad Bool.false_ne_true, fun _ _ => htree.none_append ?_,
      fun _ hinstalled => absurd hinstalled (by simp)⟩
    rw [← (hgrow hgrown).self, hfree]
  | movedAway hgrown hmove =>
    obtain ⟨hsome, hsame, habove, hgone⟩ := hmoved hgrown hmove
    exact ⟨fun _ => ⟨hsome, hsame, habove, fun _ => hgone⟩, fun hhad => absurd hhad (by simp),
      fun hhad => absurd hhad (by simp)⟩
  | replaced hgrown hmove hinstall =>
    obtain ⟨hsome, hsame, habove, -⟩ := hmoved hgrown hmove
    obtain ⟨-, rfl⟩ := Tree.rename_eq_some hstaged hinstall
    refine ⟨fun _ => ⟨hsome, fun x => ?_, ?_, fun hinstalled => absurd hinstalled (by simp)⟩,
      fun hhad => absurd hhad (by simp), fun hhad => absurd hhad (by simp)⟩
    · exact (Tree.Spares.move hstaged' hdestination).subtree x |>.trans (hsame x)
    · rw [Tree.node_move, if_neg hlast, if_neg hstaged.not_prefix_dropLast, habove]

/-! ### The handler -/

/-- The handler brings the destination back. -/
theorem Restorable.undo (hr : Restorable start files p) (hapart : Apart p.backup p.destination) :
    ∀ x, (undo files p).node (p.destination ++ x) = start.node (p.destination ++ x) := by
  obtain ⟨r, had, installed⟩ := p
  cases had with
  | false =>
    cases installed with
    | false => exact hr.untouched rfl rfl
    | true =>
      intro x
      rw [Hydrate.undo, if_pos rfl, if_neg Bool.false_ne_true, Tree.node_removeAll, if_pos (List.prefix_append _ _)]
      exact (hr.absent rfl rfl x).symm
  | true =>
    obtain ⟨hsome, hsame, habove, hgone⟩ := hr.backedUp rfl
    -- with the destination out of the way the backup goes back
    have hback {t : Tree N C} (hbackup : Tree.Spares files t r.backup) (hfree : t.node r.destination = none)
        (hdir : t.node r.destination.dropLast = some .directory) (x : Path N) :
        ((t.rename r.backup r.destination).getD t).node (r.destination ++ x) = start.node (r.destination ++ x) := by
      have hsource : (t.node r.backup).isSome := by
        rw [hbackup.self]
        have hroot := hsame []
        rw [List.append_nil, List.append_nil] at hroot
        rwa [hroot]
      rw [Tree.rename_of_free hapart hsource hdir hfree, Option.getD_some, Tree.node_move_target, hbackup.subtree]
      exact hsame x
    cases installed with
    | false =>
      refine hback .refl ?_ habove
      simpa using hgone rfl []
    | true =>
      have hfree : (files.removeAll r.destination).node r.destination = none := by
        rw [Tree.node_removeAll, if_pos List.prefix_rfl]
      have hdir : (files.removeAll r.destination).node r.destination.dropLast = some .directory := by
        rw [Tree.node_removeAll, if_neg (not_prefix_dropLast hapart.ne_nil)]
        exact habove
      exact hback (.removeAll hapart.symm) hfree hdir

theorem undo_spares (hdestination : Apart p.destination path) (hbackup : Apart p.backup path)
    (hown : Apart p.backup p.destination) : Tree.Spares files (undo files p) path := by
  have hremove : Tree.Spares files (if p.installed then files.removeAll p.destination else files) path := by
    split_ifs
    · exact .removeAll hdestination
    · exact .refl
  rw [Hydrate.undo]
  generalize (if p.installed then files.removeAll p.destination else files) = t at hremove ⊢
  split_ifs
  · cases hrename : t.rename p.backup p.destination with
    | none => exact hremove
    | some t' =>
      obtain ⟨-, rfl⟩ := Tree.rename_eq_some hown hrename
      exact hremove.trans (.move hbackup hdestination)
  · exact hremove

/-- The handler over all that was looked at: each destination is brought back, and what is apart is spared. -/
theorem undo_all {todo : List (Processed N)} (hrestorable : ∀ p ∈ todo, Restorable start files p)
    (hown : ∀ p ∈ todo, p.paths.Pairwise Apart)
    (hpairwise : todo.Pairwise fun p q => ∀ a ∈ p.paths, ∀ b ∈ q.paths, Apart a b) :
    (∀ p ∈ todo, ∀ x, (todo.foldl undo files).node (p.destination ++ x) = start.node (p.destination ++ x)) ∧
    ∀ path, (∀ p ∈ todo, Clear p.toReplacement path) → Tree.Spares files (todo.foldl undo files) path := by
  induction todo generalizing files with
  | nil => exact ⟨fun p hp => absurd hp List.not_mem_nil, fun _ _ => .refl⟩
  | cons p todo ih =>
    obtain ⟨hp, htodo⟩ := List.pairwise_cons.1 hpairwise
    have hbackup : Apart p.backup p.destination := by
      have howns := hown p List.mem_cons_self
      simp only [Replacement.paths, List.pairwise_cons, List.mem_cons, List.not_mem_nil, or_false, forall_eq_or_imp,
        forall_eq] at howns
      exact howns.2.1.symm
    have hspares {path : Path N} (hclear : Clear p.toReplacement path) : Tree.Spares files (undo files p) path :=
      undo_spares hclear.destination hclear.backup hbackup
    have hclear {q : Processed N} (hq : q ∈ todo) {path : Path N} (hpath : path ∈ q.paths) :
        Clear p.toReplacement path := fun a ha => hp q hq a ha path hpath
    have hlater : ∀ q ∈ todo, Restorable start (undo files p) q := fun q hq =>
      (hrestorable q (List.mem_cons_of_mem p hq)).spared (hspares (hclear hq (by simp [Replacement.paths])))
        (hspares (hclear hq (by simp [Replacement.paths])))
    obtain ⟨hrestored, hspared⟩ := ih hlater (fun q hq => hown q (List.mem_cons_of_mem p hq)) htodo
    refine ⟨fun q hq x => ?_, fun path hall => ?_⟩
    · rcases List.mem_cons.1 hq with rfl | hq
      · rw [List.foldl_cons, (hspared q.destination fun q' hq' a ha => ?_).subtree]
        · exact (hrestorable q List.mem_cons_self).undo hbackup x
        · exact (hp q' hq' _ (by simp [Replacement.paths]) a ha).symm
      · exact hrestored q hq x
    · exact (hspares (hall p List.mem_cons_self)).trans
        (hspared path fun q hq => hall q (List.mem_cons_of_mem p hq))

/-! ### The loop -/

/-- What the loop has looked at can be brought back, and the destinations to come are as they were. -/
structure Publishing (start : Tree N C) (replacements : List (Replacement N)) (files : Tree N C)
    (processed : List (Processed N)) (pending : List (Replacement N)) : Prop where
  split : (processed.map (·.toReplacement)).reverse ++ pending = replacements
  restorable : ∀ p ∈ processed, Restorable start files p
  spared : ∀ r ∈ pending, Tree.Spares start files r.destination

variable {replacements pending : List (Replacement N)} {processed : List (Processed N)}

theorem Pass.toReplacement (hpass : Pass r files files' p) : p.toReplacement = r := by
  cases hpass <;> rfl

/-- One pass of the loop keeps that. -/
theorem Publishing.pass (hloop : Publishing start replacements files processed (r :: pending))
    (hseparate : Separate replacements) (htree : start.IsTree) (hpass : Pass r files files' p) :
    Publishing start replacements files' (p :: processed) pending := by
  obtain ⟨hsplit, hrestorable, hspared⟩ := hloop
  have hown : r.paths.Pairwise Apart := hseparate.each r (by simp [← hsplit])
  have hpairwise := hseparate.pairwise
  rw [← hsplit, List.pairwise_append, List.pairwise_cons] at hpairwise
  obtain ⟨-, ⟨hlater, -⟩, hearlier⟩ := hpairwise
  have hspares {path : Path N} (hclear : Clear r path) := hpass.spares hown hclear
  refine ⟨by simp [← hsplit, hpass.toReplacement], fun q hq => ?_, fun r' hr' => ?_⟩
  · rcases List.mem_cons.1 hq with rfl | hq
    · exact hpass.restorable hown htree (hspared r List.mem_cons_self)
    · have hclear {path : Path N} (hpath : path ∈ q.paths) : Clear r path := fun a ha =>
        (hearlier _ (List.mem_reverse.2 (List.mem_map_of_mem hq)) r List.mem_cons_self path hpath a ha).symm
      exact (hrestorable q hq).spared (hspares (hclear (by simp [Replacement.paths])))
        (hspares (hclear (by simp [Replacement.paths])))
  · exact (hspared r' (List.mem_cons_of_mem r hr')).trans
      (hspares fun a ha => hlater r' hr' a ha _ (by simp [Replacement.paths]))

theorem Publishing.publishLoop (hseparate : Separate replacements) (htree : start.IsTree)
    (hloop : Publishing start replacements h.files processed pending) :
    ∃ rest, Publishing start replacements (publishLoop h processed pending).1.files
      (publishLoop h processed pending).2.1 rest := by
  induction pending generalizing h processed with
  | nil => exact ⟨[], hloop⟩
  | cons r pending ih =>
    have hnext := hloop.pass hseparate htree (publishOne_pass h r)
    rw [Hydrate.publishLoop]
    dsimp only
    split_ifs
    · exact ih hnext
    · exact ⟨pending, hnext⟩

end

/-- Where no path lies in another one's subtree, a call that fails leaves at every destination what was there. -/
theorem publish_failed_restores (h : Host N C) (replacements : List (Replacement N))
    (hseparate : Separate replacements) (htree : h.files.IsTree)
    (hfailed : (publishReplacements h replacements).2 = false) :
    ∀ r ∈ replacements, ∀ x,
      (publishReplacements h replacements).1.node (r.destination ++ x) = h.files.node (r.destination ++ x) := by
  have hstart : Publishing h.files replacements h.files [] replacements :=
    ⟨rfl, fun p hp => absurd hp List.not_mem_nil, fun _ _ => .refl⟩
  obtain ⟨rest, hsplit, hrestorable, hspared⟩ := hstart.publishLoop hseparate htree
  rw [publishReplacements] at hfailed ⊢
  generalize publishLoop h [] replacements = outcome at *
  obtain ⟨h', processed, ok⟩ := outcome
  cases ok with
  | true => cases hfailed
  | false =>
    dsimp only at hsplit hrestorable hspared
    have hreplaced : ∀ p ∈ processed, p.toReplacement ∈ replacements := by
      intro p hp
      simpa [← hsplit] using Or.inl ⟨p, hp, rfl⟩
    have hpairwise := hseparate.pairwise
    rw [← hsplit, List.pairwise_append, List.pairwise_reverse, List.pairwise_map] at hpairwise
    obtain ⟨hearlier, -, hacross⟩ := hpairwise
    -- the handler starts with the last one
    obtain ⟨hrestored, hspared'⟩ := undo_all hrestorable (fun p hp => hseparate.each _ (hreplaced p hp))
      (hearlier.imp fun hapart a ha b hb => (hapart b hb a ha).symm)
    intro r hr x
    rw [← hsplit] at hr
    rcases List.mem_append.1 hr with hr | hr
    · obtain ⟨p, hp, rfl⟩ := List.mem_map.1 (List.mem_reverse.1 hr)
      exact hrestored p hp x
    · have hclear : ∀ p ∈ processed, Clear p.toReplacement r.destination := fun p hp a ha =>
        hacross _ (List.mem_reverse.2 (List.mem_map_of_mem hp)) r hr a ha _ (by simp [Replacement.paths])
      exact ((hspared' _ hclear).subtree x).trans ((hspared r hr).subtree x)

/-! ### Runs -/

/-- A tree with the staged subtrees `0/1` and `0/2`, and what is said to be there besides. -/
def stagedTree (others : List (Path ℕ × Node ℕ)) : Tree ℕ ℕ :=
  ⟨[([], .directory), ([0], .directory), ([0, 1], .file 11), ([0, 2], .file 12)] ++ others⟩

theorem stagedTree_isTree : (stagedTree [([1], .file 7)]).IsTree := Tree.isTree_of_entries (by decide)

/-- The second replacement fails, and the first one is taken back. -/
theorem publish_failed_restores_first :
    (publishReplacements ⟨stagedTree [([1], .file 7)], List.replicate 7 none ++ [some 0]⟩
      [⟨[0, 1], [1], [3, 1]⟩, ⟨[0, 2], [2], [3, 2]⟩]).1.node [1] = some (.file 7) := by
  refine (publish_failed_restores _ _ ⟨by decide, by decide⟩ stagedTree_isTree ?_ ⟨[0, 1], [1], [3, 1]⟩ (by simp)
    []).trans ?_
  · decide
  · decide

/-- The directories above the first destination are the second one, and stay. -/
theorem publish_nested :
    ∃ (h : Host ℕ ℕ) (replacements : List (Replacement ℕ)),
      (replacements.map (·.destination)).Nodup ∧ (publishReplacements h replacements).2 = false ∧
        ∃ r ∈ replacements, h.files.node r.destination = none ∧
          (publishReplacements h replacements).1.node r.destination = some .directory :=
  ⟨⟨stagedTree [], List.replicate 5 none ++ [some 0]⟩, [⟨[0, 1], [1, 5], [3, 1]⟩, ⟨[0, 2], [1], [3, 2]⟩],
    by decide, by decide, ⟨[0, 2], [1], [3, 2]⟩, by simp, by decide, by decide⟩

end Psprism.Hydrate
