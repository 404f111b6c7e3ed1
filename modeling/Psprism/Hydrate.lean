import Psprism.ProjectManifest
import Psprism.PublishReplacements

/-!
# Hydration (`project/hydrate.cpp`, `project/export.cpp`)

`psprism hydrate` generates the private outputs of a project and publishes them. It calls a project up to date when
the stamp of the last run has the identity of the input, manifest, code map and toolchain, or when there is no stamp
and the marker of the export has the hashes of the input and of the executable. The hash and the generation are
parameters (`Tools`).

What a run calls up to date has been generated for what there is, in every sequence of runs and edits in which the
outputs that are called so are not those of a run that was cut short while it published, and the marker is accepted
for the manifest, code map and toolchain of the export (`up_to_date`). Neither is checked.
-/

namespace Psprism.Hydrate

/-- The private outputs: `src/generated`, `platform`, `include/psprecomp`, `refract` and `disc`. -/
inductive Output
  | generated | platform | runtime | refract | disc
deriving DecidableEq

/-- The input by its path, size and time of the last change. -/
structure Input where
  path : Text
  size : Nat
  timestamp : Int
deriving DecidableEq

/-- The regular files of a directory, in their order, with their contents. -/
abbrev Directory := List (Text × Text)

/-- What a run is configured with; `none` for what is no regular file or no directory. -/
structure Toolchain where
  revision : Text
  executable : Option Text
  runtime : Option Directory
  refract : Option Directory
deriving DecidableEq

structure SourceInfo where
  kind : InputKind
  discId : Text

/-- What hydration uses: the hash, the content of an input, what is read from it, and the outputs that are generated.
`required` is whether an output has the files that `hydration_outputs_exist` looks for. -/
structure Tools (C : Type) where
  sha256Hex : Text → Text
  content : Input → Text
  inspectSource : Text → Except Text SourceInfo
  executableData : ProjectManifest → Text → Except Text Text
  generate : ProjectManifest → Option Text → Text → Text → Toolchain → Except Text (Output → C)
  required : Output → C → Bool

/-- Where things are. -/
structure Paths where
  project : Text
  runtimeIncludeDirectory : Text
  refractDirectory : Text

/-- The project with what is around it; `files` has its code maps, `stamp` and `marker` are lines of text. -/
structure World (C : Type) where
  paths : Paths
  manifest : Text
  files : Text → Option Text
  input : Input
  toolchain : Toolchain
  outputs : Output → Option C
  stamp : Option (List Text)
  marker : Option (List Text)

def outputsOf (manifest : ProjectManifest) : List Output :=
  [.generated, .platform, .runtime, .refract] ++ if manifest.discExtracted then [.disc] else []

theorem nodup_outputsOf (manifest : ProjectManifest) : (outputsOf manifest).Nodup := by
  rw [outputsOf]
  split <;> decide

theorem generated_mem (manifest : ProjectManifest) : Output.generated ∈ outputsOf manifest := by
  simp [outputsOf]

section
variable {C : Type} (T : Tools C) (w : World C)

def hydrationOutputsExist (manifest : ProjectManifest) : Bool :=
  (outputsOf manifest).all fun c => (w.outputs c).any (T.required c)

def directoryIdentity (files : Directory) : Text :=
  T.sha256Hex (files.flatMap fun file => file.1 ++ '\x00' :: T.sha256Hex file.2 ++ ['\n'])

/-- The manifest with its code map, and the directories of the toolchain. -/
structure Request where
  manifest : ProjectManifest
  map : Option Text
  runtime : Directory
  refract : Directory

/-- The tests before anything is hashed. -/
def prepare : Except Text Request :=
  match w.toolchain.runtime, w.toolchain.refract with
  | none, _ => .error ("cannot find PSPRecomp runtime headers at: ".toList ++ w.paths.runtimeIncludeDirectory)
  | _, none => .error ("cannot find refract engine at: ".toList ++ w.paths.refractDirectory)
  | some runtime, some refract =>
    (loadProjectManifest w.manifest).bind fun manifest =>
      (T.inspectSource (T.content w.input)).bind fun source =>
        if source.kind ≠ manifest.inputKind then .error "input kind does not match project.toml".toList
        else if manifest.discId ≠ [] ∧ source.discId ≠ manifest.discId then
          .error ("wrong game disc: expected ".toList ++ manifest.discId ++ ", found ".toList ++
            if source.discId = [] then "no DISC_ID".toList else source.discId)
        else if manifest.codeMap = [] then .ok ⟨manifest, none, runtime, refract⟩
        else
          match w.files manifest.codeMap with
          | none =>
            .error ("project code map does not exist: ".toList ++ w.paths.project ++ '/' :: manifest.codeMap)
          | some map => .ok ⟨manifest, some map, runtime, refract⟩

def toolchainIdentity (r : Request) : Text :=
  w.toolchain.revision ++ (w.toolchain.executable.elim [] fun executable => '\n' :: T.sha256Hex executable) ++
    '\n' :: directoryIdentity T r.runtime ++ '\n' :: directoryIdentity T r.refract

def decimal (n : Int) : Text := if n < 0 then '-' :: Nat.toDigits 10 n.natAbs else Nat.toDigits 10 n.natAbs

def fastInputIdentity (r : Request) : Text :=
  T.sha256Hex (w.input.path ++ '\n' :: Nat.toDigits 10 w.input.size ++ '\n' :: decimal w.input.timestamp ++
    '\n' :: T.sha256Hex w.manifest ++ '\n' :: (r.map.elim [] T.sha256Hex) ++ '\n' :: toolchainIdentity T w r)

/-- The outputs for the input, manifest, code map and toolchain, with the hash of the executable. -/
def build (r : Request) : Except Text (Text × (Output → C)) :=
  (T.executableData r.manifest (T.content w.input)).bind fun executable =>
    if r.manifest.executableSha256 ≠ [] ∧ T.sha256Hex executable ≠ r.manifest.executableSha256 then
      .error "unsupported game revision: executable SHA-256 does not match project.toml".toList
    else
      (T.generate r.manifest r.map (T.content w.input) executable w.toolchain).map fun outputs =>
        (T.sha256Hex executable, outputs)

/-- The stamp is accepted. -/
def Cached (force : Bool) (r : Request) : Prop :=
  force = false ∧ (∃ input executable, w.stamp = some [fastInputIdentity T w r, input, executable]) ∧
    hydrationOutputsExist T w r.manifest = true

/-- `stamp` and `marker` as `cache_lines` gives them: a file that is not there has no lines. -/
def cacheLines (file : Option (List Text)) : List Text := file.getD []

/-- The input is the one that the manifest records. -/
def Recorded (r : Request) : Prop :=
  r.manifest.inputSha256 = [] ∨ T.sha256Hex (T.content w.input) = r.manifest.inputSha256

/-- The marker of the export is accepted. -/
def Marked (force : Bool) (r : Request) : Prop :=
  force = false ∧ cacheLines w.stamp = [] ∧
    cacheLines w.marker = [T.sha256Hex (T.content w.input), r.manifest.executableSha256] ∧
    hydrationOutputsExist T w r.manifest = true

def stampLines (r : Request) (executable : Text) : List Text :=
  [fastInputIdentity T w r, T.sha256Hex (T.content w.input), executable]

/-! ### Runs -/

/-- How a run ends: it says that the project is up to date, it has generated the outputs, or it fails or is killed. -/
inductive Outcome
  | upToDate | hydrated | stopped
deriving DecidableEq

/-- A run accepts neither the stamp nor the marker, generates the outputs and has come to `p` in publishing them. -/
structure Publishes (force : Bool) (r : Request) (executable : Text) (staged : Output → C)
    (p : Publication Output C) : Prop where
  prepared : prepare T w = .ok r
  notCached : ¬ Cached T w force r
  recorded : Recorded T w r
  notMarked : ¬ Marked T w force r
  built : build T w r = .ok (executable, staged)
  steps : Relation.ReflTransGen (Publication.Step staged) { outputs := w.outputs, pending := outputsOf r.manifest } p

/-- A run; the last two are whether a run had been cut short while it published. -/
inductive HydrateCodebase (force : Bool) : Outcome → World C → Bool → Bool → Prop
  /-- It fails, or is killed, before it has changed anything. -/
  | unchanged {torn} : HydrateCodebase force .stopped w torn torn
  | cached {torn r} (hprepare : prepare T w = .ok r) (hcached : Cached T w force r) :
    HydrateCodebase force .upToDate w torn torn
  /-- It has written the stamp for the outputs of the export; it can still be killed then. -/
  | marked {torn r outcome} (hprepare : prepare T w = .ok r) (hcached : ¬ Cached T w force r)
      (hinput : Recorded T w r) (hmarked : Marked T w force r) (houtcome : outcome ≠ .hydrated) :
    HydrateCodebase force outcome { w with stamp := some (stampLines T w r r.manifest.executableSha256) } torn torn
  /-- It has failed while it published, and has put back what there was. -/
  | undone {torn r executable staged p} (h : Publishes T w force r executable staged p) (hundone : p.Undone) :
    HydrateCodebase force .stopped { w with outputs := p.outputs } torn torn
  /-- It is cut short: killed while it publishes or puts back, or without the stamp, or it fails to put all back. -/
  | torn {torn r executable staged p} (h : Publishes T w force r executable staged p) :
    HydrateCodebase force .stopped { w with outputs := p.outputs } torn true
  /-- It has published all and written the stamp; it can still fail or be killed then. -/
  | published {torn r executable staged p outcome} (h : Publishes T w force r executable staged p)
      (hpublished : p.Published) (houtcome : outcome ≠ .upToDate) :
    HydrateCodebase force outcome
      { w with outputs := p.outputs, stamp := some (stampLines T w r executable) } torn false

end

/-- A project with its history: the world of its export, and whether a run has been cut short while it published, with
no complete one since. -/
structure History (C : Type) where
  world : World C
  exported : World C
  torn : Bool

section
variable {C : Type} (T : Tools C)

/-- The outputs are those generated for the input, manifest, code map and toolchain. -/
def UpToDate (w : World C) : Prop :=
  ∃ r executable outputs, prepare T w = .ok r ∧ build T w r = .ok (executable, outputs) ∧
    ∀ c ∈ outputsOf r.manifest, w.outputs c = some (outputs c)

/-- `export_codebase` has left the world; the manifest has the hashes of the marker. -/
structure Exported (w : World C) : Prop where
  stamp : w.stamp = none
  built : ∃ r executable outputs, prepare T w = .ok r ∧ build T w r = .ok (executable, outputs) ∧
    (∀ c ∈ outputsOf r.manifest, w.outputs c = some (outputs c)) ∧ r.manifest.executableSha256 = executable ∧
    w.marker = some [T.sha256Hex (T.content w.input), executable]

/-- The manifest, code map and toolchain are the same. -/
def SameProject (w w' : World C) : Prop := ∃ r, prepare T w = .ok r ∧ prepare T w' = .ok r ∧ w.toolchain = w'.toolchain

/-- What is not checked: a stamp or marker that is accepted is not older than a run that was cut short, and the marker
is accepted for the manifest, code map and toolchain of the export. -/
def Sound (h : History C) (force : Bool) : Prop :=
  ∀ r, prepare T h.world = .ok r →
    (Cached T h.world force r → h.torn = false) ∧
      (¬ Cached T h.world force r → Marked T h.world force r → h.torn = false ∧ SameProject T h.world h.exported)

/-- Edits of the manifest, of files, of the input and of the toolchain, and runs. `guard` is what is asked of a run. -/
inductive Step (guard : History C → Bool → Prop) : History C → History C → Prop
  | edit {h w'} (houtputs : w'.outputs = h.world.outputs) (hstamp : w'.stamp = h.world.stamp)
      (hmarker : w'.marker = h.world.marker) : Step guard h { h with world := w' }
  | hydrate {h force outcome w' torn} (hguard : guard h force)
      (hrun : HydrateCodebase T h.world force outcome w' h.torn torn) :
    Step guard h { h with world := w', torn := torn }

/-- The histories of an export, among the worlds of `U`. -/
inductive Reachable (U : Set (World C)) (guard : History C → Bool → Prop) : History C → Prop
  | start {w} (hexport : Exported T w) (hU : w ∈ U) : Reachable U guard ⟨w, w, false⟩
  | step {h h'} (hh : Reachable U guard h) (hstep : Step T guard h h') (hU : h'.world ∈ U) : Reachable U guard h'

/-- The hashes do not collide among the worlds of `U`. -/
structure CollisionFree (U : Set (World C)) : Prop where
  identity : ∀ w ∈ U, ∀ w' ∈ U, ∀ r r', prepare T w = .ok r → prepare T w' = .ok r' →
    fastInputIdentity T w r = fastInputIdentity T w' r' →
      w.input = w'.input ∧ w.manifest = w'.manifest ∧ r.map = r'.map ∧ w.toolchain = w'.toolchain
  content : ∀ w ∈ U, ∀ w' ∈ U, T.sha256Hex (T.content w.input) = T.sha256Hex (T.content w'.input) →
    T.content w.input = T.content w'.input

variable {T} {w w' : World C} {r r' : Request}

theorem bind_eq_ok {E A B : Type} {x : Except E A} {f : A → Except E B} {b : B} (h : x.bind f = .ok b) :
    ∃ a, x = .ok a ∧ f a = .ok b := by
  cases x with
  | error e => cases h
  | ok a => exact ⟨a, rfl, h⟩

theorem prepare_eq_ok (h : prepare T w = .ok r) :
    loadProjectManifest w.manifest = .ok r.manifest ∧ w.toolchain.runtime = some r.runtime ∧
      w.toolchain.refract = some r.refract := by
  rw [prepare] at h
  split at h
  · cases h
  · cases h
  next runtime refract hruntime hrefract =>
    obtain ⟨manifest, hmanifest, h⟩ := bind_eq_ok h
    obtain ⟨source, -, h⟩ := bind_eq_ok h
    split at h
    · cases h
    split at h
    · cases h
    split at h
    · cases h
      exact ⟨hmanifest, hruntime, hrefract⟩
    split at h
    · cases h
    · cases h
      exact ⟨hmanifest, hruntime, hrefract⟩

theorem prepare_withStamp (stamp : Option (List Text)) : prepare T { w with stamp := stamp } = prepare T w := rfl

theorem build_withStamp (stamp : Option (List Text)) : build T { w with stamp := stamp } r = build T w r := rfl

/-- The line for the code map can be told from an identity. -/
theorem map_of_identity (hinjective : Function.Injective T.sha256Hex) (hinput : w.input = w'.input)
    (hmanifest : w.manifest = w'.manifest) (htoolchain : toolchainIdentity T w r = toolchainIdentity T w' r')
    (h : fastInputIdentity T w r = fastInputIdentity T w' r') :
    r.map.elim [] T.sha256Hex = r'.map.elim [] T.sha256Hex := by
  have htext := hinjective h
  rw [hinput, hmanifest, htoolchain] at htext
  exact (List.cons.inj (List.append_cancel_left (List.append_cancel_right htext))).2

/-- What is generated depends on the identity only. -/
theorem build_of_identity {U : Set (World C)} (hfree : CollisionFree T U) (hw : w ∈ U) (hw' : w' ∈ U)
    (hprepare : prepare T w = .ok r) (hprepare' : prepare T w' = .ok r')
    (hidentity : fastInputIdentity T w r = fastInputIdentity T w' r') : r = r' ∧ build T w r = build T w' r' := by
  obtain ⟨hinput, hmanifest, hmap, htoolchain⟩ := hfree.identity w hw w' hw' r r' hprepare hprepare' hidentity
  obtain ⟨hload, hruntime, hrefract⟩ := prepare_eq_ok hprepare
  obtain ⟨hload', hruntime', hrefract'⟩ := prepare_eq_ok hprepare'
  obtain ⟨manifest, map, runtime, refract⟩ := r
  obtain ⟨manifest', map', runtime', refract'⟩ := r'
  obtain rfl : manifest = manifest' := Except.ok.inj (hload.symm.trans ((congrArg _ hmanifest).trans hload'))
  obtain rfl : map = map' := hmap
  obtain rfl : runtime = runtime' :=
    Option.some.inj (hruntime.symm.trans ((congrArg Toolchain.runtime htoolchain).trans hruntime'))
  obtain rfl : refract = refract' :=
    Option.some.inj (hrefract.symm.trans ((congrArg Toolchain.refract htoolchain).trans hrefract'))
  exact ⟨rfl, by rw [build, build, hinput, htoolchain]⟩

/-- The outputs that a stamp stands for are those of its identity, and without a stamp those of the export, unless a
run has been cut short. -/
structure Inv (T : Tools C) (U : Set (World C)) (h : History C) : Prop where
  mem : h.world ∈ U
  exported_mem : h.exported ∈ U
  marker : h.world.marker = h.exported.marker
  exported : Exported T h.exported
  stamp : h.torn = false → ∀ lines, h.world.stamp = some lines →
    ∃ w ∈ U, ∃ r executable outputs input hash, prepare T w = .ok r ∧ build T w r = .ok (executable, outputs) ∧
      lines = [fastInputIdentity T w r, input, hash] ∧
      ∀ c ∈ outputsOf r.manifest, h.world.outputs c = some (outputs c)
  noStamp : h.torn = false → h.world.stamp = none → ∀ r executable outputs, prepare T h.exported = .ok r →
    build T h.exported r = .ok (executable, outputs) → ∀ c ∈ outputsOf r.manifest, h.world.outputs c = some (outputs c)

section
variable {U : Set (World C)} {h : History C} {force : Bool}

theorem inv_start (hexport : Exported T w) (hU : w ∈ U) : Inv T U ⟨w, w, false⟩ where
  mem := hU
  exported_mem := hU
  marker := rfl
  exported := hexport
  stamp _ lines hlines := by
    rw [hexport.stamp] at hlines
    cases hlines
  noStamp _ _ r executable outputs hprepare hbuild := by
    obtain ⟨r', executable', outputs', hprepare', hbuild', houtputs, -⟩ := hexport.built
    obtain rfl := Except.ok.inj (hprepare.symm.trans hprepare')
    obtain ⟨-, rfl⟩ := Prod.mk.inj (Except.ok.inj (hbuild.symm.trans hbuild'))
    exact houtputs

/-- A stamp that is accepted is right, unless a run has been cut short. -/
theorem Inv.upToDate_of_cached (hinv : Inv T U h) (hfree : CollisionFree T U) (hprepare : prepare T h.world = .ok r)
    (hcached : Cached T h.world force r) (htorn : h.torn = false) : UpToDate T h.world := by
  obtain ⟨-, ⟨input, hash, hstamp⟩, -⟩ := hcached
  obtain ⟨w, hw, r', executable, outputs, input', hash', hprepare', hbuild', hlines, houtputs⟩ :=
    hinv.stamp htorn _ hstamp
  obtain ⟨hidentity, -⟩ := List.cons.inj hlines
  obtain ⟨rfl, hbuild⟩ := build_of_identity hfree hinv.mem hw hprepare hprepare' hidentity
  exact ⟨r, executable, outputs, hprepare, hbuild.trans hbuild', houtputs⟩

/-- The marker is right for the project that was exported, unless a run has been cut short. -/
theorem Inv.upToDate_of_marked (hinv : Inv T U h) (hfree : CollisionFree T U) (hprepare : prepare T h.world = .ok r)
    (hmarked : Marked T h.world force r) (htorn : h.torn = false) (hsame : SameProject T h.world h.exported) :
    ∃ executable outputs, build T h.world r = .ok (executable, outputs) ∧
      ∀ c ∈ outputsOf r.manifest, h.world.outputs c = some (outputs c) := by
  obtain ⟨-, hnoStamp, hmarker, -⟩ := hmarked
  have hstamp : h.world.stamp = none := by
    cases hlines : h.world.stamp with
    | none => rfl
    | some lines =>
      obtain ⟨w, -, r', -, -, input, hash, -, -, rfl, -⟩ := hinv.stamp htorn lines hlines
      rw [hlines] at hnoStamp
      cases hnoStamp
  obtain ⟨r', hprepare', hexported, htoolchain⟩ := hsame
  obtain rfl := Except.ok.inj (hprepare.symm.trans hprepare')
  obtain ⟨r', executable, outputs, hexported', hbuild, -, -, hexportedMarker⟩ := hinv.exported.built
  obtain rfl := Except.ok.inj (hexported.symm.trans hexported')
  rw [hinv.marker, hexportedMarker] at hmarker
  obtain ⟨hhash, -⟩ := List.cons.inj hmarker
  have hcontent := hfree.content _ hinv.exported_mem _ hinv.mem hhash
  refine ⟨executable, outputs, ?_, hinv.noStamp htorn hstamp r executable outputs hexported hbuild⟩
  rw [← hbuild, build, build, hcontent, htoolchain]

/-- Every edit and every run keeps the invariant. -/
theorem Inv.step {h' : History C} (hinv : Inv T U h) (hfree : CollisionFree T U) (hstep : Step T (Sound T) h h')
    (hU : h'.world ∈ U) : Inv T U h' := by
  obtain ⟨hmem, hexportedMem, hmarker, hexported, hstamp, hnoStamp⟩ := id hinv
  cases hstep with
  | edit houtputs hstamp' hmarker' =>
    refine ⟨hU, hexportedMem, hmarker'.trans hmarker, hexported, fun htorn lines hlines => ?_,
      fun htorn hlines => ?_⟩
    · simp only [houtputs]
      exact hstamp htorn lines (hstamp'.symm.trans hlines)
    · simp only [houtputs]
      exact hnoStamp htorn (hstamp'.symm.trans hlines)
  | hydrate hguard hrun =>
    cases hrun with
    | unchanged => exact hinv
    | cached => exact hinv
    | @marked _ r outcome hprepare hcached hinput hmarked houtcome =>
      obtain ⟨htorn, hsame⟩ := (hguard r hprepare).2 hcached hmarked
      obtain ⟨executable, outputs, hbuild, houtputs⟩ := hinv.upToDate_of_marked hfree hprepare hmarked htorn hsame
      refine ⟨hU, hexportedMem, hmarker, hexported, fun _ lines hlines => ?_, fun _ hlines => by cases hlines⟩
      obtain rfl := Option.some.inj hlines
      exact ⟨h.world, hmem, r, executable, outputs, _, _, hprepare, hbuild, rfl, houtputs⟩
    | undone hpublishes hundone =>
      have hsame := Publication.outputs_of_undone (nodup_outputsOf _) hpublishes.steps hundone
      refine ⟨hU, hexportedMem, hmarker, hexported, fun htorn lines hlines => ?_, fun htorn hlines => ?_⟩
      · simp only [hsame]
        exact hstamp htorn lines hlines
      · simp only [hsame]
        exact hnoStamp htorn hlines
    | torn hpublishes =>
      exact ⟨hU, hexportedMem, hmarker, hexported, (fun htorn => by cases htorn), (fun htorn => by cases htorn)⟩
    | @published _ r executable staged p outcome hpublishes hpublished houtcome =>
      refine ⟨hU, hexportedMem, hmarker, hexported, fun _ lines hlines => ?_, fun _ hlines => by cases hlines⟩
      obtain rfl := Option.some.inj hlines
      refine ⟨h.world, hmem, r, executable, staged, _, _, hpublishes.prepared, hpublishes.built, rfl, fun c hc => ?_⟩
      have hc' := Publication.outputs_of_published (nodup_outputsOf _) hpublishes.steps hpublished c
      rw [if_pos hc] at hc'
      exact hc'

theorem Reachable.inv (hfree : CollisionFree T U) (hh : Reachable T U (Sound T) h) : Inv T U h := by
  induction hh with
  | start hexport hU => exact inv_start hexport hU
  | step _ hstep hU ih => exact ih.step hfree hstep hU

end

/-- In every history of an export in which no stamp and no marker is accepted that is older than a run that was cut
short, and the marker only for the project of the export: what a run calls up to date is up to date. -/
theorem up_to_date (T : Tools C) (U : Set (World C)) (hfree : CollisionFree T U) (h : History C)
    (hh : Reachable T U (Sound T) h) (force : Bool) (hsound : Sound T h force) (w' : World C) (torn : Bool)
    (hrun : HydrateCodebase T h.world force .upToDate w' h.torn torn) : UpToDate T w' := by
  have hinv := hh.inv hfree
  cases hrun with
  | cached hprepare hcached => exact hinv.upToDate_of_cached hfree hprepare hcached ((hsound _ hprepare).1 hcached)
  | marked hprepare hcached hinput hmarked houtcome =>
    obtain ⟨htorn, hsame⟩ := (hsound _ hprepare).2 hcached hmarked
    obtain ⟨executable, outputs, hbuild, houtputs⟩ := hinv.upToDate_of_marked hfree hprepare hmarked htorn hsame
    exact ⟨_, executable, outputs, hprepare, hbuild, houtputs⟩
  | published _ _ houtcome => exact absurd rfl houtcome

end

/-! ### A project with a code map -/

/-- Tools whose hash is the text itself, and whose outputs are copies of the code map. -/
def copyTools : Tools (Option Text) where
  sha256Hex := id
  content input := input.path
  inspectSource _ := .ok ⟨.executable, []⟩
  executableData _ _ := .ok "elf".toList
  generate _ map _ _ _ := .ok fun _ => map
  required _ _ := true

/-- The manifest that names the code map. -/
def mapManifest : Text :=
  ("format_version = 1\ndisplay_name = \"g\"\nproject_name = \"g\"\nexecutable = \"e\"\ncode_map = \"m\"\n" ++
    "executable_sha256 = \"elf\"\n").toList

/-- The project after its export with the code map `map`, where the code map is `now`. -/
def mapWorld (map now : Text) : World (Option Text) where
  paths := ⟨[], [], []⟩
  manifest := mapManifest
  files path := if path = "m".toList then some now else none
  input := ⟨"game".toList, 4, 0⟩
  toolchain := ⟨[], none, some [], some []⟩
  outputs _ := some (some map)
  stamp := none
  marker := some ["game".toList, "elf".toList]

def mapRequest (now : Text) : Request where
  manifest :=
    { displayName := "g".toList, projectName := "g".toList, executablePath := "e".toList, codeMap := "m".toList,
      executableSha256 := "elf".toList }
  map := some now
  runtime := []
  refract := []

theorem prepare_mapWorld (map now : Text) : prepare copyTools (mapWorld map now) = .ok (mapRequest now) := by
  have hload : loadProjectManifest mapManifest = .ok (mapRequest []).manifest := by decide +kernel
  simp only [prepare, mapWorld, hload]
  rfl

theorem build_mapWorld (map now : Text) :
    build copyTools (mapWorld map now) (mapRequest now) = .ok ("elf".toList, fun _ => some now) := rfl

theorem exported_mapWorld (map : Text) : Exported copyTools (mapWorld map map) where
  stamp := rfl
  built := ⟨mapRequest map, "elf".toList, fun _ => some map, prepare_mapWorld map map, build_mapWorld map map,
    fun _ _ => rfl, rfl, rfl⟩

theorem not_cached_mapWorld (map now : Text) : ¬ Cached copyTools (mapWorld map now) false (mapRequest now) := by
  rintro ⟨-, ⟨input, executable, hstamp⟩, -⟩
  cases hstamp

/-- The marker of the export is accepted whatever the code map is now. -/
theorem hydrate_mapWorld (map now : Text) :
    HydrateCodebase copyTools (mapWorld map now) false .upToDate
      { mapWorld map now with stamp := some (stampLines copyTools (mapWorld map now) (mapRequest now) "elf".toList) }
      false false :=
  .marked (prepare_mapWorld map now) (not_cached_mapWorld map now) (.inl rfl)
    ⟨rfl, rfl, rfl, by simp [hydrationOutputsExist, mapWorld, copyTools, outputsOf]⟩ (by decide)

/-- The first run after an export accepts its marker, and the outputs are those of the export. -/
theorem up_to_date_map :
    UpToDate copyTools
      { mapWorld [] [] with stamp := some (stampLines copyTools (mapWorld [] []) (mapRequest []) "elf".toList) } := by
  have hfree : CollisionFree copyTools ({mapWorld [] []} : Set (World (Option Text))) := by
    refine ⟨?_, ?_⟩
    · rintro w rfl w' rfl r r' hprepare hprepare' -
      obtain rfl := Except.ok.inj (hprepare.symm.trans hprepare')
      exact ⟨rfl, rfl, rfl, rfl⟩
    · rintro w rfl w' rfl -
      rfl
  have hsame : SameProject copyTools (mapWorld [] []) (mapWorld [] []) :=
    ⟨mapRequest [], prepare_mapWorld [] [], prepare_mapWorld [] [], rfl⟩
  exact up_to_date copyTools {mapWorld [] []} hfree ⟨mapWorld [] [], mapWorld [] [], false⟩
    (.start (exported_mapWorld []) rfl) false (fun _ _ => ⟨fun _ => rfl, fun _ _ => ⟨rfl, hsame⟩⟩) _ _
    (hydrate_mapWorld [] [])

theorem collisionFree_mapWorld :
    CollisionFree copyTools ({mapWorld [] [], mapWorld [] ['x']} : Set (World (Option Text))) := by
  have hne : fastInputIdentity copyTools (mapWorld [] []) (mapRequest []) ≠
      fastInputIdentity copyTools (mapWorld [] ['x']) (mapRequest ['x']) := by
    intro heq
    have hinjective : Function.Injective copyTools.sha256Hex := Function.injective_id
    have hmap := @map_of_identity _ _ (mapWorld [] []) (mapWorld [] ['x']) (mapRequest []) (mapRequest ['x']) hinjective
      rfl rfl rfl heq
    cases hmap
  refine ⟨?_, ?_⟩
  · intro w hw w' hw' r r' hprepare hprepare' hidentity
    rcases hw with rfl | rfl <;> rcases hw' with rfl | rfl <;>
      obtain rfl := Except.ok.inj (hprepare.symm.trans (prepare_mapWorld _ _)) <;>
      obtain rfl := Except.ok.inj (hprepare'.symm.trans (prepare_mapWorld _ _))
    · exact ⟨rfl, rfl, rfl, rfl⟩
    · exact absurd hidentity hne
    · exact absurd hidentity.symm hne
    · exact ⟨rfl, rfl, rfl, rfl⟩
  · rintro w (rfl | rfl) w' (rfl | rfl) -
    all_goals rfl

/-- An export, an edit of the code map, and a run that calls the project up to date: its outputs are those for the
code map of the export. -/
theorem hydrate_differs :
    ∃ w w' : World (Option Text), CollisionFree copyTools {w, w'} ∧ Exported copyTools w ∧
      Step copyTools (fun _ _ => True) ⟨w, w, false⟩ ⟨w', w, false⟩ ∧
        ∃ w'' torn, HydrateCodebase copyTools w' false .upToDate w'' false torn ∧ ¬ UpToDate copyTools w'' := by
  refine ⟨mapWorld [] [], mapWorld [] ['x'], collisionFree_mapWorld, exported_mapWorld [], .edit rfl rfl rfl, _, false,
    hydrate_mapWorld [] ['x'], ?_⟩
  rintro ⟨r, executable, outputs, hprepare, hbuild, houtputs⟩
  rw [prepare_withStamp, prepare_mapWorld] at hprepare
  obtain rfl := Except.ok.inj hprepare
  rw [build_withStamp, build_mapWorld] at hbuild
  obtain ⟨-, rfl⟩ := Prod.mk.inj (Except.ok.inj hbuild)
  have hgenerated := houtputs .generated (generated_mem _)
  cases hgenerated

end Psprism.Hydrate
