import Psprism.FileView
import Psprism.Lib.HostPath
import Psprism.Lib.Machine

/-!
# The host paths of guest paths (`resolve_path` in `runtime.cpp`, `sceIoChdir.cpp`)

A guest path names a drive by its device, the disc by a separator in front, and otherwise something in the current
directory, which is on the drive it was set on. The rest is appended to the host path of the drive or of the current
directory, with its `..` as they are. The host path is inside the root of the drive just when the rest comes back
through what it goes up beyond the root (`resolvePath_inside_iff`); on a Windows host the rest can also begin with a
root name, and then nothing of the root is left.
-/

namespace Psprism.Io

open HostPath

inductive Drive
  | disc | memoryStick
deriving DecidableEq

/-- `disc_root` and `writable_root` of the configuration. -/
structure Roots where
  disc : Path
  writable : Path

def Roots.path (roots : Roots) : Drive → Path
  | .disc => roots.disc
  | .memoryStick => roots.writable

/-- `std::replace` of the backslashes. -/
def normalizeSeparators (path : List Char) : List Char := path.map fun c => if c = '\\' then '/' else c

def suffix (value start : List Char) : List Char := (value.drop start.length).dropWhile (· = '/')

def resolvePath (system : System) (roots : Roots) (currentDirectory : Path) (pspPath : List Char) : Path :=
  let pspPath := normalizeSeparators pspPath
  let join (root : Path) (rest : List Char) := append system root (parse system rest)
  if startsWithCaseInsensitive pspPath "disc0:".toList then join roots.disc (suffix pspPath "disc0:".toList)
  else if startsWithCaseInsensitive pspPath "umd0:".toList then join roots.disc (suffix pspPath "umd0:".toList)
  else if startsWithCaseInsensitive pspPath "ms0:".toList then join roots.writable (suffix pspPath "ms0:".toList)
  else if pspPath.head? = some '/' then join roots.disc (suffix pspPath [])
  else join (if currentDirectory = ⟨[], []⟩ then roots.disc else currentDirectory) (suffix pspPath [])

/-! ### Drives -/

/-- The drive that a path names, if it does, and what is appended. -/
def target (pspPath : List Char) : Option Drive × List Char :=
  let pspPath := normalizeSeparators pspPath
  if startsWithCaseInsensitive pspPath "disc0:".toList then (some .disc, suffix pspPath "disc0:".toList)
  else if startsWithCaseInsensitive pspPath "umd0:".toList then (some .disc, suffix pspPath "umd0:".toList)
  else if startsWithCaseInsensitive pspPath "ms0:".toList then (some .memoryStick, suffix pspPath "ms0:".toList)
  else if pspPath.head? = some '/' then (some .disc, suffix pspPath [])
  else (none, suffix pspPath [])

/-- What the host says of paths at a call; the empty path is no directory. -/
structure HostView where
  isDirectory : Path → Bool
  empty : isDirectory ⟨[], []⟩ = false

/-- A run of calls of `sceIoChdir`. The drive is that of the path which the current directory was set by, or of the
current directory before. -/
structure Session where
  currentDirectory : Path
  drive : Drive
  calls : List (HostView × List Char)

namespace Session

/-- A runtime starts in the root of the disc. -/
def start (roots : Roots) (calls : List (HostView × List Char)) : Session := ⟨roots.disc, .disc, calls⟩

variable (process : Process) (roots : Roots) (s : Session)

/-- The drive of a path. -/
def driveOf (pspPath : List Char) : Drive := (target pspPath).1.getD s.drive

/-- `sceIoChdir`. -/
def sceIoChdir (host : HostView) (path : List Char) : Session :=
  let resolved := resolvePath process.system roots s.currentDirectory path
  if host.isDirectory resolved then { s with currentDirectory := resolved, drive := s.driveOf path } else s

def step : Option Session :=
  match s.calls with
  | [] => none
  | (host, path) :: calls => some { s.sceIoChdir process roots host path with calls := calls }

/-- The host path that a relative path is appended to. -/
def relativeBase : Path := if s.currentDirectory = ⟨[], []⟩ then roots.disc else s.currentDirectory

/-- The host path that the rest of a path is appended to. -/
def base (pspPath : List Char) : Path :=
  match (target pspPath).1 with
  | some drive => roots.path drive
  | none => s.relativeBase roots

/-- Where the root of the drive of a path is. -/
def root (pspPath : List Char) : Place := process.resolve (roots.path (s.driveOf pspPath))

/-- The host path leads inside the root of the drive. -/
def Inside (pspPath : List Char) : Prop :=
  (s.root process roots pspPath).Contains
    (process.resolve (resolvePath process.system roots s.currentDirectory pspPath))

/-- What the rest of the path leaves of the root by going up, it comes back through. -/
def ComesBack (pspPath : List Char) : Prop :=
  process.ComesBack (s.root process roots pspPath) (s.base roots pspPath)
    (parse process.system (target pspPath).2)

instance (pspPath : List Char) : Decidable (s.Inside process roots pspPath) :=
  inferInstanceAs (Decidable (Place.Contains _ _))

instance (pspPath : List Char) : Decidable (s.ComesBack process roots pspPath) :=
  inferInstanceAs (Decidable (process.ComesBack _ _ _))

/-- So does the path of the next call, where it sets the current directory. -/
def CallComesBack : Prop :=
  ∀ call ∈ s.calls.head?, call.1.isDirectory (resolvePath process.system roots s.currentDirectory call.2) = true →
    s.ComesBack process roots call.2

/-! ### Inside the root -/

theorem resolvePath_eq (system : System) (pspPath : List Char) :
    resolvePath system roots s.currentDirectory pspPath =
      append system (s.base roots pspPath) (parse system (target pspPath).2) := by
  rw [base, resolvePath, target, relativeBase]
  dsimp only
  split_ifs <;> rfl

/-- The current directory is inside the root of its drive. -/
def Within : Prop := (process.resolve (roots.path s.drive)).Contains (process.resolve (s.relativeBase roots))

variable {process roots s}

theorem inside_iff (h : s.Within process roots) (pspPath : List Char) :
    s.Inside process roots pspPath ↔ s.ComesBack process roots pspPath := by
  have hbase : (s.root process roots pspPath).Contains (process.resolve (s.base roots pspPath)) := by
    rw [root, driveOf, base]
    cases (target pspPath).1 with
    | some drive => exact .refl _
    | none => exact h
  rw [Inside, resolvePath_eq, Process.contains_append_iff hbase]
  rfl

theorem within_start (calls : List (HostView × List Char)) : (start roots calls).Within process roots := by
  rw [Within, relativeBase]
  split_ifs <;> exact .refl _

/-- A call whose path comes back keeps the current directory inside. -/
theorem within_step {s' : Session} (h : s.Within process roots) (hcall : s.CallComesBack process roots)
    (hstep : s.step process roots = some s') : s'.Within process roots := by
  rw [step] at hstep
  split at hstep
  · cases hstep
  next host path calls hcalls =>
    cases hstep
    rw [sceIoChdir]
    dsimp only
    split_ifs with hdirectory
    · have hinside := (inside_iff h path).2 (hcall (host, path) (by simp [hcalls]) hdirectory)
      have hne : resolvePath process.system roots s.currentDirectory path ≠ ⟨[], []⟩ := by
        intro heq
        rw [heq, host.empty] at hdirectory
        cases hdirectory
      rw [Within, relativeBase, if_neg hne]
      exact hinside
    · exact h

end Session

open Session Machine

/-- In a session whose calls come back, a path leads inside the root of its drive just when it comes back. -/
theorem resolvePath_inside_iff (process : Process) (roots : Roots) (calls : List (HostView × List Char)) (n : Nat)
    (hcalls : ∀ s ∈ trace (step process roots) n (start roots calls), s.CallComesBack process roots)
    (pspPath : List Char) :
    (run (step process roots) n (start roots calls)).Inside process roots pspPath ↔
      (run (step process roots) n (start roots calls)).ComesBack process roots pspPath :=
  inside_iff (run_guarded (fun _ _ => within_step) n (within_start calls) hcalls) pspPath

def plainRoots : Roots := ⟨⟨[], "/disc".toList⟩, ⟨[], "/stick".toList⟩⟩

/-- Up from `/disc/PSP_GAME` and down again. -/
theorem resolvePath_inside_iff_relative :
    (run (step {} plainRoots) 1
      (start plainRoots [(⟨fun path => path ≠ ⟨[], []⟩, rfl⟩, "umd0:/PSP_GAME".toList)])).Inside {} plainRoots
        "../UMD_DATA.BIN".toList := by
  refine (resolvePath_inside_iff _ _ _ _ (fun s hs => ?_) _).2 (by decide)
  obtain rfl := List.mem_singleton.1 hs
  rintro call hcall -
  obtain rfl := Option.some.inj hcall
  decide

/-- A path of the memory stick that leads to the host's `/etc`. -/
theorem resolvePath_outside :
    ¬ (start plainRoots []).Inside {} plainRoots "ms0:/../etc/passwd".toList := by
  decide

def driveRoots : Roots := ⟨parse .windows "D:\\disc".toList, parse .windows "C:\\stick".toList⟩

/-- A path of the memory stick that leads to another drive of a Windows host. -/
example : ({ system := .windows, volume := "C:".toList } : Process).resolve
    (resolvePath .windows driveRoots ⟨[], []⟩ "ms0:/D:/Windows/win.ini".toList) =
      ⟨"D:".toList, ["Windows".toList, "win.ini".toList]⟩ := by
  decide

end Psprism.Io
