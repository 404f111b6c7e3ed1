import Mathlib.Algebra.Order.Group.Nat
import Mathlib.Data.List.Defs

/-!
# Project manifests (`project/hydrate.cpp`)

`project.toml` is read line by line; a key that is not known is passed over, and the last line for a key counts. A
character is a byte of the file.
-/

namespace Psprism.Hydrate

abbrev Text := List Char

inductive InputKind
  | iso | executable
deriving DecidableEq

structure ProjectManifest where
  formatVersion : Nat := 1
  displayName : Text := []
  projectName : Text := []
  discId : Text := []
  inputKind : InputKind := .executable
  executablePath : Text := []
  sfoPath : Text := []
  codeMap : Text := []
  pspRecompileMode : Text := "full".toList
  discExtracted : Bool := false
  inputSha256 : Text := []
  executableSha256 : Text := []
deriving DecidableEq

/-- The lines that `getline` reads: nothing follows the last newline. -/
def getLines (text : Text) : List Text :=
  let parts := text.splitOn '\n'
  if parts.getLast? = some [] then parts.dropLast else parts

def isSpace (c : Char) : Bool := c ∈ [' ', '\t', '\n', '\x0b', '\x0c', '\r']

def trim (value : Text) : Text := ((value.dropWhile isSpace).reverse.dropWhile isSpace).reverse

/-- The characters between the quotes, with their escapes. -/
def unescape (lineNumber : Nat) : Text → Except Text Text
  | [] => .ok []
  | ['\\'] => .error ("invalid escape in project.toml line ".toList ++ Nat.toDigits 10 lineNumber)
  | '\\' :: 'n' :: rest => (unescape lineNumber rest).map ('\n' :: ·)
  | '\\' :: c :: rest =>
    if c = '\\' ∨ c = '"' then (unescape lineNumber rest).map (c :: ·)
    else .error ("unsupported escape in project.toml line ".toList ++ Nat.toDigits 10 lineNumber)
  | c :: rest => (unescape lineNumber rest).map (c :: ·)

def parseString (value : Text) (lineNumber : Nat) : Except Text Text :=
  if value.length < 2 ∨ value.head? ≠ some '"' ∨ value.getLast? ≠ some '"' then
    .error ("expected quoted string in project.toml line ".toList ++ Nat.toDigits 10 lineNumber)
  else unescape lineNumber (value.drop 1).dropLast

def parseBool (value : Text) (lineNumber : Nat) : Except Text Bool :=
  if value = "true".toList then .ok true
  else if value = "false".toList then .ok false
  else .error ("expected boolean in project.toml line ".toList ++ Nat.toDigits 10 lineNumber)

/-- `std::stoul` with 64 bits: digits behind an optional sign; what follows them does not matter. -/
def stoul (value : Text) : Option Nat :=
  let value := value.dropWhile isSpace
  let unsigned : Text :=
    match value with
    | '+' :: rest => rest
    | '-' :: rest => rest
    | _ => value
  let digits := unsigned.takeWhile Char.isDigit
  let number : Nat := digits.foldl (fun number digit => number * 10 + (digit.toNat - '0'.toNat)) 0
  if digits = [] ∨ number ≥ 2 ^ 64 then none
  else if value.head? = some '-' then some ((2 ^ 64 - number) % 2 ^ 64)
  else some number

/-- The effect of the line for a key. -/
def setKey (manifest : ProjectManifest) (key value : Text) (lineNumber : Nat) : Except Text ProjectManifest :=
  let string (set : Text → ProjectManifest) : Except Text ProjectManifest := (parseString value lineNumber).map set
  if key = "format_version".toList then
    match stoul value with
    | some version => .ok { manifest with formatVersion := version % 2 ^ 32 }
    | none => .error "invalid format_version in project.toml".toList
  else if key = "display_name".toList then string fun v => { manifest with displayName := v }
  else if key = "project_name".toList then string fun v => { manifest with projectName := v }
  else if key = "disc_id".toList then string fun v => { manifest with discId := v }
  else if key = "input_kind".toList then
    (parseString value lineNumber).bind fun kind =>
      if kind = "iso".toList then .ok { manifest with inputKind := .iso }
      else if kind = "executable".toList then .ok { manifest with inputKind := .executable }
      else .error "unsupported input_kind in project.toml".toList
  else if key = "executable".toList then string fun v => { manifest with executablePath := v }
  else if key = "sfo".toList then string fun v => { manifest with sfoPath := v }
  else if key = "code_map".toList then string fun v => { manifest with codeMap := v }
  else if key = "psp_recompile_mode".toList then string fun v => { manifest with pspRecompileMode := v }
  else if key = "disc_extracted".toList then
    (parseBool value lineNumber).map fun v => { manifest with discExtracted := v }
  else if key = "input_sha256".toList then string fun v => { manifest with inputSha256 := v }
  else if key = "executable_sha256".toList then string fun v => { manifest with executableSha256 := v }
  else .ok manifest

def readLine (manifest : ProjectManifest) (line : Text) (lineNumber : Nat) : Except Text ProjectManifest :=
  let line := line.takeWhile (· ≠ '#')
  if '=' ∈ line then
    setKey manifest (trim (line.takeWhile (· ≠ '='))) (trim ((line.dropWhile (· ≠ '=')).drop 1)) lineNumber
  else if trim line ≠ [] then .error ("invalid project.toml line ".toList ++ Nat.toDigits 10 lineNumber)
  else .ok manifest

def readLines (manifest : ProjectManifest) (lineNumber : Nat) : List Text → Except Text ProjectManifest
  | [] => .ok manifest
  | line :: rest => (readLine manifest line lineNumber).bind fun manifest => readLines manifest (lineNumber + 1) rest

def loadProjectManifest (text : Text) : Except Text ProjectManifest :=
  (readLines {} 1 (getLines text)).bind fun manifest =>
    if manifest.formatVersion ≠ 1 then
      .error ("unsupported project.toml format_version: ".toList ++ Nat.toDigits 10 manifest.formatVersion)
    else if manifest.displayName = [] ∨ manifest.projectName = [] ∨ manifest.executablePath = [] then
      .error "project.toml is missing display_name, project_name or executable".toList
    else .ok manifest

end Psprism.Hydrate
