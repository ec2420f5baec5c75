import AsyncPipelines.IoUtils.TempNames
import AsyncPipelines.Lib.Program
import AsyncPipelines.Lib.PosixCalls
import AsyncPipelines.Lib.Realpath

/-!
The writer and the preflight of `io_utils.py` as programs over the filesystem:
`atomic_write_text`, `check_writable`, `same_file` and the helpers they call.
-/

namespace AsyncPipelines

open Posix

abbrev PyPath := Path Name

abbrev Disk := Fs Name UInt8

inductive Failure
  | os (e : Errno)
  /-- `LookupError`: no such codec. -/
  | codec
  /-- `UnicodeEncodeError`. -/
  | encode
  /-- `ValueError`. -/
  | value
  /-- What the removal in the `finally` block raised, with `first` on its way out. -/
  | unremoved (later : Errno) (first : Failure)
  deriving DecidableEq

/-- Whether what is raised is an `OSError`. -/
def Failure.isOs : Failure → Bool
  | os _ | unremoved _ _ => true
  | codec | encode | value => false

abbrev Io (α : Type) := Program Disk Failure α

/-- The kernel, and how the buffer of an open file cuts up what is written to it. -/
structure System extends Kernel Name where
  /-- `NAME_MAX` is 255 or more. -/
  fits : ∀ n, nameBytes n ≤ 255 → tooLong n = false
  cut : List UInt8 → List (List UInt8)
  whole : ∀ bytes, (cut bytes).flatten = bytes

theorem System.tempName_fits (S : System) (base : Name) (token : Token) :
    S.tooLong (tempName base token) = false := by
  have short := tempName_short base token
  exact S.fits _ (by omega)

/-- The base in a temporary name is the longest prefix of the file's name that fits the budget,
and the name with its affixes has at most 214 bytes, which no filesystem finds too long. -/
theorem capBaseForTemp_longest (base : Name) :
    (capBaseForTemp base <+: base ∧ nameBytes (capBaseForTemp base) ≤ maxTempBaseBytes ∧
      ∀ front, front <+: base → nameBytes front ≤ maxTempBaseBytes →
        front <+: capBaseForTemp base) ∧
    (nameBytes base ≤ maxTempBaseBytes → capBaseForTemp base = base) ∧
    (∀ token, nameBytes (tempName base token) ≤ 214) ∧
    ∀ (S : System) (token : Token), S.tooLong (tempName base token) = false := by
  have longest : ∀ front, front <+: base → nameBytes front ≤ maxTempBaseBytes →
      front <+: capBaseForTemp base := by
    intro front isPrefix fits
    unfold capBaseForTemp
    split
    · exact isPrefix
    · exact trimBase_longest base front isPrefix fits
  have whole : capBaseForTemp base <+: base := by
    unfold capBaseForTemp
    split
    · exact List.prefix_refl base
    · exact trimBase_prefix base
  refine ⟨⟨whole, capBaseForTemp_fits base, longest⟩, ?_, tempName_short base, fun S => S.tempName_fits base⟩
  intro fits
  rw [capBaseForTemp, if_pos fits]

structure Text where
  known : Bool
  encoded : Option (List UInt8)

/-- What a call of the writer does not determine: the tokens it draws, and what the close
of a file whose writing failed still flushes. -/
structure Chance where
  draws : Nat → Token
  spill : List UInt8

namespace Io

def os {α : Type} (effect : Disk → Except Errno α × Disk) : Io α :=
  Program.perform fun fs => ((effect fs).1.mapError .os, (effect fs).2)

def ask {α : Type} (answer : Disk → Except Errno α) : Io α := os fun fs => (answer fs, fs)

end Io

/-- `pathlib._ignore_error`. -/
def ignoreError : Errno → Bool
  | .ENOENT | .ENOTDIR | .ELOOP => true
  | _ => false

/-- `Path.name`. -/
def pathName (p : PyPath) : Name :=
  match p.parts.getLast? with
  | some (.name n) => n
  | some .up => Name.ofString ".."
  | none => []

section

variable (S : System)

/-- `Path.is_symlink` and `Path.is_dir`: a test of the entry, false where there is none. -/
def testEntry (follow : Bool) (test : Option (Node Name) → Bool) (p : PyPath) : Io Bool := do
  match ← (Io.ask fun fs => S.entry fs follow p).attempt with
  | .ok (_, found) => return test (some found)
  | .error (.os e) => if ignoreError e then return false else .fail (.os e)
  | .error e => .fail e

def isSymlink (p : PyPath) : Io Bool := testEntry S false isLink p

def pathIsDir (p : PyPath) : Io Bool := testEntry S true isDir p

/-- `_resolve_symlinked_target`. -/
def resolveSymlinkedTarget (target : PyPath) : Io PyPath := do
  if ← isSymlink S target then Io.ask fun fs => .ok (S.realpath fs target)
  else return target

/-- `os.access(target, os.W_OK)`, which answers an error with `False`. -/
def access (target : PyPath) : Io Bool := do
  match ← (Io.ask fun fs => .ok (S.writable fs target)).attempt with
  | .ok answer => return answer
  | .error _ => return false

/-- `_refuse_unwritable_target`. -/
def refuseUnwritableTarget (target : PyPath) : Io Unit := do
  match ← (Io.ask fun fs => S.stat fs target).attempt with
  | .error (.os .ENOENT) => return
  | .error e => .fail e
  | .ok _ => if ← access S target then return else .fail (.os .EACCES)

/-- `Path.mkdir(exist_ok=True)`, with what it does where the parent is missing. -/
def mkdirOr (p : PyPath) (missing : Io Unit) : Io Unit := do
  match ← (Io.os fun fs => S.mkdir fs p 0o777).attempt with
  | .ok () => return
  | .error (.os .ENOENT) => missing
  | .error e => if ← pathIsDir S p then return else .fail e

/-- `mkdirParents` of the path with these parts, the last one first. -/
def mkdirBack (absolute : Bool) : List (Segment Name) → Io Unit
  | [] => mkdirOr S ⟨absolute, []⟩ (.fail (.os .ENOENT))
  | last :: above =>
    mkdirOr S ⟨absolute, (last :: above).reverse⟩ do
      mkdirBack absolute above
      mkdirOr S ⟨absolute, (last :: above).reverse⟩ (.fail (.os .ENOENT))

/-- `Path.mkdir(parents=True, exist_ok=True)`. -/
def mkdirParents (p : PyPath) : Io Unit := mkdirBack S p.absolute p.parts.reverse

/-- The name `_create_temp` tries at its attempt `i`. -/
def candidate (target : PyPath) (draws : Nat → Token) (i : Nat) : PyPath :=
  target.parent.child (tempName (pathName target) (draws i))

/-- The attempts of `_create_temp` from the `i`th on, as many as remain. -/
def createTempFrom (target : PyPath) (draws : Nat → Token) : Nat → Nat → Io (Nat × PyPath)
  | 0, _ => .fail (.os .EEXIST)
  | remaining + 1, i => do
    match ← (Io.os fun fs => S.create fs (candidate target draws i) 0o666).attempt with
    | .ok ino => return (ino, candidate target draws i)
    | .error (.os .EEXIST) => createTempFrom target draws remaining (i + 1)
    | .error e => .fail e

/-- `_TEMP_ATTEMPTS`. -/
def tempAttempts : Nat := 100

/-- `_create_temp`. -/
def createTemp (target : PyPath) (draws : Nat → Token) : Io (Nat × PyPath) :=
  createTempFrom S target draws tempAttempts 0

def writePieces (ino : Nat) : List (List UInt8) → Io Unit
  | [] => return
  | piece :: rest => do
    Io.os fun fs => (.ok (), fs.append ino piece)
    writePieces ino rest

/-- The `with os.fdopen(...)` block: the codec is looked up, the text is encoded, written and
flushed piece by piece, `fsync` follows, and the file is closed on every way out. -/
def fillTemp (ino : Nat) (text : Text) (spill : List UInt8) : Io Unit := do
  Program.perform fun fs => (if text.known then .ok () else .error .codec, fs)
  let written ← Program.attempt do
    let bytes ← Program.perform fun fs =>
      (match text.encoded with
        | some bytes => .ok bytes
        | none => .error .encode, fs)
    writePieces ino (S.cut bytes)
    Io.ask fun _ => .ok ()
  match written with
  | .ok () => Io.ask fun _ => .ok ()
  | .error e =>
    Io.os fun fs => (.ok (), fs.append ino spill)
    .fail e

/-- `_copy_existing_mode`. -/
def copyExistingMode (target tmpPath : PyPath) : Io Unit := do
  match ← (Io.ask fun fs => (S.stat fs target).map fun found => (fs.rights found.2).mode).attempt with
  | .error (.os .ENOENT) => return
  | .error e => .fail e
  | .ok mode => Io.os fun fs => S.chmod fs tmpPath mode

/-- The removal in the `finally` block, on the way out with `e`. -/
def cleanUp (tmpPath : PyPath) (e : Failure) : Io Unit := do
  match ← (Io.os fun fs => S.unlink fs tmpPath).attempt with
  | .ok () | .error (.os .ENOENT) => .fail e
  | .error (.os later) => .fail (.unremoved later e)
  | .error later => .fail later

/-- `atomic_write_text`. -/
def atomicWriteText (path : PyPath) (text : Text) (chance : Chance) : Io Unit := do
  let target ← resolveSymlinkedTarget S path
  refuseUnwritableTarget S target
  mkdirParents S target.parent
  let (ino, tmpPath) ← createTemp S target chance.draws
  let written ← Program.attempt do
    fillTemp S ino text chance.spill
    copyExistingMode S target tmpPath
    Io.os fun fs => S.replace fs tmpPath target
  match written with
  | .ok () => return
  | .error e => cleanUp S tmpPath e

/-- `check_writable`. -/
def checkWritable (path : PyPath) (draws : Nat → Token) : Io Unit := do
  let target ← resolveSymlinkedTarget S path
  if ← pathIsDir S target then .fail (.os .EISDIR)
  else
    refuseUnwritableTarget S target
    mkdirParents S target.parent
    let (_, tmpPath) ← createTemp S target draws
    Io.ask fun _ => .ok ()
    Io.os fun fs => S.unlink fs tmpPath

/-- `os.path.exists`. -/
def pathExists (p : PyPath) : Io Bool := do
  match ← (Io.ask fun fs => S.stat fs p).attempt with
  | .ok _ => return true
  | .error _ => return false

/-- `os.path.samefile`. -/
def samefile (a b : PyPath) : Io Bool := do
  let first ← Io.ask fun fs => S.stat fs a
  let second ← Io.ask fun fs => S.stat fs b
  Io.ask fun fs => .ok (decide (fs.same first.1 second.1))

/-- The `try` block of `same_file`. -/
def probe (ra rb : PyPath) : Io Bool := do
  if ← pathExists S rb then samefile S ra rb else return false

/-- `same_file`. -/
def sameFile (a b : PyPath) : Io Bool := do
  let ra ← Io.ask fun fs => .ok (S.realpath fs a)
  let rb ← Io.ask fun fs => .ok (S.realpath fs b)
  if ra = rb then return true
  else
    let aExists ← pathExists S ra
    let bExists ← pathExists S rb
    if aExists && bExists then samefile S ra rb
    else if aExists || bExists then return false
    else
      let _ ← Io.os fun fs => S.create fs ra 0o600
      Io.ask fun _ => .ok ()
      let answer ← (probe S ra rb).attempt
      Io.os fun fs => S.unlink fs ra
      Program.ofExcept answer

end

def flatDisk (root : Rights) (entries : List (Name × Node Name)) (files : List (File UInt8))
    (known : ∀ n ino, entries.lookup n = some (.file ino) → ino < files.length) : Disk where
  node
    | [] => some (.dir root)
    | [n] => entries.lookup n
    | _ => none
  file i := files.getD i ⟨[], root⟩
  next := files.length
  rooted := rfl
  housed n here there := by
    cases here with
    | nil => rfl
    | cons m above => exact absurd rfl there
  numbered here ino there := by
    rcases here with _ | ⟨n, _ | ⟨m, above⟩⟩
    · cases there
    · exact known n ino there
    · cases there

def plainSystem : System where
  fold := id
  tooLong n := decide (255 < nameBytes n)
  links := 40
  cwd := []
  privileged := false
  umask := 0o022
  patience := 1000
  patient := by decide
  fits n short := by simpa using short
  cut bytes := [bytes]
  whole := by simp

def firstToken : Token := ⟨List.replicate 8 0, rfl⟩

def firstDraw : Chance := ⟨fun _ => firstToken, []⟩

def bareName (s : String) : PyPath := ⟨false, [.name (Name.ofString s)]⟩

end AsyncPipelines
