/-
  Changing files and directories.

  * `makeDirectories` makes a directory and all above it that is missing.
  * `removeTree` removes a directory and all below it.
  * `atomically` fills a temporary file beside the target and then moves it over the target,
    so that the target changes at once or not at all; whatever fails, the temporary file is
    gone.  `writeFile` and `copyFile` are made of it.

  A change gives the disk as it is afterwards, also when it fails.
-/
import UberPackage.Disk

namespace UberPackage.Disk

/-- The disk after a change, and what went wrong. -/
abbrev Outcome := Disk × Option FileFault

/-- The outcome of a change that is made whole or not at all. -/
def outcome (d : Disk) : Except FileFault Disk → Outcome
  | .ok d => (d, none)
  | .error f => (d, some f)

/-- A further change, unless the one before it has failed. -/
def Outcome.andThen (o : Outcome) (next : Disk → Outcome) : Outcome :=
  match o with
  | (d, none) => next d
  | o => o

/-! ## Directories -/

/-- Makes a directory where nothing stands. -/
def makeDirectory (d : Disk) (p : Path) : Except FileFault Disk := do
  let place ← d.locate p
  match d.entryAt? place with
  | some _ => .error (.refused .alreadyThere p.text)
  | none => return d.put place .dir

/-- A directory may stand there already. -/
def tolerated (d : Disk) (p : Path) (f : FileFault) : Outcome :=
  match f with
  | .refused _ _ =>
    match d.isDirectory? p with
    | .ok true => (d, none)
    | .ok false => (d, some f)
    | .error f => (d, some f)
  | f => (d, some f)

/-- Makes a directory unless it is there; `n` directories above it may be missing. -/
def makeDirectoriesAbove : Nat → Disk → Path → Outcome
  | 0, d, p =>
    match d.makeDirectory p with
    | .ok d => (d, none)
    | .error f => tolerated d p f
  | n + 1, d, p =>
    match d.makeDirectory p with
    | .ok d => (d, none)
    | .error (.refused .noEntry path) =>
      if p.parts = [] then (d, some (.refused .noEntry path))
      else
        (makeDirectoriesAbove n d p.parent).andThen fun d =>
          match d.makeDirectory p with
          | .ok d => (d, none)
          | .error f => tolerated d p f
    | .error f => tolerated d p f

/-- Makes a directory and all above it that is missing. -/
def makeDirectories (d : Disk) (p : Path) : Outcome := makeDirectoriesAbove p.parts.length d p

/-- Removes a directory and all below it. -/
def removeTree (d : Disk) (p : Path) : Except FileFault Disk := do
  let place ← d.locate p
  match d.entryAt? place with
  | some .dir => return d.dropTree place
  | some (.file _) => .error (.noTree p.text)
  | none => .error (.refused .noEntry p.text)

/-! ## Files -/

/-- The `n`-th name to try for a temporary file. -/
def temporaryName (name tag : Text) (n : Nat) : Text :=
  "." ++ name ++ "." ++ tag ++ (List.replicate n (Code.char '_') : Text) ++ ".tmp"

/-- The path of a new file beside a target. -/
def temporary (d : Disk) (target : Path) : Path :=
  let dir := d.resolve target.parent
  let candidate := fun n => dir / temporaryName target.name d.tag n
  let free := fun n => (d.entryAt? (candidate n).parts).isNone
  candidate (((List.range (d.entries.length + 1)).find? free).getD 0)

/-- Makes an empty file where nothing stands. -/
def create (d : Disk) (p : Path) : Except FileFault Disk := do
  let place ← d.locate p
  match d.entryAt? place with
  | some _ => .error (.refused .alreadyThere p.text)
  | none => return d.put place (.file [])

/-- Moves a file over a target, which must not be a directory. -/
def move (d : Disk) (source target : Path) : Except FileFault Disk := do
  let bytes ← d.read source
  let sourcePlace ← d.locate source
  let refuse := fun e => Except.error (FileFault.notMoved e source.text target.text)
  match d.locate target with
  | .error (.refused e _) => refuse e
  | .error f => .error f
  | .ok place =>
    match d.entryAt? place with
    | some .dir => refuse .isDirectory
    | _ => return (d.drop sourcePlace).put place (.file bytes)

/-- Removes a file if it is there. -/
def remove (d : Disk) (p : Path) : Disk :=
  match d.locate p with
  | .ok place => d.drop place
  | .error _ => d

/-- Fills a new file and moves it over the target. -/
def atomically (d : Disk) (target : Path) (fill : Disk → Path → Outcome) : Outcome :=
  let temp := d.temporary target
  match d.create temp with
  | .error f => (d, some f)
  | .ok created =>
    let (d, fault) := (fill created temp).andThen fun d => d.outcome (d.move temp target)
    match fault with
    | none => (d, none)
    | some f => (d.remove temp, some f)

/-- Puts contents into a file that is there. -/
def overwrite (bytes : Bytes) (d : Disk) (p : Path) : Outcome :=
  d.outcome do return d.put (← d.locate p) (.file bytes)

/-- Puts the contents of a file into another that is there. -/
def overwriteFrom (source : Path) (d : Disk) (p : Path) : Outcome :=
  match d.read source with
  | .ok bytes => d.overwrite bytes p
  | .error f => (d, some f)

/-- Writes a file as a whole. -/
def writeFile (d : Disk) (target : Path) (bytes : Bytes) : Outcome :=
  d.atomically target (overwrite bytes)

/-- Copies a file as a whole. -/
def copyFile (d : Disk) (source target : Path) : Outcome :=
  d.atomically target (overwriteFrom source)

end UberPackage.Disk
