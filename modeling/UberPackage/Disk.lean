/-
  Files and directories.

  * A `Disk` maps the names on the way from the top to a file's contents or a directory, and
    knows the working directory.
  * `Disk.locate` follows a path: all on the way has to be a directory, and `..` leads back.
  * Queries (`stat`, `probe`, `list`, `read`) fail with a `FileFault`; so do the changes of
    `UberPackage.Disk.Change`.
-/
import UberPackage.Path
import UberPackage.Text.Utf8
import UberPackage.Json.Spelling

namespace UberPackage

/-- What a file system refuses. -/
inductive SystemError where
  | noEntry | alreadyThere | notDirectory | isDirectory | nameTooLong
deriving DecidableEq, Inhabited, Repr

namespace SystemError

/-- The number of the error. -/
def number : SystemError → Nat
  | noEntry => 2
  | alreadyThere => 17
  | notDirectory => 20
  | isDirectory => 21
  | nameTooLong => 36

/-- The error in words. -/
def words : SystemError → Text
  | noEntry => "No such file or directory"
  | alreadyThere => "File exists"
  | notDirectory => "Not a directory"
  | isDirectory => "Is a directory"
  | nameTooLong => "File name too long"

/-- The number and the words. -/
def text (e : SystemError) : Text := "[Errno " ++ Text.ofNat e.number ++ "] " ++ e.words

end SystemError

/-- What is wrong with a file. -/
inductive FileFault where
  | refused (e : SystemError) (path : Text)
  /-- A file cannot take the place of another. -/
  | notMoved (e : SystemError) (source target : Text)
  /-- What should be removed with all below it is no directory. -/
  | noTree (path : Text)
  /-- A name holds a null character. -/
  | nullInName
  /-- A name holds a unit that names cannot hold. -/
  | unencodableName
deriving DecidableEq, Inhabited, Repr

/-- The fault in words. -/
def FileFault.message : FileFault → Text
  | refused e path => e.text ++ ": " ++ path.inspect
  | notMoved e source target => e.text ++ ": " ++ source.inspect ++ " -> " ++ target.inspect
  | noTree path => SystemError.notDirectory.text ++ ": PosixPath(" ++ path.inspect ++ ")"
  | nullInName => "embedded null byte"
  | unencodableName => "surrogates not allowed"

/-! ## Names -/

/-- The bytes that a unit of a name takes; some halves of pairs stand for a byte each. -/
def Code.nameSize? : Code → Option Nat
  | .char c => some c.utf8Size
  | .half h => if 0x480 ≤ h.val && h.val < 0x500 then some 1 else none

/-- The bytes of a name. -/
def Text.nameSize? : Text → Option Nat
  | [] => some 0
  | c :: t => do return (← c.nameSize?) + (← nameSize? t)

/-- What is wrong with the text of a path. -/
def Path.nameFault? (p : Path) : Option FileFault :=
  match p.text.nameSize? with
  | none => some .unencodableName
  | some size =>
    if p.text.contains (.char '\x00') then some .nullInName
    else if 4096 ≤ size then some (.refused .nameTooLong p.text)
    else none

/-! ## The tree -/

/-- What stands at a place. -/
inductive Entry where
  | file (bytes : Bytes)
  | dir
deriving DecidableEq, Inhabited, Repr

/-- The names from the top to a place. -/
abbrev Place := List Text

/-- Files and directories by place, and the working directory. -/
structure Disk where
  /-- All but the top, which is a directory. -/
  entries : List (Place × Entry)
  cwd : Place
  /-- What the names of temporary files end in. -/
  tag : Text
deriving Inhabited

namespace Disk

/-- What stands at a place. -/
def entryAt? (d : Disk) (place : Place) : Option Entry :=
  if place = [] then some .dir else d.entries.lookup place

/-- The disk with an entry put at a place. -/
def put (d : Disk) (place : Place) (e : Entry) : Disk :=
  { d with entries := (d.entries.filter fun x => x.1 != place) ++ [(place, e)] }

/-- The disk without what stands at a place. -/
def drop (d : Disk) (place : Place) : Disk :=
  { d with entries := d.entries.filter fun x => x.1 != place }

/-- The disk without what stands at a place or below. -/
def dropTree (d : Disk) (place : Place) : Disk :=
  { d with entries := d.entries.filter fun x => !place.isPrefixOf x.1 }

/-- The names in a directory, in order. -/
def namesIn (d : Disk) (place : Place) : List Text :=
  Text.sort (d.entries.filterMap fun (q, _) =>
    match q.getLast? with
    | some name => if q.dropLast = place then some name else none
    | none => none)

/-- The bytes that a name can have. -/
def nameLimit : Nat := 255

/-- One step on the way from a place. -/
def step (d : Disk) (here : Place) (part : Text) : Except SystemError Place :=
  match d.entryAt? here with
  | none => .error .noEntry
  | some (.file _) => .error .notDirectory
  | some .dir =>
    if part = ".." then .ok here.dropLast
    else if nameLimit < (part.nameSize?).getD 0 then .error .nameTooLong
    else .ok (here ++ [part])

/-- The place that a path leads to, in a directory; nothing has to stand there. -/
def locate (d : Disk) (p : Path) : Except FileFault Place :=
  match p.nameFault? with
  | some f => .error f
  | none =>
    match p.parts.foldlM d.step (if p.isAbsolute then [] else d.cwd) with
    | .ok place => .ok place
    | .error e => .error (.refused e p.text)

/-- What stands where a path leads. -/
def stat (d : Disk) (p : Path) : Except FileFault Entry := do
  match d.entryAt? (← d.locate p) with
  | some e => return e
  | none => .error (.refused .noEntry p.text)

/-- What stands where a path leads, if anything does. -/
def probe (d : Disk) (p : Path) : Except FileFault (Option Entry) :=
  match d.stat p with
  | .ok e => .ok (some e)
  | .error (.refused .nameTooLong path) => .error (.refused .nameTooLong path)
  | .error _ => .ok none

/-- Something stands where the path leads. -/
def exists? (d : Disk) (p : Path) : Except FileFault Bool := (·.isSome) <$> d.probe p

/-- A directory stands where the path leads. -/
def isDirectory? (d : Disk) (p : Path) : Except FileFault Bool := (· == some .dir) <$> d.probe p

/-- A file stands where the path leads. -/
def isFile? (d : Disk) (p : Path) : Except FileFault Bool := do
  match ← d.probe p with
  | some (.file _) => return true
  | _ => return false

/-- The names in a directory, in order. -/
def list (d : Disk) (p : Path) : Except FileFault (List Text) := do
  let place ← d.locate p
  match d.entryAt? place with
  | some .dir => return d.namesIn place
  | some (.file _) => .error (.refused .notDirectory p.text)
  | none => .error (.refused .noEntry p.text)

/-- The contents of a file. -/
def read (d : Disk) (p : Path) : Except FileFault Bytes := do
  match ← d.stat p with
  | .file bytes => return bytes
  | .dir => .error (.refused .isDirectory p.text)

/-- The absolute path that a path means. -/
def resolve (d : Disk) (p : Path) : Path := p.resolve ⟨.slash, d.cwd⟩

end Disk

end UberPackage
