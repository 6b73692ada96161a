/-
  What a run reads and changes.

  * A `World` is a disk and a journal.
  * An `Act` changes a world and may fail; what it has changed before stays changed.
  * Documents and texts are read and written by `readDocument`, `writeDocument` and `writeText`.
-/
import UberPackage.Disk.Change
import UberPackage.Failure
import UberPackage.Json.Writer

namespace UberPackage

/-- A disk and a journal. -/
structure World where
  disk : Disk
  journal : List Record := []
deriving Inhabited

/-- A step of a run. -/
abbrev Act := ExceptT Failure (StateM World)

namespace Act

/-- What an act gives, and the world after it. -/
def runIn {α : Type} (a : Act α) (w : World) : Except Failure α × World := Id.run (StateT.run a w)

/-- What an act gives, as a value: the act itself does not fail. -/
def outcome {α : Type} (a : Act α) : Act (Except Failure α) := ExceptT.mk (Except.ok <$> a.run)

/-- A value, or the failure that its fault is. -/
def orFail {ε α : Type} (fail : ε → Failure) : Except ε α → Act α
  | .ok a => pure a
  | .error e => throw (fail e)

/-- Adds records to the journal. -/
def records (rs : List Record) : Act Unit :=
  modify fun w => { w with journal := w.journal ++ rs }

/-- Adds a record to the journal. -/
def record (level : Level) (stage message : Text) : Act Unit :=
  records [.ofStage level stage message]

/-- Asks the disk. -/
def ask {α : Type} (query : Disk → Except FileFault α) : Act α := do
  orFail .file (query (← get).disk)

/-- Changes the disk. -/
def change (outcome : Disk → Disk.Outcome) : Act Unit := do
  let (d, fault) := outcome (← get).disk
  modify fun w => { w with disk := d }
  match fault with
  | none => pure ()
  | some f => throw (.file f)

/-- The characters of bytes. -/
def decode (bytes : Bytes) : Act (List Char) :=
  match Utf8.decode? bytes with
  | some cs => pure cs
  | none => throw .undecodable

/-- The bytes of a text. -/
def encode (t : Text) : Act Bytes :=
  match Utf8.encode? t with
  | some bytes => pure bytes
  | none => throw .unencodable

/-- The text of a file, with a line feed for each line end. -/
def readText (p : Path) : Act Text := do
  return (Text.ofChars (← decode (← ask (·.read p)))).plainLines

/-- The document in a file. -/
def readDocument (p : Path) : Act Json := do
  orFail .document (Json.read (← readText p))

/-- Writes a text into a file as a whole. -/
def writeText (p : Path) (t : Text) : Act Unit := do
  let bytes ← encode t
  change (·.writeFile p bytes)

/-- Writes a document into a file as a whole. -/
def writeDocument (p : Path) (v : Json) : Act Unit := writeText p v.write

/-- Copies a file as a whole. -/
def copyFile (source target : Path) : Act Unit := change (·.copyFile source target)

end Act

end UberPackage
