/-
  The program.

  `main` reads the part of the file system that a command can look at, runs the command on it,
  and then makes the files and directories what they are afterwards.
-/
import UberPackage.CommandLine

namespace UberPackage.Program

open CommandLine

/-- The text of a place, as a path from the top. -/
def placeText (place : Place) : String := (Path.mk .slash place).text.display

/-- What stands at a place, directories without their contents. -/
def readEntry (place : Place) : IO (Option Entry) := do
  let path := (← IO.currentDir) / placeText place
  if ← path.isDir then return some .dir
  if !(← path.pathExists) then return none
  return some (.file (← IO.FS.readBinFile path).toList)

/-- The names in a directory. -/
def readNames (place : Place) : IO (List Text) := do
  let path := (← IO.currentDir) / placeText place
  return (← path.readDir).toList.map fun e => Text.ofString e.fileName

/-- The disk with what stands at a place, and with the directories above it. -/
def withPlace (d : Disk) (place : Place) : IO Disk := do
  let mut d := d
  for n in List.range place.length do
    let above := place.take (n + 1)
    if (d.entryAt? above).isNone then
      if let some e ← readEntry above then d := d.put above e
  return d

/-- The disk with a directory and all below it; inside, directories that are never copied are
left unread. -/
partial def withTree (d : Disk) (place : Place) (top : Bool) : IO Disk := do
  let mut d ← withPlace d place
  if d.entryAt? place == some .dir then
    for name in ← readNames place do
      if top || !Assembly.ignoredNames.contains name then d ← withTree d (place ++ [name]) false
      else d ← withPlace d (place ++ [name])
  return d

/-- The disk with a directory and what stands right in it. -/
def withContents (d : Disk) (place : Place) : IO Disk := do
  let mut d ← withPlace d place
  if d.entryAt? place == some .dir then
    for name in ← readNames place do d ← withPlace d (place ++ [name])
  return d

/-- The disk with all that a command can look at. -/
def withSettings (d : Disk) (s : Settings) : IO Disk := do
  let d ← withTree d s.librariesRoot.parts true
  let d ← withTree d s.outputDir.parts true
  let d ← withContents d s.outputDir.parent.parts
  let d ← withPlace d s.manifestPath.parts
  withPlace d s.workspacePath.parts

/-- The lines of a file that can be read, each split at the colons. -/
def readTable (file : String) : IO (List (List String)) := do
  let text ← (IO.FS.readFile file).tryCatch fun _ => pure ""
  return (text.splitOn "\n").map (·.splitOn ":")

/-- The number of the user who runs the program. -/
def readUser : IO (Option String) := do
  for fields in ← readTable "/proc/self/status" do
    if let ["Uid", numbers] := fields then return (numbers.splitOn "\t")[1]?
  return none

/-- Where users are at home. -/
def readHomes : IO Homes := do
  let user ← readUser
  let environment ← IO.getEnv "HOME"
  let mut homes : Homes := { environment := environment.map Text.ofString }
  for fields in ← readTable "/etc/passwd" do
    if let name :: _ :: number :: _ :: _ :: home :: _ := fields then
      if homes.own.isNone && some number == user then
        homes := { homes with own := some (Text.ofString home) }
      homes := { homes with users := homes.users ++ [(Text.ofString name, Text.ofString home)] }
  return homes

/-- The disk that a command starts with. -/
def diskFor (o : Options) (d : Disk) (homes : Homes) : IO Disk := do
  let asked := Path.ofText (o.config.getD o.path)
  let path :=
    match asked.expand homes with
    | .ok expanded => d.resolve expanded
    | .error _ => d.resolve asked
  let d ← withPlace d path.parts
  let d ← withPlace d (path / Settings.fileName).parts
  let d ←
    match o.logFile with
    | some file => withPlace d (d.resolve (Path.ofText file)).parts
    | none => pure d
  match ((Settings.load path).runIn { disk := d }).1 with
  | .ok s => withSettings d s
  | .error _ => return d

/-- Makes what stands at a place what it is on a disk. -/
def writeEntry (before : Disk) (place : Place) (e : Entry) : IO Unit := do
  if before.entryAt? place == some e then return
  let path := placeText place
  match e with
  | .dir => IO.FS.createDirAll path
  | .file bytes => IO.FS.writeBinFile path (ByteArray.mk bytes.toArray)

/-- Removes what a disk does not have any more. -/
def removeEntry (after : Disk) (place : Place) (e : Entry) : IO Unit := do
  if (after.entryAt? place).isSome then return
  let path := (← IO.currentDir) / placeText place
  if ← path.pathExists then
    match e with
    | .dir => IO.FS.removeDirAll path
    | .file _ => IO.FS.removeFile path

/-- Makes the file system what a disk is. -/
def store (before after : Disk) : IO Unit := do
  for (place, e) in before.entries do removeEntry after place e
  for (place, e) in after.entries do
    if e == .dir then writeEntry before place e
  for (place, e) in after.entries do
    if e != .dir then writeEntry before place e

/-- Two digits. -/
def twoDigits (n : Nat) : String := (if n < 10 then "0" else "") ++ toString n

/-- The date of a day, counted from 1970. -/
def dateText (days : Nat) : String :=
  let z := days + 719468
  let era := z / 146097
  let doe := z % 146097
  let yoe := (doe - doe / 1460 + doe / 36524 - doe / 146096) / 365
  let doy := doe - (365 * yoe + yoe / 4 - yoe / 100)
  let mp := (5 * doy + 2) / 153
  let month := if mp < 10 then mp + 3 else mp - 9
  let year := yoe + era * 400 + (if month ≤ 2 then 1 else 0)
  toString year ++ "-" ++ twoDigits month ++ "-" ++ twoDigits (doy - (153 * mp + 2) / 5 + 1)

/-- The time of a second, counted from 1970. -/
def timeText (seconds : Nat) : String :=
  dateText (seconds / 86400) ++ " " ++ twoDigits (seconds / 3600 % 24) ++ ":" ++
    twoDigits (seconds / 60 % 60) ++ ":" ++ twoDigits (seconds % 60) ++ ",000"

/-- Appends lines to the file of the journal, each with the time of the file. -/
def appendLog (file : Path) (lines : List Text) : IO Unit := do
  let path := (← IO.currentDir) / file.text.display
  if ← path.pathExists then
    let time := timeText (← path.metadata).modified.sec.toNat
    let handle ← IO.FS.Handle.mk path .append
    for l in lines do handle.putStr (time ++ " " ++ l.display ++ "\n")

/-- Shows the journal and the end of a session; gives the status. -/
def report (s : Session) : IO UInt32 := do
  for r in s.sinks.console s.world.journal do IO.eprintln r.display
  for sink in s.sinks.sinks do
    if let .file path := sink.target then
      appendLog path (s.sinks.fileLines path s.world.journal)
  match s.ending with
  | .done output =>
    IO.print output.display
    return 0
  | .exit status output message =>
    IO.print output.display
    IO.eprint message.display
    return status.toUInt32
  | .escape f =>
    IO.eprintln f.message.display
    return 1

/-- A name for temporary files. -/
def randomTag : IO Text := do
  let mut tag : List Char := []
  for _ in List.range 8 do tag := Char.ofNat (97 + (← IO.rand 0 25)) :: tag
  return Text.ofChars tag

/-- Runs the program. -/
def run (args : List String) : IO UInt32 := do
  let args := args.map Text.ofString
  let cwd := (Path.ofText (Text.ofString (← IO.currentDir).toString)).parts
  let empty : Disk := { entries := [], cwd := cwd, tag := ← randomTag }
  let homes ← readHomes
  let d ← withPlace empty cwd
  let d ←
    match Options.parse args with
    | .ok o => diskFor o d homes
    | .error _ => pure d
  let s := Session.run args { disk := d } homes
  store d s.world.disk
  report s

end UberPackage.Program

/-- The program. -/
def main (args : List String) : IO UInt32 := UberPackage.Program.run args
