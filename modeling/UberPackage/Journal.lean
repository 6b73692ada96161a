/-
  The journal of a run.

  * A `Record` is a line of the journal: its level, the stage it comes from and its text.
  * A `Notice` is what reaches the journal, of any weight; a record is one of the weight of its
    level.
  * A `Setup` says which records go to the console and to a file; `Sinks` is what a sequence of
    setups leaves in place.  Records reach the sinks of the last setup only.

  How a setup is put in place and how notices get to the sinks is told in
  `UberPackage.Journal.Logger`.
-/
import UberPackage.Path

namespace UberPackage

/-- How much a record matters. -/
inductive Level where
  | debug | info | warning | error | critical
deriving DecidableEq, Inhabited, Repr

namespace Level

/-- The levels in ascending order of weight. -/
def weight : Level → Nat
  | debug => 10
  | info => 20
  | warning => 30
  | error => 40
  | critical => 50

def name : Level → Text
  | debug => "DEBUG"
  | info => "INFO"
  | warning => "WARNING"
  | error => "ERROR"
  | critical => "CRITICAL"

/-- The level of a weight. -/
def ofWeight? (weight : Int) : Option Level :=
  [debug, info, warning, error, critical].find? fun l => l.weight = weight

/-- The word for a weight, be it that of a level or not. -/
def word (weight : Int) : Text :=
  match ofWeight? weight with
  | some l => l.name
  | none => if weight = 0 then "NOTSET" else "Level " ++ Text.ofInt weight

end Level

/-- A line of the journal. -/
structure Record where
  level : Level
  /-- The stage of the run; none for the whole. -/
  stage : Option Text
  message : Text
  /-- The record tells of a failure whose origin is of interest. -/
  traced : Bool := false
deriving DecidableEq, Inhabited, Repr

namespace Record

/-- A record of a stage. -/
def ofStage (level : Level) (stage message : Text) : Record :=
  { level := level, stage := some stage, message := message }

/-- The name of the program in its own output. -/
def program : Text := "ubergen"

/-- The name of the stage's journal. -/
def journalName (stage : Option Text) : Text :=
  match stage with
  | some s => if s = [] then program else program ++ "." ++ s
  | none => program

end Record

/-- What is told to the journal.  Its weight can be that of no level. -/
structure Notice where
  weight : Int
  /-- The stage of the run; none for the whole. -/
  stage : Option Text
  message : Text
deriving DecidableEq, Inhabited, Repr

namespace Notice

/-- The notice as a line on the console. -/
def consoleLine (n : Notice) : Text :=
  "[" ++ Record.program ++ "] " ++ Level.word n.weight ++ " " ++ n.message

/-- The notice as a line of a file, without the time before it. -/
def fileLine (n : Notice) : Text :=
  Level.word n.weight ++ " " ++ Record.journalName n.stage ++ ": " ++ n.message

end Notice

namespace Record

/-- What a record tells. -/
def notice (r : Record) : Notice := ⟨r.level.weight, r.stage, r.message⟩

/-- The record as a line on the console. -/
def consoleLine (r : Record) : Text := r.notice.consoleLine

/-- The record as a line of a file, without the time before it. -/
def fileLine (r : Record) : Text := r.notice.fileLine

end Record

/-! ## Where records go -/

/-- What the journal is asked for. -/
structure Setup where
  verbose : Bool := false
  quiet : Bool := false
  logFile : Option Path := none
deriving Inhabited, Repr

/-- The least level on the console. -/
def Setup.consoleLevel (s : Setup) : Level :=
  if s.verbose then .debug else if s.quiet then .warning else .info

/-- What receives records. -/
inductive Target where
  | console
  | file (path : Path)
deriving DecidableEq, Inhabited, Repr

/-- A receiver and the least level it takes. -/
structure Sink where
  target : Target
  level : Level
deriving DecidableEq, Inhabited, Repr

/-- The receivers in place. -/
structure Sinks where
  /-- The least level of any record that is passed on. -/
  level : Level := .warning
  sinks : List Sink := []
deriving Inhabited, Repr

namespace Sinks

/-- Replaces all receivers by those of a setup. -/
def configure (_ : Sinks) (s : Setup) : Sinks :=
  match s.logFile with
  | none => { level := s.consoleLevel, sinks := [⟨.console, s.consoleLevel⟩] }
  | some path =>
    { level := .debug, sinks := [⟨.console, s.consoleLevel⟩, ⟨.file path, .debug⟩] }

end Sinks

end UberPackage
