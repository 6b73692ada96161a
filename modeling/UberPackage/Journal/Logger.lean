/-
  The loggers of a process.

  A logger has a name, and what stands before a dot in the name is the name of a logger above it.  A
  notice is given to the logger of its stage.  If its weight is enough for the nearest level, it
  goes to the sinks of this logger and of those above, up to one that keeps what it gets; each sink
  has a level of its own.

  * `Loggers.configure` puts a setup in place, step by step: what it finds at the program's logger
    is removed. `Loggers.reset` is what is done of it when the file cannot be opened.
  * `Loggers.deliver` is what becomes of a notice, `Loggers.deliveries` of all that happens in a
    run.
-/
import UberPackage.Journal
import UberPackage.Text.Utf8

namespace UberPackage

/-- The line of a file has bytes. -/
def Notice.isWritable (n : Notice) : Bool := (Utf8.encode? n.fileLine).isSome

/-! ## Deliveries -/

/-- What comes of a notice at one place. -/
inductive Delivery where
  /-- Its line, at a receiver. -/
  | line (target : Target) (n : Notice)
  /-- Its message alone on the console, where there is no sink at all. -/
  | bare (n : Notice)
  /-- A report on the console that its line cannot be written into a file. -/
  | complaint (file : Path) (n : Notice)
deriving DecidableEq, Inhabited, Repr

namespace Delivery

/-- The receiver of the line, if it is one. -/
def receiver? : Delivery → Option Target
  | line target _ => some target
  | bare _ | complaint _ _ => none

/-- It is seen on the console. -/
def onConsole : Delivery → Bool
  | line target _ => target = .console
  | bare _ | complaint _ _ => true

/-- What is seen of it; of a report the head. -/
def text : Delivery → Text
  | line .console n => n.consoleLine
  | line (.file _) n => n.fileLine
  | bare n => n.message
  | complaint _ _ => "--- Logging error ---"

end Delivery

/-- What a sink makes of a notice that it takes. -/
def Sink.deliver (k : Sink) (n : Notice) : Delivery :=
  match k.target with
  | .console => .line .console n
  | .file p => if n.isWritable then .line (.file p) n else .complaint p n

/-! ## The tree of loggers -/

/-- What a logger is given. -/
structure Logger where
  /-- The least level; without one, the loggers above decide. -/
  level : Option Level := none
  sinks : List Sink := []
  /-- Notices go on to the loggers above. -/
  propagates : Bool := true
deriving DecidableEq, Inhabited, Repr

namespace Logger

def add (a : Logger) (k : Sink) : Logger := { a with sinks := a.sinks ++ [k] }

def remove (a : Logger) (k : Sink) : Logger := { a with sinks := a.sinks.erase k }

/-- The least weight that the first logger with a level lets pass. -/
def threshold (line : List Logger) : Int :=
  ((line.findSome? (·.level)).map fun l => (l.weight : Int)).getD 0

/-- The sinks of loggers, each with those above it behind, up to one that keeps what it gets. -/
def reached : List Logger → List Sink
  | [] => []
  | a :: above => a.sinks ++ if a.propagates then reached above else []

end Logger

/-- The loggers there are.  Only the program's and the one above all others are ever given
anything. -/
structure Loggers where
  /-- The names of the loggers that have been asked for. -/
  known : List Text := []
  program : Logger := {}
  root : Logger := { level := some .warning }
deriving DecidableEq, Inhabited, Repr

namespace Loggers

/-- The logger of a name. -/
def logger (l : Loggers) (name : Text) : Logger := if name = Record.program then l.program else {}

/-- Asks for the logger of a name. -/
def obtain (l : Loggers) (name : Text) : Loggers := { l with known := l.known.insert name }

/-- The names of the loggers above one whose name is given from its end, the nearest first.  They
are what stands before a dot.  A name that no logger has is passed over, with the unit before its
dot. -/
def above (known : List Text) : Text → List Text
  | [] | [_] => []
  | c :: d :: units =>
    if c = .char '.' then
      if known.contains (d :: units).reverse then (d :: units).reverse :: above known (d :: units)
      else above known units
    else above known (d :: units)

/-- A logger and those above it, from the name. -/
def line (l : Loggers) (name : Text) : List Logger :=
  (name :: above l.known name.reverse).map l.logger ++ [l.root]

/-- What becomes of a notice. -/
def deliver (l : Loggers) (n : Notice) : List Delivery :=
  let line := l.line (Record.journalName n.stage)
  if n.weight < Logger.threshold line then []
  else
    match Logger.reached line with
    | [] => if n.weight < Level.warning.weight then [] else [.bare n]
    | sinks => (sinks.filter fun k => k.level.weight ≤ n.weight).map (·.deliver n)

/-! ## Setups -/

/-- Removes the sinks of the program's logger, which keeps what it gets from now on, and adds the
console. -/
def reset (l : Loggers) (s : Setup) : Loggers :=
  let l := l.obtain Record.program
  let bare := l.program.sinks.foldl Logger.remove { l.program with propagates := false }
  { l with program := bare.add ⟨.console, s.consoleLevel⟩ }

/-- Puts a setup in place. -/
def configure (l : Loggers) (s : Setup) : Loggers :=
  let l := l.reset s
  match s.logFile with
  | none => { l with program := { l.program with level := some s.consoleLevel } }
  | some p => { l with program := { l.program.add ⟨.file p, .debug⟩ with level := some .debug } }

/-! ## Runs -/

/-- What happens to the loggers. -/
inductive Event where
  /-- A setup is put in place. -/
  | configure (s : Setup)
  /-- The same, broken off at a file that cannot be opened. -/
  | breakOff (s : Setup)
  /-- A notice is given to the logger of its stage. -/
  | notice (n : Notice)
deriving Inhabited, Repr

/-- The loggers after an event. -/
def after (l : Loggers) : Event → Loggers
  | .configure s => l.configure s
  | .breakOff s => l.reset s
  | .notice n => l.obtain (Record.journalName n.stage)

/-- What is delivered at an event. -/
def deliverAt (l : Loggers) : Event → List Delivery
  | .configure _ | .breakOff _ => []
  | .notice n => (l.after (.notice n)).deliver n

/-- What is delivered at each event of a run. -/
def deliveries (l : Loggers) : List Event → List (List Delivery)
  | [] => []
  | e :: es => l.deliverAt e :: (l.after e).deliveries es

end Loggers

/-! ## Sinks in place -/

namespace Sinks

/-- The program's logger with these sinks. -/
def logger (k : Sinks) : Logger := { level := some k.level, sinks := k.sinks, propagates := false }

/-- What becomes of a record while the sinks are in place. -/
def deliver (k : Sinks) (r : Record) : List Delivery :=
  ({ known := [Record.program], program := k.logger } : Loggers).deliver r.notice

/-- The receivers that the line of a record reaches. -/
def receivers (k : Sinks) (r : Record) : List Target := (k.deliver r).filterMap Delivery.receiver?

/-- What records leave on the console. -/
def console (k : Sinks) (rs : List Record) : List Text :=
  ((rs.flatMap k.deliver).filter Delivery.onConsole).map Delivery.text

/-- The lines of records in a file. -/
def fileLines (k : Sinks) (path : Path) (rs : List Record) : List Text :=
  ((rs.flatMap k.deliver).filter fun x => x.receiver? = some (.file path)).map Delivery.text

end Sinks

end UberPackage
