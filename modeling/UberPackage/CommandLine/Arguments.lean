/-
  The arguments of a command line.

  * A `Form` says which flags and which operands a command has.
  * `Word.ofArgument` tells flags from operands; long flags may be cut short, short ones may
    stand together, and all behind `--` is an operand.
  * `Form.read` goes through the words.  It stops early for help and for a mistake.
-/
import UberPackage.Json.Spelling

namespace UberPackage.CommandLine

/-- What a flag asks for. -/
inductive Wish where
  | help | verbose | config | quiet | logFile
deriving DecidableEq, Inhabited, Repr

/-- A flag: its names, the short one first, and whether a value follows it. -/
structure Flag where
  names : List Text
  wish : Wish
  takesValue : Bool := false
deriving Inhabited

/-- The operands that a command takes. -/
inductive Operands where
  /-- One operand and all arguments behind it. -/
  | commandAndRest
  /-- One operand or none. -/
  | atMostOne
deriving DecidableEq, Inhabited, Repr

/-- The arguments of a command. -/
structure Form where
  program : Text
  flags : List Flag
  operands : Operands
  usage : Text
  help : Text
deriving Inhabited

/-- Why reading stops early. -/
inductive Stop where
  /-- Help was asked for. -/
  | help (text : Text)
  /-- The arguments are wrong. -/
  | mistake (usage program message : Text)
deriving DecidableEq, Inhabited, Repr

/-! ## Words -/

/-- A value that stands in the same argument as its flag. -/
structure Attached where
  /-- An equals sign stands between them. -/
  equals : Bool
  value : Text
deriving DecidableEq, Inhabited, Repr

/-- What an argument is. -/
inductive Word where
  | operand
  | separator
  /-- A flag, if it is known, its name and what is attached to it. -/
  | flag (f : Option Flag) (name : Text) (attached : Option Attached)
deriving Inhabited

namespace Form

/-- The wrong arguments as a reason to stop. -/
def mistake (form : Form) (message : Text) : Stop := .mistake form.usage form.program message

/-- All names with their flags. -/
def names (form : Form) : List (Text × Flag) :=
  form.flags.flatMap fun f => f.names.map (·, f)

/-- The flag with a name. -/
def flag? (form : Form) (name : Text) : Option Flag := form.names.lookup name

/-- A wrong use of a flag as a reason to stop. -/
def misuse (form : Form) (f : Flag) (message : Text) : Stop :=
  form.mistake ("argument " ++ Text.join "/" f.names ++ ": " ++ message)

end Form

/-- The text before the first equals sign and the text behind it. -/
def cutAtEquals (t : Text) : Text × Option Attached :=
  let before := t.takeWhile (!·.isChar '=')
  if before.length < t.length then (before, some ⟨true, t.drop (before.length + 1)⟩) else (t, none)

/-- What an argument can be short for: names with their flags and what is attached. -/
def Form.candidates (form : Form) (t : Text) : List (Text × Flag × Option Attached) :=
  if (t.drop 1).head? = some (.char '-') then
    let (start, value) := cutAtEquals t
    (form.names.filter fun (name, _) => start.isPrefixOf name).map fun (name, f) => (name, f, value)
  else
    form.names.filterMap fun (name, f) =>
      if name = t.take 2 then some (name, f, some ⟨false, t.drop 2⟩)
      else if t.isPrefixOf name then some (name, f, none)
      else none

/-- The unit is a digit. -/
def isDigit (c : Code) : Bool :=
  match c with
  | .char c => c.isDigit
  | .half _ => false

/-- A negative number. -/
def isNegative (t : Text) : Bool :=
  match t with
  | .char '-' :: rest =>
    let whole := rest.takeWhile isDigit
    let behind := rest.drop whole.length
    (!whole.isEmpty && behind.isEmpty) ||
      (behind.head? == some (.char '.') && !(behind.drop 1).isEmpty && (behind.drop 1).all isDigit)
  | _ => false

/-- What an argument is that begins with a dash and is no name of a flag. -/
def Word.ofDashed (form : Form) (t : Text) : Except Stop Word :=
  let (start, value) := cutAtEquals t
  match value.bind fun _ => form.flag? start with
  | some f => .ok (.flag (some f) start value)
  | none =>
    match form.candidates t with
    | [(name, f, value)] => .ok (.flag (some f) name value)
    | [] =>
      if isNegative t || t.contains (.char ' ') then .ok .operand else .ok (.flag none t none)
    | several =>
      .error (form.mistake ("ambiguous option: " ++ t ++ " could match " ++
        Text.join ", " (several.map (·.1))))

/-- What an argument is. -/
def Word.ofArgument (form : Form) (t : Text) : Except Stop Word :=
  if t.head? != some (.char '-') then .ok .operand
  else
    match form.flag? t with
    | some f => .ok (.flag (some f) t none)
    | none => if t.length = 1 then .ok .operand else Word.ofDashed form t

/-- Arguments with what they are. -/
def words (form : Form) : List Text → Except Stop (List (Text × Word))
  | [] => .ok []
  | t :: ts =>
    if t = "--" then .ok ((t, .separator) :: ts.map (·, .operand))
    else do
      let w ← Word.ofArgument form t
      return (t, w) :: (← words form ts)

/-! ## Reading -/

/-- What has been read. -/
structure Reading where
  /-- Wishes with their values, in order. -/
  wishes : List (Wish × Text) := []
  /-- The arguments that are operands, once there are any. -/
  operands : Option (List Text) := none
  /-- Arguments that fit nowhere. -/
  extras : List Text := []
deriving Inhabited

/-- How many words from here on are the operands of a command. -/
def Operands.count (o : Operands) (ws : List Word) : Nat :=
  let separators := (ws.takeWhile fun w => w matches .separator).length
  match o, ws.drop separators with
  | .commandAndRest, .operand :: _ => ws.length
  | .commandAndRest, _ => 0
  | .atMostOne, .operand :: .separator :: _ => separators + 2
  | .atMostOne, .operand :: _ => separators + 1
  | .atMostOne, _ => separators

/-- What the flags in one argument give. -/
structure Cluster where
  wishes : List (Wish × Text)
  /-- The last flag, if nothing is attached to it. -/
  last : Option Flag := none
  /-- What is attached and is no flag. -/
  extra : Option Text := none
deriving Inhabited

/-- The flag does not take what is attached to it. -/
def Form.ignored (form : Form) (f : Flag) (value : Text) : Stop :=
  form.misuse f ("ignored explicit argument " ++ value.inspect)

/-- The flags in one argument, from a flag and what is attached to it: behind a short flag
without a value, further short flags may follow. -/
def Form.cluster (form : Form) (f : Flag) (short equals : Bool) : Text → Except Stop Cluster
  | [] => if f.takesValue then .ok { wishes := [(f.wish, [])] } else .error (form.ignored f [])
  | c :: rest =>
    if f.takesValue then .ok { wishes := [(f.wish, c :: rest)] }
    else if !short || equals || c = .char '-' then .error (form.ignored f (c :: rest))
    else
      match form.flag? ("-" ++ [c]) with
      | none => .ok { wishes := [(f.wish, [])], extra := some ("-" ++ c :: rest) }
      | some next => do
        let more ←
          match rest with
          | [] => pure { wishes := [], last := some next }
          | .char '=' :: rest => form.cluster next short true rest
          | x :: rest => form.cluster next short false (x :: rest)
        return { more with wishes := (f.wish, []) :: more.wishes }

/-- What a flag in an argument gives. -/
def Form.attached (form : Form) (f : Flag) (name : Text) (a : Option Attached) :
    Except Stop Cluster :=
  match a with
  | none => .ok { wishes := [], last := some f }
  | some a => form.cluster f ((name.drop 1).head? != some (.char '-')) a.equals a.value

/-- The wishes of a cluster, whose last value may be in the next argument, and the words behind
it. -/
def Form.withValue (form : Form) (c : Cluster) (rest : List (Text × Word)) :
    Except Stop (List (Wish × Text) × List (Text × Word)) :=
  match c.last with
  | none => .ok (c.wishes, rest)
  | some f =>
    if !f.takesValue then .ok (c.wishes ++ [(f.wish, [])], rest)
    else
      match rest with
      | (t, .operand) :: rest => .ok (c.wishes ++ [(f.wish, t)], rest)
      | _ => .error (form.misuse f "expected one argument")

/-- Stops if help is among wishes. -/
def Form.heed (form : Form) (ws : List (Wish × Text)) : Except Stop Unit :=
  if ws.any fun w => w.1 == .help then .error (.help form.help) else .ok ()

/-- Goes through words; `n` bounds their number. -/
def Form.readWords (form : Form) : Nat → List (Text × Word) → Reading → Except Stop Reading
  | 0, _, r | _, [], r => .ok r
  | n + 1, (t, w) :: rest, r =>
    match w with
    | .flag none _ _ => form.readWords n rest { r with extras := r.extras ++ [t] }
    | .flag (some f) name a => do
      let c ← form.attached f name a
      let (ws, rest) ← form.withValue c rest
      form.heed ws
      form.readWords n rest { r with wishes := r.wishes ++ ws, extras :=
        r.extras ++ c.extra.toList }
    | _ =>
      let all := (t, w) :: rest
      let count := if r.operands.isNone then form.operands.count (all.map (·.2)) else 0
      if count = 0 then form.readWords n rest { r with extras := r.extras ++ [t] }
      else form.readWords n (all.drop count)
        { r with operands := some ((all.take count).map (·.1)) }

/-- Reads the arguments of a command. -/
def Form.read (form : Form) (args : List Text) : Except Stop Reading := do
  let ws ← words form args
  form.readWords (ws.length + 1) ws {}

end UberPackage.CommandLine
