/-
  The lexemes of YAML: names, tags, directives and scalars.

  Each reader starts where its lexeme begins and gives the cursor behind it.  Lines of a
  scalar are folded: a single line end becomes a space, of several the first is dropped.
-/
import UberPackage.Yaml.Cursor
import UberPackage.Text.Utf8

namespace UberPackage.Yaml

/-- The text is not YAML. -/
def refuse {α : Type} : Except Fault α := .error .notYaml

/-- The value of hexadecimal digits. -/
def hexValue? (cs : List Char) : Option Nat :=
  cs.foldl (fun acc c => do
    let n ← acc
    if c.isDigit then return 16 * n + (c.toNat - 48)
    else if 'a' ≤ c && c ≤ 'f' then return 16 * n + (c.toNat - 87)
    else if 'A' ≤ c && c ≤ 'F' then return 16 * n + (c.toNat - 55)
    else none) (some 0)

/-- The value of exactly `n` hexadecimal digits. -/
def hexDigits? (n : Nat) (c : Cursor) : Option (Nat × Cursor) := do
  let ds := c.rest.take n
  if ds.length < n then none else return (← hexValue? ds, c.forward n)

/-! ## Names and tags -/

/-- The end of a name of an anchor. -/
def endsName (o : Option Char) : Bool :=
  blankOrEnd o || o.any fun c => "?:,]\x7d%@\x60".toList.contains c

/-- The name of an anchor or an alias, after its mark. -/
def readName (c : Cursor) : Except Fault (Text × Cursor) := do
  let (name, after) := c.step.take isNameChar
  if name.isEmpty || !endsName after.next? then refuse
  else return (Text.ofChars name, after)

/-- A character of a URI. -/
def isUriChar (c : Char) : Bool :=
  c.isAlphanum || "-;/?:@&=+$,_.!~*'()[]%".toList.contains c

/-- Bytes that are written as percent signs with two digits; `n` bounds their number. -/
def readEscapes : Nat → Cursor → Except Fault (Bytes × Cursor)
  | 0, c => .ok ([], c)
  | n + 1, c =>
    if c.sees '%' then
      match hexDigits? 2 c.step with
      | none => refuse
      | some (v, c) => do
        let (bytes, c) ← readEscapes n c
        return (UInt8.ofNat v :: bytes, c)
    else .ok ([], c)

/-- A URI, possibly empty; `n` bounds the number of its pieces. -/
def readUriPieces : Nat → Cursor → Except Fault (Text × Cursor)
  | 0, _ => refuse
  | n + 1, c => do
    let (plain, after) := c.take fun x => isUriChar x && x != '%'
    if after.sees '%' then
      let (bytes, after) ← readEscapes (after.rest.length + 1) after
      match Utf8.text? bytes with
      | none => refuse
      | some t =>
        let (rest, after) ← readUriPieces n after
        return (Text.ofChars plain ++ t ++ rest, after)
    else return (Text.ofChars plain, after)

/-- A URI. -/
def readUri (c : Cursor) : Except Fault (Text × Cursor) := do
  if !c.seesAny isUriChar then refuse
  else readUriPieces (c.rest.length + 1) c

/-- A handle of tags: a name between exclamation marks, or one such mark. -/
def readHandle (c : Cursor) : Except Fault (Text × Cursor) := do
  if !c.sees '!' then refuse
  else if c.peek? 1 == some ' ' then return (("!" : Text), c.step)
  else
    let (name, after) := c.step.take isNameChar
    if after.sees '!' then return ("!" ++ Text.ofChars name ++ "!", after.step) else refuse

/-- A tag: its handle, if it has one, and its suffix. -/
abbrev TagName := Option Text × Text

/-- A tag. -/
def readTag (c : Cursor) : Except Fault (TagName × Cursor) := do
  let (tag, after) ←
    if c.peek? 1 == some '<' then do
      let (suffix, after) ← readUri (c.forward 2)
      if after.sees '>' then pure (((none, suffix) : TagName), after.step) else refuse
    else if blankOrEnd (c.peek? 1) then pure ((none, ("!" : Text)), c.step)
    else do
      let word := c.step.run fun x => !(x == ' ' || isBreak x)
      let (handle, after) ←
        if word.contains '!' then readHandle c else pure (("!" : Text), c.step)
      let (suffix, after) ← readUri after
      pure ((some handle, suffix), after)
  if spaceOrEnd after.next? then return (tag, after) else refuse

/-! ## Directives -/

/-- A line in front of a document. -/
inductive Directive where
  | version (major : Nat)
  | tag (handle uri : Text)
  | other
deriving DecidableEq, Inhabited, Repr

/-- A number in decimal. -/
def readDecimal (c : Cursor) : Except Fault (Nat × Cursor) :=
  match c.take Char.isDigit with
  | ([], _) => refuse
  | (ds, after) => .ok (ds.foldl (fun n d => 10 * n + (d.toNat - 48)) 0, after)

/-- A version: two numbers with a point between them. -/
def readVersion (c : Cursor) : Except Fault (Directive × Cursor) := do
  let (major, c) ← readDecimal c.skipSpaces
  if !c.sees '.' then refuse
  else
    let (_, c) ← readDecimal c.step
    if spaceOrEnd c.next? then return (.version major, c) else refuse

/-- A handle and the URI that it stands for. -/
def readTagDirective (c : Cursor) : Except Fault (Directive × Cursor) := do
  let (handle, c) ← readHandle c.skipSpaces
  if !c.sees ' ' then refuse
  else
    let (uri, c) ← readUri c.skipSpaces
    if spaceOrEnd c.next? then return (.tag handle uri, c) else refuse

/-- The rest of a line that holds a comment at most. -/
def endLine (c : Cursor) : Except Fault Cursor :=
  let c := c.skipSpaces.skipComment
  match c.lineBreak? with
  | some (_, c) => .ok c
  | none => if c.rest.isEmpty then .ok c else refuse

/-- A directive. -/
def readDirective (c : Cursor) : Except Fault (Directive × Cursor) := do
  let (name, c) := c.step.take isNameChar
  if name.isEmpty || !spaceOrEnd c.next? then refuse
  else
    let (d, c) ←
      if name = "YAML".toList then readVersion c
      else if name = "TAG".toList then readTagDirective c
      else pure (.other, c.skip (!isBreak ·))
    return (d, ← endLine c)

/-! ## Folding -/

/-- A line end and the empty lines after it, folded. -/
def fold (first : Char) (empties : List Char) : List Char :=
  (if first != '\n' then [first] else if empties.isEmpty then [' '] else []) ++ empties

/-! ## Block scalars -/

/-- What becomes of the line ends behind a block scalar. -/
inductive Chomping where
  | strip | clip | keep
deriving DecidableEq, Inhabited, Repr

/-- The sign that says what becomes of them. -/
def chomping? : Option Char → Option Chomping
  | some '+' => some .keep
  | some '-' => some .strip
  | _ => none

/-- A digit that says how far a block scalar is indented. -/
def indentDigit? (o : Option Char) : Except Fault (Option Nat) :=
  match o with
  | some c =>
    if c == '0' then refuse
    else if c.isDigit then .ok (some (c.toNat - 48))
    else .ok none
  | none => .ok none

/-- The sign and the digit at the head of a block scalar, in any order. -/
def readHeader (c : Cursor) : Except Fault ((Chomping × Option Nat) × Cursor) := do
  let (chomping, digit, c) ←
    match chomping? c.next? with
    | some ch => do
      let c := c.step
      match ← indentDigit? c.next? with
      | some d => pure (ch, some d, c.step)
      | none => pure (ch, none, c)
    | none => do
      match ← indentDigit? c.next? with
      | some d =>
        let c := c.step
        match chomping? c.next? with
        | some ch => pure (ch, some d, c.step)
        | none => pure (Chomping.clip, some d, c)
      | none => pure (Chomping.clip, none, c)
  if spaceOrEnd c.next? then return ((chomping, digit), c) else refuse

/-- Empty lines, each indented at most so far, and the indent of the next line up to there. -/
def emptyLines (indent : Nat) : Nat → Cursor → List Char × Cursor
  | 0, c => ([], c)
  | n + 1, c =>
    let spaces := min (c.run (· == ' ')).length (indent - c.column)
    let c := c.forward spaces
    match c.lineBreak? with
    | some (b, c) =>
      let (bs, c) := emptyLines indent n c
      (b :: bs, c)
    | none => ([], c)

/-- Empty lines, however indented, and their greatest indent with that of the next line. -/
def anyEmptyLines : Nat → Nat → Cursor → List Char × Nat × Cursor
  | 0, widest, c => ([], widest, c)
  | n + 1, widest, c =>
    let c := c.skipSpaces
    let widest := max widest c.column
    match c.lineBreak? with
    | some (b, c) =>
      let (bs, widest, c) := anyEmptyLines n widest c
      (b :: bs, widest, c)
    | none => ([], widest, c)

/-- The lines of a block scalar from one that is not empty: the text, the last line end and the
empty lines behind it. -/
def blockLines (folded : Bool) (indent : Nat) :
    Nat → Cursor → List Char × List Char × List Char × Cursor
  | 0, c => ([], [], [], c)
  | n + 1, c =>
    let flush := !c.seesAny isBlank
    let (line, c) := c.take (!isBreak ·)
    let (first, c) :=
      match c.lineBreak? with
      | some (b, c) => ([b], c)
      | none => ([], c)
    let (empties, c) := emptyLines indent (c.rest.length + 1) c
    if c.column == indent && !c.rest.isEmpty then
      let between :=
        if folded && first == ['\n'] && flush && !c.seesAny isBlank then
          if empties.isEmpty then [' '] else empties
        else first ++ empties
      let (text, last, behind, c) := blockLines folded indent n c
      (line ++ between ++ text, last, behind, c)
    else (line, first, empties, c)

/-- A block scalar, in a block that is indented so far; folded or as it stands. -/
def readBlock (folded : Bool) (outer : Int) (c : Cursor) : Except Fault (Text × Cursor) := do
  let ((chomping, digit), c) ← readHeader c.step
  let c ← endLine c
  let least := (max (outer + 1) 1).toNat
  let (empties, indent, c) :=
    match digit with
    | some d =>
      let indent := least + d - 1
      let (bs, c) := emptyLines indent (c.rest.length + 1) c
      (bs, indent, c)
    | none =>
      let (bs, widest, c) := anyEmptyLines (c.rest.length + 1) 0 c
      (bs, max least widest, c)
  let (text, last, behind, c) :=
    if c.column == indent && !c.rest.isEmpty then
      let (text, last, behind, c) := blockLines folded indent (c.rest.length + 1) c
      (empties ++ text, last, behind, c)
    else ([], [], empties, c)
  let tail :=
    match chomping with
    | .strip => []
    | .clip => last
    | .keep => last ++ behind
  return (Text.ofChars (text ++ tail), c)

/-! ## Quoted scalars -/

/-- Escapes of one character. -/
def escape? : Char → Option Char
  | '0' => some '\x00'
  | 'a' => some '\x07'
  | 'b' => some '\x08'
  | 't' | '\t' => some '\t'
  | 'n' => some '\n'
  | 'v' => some '\x0b'
  | 'f' => some '\x0c'
  | 'r' => some '\r'
  | 'e' => some '\x1b'
  | ' ' => some ' '
  | '"' => some '"'
  | '\\' => some '\\'
  | '/' => some '/'
  | 'N' => some '\x85'
  | '_' => some '\xa0'
  | 'L' => some '\u2028'
  | 'P' => some '\u2029'
  | _ => none

/-- Escapes with a number, and how many digits it has. -/
def escapeDigits? : Char → Option Nat
  | 'x' => some 2
  | 'u' => some 4
  | 'U' => some 8
  | _ => none

/-- The unit that an escape with a number stands for. -/
def escapedUnit (n : Nat) : Except Fault Code :=
  if n < 0x110000 then .ok (Code.ofPoint n)
  else if n < 0x80000000 then .error (.misfit .malformed)
  else .error (.misfit .tooLarge)

/-- The line ends and the blanks around them, up to a character that is neither. -/
def quotedBreaks : Nat → Cursor → Except Fault (List Char × Cursor)
  | 0, _ => refuse
  | n + 1, c =>
    if c.seesAnyMarker then refuse
    else
      let c := c.skip isBlank
      match c.lineBreak? with
      | some (b, c) => do
        let (bs, c) ← quotedBreaks n c
        return (b :: bs, c)
      | none => .ok ([], c)

/-- Blanks and line ends inside quotes. -/
def quotedSpace (c : Cursor) : Except Fault (Text × Cursor) := do
  let (blanks, c) := c.take isBlank
  match c.lineBreak? with
  | some (b, c) =>
    let (empties, c) ← quotedBreaks (c.rest.length + 1) c
    return (Text.ofChars (fold b empties), c)
  | none => if c.rest.isEmpty then refuse else return (Text.ofChars blanks, c)

/-- An escape, from the character after its backslash. -/
def readEscape (c : Cursor) : Except Fault (Text × Cursor) :=
  match c.next? with
  | none => refuse
  | some x =>
    match escape? x, escapeDigits? x with
    | some y, _ => .ok ([.char y], c.step)
    | none, some digits =>
      match hexDigits? digits c.step with
      | none => refuse
      | some (n, c) => do return ([← escapedUnit n], c)
    | none, none =>
      match c.lineBreak? with
      | none => refuse
      | some (_, c) => do
        let (empties, c) ← quotedBreaks (c.rest.length + 1) c
        return (Text.ofChars empties, c)

/-- The text up to the closing quote, and the cursor behind it. -/
def quotedText (double : Bool) : Nat → Cursor → Except Fault (Text × Cursor)
  | 0, _ => refuse
  | n + 1, c => do
    let mark := if double then '"' else '\''
    let (piece, c) ←
      match c.next? with
      | none => refuse
      | some x =>
        if x == ' ' || x == '\t' || isBreak x then quotedSpace c
        else if double && x == '\\' then readEscape c.step
        else if x == mark && !double && c.peek? 1 == some '\'' then pure (("'" : Text), c.forward 2)
        else if x == mark then return ([], c.step)
        else pure ([.char x], c.step)
    let (rest, c) ← quotedText double n c
    return (piece ++ rest, c)

/-- A scalar in quotes. -/
def readQuoted (double : Bool) (c : Cursor) : Except Fault (Text × Cursor) :=
  quotedText double (c.rest.length + 1) c.step

/-! ## Plain scalars -/

/-- A character that ends a plain scalar, with the one after it; inside brackets or not. -/
def endsPlain (inFlow : Bool) (x : Char) (next : Option Char) : Bool :=
  x == ' ' || x == '\t' || isBreak x ||
  (x == ':' &&
    (blankOrEnd next || (inFlow && next.any fun c => ",[]\x7b\x7d".toList.contains c))) ||
  (inFlow && ",?[]\x7b\x7d".toList.contains x)

/-- The characters up to one that ends a plain scalar. -/
def plainWord (inFlow : Bool) : List Char → List Char
  | [] => []
  | x :: rest => if endsPlain inFlow x rest.head? then [] else x :: plainWord inFlow rest

/-- Line ends and spaces behind a word, until a marker; `none` if one stands there. -/
def plainBreaks : Nat → Cursor → Option (List Char) × Cursor
  | 0, c => (none, c)
  | n + 1, c =>
    if c.seesAnyMarker then (none, c)
    else
      let c := c.skipSpaces
      match c.lineBreak? with
      | some (b, c) =>
        let (bs, c) := plainBreaks n c
        (bs.map (b :: ·), c)
      | none => (some [], c)

/-- What stands between two words of a plain scalar: the text, nothing if the scalar ends, and
whether a line has ended. -/
def plainSpace (c : Cursor) : List Char × Bool × Cursor :=
  let (spaces, c) := c.take (· == ' ')
  match c.lineBreak? with
  | none => (spaces, false, c)
  | some (b, c) =>
    match plainBreaks (c.rest.length + 1) c with
    | (some empties, c) => (fold b empties, true, c)
    | (none, c) => ([], true, c)

/-- A plain scalar in a block that is indented so far, and whether a line has ended behind its
last word. -/
def plainWords (inFlow : Bool) (indent : Int) : Nat → Cursor → List Char × Bool × Cursor
  | 0, c => ([], false, c)
  | n + 1, c =>
    let word := plainWord inFlow c.rest
    let c := c.forward word.length
    let (space, ended, c) := plainSpace c
    if space.isEmpty || c.sees '#' || (!inFlow && (c.column : Int) < indent) ||
        (plainWord inFlow c.rest).isEmpty then
      (word, ended, c)
    else
      let (text, ended, c) := plainWords inFlow indent n c
      (word ++ space ++ text, ended, c)

/-- A plain scalar and whether a line has ended behind it. -/
def readPlain (inFlow : Bool) (outer : Int) (c : Cursor) : Text × Bool × Cursor :=
  let (cs, ended, c) := plainWords inFlow (outer + 1) (c.rest.length + 1) c
  (Text.ofChars cs, ended, c)

end UberPackage.Yaml
