/-
  YAML text as tokens.

  * Indentation becomes tokens of its own: a block begins where a key or an entry stands
    further to the right than the block around it, and ends where a line stands further to
    the left.
  * A key is only known by the colon behind it.  So a place where one may begin is noted
    (`KeyPlace`), and its token is put there when the colon comes.
  * The tokens of a text end with `streamEnd`, or with the fault that stops the reading.
-/
import UberPackage.Yaml.Lexeme

namespace UberPackage.Yaml

/-- A token. -/
inductive Token where
  | directive (d : Directive)
  | documentStart
  | documentEnd
  | streamEnd
  | blockListStart
  | blockMappingStart
  | blockEnd
  | flowListStart
  | flowListEnd
  | flowMappingStart
  | flowMappingEnd
  | blockEntry
  | flowEntry
  | key
  | value
  | alias (name : Text)
  | anchor (name : Text)
  | tag (name : TagName)
  | scalar (text : Text) (plain : Bool)
  | fault (f : Fault)
deriving DecidableEq, Inhabited, Repr

/-- A place where a key may begin. -/
structure KeyPlace where
  /-- The number of brackets around it. -/
  depth : Nat
  /-- The number of tokens before it. -/
  tokens : Nat
  /-- Nothing but a key can stand there. -/
  required : Bool
  index : Nat
  line : Nat
  column : Nat
deriving Inhabited

/-- How far a text has been read. -/
structure Scan where
  cursor : Cursor
  /-- The tokens so far, the last one first. -/
  tokens : List Token
  /-- The number of brackets around. -/
  depth : Nat
  /-- The column of the block around; before the first block, -1. -/
  indent : Int
  /-- The columns of the blocks around that one. -/
  outer : List Int
  /-- A key may begin here. -/
  keyAllowed : Bool
  keys : List KeyPlace
deriving Inhabited

namespace Scan

/-- The beginning of a text. -/
def start (cs : List Char) : Scan :=
  { cursor := Cursor.start cs, tokens := [], depth := 0, indent := -1, outer := [],
    keyAllowed := true, keys := [] }

/-- The column as an indent. -/
def column (s : Scan) : Int := s.cursor.column

/-- The reading stands inside brackets. -/
def inFlow (s : Scan) : Bool := s.depth != 0

/-- One more token. -/
def push (s : Scan) (t : Token) : Scan := { s with tokens := t :: s.tokens }

/-- A token put after the first `n` tokens. -/
def insert (s : Scan) (n : Nat) (t : Token) : Scan :=
  let late := s.tokens.length - n
  { s with tokens := s.tokens.take late ++ t :: s.tokens.drop late }

/-- The reading moved to another place. -/
def moveTo (s : Scan) (c : Cursor) : Scan := { s with cursor := c }

/-- The reading with a key allowed here or not. -/
def allowing (s : Scan) (allowed : Bool) : Scan := { s with keyAllowed := allowed }

/-- The reading after `n` characters. -/
def forward (s : Scan) (n : Nat) : Scan := s.moveTo (s.cursor.forward n)

/-! ## Blocks -/

/-- A block inside the one around, if its column is further to the right. -/
def openBlock? (s : Scan) (column : Int) : Option Scan :=
  if s.indent < column then some { s with indent := column, outer := s.indent :: s.outer } else none

/-- Ends blocks that are further to the right than a column. -/
def closeBlocks (column : Int) : Nat → Scan → Scan
  | 0, s => s
  | n + 1, s =>
    if s.indent > column then
      let ended := s.push .blockEnd
      closeBlocks column n { ended with indent := s.outer.head?.getD (-1), outer := s.outer.tail }
    else s

/-- Ends the blocks that the place is not in; brackets keep blocks open. -/
def unwind (column : Int) (s : Scan) : Scan :=
  if s.inFlow then s else closeBlocks column (s.outer.length + 1) s

/-! ## Keys -/

/-- How far behind its beginning a key may have its colon. -/
def keyReach : Nat := 1024

/-- The place of the key that may have begun between the innermost brackets. -/
def keyPlace? (s : Scan) : Option KeyPlace := s.keys.find? (·.depth == s.depth)

/-- Forgets the place of a key between the innermost brackets. -/
def withoutKey (s : Scan) : Scan := { s with keys := s.keys.filter (·.depth != s.depth) }

/-- Gives up the place of a key, unless there has to be one. -/
def dropKey (s : Scan) : Except Fault Scan :=
  if s.keyPlace?.any (·.required) then refuse else .ok s.withoutKey

/-- Gives up the places of keys that are on another line or too far back. -/
def dropStaleKeys (s : Scan) : Except Fault Scan :=
  let stale := fun k : KeyPlace =>
    k.line != s.cursor.line || keyReach < s.cursor.index - k.index
  if s.keys.any fun k => stale k && k.required then refuse
  else .ok { s with keys := s.keys.filter fun k => !stale k }

/-- Notes that a key may begin here. -/
def saveKey (s : Scan) : Except Fault Scan :=
  if s.keyAllowed then do
    let place : KeyPlace :=
      ⟨s.depth, s.tokens.length, !s.inFlow && s.indent == s.column, s.cursor.index,
        s.cursor.line, s.cursor.column⟩
    let s ← s.dropKey
    return { s with keys := place :: s.keys }
  else .ok s

/-! ## Tokens -/

/-- The end of the text. -/
def endStream (s : Scan) : Except Fault Scan := do
  let s ← (s.unwind (-1)).dropKey
  return s.push .streamEnd

/-- A directive. -/
def directive (s : Scan) : Except Fault Scan := do
  let s ← (s.unwind (-1)).dropKey
  let (d, c) ← readDirective s.cursor
  return ((s.allowing false).moveTo c).push (.directive d)

/-- A marker between documents. -/
def marker (t : Token) (s : Scan) : Except Fault Scan := do
  let s ← (s.unwind (-1)).dropKey
  return ((s.allowing false).forward 3).push t

/-- An opening bracket. -/
def openFlow (t : Token) (s : Scan) : Except Fault Scan := do
  let s ← s.saveKey
  return ({ s with depth := s.depth + 1, keyAllowed := true }.forward 1).push t

/-- A closing bracket. -/
def closeFlow (t : Token) (s : Scan) : Except Fault Scan := do
  let s ← s.dropKey
  return ({ s with depth := s.depth - 1, keyAllowed := false }.forward 1).push t

/-- A comma between brackets. -/
def flowEntry (s : Scan) : Except Fault Scan := do
  let s ← s.dropKey
  return ((s.allowing true).forward 1).push .flowEntry

/-- The block that begins at a column, if one does. -/
def openAt (t : Token) (column : Int) (s : Scan) : Scan :=
  match s.openBlock? column with
  | some s => s.push t
  | none => s

/-- An item of a block. -/
def blockEntry (s : Scan) : Except Fault Scan := do
  let s ←
    if s.inFlow then pure s
    else if !s.keyAllowed then refuse
    else pure (s.openAt .blockListStart s.column)
  let s ← (s.allowing true).dropKey
  return (s.forward 1).push .blockEntry

/-- The mark of a key. -/
def explicitKey (s : Scan) : Except Fault Scan := do
  let s ←
    if s.inFlow then pure s
    else if !s.keyAllowed then refuse
    else pure (s.openAt .blockMappingStart s.column)
  let s ← (s.allowing (!s.inFlow)).dropKey
  return (s.forward 1).push .key

/-- The colon between a key and its value. -/
def value (s : Scan) : Except Fault Scan := do
  let s ←
    match s.keyPlace? with
    | some k =>
      let s := s.withoutKey.insert k.tokens .key
      let s :=
        if s.inFlow then s
        else
          match s.openBlock? k.column with
          | some s => s.insert k.tokens .blockMappingStart
          | none => s
      pure (s.allowing false)
    | none =>
      if s.inFlow then (s.allowing false).dropKey
      else if !s.keyAllowed then refuse
      else
        let s := s.openAt .blockMappingStart s.column
        (s.allowing true).dropKey
  return (s.forward 1).push .value

/-- A lexeme that a key may begin with. -/
def lexeme {α : Type} (s : Scan) (read : Cursor → Except Fault (α × Cursor)) (t : α → Token) :
    Except Fault Scan := do
  let s ← s.saveKey
  let (a, c) ← read s.cursor
  return ((s.allowing false).moveTo c).push (t a)

/-- A block scalar. -/
def blockScalar (folded : Bool) (s : Scan) : Except Fault Scan := do
  let s ← (s.allowing true).dropKey
  let (t, c) ← readBlock folded s.indent s.cursor
  return (s.moveTo c).push (.scalar t false)

/-- A plain scalar. -/
def plainScalar (s : Scan) : Except Fault Scan := do
  let s ← s.saveKey
  let (t, ended, c) := readPlain s.inFlow s.indent s.cursor
  return ((s.allowing ended).moveTo c).push (.scalar t true)

/-- Skips blanks, comments and line ends; behind a line end a key may begin. -/
def skipBlanks : Nat → Scan → Scan
  | 0, s => s
  | n + 1, s =>
    let c := s.cursor.skipSpaces.skipComment
    match c.lineBreak? with
    | some (_, c) => skipBlanks n { s with cursor := c, keyAllowed := s.keyAllowed || !s.inFlow }
    | none => s.moveTo c

/-- A plain scalar can begin with a character before another. -/
def beginsPlain (inFlow : Bool) (x : Char) (next : Option Char) : Bool :=
  !(blankOrEnd (some x) || "-?:,[]\x7b\x7d#&*!|>'\"%@\x60".toList.contains x) ||
  (!blankOrEnd next && (x == '-' || (!inFlow && (x == '?' || x == ':'))))

/-- The next token. -/
def token (s : Scan) (x : Char) : Except Fault Scan :=
  let c := s.cursor
  let next := c.peek? 1
  if x == '%' && c.column == 0 then s.directive
  else if c.column == 0 && c.seesMarker '-' then s.marker .documentStart
  else if c.column == 0 && c.seesMarker '.' then s.marker .documentEnd
  else if x == '[' then s.openFlow .flowListStart
  else if x == '\x7b' then s.openFlow .flowMappingStart
  else if x == ']' then s.closeFlow .flowListEnd
  else if x == '\x7d' then s.closeFlow .flowMappingEnd
  else if x == ',' then s.flowEntry
  else if x == '-' && blankOrEnd next then s.blockEntry
  else if x == '?' && (s.inFlow || blankOrEnd next) then s.explicitKey
  else if x == ':' && (s.inFlow || blankOrEnd next) then s.value
  else if x == '*' then s.lexeme readName .alias
  else if x == '&' then s.lexeme readName .anchor
  else if x == '!' then s.lexeme readTag .tag
  else if x == '|' && !s.inFlow then s.blockScalar false
  else if x == '>' && !s.inFlow then s.blockScalar true
  else if x == '\'' then s.lexeme (readQuoted false) fun t => .scalar t false
  else if x == '"' then s.lexeme (readQuoted true) fun t => .scalar t false
  else if beginsPlain s.inFlow x next then s.plainScalar
  else refuse

/-- One more token, after blanks; `none` when the text has ended. -/
def advance (s : Scan) : Except Fault (Scan × Bool) := do
  let s := skipBlanks (s.cursor.rest.length + 1) s
  let s ← s.dropStaleKeys
  let s := s.unwind s.column
  match s.cursor.next? with
  | none => return (← s.endStream, true)
  | some x => return (← s.token x, false)

/-- The tokens from here on; `n` bounds their number. -/
def run : Nat → Scan → Scan
  | 0, s => s.push (.fault .notYaml)
  | n + 1, s =>
    match s.advance with
    | .error f => s.push (.fault f)
    | .ok (s, true) => s
    | .ok (s, false) => run n s

end Scan

/-- The text without a byte order mark at its beginning. -/
def withoutMark : List Char → List Char
  | '\uFEFF' :: cs => cs
  | cs => cs

/-- The tokens of a text. -/
def tokens (cs : List Char) : List Token :=
  let cs := withoutMark cs
  (Scan.run (cs.length + 1) (Scan.start cs)).tokens.reverse

end UberPackage.Yaml
