/-
  Reading YAML text from left to right.

  * A `Cursor` holds what is left of a text and where it stands; a column counts the
    characters since the last line end, byte order marks apart.
  * A `Fault` is either text that is not YAML or a scalar that has no value.
-/
import UberPackage.Json.Lenient

namespace UberPackage.Yaml

/-- What is wrong with a YAML text. -/
inductive Fault where
  /-- The text is not YAML, or not of the kind that is read here. -/
  | notYaml
  /-- A scalar does not have the value that its tag asks for. -/
  | misfit (m : Misfit)
deriving DecidableEq, Inhabited, Repr

/-! ## Classes of characters -/

/-- A line end. -/
def isBreak (c : Char) : Bool :=
  c == '\n' || c == '\r' || c == '\x85' || c == '\u2028' || c == '\u2029'

/-- A line end or the end of the text. -/
def breakOrEnd : Option Char → Bool
  | none => true
  | some c => isBreak c

/-- A space, a line end or the end of the text. -/
def spaceOrEnd (o : Option Char) : Bool := o == some ' ' || breakOrEnd o

/-- A space, a tab, a line end or the end of the text. -/
def blankOrEnd (o : Option Char) : Bool := o == some '\t' || spaceOrEnd o

/-- A space or a tab. -/
def isBlank (c : Char) : Bool := c == ' ' || c == '\t'

/-- A character of a name. -/
def isNameChar (c : Char) : Bool := c.isAlphanum || c == '-' || c == '_'

/-- A character that a text may hold. -/
def isAllowed (c : Char) : Bool :=
  let n := c.toNat
  n == 0x09 || n == 0x0A || n == 0x0D || (0x20 ≤ n && n ≤ 0x7E) || n == 0x85 ||
    (0xA0 ≤ n && n ≤ 0xFFFD) || 0x10000 ≤ n

/-! ## Cursors -/

/-- A place in a text. -/
structure Cursor where
  /-- What is left of the text. -/
  rest : List Char
  index : Nat
  line : Nat
  column : Nat
deriving Inhabited

namespace Cursor

/-- The beginning of a text. -/
def start (cs : List Char) : Cursor := ⟨cs, 0, 0, 0⟩

/-- The next character. -/
def next? (c : Cursor) : Option Char := c.rest.head?

/-- The character `n` places further on. -/
def peek? (c : Cursor) (n : Nat) : Option Char := c.rest[n]?

/-- The next character is this one. -/
def sees (c : Cursor) (x : Char) : Bool := c.next? == some x

/-- The next character is of a class. -/
def seesAny (c : Cursor) (p : Char → Bool) : Bool := c.next?.any p

/-- The cursor after the next character. -/
def step (c : Cursor) : Cursor :=
  match c.rest with
  | [] => c
  | x :: rest =>
    if isBreak x && !(x == '\r' && rest.head? == some '\n') then ⟨rest, c.index + 1, c.line + 1, 0⟩
    else ⟨rest, c.index + 1, c.line, if x == '\uFEFF' then c.column else c.column + 1⟩

/-- The cursor after `n` characters. -/
def forward : Nat → Cursor → Cursor
  | 0, c => c
  | n + 1, c => forward n c.step

/-- The characters of a class from here on. -/
def run (p : Char → Bool) (c : Cursor) : List Char := c.rest.takeWhile p

/-- The cursor after all characters of a class. -/
def skip (p : Char → Bool) (c : Cursor) : Cursor := c.forward (c.run p).length

/-- The characters of a class from here on, and the cursor after them. -/
def take (p : Char → Bool) (c : Cursor) : List Char × Cursor := (c.run p, c.skip p)

/-- The cursor after spaces. -/
def skipSpaces (c : Cursor) : Cursor := c.skip (· == ' ')

/-- The cursor at the end of the line, if a comment stands here. -/
def skipComment (c : Cursor) : Cursor := if c.sees '#' then c.skip (!isBreak ·) else c

/-- A line end, as it counts in a scalar, and the cursor after it. -/
def lineBreak? (c : Cursor) : Option (Char × Cursor) :=
  match c.rest with
  | '\r' :: '\n' :: _ => some ('\n', c.forward 2)
  | x :: _ =>
    if isBreak x then
      some (if x == '\u2028' || x == '\u2029' then x else '\n', c.step)
    else none
  | [] => none

/-- A marker of three characters between documents stands here. -/
def seesMarker (mark : Char) (c : Cursor) : Bool :=
  c.rest.take 3 == [mark, mark, mark] && blankOrEnd (c.peek? 3)

/-- A marker between documents stands here. -/
def seesAnyMarker (c : Cursor) : Bool := c.seesMarker '-' || c.seesMarker '.'

end Cursor

end UberPackage.Yaml
