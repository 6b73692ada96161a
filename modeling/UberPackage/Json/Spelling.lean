/-
  Documents in running text.

  * `spell` is a value as it stands in a message or a name: a string is itself, all else
    is inspected.
  * `inspect` shows strings in quotes: single ones, unless the text holds a single quote
    and no double quote.
-/
import UberPackage.Json
import UberPackage.Number.Decimal
import UberPackage.Text.Printable

namespace UberPackage

namespace Text

/-- The lowest hexadecimal digits of a number. -/
def hex : Nat → Nat → Text
  | 0, _ => []
  | n + 1, v =>
    let d := v % 16
    hex n (v / 16) ++ [.char (Char.ofNat (if d < 10 then 48 + d else 87 + d))]

/-- One unit inside quotes. -/
def inspectUnit (mark : Char) (c : Code) : Text :=
  if c = .char mark then "\\" ++ [c]
  else if c = .char '\\' then "\\\\"
  else if c = .char '\n' then "\\n"
  else if c = .char '\r' then "\\r"
  else if c = .char '\t' then "\\t"
  else if c.isPrintable then [c]
  else if c.point < 0x100 then "\\x" ++ hex 2 c.point
  else if c.point < 0x10000 then "\\u" ++ hex 4 c.point
  else "\\U" ++ hex 8 c.point

/-- The text in quotes. -/
def inspect (t : Text) : Text :=
  let mark := if t.any (·.isChar '\'') && !t.any (·.isChar '"') then '"' else '\''
  .char mark :: t.flatMap (inspectUnit mark) ++ [.char mark]

end Text

namespace Json

/-- A number that is not an integer. -/
def floatName (x : Binary64) : Text := x.textWith "nan" "inf"

mutual
/-- A value with its strings in quotes. -/
def inspect : Json → Text
  | null => "None"
  | bool true => "True"
  | bool false => "False"
  | int i => Text.ofInt i
  | float x => floatName x
  | str t => t.inspect
  | arr [] => "[]"
  | arr (v :: vs) => "[" ++ inspect v ++ inspectItems vs ++ "]"
  | obj [] => "\x7b\x7d"
  | obj ((k, v) :: fs) =>
    "\x7b" ++ k.inspect ++ ": " ++ inspect v ++ inspectFields fs ++ "\x7d"
/-- Further items. -/
def inspectItems : List Json → Text
  | [] => []
  | v :: vs => ", " ++ inspect v ++ inspectItems vs
/-- Further fields. -/
def inspectFields : List (Text × Json) → Text
  | [] => []
  | (k, v) :: fs => ", " ++ k.inspect ++ ": " ++ inspect v ++ inspectFields fs
end

/-- A value in running text. -/
def spell : Json → Text
  | str t => t
  | v => inspect v

end Json

end UberPackage
