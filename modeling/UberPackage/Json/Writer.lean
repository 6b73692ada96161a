/-
  Writing JSON.

  `Json.write` lays a document out over lines with an indent of two spaces; only quotes,
  backslashes and control characters are escaped.
-/
import UberPackage.Json
import UberPackage.Number.Decimal

namespace UberPackage.Json

def hexDigit (n : Nat) : Code :=
  .char (Char.ofNat (if n < 10 then 48 + n else 87 + n))

/-- One unit of a string as written. -/
def escapeUnit (c : Code) : Text :=
  match c with
  | .char '"' => "\\\""
  | .char '\\' => "\\\\"
  | .char '\n' => "\\n"
  | .char '\r' => "\\r"
  | .char '\t' => "\\t"
  | .char '\x0c' => "\\f"
  | .char '\x08' => "\\b"
  | _ =>
    if c.point < 0x20 then "\\u00" ++ [hexDigit (c.point / 16), hexDigit (c.point % 16)] else [c]

/-- A string in quotes. -/
def quote (t : Text) : Text := "\"" ++ t.flatMap escapeUnit ++ "\""

/-- A number that is not an integer. -/
def floatText (x : Binary64) : Text := x.textWith "NaN" "Infinity"

/-- A new line, indented. -/
def newLine (depth : Nat) : Text := .char '\n' :: List.replicate (2 * depth) (.char ' ')

mutual
/-- A document whose first line is indented already. -/
def writeAt (depth : Nat) : Json → Text
  | null => "null"
  | bool true => "true"
  | bool false => "false"
  | int i => Text.ofInt i
  | float x => floatText x
  | str t => quote t
  | arr [] => "[]"
  | arr (v :: vs) =>
    "[" ++ newLine (depth + 1) ++ writeAt (depth + 1) v ++ writeItems (depth + 1) vs ++
      newLine depth ++ "]"
  | obj [] => "\x7b\x7d"
  | obj ((k, v) :: fs) =>
    "\x7b" ++ newLine (depth + 1) ++ quote k ++ ": " ++ writeAt (depth + 1) v ++
      writeFields (depth + 1) fs ++ newLine depth ++ "\x7d"
/-- Further items, each after a comma. -/
def writeItems (depth : Nat) : List Json → Text
  | [] => []
  | v :: vs => "," ++ newLine depth ++ writeAt depth v ++ writeItems depth vs
/-- Further fields, each after a comma. -/
def writeFields (depth : Nat) : List (Text × Json) → Text
  | [] => []
  | (k, v) :: fs =>
    "," ++ newLine depth ++ quote k ++ ": " ++ writeAt depth v ++ writeFields depth fs
end

/-- The document as the text of a file. -/
def write (v : Json) : Text := writeAt 0 v ++ "\n"

end UberPackage.Json
