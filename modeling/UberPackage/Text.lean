/-
  Text as documents spell it.

  A document can name any code point, also one half of a surrogate pair without the
  other.  Such text travels through names, messages and documents like any other and
  fails only where it has to become bytes (`UberPackage.Text.Utf8`).

  * `Code` is one unit of text, `Text` a list of units; string literals are coerced.
  * `Text.le` is the order by code point.
-/
namespace UberPackage

/-- One unit of text: a character, or half of a surrogate pair that has no partner. -/
inductive Code where
  | char (c : Char)
  | half (h : Fin 2048)
deriving DecidableEq, Inhabited, Repr

/-- Text, unpaired surrogate halves included. -/
abbrev Text := List Code

namespace Code

/-- The code point. -/
def point : Code → Nat
  | char c => c.toNat
  | half h => 0xD800 + h.val

/-- The unit with this code point; numbers beyond the last code point give the replacement
character. -/
def ofPoint (n : Nat) : Code :=
  if h : 0xD800 ≤ n ∧ n < 0xE000 then half ⟨n - 0xD800, by omega⟩
  else if n < 0x110000 then char (Char.ofNat n)
  else char '\uFFFD'

/-- The character, unless it is half of a pair. -/
def char? : Code → Option Char
  | char c => some c
  | half _ => none

/-- The unit is this character. -/
def isChar (c : Char) (x : Code) : Bool := x == char c

end Code

namespace Text

/-- The text of a string. -/
def ofString (s : String) : Text := s.toList.map Code.char

instance : Coe String Text := ⟨ofString⟩

/-- The text of a list of characters. -/
def ofChars (cs : List Char) : Text := cs.map Code.char

/-- The characters, if no half of a pair stands alone. -/
def chars? (t : Text) : Option (List Char) := t.mapM Code.char?

theorem chars?_ofChars (cs : List Char) : chars? (ofChars cs) = some cs := by
  induction cs with
  | nil => rfl
  | cons c cs ih =>
    simp only [chars?, ofChars] at ih
    simp [chars?, ofChars, Code.char?, ih]

/-- For display: halves of pairs become replacement characters. -/
def display (t : Text) : String :=
  String.ofList (t.map fun | .char c => c | .half _ => '\uFFFD')

/-- A natural number in decimal. -/
def ofNat (n : Nat) : Text := ofString (Nat.repr n)

/-- An integer in decimal. -/
def ofInt (i : Int) : Text :=
  match i with
  | .ofNat n => ofNat n
  | .negSucc n => "-" ++ ofNat (n + 1)

/-- What follows `start`, when the text begins with it. -/
def after? (start : Text) (t : Text) : Option Text :=
  if start.isPrefixOf t then some (t.drop start.length) else none

/-- The pieces between the occurrences of a character. -/
def splitOn (c : Char) (t : Text) : List Text :=
  t.foldr (fun x pieces =>
    match pieces with
    | [] => [[x]]
    | piece :: rest => if x = .char c then [] :: piece :: rest else (x :: piece) :: rest) [[]]

/-- The texts with a separator between them. -/
def join (separator : Text) (ts : List Text) : Text := List.intercalate separator ts

/-- The order by code point. -/
def le : Text → Text → Bool
  | [], _ => true
  | _ :: _, [] => false
  | x :: xs, y :: ys => x.point < y.point || (x == y && le xs ys)

/-- Strictly before, by code point. -/
def lt (s t : Text) : Bool := le s t && s != t

/-- Texts sorted by code point. -/
def sort (ts : List Text) : List Text := ts.mergeSort le

/-- The text without leading and trailing units of a class. -/
def strip (blank : Code → Bool) (t : Text) : Text :=
  ((t.dropWhile blank).reverse.dropWhile blank).reverse

/-- The text with a line feed for each line end, whichever of `\r\n`, `\r` and `\n` it is. -/
def plainLines : Text → Text
  | [] => []
  | .char '\r' :: .char '\n' :: rest => .char '\n' :: plainLines rest
  | .char '\r' :: rest => .char '\n' :: plainLines rest
  | x :: rest => x :: plainLines rest

/-- What stands before the end of a text, if the text ends with it. -/
def before? (ending t : Text) : Option Text :=
  if ending.isSuffixOf t then some (t.take (t.length - ending.length)) else none

/-- The piece stands somewhere in a text. -/
def occursIn (piece : Text) : Text → Bool
  | [] => piece.isEmpty
  | x :: xs => piece.isPrefixOf (x :: xs) || occursIn piece xs

end Text

end UberPackage
