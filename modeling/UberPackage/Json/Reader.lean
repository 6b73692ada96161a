/-
  Reading JSON.

  Besides the standard's values the words `NaN`, `Infinity` and `-Infinity` are numbers,
  an unpaired surrogate escape stands for itself, and a repeated field is set again.
  Integers are limited in length.

  * `Json.read` reads a whole text; a fault carries its place.
  * `Fault.message` words a fault with its line, column and index.
-/
import UberPackage.Json

namespace UberPackage.Json

/-! ## Faults -/

/-- What is wrong with a text. -/
inductive Problem where
  | value
  | propertyName
  | colon
  | comma
  | extraData
  | openString
  | controlCharacter
  | escape
  | unicodeEscape
  | byteOrderMark
  /-- An integer has too many digits. -/
  | longInteger
deriving DecidableEq, Inhabited, Repr

/-- The wording of a problem. -/
def Problem.message : Problem → Text
  | value => "Expecting value"
  | propertyName => "Expecting property name enclosed in double quotes"
  | colon => "Expecting ':' delimiter"
  | comma => "Expecting ',' delimiter"
  | extraData => "Extra data"
  | openString => "Unterminated string starting at"
  | controlCharacter => "Invalid control character at"
  | escape => "Invalid \\escape"
  | unicodeEscape => "Invalid \\uXXXX escape"
  | byteOrderMark => "Unexpected UTF-8 BOM (decode using utf-8-sig)"
  | longInteger => "Exceeds the limit for integer string conversion"

/-- A problem and the number of units from its place to the end of the text. -/
structure Misread where
  problem : Problem
  left : Nat
deriving DecidableEq, Inhabited, Repr

/-- A problem and its place. -/
structure Fault where
  problem : Problem
  /-- Lines and columns are counted from one. -/
  line : Nat
  column : Nat
  index : Nat
deriving DecidableEq, Inhabited, Repr

/-- A fault in words. -/
def Fault.message (f : Fault) : Text :=
  f.problem.message ++ ": line " ++ Text.ofNat f.line ++ " column " ++ Text.ofNat f.column ++
    " (char " ++ Text.ofNat f.index ++ ")"

/-- The place of an index in a text. -/
def faultAt (problem : Problem) (t : Text) (index : Nat) : Fault :=
  let before := t.take index
  let lastLine := before.reverse.takeWhile (· != .char '\n')
  { problem, index
    line := before.count (.char '\n') + 1
    column := lastLine.length + 1 }

/-! ## Strings -/

/-- Reports a problem where only `rest` is left. -/
def misread {α : Type} (problem : Problem) (rest : Text) : Except Misread α :=
  .error ⟨problem, rest.length⟩

def hexValue? : Code → Option Nat
  | .char c =>
    if '0' ≤ c && c ≤ '9' then some (c.toNat - '0'.toNat)
    else if 'a' ≤ c && c ≤ 'f' then some (c.toNat - 'a'.toNat + 10)
    else if 'A' ≤ c && c ≤ 'F' then some (c.toNat - 'A'.toNat + 10)
    else none
  | .half _ => none

/-- Four hexadecimal digits. -/
def hex4? : Text → Option (Nat × Text)
  | a :: b :: c :: d :: rest => do
    let a ← hexValue? a
    let b ← hexValue? b
    let c ← hexValue? c
    let d ← hexValue? d
    some (((a * 16 + b) * 16 + c) * 16 + d, rest)
  | _ => none

/-- The character that a pair of surrogate halves stands for. -/
def joinPair (high low : Nat) : Code :=
  .ofPoint (0x10000 + (high - 0xD800) * 0x400 + (low - 0xDC00))

/-- The single-character escapes. -/
def simpleEscape? : Char → Option Char
  | '"' => some '"'
  | '\\' => some '\\'
  | '/' => some '/'
  | 'b' => some '\x08'
  | 'f' => some '\x0c'
  | 'n' => some '\n'
  | 'r' => some '\r'
  | 't' => some '\t'
  | _ => none

/-- What follows `\u`: the unit it stands for.  `rest` begins at the `u`.  The second half of a
pair is read with the first. -/
def unicodeEscape (rest : Text) : Except Misread (Code × Text) :=
  let digits := rest.drop 1
  -- the closing quote has to follow the digits
  if digits.length ≤ 4 then misread .unicodeEscape rest
  else
    match hex4? digits with
    | none => misread .unicodeEscape rest
    | some (high, after) =>
      if 0xD800 ≤ high && high ≤ 0xDBFF && after.length > 6 then
        match after with
        | .char '\\' :: .char 'u' :: digits' =>
          match hex4? digits' with
          | none => misread .unicodeEscape (after.drop 1)
          | some (low, after') =>
            if 0xDC00 ≤ low && low ≤ 0xDFFF then .ok (joinPair high low, after')
            else .ok (.ofPoint high, after)
        | _ => .ok (.ofPoint high, after)
      else .ok (.ofPoint high, after)

/-- The rest of a string after its opening quote; `opening` is the text from the quote on. -/
def readString (opening : Text) : Nat → Text → List Code → Except Misread (Text × Text)
  | 0, _, _ => misread .openString opening
  | _ + 1, [], _ => misread .openString opening
  | n + 1, c :: rest, read =>
    if c = .char '"' then .ok (read.reverse, rest)
    else if c = .char '\\' then
      match rest with
      | [] => misread .openString opening
      | .char 'u' :: _ => do
        let (unit, rest') ← unicodeEscape rest
        readString opening n rest' (unit :: read)
      | e :: rest' =>
        match e.char?.bind simpleEscape? with
        | some x => readString opening n rest' (.char x :: read)
        | none => misread .escape (c :: rest)
    else if c.point < 0x20 then misread .controlCharacter (c :: rest)
    else readString opening n rest (c :: read)

/-! ## Numbers -/

def isDigit : Code → Bool
  | .char c => c.isDigit
  | .half _ => false

/-- The value of decimal digits. -/
def digitsValue (ds : Text) : Nat :=
  ds.foldl (fun n d => 10 * n + (d.point - 48)) 0

/-- The most digits of an integer. -/
def integerDigits : Nat := 4300

/-- Whether a minus sign comes first, and what follows it. -/
def takeSign (t : Text) : Bool × Text :=
  match t with
  | .char '-' :: rest => (true, rest)
  | _ => (false, t)

/-- The digits before the point; a zero in front stands alone. -/
def wholeDigits (t : Text) : Text :=
  match t with
  | .char '0' :: _ => [.char '0']
  | _ => t.takeWhile isDigit

/-- The digits after a point. -/
def fractionDigits (t : Text) : Text :=
  match t with
  | .char '.' :: rest => rest.takeWhile isDigit
  | _ => []

/-- Whether an exponent is negative, and what follows its sign. -/
def takeExponentSign (t : Text) : Bool × Text :=
  match t with
  | .char '-' :: rest => (true, rest)
  | .char '+' :: rest => (false, rest)
  | _ => (false, t)

/-- An exponent and what follows it. -/
def exponent? (t : Text) : Option (Int × Text) :=
  match t with
  | .char e :: rest =>
    if e = 'e' || e = 'E' then
      let (down, unsigned) := takeExponentSign rest
      let digits := unsigned.takeWhile isDigit
      if digits.isEmpty then none
      else
        let v : Int := digitsValue digits
        some (if down then -v else v, unsigned.drop digits.length)
    else none
  | _ => none

/-- A sign, digits, and perhaps a fraction and an exponent. -/
def readNumber? (t : Text) : Option (Except Misread (Json × Text)) :=
  let (negative, unsigned) := takeSign t
  let whole := wholeDigits unsigned
  if whole.isEmpty then none
  else
    let rest := unsigned.drop whole.length
    let fraction := fractionDigits rest
    let rest := if fraction.isEmpty then rest else rest.drop (fraction.length + 1)
    let exponent := exponent? rest
    some <|
      if fraction.isEmpty && exponent.isNone then
        if whole.length > integerDigits then misread .longInteger t
        else
          let v : Int := digitsValue whole
          .ok (.int (if negative then -v else v), rest)
      else
        let (e, rest) := exponent.getD (0, rest)
        .ok (.float (.ofDecimal negative (digitsValue (whole ++ fraction)) (e - fraction.length)),
          rest)

/-! ## Values -/

def isSpace (c : Code) : Bool :=
  c = .char ' ' || c = .char '\t' || c = .char '\n' || c = .char '\r'

def skipSpace (t : Text) : Text := t.dropWhile isSpace

/-- The words that are values. -/
def literals : List (Text × Json) :=
  [("null", .null), ("true", .bool true), ("false", .bool false), ("NaN", .float .nan),
   ("Infinity", .float (.infinity false)), ("-Infinity", .float (.infinity true))]

/-- A word or a number. -/
def readScalar (t : Text) : Except Misread (Json × Text) :=
  match literals.find? fun (w, _) => w.isPrefixOf t with
  | some (w, v) => .ok (v, t.drop w.length)
  | none =>
    match readNumber? t with
    | some r => r
    | none => misread .value t

/-- What a reader is in the midst of. -/
inductive Task where
  | value
  /-- The items of an array, after an opening bracket or a comma, in reverse. -/
  | items (read : List Json)
  /-- The fields of an object, after an opening brace or a comma. -/
  | fields (read : Fields)

/-- Reads the value that a task asks for. -/
def readTask : Nat → Task → Text → Except Misread (Json × Text)
  | 0, _, t => misread .value t
  | n + 1, .value, t =>
    match t with
    | .char '"' :: rest => do
      let (s, rest) ← readString t (rest.length + 1) rest []
      return (.str s, rest)
    | .char '\x7b' :: rest =>
      match skipSpace rest with
      | .char '\x7d' :: rest => .ok (.obj [], rest)
      | rest => readTask n (.fields []) rest
    | .char '[' :: rest =>
      match skipSpace rest with
      | .char ']' :: rest => .ok (.arr [], rest)
      | rest => readTask n (.items []) rest
    | _ => readScalar t
  | n + 1, .items read, t => do
    let (v, rest) ← readTask n .value t
    match skipSpace rest with
    | .char ']' :: rest => return (.arr (v :: read).reverse, rest)
    | .char ',' :: rest => readTask n (.items (v :: read)) (skipSpace rest)
    | rest => misread .comma rest
  | n + 1, .fields read, t =>
    match t with
    | .char '"' :: rest => do
      let (key, rest) ← readString t (rest.length + 1) rest []
      match skipSpace rest with
      | .char ':' :: rest =>
        let (v, rest) ← readTask n .value (skipSpace rest)
        let read := read.set key v
        match skipSpace rest with
        | .char '\x7d' :: rest => return (.obj read, rest)
        | .char ',' :: rest => readTask n (.fields read) (skipSpace rest)
        | rest => misread .comma rest
      | rest => misread .colon rest
    | rest => misread .propertyName rest

/-- A value alone in a text. -/
def readWhole (t : Text) : Except Misread Json := do
  if t.head? = some (.char '\uFEFF') then misread .byteOrderMark t
  let (v, rest) ← readTask (2 * t.length + 2) .value (skipSpace t)
  match skipSpace rest with
  | [] => return v
  | rest => misread .extraData rest

/-- The document that a text holds. -/
def read (t : Text) : Except Fault Json :=
  match readWhole t with
  | .ok v => .ok v
  | .error m => .error (faultAt m.problem t (t.length - m.left))

end UberPackage.Json
