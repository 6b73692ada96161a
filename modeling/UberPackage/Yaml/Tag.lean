/-
  What the nodes of a YAML text are.

  A node says so itself by a URI (`Tag.ofUri`); a plain scalar that does not is what it looks
  like (`Tag.ofPlain`): a truth value, a number, nothing, a date, or else a string.
-/
import UberPackage.Yaml.Moment

namespace UberPackage.Yaml

/-- What a node is. -/
inductive Tag where
  | null | bool | int | float | binary | moment | str
  | list | mapping | set | orderedMapping | pairs
  /-- The key whose value is merged into the mapping around it. -/
  | merge
  /-- The key of the value that a mapping stands for. -/
  | default
  | unknown
deriving DecidableEq, Inhabited, Repr

namespace Tag

/-- What the URIs of the common tags begin with. -/
def common : Text := "tag:yaml.org,2002:"

/-- The common tags. -/
def names : List (Text × Tag) :=
  [("null", .null), ("bool", .bool), ("int", .int), ("float", .float), ("binary", .binary),
    ("timestamp", .moment), ("str", .str), ("seq", .list), ("map", .mapping), ("set", .set),
    ("omap", .orderedMapping), ("pairs", .pairs), ("merge", .merge), ("value", .default)]

/-- The tag with a URI. -/
def ofUri (uri : Text) : Tag :=
  match Text.after? common uri with
  | some name => (names.lookup name).getD .unknown
  | none => .unknown

/-! ## What a plain scalar looks like -/

/-- The words for true and false. -/
def isBoolWord (cs : List Char) : Bool :=
  ["yes", "Yes", "YES", "no", "No", "NO", "true", "True", "TRUE", "false", "False", "FALSE",
    "on", "On", "ON", "off", "Off", "OFF"].contains (String.ofList cs)

/-- The words for nothing. -/
def isNullWord (cs : List Char) : Bool :=
  ["", "~", "null", "Null", "NULL"].contains (String.ofList cs)

/-- A number without its sign. -/
def unsigned : List Char → List Char
  | '+' :: cs | '-' :: cs => cs
  | cs => cs

def isDigitOrGap (c : Char) : Bool := c.isDigit || c == '_'

/-- A digit, then digits and gaps. -/
def isDigits : List Char → Bool
  | c :: cs => c.isDigit && cs.all isDigitOrGap
  | [] => false

/-- A part of a number to the base of sixty. -/
def isSixtieth : List Char → Bool
  | [d] => d.isDigit
  | [t, d] => '0' ≤ t && t ≤ '5' && d.isDigit
  | _ => false

/-- Nothing, or a mark with a signed number. -/
def isExponent : List Char → Bool
  | [] => true
  | e :: sign :: cs =>
    (e == 'e' || e == 'E') && (sign == '+' || sign == '-') && !cs.isEmpty && cs.all Char.isDigit
  | _ => false

/-- The pieces between colons. -/
def colonPieces (cs : List Char) : List (List Char) :=
  cs.foldr (fun c ps =>
    match ps with
    | [] => [[c]]
    | p :: rest => if c == ':' then [] :: p :: rest else (c :: p) :: rest) [[]]

/-- A number to the base of sixty, of two pieces or more. -/
def isSexagesimal (cs : List Char) : Bool :=
  match colonPieces cs with
  | first :: p :: rest => isDigits first && (p :: rest).all isSixtieth
  | _ => false

/-- An integer. -/
def isInt (cs : List Char) : Bool :=
  match unsigned cs with
  | ['0'] => true
  | '0' :: 'b' :: ds => !ds.isEmpty && ds.all fun c => c == '0' || c == '1' || c == '_'
  | '0' :: 'x' :: ds => !ds.isEmpty && ds.all fun c =>
      c.isDigit || ('a' ≤ c && c ≤ 'f') || ('A' ≤ c && c ≤ 'F') || c == '_'
  | '0' :: ds => !ds.isEmpty && ds.all fun c => ('0' ≤ c && c ≤ '7') || c == '_'
  | ds => isDigits ds || isSexagesimal ds

/-- A number with a point. -/
def isFloat (cs : List Char) : Bool :=
  let plain := unsigned cs
  let whole := plain.takeWhile (· != '.')
  let behind := (plain.dropWhile (· != '.')).drop 1
  let fraction := behind.takeWhile isDigitOrGap
  let exponent := behind.drop fraction.length
  let pointed := plain.contains '.'
  (pointed && isDigits whole && isExponent exponent) ||
  (cs.head? == some '.' && isDigits fraction && isExponent exponent) ||
  (pointed && exponent.isEmpty && isSexagesimal whole) ||
  [".inf", ".Inf", ".INF"].contains (String.ofList plain) ||
  [".nan", ".NaN", ".NAN"].contains (String.ofList cs)

/-- A date with two digits for month and day, or a date with a time. -/
def isMoment (cs : List Char) : Bool :=
  (Moment.parse? cs).any fun m => m.padded || m.clock.isSome

/-- What a plain scalar looks like. -/
def ofPlain (t : Text) : Tag :=
  match t.chars? with
  | none => .str
  | some cs =>
    if isBoolWord cs then .bool
    else if isFloat cs then .float
    else if isInt cs then .int
    else if cs = "<<".toList then .merge
    else if isNullWord cs then .null
    else if isMoment cs then .moment
    else if cs = "=".toList then .default
    else .str

end Tag

end UberPackage.Yaml
