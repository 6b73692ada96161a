/-
  Texts with named gaps.

  A gap is a name between two pairs of braces, with blanks around it or not.  `Template.fill`
  puts values into the gaps; a gap without a value stays empty.
-/
import UberPackage.Text.Printable

namespace UberPackage

/-- A piece of a template. -/
inductive Template.Piece where
  | literal (t : Text)
  | gap (name : Text)
deriving DecidableEq, Inhabited, Repr

/-- A text with gaps. -/
abbrev Template := List Template.Piece

namespace Template

/-- The text before the first occurrence of a doubled character, and what follows it. -/
def cut? (c : Char) : Text → Option (Text × Text)
  | x :: y :: rest =>
    if x = .char c && y = .char c then some ([], rest)
    else (cut? c (y :: rest)).map fun (before, after) => (x :: before, after)
  | _ => none

/-- A unit of a name. -/
def isNameUnit (c : Code) : Bool :=
  match c with
  | .char c => c.isAlphanum || c == '_'
  | .half _ => false

/-- The name in a gap. -/
def gapName? (inner : Text) : Option Text :=
  let name := inner.strip Code.isBlank
  if name != [] && name.all isNameUnit then some name else none

/-- The pieces of a text; `n` bounds the number of gaps. -/
def piecesOf : Nat → Text → Template
  | 0, t => [.literal t]
  | n + 1, t =>
    match cut? '\x7b' t with
    | none => [.literal t]
    | some (before, rest) =>
      match cut? '\x7d' rest with
      | none => [.literal t]
      | some (inner, rest) =>
        match gapName? inner with
        | none => [.literal t]
        | some name => .literal before :: .gap name :: piecesOf n rest

/-- The template that a text spells. -/
def ofText (t : Text) : Template :=
  let t := t.plainLines
  piecesOf t.length t

/-- The template with values in its gaps. -/
def fill (values : List (Text × Text)) (t : Template) : Text :=
  t.flatMap fun
    | .literal t => t
    | .gap name => (values.lookup name).getD []

end Template

end UberPackage
