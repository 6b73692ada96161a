/-
  File paths, as text.

  * A `Path` has an anchor and parts; empty parts and `.` are not kept, `..` is.
  * `p / t` appends a text; an anchored text replaces the path.
  * `resolve` takes `..` out by the text alone, `relativeTo` gives the way from one path to
    another, both seen from a working directory.
-/
import UberPackage.Text

namespace UberPackage

/-- What a path begins with. -/
inductive Anchor where
  | none
  | slash
  /-- Exactly two slashes, which are kept apart from one. -/
  | twoSlashes
deriving DecidableEq, Inhabited, Repr

/-- A path. -/
structure Path where
  anchor : Anchor
  parts : List Text
deriving DecidableEq, Inhabited, Repr

namespace Path

/-- The anchor of a path text. -/
def anchorOf (t : Text) : Anchor :=
  match (t.takeWhile (·.isChar '/')).length with
  | 0 => .none
  | 2 => .twoSlashes
  | _ => .slash

/-- A part that a path keeps. -/
def isPart (t : Text) : Bool := t != [] && t != "."

/-- The parts of a path text. -/
def partsOf (t : Text) : List Text := (t.splitOn '/').filter isPart

/-- The path that a text spells. -/
def ofText (t : Text) : Path := ⟨anchorOf t, partsOf t⟩

/-- The text of an anchor. -/
def Anchor.text : Anchor → Text
  | .none => []
  | .slash => "/"
  | .twoSlashes => "//"

/-- The path as text. -/
def text (p : Path) : Text :=
  match p.anchor, p.parts with
  | .none, [] => "."
  | a, parts => Anchor.text a ++ Text.join "/" parts

/-- The path with a text appended. -/
def append (p : Path) (t : Text) : Path :=
  let q := ofText t
  match q.anchor with
  | .none => { p with parts := p.parts ++ q.parts }
  | _ => q

instance : HDiv Path Text Path := ⟨append⟩

/-- The last part. -/
def name (p : Path) : Text := p.parts.getLast?.getD []

/-- The path without its last part. -/
def parent (p : Path) : Path := { p with parts := p.parts.dropLast }

/-- The path is anchored. -/
def isAbsolute (p : Path) : Bool := p.anchor != .none

/-! ## Normal paths -/

/-- One more part after parts in reverse: `..` takes one away. -/
def push (stack : List Text) (part : Text) : List Text :=
  if part = ".." then stack.drop 1 else part :: stack

/-- Parts without `..`; above the top there is nothing. -/
def resolveParts (parts : List Text) : List Text := (parts.foldl push []).reverse

/-- The absolute path that a path means, seen from a directory. -/
def resolve (p cwd : Path) : Path :=
  let full := if p.isAbsolute then p else { cwd with parts := cwd.parts ++ p.parts }
  ⟨.slash, resolveParts full.parts⟩

/-- The lists without the parts that they begin with in common. -/
def dropCommon : List Text → List Text → List Text × List Text
  | x :: xs, y :: ys => if x = y then dropCommon xs ys else (x :: xs, y :: ys)
  | xs, ys => (xs, ys)

/-- The way from a directory to a path, both seen from a working directory, as text. -/
def relativeTo (target start cwd : Path) : Text :=
  let (up, down) := dropCommon (start.resolve cwd).parts (target.resolve cwd).parts
  match up.map (fun _ => (".." : Text)) ++ down with
  | [] => "."
  | parts => Text.join "/" parts

/-- What follows the parts of a directory, if the path begins with them. -/
def below? (p dir : Path) : Option Path :=
  if p.anchor = dir.anchor && dir.parts.isPrefixOf p.parts then
    some ⟨.none, p.parts.drop dir.parts.length⟩
  else none

end Path

end UberPackage
