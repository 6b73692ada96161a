/-
  Pointing the references of a source text at the merged tree.

  * An `Edit` replaces a range of bytes; `Edit.applyAll` works from the end of the text to
    its beginning, so that no edit moves another.
  * A `Redirection` is a reference to a participating library with its new specifier.
    It replaces the literal, and notes the old one behind the statement.
  * `Layout.redirect` redirects all of a text.  Damaged text is refused when parsing is strict;
    otherwise it is left as it is inside the damage.
-/
import UberPackage.Layout
import UberPackage.Journal
import UberPackage.TypeScript.Reference
import UberPackage.TypeScript.Tree

namespace UberPackage

/-- A replacement for the bytes from `start` to `stop`. -/
structure Edit where
  start : Nat
  stop : Nat
  replacement : Bytes
deriving DecidableEq, Inhabited, Repr

namespace Edit

/-- The edit does not stand before another. -/
def notBefore (a b : Edit) : Bool :=
  b.start < a.start || (a.start == b.start && b.stop ≤ a.stop)

/-- The text with the range replaced. -/
def apply (e : Edit) (source : Bytes) : Bytes :=
  source.take e.start ++ e.replacement ++ source.drop (max e.start e.stop)

/-- The text after all edits, the last range first. -/
def applyAll (edits : List Edit) (source : Bytes) : Bytes :=
  (edits.mergeSort notBefore).foldl (fun bytes e => e.apply bytes) source

end Edit

/-- What is wrong with a text to redirect. -/
inductive RedirectionFault where
  /-- The text is damaged. -/
  | damaged (file : Text)
  /-- A text is not characters alone. -/
  | unencodable
  /-- Bytes are not text. -/
  | undecodable
deriving DecidableEq, Inhabited, Repr

/-- A reference to a participating library and its new specifier. -/
structure Redirection where
  reference : TypeScript.Reference
  /-- The literal as it stands, in quotes. -/
  quoted : Text
  specifier : Text
  replacement : Text
deriving Inhabited

namespace Redirection

/-- A literal without its quotes. -/
def unquoted (literal : Text) : Text := (literal.drop 1).dropLast

/-- The redirection of a reference, if it needs one. -/
def ofReference? (layout : Layout) (directory : Path) (source : Bytes)
    (r : TypeScript.Reference) : Option (Except RedirectionFault Redirection) :=
  match Utf8.text? (r.literal.bytes source) with
  | none => some (.error .undecodable)
  | some quoted =>
    let specifier := unquoted quoted
    (layout.resolve? specifier directory).map fun replacement =>
      .ok ⟨r, quoted, specifier, replacement⟩

/-- Blank bytes. -/
def isBlank (b : UInt8) : Bool := b == 0x20 || (0x09 ≤ b && b ≤ 0x0D)

/-- The bytes from a position to the end of its line. -/
def restOfLine (source : Bytes) (position : Nat) : Bytes :=
  (source.drop position).takeWhile (· != 0x0A)

/-- What a note begins with. -/
def noteText : Text := "Automatically re-written from"

/-- The note on a literal: to the end of the line if nothing else stands there. -/
def note (quoted : Text) (source : Bytes) (position : Nat) : Text :=
  if (restOfLine source position).all isBlank then " // " ++ noteText ++ " " ++ quoted
  else " /* " ++ noteText ++ " " ++ quoted ++ " */"

/-- The new literal, in the quotes of the old one. -/
def literal (r : Redirection) : Text := r.quoted.take 1 ++ r.replacement ++ r.quoted.take 1

/-- The edits that make a redirection. -/
def edits (source : Bytes) (r : Redirection) : Except RedirectionFault (List Edit) := do
  let stop := r.reference.statement.stop
  match Utf8.encode? r.literal, Utf8.encode? (note r.quoted source stop) with
  | some new, some behind =>
    return [⟨r.reference.literal.start, r.reference.literal.stop, new⟩, ⟨stop, stop, behind⟩]
  | _, _ => .error .unencodable

/-- The name of the stage in the journal. -/
def stage : Text := "rewriter"

/-- The record of a redirection. -/
def record (file : Text) (r : Redirection) : Record :=
  .ofStage .debug stage (file ++ ": " ++ r.specifier ++ " -> " ++ r.replacement)

/-- The records of redirections up to the first fault, and the edits. -/
def collect (source : Bytes) (file : Text) :
    List (Except RedirectionFault Redirection) → List Record × Except RedirectionFault (List Edit)
  | [] => ([], .ok [])
  | .error e :: _ => ([], .error e)
  | .ok r :: rest =>
    match r.edits source with
    | .error e => ([r.record file], .error e)
    | .ok es =>
      let (records, result) := collect source file rest
      (r.record file :: records, result.map (es ++ ·))

end Redirection

namespace Layout

/-- The name of a text that comes from no file. -/
def noFile : Text := "<source>"

/-- A text redirected along a syntax tree of it, and the records of doing so. -/
def redirectTree (layout : Layout) (source : Bytes) (tree : TypeScript.Node) (directory : Path)
    (file : Text) : List Record × Except RedirectionFault Bytes :=
  let (records, edits) := Redirection.collect source file
    ((TypeScript.moduleReferences source tree).filterMap
      (Redirection.ofReference? layout directory source))
  (records, edits.map fun es => Edit.applyAll es source)

/-- The record of damage. -/
def damageRecord (file : Text) : Record :=
  .ofStage .warning Redirection.stage
    ("Syntax errors in " ++ file ++ "; imports inside them are left as-is")

/-- Characters redirected for a directory of the merged tree. -/
def redirectChars (layout : Layout) (strict : Bool) (cs : List Char) (directory : Path)
    (file : Text) : List Record × Except RedirectionFault Bytes :=
  let tree := TypeScript.parse cs
  if tree.hasError && strict then ([], .error (.damaged file))
  else
    let (records, result) := layout.redirectTree (Utf8.encode cs) tree directory file
    (if tree.hasError then damageRecord file :: records else records, result)

/-- A text redirected for a directory of the merged tree, and the records of doing so. -/
def redirect (layout : Layout) (strict : Bool) (source : Text) (directory : Path)
    (file : Text) : List Record × Except RedirectionFault Text :=
  match source.chars? with
  | none => ([], .error .unencodable)
  | some cs =>
    let (records, result) := layout.redirectChars strict cs directory file
    (records, do
      match Utf8.text? (← result) with
      | some t => return t
      | none => .error .undecodable)

end Layout

end UberPackage
