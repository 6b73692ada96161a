/-
  The endings of module files.

  * `entryModule` is the module that a package's types are declared in: the file name without
    `.ts` or `.d.ts`, and without `/index` before it.
  * `sourceCounterpart?` is the source that a generated file was compiled from.

  Both look at a name up to a line feed at its very end, which they keep.
-/
import UberPackage.Text

namespace UberPackage.Suffix

/-- A text without a line feed at its end, and that line feed. -/
def splitLineFeed (t : Text) : Text × Text :=
  match Text.before? "\n" t with
  | some body => (body, "\n")
  | none => (t, [])

/-- What stands before the first of the endings that a text has. -/
def beforeFirst? (endings : List Text) (t : Text) : Option Text :=
  endings.findSome? fun ending => Text.before? ending t

/-- The endings of an entry point, an ending before all that it ends with. -/
def entryEndings : List Text := ["/index.d.ts", "/index.ts", ".d.ts", ".ts"]

/-- The endings of generated files. -/
def generatedEndings : List Text := [".d.ts", ".js"]

/-- The ending of source files. -/
def source : Text := ".ts"

/-- The module that a file of types declares. -/
def entryModule (types : Text) : Text :=
  let (body, lineFeed) := splitLineFeed types
  match beforeFirst? entryEndings body with
  | some module => module ++ lineFeed
  | none => types

/-- The source that a generated file was compiled from. -/
def sourceCounterpart? (name : Text) : Option Text :=
  let (body, lineFeed) := splitLineFeed name
  (beforeFirst? generatedEndings body).map fun start => start ++ source ++ lineFeed

/-- The name is that of a source file. -/
def isSource (name : Text) : Bool := source.isSuffixOf name

end UberPackage.Suffix
