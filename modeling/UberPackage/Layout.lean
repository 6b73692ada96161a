/-
  Where the libraries lie in the merged tree.

  * A `Layout` places each library in a directory of its short name below one root.
  * `Layout.resolve?` turns the specifier of a library's module into the relative specifier
    of its place, seen from a directory of the merged tree.
-/
import UberPackage.Manifest

namespace UberPackage

/-- The libraries of the merged tree and its root. -/
structure Layout where
  libraries : List Library
  root : Path
  /-- The working directory, from which a relative root or directory is seen. -/
  cwd : Path := ⟨.slash, []⟩
deriving Inhabited

namespace Layout

/-- The first library that provides a specifier. -/
def provider? (layout : Layout) (specifier : Text) : Option Library :=
  layout.libraries.find? fun l => l.provides specifier

/-- The directory of a library. -/
def directory (layout : Layout) (l : Library) : Path := layout.root / l.shortName

/-- The module that a specifier of a library names: its index, or the module below it. -/
def place (layout : Layout) (l : Library) (specifier : Text) : Path :=
  if specifier = l.name then layout.directory l / ("index" : Text)
  else layout.directory l / (specifier.drop (l.name.length + 1) : Text)

/-- A relative path as a module specifier, which begins with a dot. -/
def dotted (relative : Text) : Text :=
  if relative.head? = some (.char '.') then relative else "./" ++ relative

/-- The specifier that names the same module from a directory of the merged tree. -/
def resolve? (layout : Layout) (specifier : Text) (directory : Path) : Option Text :=
  (layout.provider? specifier).map fun l =>
    dotted ((layout.place l specifier).relativeTo directory layout.cwd)

end Layout

end UberPackage
