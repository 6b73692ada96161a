/-
  Writing the modules that tie the libraries together.

  Each of them goes to its place in the merged tree or beside it; the path is given back.
-/
import UberPackage.World
import UberPackage.Glue

namespace UberPackage.Emission

/-- The name of an entry point and of the index. -/
def indexName : Text := "index.ts"

/-- The name of the file of a library's bindings. -/
def bindingsName : Text := ".jsiirc.json"

/-- Writes the entry point of a library. -/
def entryPoint (root : Path) (l : Library) : Act Path := do
  let path := root / l.shortName / indexName
  Act.writeText path (Glue.entryPoint {} l)
  return path

/-- Writes the shim of a library, beside the merged tree. -/
def shim (root : Path) (l : Library) : Act Path := do
  let path := root.parent / (l.shortName ++ ".ts" : Text)
  Act.writeText path (Glue.shim {} root l)
  return path

/-- The file of bindings. -/
def bindingsFile (targets : Option Json) : Json :=
  match targets with
  | some v => .obj [("targets", v)]
  | none => .obj []

/-- Writes the bindings of a library. -/
def bindings (root : Path) (l : Library) (targets : Option Json) : Act Path := do
  let path := root / l.shortName / bindingsName
  Act.writeDocument path (bindingsFile targets)
  return path

/-- Writes the index of the merged tree. -/
def index (root : Path) (libraries : List Library) (rootLibrary : Text) : Act Path := do
  let path := root / indexName
  Act.writeText path (Glue.index {} rootLibrary libraries)
  return path

end UberPackage.Emission
