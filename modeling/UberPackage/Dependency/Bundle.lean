/-
  The packages that the uber-package has to carry inside.

  * Each library lists names to bundle; the range it requires for a name is that of its
    development dependencies, or else of its dependencies, or else any (`Bundle.requirement`).
  * `Bundle.collect` joins the requirements of all libraries and fails when two of them
    differ for one name.
-/
import UberPackage.Manifest

namespace UberPackage

/-- What is wrong with dependencies. -/
inductive DependencyFault where
  /-- Two libraries bundle a package at different ranges. -/
  | conflict (name existing requested : Json)
  | misfit (m : Misfit)
deriving Inhabited

/-- Names to bundle and their ranges, in the order in which the names are first met. -/
abbrev Bundle := Mapping

namespace Bundle

/-- The range of a name that nothing else says. -/
def anyRange : Json := .str "*"

/-- The range that development dependencies and dependencies require for a name. -/
def requirement (dev runtime : Mapping) (name : Json) : Json :=
  match dev.get? name with
  | none | some .null => (runtime.get? name).getD anyRange
  | some range => range

/-- The bundle with one more requirement. -/
def add (b : Bundle) (name range : Json) : Except DependencyFault Bundle :=
  if !name.isKey then .error (.misfit .wrongKind)
  else
    match b.get? name with
    | none | some .null => .ok (b.set name range)
    | some existing =>
      if existing.same range then .ok (b.set name range)
      else .error (.conflict name existing range)

/-- A value, or the misfit as a fault. -/
def fitting {α : Type} : Except Misfit α → Except DependencyFault α
  | .ok a => .ok a
  | .error m => .error (.misfit m)

/-- The bundle with the requirements of one library. -/
def addLibrary (b : Bundle) (l : Library) : Except DependencyFault Bundle := do
  let dev ← fitting l.manifest.devDependencies
  let runtime ← fitting l.manifest.dependencies
  let names ← fitting l.manifest.bundled
  names.foldlM (fun b name => b.add name (requirement dev runtime name)) b

/-- The requirements of all libraries. -/
def collect (libraries : List Library) : Except DependencyFault Bundle :=
  libraries.foldlM addLibrary []

end Bundle

end UberPackage
