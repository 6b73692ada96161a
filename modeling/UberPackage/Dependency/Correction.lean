/-
  Corrections to the manifest of the uber-package and to the workspace.

  * `ManifestCorrections.apply` sets missing dependencies, adds bundled names and prunes
    names that no library bundles any more; lists and mappings that change are sorted.
  * `WorkspaceCorrections.apply` adds to the names that are not hoisted; a plain list of
    workspaces becomes their `packages`.
-/
import UberPackage.Json.Lenient

namespace UberPackage

/-- What the manifest of the uber-package lacks or has too much. -/
structure ManifestCorrections where
  devDependencies : Mapping := []
  bundledAdditions : List Json := []
  dependencies : Mapping := []
  pruned : List Json := []
deriving Inhabited

/-- Entries that the workspace lacks. -/
structure WorkspaceCorrections where
  nohoist : List Json := []
deriving Inhabited

namespace ManifestCorrections

/-- There is something to correct. -/
def changed (c : ManifestCorrections) : Bool :=
  !(c.devDependencies.isEmpty && c.bundledAdditions.isEmpty && c.dependencies.isEmpty &&
    c.pruned.isEmpty)

/-- Values in order; values without an order do not fit. -/
def sorted (vs : List Json) : Except Misfit (List Json) :=
  match Json.sort? vs with
  | some vs => .ok vs
  | none => .error .wrongKind

/-- A mapping with its keys in order. -/
def sortedMapping (m : Mapping) : Except Misfit Mapping :=
  match m.sort? with
  | some m => .ok m
  | none => .error .wrongKind

/-- The mapping that a field holds, with entries set in it, in order. -/
def merged (document : Mapping) (field : Text) (entries : Mapping) : Except Misfit Mapping := do
  let old ← Mapping.ofValue (Json.orElse (document.get? (.str field)) (.obj []))
  sortedMapping (old.update entries)

/-- The list with those of the additions that it lacks. -/
def extend (vs additions : List Json) : List Json :=
  additions.foldl (fun vs v => if v.isIn vs then vs else vs ++ [v]) vs

/-- The values that are not among those to prune. -/
def without (pruned vs : List Json) : Except Misfit (List Json) :=
  if vs.all Json.isKey then .ok (vs.filter fun v => !v.isIn pruned) else .error .wrongKind

/-- Sets missing development dependencies. -/
def applyDev (c : ManifestCorrections) (document : Mapping) : Except Misfit Mapping :=
  if c.devDependencies.isEmpty then .ok document
  else do
    let dev ← merged document "devDependencies" c.devDependencies
    return document.set (.str "devDependencies") dev.toObject

/-- Adds missing bundled names. -/
def applyBundled (c : ManifestCorrections) (document : Mapping) : Except Misfit Mapping :=
  if c.bundledAdditions.isEmpty then .ok document
  else do
    let old ← (Json.orElse (document.get? (.str "bundledDependencies")) (.arr [])).elements
    let names ← sorted (extend old c.bundledAdditions)
    return document.set (.str "bundledDependencies") (.arr names)

/-- A mapping without the names to prune. -/
def prune (c : ManifestCorrections) (m : Mapping) : Mapping :=
  c.pruned.foldl (fun m name => m.erase name) m

/-- Sets missing dependencies and prunes spurious ones. -/
def applyDependencies (c : ManifestCorrections) (document : Mapping) : Except Misfit Mapping :=
  if c.dependencies.isEmpty then
    match document.get? (.str "dependencies") with
    | some (.obj fs) =>
      if c.pruned.isEmpty then .ok document
      else
        .ok (document.set (.str "dependencies") (c.prune (Mapping.ofFields fs)).toObject)
    | _ => .ok document
  else do
    let deps ← merged document "dependencies" c.dependencies
    return document.set (.str "dependencies") (c.prune deps).toObject

/-- Prunes spurious bundled names. -/
def applyPruned (c : ManifestCorrections) (document : Mapping) : Except Misfit Mapping :=
  if c.pruned.isEmpty then .ok document
  else if !c.pruned.all Json.isKey then .error .wrongKind
  else
    match document.get? (.str "bundledDependencies") with
    | none => .ok document
    | some v => do
      let names ← without c.pruned (← v.elements)
      return document.set (.str "bundledDependencies") (.arr names)

/-- The corrected manifest. -/
def apply (c : ManifestCorrections) (document : Json) : Except Misfit Json := do
  let m ← Mapping.ofValue document
  let m ← c.applyDev m
  let m ← c.applyBundled m
  let m ← c.applyDependencies m
  let m ← c.applyPruned m
  return m.toObject

end ManifestCorrections

namespace WorkspaceCorrections

/-- There is something to correct. -/
def changed (c : WorkspaceCorrections) : Bool := !c.nohoist.isEmpty

/-- Values without repetition. -/
def distinct (vs : List Json) : Except Misfit (List Json) :=
  if vs.all Json.isKey then .ok (ManifestCorrections.extend [] vs) else .error .wrongKind

/-- The settings for workspaces; a list gives the packages alone. -/
def settings : Option Json → Fields
  | some (.arr packages) => [("packages", .arr packages)]
  | some (.obj fs) => fs
  | _ => []

/-- The corrected workspace. -/
def apply (c : WorkspaceCorrections) (document : Json) : Except Misfit Json := do
  let m ← Mapping.ofValue document
  if !c.changed then return m.toObject
  let fs := settings (m.get? (.str "workspaces"))
  let old ← (Json.orElse (fs.get? "nohoist") (.arr [])).elements
  let entries ← ManifestCorrections.sorted (← distinct (old ++ c.nohoist))
  return (m.set (.str "workspaces") (.obj (fs.set "nohoist" (.arr entries)))).toObject

end WorkspaceCorrections

end UberPackage
