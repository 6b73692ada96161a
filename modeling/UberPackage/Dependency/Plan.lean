/-
  What has to change before the uber-package agrees with its libraries.

  * A `Check` compares one requirement with the manifest or the workspace; it gives a
    `Finding`, nothing, or a misfit.  `Survey.run` goes through checks up to the first
    misfit.
  * A `Plan` holds the bundle and the corrections, which follow from the findings alone;
    so do the records in the journal.
-/
import UberPackage.Dependency.Bundle
import UberPackage.Dependency.Correction
import UberPackage.Journal

namespace UberPackage

/-- A difference between what is required and what the documents say. -/
inductive Finding where
  /-- A library is no development dependency. -/
  | missing (name version : Text)
  /-- A library is a development dependency at another version. -/
  | wrongVersion (name version : Text) (found : Json)
  /-- An entry that must not be hoisted. -/
  | hoisted (entry : Text)
  /-- A required name is not bundled. -/
  | unbundled (name range : Json)
  /-- A bundled name is no dependency at its range. -/
  | wrongRange (name range : Json)
  /-- A bundled name is not required. -/
  | spurious (name : Json)
deriving Inhabited

/-- The finding in words. -/
def Finding.message : Finding → Text
  | missing name _ => "Missing dependency: " ++ name
  | wrongVersion name version found =>
    "Incorrect dependency: " ++ name ++ " (expected " ++ version ++ ", found " ++ found.spell ++ ")"
  | hoisted entry => "Missing yarn workspace nohoist: " ++ entry
  | unbundled name range => "Missing bundled dependency: " ++ name.spell ++ " at " ++ range.spell
  | wrongRange name range =>
    "Missing or incorrect dependency: " ++ name.spell ++ " at " ++ range.spell
  | spurious name => "Spurious bundled dependency: " ++ name.spell

/-! ## Surveys -/

/-- The outcome of one comparison. -/
abbrev Check := Except Misfit (Option Finding)

/-- The findings of checks up to the first misfit. -/
structure Survey where
  found : List Finding
  fault : Option Misfit
deriving Inhabited

namespace Survey

/-- Goes through checks. -/
def run : List Check → Survey
  | [] => ⟨[], none⟩
  | .error m :: _ => ⟨[], some m⟩
  | .ok none :: rest => run rest
  | .ok (some f) :: rest => let s := run rest; { s with found := f :: s.found }

/-- The check that a value can be read. -/
def readable {α : Type} (v : Except Misfit α) : Check := v.map fun _ => none

/-- A value that another check has found readable. -/
def valueOf {α : Type} (v : Except Misfit (List α)) : List α := v.toOption.getD []

end Survey

namespace Finding

/-- Whether a library's version stands among the development dependencies. -/
def checkVersion (dev : Json) (l : Library) : Check :=
  let missing : Option Finding := some (.missing l.name l.manifest.version)
  match dev with
  | .obj fs =>
    match Fields.get? l.name fs with
    | none => .ok missing
    | some found =>
      if found.same (.str l.manifest.version) then .ok none
      else .ok (some (.wrongVersion l.name l.manifest.version found))
  | .arr vs => if Json.isIn (.str l.name) vs then .error .wrongKind else .ok missing
  | .str t => if l.name.occursIn t then .error .wrongKind else .ok missing
  | _ => .error .wrongKind

/-- The entries of a workspace that are not hoisted. -/
def nohoist (workspace : Json) : Except Misfit (List Json) := do
  match (← workspace.fields).get? "workspaces" with
  | some (.obj fs) =>
    let vs ← (Json.orElse (Fields.get? "nohoist" fs) (.arr [])).elements
    if vs.all Json.isKey then return vs else .error .wrongKind
  | _ => return []

/-- The names that the uber-package bundles. -/
def bundledNames (uber : Fields) : Except Misfit (List Json) :=
  (Json.orElse (uber.get? "bundledDependencies") (.arr [])).elements

/-- The entry that keeps a bundled name of the uber-package from being hoisted. -/
def nohoistEntry (uberName : Text) (name : Json) : Text := uberName ++ "/" ++ name.spell

/-- Whether an entry is kept from being hoisted. -/
def checkNohoist (entries : List Json) (entry : Text) : Check :=
  .ok (if Json.isIn (.str entry) entries then none else some (.hoisted entry))

/-- Whether a required name is bundled. -/
def checkBundled (bundled : List Json) (name range : Json) : Check :=
  .ok (if name.isIn bundled then none else some (.unbundled name range))

/-- Whether a required name is a dependency at its range. -/
def checkRange (dependencies : Json) (name range : Json) : Check :=
  match dependencies with
  | .obj fs =>
    if (((Mapping.ofFields fs).get? name).getD .null).same range then .ok none
    else .ok (some (.wrongRange name range))
  | _ => .error .noFields

/-- Whether a bundled name is required. -/
def checkRequired (bundle : Bundle) (name : Json) : Check :=
  .ok (if (bundle.get? name).isSome then none else some (.spurious name))

/-- The bundled names can be looked up. -/
def checkNames (bundled : List Json) : Check :=
  if bundled.all Json.isKey then .ok none else .error .wrongKind

/-- All checks of the documents. -/
def checks (libraries : List Library) (uber : Fields) (workspace : Json) (bundle : Bundle) :
    List Check :=
  let dev := Json.orElse (uber.get? "devDependencies") (.obj [])
  let uberName := (Manifest.mk uber).name
  let entries := nohoist workspace
  let bundled := bundledNames uber
  let dependencies := Json.orElse (uber.get? "dependencies") (.obj [])
  libraries.map (checkVersion dev) ++
  [Survey.readable entries, Survey.readable bundled] ++
  bundle.flatMap (fun (name, range) =>
    [checkNohoist (Survey.valueOf entries) (nohoistEntry uberName name),
      checkBundled (Survey.valueOf bundled) name range,
      checkRange dependencies name range]) ++
  checkNames (Survey.valueOf bundled) ::
  (Survey.valueOf bundled).map (checkRequired bundle)

end Finding

/-! ## Plans -/

namespace Finding

/-- The development dependency that a finding sets. -/
def version? : Finding → Option (Json × Json)
  | missing name version | wrongVersion name version _ => some (.str name, .str version)
  | _ => none

/-- The name that a finding adds to the bundled ones. -/
def addition? : Finding → Option Json
  | unbundled name _ => some name
  | _ => none

/-- The dependency that a finding sets. -/
def range? : Finding → Option (Json × Json)
  | wrongRange name range => some (name, range)
  | _ => none

/-- The name that a finding prunes. -/
def spurious? : Finding → Option Json
  | spurious name => some name
  | _ => none

/-- What a finding keeps from being hoisted: an entry and all below it. -/
def entries : Finding → List Text
  | hoisted entry => [entry, entry ++ "/**"]
  | _ => []

end Finding

/-- The corrections to the manifest that findings call for. -/
def ManifestCorrections.ofFindings (fs : List Finding) : ManifestCorrections where
  devDependencies := Mapping.update [] (fs.filterMap Finding.version?)
  bundledAdditions := fs.filterMap Finding.addition?
  dependencies := Mapping.update [] (fs.filterMap Finding.range?)
  pruned := fs.filterMap Finding.spurious?

/-- The corrections to the workspace that findings call for. -/
def WorkspaceCorrections.ofFindings (fs : List Finding) : WorkspaceCorrections where
  nohoist := (fs.flatMap Finding.entries).map Json.str

/-- The packages to bundle and the corrections that make the documents agree. -/
structure Plan where
  bundle : Bundle
  manifest : ManifestCorrections
  workspace : WorkspaceCorrections
deriving Inhabited

namespace Plan

/-- The plan that findings call for. -/
def ofFindings (bundle : Bundle) (fs : List Finding) : Plan where
  bundle := bundle
  manifest := .ofFindings fs
  workspace := .ofFindings fs

/-- The name of the stage in the journal. -/
def stage : Text := "reconciler"

/-- The record of a finding. -/
def record (f : Finding) : Record := .ofStage .warning stage f.message

/-- The findings about the documents, for a bundle. -/
def survey (libraries : List Library) (uber workspace : Json) (bundle : Bundle) : Survey :=
  match uber.fields with
  | .ok fs => Survey.run (Finding.checks libraries fs workspace bundle)
  | .error m => ⟨[], some m⟩

/-- The plan for an uber-package, and the records of making it. -/
def make (libraries : List Library) (uber workspace : Json) :
    List Record × Except DependencyFault Plan :=
  let start := Record.ofStage .info stage "Verifying dependencies are complete..."
  match Bundle.collect libraries with
  | .error e => ([start], .error e)
  | .ok bundle =>
    let s := survey libraries uber workspace bundle
    (start :: s.found.map record,
      match s.fault with
      | some m => .error (.misfit m)
      | none => .ok (ofFindings bundle s.found))

end Plan

end UberPackage
