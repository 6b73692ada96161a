/-
  Verifying and building the uber-package.

  * `Settings.load` reads the settings of a package.
  * `Build.verify` finds the libraries and corrects the manifest and the workspace.  A
    corrected manifest ends the run.
  * `Build.run` verifies, and then assembles the merged tree anew.
-/
import UberPackage.Discovery
import UberPackage.Assembly
import UberPackage.Emission

namespace UberPackage

/-- The path of the file of settings: in a directory, or the file itself. -/
def Settings.locate (p : Path) (homes : Homes := {}) : Act Path := do
  let p ← Act.orFail .settings (p.expand homes)
  let file := if ← Act.ask (·.isDirectory? p) then p / Settings.fileName else p
  match file.nameFault? with
  | some (.refused _ _) | none => return (← get).disk.resolve file
  | some f => throw (.file f)

/-- The settings of a package; without a file, the defaults. -/
def Settings.load (p : Path) (homes : Homes := {}) : Act Settings := do
  let file ← Settings.locate p homes
  if ← Act.ask (·.exists? file) then
    let t ← Act.readText file
    let cs := t.display.toList
    Act.orFail .settings (Settings.ofText file.parent file.name cs)
  else return Settings.defaults file.parent

namespace Build

/-- The name of the stage in the journal. -/
def stage : Text := "orchestrator"

/-- What a verification gives. -/
structure Verified where
  libraries : List Library
  manifest : Json
  plan : Plan
deriving Inhabited

/-- What a build gives. -/
structure Built where
  libraries : List Library
  outputRoot : Path
  counts : Counts
deriving Inhabited

/-- Makes the plan for the documents. -/
def plan (libraries : List Library) (manifest workspace : Json) : Act Plan := do
  let (records, result) := Plan.make libraries manifest workspace
  Act.records records
  Act.orFail .dependency result

/-- Corrects the workspace if it has to be. -/
def correctWorkspace (s : Settings) (workspace : Json) (c : WorkspaceCorrections) : Act Unit := do
  if c.changed then
    let corrected ← Act.orFail .misfit (c.apply workspace)
    Act.writeDocument s.workspacePath corrected
    Act.record .info stage ("Updated the yarn workspace configuration. " ++
      "Re-run \"yarn install\", and commit the changes.")

/-- Corrects the manifest if it has to be, and ends the run then. -/
def correctManifest (s : Settings) (manifest : Json) (c : ManifestCorrections) : Act Unit := do
  if c.changed then
    let corrected ← Act.orFail .misfit (c.apply manifest)
    Act.writeDocument s.manifestPath corrected
    throw .corrected

/-- Finds the libraries and makes the documents agree with them. -/
def verify (s : Settings) : Act Verified := do
  let found ← Discovery.run s.librariesRoot s.scope
  let manifest ← Act.readDocument s.manifestPath
  let workspace ← Act.readDocument s.workspacePath
  let p ← plan found.libraries manifest workspace
  correctWorkspace s workspace p.workspace
  correctManifest s manifest p.manifest
  Act.record .info stage "Dependencies are correct!"
  return ⟨found.libraries, manifest, p⟩

/-- Removes what an earlier build has left. -/
def clear (root : Path) : Act Unit := do
  if ← Act.ask (·.exists? root) then
    Act.change fun d => d.outcome (d.removeTree root)

/-- The bindings of a library as part of the uber-package. -/
def bindings (s : Settings) (uber : Option Json) (l : Library) : Act (Option Json) := do
  let own ← Act.orFail .misfit l.manifest.targets
  let nested ← Act.orFail .binding (Binding.submodule uber own s.modulePrefix)
  return nested.map Binding.toObject

/-- Assembles a library into the merged tree. -/
def assemble (s : Settings) (rules : Assembly.Rules) (uber : Option Json) (l : Library) :
    Act Counts := do
  let directory := rules.layout.directory l
  Act.record .debug stage ("Assembling " ++ l.name ++ " into " ++ directory.text)
  let counts ← Assembly.copyTree rules l.root directory
  let _ ← Emission.entryPoint s.outputDir l
  if l.shortName != s.rootLibrary then
    let targets ← bindings s uber l
    let _ ← Emission.bindings s.outputDir l targets
    let _ ← Emission.shim s.outputDir l
  return counts

/-- The numbers of a build in words. -/
def summary (c : Counts) : Text :=
  "Success! " ++ Text.ofNat c.redirected ++ " files rewritten, " ++ Text.ofNat c.copied ++
    " copied, " ++ Text.ofNat c.skipped ++ " skipped"

/-- Assembles the merged tree anew. -/
def prepare (s : Settings) (libraries : List Library) (manifest : Json) : Act Counts := do
  Act.record .info stage "Preparing source files..."
  clear s.outputDir
  let rules : Assembly.Rules := ⟨{ libraries, root := s.outputDir }, s.strict, s.ignored⟩
  let uber ← Act.orFail .misfit do (← Manifest.ofJson manifest).targets
  let counts := Counts.sum (← libraries.mapM (assemble s rules uber))
  let _ ← Emission.index s.outputDir libraries s.rootLibrary
  Act.record .info stage (summary counts)
  return counts

/-- Verifies and assembles. -/
def run (s : Settings) : Act Built := do
  let verified ← verify s
  let counts ← prepare s verified.libraries verified.manifest
  return ⟨verified.libraries, s.outputDir, counts⟩

end Build

end UberPackage
