/-
  The libraries that take part.

  `Discovery.run` looks at each directory below a root, in order of name, and finds a library
  in it or a reason to skip it.
-/
import UberPackage.World

namespace UberPackage.Discovery

/-- What a directory turns out to hold. -/
inductive Candidate where
  | taken (l : Library)
  | skipped (name : Text) (reason : SkipReason)
deriving Inhabited

/-- The libraries that take part, and the names of the others with the reasons. -/
structure Found where
  libraries : List Library
  skipped : List (Text × SkipReason)
deriving Inhabited

/-- The name of the stage in the journal. -/
def stage : Text := "discovery"

/-- The name of a manifest's file. -/
def manifestName : Text := "package.json"

/-- What a manifest in a directory makes of it. -/
def ofManifest (directory : Path) (scope : Text) (m : Manifest) : Candidate :=
  match m.skipReason? with
  | some reason => .skipped (if m.name = [] then directory.name else m.name) reason
  | none => .taken ⟨m, directory, shortName m.name scope⟩

/-- Looks into a directory. -/
def examine (scope : Text) (directory : Path) : Act Candidate := do
  let path := directory / manifestName
  if ← Act.ask (·.isFile? path) then
    let m ← Act.orFail .misfit (Manifest.ofJson (← Act.readDocument path))
    return ofManifest directory scope m
  else return .skipped directory.name .noManifest

/-- Notes a directory that is skipped. -/
def report : Candidate → Act Unit
  | .taken _ => pure ()
  | .skipped name reason =>
    Act.record .info stage ("Skipping (" ++ reason.message ++ "): " ++ name)

/-- Looks into a directory and notes what is skipped. -/
def visit (scope : Text) (directory : Path) : Act Candidate := do
  let c ← examine scope directory
  report c
  return c

/-- The directories below a root, in order of name. -/
def directories (root : Path) : Act (List Path) := do
  let names ← Act.ask (·.list root)
  (names.map fun name => root / name).filterM fun p => Act.ask (·.isDirectory? p)

/-- The libraries among candidates. -/
def libraries (cs : List Candidate) : List Library :=
  cs.filterMap fun
    | .taken l => some l
    | .skipped _ _ => none

/-- The skipped ones among candidates. -/
def skipped (cs : List Candidate) : List (Text × SkipReason) :=
  cs.filterMap fun
    | .taken _ => none
    | .skipped name reason => some (name, reason)

/-- Finds the libraries below a root. -/
def run (root : Path) (scope : Text) : Act Found := do
  Act.record .info stage "Discovering libraries that need packaging..."
  if !(← Act.ask (·.exists? root)) then throw (.librariesMissing root.text)
  if !(← Act.ask (·.isDirectory? root)) then throw (.librariesNotDirectory root.text)
  let cs ← (← directories root).mapM (visit scope)
  let ls := libraries cs
  Act.record .info stage ("Found " ++ Text.ofNat ls.length ++ " relevant packages!")
  return ⟨ls, skipped cs⟩

end UberPackage.Discovery
