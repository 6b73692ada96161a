/-
  Copying the sources of a library into the merged tree.

  * Sources are redirected, all else is copied; ignored names and files that were generated
    from a source beside them are skipped.
  * Each file and directory is a `Task`; `Task.step` does one thing and says what is left to
    do.  Tasks take turns: `rounds` lets each of them take a step.
  * A path that is too long ends the copying, so the number of rounds is bounded.
-/
import UberPackage.World
import UberPackage.Suffix

namespace UberPackage

/-- How many files were redirected, copied and skipped. -/
structure Counts where
  redirected : Nat := 0
  copied : Nat := 0
  skipped : Nat := 0
deriving DecidableEq, Inhabited, Repr

namespace Counts

/-- Counts added up. -/
def add (a b : Counts) : Counts :=
  ⟨a.redirected + b.redirected, a.copied + b.copied, a.skipped + b.skipped⟩

instance : Add Counts := ⟨add⟩

/-- The sum of counts. -/
def sum (cs : List Counts) : Counts := cs.foldr (· + ·) {}

end Counts

namespace Assembly

/-- Names that are never copied. -/
def ignoredNames : List Text :=
  [".eslintrc.js", ".gitignore", ".jest.config.js", ".jsii", ".npmignore", "node_modules",
    "package.json", "test", "tsconfig.json", "tsconfig.tsbuildinfo", "LICENSE", "NOTICE"]

/-- How a library is copied. -/
structure Rules where
  layout : Layout
  /-- Damaged sources are refused. -/
  strict : Bool
  /-- More names that are not copied. -/
  ignored : List Text
deriving Inhabited

/-- The name is not copied. -/
def Rules.ignores (r : Rules) (name : Text) : Bool :=
  ignoredNames.contains name || r.ignored.contains name

/-- What is left to do for a file or a directory. -/
inductive Task where
  /-- Make the directory of a copy. -/
  | make (source target : Path)
  /-- List a directory. -/
  | list (source target : Path)
  /-- See whether a name was generated from a source beside it. -/
  | compare (source target : Path) (name counterpart : Text)
  /-- See whether a name is a directory. -/
  | classify (source target : Path) (name : Text)
  /-- Redirect the references of a source. -/
  | redirect (source target : Path) (name : Text)
  | write (target : Path) (bytes : Bytes)
  | copy (source target : Path)
deriving Inhabited

/-- What a step leaves to do, and what it counts. -/
structure Progress where
  tasks : List Task := []
  counts : Counts := {}
deriving Inhabited

/-- The first task of a name in a directory. -/
def ofName (r : Rules) (source target : Path) (name : Text) : Progress :=
  if r.ignores name then { counts := { skipped := 1 } }
  else
    match Suffix.sourceCounterpart? name with
    | some counterpart => { tasks := [.compare source target name counterpart] }
    | none => { tasks := [.classify source target name] }

/-- What several tasks leave to do together. -/
def Progress.join (ps : List Progress) : Progress where
  tasks := ps.flatMap (·.tasks)
  counts := Counts.sum (ps.map (·.counts))

/-- One step of a task. -/
def Task.step (r : Rules) : Task → Act Progress
  | .make source target => do
    Act.change (·.makeDirectories target)
    return { tasks := [.list source target] }
  | .list source target => do
    let names ← Act.ask (·.list source)
    return .join (names.map (ofName r source target))
  | .compare source target name counterpart => do
    if ← Act.ask (·.exists? (source / counterpart)) then return { counts := { skipped := 1 } }
    else return { tasks := [.classify source target name] }
  | .classify source target name => do
    if ← Act.ask (·.isDirectory? (source / name)) then
      return { tasks := [.make (source / name) (target / name)] }
    else if Suffix.isSource name then return { tasks := [.redirect source target name] }
    else return { tasks := [.copy (source / name) (target / name)] }
  | .redirect source target name => do
    let path := source / name
    let cs ← Act.decode (← Act.ask (·.read path))
    let (records, result) := r.layout.redirectChars r.strict cs target path.text
    Act.records records
    let cs ← Act.decode (← Act.orFail .redirection result)
    return { tasks := [.write (target / name) (Utf8.encode cs)] }
  | .write target bytes => do
    Act.change (·.writeFile target bytes)
    return { counts := { redirected := 1 } }
  | .copy source target => do
    Act.copyFile source target
    return { counts := { copied := 1 } }

/-- Lets each task take a step, and again those that are left, `n` times at most. -/
def rounds (r : Rules) : Nat → List Task → Act Counts
  | _, [] => pure {}
  | 0, _ :: _ => throw (.file (.refused .nameTooLong []))
  | n + 1, t :: ts => do
    let p := Progress.join (← (t :: ts).mapM (Task.step r))
    return p.counts + (← rounds r n p.tasks)

/-- More rounds than a path has bytes for directories, each of which takes four. -/
def roundLimit : Nat := 4 * 4096

/-- Copies a directory and all below it. -/
def copyTree (r : Rules) (source target : Path) : Act Counts :=
  rounds r roundLimit [.make source target]

end Assembly

end UberPackage
