/-
  The settings of an uber-package.

  * `Settings.defaults` are those of a package without a file of settings.
  * `Settings.ofValue` changes them as the mapping in that file says.  A path may be given as a
    number, other texts may not; paths are seen from the directory of the package.
  * `Path.expand` puts the home of a user in place of `~` or `~name` at the front of the path under
    which a package is asked for.
-/
import UberPackage.Yaml.Value
import UberPackage.Disk

namespace UberPackage

/-- What a run works with. -/
structure Settings where
  /-- The directory of the uber-package. -/
  root : Path
  /-- The directory of the directories of the libraries. -/
  librariesRoot : Path
  workspacePath : Path
  manifestPath : Path
  /-- The root of the merged tree. -/
  outputDir : Path
  /-- What the names of libraries begin with. -/
  scope : Text := "@aws-cdk/"
  /-- The short name of the library that the index exports as it is. -/
  rootLibrary : Text := "core"
  /-- What the names of modules in Python begin with. -/
  modulePrefix : Text := "aws_cdk."
  /-- Names that are not copied. -/
  ignored : List Text := []
  /-- Damaged sources are refused. -/
  strict : Bool := false
deriving Inhabited

/-- What is wrong with settings. -/
inductive SettingsFault where
  | unreadable (file : Text)
  | noMapping
  | noText (key : Text)
  | noFlag (key : Text)
  | noNames (key : Text)
  | file (f : FileFault)
  | misfit (m : Misfit)
  /-- Where a user is at home is not known. -/
  | homeless
deriving DecidableEq, Inhabited, Repr

namespace Settings

/-- The name of the file of settings. -/
def fileName : Text := ".ubergen.yml"

/-- The path of a file seen from a directory, without `..`. -/
def below (root : Path) (parts : List Text) : Path :=
  (parts.foldl (fun p t => p / t) root).resolve root

/-- The settings of a package without a file of settings. -/
def defaults (root : Path) : Settings where
  root := root
  librariesRoot := below root ["..", "..", "packages", "@aws-cdk"]
  workspacePath := below root ["..", "..", "package.json"]
  manifestPath := root / ("package.json" : Text)
  outputDir := root / ("lib" : Text)

end Settings

/-- The fault in words. -/
def SettingsFault.message : SettingsFault → Text
  | unreadable name => "Failed to parse " ++ name
  | noMapping => Settings.fileName ++ " must contain a mapping at the root"
  | noText key => key ++ " must be a string"
  | noFlag key => key ++ " must be a boolean"
  | noNames key => key ++ " must be a list of file names"
  | .file f => f.message
  | misfit _ => "a value does not fit"
  | homeless => "Could not determine home directory."

/-! ## Homes -/

/-- Where users are at home. -/
structure Homes where
  /-- The own home, as the environment has it. -/
  environment : Option Text := none
  /-- The own home, as the user database has it. -/
  own : Option Text := none
  /-- The homes of users by name, as the user database has them. -/
  users : List (Text × Text) := []
deriving Inhabited

namespace Homes

/-- What is wrong with the name of a user. -/
def nameFault? (user : Text) : Option FileFault :=
  if user.nameSize?.isNone then some .unencodableName
  else if user.contains (.char '\x00') then some .nullInName
  else none

/-- The home of a user; without a name, the own one.  The environment comes before the database. -/
def find? (h : Homes) (user : Text) : Option Text :=
  if user = [] then h.environment <|> h.own else h.users.lookup user

/-- The path of a home.  Slashes at its end do not count, and a home without any other unit is the
top. -/
def pathOf (home : Text) : Path :=
  match (home.reverse.dropWhile (·.isChar '/')).reverse with
  | [] => ⟨.slash, []⟩
  | t => Path.ofText t

end Homes

/-- The path with the home of a user in place of `~` or `~name` at its front.  A home that itself
begins with `~` is none. -/
def Path.expand (p : Path) (homes : Homes) : Except SettingsFault Path :=
  match p.anchor, p.parts with
  | .none, (.char '~' :: user) :: rest =>
    match Homes.nameFault? user, homes.find? user with
    | some f, _ => .error (.file f)
    | none, none => .error .homeless
    | none, some home =>
      if home.head? = some (.char '~') then .error .homeless
      else .ok { Homes.pathOf home with parts := (Homes.pathOf home).parts ++ rest }
  | _, _ => .ok p

namespace Settings

/-! ## Values -/

/-- The value of a key, unless it is nothing; of several, the last counts. -/
def find? (ps : List (Yaml.Value × Yaml.Value)) (key : Text) : Option Yaml.Value :=
  let found : Option Yaml.Value := ps.reverse.findSome? fun (k, v) =>
    match k with
    | .str t => if t = key then some v else none
    | _ => none
  match found with
  | some .null => none
  | v => v

/-- An integer in decimal, unless it is too long. -/
def integerText (i : Int) : Except SettingsFault Text :=
  if i.natAbs < tenTo Yaml.Value.integerDigits then .ok (Text.ofInt i)
  else .error (.misfit .malformed)

/-- The text of a string or a number. -/
def text? : Yaml.Value → Except SettingsFault (Option Text)
  | .str t => .ok (some t)
  | .int i => some <$> integerText i
  | .float x => .ok (some (Json.floatName x))
  | _ => .ok none

/-- The text of a string, a number or a truth value. -/
def name? : Yaml.Value → Except SettingsFault (Option Text)
  | .bool b => .ok (some (Json.bool b).spell)
  | v => text? v

/-- The absolute path that a text means. -/
def pathOf (root : Path) (t : Text) : Except SettingsFault Path :=
  let p := root / t
  match p.nameFault? with
  | some (.refused _ _) | none => .ok (p.resolve root)
  | some f => .error (.file f)

/-- The path that a key gives, if it gives one. -/
def path? (root : Path) (ps : List (Yaml.Value × Yaml.Value)) (key : Text) (default : Path) :
    Except SettingsFault Path := do
  match find? ps key with
  | none => return default
  | some v =>
    match ← text? v with
    | none => return default
    | some t => if t = [] then return default else pathOf root t

/-- The string that a key gives. -/
def string (ps : List (Yaml.Value × Yaml.Value)) (key default : Text) :
    Except SettingsFault Text :=
  match find? ps key with
  | none => .ok default
  | some (.str t) => .ok t
  | some _ => .error (.noText key)

/-- The names that a key gives. -/
def names (ps : List (Yaml.Value × Yaml.Value)) (key : Text) : Except SettingsFault (List Text) :=
  match find? ps key with
  | none => .ok []
  | some (.str t) => .ok [t]
  | some (.list items) => do return (← items.mapM name?).filterMap id
  | some (.bytes bs) => .ok (bs.map fun b => Text.ofNat b.toNat)
  | some _ => .error (.noNames key)

/-- The truth value that a key gives. -/
def flag (ps : List (Yaml.Value × Yaml.Value)) (key : Text) (default : Bool) :
    Except SettingsFault Bool :=
  match find? ps key with
  | none => .ok default
  | some (.bool b) => .ok b
  | some _ => .error (.noFlag key)

/-! ## Settings -/

/-- The settings that pairs give. -/
def ofPairs (root : Path) (ps : List (Yaml.Value × Yaml.Value)) :
    Except SettingsFault Settings := do
  let d := defaults root
  return {
    root := root
    librariesRoot := ← path? root ps "libraries_root" d.librariesRoot
    workspacePath := ← path? root ps "workspace" d.workspacePath
    manifestPath := ← path? root ps "manifest" d.manifestPath
    outputDir := ← path? root ps "output_dir" d.outputDir
    scope := ← string ps "scope" d.scope
    rootLibrary := ← string ps "root_library" d.rootLibrary
    modulePrefix := ← string ps "python_module_prefix" d.modulePrefix
    ignored := ← names ps "ignore"
    strict := ← flag ps "strict_parse" d.strict
  }

/-- The settings that a value gives; one that counts as false changes nothing. -/
def ofValue (root : Path) (v : Yaml.Value) : Except SettingsFault Settings :=
  if !v.truthy then ofPairs root []
  else
    match v with
    | .mapping ps => ofPairs root ps
    | _ => .error .noMapping

/-- The settings that the text of a file gives. -/
def ofText (root : Path) (file : Text) (t : List Char) : Except SettingsFault Settings :=
  if t.all fun c => Code.isBlank (.char c) then ofPairs root []
  else
    match Yaml.Value.read t with
    | .error .notYaml => .error (.unreadable file)
    | .error (.misfit m) => .error (.misfit m)
    | .ok v => ofValue root v

end Settings

end UberPackage
