/-
  The modules that tie the libraries together.

  * The entry point of a library exports the module that its types are declared in.
  * The shim of a library, beside the merged tree, exports the library.
  * The index of the merged tree exports the root library as it is and every other library
    under its namespace name.

  Each text can be replaced by a template of its own.
-/
import UberPackage.Layout
import UberPackage.Suffix
import UberPackage.Template
import UberPackage.Json.Spelling

namespace UberPackage

/-- The unit can stand in an identifier. -/
def isIdentifierUnit (c : Code) : Bool :=
  match c with
  | .char c => c.isAlphanum || c == '_' || c == '$'
  | .half _ => false

/-- The identifier for a short name: all other units become underscores. -/
def namespaceName (shortName : Text) : Text :=
  shortName.map fun c => if isIdentifierUnit c then c else .char '_'

/-- Texts that replace those of the modules. -/
structure Templates where
  entryPoint : Option Template := none
  shim : Option Template := none
  index : Option Template := none
deriving Inhabited

namespace Templates

/-- The template in the file with a name. -/
def find? (files : List (Text × Text)) (name : Text) : Option Template :=
  (files.lookup name).map Template.ofText

/-- The templates in files by name; other files mean nothing. -/
def ofFiles (files : List (Text × Text)) : Templates where
  entryPoint := find? files "entrypoint.ts.j2"
  shim := find? files "shim.ts.j2"
  index := find? files "index.ts.j2"

end Templates

namespace Glue

/-- A statement that exports all of a module. -/
def exportAll (module : Text) : Text := "export * from './" ++ module ++ "';\n"

/-- A statement that exports all of a module under a name. -/
def exportAs (name module : Text) : Text :=
  "export * as " ++ name ++ " from './" ++ module ++ "';\n"

/-- A text, or the template in its place. -/
def textOr (template : Option Template) (values : List (Text × Text)) (text : Text) : Text :=
  match template with
  | some t => t.fill values
  | none => text

/-- The entry point of a library. -/
def entryPoint (ts : Templates) (l : Library) : Text :=
  let module := Suffix.entryModule l.manifest.types
  textOr ts.entryPoint [("module_path", module)] (exportAll module)

/-- The shim of a library. -/
def shim (ts : Templates) (outputRoot : Path) (l : Library) : Text :=
  textOr ts.shim [("output_dir", outputRoot.name), ("short_name", l.shortName)]
    (exportAll (outputRoot.name ++ "/" ++ l.shortName))

/-- The line of a library in the index. -/
def indexLine (rootLibrary : Text) (l : Library) : Text :=
  if l.shortName = rootLibrary then exportAll l.shortName
  else exportAs (namespaceName l.shortName) l.shortName

/-- A library as an entry of the index, in words. -/
def entryText (rootLibrary : Text) (l : Library) : Text :=
  "IndexEntry(short_name=" ++ l.shortName.inspect ++ ", alias=" ++
    (namespaceName l.shortName).inspect ++
    ", flat=" ++ (Json.bool (l.shortName = rootLibrary)).spell ++ ")"

/-- The index of the merged tree. -/
def index (ts : Templates) (rootLibrary : Text) (libraries : List Library) : Text :=
  textOr ts.index
    [("entries", "[" ++ Text.join ", " (libraries.map (entryText rootLibrary)) ++ "]")]
    (libraries.flatMap (indexLine rootLibrary))

end Glue

end UberPackage
