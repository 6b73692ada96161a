/-
  Package manifests and libraries.

  * `Manifest` reads the fields of a `package.json`, whatever values they hold.
  * `skipReason?` says why a package does not take part.
  * `Library` is a package that does; `Library.provides` recognizes specifiers of its
    modules, `shortName` gives its name inside the uber-package.
-/
import UberPackage.Json.Lenient
import UberPackage.Path

namespace UberPackage

/-- The fields of a package manifest. -/
structure Manifest where
  fields : Fields
deriving Inhabited

namespace Manifest

/-- The manifest that a document holds. -/
def ofJson (v : Json) : Except Misfit Manifest := Manifest.mk <$> v.fields

/-- A field's value. -/
def get? (m : Manifest) (key : Text) : Option Json := m.fields.get? key

/-- A field in running text. -/
def textOf (m : Manifest) (key default : Text) : Text :=
  match m.get? key with
  | some v => v.spell
  | none => default

/-- The field is there and counts as true. -/
def flag (m : Manifest) (key : Text) : Bool :=
  match m.get? key with
  | some v => v.truthy
  | none => false

def name (m : Manifest) : Text := m.textOf "name" ""

def version (m : Manifest) : Text := m.textOf "version" ""

/-- The file that declares the package's types. -/
def types (m : Manifest) : Text := m.textOf "types" "lib/index.d.ts"

def isPrivate (m : Manifest) : Bool := m.flag "private"

def isDeprecated (m : Manifest) : Bool := m.flag "deprecated"

/-- A field that maps package names to version ranges. -/
def ranges (m : Manifest) (key : Text) : Except Misfit Mapping :=
  Mapping.ofValue (Json.orElse (m.get? key) (.obj []))

def dependencies (m : Manifest) : Except Misfit Mapping := m.ranges "dependencies"

def devDependencies (m : Manifest) : Except Misfit Mapping := m.ranges "devDependencies"

/-- A field's value, unless it is nothing. -/
def present? (m : Manifest) (key : Text) : Option Json :=
  match m.get? key with
  | some .null => none
  | v => v

/-- The packages that the library carries inside: `bundleDependencies`, or else
`bundledDependencies`. -/
def bundled (m : Manifest) : Except Misfit (List Json) :=
  (Json.orElse ((m.present? "bundleDependencies").or (m.get? "bundledDependencies"))
    (.arr [])).elements

/-- The settings for bindings to other languages. -/
def jsii? (m : Manifest) : Option Json := m.present? "jsii"

/-- The bindings to other languages. -/
def targets (m : Manifest) : Except Misfit (Option Json) :=
  match m.jsii? with
  | some v =>
    if v.truthy then do
      match (← v.fields).get? "targets" with
      | some .null => return none
      | t => return t
    else .ok none
  | none => .ok none

end Manifest

/-- Why a package does not take part. -/
inductive SkipReason where
  | isPrivate
  | deprecated
  | notJsii
  | noManifest
deriving DecidableEq, Inhabited, Repr

/-- The reason in words. -/
def SkipReason.message : SkipReason → Text
  | isPrivate => "private"
  | deprecated => "deprecated"
  | notJsii => "not jsii-enabled"
  | noManifest => "no package.json"

/-- Why a package with a manifest does not take part. -/
def Manifest.skipReason? (m : Manifest) : Option SkipReason :=
  if m.isPrivate then some .isPrivate
  else if m.isDeprecated then some .deprecated
  else if m.jsii?.isNone then some .notJsii
  else none

/-! ## Libraries -/

/-- A package's name without its scope: the configured one, or any in front of a slash. -/
def shortName (name scope : Text) : Text :=
  if scope != [] && scope.isPrefixOf name then name.drop scope.length
  else if name.head? = some (.char '@') && name.contains (.char '/') then
    (name.dropWhile (!·.isChar '/')).drop 1
  else name

/-- A package that takes part. -/
structure Library where
  manifest : Manifest
  root : Path
  shortName : Text
deriving Inhabited

namespace Library

def name (l : Library) : Text := l.manifest.name

/-- The specifier names the library or a module inside it. -/
def provides (l : Library) (specifier : Text) : Bool :=
  specifier == l.name || (l.name ++ "/").isPrefixOf specifier

end Library

end UberPackage
