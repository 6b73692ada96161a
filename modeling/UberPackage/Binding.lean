/-
  Bindings of a package to other languages.

  * `Language` lists the languages, `Binding` is the one setting of a language.
  * `Binding.ofTargets` reads a library's bindings; unknown languages and missing settings
    are faults.
  * `submodule` narrows a library's bindings to the languages that the uber-package
    supports, and moves a Python module below the uber-package's.
-/
import UberPackage.Json.Lenient

namespace UberPackage

/-- A language with bindings. -/
inductive Language where
  | dotnet | java | python
deriving DecidableEq, Inhabited, Repr

namespace Language

/-- All languages, in the order in which they are looked up. -/
def all : List Language := [dotnet, java, python]

def name : Language → Text
  | dotnet => "dotnet"
  | java => "java"
  | python => "python"

/-- The setting that a language requires. -/
def setting : Language → Text
  | dotnet => "namespace"
  | java => "package"
  | python => "module"

/-- The language with a name. -/
def ofName? (t : Text) : Option Language := all.find? fun l => l.name == t

theorem ofName?_name (l : Language) : ofName? l.name = some l := by
  cases l <;> decide

end Language

/-- A language and the value of its setting. -/
structure Binding where
  language : Language
  value : Text
deriving DecidableEq, Inhabited, Repr

/-- What is wrong with bindings. -/
inductive BindingFault where
  | unsupported (name : Text)
  | incomplete (language : Language)
  | misfit (m : Misfit)
deriving DecidableEq, Inhabited, Repr

namespace Binding

/-- The setting as an object. -/
def toJson (b : Binding) : Json := .obj [(b.language.setting, .str b.value)]

/-- The language with a name, which has to be known. -/
def language! (name : Text) : Except BindingFault Language :=
  match Language.ofName? name with
  | some l => .ok l
  | none => .error (.unsupported name)

/-- A language's binding, from its settings. -/
def ofSettings (l : Language) (settings : Json) : Except BindingFault Binding :=
  match settings.field? l.setting with
  | some (.str t) => if t = [] then .error (.incomplete l) else .ok ⟨l, t⟩
  | _ => .error (.incomplete l)

/-- The entries of a block of bindings. -/
def entries (block : Json) : Except BindingFault Fields :=
  match block.fields with
  | .ok fs => .ok fs
  | .error m => .error (.misfit m)

/-- All bindings of a block. -/
def ofTargets (block : Option Json) : Except BindingFault (List Binding) :=
  match block with
  | none => .ok []
  | some block =>
    if block.truthy then do
      (← entries block).mapM fun (name, settings) => do ofSettings (← language! name) settings
    else .ok []

/-- The languages that the uber-package supports, with their settings. -/
def supported (block : Option Json) : Except BindingFault (List (Language × Json)) :=
  match block with
  | none => .ok []
  | some block =>
    if block.truthy then do
      let fs ← entries block
      return Language.all.filterMap fun l =>
        match fs.get? l.name with
        | none => none
        | some .null => none
        | some (.obj settings) => some (l, .obj settings)
        | some _ => some (l, .obj [])
    else .ok []

/-- A module name without a prefix. -/
def withoutPrefix (start name : Text) : Text :=
  if start != [] && start.isPrefixOf name then name.drop start.length else name

/-- One of a library's bindings as part of the uber-package, if its language is supported. -/
def submoduleEntry (supported : List (Language × Json)) (modulePrefix name : Text)
    (settings : Json) : Except BindingFault (Option Binding) := do
  let l ← language! name
  match supported.lookup l with
  | none => return none
  | some uber =>
    let b ← ofSettings l settings
    match l with
    | .python =>
      let parent ← ofSettings .python uber
      return some ⟨.python, parent.value ++ "." ++ withoutPrefix modulePrefix b.value⟩
    | _ => return some b

/-- A library's bindings as part of the uber-package. -/
def submodule (uber library : Option Json) (modulePrefix : Text) :
    Except BindingFault (Option (List Binding)) :=
  match library with
  | none => .ok none
  | some block => do
    let supported ← supported uber
    let fs ← entries block
    let found ← fs.mapM fun (name, settings) =>
      submoduleEntry supported modulePrefix name settings
    return some (found.filterMap id)

/-- Bindings as an object by language. -/
def toObject (bs : List Binding) : Json := .obj (bs.map fun b => (b.language.name, b.toJson))

end Binding

end UberPackage
