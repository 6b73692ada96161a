/-
  Why a run fails.

  A `Failure` is a fault of one of the parts, or what a run itself refuses.  `Failure.message`
  puts it in words; `Failure.isReported` holds of those that end a run with a message.
-/
import UberPackage.Binding
import UberPackage.Dependency.Plan
import UberPackage.Json.Reader
import UberPackage.Redirection
import UberPackage.Settings

namespace UberPackage

/-- Why a run fails. -/
inductive Failure where
  | settings (f : SettingsFault)
  | dependency (f : DependencyFault)
  | binding (f : BindingFault)
  /-- The manifest was corrected; the run has to begin anew. -/
  | corrected
  | redirection (f : RedirectionFault)
  | file (f : FileFault)
  /-- The directory of the libraries is missing. -/
  | librariesMissing (path : Text)
  /-- The directory of the libraries is a file. -/
  | librariesNotDirectory (path : Text)
  /-- A text is not JSON. -/
  | document (f : Json.Fault)
  /-- Bytes are not text. -/
  | undecodable
  /-- A text is not characters alone. -/
  | unencodable
  | misfit (m : Misfit)
deriving Inhabited

/-- The misfit in words. -/
def Misfit.message : Misfit → Text
  | noFields => "the value has no fields"
  | wrongKind => "the value is of the wrong kind"
  | malformed => "the value is malformed"
  | unknownName => "the name is not known"
  | tooShort => "the text is too short"
  | tooLarge => "the number is too large"

/-- The fault in words. -/
def DependencyFault.message : DependencyFault → Text
  | conflict name existing requested =>
    "Required to bundle different versions of " ++ name.spell ++ ": " ++
      existing.spell ++ " and " ++ requested.spell ++ "."
  | misfit m => m.message

/-- The fault in words. -/
def BindingFault.message : BindingFault → Text
  | unsupported name =>
    "Unsupported language for submodule configuration translation: " ++ name
  | incomplete l =>
    "Binding target '" ++ l.name ++ "' must declare a '" ++ l.setting ++ "' string"
  | misfit m => m.message

/-- The fault in words. -/
def RedirectionFault.message : RedirectionFault → Text
  | damaged file => "Failed to parse " ++ file
  | unencodable => "surrogates not allowed"
  | undecodable => "invalid bytes"

namespace Failure

/-- The failure in words. -/
def message : Failure → Text
  | settings f => f.message
  | dependency f => f.message
  | binding f => f.message
  | corrected => "Fixed dependency inconsistencies. Commit the updated package.json file."
  | redirection f => f.message
  | .file f => f.message
  | librariesMissing path => "Libraries root not found: " ++ path
  | librariesNotDirectory path => "Libraries root is not a directory: " ++ path
  | document f => f.message
  | undecodable => "invalid bytes"
  | unencodable => "surrogates not allowed"
  | misfit m => m.message

/-- The file system has refused something. -/
def isRefusal : FileFault → Bool
  | .refused _ _ | .notMoved _ _ _ | .noTree _ => true
  | .nullInName | .unencodableName => false

/-- The settings are at fault, not a value in them or the path under which they are asked for. -/
def isSettingsFault : SettingsFault → Bool
  | .file _ | .misfit _ | .homeless => false
  | _ => true

/-- The failure ends a run with a message. -/
def isReported : Failure → Bool
  | settings f => isSettingsFault f
  | dependency (.conflict _ _ _) => true
  | dependency (.misfit _) => false
  | binding (.unsupported _) | binding (.incomplete _) => true
  | binding (.misfit _) => false
  | corrected => true
  | redirection (.damaged _) => true
  | redirection _ => false
  | .file f => isRefusal f
  | librariesMissing _ | librariesNotDirectory _ => true
  | document _ | undecodable | unencodable | misfit _ => false

end Failure

end UberPackage
