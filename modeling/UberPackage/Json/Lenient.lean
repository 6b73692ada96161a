/-
  What a value gives where another kind of value was meant.

  Package manifests are written by hand, so a field may hold any value.  Where a list is
  wanted, a text gives its characters and an object its keys; where a mapping is wanted,
  a list of pairs gives one.  What gives nothing is a `Misfit`.
-/
import UberPackage.Json.Comparison
import UberPackage.Json.Spelling

namespace UberPackage

/-- How a value does not fit where it stands. -/
inductive Misfit where
  /-- Fields are looked up in a value without fields. -/
  | noFields
  /-- The kind of value does not support the operation. -/
  | wrongKind
  /-- A value of the right kind is malformed. -/
  | malformed
  /-- A name is not known. -/
  | unknownName
  /-- A text is too short. -/
  | tooShort
  /-- A number is too large. -/
  | tooLarge
deriving DecidableEq, Inhabited, Repr

namespace Json

/-- Neither nothing, false, zero nor empty. -/
def truthy : Json → Bool
  | null => false
  | bool b => b
  | int i => i != 0
  | float x => !x.isZero
  | str t => !t.isEmpty
  | arr vs => !vs.isEmpty
  | obj fs => !fs.isEmpty

/-- The value unless it is missing or counts as false. -/
def orElse (v : Option Json) (other : Json) : Json :=
  match v with
  | some v => if v.truthy then v else other
  | none => other

/-- The fields of an object. -/
def fields : Json → Except Misfit Fields
  | obj fs => .ok fs
  | _ => .error .noFields

/-- The elements of a value. -/
def elements : Json → Except Misfit (List Json)
  | arr vs => .ok vs
  | str t => .ok (t.map fun c => str [c])
  | obj fs => .ok (fs.map fun f => str f.1)
  | _ => .error .wrongKind

/-- The value can be a key. -/
def isKey : Json → Bool
  | arr _ | obj _ => false
  | _ => true

/-- The text of a key in a written document. -/
def keyText : Json → Text
  | str t => t
  | bool b => if b then "true" else "false"
  | null => "null"
  | float x => x.textWith "NaN" "Infinity"
  | v => v.spell

end Json

/-! ## Mappings with any scalars as keys -/

/-- A mapping in order; no two keys are the same. -/
abbrev Mapping := List (Json × Json)

namespace Mapping

/-- The value of a key. -/
def get? (key : Json) : Mapping → Option Json
  | [] => none
  | (k, v) :: rest => if k.same key then some v else get? key rest

/-- Sets a key in its place, or at the end if it is new. -/
def set (key value : Json) : Mapping → Mapping
  | [] => [(key, value)]
  | (k, v) :: rest => if k.same key then (k, value) :: rest else (k, v) :: set key value rest

/-- The mapping without a key. -/
def erase (key : Json) (m : Mapping) : Mapping := m.filter fun (k, _) => !k.same key

/-- The mapping of an object. -/
def ofFields (fs : Fields) : Mapping := fs.map fun (k, v) => (.str k, v)

/-- The mapping with all entries of another set in it. -/
def update (m other : Mapping) : Mapping := other.foldl (fun m (k, v) => m.set k v) m

/-- The object with the entries of a mapping. -/
def toObject (m : Mapping) : Json := .obj (m.map fun (k, v) => (k.keyText, v))

/-- A pair from a value with two elements. -/
def pair (v : Json) : Except Misfit (Json × Json) := do
  match ← v.elements with
  | [k, w] => if k.isKey then return (k, w) else .error .wrongKind
  | _ => .error .malformed

/-- The mapping that an object or a list of pairs gives. -/
def ofValue : Json → Except Misfit Mapping
  | .obj fs => .ok (ofFields fs)
  | v => do
    let pairs ← (← v.elements).mapM pair
    return update [] pairs

/-- The mapping with its keys in order. -/
def sort? (m : Mapping) : Option Mapping := do
  let keys ← Json.sort? (m.map Prod.fst)
  return keys.filterMap fun k => (m.get? k).map (k, ·)

end Mapping

end UberPackage
