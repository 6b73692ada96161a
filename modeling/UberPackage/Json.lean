/-
  JSON documents.

  * `Json` keeps the order of the fields of an object; integers and floating-point
    numbers are apart.
  * Fields are looked up and set by `Fields.get?` and `Fields.set`; setting a field that
    is there keeps its place.
-/
import UberPackage.Text
import UberPackage.Number.Binary64

namespace UberPackage

/-- A JSON document. -/
inductive Json where
  | null
  | bool (b : Bool)
  | int (i : Int)
  | float (x : Binary64)
  | str (t : Text)
  | arr (items : List Json)
  | obj (fields : List (Text × Json))
deriving Inhabited, Repr

/-- The fields of an object in order. -/
abbrev Fields := List (Text × Json)

namespace Fields

/-- The value of a field. -/
def get? (key : Text) : Fields → Option Json
  | [] => none
  | (k, v) :: rest => if k = key then some v else get? key rest

/-- Sets a field in its place, or at the end if it is new. -/
def set (key : Text) (value : Json) : Fields → Fields
  | [] => [(key, value)]
  | (k, v) :: rest => if k = key then (k, value) :: rest else (k, v) :: set key value rest

/-- The names of the fields. -/
def keys (fs : Fields) : List Text := fs.map Prod.fst

theorem get?_set_self (key : Text) (value : Json) (fs : Fields) :
    get? key (set key value fs) = some value := by
  induction fs with
  | nil => simp [set, get?]
  | cons f rest ih =>
    obtain ⟨k, v⟩ := f
    by_cases h : k = key <;> simp [set, get?, h, ih]

theorem get?_set_of_ne {key other : Text} (h : other ≠ key) (value : Json) (fs : Fields) :
    get? other (set key value fs) = get? other fs := by
  induction fs with
  | nil => simp [set, get?, Ne.symm h]
  | cons f rest ih =>
    obtain ⟨k, v⟩ := f
    by_cases hk : k = key
    · simp [set, get?, hk, Ne.symm h]
    · by_cases ho : k = other
      · subst ho
        simp [set, get?, hk]
      · simp [set, get?, hk, ho, ih]

/-- Fields listed one after the other, a repeated one set again. -/
def ofList (fs : List (Text × Json)) : Fields := fs.foldl (fun acc (k, v) => set k v acc) []

end Fields

namespace Json

/-- The value of a field of an object. -/
def field? (key : Text) : Json → Option Json
  | obj fs => Fields.get? key fs
  | _ => none

end Json

end UberPackage
