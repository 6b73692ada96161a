/-
  Documents that differ in the order of their fields alone.

  Sorting the fields of every object in a document picks one of all documents that say the same
  (`Json.canonical`); two documents are alike when this gives the same for both (`Json.Alike`).
  What is looked up in an object with its fields in order is what the object has, with its own
  fields in order (`Fields.get?_canonical`).
-/
import UberPackage.Proofs.Json.Sorting

namespace UberPackage

namespace Json

mutual
/-- The document with the fields of each object in order of name. -/
def canonical : Json → Json
  | arr vs => arr (canonicalItems vs)
  | obj fs => obj (Fields.sorted (canonicalFields fs))
  | v => v
def canonicalItems : List Json → List Json
  | [] => []
  | v :: vs => canonical v :: canonicalItems vs
def canonicalFields : List (Text × Json) → Fields
  | [] => []
  | (k, v) :: fs => (k, canonical v) :: canonicalFields fs
end

/-- The documents are equal but for the order of fields. -/
def Alike (v w : Json) : Prop := v.canonical = w.canonical

theorem canonicalItems_eq (vs : List Json) : canonicalItems vs = vs.map canonical := by
  induction vs with
  | nil => rfl
  | cons v vs ih => rw [canonicalItems, ih, List.map_cons]

theorem get?_canonicalFields (fs : Fields) (k : Text) :
    Fields.get? k (canonicalFields fs) = (fs.get? k).map canonical := by
  induction fs with
  | nil => rfl
  | cons f fs ih =>
    rw [canonicalFields, Fields.get?, Fields.get?, ih]
    split <;> rfl

end Json

namespace Fields

/-- The fields in order of name, and those of each object in them. -/
def canonical (fs : Fields) : Fields := sorted (Json.canonicalFields fs)

theorem get?_canonical (fs : Fields) (k : Text) :
    fs.canonical.get? k = (fs.get? k).map Json.canonical := by
  rw [canonical, get?_sorted, Json.get?_canonicalFields]

end Fields

namespace Json

theorem canonical_obj (fs : Fields) : (obj fs).canonical = obj fs.canonical := by
  rw [canonical, Fields.canonical]

theorem alike_obj {fs gs : Fields} : Alike (obj fs) (obj gs) ↔ fs.canonical = gs.canonical := by
  rw [Alike, canonical_obj, canonical_obj, obj.injEq]

/-- What is like a text is that text. -/
theorem eq_str_of_canonical {v : Json} {t : Text} (h : v.canonical = str t) : v = str t := by
  cases v with
  | arr vs => cases h
  | obj fs => cases h
  | _ => exact h

end Json

end UberPackage
