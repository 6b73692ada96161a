/-
  Comparing documents.

  * `same` is equality of values: numbers are equal by value, whatever their kind, and
    `true` and `false` are the numbers 1 and 0; the order of fields does not matter.
  * `less?` orders numbers, texts by code point and arrays item by item; other values
    have no order.
  * `sort?` sorts values that have an order among each other.
-/
import UberPackage.Json

namespace UberPackage.Json

/-- A number of either kind. -/
inductive Numeral where
  | whole (i : Int)
  | real (x : Binary64)

/-- The number that a value is. -/
def numeral? : Json → Option Numeral
  | bool b => some (.whole (if b then 1 else 0))
  | int i => some (.whole i)
  | float x => some (.real x)
  | _ => none

namespace Numeral

/-- Equal by value. -/
def same : Numeral → Numeral → Bool
  | whole i, whole j => i == j
  | whole i, real x | real x, whole i => x.eqInt i
  | real x, real y => x.eq y

/-- Strictly less by value. -/
def less : Numeral → Numeral → Bool
  | whole i, whole j => i < j
  | whole i, real x => Binary64.intLt i x
  | real x, whole i => x.ltInt i
  | real x, real y => x.lt y

end Numeral

mutual
/-- Equality of values. -/
def same : Json → Json → Bool
  | null, null => true
  | str s, str t => s == t
  | arr xs, arr ys => sameItems xs ys
  | obj fs, obj gs => fs.length == gs.length && sameFields fs gs
  | bool a, v => sameNumeral (.whole (if a then 1 else 0)) v
  | int i, v => sameNumeral (.whole i) v
  | float x, v => sameNumeral (.real x) v
  | _, _ => false
/-- Equality item by item. -/
def sameItems : List Json → List Json → Bool
  | [], [] => true
  | x :: xs, y :: ys => same x y && sameItems xs ys
  | _, _ => false
/-- Each field is the same in the other object. -/
def sameFields : List (Text × Json) → Fields → Bool
  | [], _ => true
  | (k, v) :: fs, gs =>
    (match gs.get? k with
      | some w => same v w
      | none => false) && sameFields fs gs
/-- The value is this number. -/
def sameNumeral (n : Numeral) (v : Json) : Bool :=
  match v.numeral? with
  | some m => n.same m
  | none => false
end

/-- The value is among the values. -/
def isIn (v : Json) (vs : List Json) : Bool := vs.any (·.same v)

mutual
/-- Strictly before, if the two have an order. -/
def less? : Json → Json → Option Bool
  | str s, str t => some (s.lt t)
  | arr xs, arr ys => lessItems? xs ys
  | v, w =>
    match v.numeral?, w.numeral? with
    | some m, some n => some (m.less n)
    | _, _ => none
/-- The order of arrays: by the first items that differ, a shorter one first. -/
def lessItems? : List Json → List Json → Option Bool
  | [], ys => some (!ys.isEmpty)
  | _ :: _, [] => some false
  | x :: xs, y :: ys => if same x y then lessItems? xs ys else less? x y
end

/-- Any two of the values have an order. -/
def allOrdered : List Json → Bool
  | [] => true
  | v :: vs => vs.all (fun w => (less? v w).isSome) && allOrdered vs

/-- The values in order, if any two of them have one. -/
def sort? (vs : List Json) : Option (List Json) :=
  if allOrdered vs then some (vs.mergeSort fun v w => less? w v != some true) else none

end UberPackage.Json
