/-
  Binary floating-point numbers of 64 bits, as exact values.

  * A finite number is `mantissa · 2^exponent`; `ofRatio` rounds a ratio to the nearest
    one, to an even mantissa on a tie, and to infinity beyond the largest.
  * `ofDecimal` reads `digits · 10^exponent`.
  * Comparison is exact, also with integers.
-/
namespace UberPackage

/-- A power of ten. -/
def tenTo (n : Nat) : Nat := Nat.pow 10 n

/-- A floating-point number. -/
inductive Binary64 where
  | nan
  | infinity (negative : Bool)
  /-- `mantissa · 2^exponent`, with `2^52 ≤ mantissa < 2^53`, or `exponent = -1074` and a smaller
  mantissa. -/
  | finite (negative : Bool) (mantissa : Nat) (exponent : Int)
deriving DecidableEq, Inhabited, Repr

namespace Binary64

/-- The number zero. -/
def zero (negative : Bool) : Binary64 := finite negative 0 (-1074)

/-- The least mantissa of 53 bits. -/
def leastFull : Nat := 1 <<< 52

/-- A ratio of natural numbers scaled by a power of two, as a ratio. -/
def scale (num den : Nat) (e : Int) : Nat × Nat :=
  if e ≥ 0 then (num <<< e.toNat, den) else (num, den <<< (-e).toNat)

/-- The quotient rounded to the nearest natural number, a half to the even one. -/
def roundDiv (num den : Nat) : Nat :=
  let q := num / den
  let r := num % den
  if 2 * r < den then q
  else if 2 * r > den then q + 1
  else if q % 2 = 0 then q else q + 1

/-- The exponent of the number nearest to a positive ratio, before rounding. -/
def exponentOf (num den : Nat) : Int :=
  let guess : Int := (num.log2 : Int) - (den.log2 : Int) - 52
  let (n, d) := scale num den (-guess)
  let e :=
    if n / d < leastFull then guess - 1
    else if n / d ≥ 2 * leastFull then guess + 1 else guess
  max e (-1074)

/-- The number nearest to a ratio. -/
def ofRatio (negative : Bool) (num den : Nat) : Binary64 :=
  if num = 0 then zero negative
  else
    let e := exponentOf num den
    let (n, d) := scale num den (-e)
    let m := roundDiv n d
    let (m, e) := if m = 2 * leastFull then (leastFull, e + 1) else (m, e)
    if e > 971 then infinity negative else finite negative m e

/-- The number nearest to `digits · 10^exponent`. -/
def ofDecimal (negative : Bool) (digits : Nat) (exponent : Int) : Binary64 :=
  if digits = 0 then zero negative
  else
    let magnitude : Int := (Nat.toDigits 10 digits).length + exponent
    if magnitude > 400 then infinity negative
    else if magnitude < -400 then zero negative
    else if exponent ≥ 0 then ofRatio negative (digits * tenTo exponent.toNat) 1
    else ofRatio negative digits (tenTo (-exponent).toNat)

/-- The number nearest to an integer. -/
def ofInt (i : Int) : Binary64 := ofRatio (i < 0) i.natAbs 1

/-- The exact value of a finite number. -/
def ratio? : Binary64 → Option (Int × Nat)
  | finite negative m e =>
    let (n, d) := scale m 1 e
    some (if negative then -(n : Int) else n, d)
  | _ => none

/-- Zero, of either sign. -/
def isZero : Binary64 → Bool
  | finite _ 0 _ => true
  | _ => false

/-- Equal as numbers: both zeros are equal, and a missing number equals nothing. -/
def eq (x y : Binary64) : Bool :=
  match x, y with
  | nan, _ | _, nan => false
  | infinity a, infinity b => a == b
  | _, _ =>
    match x.ratio?, y.ratio? with
    | some (n, d), some (n', d') => n * d' == n' * d
    | _, _ => false

/-- Strictly less as numbers. -/
def lt (x y : Binary64) : Bool :=
  match x, y with
  | nan, _ | _, nan => false
  | infinity a, infinity b => a && !b
  | infinity a, _ => a
  | _, infinity b => !b
  | _, _ =>
    match x.ratio?, y.ratio? with
    | some (n, d), some (n', d') => n * d' < n' * d
    | _, _ => false

/-- Equal to an integer. -/
def eqInt (x : Binary64) (i : Int) : Bool :=
  match x.ratio? with
  | some (n, d) => n == i * d
  | none => false

/-- Strictly less than an integer. -/
def ltInt (x : Binary64) (i : Int) : Bool :=
  match x with
  | nan => false
  | infinity negative => negative
  | _ =>
    match x.ratio? with
    | some (n, d) => n < i * d
    | none => false

/-- An integer strictly less than the number. -/
def intLt (i : Int) (x : Binary64) : Bool :=
  match x with
  | nan => false
  | infinity negative => !negative
  | _ =>
    match x.ratio? with
    | some (n, d) => i * d < n
    | none => false

/-- The number nearest to a signed ratio. -/
def ofSignedRatio (num : Int) (den : Nat) : Binary64 := ofRatio (num < 0) num.natAbs den

/-- The sum. -/
def add (x y : Binary64) : Binary64 :=
  match x, y with
  | nan, _ | _, nan => nan
  | infinity a, infinity b => if a == b then infinity a else nan
  | infinity a, _ => infinity a
  | _, infinity b => infinity b
  | _, _ =>
    match x.ratio?, y.ratio? with
    | some (n, d), some (n', d') =>
      let sum := n * d' + n' * d
      if sum = 0 then
        match x, y with
        | finite true 0 _, finite true 0 _ => zero true
        | _, _ => zero false
      else ofSignedRatio sum (d * d')
    | _, _ => nan

/-- The product. -/
def mul (x y : Binary64) : Binary64 :=
  match x, y with
  | nan, _ | _, nan => nan
  | infinity a, infinity b => infinity (a != b)
  | infinity a, finite b m _ | finite b m _, infinity a => if m = 0 then nan else infinity (a != b)
  | finite a _ _, finite b _ _ =>
    match x.ratio?, y.ratio? with
    | some (n, d), some (n', d') => ofRatio (a != b) (n * n').natAbs (d * d')
    | _, _ => nan

/-- The number with the other sign. -/
def neg : Binary64 → Binary64
  | nan => nan
  | infinity a => infinity (!a)
  | finite a m e => finite (!a) m e

end Binary64

end UberPackage
