/-
  Decimal text of floating-point numbers.

  * `shortest` gives the fewest decimal digits that read back as the number, and of
    those the nearest.
  * `Binary64.textWith` lays them out: positional from 0.0001 up to sixteen digits before
    the point, always with a point; otherwise with an exponent of at least two digits.
-/
import UberPackage.Text
import UberPackage.Number.Binary64

namespace UberPackage

namespace Decimal

/-- The reals that round to `mantissa · 2^exponent`, as numerators over a common denominator:
lower end, value, upper end, denominator, and whether the ends belong to it. -/
structure Span where
  low : Nat
  value : Nat
  high : Nat
  den : Nat
  closed : Bool

/-- The span of a positive number. -/
def span (mantissa : Nat) (exponent : Int) : Span :=
  let narrow := mantissa = Binary64.leastFull && exponent > -1074
  let at' := fun (quarters : Nat) => Binary64.scale quarters 4 exponent
  { low := (at' (4 * mantissa - if narrow then 1 else 2)).1
    value := (at' (4 * mantissa)).1
    high := (at' (4 * mantissa + 2)).1
    den := (at' 0).2
    closed := mantissa % 2 = 0 }

/-- The ratio `num / den` is in the span. -/
def Span.holds (s : Span) (num den : Nat) : Bool :=
  let n := num * s.den
  if s.closed then s.low * den ≤ n && n ≤ s.high * den else s.low * den < n && n < s.high * den

/-- The least `k` with `num < den · 10^k`, searched upward from `k`. -/
def magnitudeFrom (num den : Nat) : Nat → Int → Int
  | 0, k => k
  | n + 1, k =>
    let below := if k ≥ 0 then num < den * tenTo k.toNat else num * tenTo (-k).toNat < den
    if below then k else magnitudeFrom num den n (k + 1)

/-- The number of decimal digits before the point; negative with zeros after the point. -/
def magnitude (num den : Nat) : Int := magnitudeFrom num den 800 (-400)

/-- A decimal fraction `digits · 10^exponent` as a ratio. -/
def ratio (digits : Nat) (exponent : Int) : Nat × Nat :=
  if exponent ≥ 0 then (digits * tenTo exponent.toNat, 1) else (digits, tenTo (-exponent).toNat)

/-- The nearest decimal with `n` digits, if it reads back; a tie goes to the even digit. -/
def withDigits? (s : Span) (k : Int) (n : Nat) : Option (Nat × Int) :=
  let e := k - n
  -- the value in units of `10^e`
  let (num, den) :=
    if e ≥ 0 then (s.value, s.den * tenTo e.toNat) else (s.value * tenTo (-e).toNat, s.den)
  let below := num / den
  let rest := num % den
  let reads := fun (d : Nat) => let (p, q) := ratio d e; s.holds p q
  match reads below, reads (below + 1) with
  | true, false => some (below, e)
  | false, true => some (below + 1, e)
  | true, true =>
    if 2 * rest < den then some (below, e)
    else if 2 * rest > den then some (below + 1, e)
    else some (if below % 2 = 0 then below else below + 1, e)
  | false, false => none

/-- The fewest digits that read back as a positive number, and their exponent. -/
def shortest (mantissa : Nat) (exponent : Int) : Nat × Int :=
  let s := span mantissa exponent
  let k := magnitude s.value s.den
  ((List.range 17).findSome? fun n => withDigits? s k (n + 1)).getD (0, 0)

/-- Digits without trailing zeros. -/
def trimZeros (ds : List Char) : List Char := (ds.reverse.dropWhile (· == '0')).reverse

/-- Digits with the point after the first `point` of them. -/
def layout (ds : List Char) (point : Int) : List Char :=
  let count : Int := ds.length
  if point ≤ -4 || point > 16 then
    let e := point - 1
    let digits := Nat.toDigits 10 e.natAbs
    let digits := if digits.length < 2 then '0' :: digits else digits
    let fraction := ds.drop 1
    ds.take 1 ++ (if fraction.isEmpty then [] else '.' :: fraction) ++
      'e' :: (if e < 0 then '-' else '+') :: digits
  else if point ≤ 0 then '0' :: '.' :: List.replicate (-point).toNat '0' ++ ds
  else if point ≥ count then ds ++ List.replicate (point - count).toNat '0' ++ ['.', '0']
  else ds.take point.toNat ++ '.' :: ds.drop point.toNat

end Decimal

/-- The number as text; `nan` and `infinity` give the names of the two kinds without digits. -/
def Binary64.textWith (nan infinity : String) : Binary64 → Text
  | .nan => nan
  | .infinity negative => (if negative then "-" else "" : Text) ++ infinity
  | .finite negative m e =>
    let digits :=
      if m = 0 then ['0', '.', '0']
      else
        let (d, k) := Decimal.shortest m e
        let ds := Nat.toDigits 10 d
        Decimal.layout (Decimal.trimZeros ds) (ds.length + k)
    (if negative then "-" else "" : Text) ++ Text.ofChars digits

end UberPackage
