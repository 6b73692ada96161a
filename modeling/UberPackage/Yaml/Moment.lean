/-
  Dates and times of YAML.

  `Moment.parse?` takes a text apart, `Moment.isValid` says whether the calendar and the clock
  know the moment.
-/
import UberPackage.Yaml.Cursor

namespace UberPackage.Yaml

/-- A date, and perhaps a time. -/
structure Moment where
  year : Nat
  month : Nat
  day : Nat
  /-- Hour, minute and second. -/
  clock : Option (Nat × Nat × Nat)
  /-- Minutes east or west of the zero meridian. -/
  zone : Nat
  /-- Month and day are two digits each. -/
  padded : Bool
deriving DecidableEq, Inhabited, Repr

namespace Moment

/-- A number of at least `low` and at most `high` digits, its length and what follows. -/
def digits? (low high : Nat) (cs : List Char) : Option (Nat × Nat × List Char) :=
  let ds := (cs.take high).takeWhile Char.isDigit
  if ds.length < low then none
  else
    some (ds.foldl (fun n d => 10 * n + (d.toNat - 48)) 0, ds.length, cs.drop ds.length)

/-- What follows a character. -/
def after? (c : Char) : List Char → Option (List Char)
  | x :: rest => if x == c then some rest else none
  | [] => none

/-- A zone, at the end of a text. -/
def zone? (cs : List Char) : Option Nat :=
  match cs.dropWhile isBlank with
  | [] => if cs.isEmpty then some 0 else none
  | ['Z'] => some 0
  | sign :: rest => do
    if sign != '+' && sign != '-' then none
    let (hour, _, rest) ← digits? 1 2 rest
    match rest with
    | [] => return 60 * hour
    | ':' :: rest =>
      let (minute, _, rest) ← digits? 2 2 rest
      if rest.isEmpty then return 60 * hour + minute else none
    | _ => none

/-- A time and a zone, at the end of a text. -/
def clock? (cs : List Char) : Option ((Nat × Nat × Nat) × Nat) := do
  let (hour, _, cs) ← digits? 1 2 cs
  let (minute, _, cs) ← digits? 2 2 (← after? ':' cs)
  let (second, _, cs) ← digits? 2 2 (← after? ':' cs)
  let cs :=
    match cs with
    | '.' :: rest => rest.dropWhile Char.isDigit
    | _ => cs
  return ((hour, minute, second), ← zone? cs)

/-- The moment that a text spells. -/
def parse? (cs : List Char) : Option Moment := do
  let (year, _, cs) ← digits? 4 4 cs
  let (month, m, cs) ← digits? 1 2 (← after? '-' cs)
  let (day, d, cs) ← digits? 1 2 (← after? '-' cs)
  let padded := m == 2 && d == 2
  match cs with
  | [] => return ⟨year, month, day, none, 0, padded⟩
  | x :: rest =>
    let rest ←
      if x == 'T' || x == 't' then some rest
      else if isBlank x then some (rest.dropWhile isBlank)
      else none
    let (clock, zone) ← clock? rest
    return ⟨year, month, day, some clock, zone, padded⟩

/-- The days of a month. -/
def daysIn (year month : Nat) : Nat :=
  if month == 2 then
    if (year % 4 == 0 && year % 100 != 0) || year % 400 == 0 then 29 else 28
  else if [4, 6, 9, 11].contains month then 30
  else 31

/-- The date is in the calendar, and the time on the clock. -/
def isValid (m : Moment) : Bool :=
  1 ≤ m.year && 1 ≤ m.month && m.month ≤ 12 && 1 ≤ m.day && m.day ≤ daysIn m.year m.month &&
    m.clock.all (fun (h, i, s) => h < 24 && i < 60 && s < 60) && m.zone < 24 * 60

end Moment

end UberPackage.Yaml
