/-
  The values of YAML documents.

  * `Value.ofScalar` gives a scalar the value that its tag asks for.
  * `Node.flatten` merges mappings into those that ask for it.
  * `Value.read` gives the value of a text.  Of a collection, the scalars in it are looked at
    before the collections in it.
-/
import UberPackage.Yaml.Node
import UberPackage.Text.Printable

namespace UberPackage.Yaml

/-- The value of a node. -/
inductive Value where
  | null
  | bool (b : Bool)
  | int (i : Int)
  | float (x : Binary64)
  | str (t : Text)
  | bytes (bs : Bytes)
  | moment (m : Moment)
  | list (items : List Value)
  | mapping (pairs : List (Value × Value))
  | set (items : List Value)
  | pair (key value : Value)
  /-- A collection that the value stands in. -/
  | within
deriving Inhabited, Repr

namespace Value

/-! ## Numbers -/

/-- The value of a digit up to a base. -/
def digit? (base : Nat) (c : Char) : Option Nat :=
  let v :=
    if c.isDigit then c.toNat - 48
    else if 'a' ≤ c && c ≤ 'z' then c.toNat - 87
    else if 'A' ≤ c && c ≤ 'Z' then c.toNat - 55
    else 36
  if v < base then some v else none

/-- The value of digits to a base. -/
def digits? (base : Nat) (cs : List Char) : Option Nat :=
  if cs.isEmpty then none
  else
    cs.foldl (fun acc c => do return base * (← acc) + (← digit? base c)) (some 0)

/-- The letter that may stand between a zero and digits to a base. -/
def baseLetter? : Nat → Option Char
  | 2 => some 'b'
  | 8 => some 'o'
  | 16 => some 'x'
  | _ => none

/-- The digits without a zero and the letter of their base. -/
def withoutBase (base : Nat) : List Char → List Char
  | '0' :: c :: cs =>
    if (baseLetter? base).any (fun l => c == l || c == l.toUpper) then cs else '0' :: c :: cs
  | cs => cs

/-- The most digits of an integer in decimal. -/
def integerDigits : Nat := 4300

/-- The text without blanks around it. -/
def trimmed (cs : List Char) : List Char :=
  let blank := fun c => Code.isBlank (.char c)
  ((cs.dropWhile blank).reverse.dropWhile blank).reverse

/-- A sign and digits to a base, with blanks around them. -/
def integer? (base : Nat) (cs : List Char) : Option Int := do
  let cs := trimmed cs
  let ds := withoutBase base (Tag.unsigned cs)
  if base == 10 && integerDigits < ds.length then none
  let n ← digits? base ds
  return if cs.head? == some '-' then -n else n

/-- An integer: binary, octal, decimal, hexadecimal, or to the base of sixty. -/
def ofInt (cs : List Char) : Except Misfit Int := do
  let cs := cs.filter (· != '_')
  if cs.isEmpty then .error .tooShort
  let negative := cs.head? == some '-'
  let plain := Tag.unsigned cs
  let size ←
    match plain with
    | [] => .error .tooShort
    | ['0'] => pure (0 : Int)
    | '0' :: 'b' :: ds => orMalformed (integer? 2 ds)
    | '0' :: 'x' :: ds => orMalformed (integer? 16 ds)
    | '0' :: _ => orMalformed (integer? 8 plain)
    | _ =>
      if plain.contains ':' then do
        let parts ← (Tag.colonPieces plain).mapM fun p => orMalformed (integer? 10 p)
        pure (parts.foldl (fun v p => 60 * v + p) 0)
      else orMalformed (integer? 10 plain)
  return if negative then -size else size
where
  /-- A number, or else a malformed text. -/
  orMalformed (v : Option Int) : Except Misfit Int :=
    match v with
    | some i => .ok i
    | none => .error .malformed

/-- A number in decimal, with blanks around it; in lower case. -/
def decimal? (cs : List Char) : Option Binary64 := do
  let cs := trimmed cs
  let negative := cs.head? == some '-'
  let plain := Tag.unsigned cs
  if plain = "inf".toList || plain = "infinity".toList then return .infinity negative
  if plain = "nan".toList then return .nan
  let whole := plain.takeWhile Char.isDigit
  let rest := plain.drop whole.length
  let fraction :=
    match rest with
    | '.' :: more => more.takeWhile Char.isDigit
    | _ => []
  let rest := if rest.head? == some '.' then rest.drop (fraction.length + 1) else rest
  let digits ← digits? 10 (whole ++ fraction)
  let exponent ←
    match rest with
    | [] => some (0 : Int)
    | 'e' :: more =>
      (digits? 10 (Tag.unsigned more)).map fun n =>
        if more.head? == some '-' then -(n : Int) else n
    | _ => none
  return .ofDecimal negative digits (exponent - fraction.length)

/-- A number with a point, perhaps to the base of sixty. -/
def ofFloat (cs : List Char) : Except Misfit Binary64 := do
  let cs := (cs.filter (· != '_')).map Char.toLower
  if cs.isEmpty then .error .tooShort
  let negative := cs.head? == some '-'
  let plain := Tag.unsigned cs
  let size ←
    if plain = ".inf".toList then pure (Binary64.infinity false)
    else if plain = ".nan".toList then pure Binary64.nan
    else if plain.contains ':' then do
      let parts ← (Tag.colonPieces plain).mapM fun p => orMalformed (decimal? p)
      let (sum, _) := parts.reverse.foldl (fun (sum, base) p =>
        (sum.add (p.mul (Binary64.ofInt base)), base * 60)) (Binary64.zero false, (1 : Int))
      pure sum
    else orMalformed (decimal? plain)
  return if negative then size.neg else size
where
  /-- A number, or else a malformed text. -/
  orMalformed (v : Option Binary64) : Except Misfit Binary64 :=
    match v with
    | some x => .ok x
    | none => .error .malformed

/-! ## Bytes -/

/-- The value of a letter that stands for six bits. -/
def sixBits? (c : Char) : Option Nat :=
  if 'A' ≤ c && c ≤ 'Z' then some (c.toNat - 65)
  else if 'a' ≤ c && c ≤ 'z' then some (c.toNat - 71)
  else if c.isDigit then some (c.toNat + 4)
  else if c == '+' then some 62
  else if c == '/' then some 63
  else none

/-- The groups of six bits up to the padding, and whether there is enough of it. -/
def sixBitGroups : List Char → Nat → Nat → List Nat × Bool
  | [], count, _ => ([], count % 4 == 0)
  | c :: cs, count, pads =>
    if c == '=' then
      if 2 ≤ count % 4 then
        if 4 ≤ count % 4 + pads + 1 then ([], true) else sixBitGroups cs count (pads + 1)
      else sixBitGroups cs count pads
    else
      match sixBits? c with
      | some v =>
        let (vs, whole) := sixBitGroups cs (count + 1) 0
        (v :: vs, whole)
      | none => sixBitGroups cs count pads

/-- The bytes of groups of six bits. -/
def bytesOf : List Nat → Bytes
  | a :: b :: c :: d :: rest =>
    UInt8.ofNat (4 * a + b / 16) :: UInt8.ofNat (16 * b + c / 4) :: UInt8.ofNat (64 * c + d) ::
      bytesOf rest
  | [a, b, c] => [UInt8.ofNat (4 * a + b / 16), UInt8.ofNat (16 * b + c / 4)]
  | [a, b] => [UInt8.ofNat (4 * a + b / 16)]
  | _ => []

/-- The bytes that letters stand for. -/
def ofBinary (cs : List Char) : Except Fault Bytes :=
  if cs.any fun c => 128 ≤ c.toNat then refuse
  else
    match sixBitGroups cs 0 0 with
    | (vs, true) => .ok (bytesOf vs)
    | (_, false) => refuse

/-! ## Scalars -/

/-- The truth value of a word. -/
def ofBool (cs : List Char) : Except Misfit Bool :=
  let word := String.ofList (cs.map Char.toLower)
  if ["yes", "true", "on"].contains word then .ok true
  else if ["no", "false", "off"].contains word then .ok false
  else .error .unknownName

/-- The moment that a text spells. -/
def ofMoment (cs : List Char) : Except Misfit Moment :=
  match Moment.parse? cs with
  | none => .error .noFields
  | some m => if m.isValid then .ok m else .error .malformed

/-- A misfit as a fault. -/
def fitting {α : Type} : Except Misfit α → Except Fault α
  | .ok a => .ok a
  | .error m => .error (.misfit m)

/-- The value that a tag asks for. -/
def ofScalar (tag : Tag) (t : Text) : Except Fault Value :=
  let cs := t.display.toList
  match tag with
  | .null => .ok .null
  | .bool => bool <$> fitting (ofBool cs)
  | .int => int <$> fitting (ofInt cs)
  | .float => float <$> fitting (ofFloat cs)
  | .binary => bytes <$> ofBinary cs
  | .moment => moment <$> fitting (ofMoment cs)
  | .str => .ok (str t)
  | _ => refuse

end Value

/-! ## Merging -/

namespace Node

/-- The pairs of a mapping. -/
def pairs? : Node → Option (List (Node × Node))
  | .mapping _ ps => some ps
  | .within => some []
  | _ => none

/-- The pairs of a mapping, or of a list of mappings, the last first. -/
def merged? : Node → Option (List (Node × Node))
  | .list _ items => (items.reverse.mapM pairs?).map List.flatten
  | n => n.pairs?

/-- The pairs that a pair brings into its mapping. -/
def merged : Node × Node → List (Node × Node)
  | (.scalar .merge _, v) => v.merged?.getD []
  | _ => []

/-- The pair as it stays in its mapping, unless it is merged. -/
def kept : Node × Node → Option (Node × Node)
  | (.scalar .merge t, v) => if v.merged?.isSome then none else some (.scalar .merge t, v)
  | (.scalar .default t, v) => some (.scalar .str t, v)
  | p => some p

/-- Pairs after merging. -/
def mergeAll (ps : List (Node × Node)) : List (Node × Node) :=
  ps.flatMap merged ++ ps.filterMap kept

mutual
/-- The node with all mappings merged. -/
def flatten : Node → Node
  | .scalar tag t => .scalar tag t
  | .list tag items => .list tag (flattenItems items)
  | .mapping tag ps => .mapping tag (mergeAll (flattenPairs ps))
  | .within => .within
/-- The items with all mappings merged. -/
def flattenItems : List Node → List Node
  | [] => []
  | n :: ns => flatten n :: flattenItems ns
/-- The pairs with all mappings merged. -/
def flattenPairs : List (Node × Node) → List (Node × Node)
  | [] => []
  | (k, v) :: ps => (flatten k, flatten v) :: flattenPairs ps
end

/-- What is wrong with a node, its contents apart. -/
def fault? : Node → Option Fault
  | .scalar tag t =>
    match Value.ofScalar tag t with
    | .ok _ => none
    | .error f => some f
  | .list tag _ =>
    if tag == .list || tag == .orderedMapping || tag == .pairs then none else some .notYaml
  | .mapping tag _ => if tag == .mapping || tag == .set then none else some .notYaml
  | .within => none

/-- What is wrong with a node as a key: it has to be a scalar. -/
def keyFault? : Node → Option Fault
  | .scalar tag t => (Node.scalar tag t).fault?
  | _ => some .notYaml

/-- What is wrong with the pairs of a mapping, their contents apart. -/
def pairsFault? (ps : List (Node × Node)) : Option Fault :=
  ps.findSome? fun (k, v) => k.keyFault?.or v.fault?

end Node

namespace Value

/-- Fails with a fault if there is one. -/
def guardFault (f : Option Fault) : Except Fault Unit :=
  match f with
  | some f => .error f
  | none => .ok ()

/-- A mapping with exactly one pair, as that pair. -/
def onlyPair : Value → Except Fault Value
  | .mapping [(k, v)] => .ok (.pair k v)
  | _ => refuse

mutual
/-- The value of a node whose mappings are merged. -/
def ofNode : Node → Except Fault Value
  | .scalar tag t => ofScalar tag t
  | .list tag items => do
    guardFault (Node.list tag items).fault?
    guardFault (items.findSome? Node.fault?)
    let vs ← ofItems items
    if tag == .list then return .list vs else return .list (← vs.mapM onlyPair)
  | .mapping tag ps => do
    guardFault (Node.mapping tag ps).fault?
    guardFault (Node.pairsFault? ps)
    let vs ← ofPairs ps
    if tag == .set then return .set (vs.map Prod.fst) else return .mapping vs
  | .within => .ok .within
/-- The values of items. -/
def ofItems : List Node → Except Fault (List Value)
  | [] => .ok []
  | n :: ns => do return (← ofNode n) :: (← ofItems ns)
/-- The values of pairs. -/
def ofPairs : List (Node × Node) → Except Fault (List (Value × Value))
  | [] => .ok []
  | (k, v) :: ps => do return (← ofNode k, ← ofNode v) :: (← ofPairs ps)
end

/-- The value of a text; nothing if the text holds no document. -/
def read (cs : List Char) : Except Fault Value :=
  if !cs.all isAllowed then refuse
  else do
    match ← Node.document? cs with
    | some n => ofNode n.flatten
    | none => return .null

/-- Neither nothing, false, zero nor empty. -/
def truthy : Value → Bool
  | null => false
  | bool b => b
  | int i => i != 0
  | float x => !x.isZero
  | str t => !t.isEmpty
  | bytes bs => !bs.isEmpty
  | list vs => !vs.isEmpty
  | mapping ps => !ps.isEmpty
  | set vs => !vs.isEmpty
  | moment _ | pair _ _ | within => true

end Value

end UberPackage.Yaml
