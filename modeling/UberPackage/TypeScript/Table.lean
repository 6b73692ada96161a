/-
  The grammar as numbered productions.

  * `Table.build` spreads every `Form` into productions without options or repetitions:
    an option gives two productions, a repetition a numbered helper of its own.
  * Only the whole text may be empty: every other production has at least one part.
-/
import Std.Data.HashMap
import UberPackage.TypeScript.Grammar

namespace UberPackage.TypeScript

/-- A grammar symbol by number. -/
inductive Sym where
  | token (number : Nat)
  | phrase (number : Nat)
deriving DecidableEq, Inhabited, Repr

/-- One place in a production. -/
structure Part where
  sym : Sym
  role : Option Role := none
deriving DecidableEq, Inhabited, Repr

/-- A phrase and one way to build it. -/
structure Production where
  phrase : Nat
  parts : Array Part
deriving Inhabited, Repr

/-- The numbered grammar. -/
structure Table where
  /-- Tokens in the order in which the grammar first mentions them. -/
  tokens : Array Token
  productions : Array Production
  /-- The productions of each phrase. -/
  productionsOf : Array (Array Nat)
  /-- `first[p][t]`: phrase `p` can begin with token `t`. -/
  first : Array (Array Bool)
  tokenNumber : Std.HashMap Token Nat
  /-- Punctuation by the code of its first character, longest first. -/
  marks : Std.HashMap Nat (List (List Char × Nat))
deriving Inhabited

namespace Table

/-- The phrases with nodes come first, helpers for repetitions after them. -/
def phraseCount : Nat := Phrase.ctorIdx .ambientDeclaration + 1

/-- The phrase with a number, unless the number is a helper's. -/
def phrase? (n : Nat) : Option Phrase :=
  if n < phraseCount then some (Phrase.ofNat n) else none

/-! ## Spreading forms -/

/-- What is built up while forms are spread. -/
structure Draft where
  tokens : Array Token := #[]
  numbers : Std.HashMap Token Nat := {}
  productions : Array Production := #[]
  helpers : Nat := 0

/-- The number of a token, which is new if it has none yet. -/
def numberOf (t : Token) : StateM Draft Nat := do
  let d ← get
  match d.numbers[t]? with
  | some n => return n
  | none =>
    let n := d.tokens.size
    set { d with tokens := d.tokens.push t, numbers := d.numbers.insert t n }
    return n

/-- Adds a production. -/
def addProduction (phrase : Nat) (parts : List Part) : StateM Draft Unit :=
  modify fun d => { d with productions := d.productions.push ⟨phrase, parts.toArray⟩ }

/-- A number for a repetition. -/
def freshHelper : StateM Draft Nat := do
  let d ← get
  set { d with helpers := d.helpers + 1 }
  return phraseCount + d.helpers

/-- All ways to follow a way on the left by a way on the right. -/
def sequences (left right : List (List Part)) : List (List Part) :=
  left.flatMap fun l => right.map (l ++ ·)

mutual
/-- The ways to write out a form, each a sequence of symbols. -/
def spread : Form → StateM Draft (List (List Part))
  | .token t => do return [[⟨.token (← numberOf t), none⟩]]
  | .phrase p => return [[⟨.phrase p.ctorIdx, none⟩]]
  | .inRole r f => do return (← spread f).map (·.map fun part => { part with role := some r })
  | .seq fs => spreadSeq fs
  | .oneOf fs => spreadOneOf fs
  | .opt f => do return [] :: (← spread f)
  | .some f => do
    let ways ← spread f
    let helper ← freshHelper
    for way in ways do
      addProduction helper way
      addProduction helper (⟨.phrase helper, none⟩ :: way)
    return [[⟨.phrase helper, none⟩]]
/-- The ways to write out forms one after the other. -/
def spreadSeq : List Form → StateM Draft (List (List Part))
  | [] => return [[]]
  | f :: fs => do
    let left ← spread f
    let right ← spreadSeq fs
    return sequences left right
/-- The ways to write out one of several forms. -/
def spreadOneOf : List Form → StateM Draft (List (List Part))
  | [] => return []
  | f :: fs => do
    let left ← spread f
    let right ← spreadOneOf fs
    return left ++ right
end

/-- All productions of the grammar. -/
def draft : Draft :=
  let addPhrase (n : Nat) : StateM Draft Unit := do
    for way in (← spread (Phrase.ofNat n).form).eraseDups do
      addProduction n way
  let all : StateM Draft Unit := do
    let _ ← numberOf .identifier
    for n in [0:phraseCount] do addPhrase n
    let _ ← numberOf .endOfText
  (all.run {}).2

/-! ## First tokens -/

/-- One round of adding to each phrase the first tokens of its productions, as sets of bits. -/
def firstRound (productions : Array Production) (sets : Array Nat) : Array Nat :=
  productions.foldl (fun sets (p : Production) =>
    match (p.parts[0]? : Option Part) with
    | none => sets
    | some ⟨.token t, _⟩ => sets.modify p.phrase (· ||| (1 <<< t))
    | some ⟨.phrase q, _⟩ => sets.modify p.phrase (· ||| sets.getD q 0)) sets

/-- Rounds until nothing changes, at most `n`. -/
def firstSets (productions : Array Production) : Nat → Array Nat → Array Nat
  | 0, sets => sets
  | n + 1, sets =>
    let next := firstRound productions sets
    if next == sets then sets else firstSets productions n next

/-- Punctuation by the code of its first character, longest first. -/
def marksByChar (tokens : Array Token) : Std.HashMap Nat (List (List Char × Nat)) :=
  let all := tokens.toList.zipIdx.filterMap fun (t, n) =>
    match t with
    | .mark s => some (s.toList, n)
    | _ => none
  let sorted := all.mergeSort fun a b => b.1.length ≤ a.1.length
  sorted.foldr (fun (cs, n) m =>
    match cs with
    | [] => m
    | c :: _ => m.insert c.toNat ((cs, n) :: m.getD c.toNat [])) {}

/-- The table of the grammar. -/
def build : Table :=
  let d := draft
  let count := phraseCount + d.helpers
  let sets := firstSets d.productions count (Array.replicate count 0)
  { tokens := d.tokens
    productions := d.productions
    productionsOf :=
      d.productions.toList.zipIdx.foldl (fun a (p, n) => a.modify p.phrase (·.push n))
        (Array.replicate count #[])
    first := sets.map fun s => (Array.range d.tokens.size).map (s.testBit ·)
    tokenNumber := d.numbers
    marks := marksByChar d.tokens }

end Table

/-- The numbered TypeScript grammar. -/
def table : Table := Table.build

end UberPackage.TypeScript
