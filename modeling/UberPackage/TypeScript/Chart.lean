/-
  Reading a text by all derivations at once.

  A `Column` holds the items that are alive after some token: productions of which a
  part has been read.  Items that begin alike are kept once, with the first derivation
  found, so the work per token is bounded by the grammar and the number of columns.

  * `Column.close` completes and predicts; with a list of tokens it predicts only what
    can begin with one of them.
  * `scan` reads one token (or an implied semicolon) after a column.
  * `completed` and `accepts` say which tokens could come next, without reading any.
-/
import Std.Data.HashSet
import UberPackage.TypeScript.Lexeme

namespace UberPackage.TypeScript

/-- A part of a production that has been read. -/
structure Piece where
  /-- The column that it begins after. -/
  before : Nat
  start : Nat
  stop : Nat
  /-- The nodes that it adds to the phrase. -/
  nodes : List Node
deriving Inhabited

/-- A production read up to some part. -/
structure Item where
  production : Nat
  /-- The number of parts read. -/
  dot : Nat
  /-- The column that the production begins after. -/
  origin : Nat
  /-- The parts read, last first. -/
  pieces : List Piece
deriving Inhabited

namespace Item

/-- The next part of the production. -/
def next? (t : Table) (i : Item) : Option Part :=
  match t.productions[i.production]? with
  | some p => p.parts[i.dot]?
  | none => none

/-- The part read last. -/
def last? (t : Table) (i : Item) : Option Part :=
  match i.dot with
  | 0 => none
  | n + 1 =>
    match t.productions[i.production]? with
    | some p => p.parts[n]?
    | none => none

/-- The phrase that the item builds. -/
def phrase (t : Table) (i : Item) : Nat :=
  match t.productions[i.production]? with
  | some p => p.phrase
  | none => 0

/-- The item with one more part read. -/
def advance (i : Item) (piece : Piece) : Item :=
  { i with dot := i.dot + 1, pieces := piece :: i.pieces }

/-- Items with one key differ at most in their derivations. -/
def key (i : Item) : Nat × Nat × Nat := (i.production, i.dot, i.origin)

/-- What a completed item adds to the phrase around it. -/
def piece (t : Table) (i : Item) (role : Option Role) : Piece :=
  let pieces := i.pieces.reverse
  let start := (pieces.head?.map (·.start)).getD 0
  let stop := (i.pieces.head?.map (·.stop)).getD 0
  let nodes := pieces.flatMap (·.nodes)
  match Table.phrase? (i.phrase t) with
  | some p =>
    if p.hidden then ⟨i.origin, start, stop, nodes⟩
    else ⟨i.origin, start, stop, [.mk { kind := .phrase p, start, stop, role } nodes]⟩
  | none => ⟨i.origin, start, stop, nodes⟩

end Item

/-- The items alive after a token. -/
structure Column where
  /-- Where the token ends. -/
  position : Nat
  items : Array Item
  /-- The items that wait for each phrase. -/
  waiting : Std.HashMap Nat (Array Item)
  /-- The column whose items go on here, when a stretch of text was left out before. -/
  resumes : Option Nat := none
  /-- The token was supplied. -/
  supplied : Bool := false
deriving Inhabited

/-- The first tokens of a part include one of these. -/
def Part.canBegin (t : Table) (tokens : List Nat) (p : Part) : Bool :=
  match p.sym with
  | .token n => tokens.contains n
  | .phrase q => tokens.any fun n => (t.first.getD q #[]).getD n false

namespace Column

/-- A column under construction. -/
structure Draft where
  items : Array Item
  keys : Std.HashSet (Nat × Nat × Nat)
  waiting : Std.HashMap Nat (Array Item)

/-- Adds an item unless one with the same key is there. -/
def Draft.add (d : Draft) (i : Item) : Draft :=
  if d.keys.contains i.key then d
  else { d with items := d.items.push i, keys := d.keys.insert i.key }

/-- Handles one item: completes it, or predicts the phrase that it waits for. -/
def Draft.handle (t : Table) (columns : Array Column) (tokens : Option (List Nat)) (d : Draft)
    (i : Item) : Draft :=
  match i.next? t with
  | none =>
    let waiting : Array Item :=
      match columns[i.origin]? with
      | some c => c.waiting.getD (i.phrase t) #[]
      | none => #[]
    waiting.foldl (fun d parent =>
      d.add (parent.advance (i.piece t ((parent.next? t).bind (·.role))))) d
  | some ⟨.token _, _⟩ => d
  | some ⟨.phrase q, _⟩ =>
    let known := d.waiting.contains q
    let d := { d with waiting := d.waiting.insert q ((d.waiting.getD q #[]).push i) }
    if known then d
    else
      (t.productionsOf.getD q #[]).foldl (fun d n =>
        match (t.productions[n]?).bind (·.parts[0]?) with
        | none => d
        | some part =>
          if tokens.all (part.canBegin t) then d.add ⟨n, 0, columns.size, []⟩ else d) d

/-- The column after its kernel: all that completes, and all that can begin next. -/
def close (t : Table) (columns : Array Column) (tokens : Option (List Nat)) (position : Nat)
    (kernel : Array Item) : Column := Id.run do
  let mut d : Draft := ⟨#[], {}, {}⟩
  for i in kernel do d := d.add i
  let bound := (columns.size + 1) * (t.productions.size + 1) * 16
  let mut at' := 0
  for _ in [0:bound] do
    match d.items[at']? with
    | none => break
    | some i =>
      d := d.handle t columns tokens i
      at' := at' + 1
  return { position, items := d.items, waiting := d.waiting }

end Column

/-! ## What can come next -/

/-- The items together with all that they complete. -/
def completed (t : Table) (columns : Array Column) (kernel : Array Item) : Array Item := Id.run do
  let mut d : Column.Draft := ⟨#[], {}, {}⟩
  for i in kernel do d := d.add i
  let bound := (columns.size + 1) * (t.productions.size + 1) * 16
  let mut at' := 0
  for _ in [0:bound] do
    match d.items[at']? with
    | none => break
    | some i =>
      if (i.next? t).isNone then d := d.handle t columns none i
      at' := at' + 1
  return d.items

/-- The items can go on with the token. -/
def accepts (t : Table) (items : Array Item) (token : Nat) : Bool :=
  items.any fun i => ((i.next? t).map (·.canBegin t [token])).getD false

/-- The number of a token in the grammar. -/
def Table.number (t : Table) (tok : Token) : Nat := t.tokenNumber.getD tok t.tokens.size

/-! ## Reading a token -/

/-- The start of a reading: nothing has been read. -/
def startItems (t : Table) : Array Item :=
  (t.productionsOf.getD (Phrase.ctorIdx .program) #[]).map (⟨·, 0, 0, []⟩)

/-- The whole text has been read by these items. -/
def finished? (t : Table) (items : Array Item) : Option Item :=
  items.find? fun i =>
    (i.next? t).isNone && i.phrase t == Phrase.ctorIdx .program && i.origin == 0

/-- What follows a place: comments first, then the tokens that the text can go on with. -/
structure Ahead where
  /-- The place before the blanks and each place after a comment. -/
  stops : List Nat
  /-- Where the next token begins. -/
  start : Nat
  comments : List (Nat × Nat)
  lexemes : List (Nat × Nat)

/-- What follows a place. -/
def Source.ahead (s : Source) (t : Table) (i : Nat) : Ahead :=
  let (start, comments) := s.afterComments i
  let continuations := (s.continuations i).filterMap fun (tok, e) =>
    t.tokenNumber[tok]?.map (·, e)
  { stops := i :: comments.map (·.2), start, comments
    lexemes := continuations ++ s.lexemes t start }

/-- The token numbers that decide what is predicted. -/
def Ahead.tokens (t : Table) (a : Ahead) : List Nat :=
  t.number .autoSemicolon :: t.number .signatureSemicolon :: a.lexemes.map (·.1)

/-- The items that read `token` next, advanced over it. -/
def shift (t : Table) (items : Array Item) (token : Nat) (piece : Option Role → Piece) :
    Array Item :=
  items.filterMap fun i =>
    match i.next? t with
    | some ⟨.token n, role⟩ => if n == token then some (i.advance (piece role)) else none
    | _ => none

/-- A leaf as a piece. -/
def leafPiece (t : Table) (before token start stop : Nat) (role : Option Role) : Piece :=
  { before, start, stop
    nodes := [.mk { kind := .token (t.tokens.getD token .endOfText), start, stop, role } []] }

/-- A token read after a column. -/
structure Scanned where
  start : Nat
  stop : Nat
  /-- The items that it advances. -/
  items : Array Item

/-- The ways to read one token after a column.  A semicolon that the text implies excludes all
other tokens, the next stretch of a string or template excludes what stands outside it, and a
keyword that fits excludes the name with its spelling. -/
def scan (t : Table) (s : Source) (ahead : Ahead) (index : Nat) (c : Column) : List Scanned :=
  let auto := t.number .autoSemicolon
  let signature := t.number .signatureSemicolon
  let direct := fun (n : Nat) => c.items.any fun i => i.next? t == some ⟨.token n, none⟩
  let inSignature := direct signature
  let inExpression := accepts t c.items (t.number (.mark "||"))
  let implied :=
    if c.supplied || !(inSignature || direct auto) then none
    else ahead.stops.find? (s.impliesSemicolon inExpression inSignature)
  match implied with
  | some stop =>
    let piece := fun (_ : Option Role) => (⟨index, stop, stop, []⟩ : Piece)
    [⟨stop, stop, shift t c.items auto piece ++ shift t c.items signature piece⟩]
  | none =>
    let token := fun (n : Nat) => t.tokens.getD n .endOfText
    let wanted := ahead.lexemes.filter fun (n, _) => direct n ||
      c.items.any fun i => i.next? t == some ⟨.token n, some .source⟩
    let inside := wanted.filter fun (n, _) => (token n).immediate
    let wanted := if inside.isEmpty then wanted else inside
    let keyword := wanted.any fun (n, _) =>
      match token n with
      | .word _ => true
      | _ => false
    wanted.filterMap fun (n, e) =>
      if keyword && token n == .identifier then none
      else
        let start := if (token n).immediate then c.position else ahead.start
        some ⟨start, e, shift t c.items n (leafPiece t index n start e)⟩

end UberPackage.TypeScript
